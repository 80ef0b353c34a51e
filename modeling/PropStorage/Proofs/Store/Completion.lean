import PropStorage.Proofs.Store.Composition
import PropStorage.Proofs.Store.Contention
import PropStorage.Proofs.Store.Mirror

/-!
# Storing a version alone

What a call that stores a version does while nobody else uses the store. Of the records of the
version, any may be there already (`Tables.Approaches`).

* `storeVersion_eq_ok`: if none of them has another content (`Tables.Conflicts`), the missing ones
  are written, and the version becomes active;
* `storeVersion_eq_error`: otherwise the first one that has is refused, and the missing ones before
  it are written;
* `Attempt.storeVersion_alone`: so a call that was cut short is completed by the next one, and a
  call that was not has nothing to write when it is repeated.
-/

namespace PropStorage

/-! ## Records before a conflict -/

/-- The first entries of a sorted list are those with the smaller names. -/
theorem Entries.find?_of_sorted_append {α : Type} {before after : Entries α} {e : String × α}
    (h : Sorted (before ++ e :: after)) (name : String) :
    find? before name = if name < e.1 then find? (before ++ e :: after) name else none := by
  obtain ⟨-, hlater, hbefore⟩ := List.pairwise_append.1 h
  by_cases hlt : name < e.1
  · have hnone : find? after name = none := Sorted.find?_eq_none hlater (String.lt_asymm hlt)
    have hrest : find? (e :: after) name = none := by
      rw [find?_cons, if_neg (String.ne_of_lt hlt), hnone]
    rw [if_pos hlt, find?_append, hrest, Option.orElse_eq_orElse, Option.orElse_eq_or,
      Option.or_none]
  · rw [if_neg hlt, find?_eq_none_iff]
    intro hmem
    obtain ⟨f, hf, rfl⟩ := List.mem_map.1 hmem
    exact hlt (hbefore f hf e List.mem_cons_self)

/-- The record of a component that a key stands for. -/
def ResolvedComponent.record? (c : ResolvedComponent) (component : String) (key : RecordKey) :
    Option Record :=
  if key.isOf component c.versionId then (c.storables.find? key.prop).map (.ofStorable key)
  else none

theorem ResolvedComponent.record?_mk (c : ResolvedComponent) (component prop : String) :
    c.record? component ⟨component, prop, c.versionId⟩
      = (c.storables.find? prop).map (.ofStorable ⟨component, prop, c.versionId⟩) :=
  if_pos (RecordKey.isOf_iff.2 ⟨rfl, rfl⟩)

theorem find?_versionRecords_key (component version : String) (storables : Entries StorableShape)
    (key : RecordKey) :
    (versionRecords component version storables).find? (·.key = key)
      = if key.isOf component version then
          (Entries.find? storables key.prop).map (.ofStorable key)
        else none := by
  by_cases hof : key.isOf component version = true
  · rw [if_pos hof]
    obtain ⟨rfl, rfl⟩ := RecordKey.isOf_iff.1 hof
    exact find?_versionRecords ..
  · rw [if_neg hof, List.find?_eq_none]
    intro r hr hkey
    obtain ⟨e, -, rfl⟩ := List.mem_map.1 hr
    obtain rfl := of_decide_eq_true hkey
    exact hof (RecordKey.isOf_iff.2 ⟨rfl, rfl⟩)

namespace Store

variable {s : Store}

/-- Where the missing ones of some records are written, each is found unless its key was taken. -/
theorem find?_append_filter_lacks (s : Store) (records : List Record) (key : RecordKey) :
    (s.append (records.filter s.lacks)).find? key
      = (s.find? key).or (records.find? (·.key = key)) := by
  rw [find?_append]
  cases hfind : s.find? key with
  | some r => rfl
  | none =>
    rw [Option.none_or, Option.none_or, List.find?_filter]
    refine List.find?_congr fun r _ => ?_
    by_cases hkey : r.key = key
    · subst hkey
      simp [lacks, hfind]
    · simp [hkey]

/-- The first conflict, and what is written before it. -/
theorem ensured_eq_error {records : List Record} {r : Record} (hr : r ∈ records)
    (hconflicts : s.conflicts r = true) :
    ∃ before first after, records = before ++ first :: after ∧ s.conflicts first = true ∧
      (∀ r ∈ before, s.conflicts r = false) ∧
      s.ensured records = .error (.storage (.duplicate first.key)) ∧
      s.afterEnsuring records = s.append (before.filter s.lacks) := by
  have hsome : (records.find? s.conflicts).isSome := List.find?_isSome.2 ⟨r, hr, hconflicts⟩
  obtain ⟨first, hfirst⟩ := Option.isSome_iff_exists.1 hsome
  obtain ⟨hconflict, before, after, rfl, hbefore⟩ := List.find?_eq_some_iff_append.1 hfirst
  have hnone : ∀ r ∈ before, s.conflicts r = false := fun r hr => by simpa using hbefore r hr
  have htake : (before ++ first :: after).takeWhile (fun r => !s.conflicts r) = before := by
    rw [List.takeWhile_append_of_pos hbefore, List.takeWhile_cons_of_neg (by simp [hconflict]),
      List.append_nil]
  refine ⟨before, first, after, rfl, hconflict, hnone, by rw [ensured, hfirst], ?_⟩
  rw [afterEnsuring, htake]

end Store

namespace Tables

/-! ## What is there of a version -/

section

variable (t u : Tables) (component : String) (c : ResolvedComponent)

/-- Whether a prop of the component is stored in the version with another content. -/
def Conflicts (prop : String) : Prop :=
  ∃ s stored, c.storables.find? prop = some s ∧
    t.records.find? ⟨component, prop, c.versionId⟩ = some stored ∧
    stored.contentHash ≠ s.snapshot.contentHash

/-- The props of the component that are not stored in the version. -/
def missing : List String :=
  c.storables.names.filter fun prop => !t.records.contains ⟨component, prop, c.versionId⟩

/-- Whether the tables become others when some records are added, each under a free key. -/
def Gains (record? : RecordKey → Option Record) : Prop :=
  ∀ key, u.records.find? key = (t.records.find? key).or (record? key)

/-- Whether the tables become others when some records of the version are added. -/
def Approaches : Prop :=
  ∀ key, u.records.find? key = t.records.find? key ∨
    (t.records.find? key = none ∧ u.records.find? key = c.record? component key)

end

section

variable {t u : Tables} {component : String} {c : ResolvedComponent}

theorem Gains.approaches {record? : RecordKey → Option Record} (h : Gains t u record?)
    (hrecord : ∀ key, record? key = none ∨ record? key = c.record? component key) :
    Approaches t u component c := by
  intro key
  rw [h key]
  cases hfind : t.records.find? key with
  | some r => exact .inl rfl
  | none => exact (hrecord key).imp id fun heq => ⟨rfl, heq⟩

namespace Approaches

variable (h : Approaches t u component c)
include h

/-- What is added has the content of the version. -/
theorem conflicts_iff {prop : String} :
    u.Conflicts component c prop ↔ t.Conflicts component c prop := by
  rw [Conflicts, Conflicts]
  rcases h ⟨component, prop, c.versionId⟩ with hsame | ⟨hnone, hnew⟩
  · rw [hsame]
  · refine iff_of_false ?_ ?_
    · rintro ⟨s, stored, hs, hstored, hne⟩
      rw [hnew, c.record?_mk, hs, Option.map_some] at hstored
      obtain rfl := Option.some.inj hstored
      exact hne rfl
    · rintro ⟨s, stored, -, hstored, -⟩
      rw [hnone] at hstored
      cases hstored

/-- Once all records are added, it does not matter which ones were added before. -/
theorem or_record? (key : RecordKey) :
    (u.records.find? key).or (c.record? component key)
      = (t.records.find? key).or (c.record? component key) := by
  rcases h key with hsame | ⟨hnone, hnew⟩
  · rw [hsame]
  · rw [hnone, hnew, Option.or_self, Option.none_or]

end Approaches

/-- Where all records of a version are added, no prop is missing. -/
theorem Gains.missing_eq_nil (h : Gains t u (c.record? component)) :
    u.missing component c = [] := by
  refine List.filter_eq_nil_iff.2 fun prop hprop => ?_
  obtain ⟨s, hs⟩ := Option.isSome_iff_exists.1 (Entries.find?_isSome_iff.2 hprop)
  have hs : c.storables.find? prop = some s := hs
  rw [RecordTable.contains, h, c.record?_mk, hs, Option.map_some, Option.isSome_or]
  simp

/-! ## Records and tables -/

section

variable {s : Store} (h : t.Mirrors s)
include h

theorem conflicts_iff_of_mirrors {prop : String} :
    t.Conflicts component c prop ↔ ∃ storable, c.storables.find? prop = some storable ∧
      s.conflicts (.ofStorable ⟨component, prop, c.versionId⟩ storable) = true := by
  refine exists_congr fun storable => ?_
  rw [h.find?, exists_and_left, Store.conflicts, Record.ofStorable]
  refine and_congr_right fun _ => ?_
  cases s.find? ⟨component, prop, c.versionId⟩ with
  | none => simp
  | some stored => simp

theorem length_missing_of_mirrors :
    (t.missing component c).length = ((c.records component).filter s.lacks).length := by
  rw [missing, ResolvedComponent.records, versionRecords, SortedMap.names, Entries.names,
    List.filter_map, List.filter_map, List.length_map, List.length_map]
  refine congrArg List.length (List.filter_congr fun e _ => ?_)
  show (!t.records.contains _) = s.lacks _
  rw [h.contains, Store.lacks, Option.not_isSome]
  rfl

theorem exists_conflict_iff :
    (∃ prop, t.Conflicts component c prop) ↔ ∃ r ∈ c.records component, s.conflicts r = true := by
  constructor
  · rintro ⟨prop, hprop⟩
    obtain ⟨storable, hs, hconflicts⟩ := (conflicts_iff_of_mirrors h).1 hprop
    exact ⟨_, ResolvedComponent.mem_records_iff.2 ⟨prop, storable, hs, rfl⟩, hconflicts⟩
  · rintro ⟨r, hr, hconflicts⟩
    obtain ⟨prop, storable, hs, rfl⟩ := ResolvedComponent.mem_records_iff.1 hr
    exact ⟨prop, (conflicts_iff_of_mirrors h).2 ⟨storable, hs, hconflicts⟩⟩

/-! ## Outcomes -/

variable (hc : c.settings = .ofStorables c.storables)
include hc

/-- Where no record of the version has another content, the missing ones are written. -/
theorem storeVersion_eq_ok (hnone : ∀ prop, ¬t.Conflicts component c prop) :
    ∃ u, memory.storeVersion component c t
        = (.ok ⟨component, c.versionId, c.settings, (t.missing component c).length,
            !c.storables.isEmpty⟩, u) ∧
      (∃ s', u.Mirrors s') ∧ Gains t u (c.record? component) ∧
      u.active = if c.storables.isEmpty then t.active
        else t.active.insert component c.versionId := by
  obtain ⟨houtcome, hmirrors⟩ := alike_storeVersion component c t s h
  have hfree : ∀ r ∈ c.records component, s.conflicts r = false := fun r hr =>
    Bool.eq_false_iff.2 fun hconflict =>
      absurd ((exists_conflict_iff h).2 ⟨r, hr, hconflict⟩) (not_exists.2 hnone)
  have hensured := Store.ensured_eq_ok_iff.2 ⟨hfree, (length_missing_of_mirrors h).symm⟩
  have hempty : c.settings.isEmpty = c.storables.isEmpty := by
    rw [hc]; exact Store.isEmpty_ofStorables _
  have hafter := Store.afterEnsuring_of_no_conflict hfree
  rw [Store.storeVersion_memory component c hc, hensured] at houtcome hmirrors
  simp only [hempty, hafter] at houtcome hmirrors
  refine ⟨_, Prod.ext houtcome rfl, ⟨_, hmirrors⟩, fun key => ?_, hmirrors.active.trans ?_⟩
  · -- activation leaves the records alone
    have hrecords : (s.append ((c.records component).filter s.lacks)).find? key
        = (t.records.find? key).or (c.record? component key) := by
      rw [Store.find?_append_filter_lacks, h.find?, ResolvedComponent.records,
        find?_versionRecords_key]
      rfl
    rw [hmirrors.find?, ← hrecords]
    split <;> rfl
  · rw [h.active]
    split <;> rfl

/-- Where some record of the version has another content, the first one is refused. -/
theorem storeVersion_eq_error (hsome : ∃ prop, t.Conflicts component c prop) :
    ∃ prop u, memory.storeVersion component c t
        = (.error (.storage (.duplicate ⟨component, prop, c.versionId⟩)), u) ∧
      t.Conflicts component c prop ∧ (∀ earlier < prop, ¬t.Conflicts component c earlier) ∧
      Gains t u (fun key => if key.prop < prop then c.record? component key else none) ∧
      u.active = t.active := by
  obtain ⟨houtcome, hmirrors⟩ := alike_storeVersion component c t s h
  obtain ⟨r, hr, hconflict⟩ := (exists_conflict_iff h).1 hsome
  obtain ⟨before, first, after, hsplit, hfirst, hbefore, hensured, hafter⟩ :=
    Store.ensured_eq_error hr hconflict
  rw [Store.storeVersion_memory component c hc, hensured] at houtcome hmirrors
  simp only [hafter] at houtcome hmirrors
  -- the records stand in the order of the props
  obtain ⟨earlier, rest, hentries, rfl, hrest⟩ := List.map_eq_append_iff.1 hsplit
  obtain ⟨⟨prop, storable⟩, later, rfl, rfl, rfl⟩ := List.map_eq_cons_iff.1 hrest
  have hsorted := hentries ▸ c.storables.sorted
  have hearlier (name : String) : Entries.find? earlier name
      = if name < prop then c.storables.find? name else none := by
    rw [Entries.find?_of_sorted_append hsorted, ← hentries]
    rfl
  have hprop : c.storables.find? prop = some storable :=
    Entries.find?_of_mem c.storables.nodup_names (by rw [hentries]; simp)
  refine ⟨prop, _, Prod.ext houtcome rfl, (conflicts_iff_of_mirrors h).2 ⟨_, hprop, hfirst⟩,
    fun name hname hconflicts => ?_, fun key => ?_, hmirrors.active.trans h.active.symm⟩
  · obtain ⟨s', hs', hconflicts⟩ := (conflicts_iff_of_mirrors h).1 hconflicts
    have hfind : Entries.find? earlier name = some s' := by rw [hearlier, if_pos hname, hs']
    have hfree := hbefore _ (List.mem_map_of_mem (Entries.mem_of_find? hfind))
    rw [hfree] at hconflicts
    cases hconflicts
  · rw [hmirrors.find?, Store.find?_append_filter_lacks, h.find?]
    refine congrArg _ ((find?_versionRecords_key component c.versionId earlier key).trans ?_)
    rw [hearlier]
    by_cases hlt : key.prop < prop
    · simp only [if_pos hlt]
      rfl
    · simp only [if_neg hlt]
      exact ite_self _

end

section

variable {s s' : Store} (h : t.Mirrors s) (hu : u.Mirrors s')
  (hc : c.settings = .ofStorables c.storables) (happroaches : Approaches t u component c)
include hu hc happroaches

/-- Where some of the missing records are there already, the others are written. -/
theorem storeVersion_eq_ok_of_approaches (hnone : ∀ prop, ¬t.Conflicts component c prop) :
    ∃ w, memory.storeVersion component c u
        = (.ok ⟨component, c.versionId, c.settings, (u.missing component c).length,
            !c.storables.isEmpty⟩, w) ∧
      Gains t w (c.record? component) ∧
      w.active = if c.storables.isEmpty then u.active
        else u.active.insert component c.versionId := by
  obtain ⟨w, hstore, -, hgains, hactive⟩ := storeVersion_eq_ok hu hc
    fun prop hconflicts => hnone prop (happroaches.conflicts_iff.1 hconflicts)
  exact ⟨w, hstore, fun key => (hgains key).trans (happroaches.or_record? key), hactive⟩

include h

/-- Where some of the missing records are there already, the same record is refused. -/
theorem storeVersion_eq_error_of_approaches (hsome : ∃ prop, t.Conflicts component c prop) :
    (memory.storeVersion component c u).1 = (memory.storeVersion component c t).1 := by
  obtain ⟨prop, _, hstore, hconflicts, hfirst, -⟩ := storeVersion_eq_error h hc hsome
  obtain ⟨prop', _, hstore', hconflicts', hfirst', -⟩ := storeVersion_eq_error hu hc
    (hsome.imp fun _ => happroaches.conflicts_iff.2)
  have hle : ¬prop < prop' := fun hlt => hfirst' prop hlt (happroaches.conflicts_iff.2 hconflicts)
  have hge : ¬prop' < prop := fun hlt => hfirst prop' hlt (happroaches.conflicts_iff.1 hconflicts')
  obtain rfl : prop = prop' := String.le_antisymm (String.not_lt.1 hge) (String.not_lt.1 hle)
  rw [hstore, hstore']

end

end

/-! ## Calls that are made again -/

namespace Attempt

variable (a : Attempt)

/-- What comes of the call while nobody else uses the store. -/
def alone : Except AuthoringError StoredVersion × Tables :=
  memory.storeVersion a.component a.stored a.start

/-- What comes of the call, made again while nobody else uses the store, once it has ended. -/
def again : Except AuthoringError StoredVersion × Tables :=
  memory.storeVersion a.component a.stored a.final.store

theorem settings_stored : a.stored.settings = .ofStorables a.stored.storables :=
  (ComponentSource.resolve_eq_ok a.resolves).2.2.1

theorem exists_mirrors_start : ∃ s, a.start.Mirrors s := ⟨_, (mirrors_empty.answers a.before).2⟩

/-- However a call ends, calls lead to the store that it leaves. -/
theorem exists_mirrors_final : ∃ s, a.final.store.Mirrors s := by
  obtain ⟨calls, hcalls⟩ := reaches_storeVersion memory a.component a.stored
    ⟨a.start, a.schedule, [], []⟩
  obtain ⟨s, hs⟩ := a.exists_mirrors_start
  have hfinal : a.final.store = (memory.answers calls a.start).2 := hcalls
  exact ⟨_, hfinal ▸ (hs.answers calls).2⟩

section

variable (hquiet : ∀ next ∈ a.schedule, next.rivals = [])
include hquiet

theorem others_final : a.final.others = [] := by
  obtain ⟨own, outcome, e, hrun, -, hadds, -⟩ := storeVersion_disturbed
    (accounts_begin a.consistent_start a.schedule) a.component a.stored
  have hfinal : a.final = e := congrArg Prod.snd hrun
  rw [hfinal]
  exact hadds.quiet hquiet

/-- While nobody else uses the store, a call adds records of its version only. -/
theorem approaches_final : Approaches a.start a.final.store a.component a.stored := by
  obtain ⟨haccounts, hown, -⟩ := a.run_cases
  intro key
  cases hstart : a.start.records.find? key with
  | some r => exact .inl ((haccounts.records key r).2 (.inl hstart))
  | none =>
    cases hfinal : a.final.store.records.find? key with
    | none => exact .inl rfl
    | some r =>
      obtain hr | ⟨rfl, ⟨e, he, -⟩ | hr⟩ := (haccounts.records key r).1 hfinal
      · rw [hstart] at hr
        cases hr
      · rw [a.others_final hquiet] at he
        exact absurd he List.not_mem_nil
      · obtain ⟨prop, s, hs, rfl⟩ := ResolvedComponent.mem_records_iff.1 (hown hr)
        refine .inr ⟨rfl, ?_⟩
        rw [Record.ofStorable, ResolvedComponent.record?_mk, hs]
        rfl

end

section

variable (hnone : ∀ prop, ¬a.start.Conflicts a.component a.stored prop)
include hnone

/-- Where nothing conflicts, the version is completed, and nothing is left to be written. -/
theorem alone_of_free :
    ∃ v, a.alone.1 = .ok v ∧
      v = ⟨a.component, a.version, a.resolved.settings,
        (a.start.missing a.component a.stored).length, !a.resolved.storables.isEmpty⟩ ∧
      Gains a.start a.alone.2 (a.stored.record? a.component) ∧
      a.alone.2.active = (if a.resolved.storables.isEmpty then a.start.active
        else a.start.active.insert a.component a.version) ∧
      ∃ repeated, memory.storeVersion a.component a.stored a.alone.2
          = (.ok { v with written := 0 }, repeated) ∧
        (∀ key, repeated.records.find? key = a.alone.2.records.find? key) ∧
        repeated.active = a.alone.2.active := by
  obtain ⟨s, hs⟩ := a.exists_mirrors_start
  obtain ⟨u, hstore, ⟨s', hs'⟩, hgains, hactive⟩ := storeVersion_eq_ok hs a.settings_stored hnone
  obtain ⟨w, hrepeat, hsame, hagain⟩ := storeVersion_eq_ok_of_approaches hs' a.settings_stored
    (hgains.approaches fun _ => .inr rfl) hnone
  have halone : a.alone = (_, u) := hstore
  rw [hgains.missing_eq_nil] at hrepeat
  rw [halone]
  refine ⟨_, rfl, rfl, hgains, hactive, w, hrepeat,
    fun key => (hsame key).trans (hgains key).symm, hagain.trans ?_⟩
  -- to activate a version twice is to activate it once
  rw [hactive]
  split
  · rfl
  · exact SortedMap.insert_insert ..

/-- Where nothing conflicts, a call that failed is completed when it is made again. -/
theorem again_of_free (hquiet : ∀ next ∈ a.schedule, next.rivals = []) {failure : AuthoringError}
    (hfailure : a.outcome = .error failure) :
    a.again.1 = .ok ⟨a.component, a.version, a.resolved.settings,
      (a.final.store.missing a.component a.stored).length, !a.resolved.storables.isEmpty⟩ ∧
    (∀ key, a.again.2.records.find? key = a.alone.2.records.find? key) ∧
    a.again.2.active = a.alone.2.active := by
  obtain ⟨-, -, -, halone, hactive, -⟩ := a.alone_of_free hnone
  obtain ⟨s, hs⟩ := a.exists_mirrors_final
  obtain ⟨w, hagain, hgains, hactive'⟩ := storeVersion_eq_ok_of_approaches hs a.settings_stored
    (a.approaches_final hquiet) hnone
  have hagain : a.again = (_, w) := hagain
  -- the call that failed has activated nothing
  have hstart : a.final.store.active = a.start.active := by
    rw [a.run_cases.2.2.2 failure hfailure, a.others_final hquiet]
    rfl
  rw [hagain, hactive, ← hstart]
  exact ⟨rfl, fun key => (hgains key).trans (halone key).symm, hactive'⟩

end

/-- Where something conflicts, the first conflict is told, and told again. -/
theorem alone_of_conflict (hsome : ∃ prop, a.start.Conflicts a.component a.stored prop) :
    ∃ prop, a.alone.1 = .error (.storage (.duplicate ⟨a.component, prop, a.version⟩)) ∧
      a.start.Conflicts a.component a.stored prop ∧
      (∀ earlier < prop, ¬a.start.Conflicts a.component a.stored earlier) ∧
      Gains a.start a.alone.2
        (fun key => if key.prop < prop then a.stored.record? a.component key else none) ∧
      a.alone.2.active = a.start.active ∧
      ((∀ next ∈ a.schedule, next.rivals = []) → a.again.1 = a.alone.1) := by
  obtain ⟨s, hs⟩ := a.exists_mirrors_start
  obtain ⟨s', hs'⟩ := a.exists_mirrors_final
  obtain ⟨prop, u, hstore, hconflicts, hfirst, hgains, hactive⟩ :=
    storeVersion_eq_error hs a.settings_stored hsome
  have halone : a.alone = (_, u) := hstore
  refine ⟨prop, congrArg Prod.fst halone, hconflicts, hfirst, ?_, ?_, fun hquiet => ?_⟩
  · rwa [halone]
  · rwa [halone]
  · exact storeVersion_eq_error_of_approaches hs hs' a.settings_stored (a.approaches_final hquiet)
      hsome

/-- What comes of storing a version while nobody else uses the store.

The call succeeds just if no prop is stored in the version with another content. Then it writes the
records of the props that are missing, tells how many, and makes the version active unless it has no
records; made again, it writes nothing. Otherwise it refuses the first such prop, has written the
records that are missing before it, and leaves the active versions as they are.

A call that fails because writes fail leaves some of the records. Made again, it ends as it would
have ended alone, with the same records and active versions, and has written what was still missing.
-/
theorem storeVersion_alone :
    ((∃ v, a.alone.1 = .ok v) ↔
      ∀ prop s stored, a.resolved.storables.find? prop = some s →
        a.start.records.find? ⟨a.component, prop, a.version⟩ = some stored →
        stored.contentHash = s.snapshot.contentHash) ∧
    (∀ v, a.alone.1 = .ok v →
      v = ⟨a.component, a.version, a.resolved.settings,
        (a.start.missing a.component a.stored).length, !a.resolved.storables.isEmpty⟩ ∧
      Gains a.start a.alone.2 (a.stored.record? a.component) ∧
      a.alone.2.active = (if a.resolved.storables.isEmpty then a.start.active
        else a.start.active.insert a.component a.version) ∧
      ∃ repeated, memory.storeVersion a.component a.stored a.alone.2
          = (.ok { v with written := 0 }, repeated) ∧
        (∀ key, repeated.records.find? key = a.alone.2.records.find? key) ∧
        repeated.active = a.alone.2.active) ∧
    (∀ error, a.alone.1 = .error error → ∃ prop,
      error = .storage (.duplicate ⟨a.component, prop, a.version⟩) ∧
      a.start.Conflicts a.component a.stored prop ∧
      (∀ earlier < prop, ¬a.start.Conflicts a.component a.stored earlier) ∧
      Gains a.start a.alone.2
        (fun key => if key.prop < prop then a.stored.record? a.component key else none) ∧
      a.alone.2.active = a.start.active) ∧
    ∀ failure, (∀ next ∈ a.schedule, next.rivals = []) → a.outcome = .error failure →
      (∀ v, a.alone.1 = .ok v →
        a.again.1 = .ok { v with written := (a.final.store.missing a.component a.stored).length } ∧
        (∀ key, a.again.2.records.find? key = a.alone.2.records.find? key) ∧
        a.again.2.active = a.alone.2.active) ∧
      ∀ error, a.alone.1 = .error error → a.again.1 = .error error := by
  have hfree : (∀ prop, ¬a.start.Conflicts a.component a.stored prop) ↔
      ∀ prop s stored, a.resolved.storables.find? prop = some s →
        a.start.records.find? ⟨a.component, prop, a.version⟩ = some stored →
        stored.contentHash = s.snapshot.contentHash := by
    simp only [Conflicts, not_exists, not_and, not_not]
    rfl
  by_cases hnone : ∀ prop, ¬a.start.Conflicts a.component a.stored prop
  · obtain ⟨v, hok, rfl, hrest⟩ := a.alone_of_free hnone
    refine ⟨iff_of_true ⟨_, hok⟩ (hfree.1 hnone), fun v hv => ?_, fun error herror => ?_,
      fun failure hquiet hfailure => ⟨fun v hv => ?_, fun error herror => ?_⟩⟩
    · obtain rfl := Except.ok.inj (hok.symm.trans hv)
      exact ⟨rfl, hrest⟩
    · cases hok.symm.trans herror
    · obtain rfl := Except.ok.inj (hok.symm.trans hv)
      exact a.again_of_free hnone hquiet hfailure
    · cases hok.symm.trans herror
  · obtain ⟨prop, hrefused, hconflicts, hfirst, hgains, hactive, hagain⟩ :=
      a.alone_of_conflict (not_forall_not.1 hnone)
    refine ⟨iff_of_false ?_ (mt hfree.2 hnone), fun v hv => ?_, fun error herror => ?_,
      fun failure hquiet _ => ⟨fun v hv => ?_, fun error herror => (hagain hquiet).trans herror⟩⟩
    · rintro ⟨v, hv⟩
      cases hrefused.symm.trans hv
    · cases hrefused.symm.trans hv
    · obtain rfl := Except.error.inj (hrefused.symm.trans herror)
      exact ⟨prop, rfl, hconflicts, hfirst, hgains, hactive⟩
    · cases hrefused.symm.trans hv

/-- The prop is stored with another content. -/
def taken : Attempt :=
  { ofName [] with
    before := [.put ⟨⟨"card", "name", "v1"⟩, .null,
      (Store.nameStorable ∅).snapshot.contentHash ++ "0"⟩] }

theorem conflicts_taken : taken.start.Conflicts "card" taken.stored "name" := by
  refine ⟨Store.nameStorable ∅, _, rfl, rfl, fun heq => ?_⟩
  have hlength := congrArg String.length heq
  simp [String.length_append] at hlength

/-- A call that failed is completed by the next one, and a prop that is stored with another content
is refused. -/
theorem storeVersion_alone_name :
    interrupted.again.1 = .ok ⟨"card", "v1", (Store.nameComponent ∅).settings, 1, true⟩ ∧
      interrupted.again.2.active.find? "card" = some "v1" ∧
      taken.alone.1 = .error (.storage (.duplicate ⟨"card", "name", "v1"⟩)) := by
  obtain ⟨-, hok, -, hagain⟩ := storeVersion_alone interrupted
  obtain ⟨hiff, -, herror, -⟩ := storeVersion_alone taken
  have halone : interrupted.alone.1
      = .ok ⟨"card", "v1", (Store.nameComponent ∅).settings, 1, true⟩ := rfl
  have hquiet : ∀ next ∈ interrupted.schedule, next.rivals = [] := by
    simp [interrupted, ofName]
  obtain ⟨hrerun, -, hactive⟩ := (hagain _ hquiet outcome_interrupted).1 _ halone
  obtain ⟨-, -, hactivated, -⟩ := hok _ halone
  refine ⟨hrerun, by rw [hactive, hactivated]; rfl, ?_⟩
  cases hrefused : taken.alone.1 with
  | ok v =>
    obtain ⟨s, stored, hs, hstored, hne⟩ := conflicts_taken
    exact absurd (hiff.1 ⟨v, hrefused⟩ _ _ _ hs hstored) hne
  | error e =>
    obtain ⟨prop, rfl, ⟨s, -, hs, -⟩, -⟩ := herror e hrefused
    have hname : prop ∈ (Store.nameStorables ∅).names :=
      Entries.find?_isSome_iff.1 (Option.isSome_iff_exists.2 ⟨s, hs⟩)
    obtain rfl : prop = "name" := List.mem_singleton.1 hname
    rfl

end Attempt

end Tables

end PropStorage
