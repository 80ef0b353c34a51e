import PropStorage.Proofs.Store.Duplicates
import PropStorage.Proofs.Store.Interference

/-!
# Storing a version among others

What a call that stores a version does while others use the same store. It writes records of its
version only, and succeeds only once all of them are there with its contents
(`ensures_ensureAll`); before it succeeds it activates nothing (`storeVersion_disturbed`). So of two
calls for one version that do not agree on a prop, one fails.
-/

namespace PropStorage

namespace Tables

section

variable {start : Tables} {d e : Disturbed Tables}

/-! ## Records of a version -/

/-- Whether there is a record with the key and the content of `r`. -/
def Stores (t : Tables) (r : Record) : Prop :=
  ∃ stored, t.records.find? r.key = some stored ∧ stored.contentHash = r.contentHash

theorem Accounts.stores_of_adds {own : List Record} (hd : Accounts start d)
    (he : Accounts start e) (h : Adds own d e) {r : Record} (hr : Stores d.store r) :
    Stores e.store r := by
  obtain ⟨stored, hfind, hhash⟩ := hr
  exact ⟨stored, hd.kept he h hfind, hhash⟩

/-- Whether a task that others may come into writes some of the given records only, tells how many,
and succeeds only if all of them are there. -/
def Ensures (start : Tables) (records : List Record) (x : AuthoringM (Disturbed Tables) Nat) :
    Prop :=
  ∀ d, Accounts start d → ∃ own, Accounts start (x d).2 ∧ Grows own d (x d).2 ∧ own ⊆ records ∧
    ∀ n, (x d).1 = .ok n → n = own.length ∧ ∀ r ∈ records, Stores (x d).2.store r

/-- A record that is there is compared. -/
theorem ensures_checkStored (r : Record) :
    Ensures start [r] (do
      memory.disturbed.checkStored r
      pure 0) := by
  intro d hd
  obtain ⟨e, he, hgrows, hget⟩ := get_disturbed hd r.key
  rw [Task.bind_pure_apply, RecordStore.checkStored, Task.bind_apply, Task.lift_apply, hget,
    get_memory]
  cases hfind : e.store.records.find? r.key with
  | none => exact ⟨[], he, hgrows, List.nil_subset _, by rintro _ ⟨⟩⟩
  | some stored =>
    by_cases hhash : stored.contentHash = r.contentHash
    · simp only [if_pos hhash]
      refine ⟨[], he, hgrows, List.nil_subset _, fun n hn => ?_⟩
      cases hn
      refine ⟨rfl, fun r' hr => ?_⟩
      obtain rfl := List.mem_singleton.1 hr
      exact ⟨stored, hfind, hhash⟩
    · simp only [if_neg hhash]
      exact ⟨[], he, hgrows, List.nil_subset _, by rintro _ ⟨⟩⟩

/-- What a task ensures, it ensures if others come before it. -/
theorem Ensures.after {records : List Record} {x : AuthoringM (Disturbed Tables) Nat}
    (h : Ensures start records x) (he : Accounts start e) (hgrows : Grows [] d e) :
    ∃ own, Accounts start (x e).2 ∧ Grows own d (x e).2 ∧ own ⊆ records ∧
      ∀ n, (x e).1 = .ok n → n = own.length ∧ ∀ r ∈ records, Stores (x e).2.store r := by
  obtain ⟨own, hend, hmore, hsub, hok⟩ := h e he
  exact ⟨own, hend, hgrows.trans hmore, hsub, hok⟩

theorem ensures_putOrCheck (r : Record) : Ensures start [r] (memory.disturbed.putOrCheck r) := by
  intro d hd
  obtain ⟨e, he, hgrows, ⟨reason, hput⟩ | hput | ⟨hnew, hput⟩⟩ := put_disturbed hd r
  · rw [RecordStore.putOrCheck, Task.bind_ok (Task.run_apply _ _), hput]
    exact ⟨[], he, hgrows, List.nil_subset _, by rintro _ ⟨⟩⟩
  · rw [RecordStore.putOrCheck, Task.bind_ok (Task.run_apply _ _), hput]
    exact (ensures_checkStored r).after he hgrows
  · rw [RecordStore.putOrCheck, Task.bind_ok (Task.run_apply _ _), hput]
    have hwritten : Accounts start { e with store := e.store.written r, own := e.own ++ [r] } := by
      refine he.written hnew rfl fun r' => ?_
      simp only [Wrote, List.mem_append, List.mem_singleton, or_assoc]
    have hown : e.own ++ [r] = d.own ++ [r] := by rw [hgrows.own, List.append_nil]
    refine ⟨[r], hwritten, ⟨⟨hown, hgrows.others, hgrows.schedule, hgrows.quiet⟩, hgrows.active⟩,
      List.Subset.refl _, fun n hn => ?_⟩
    · cases hn
      refine ⟨rfl, fun r' hr => ?_⟩
      obtain rfl := List.mem_singleton.1 hr
      exact ⟨r', (RecordTable.find?_insert ..).trans (if_pos rfl), rfl⟩

/-- A record is compared if it is there, and written otherwise. -/
theorem ensures_ensure (known : Bool) (r : Record) :
    Ensures start [r] (memory.disturbed.ensure known r) := by
  intro d hd
  cases known with
  | false => exact ensures_putOrCheck r d hd
  | true =>
    obtain ⟨e, he, hgrows, hcontains⟩ := contains_disturbed hd r.key
    rw [RecordStore.ensure, if_pos rfl, Task.bind_ok (Task.lift_ok hcontains)]
    cases e.store.records.contains r.key with
    | true => exact (ensures_checkStored r).after he hgrows
    | false => exact (ensures_putOrCheck r).after he hgrows

theorem append_subset_append {as bs own more : List Record} (hown : own ⊆ as) (hmore : more ⊆ bs) :
    own ++ more ⊆ as ++ bs :=
  List.append_subset.2 ⟨List.subset_append_of_subset_left _ hown,
    List.subset_append_of_subset_right _ hmore⟩

/-- One task after the other. -/
theorem Ensures.bind {as bs : List Record} {x y : AuthoringM (Disturbed Tables) Nat}
    (hx : Ensures start as x) (hy : Ensures start bs y) :
    Ensures start (as ++ bs) (do
      let m ← x
      let n ← y
      pure (m + n)) := by
  intro d hd
  obtain ⟨own, he, hgrows, hsub, hok⟩ := hx d hd
  rcases hxd : x d with ⟨error | m, e⟩ <;> rw [hxd] at he hgrows hok
  · rw [Task.bind_error hxd]
    exact ⟨own, he, hgrows, List.subset_append_of_subset_left _ hsub, by rintro _ ⟨⟩⟩
  obtain ⟨hm, hfirst⟩ := hok m rfl
  obtain ⟨more, hf, hmore, hsub', hok'⟩ := hy e he
  rw [Task.bind_ok hxd, Task.bind_pure_apply]
  rcases hye : y e with ⟨error | n, f⟩ <;> rw [hye] at hf hmore hok'
  · exact ⟨own ++ more, hf, hgrows.trans hmore, append_subset_append hsub hsub', by rintro _ ⟨⟩⟩
  refine ⟨own ++ more, hf, hgrows.trans hmore, append_subset_append hsub hsub',
    fun k hk => ?_⟩
  obtain ⟨hn, hsecond⟩ := hok' n rfl
  cases hk
  refine ⟨by rw [hm, hn, List.length_append], fun r hr => ?_⟩
  rcases List.mem_append.1 hr with hr | hr
  · exact he.stores_of_adds hf hmore.toAdds (hfirst r hr)
  · exact hsecond r hr

theorem ensures_ensureAll (known : Bool) (component version : String)
    (storables : Entries StorableShape) :
    Ensures start (versionRecords component version storables)
      (memory.disturbed.ensureAll known component version storables) := by
  induction storables with
  | nil =>
    intro d hd
    refine ⟨[], hd, .refl d, List.nil_subset _, fun n hn => ?_⟩
    cases hn
    exact ⟨rfl, fun r hr => absurd hr List.not_mem_nil⟩
  | cons e storables ih => exact (ensures_ensure known _).bind ih

/-! ## Storing a version -/

/-- Storing a version writes records of the version only. If it succeeds, all of them are there, and
the version is active unless it has none; if it fails, only others have activated versions. -/
theorem storeVersion_disturbed (hd : Accounts start d) (component : String)
    (c : ResolvedComponent) :
    ∃ own outcome e, memory.disturbed.storeVersion component c d = (outcome, e) ∧
      Accounts start e ∧ Adds own d e ∧ own ⊆ c.records component ∧
      (∀ v, outcome = .ok v →
        v = ⟨component, c.versionId, c.settings, own.length, !c.settings.isEmpty⟩ ∧
        (∀ r ∈ c.records component, Stores e.store r) ∧
        (c.settings.isEmpty = false →
          e.store.active.find? component = some c.versionId)) ∧
      (∀ error, outcome = .error error → Grows own d e) := by
  obtain ⟨d', hd', hbegin, hversions⟩ := versions_disturbed hd component
  obtain ⟨own, he, hgrows, hsub, hok⟩ :=
    ensures_ensureAll (((d'.store.versions.find? component).getD []).contains c.versionId)
      component c.versionId c.storables.entries d' hd'
  have hgrows := hbegin.trans hgrows
  rw [RecordStore.storeVersion, Task.bind_ok (Task.lift_ok hversions)]
  rcases hensure : memory.disturbed.ensureAll
    (((d'.store.versions.find? component).getD []).contains c.versionId) component c.versionId
    c.storables.entries d' with ⟨error | n, e⟩ <;> rw [hensure] at he hgrows hok
  · exact ⟨own, _, e, Task.bind_error hensure, he, hgrows.toAdds, hsub, by rintro _ ⟨⟩,
      fun _ _ => hgrows⟩
  obtain ⟨rfl, hstores⟩ := hok n rfl
  rw [Task.bind_ok hensure]
  cases hempty : c.settings.isEmpty with
  | true =>
    refine ⟨own, _, e, rfl, he, hgrows.toAdds, hsub, fun v hv => ?_, by rintro _ ⟨⟩⟩
    cases hv
    exact ⟨rfl, hstores, by simp⟩
  | false =>
    obtain ⟨f, hf, hmore, hactivate⟩ := activate_disturbed he component c.versionId
    have hend : Grows own d f := by simpa using hgrows.trans hmore
    rcases hactivate with hactivate | ⟨hlists, hactivate⟩
    · exact ⟨own, _, f, Task.bind_error (Task.lift_error hactivate), hf, hend.toAdds, hsub,
        by rintro _ ⟨⟩, fun _ _ => hend⟩
    · refine ⟨own, _, _, Task.bind_ok (Task.lift_ok hactivate), hf.activated hlists rfl fun _ =>
        Iff.rfl, ⟨hend.own, hend.others, hend.schedule, hend.quiet⟩, hsub, fun v hv => ?_,
        by rintro _ ⟨⟩⟩
      cases hv
      exact ⟨rfl, fun r hr => he.stores_of_adds hf hmore.toAdds (hstores r hr),
        fun _ => (SortedMap.find?_insert ..).trans (if_pos rfl)⟩

end

/-! ## Two calls -/

/-- A call that stores a resolved component, under any version id, among others that use the same
store. -/
structure Attempt where
  source : ComponentSource
  resolver : Resolver
  resolved : ResolvedComponent
  resolves : source.resolve resolver = .ok resolved
  component : String
  version : String
  /-- What was done to the empty store before. -/
  before : List Call
  /-- What comes before each call of the store. -/
  schedule : List Disturbance

namespace Attempt

variable (a b : Attempt)

/-- What is stored. -/
def stored : ResolvedComponent := { a.resolved with versionId := a.version }

def start : Tables := (memory.answers a.before ∅).2

def run : Except AuthoringError StoredVersion × Disturbed Tables :=
  memory.disturbed.storeVersion a.component a.stored ⟨a.start, a.schedule, [], []⟩

def outcome : Except AuthoringError StoredVersion := a.run.1

def final : Disturbed Tables := a.run.2

/-- Whether two calls use one store: after both, others may lead it from the end of either to the
same state. -/
def Meets : Prop :=
  ∃ rivals rivals' : List Rival, (memory.answers (rivals.map Rival.call) a.final.store).2
    = (memory.answers (rivals'.map Rival.call) b.final.store).2

theorem consistent_start : a.start.Consistent := consistent_empty.answers a.before

/-- How a call ends. -/
theorem run_cases :
    Accounts a.start a.final ∧ a.final.own ⊆ a.stored.records a.component ∧
      (∀ v, a.outcome = .ok v → v.written = a.final.own.length ∧
        (∀ r ∈ a.stored.records a.component, Stores a.final.store r) ∧
        (a.stored.settings.isEmpty = false →
          a.final.store.active.find? a.component = some a.version)) ∧
      (∀ error, a.outcome = .error error →
        a.final.store.active = a.final.others.activeAfter a.start.active) := by
  obtain ⟨own, outcome, e, hrun, he, hadds, hsub, hok, herror⟩ := storeVersion_disturbed
    (accounts_begin a.consistent_start a.schedule) a.component a.stored
  obtain rfl : e.own = own := hadds.own
  have hrun : a.run = (outcome, e) := hrun
  rw [final, Attempt.outcome, hrun]
  refine ⟨he, hsub, fun v hv => ?_, fun error h => (herror error h).active _ rfl⟩
  obtain ⟨rfl, hstores, hactive⟩ := hok v hv
  exact ⟨rfl, hstores, hactive⟩

theorem isEmpty_stored (hne : a.resolved.storables.entries ≠ []) :
    a.stored.settings.isEmpty = false := by
  have hsettings : a.stored.settings = .ofStorables a.resolved.storables :=
    (ComponentSource.resolve_eq_ok a.resolves).2.2.1
  rw [hsettings, Store.isEmpty_ofStorables]
  exact List.isEmpty_eq_false_iff.2 hne

section

variable {a b} {v w : StoredVersion}

/-- Where a call succeeds, all props are there with its contents. -/
theorem find?_of_ok (h : a.outcome = .ok v) {prop : String} {s : StorableShape}
    (hs : a.resolved.storables.find? prop = some s) :
    ∃ r, a.final.store.records.find? ⟨a.component, prop, a.version⟩ = some r ∧
      r.contentHash = s.snapshot.contentHash := by
  obtain ⟨-, -, hok, -⟩ := a.run_cases
  exact (hok v h).2.1 _ (ResolvedComponent.mem_records_iff.2 ⟨prop, s, hs, rfl⟩)

/-- Two calls for one version that succeed on one store agree on all props that both have: of each
prop there is one record, which neither can replace. -/
theorem contentHash_eq_of_meets (hcomponent : b.component = a.component)
    (hversion : b.version = a.version) (hmeets : a.Meets b) (ha : a.outcome = .ok v)
    (hb : b.outcome = .ok w) {prop : String} {s s' : StorableShape}
    (hs : a.resolved.storables.find? prop = some s)
    (hs' : b.resolved.storables.find? prop = some s') :
    s.snapshot.contentHash = s'.snapshot.contentHash := by
  obtain ⟨rivals, rivals', hmeet⟩ := hmeets
  obtain ⟨r, hr, hhash⟩ := find?_of_ok ha hs
  obtain ⟨r', hr', hhash'⟩ := find?_of_ok hb hs'
  have hlater := find?_answers_rivals a.run_cases.1.consistent rivals hr
  have hlater' := find?_answers_rivals b.run_cases.1.consistent rivals' hr'
  rw [hcomponent, hversion, ← hmeet] at hlater'
  obtain rfl : r = r' := Option.some.inj (hlater.symm.trans hlater')
  exact hhash.symm.trans hhash'

end

/-- Storing a version while others write and activate, and writes fail.

If the call succeeds, every prop that is stored has a record with its content, as many records are
told as were written, and the version is active unless it has no records. If it fails, nobody but
others has activated a version. In either case all that was there stays as it was, and the call adds
records of its props only. Of two calls for one version that disagree on a prop, one fails. -/
theorem storeVersion_among_others :
    (∀ v, a.outcome = .ok v →
      (∀ prop s, a.resolved.storables.find? prop = some s →
        ∃ r, a.final.store.records.find? ⟨a.component, prop, a.version⟩ = some r ∧
          r.contentHash = s.snapshot.contentHash) ∧
      v.written = a.final.own.length ∧
      (a.resolved.storables.entries ≠ [] →
        a.final.store.active.find? a.component = some a.version)) ∧
    (∀ error, a.outcome = .error error →
      a.final.store.active = a.final.others.activeAfter a.start.active ∧
      ((∀ e ∈ a.final.others, ∀ component version, ¬e.Activates component version) →
        a.final.store.active = a.start.active)) ∧
    (∀ key r, a.final.store.records.find? key = some r ↔
      a.start.records.find? key = some r ∨ (r.key = key ∧ Wrote a.final r)) ∧
    (∀ r ∈ a.final.own, ∃ prop s, a.resolved.storables.find? prop = some s ∧
      r = .ofStorable ⟨a.component, prop, a.version⟩ s) ∧
    ∀ b : Attempt, b.component = a.component → b.version = a.version → a.Meets b →
      ∀ prop s s', a.resolved.storables.find? prop = some s →
        b.resolved.storables.find? prop = some s' →
        s.snapshot.contentHash ≠ s'.snapshot.contentHash →
        ¬∃ v w, a.outcome = .ok v ∧ b.outcome = .ok w := by
  obtain ⟨haccounts, hown, hok, herror⟩ := a.run_cases
  refine ⟨fun v h => ⟨fun prop s => find?_of_ok h, (hok v h).1, fun hne => ?_⟩,
    fun error h => ⟨herror error h, fun hwrites => ?_⟩, haccounts.records,
    fun r hr => ResolvedComponent.mem_records_iff.1 (hown hr), ?_⟩
  · exact (hok v h).2.2 (a.isEmpty_stored hne)
  · rw [herror error h, History.activeAfter_eq_self hwrites]
  · rintro b hcomponent hversion hmeets prop s s' hs hs' hdisagree ⟨v, w, ha, hb⟩
    exact hdisagree (contentHash_eq_of_meets hcomponent hversion hmeets ha hb hs hs')

/-- A component with one prop, stored as version `v1`. -/
def ofName (schedule : List Disturbance) : Attempt where
  source := Store.nameSource
  resolver := Store.textResolver
  resolved := Store.nameComponent ∅
  resolves := Store.resolve_textResolver
  component := "card"
  version := "v1"
  before := []
  schedule := schedule

/-- Another writer comes before the write, with a record of another prop, and activates it. -/
def contended : Attempt := ofName [⟨[], none⟩,
  ⟨[.write ⟨⟨"card", "slot", "v0"⟩, .null, ""⟩, .activate "card" "v0"], none⟩]

/-- The write fails. -/
def interrupted : Attempt := ofName [⟨[], none⟩, ⟨[], some "disk full"⟩]

theorem outcome_contended : contended.outcome = .ok
    ⟨"card", "v1", (Store.nameComponent ∅).settings, 1, true⟩ := rfl

theorem outcome_interrupted :
    interrupted.outcome = .error (.storage (.backend "disk full")) := rfl

theorem storeVersion_among_others_name :
    contended.final.store.active.find? "card" = some "v1" ∧ contended.final.own.length = 1 ∧
      interrupted.final.store.active = interrupted.start.active := by
  obtain ⟨hok, -⟩ := storeVersion_among_others contended
  obtain ⟨-, herror, -⟩ := storeVersion_among_others interrupted
  obtain ⟨-, hwritten, hactive⟩ := hok _ outcome_contended
  exact ⟨hactive (List.cons_ne_nil _ _), hwritten.symm,
    (herror _ outcome_interrupted).2 fun e he => absurd he List.not_mem_nil⟩

end Attempt

end Tables

end PropStorage
