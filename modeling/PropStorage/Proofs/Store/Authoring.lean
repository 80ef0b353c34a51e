import Mathlib.Data.List.Find
import Mathlib.Data.List.TakeWhile
import PropStorage.Proofs.Entries
import PropStorage.Proofs.Task
import PropStorage.Proofs.Text.Spans
import PropStorage.Store.Authoring
import PropStorage.Store.Memory

/-!
# Storing versions in memory

What the operations that store a version do to a store in memory.

* `Store.conflicts`: whether a record is stored with another content;
* `ensure_memory`: one record is written, found with the same content, or refused;
* `ensureAll_memory`: the missing records are written, up to the first one that conflicts;
* `storeVersion_memory`: the version is activated once none conflicts;
* `storeVersion_of_absent`, `storeVersion_of_same`, `storeVersion_of_different`: where the store has
  no record of the component, or all records of the version.
-/

namespace PropStorage

/-! ## Tasks within tasks -/

namespace Task

variable {σ α : Type}

/-- A task that is run for its result cannot fail. -/
theorem run_apply {δ : Type} (x : ExceptT δ (StateM σ) α) (s : σ) :
    (liftM (x.run : StateM σ (Except δ α)) : AuthoringM σ (Except δ α)) s
      = (.ok (x s).1, (x s).2) := rfl

theorem lift_apply (x : StoreM σ α) (s : σ) :
    (liftM x : AuthoringM σ α) s =
      match x s with
      | (.ok a, s') => (.ok a, s')
      | (.error e, s') => (.error (.storage e), s') := rfl

theorem lift_ok {x : StoreM σ α} {s s' : σ} {a : α} (h : x s = (.ok a, s')) :
    (liftM x : AuthoringM σ α) s = (.ok a, s') := by
  rw [lift_apply, h]

theorem lift_error {x : StoreM σ α} {s s' : σ} {e : StorageError} (h : x s = (.error e, s')) :
    (liftM x : AuthoringM σ α) s = (.error (.storage e), s') := by
  rw [lift_apply, h]

end Task

/-- The records of a version of a component. -/
def versionRecords (component version : String) (storables : Entries StorableShape) : List Record :=
  storables.map fun e => .ofStorable ⟨component, e.1, version⟩ e.2

/-- The record of a prop among those of a version. -/
theorem find?_versionRecords (component version prop : String)
    (storables : Entries StorableShape) :
    (versionRecords component version storables).find? (·.key = ⟨component, prop, version⟩)
      = (Entries.find? storables prop).map (Record.ofStorable ⟨component, prop, version⟩) := by
  induction storables with
  | nil => rfl
  | cons e storables ih =>
    obtain ⟨name, s⟩ := e
    rw [versionRecords, List.map_cons, ← versionRecords, List.find?_cons, Entries.find?_cons, ih]
    by_cases h : prop = name
    · subst h
      simp [Record.ofStorable]
    · simp [Record.ofStorable, h, Ne.symm h]

/-- The records of a resolved component. -/
def ResolvedComponent.records (c : ResolvedComponent) (component : String) : List Record :=
  versionRecords component c.versionId c.storables.entries

theorem ResolvedComponent.mem_records_iff {c : ResolvedComponent} {component : String}
    {r : Record} :
    r ∈ c.records component ↔ ∃ prop s, c.storables.find? prop = some s ∧
      r = .ofStorable ⟨component, prop, c.versionId⟩ s := by
  rw [records, versionRecords, List.mem_map]
  constructor
  · rintro ⟨⟨prop, s⟩, he, rfl⟩
    exact ⟨prop, s, Entries.find?_of_mem c.storables.nodup_names he, rfl⟩
  · rintro ⟨prop, s, hs, rfl⟩
    exact ⟨(prop, s), Entries.mem_of_find? hs, rfl⟩

namespace Store

/-! ## Records in a store -/

/-- The store with more records. -/
def append (s : Store) (records : List Record) : Store :=
  { s with records := s.records ++ records }

/-- Whether the store has a record with the key of `r` and another content. -/
def conflicts (s : Store) (r : Record) : Bool :=
  match s.find? r.key with
  | some stored => stored.contentHash ≠ r.contentHash
  | none => false

/-- Whether the store has no record with the key of `r`. -/
def lacks (s : Store) (r : Record) : Bool := (s.find? r.key).isNone

theorem key_of_find? {s : Store} {key : RecordKey} {r : Record} (h : s.find? key = some r) :
    r.key = key := by
  have := List.find?_some h
  exact of_decide_eq_true this

theorem find?_append (s : Store) (records : List Record) (key : RecordKey) :
    (s.append records).find? key = (s.find? key).or (records.find? (·.key = key)) := by
  rw [append, find?, List.find?_append]; rfl

theorem find?_append_of_ne {s : Store} {r : Record} {key : RecordKey} (h : r.key ≠ key) :
    (s.append [r]).find? key = s.find? key := by
  rw [find?_append, List.find?_singleton]
  simp [h]

theorem conflicts_append_of_ne {s : Store} {r r' : Record} (h : r.key ≠ r'.key) :
    (s.append [r]).conflicts r' = s.conflicts r' := by
  rw [conflicts, conflicts, find?_append_of_ne h]

theorem lacks_append_of_ne {s : Store} {r r' : Record} (h : r.key ≠ r'.key) :
    (s.append [r]).lacks r' = s.lacks r' := by
  rw [lacks, lacks, find?_append_of_ne h]

/-! ## One record -/

theorem get_of_some {s : Store} {key : RecordKey} {stored : Record}
    (h : s.find? key = some stored) : memory.get key s = (.ok stored, s) := by
  simp only [memory, query, h]

theorem get_of_none {s : Store} {key : RecordKey} (h : s.find? key = none) :
    memory.get key s = (.error (.notFound key), s) := by
  simp only [memory, query, h]

theorem contains_memory (s : Store) (key : RecordKey) :
    memory.contains key s = (.ok (s.find? key).isSome, s) := by
  rw [RecordStore.contains, Task.tryCatch_apply]
  cases h : s.find? key with
  | none => rw [Task.bind_error (get_of_none h)]; rfl
  | some stored => rw [Task.bind_ok (get_of_some h)]; rfl

theorem put_memory (s : Store) (r : Record) :
    memory.put r s =
      if s.lacks r then (.ok (), s.append [r]) else (.error (.duplicate r.key), s) := by
  cases h : s.find? r.key <;> simp [memory, change, put, lacks, h, append]

theorem checkStored_memory {s : Store} {r : Record} (h : s.lacks r = false) :
    memory.checkStored r s =
      if s.conflicts r then (.error (.storage (.duplicate r.key)), s) else (.ok (), s) := by
  cases hfind : s.find? r.key with
  | none => rw [lacks, hfind] at h; cases h
  | some stored =>
    rw [RecordStore.checkStored, Task.bind_ok (Task.lift_ok (get_of_some hfind)), conflicts, hfind]
    by_cases heq : stored.contentHash = r.contentHash <;> simp [heq] <;> rfl

theorem putOrCheck_memory (s : Store) (r : Record) :
    memory.putOrCheck r s =
      if s.lacks r then (.ok 1, s.append [r])
      else if s.conflicts r then (.error (.storage (.duplicate r.key)), s)
      else (.ok 0, s) := by
  rw [RecordStore.putOrCheck, Task.bind_ok (Task.run_apply (memory.put r) s), put_memory]
  cases h : s.lacks r with
  | true => rfl
  | false =>
    have hcheck := checkStored_memory h
    cases hc : s.conflicts r with
    | true =>
      rw [hc, if_pos rfl] at hcheck
      exact Task.bind_error hcheck
    | false =>
      rw [hc, if_neg Bool.false_ne_true] at hcheck
      exact Task.bind_ok hcheck

/-- A record is written if it is missing, and otherwise its content is compared. -/
theorem ensure_memory (known : Bool) (r : Record) (s : Store) :
    memory.ensure known r s =
      if s.lacks r then (.ok 1, s.append [r])
      else if s.conflicts r then (.error (.storage (.duplicate r.key)), s)
      else (.ok 0, s) := by
  rw [RecordStore.ensure]
  cases known with
  | false => exact putOrCheck_memory s r
  | true =>
    have hcontains : (liftM (memory.contains r.key) : AuthoringM Store Bool) s
        = (.ok !s.lacks r, s) := by
      rw [Task.lift_ok (contains_memory s r.key), lacks, Option.not_isNone]
    rw [if_pos rfl, Task.bind_ok hcontains]
    cases h : s.lacks r with
    | true =>
      refine (putOrCheck_memory s r).trans ?_
      rw [h]
    | false =>
      have hcheck := checkStored_memory h
      cases hc : s.conflicts r with
      | true =>
        rw [hc, if_pos rfl] at hcheck
        exact Task.bind_error hcheck
      | false =>
        rw [hc, if_neg Bool.false_ne_true] at hcheck
        exact Task.bind_ok hcheck

/-! ## The records of a version -/

/-- The store once the records that it lacks are written, up to the first that conflicts. -/
def afterEnsuring (s : Store) (records : List Record) : Store :=
  s.append ((records.takeWhile fun r => !s.conflicts r).filter s.lacks)

/-- What comes of ensuring records: how many were written, or the first that conflicts. -/
def ensured (s : Store) (records : List Record) : Except AuthoringError Nat :=
  match records.find? s.conflicts with
  | some r => .error (.storage (.duplicate r.key))
  | none => .ok (records.filter s.lacks).length

theorem ensured_eq_ok_iff {s : Store} {records : List Record} {written : Nat} :
    s.ensured records = .ok written ↔
      (∀ r ∈ records, s.conflicts r = false) ∧ (records.filter s.lacks).length = written := by
  rw [ensured]
  cases h : records.find? s.conflicts with
  | some r =>
    have hr := List.mem_of_find?_eq_some h
    have hconflicts := List.find?_some h
    refine ⟨fun h => (nomatch h), fun hall => ?_⟩
    rw [hall.1 r hr] at hconflicts
    cases hconflicts
  | none =>
    have hnone : ∀ r ∈ records, s.conflicts r = false :=
      fun r hr => Bool.eq_false_iff.2 (List.find?_eq_none.1 h r hr)
    rw [Except.ok.injEq]
    exact ⟨fun hn => ⟨hnone, hn⟩, fun hall => hall.2⟩

section Cons

variable {s : Store} {r : Record} (records : List Record)

theorem conflicts_of_lacks (h : s.lacks r = true) : s.conflicts r = false := by
  rw [lacks, Option.isNone_iff_eq_none] at h
  rw [conflicts, h]

theorem ensured_cons_of_conflicts (h : s.conflicts r = true) :
    s.ensured (r :: records) = .error (.storage (.duplicate r.key)) ∧
      s.afterEnsuring (r :: records) = s := by
  refine ⟨by rw [ensured, List.find?_cons, h], ?_⟩
  rw [afterEnsuring, List.takeWhile_cons, h]
  exact congrArg (fun l => { s with records := l }) (List.append_nil s.records)

theorem ensured_cons_of_same (hlacks : s.lacks r = false) (h : s.conflicts r = false) :
    s.ensured (r :: records) = s.ensured records ∧
      s.afterEnsuring (r :: records) = s.afterEnsuring records := by
  constructor
  · rw [ensured, List.find?_cons, h, List.filter_cons, hlacks]; rfl
  · rw [afterEnsuring, List.takeWhile_cons, h, Bool.not_false, if_pos rfl, List.filter_cons, hlacks]
    rfl

theorem ensured_cons_of_lacks {records : List Record} (h : s.lacks r = true)
    (hne : ∀ r' ∈ records, r.key ≠ r'.key) :
    s.ensured (r :: records) = (1 + ·) <$> (s.append [r]).ensured records ∧
      s.afterEnsuring (r :: records) = (s.append [r]).afterEnsuring records := by
  have hconflicts : ∀ r' ∈ records, (s.append [r]).conflicts r' = s.conflicts r' :=
    fun r' hr => conflicts_append_of_ne (hne r' hr)
  have hlacks : ∀ r' ∈ records, (s.append [r]).lacks r' = s.lacks r' :=
    fun r' hr => lacks_append_of_ne (hne r' hr)
  constructor
  · rw [ensured, ensured, List.find?_cons, conflicts_of_lacks h, List.find?_congr hconflicts,
      List.filter_cons, h, List.filter_congr hlacks]
    cases records.find? s.conflicts with
    | none => exact congrArg Except.ok (Nat.add_comm _ 1)
    | some r => rfl
  · have htake : records.takeWhile (fun r' => !(s.append [r]).conflicts r')
        = records.takeWhile fun r' => !s.conflicts r' :=
      Text.takeWhile_congr fun r' hr => congrArg not (hconflicts r' hr)
    rw [afterEnsuring, afterEnsuring, List.takeWhile_cons, conflicts_of_lacks h, Bool.not_false,
      if_pos rfl, List.filter_cons, h, htake,
      List.filter_congr fun r' hr => hlacks r' ((List.takeWhile_sublist _).subset hr)]
    exact congrArg (fun l => { s with records := l }) (List.append_assoc _ [r] _).symm

end Cons

/-- The records of a version are written if they are missing, in order, until one conflicts. -/
theorem ensureAll_memory (known : Bool) (component version : String)
    {storables : Entries StorableShape} (hd : (Entries.names storables).Nodup) (s : Store) :
    memory.ensureAll known component version storables s =
      (s.ensured (versionRecords component version storables),
        s.afterEnsuring (versionRecords component version storables)) := by
  induction storables generalizing s with
  | nil => exact congrArg (Prod.mk _) (congrArg (fun l => { s with records := l })
      (List.append_nil s.records).symm)
  | cons e storables ih =>
    obtain ⟨prop, storable⟩ := e
    rw [Entries.names, List.map_cons, List.nodup_cons] at hd
    have hne : ∀ r' ∈ versionRecords component version storables,
        RecordKey.mk component prop version ≠ r'.key := by
      intro r' hr heq
      obtain ⟨e, he, rfl⟩ := List.mem_map.1 hr
      exact hd.1 (List.mem_map.2 ⟨e, he, (congrArg RecordKey.prop heq).symm⟩)
    rw [RecordStore.ensureAll, versionRecords, List.map_cons, ← versionRecords]
    have hensure := ensure_memory known (.ofStorable ⟨component, prop, version⟩ storable) s
    cases hlacks : s.lacks (.ofStorable ⟨component, prop, version⟩ storable) with
    | true =>
      obtain ⟨hensured, hafter⟩ := ensured_cons_of_lacks hlacks hne
      rw [hlacks, if_pos rfl] at hensure
      rw [Task.bind_ok hensure, Task.bind_pure_apply, ih hd.2, hensured, hafter]
    | false =>
      rw [hlacks, if_neg Bool.false_ne_true] at hensure
      cases hconflicts : s.conflicts (.ofStorable ⟨component, prop, version⟩ storable) with
      | true =>
        obtain ⟨hensured, hafter⟩ := ensured_cons_of_conflicts
          (versionRecords component version storables) hconflicts
        rw [hconflicts, if_pos rfl] at hensure
        rw [Task.bind_error hensure, hensured, hafter]
      | false =>
        obtain ⟨hensured, hafter⟩ := ensured_cons_of_same
          (versionRecords component version storables) hlacks hconflicts
        rw [hconflicts, if_neg Bool.false_ne_true] at hensure
        have hzero : HAdd.hAdd (0 : Nat) = id := funext Nat.zero_add
        rw [Task.bind_ok hensure, Task.bind_pure_apply, ih hd.2, hensured, hafter, hzero, id_map]

/-! ## Versions -/

/-- The store in which a version of a component is active. -/
def activated (s : Store) (component version : String) : Store :=
  { s with activeVersions := s.activeVersions.insert component version }

theorem activate_memory {s : Store} {component version : String}
    (h : s.hasVersion component version = true) :
    memory.activate component version s = (.ok (), s.activated component version) := by
  simp [memory, change, activate, h, activated]

theorem afterEnsuring_of_no_conflict {s : Store} {records : List Record}
    (h : ∀ r ∈ records, s.conflicts r = false) :
    s.afterEnsuring records = s.append (records.filter s.lacks) := by
  have hall : records.takeWhile (fun r => !s.conflicts r) = records :=
    List.takeWhile_eq_self_iff.2 fun r hr => by rw [h r hr]; rfl
  rw [afterEnsuring, hall]

/-- Once the records of a version are ensured, the version exists, unless it has no records. -/
theorem hasVersion_afterEnsuring {s : Store} {component version : String}
    {storables : Entries StorableShape} (hne : storables ≠ [])
    (h : ∀ r ∈ versionRecords component version storables, s.conflicts r = false) :
    (s.afterEnsuring (versionRecords component version storables)).hasVersion component version
      = true := by
  obtain ⟨e, he⟩ := List.exists_mem_of_ne_nil storables hne
  have hr : Record.ofStorable ⟨component, e.1, version⟩ e.2
      ∈ versionRecords component version storables := List.mem_map_of_mem he
  rw [afterEnsuring_of_no_conflict h, hasVersion, List.any_eq_true]
  cases hlacks : s.lacks (.ofStorable ⟨component, e.1, version⟩ e.2) with
  | true =>
    refine ⟨_, List.mem_append_right _ (List.mem_filter.2 ⟨hr, hlacks⟩), ?_⟩
    simp [isOf, Record.ofStorable]
  | false =>
    rw [lacks, Option.isNone_eq_false_iff, Option.isSome_iff_exists] at hlacks
    obtain ⟨stored, hstored⟩ := hlacks
    have hkey := key_of_find? hstored
    refine ⟨stored, List.mem_append_left _ (List.mem_of_find?_eq_some hstored), ?_⟩
    simp [isOf, hkey, Record.ofStorable]

theorem isEmpty_ofStorables (storables : SortedMap StorableShape) :
    (ComponentSettings.ofStorables storables).isEmpty = storables.entries.isEmpty := by
  exact List.isEmpty_map

/-- What storing a resolved component does: its records are ensured, and if none conflicts, the
version is activated unless it has no records. -/
theorem storeVersion_memory (component : String) (c : ResolvedComponent)
    (hc : c.settings = .ofStorables c.storables) (s : Store) :
    memory.storeVersion component c s =
      match s.ensured (c.records component) with
      | .error e => (.error e, s.afterEnsuring (c.records component))
      | .ok written =>
        (.ok ⟨component, c.versionId, c.settings, written, !c.settings.isEmpty⟩,
          if c.settings.isEmpty then s.afterEnsuring (c.records component)
          else (s.afterEnsuring (c.records component)).activated component c.versionId) := by
  have hversions : memory.versions component s = (.ok (s.versions component), s) := rfl
  have hensure := ensureAll_memory ((s.versions component).contains c.versionId) component
    c.versionId c.storables.nodup_names s
  rw [RecordStore.storeVersion, Task.bind_ok (Task.lift_ok hversions)]
  rw [← ResolvedComponent.records] at hensure
  cases hensured : s.ensured (c.records component) with
  | error e =>
    rw [hensured] at hensure
    exact Task.bind_error hensure
  | ok written =>
    rw [hensured] at hensure
    refine (Task.bind_ok hensure).trans ?_
    cases hempty : c.settings.isEmpty with
    | true => rfl
    | false =>
      have hne : c.storables.entries ≠ [] := by
        rw [hc, isEmpty_ofStorables] at hempty
        exact List.isEmpty_eq_false_iff.1 hempty
      have hnone := ensured_eq_ok_iff.1 hensured
      exact Task.bind_ok (Task.lift_ok (activate_memory (hasVersion_afterEnsuring hne hnone.1)))

/-- Creating a version resolves the source before the store is touched. -/
theorem createVersion_memory (r : Resolver) (component : String) (source : ComponentSource)
    (s : Store) :
    memory.createVersion r component source s =
      match source.resolve r with
      | .ok c => memory.storeVersion component c s
      | .error e => (.error (.component e), s) := by
  rw [RecordStore.createVersion]
  cases source.resolve r <;> rfl

/-- Where a store has no record of the component, all records of the version are written. -/
theorem storeVersion_of_absent {component : String} {c : ResolvedComponent}
    (hc : c.settings = .ofStorables c.storables) {s : Store}
    (hs : ∀ r ∈ s.records, r.key.component ≠ component) :
    ∃ v t, memory.storeVersion component c s = (.ok v, t) ∧
      v.written = c.storables.entries.length ∧
      ∀ prop, t.find? ⟨component, prop, c.versionId⟩
        = (c.storables.find? prop).map (Record.ofStorable ⟨component, prop, c.versionId⟩) := by
  have hnone : ∀ prop, s.find? ⟨component, prop, c.versionId⟩ = none := fun prop =>
    List.find?_eq_none.2 fun r hr heq =>
      hs r hr (congrArg RecordKey.component (of_decide_eq_true heq))
  have hlacks : ∀ r ∈ c.records component, s.lacks r = true := by
    intro r hr
    obtain ⟨e, -, rfl⟩ := List.mem_map.1 hr
    exact Option.isNone_iff_eq_none.2 (hnone e.1)
  have hconflicts : ∀ r ∈ c.records component, s.conflicts r = false :=
    fun r hr => conflicts_of_lacks (hlacks r hr)
  have hfilter : (c.records component).filter s.lacks = c.records component :=
    List.filter_eq_self.2 hlacks
  have hensured : s.ensured (c.records component) = .ok c.storables.entries.length :=
    ensured_eq_ok_iff.2 ⟨hconflicts, by rw [hfilter]; exact List.length_map _⟩
  have hfind : ∀ prop, (s.afterEnsuring (c.records component)).find?
      ⟨component, prop, c.versionId⟩
        = (c.storables.find? prop).map (Record.ofStorable ⟨component, prop, c.versionId⟩) := by
    intro prop
    rw [afterEnsuring_of_no_conflict hconflicts, hfilter, find?_append, hnone, Option.none_or]
    exact find?_versionRecords component c.versionId prop c.storables.entries
  refine ⟨_, _, (storeVersion_memory component c hc s).trans (by rw [hensured]), rfl, ?_⟩
  split
  · exact hfind
  · exact hfind

/-! ## Versions that are there -/

section Present

variable {component : String} {c : ResolvedComponent} {stored : SortedMap StorableShape} {s : Store}

/-- Where all props of a version are stored, no record is missing, and a record conflicts if the
hashes differ. -/
theorem lacks_conflicts_of_present
    (hstored : ∀ prop, s.find? ⟨component, prop, c.versionId⟩
      = (stored.find? prop).map (Record.ofStorable ⟨component, prop, c.versionId⟩))
    (hprops : ∀ prop, (stored.find? prop).isSome = (c.storables.find? prop).isSome)
    {prop : String} {storable : StorableShape} (h : c.storables.find? prop = some storable) :
    s.lacks (.ofStorable ⟨component, prop, c.versionId⟩ storable) = false ∧
      s.conflicts (.ofStorable ⟨component, prop, c.versionId⟩ storable)
        = decide ((stored.find? prop).map (·.snapshot.contentHash)
            ≠ (c.storables.find? prop).map (·.snapshot.contentHash)) := by
  have hprop := hprops prop
  rw [h, Option.isSome_some, Option.isSome_iff_exists] at hprop
  obtain ⟨found, hfound⟩ := hprop
  have hfind : s.find? ⟨component, prop, c.versionId⟩
      = some (.ofStorable ⟨component, prop, c.versionId⟩ found) := by
    rw [hstored, hfound, Option.map_some]
  constructor
  · rw [lacks, Record.ofStorable, hfind]; rfl
  · rw [conflicts, Record.ofStorable, hfind, hfound, h]
    exact decide_eq_decide.2 (not_congr Option.some_inj.symm)

/-- Where all props of a version are stored, storing it writes nothing if the hashes are equal. -/
theorem storeVersion_of_same (hc : c.settings = .ofStorables c.storables)
    (hstored : ∀ prop, s.find? ⟨component, prop, c.versionId⟩
      = (stored.find? prop).map (Record.ofStorable ⟨component, prop, c.versionId⟩))
    (hsame : ∀ prop, (stored.find? prop).map (·.snapshot.contentHash)
      = (c.storables.find? prop).map (·.snapshot.contentHash)) :
    ∃ v t, memory.storeVersion component c s = (.ok v, t) ∧ v.written = 0 := by
  have hprops : ∀ prop, (stored.find? prop).isSome = (c.storables.find? prop).isSome := by
    intro prop
    have hprop := congrArg Option.isSome (hsame prop)
    rwa [Option.isSome_map, Option.isSome_map] at hprop
  have hpresent : ∀ r ∈ c.records component, s.lacks r = false ∧ s.conflicts r = false := by
    intro r hr
    obtain ⟨⟨prop, storable⟩, he, rfl⟩ := List.mem_map.1 hr
    have hfind := Entries.find?_of_mem c.storables.nodup_names he
    obtain ⟨hlacks, hconflicts⟩ := lacks_conflicts_of_present hstored hprops hfind
    exact ⟨hlacks, hconflicts.trans (decide_eq_false fun hne => hne (hsame prop))⟩
  have hfilter : (c.records component).filter s.lacks = [] :=
    List.filter_eq_nil_iff.2 fun r hr => Bool.eq_false_iff.1 (hpresent r hr).1
  have hensured : s.ensured (c.records component) = .ok 0 :=
    ensured_eq_ok_iff.2 ⟨fun r hr => (hpresent r hr).2, by rw [hfilter]; rfl⟩
  exact ⟨_, _, (storeVersion_memory component c hc s).trans (by rw [hensured]), rfl⟩

/-- Where all props of a version are stored, storing it is refused if some hashes differ. -/
theorem storeVersion_of_different (hc : c.settings = .ofStorables c.storables)
    (hstored : ∀ prop, s.find? ⟨component, prop, c.versionId⟩
      = (stored.find? prop).map (Record.ofStorable ⟨component, prop, c.versionId⟩))
    (hprops : ∀ prop, (stored.find? prop).isSome = (c.storables.find? prop).isSome)
    {prop : String} (hdifferent : (stored.find? prop).map (·.snapshot.contentHash)
      ≠ (c.storables.find? prop).map (·.snapshot.contentHash)) :
    ∃ prop t, memory.storeVersion component c s
      = (.error (.storage (.duplicate ⟨component, prop, c.versionId⟩)), t) := by
  have hconflict : ∃ r ∈ c.records component, s.conflicts r = true := by
    cases hfind : c.storables.find? prop with
    | none =>
      have hprop := hprops prop
      rw [hfind, Option.isSome_none, Option.isSome_eq_false_iff, Option.isNone_iff_eq_none] at hprop
      rw [hfind, hprop] at hdifferent
      exact absurd rfl hdifferent
    | some storable =>
      refine ⟨_, List.mem_map_of_mem (Entries.mem_of_find? hfind), ?_⟩
      exact (lacks_conflicts_of_present hstored hprops hfind).2.trans (decide_eq_true hdifferent)
  rw [storeVersion_memory component c hc, ensured]
  cases hfirst : (c.records component).find? s.conflicts with
  | none =>
    obtain ⟨r, hr, hconflict⟩ := hconflict
    exact absurd hconflict (List.find?_eq_none.1 hfirst r hr)
  | some r =>
    obtain ⟨e, -, rfl⟩ := List.mem_map.1 (List.mem_of_find?_eq_some hfirst)
    exact ⟨e.1, _, rfl⟩

end Present

end Store

end PropStorage
