import PropStorage.Proofs.Store.Tables

/-!
# Runs of a store

A run makes one call of a store after the other (`RecordStore.answers`). Whatever the calls, the
tables of a store stay in step (`Tables.Consistent`): what one call can do is listed once
(`Tables.call_cases`), each of that keeps them in step (`Consistent.call`), and so does a run
(`Consistent.answers`).

From tables in step all that is said of their operations follows (`Consistent.invariant`).
-/

namespace PropStorage

/-! ## Calls -/

/-- A call of one operation of a store. -/
inductive Call where
  | put (r : Record)
  | get (key : RecordKey)
  | contains (key : RecordKey)
  | props (component version : String)
  | versions (component : String)
  | active (component : String)
  | activate (component version : String)
  | delete (component version : String)

/-- What an operation answers if it does not fail. -/
inductive Answer where
  | done
  | record (r : Record)
  | flag (holds : Bool)
  | names (names : List String)
  | name? (name : Option String)

namespace RecordStore

variable {σ : Type}

/-- Runs the operation that is called. -/
def call (s : RecordStore σ) : Call → StoreM σ Answer
  | .put r => do
    s.put r
    pure .done
  | .get key => do pure (.record (← s.get key))
  | .contains key => do pure (.flag (← s.contains key))
  | .props component version => do pure (.names (← s.props component version))
  | .versions component => do pure (.names (← s.versions component))
  | .active component => do pure (.name? (← s.active component))
  | .activate component version => do
    s.activate component version
    pure .done
  | .delete component version => do
    s.delete component version
    pure .done

/-- The answers to one call after the other, and the state that they lead to. A call that fails does
not end the run. -/
def answers (s : RecordStore σ) : List Call → σ → List (Except StorageError Answer) × σ
  | [], state => ([], state)
  | call :: calls, state =>
    let (answer, state) := s.call call state
    let (more, state) := s.answers calls state
    (answer :: more, state)

end RecordStore

namespace Tables

/-! ## Tables in step -/

/-- Whether the tables are in step with one another. -/
structure Consistent (t : Tables) : Prop where
  /-- A version is listed just if there is a record of it. -/
  lists_iff : ∀ component version, t.Lists component version ↔
    ∃ prop, t.records.contains ⟨component, prop, version⟩ = true
  /-- No list of versions is empty, and none names a version twice. -/
  proper : ∀ component listed, t.versions.find? component = some listed →
    listed ≠ [] ∧ listed.Nodup
  /-- The active version of a component is listed. -/
  active : ∀ component version, t.active.find? component = some version →
    t.Lists component version
  /-- Each record stands under the key that it carries. -/
  keyed : ∀ key r, t.records.find? key = some r → r.key = key

theorem consistent_empty : (∅ : Tables).Consistent where
  lists_iff _ _ := iff_of_false (fun ⟨_, h, _⟩ => nomatch h) fun ⟨_, h⟩ => nomatch h
  proper _ _ h := nomatch h
  active _ _ h := nomatch h
  keyed _ _ h := nomatch h

theorem lists_written {t : Tables} {r : Record} {component version : String} :
    (t.written r).Lists component version ↔
      (component = r.key.component ∧ version = r.key.version) ∨ t.Lists component version := by
  rw [lists_iff_mem, lists_iff_mem, written, getD_listVersion]
  by_cases hcomponent : component = r.key.component
  · rw [if_pos hcomponent, mem_addVersion, and_iff_right hcomponent]
  · rw [if_neg hcomponent]
    exact (or_iff_right fun h => hcomponent h.1).symm

theorem lists_deleted {t : Tables} {component version other v : String} :
    (t.deleted component version).Lists other v ↔
      t.Lists other v ∧ ¬ (other = component ∧ v = version) := by
  rw [lists_iff_mem, lists_iff_mem, deleted, getD_unlistVersion]
  by_cases hother : other = component
  · rw [if_pos hother, List.mem_filter, decide_eq_true_iff, and_iff_right hother]
  · rw [if_neg hother]
    exact (and_iff_left fun h => hother h.1).symm

namespace Consistent

variable {t : Tables} (h : t.Consistent)
include h

theorem written (r : Record) : (t.written r).Consistent where
  lists_iff component version := by
    rw [lists_written, h.lists_iff]
    simp only [Tables.written, RecordTable.contains_insert]
    constructor
    · rintro (⟨rfl, rfl⟩ | ⟨prop, hprop⟩)
      · exact ⟨r.key.prop, .inl rfl⟩
      · exact ⟨prop, .inr hprop⟩
    · rintro ⟨prop, heq | hprop⟩
      · exact .inl ⟨congrArg RecordKey.component heq, congrArg RecordKey.version heq⟩
      · exact .inr ⟨prop, hprop⟩
  proper component listed hlisted := by
    rw [Tables.written, find?_listVersion] at hlisted
    split at hlisted
    · obtain rfl := Option.some.inj hlisted
      refine ⟨List.ne_nil_of_mem (mem_addVersion.2 (.inl rfl)), nodup_addVersion ?_⟩
      cases hfind : t.versions.find? r.key.component with
      | none => exact List.nodup_nil
      | some listed => exact (h.proper _ _ hfind).2
    · exact h.proper _ _ hlisted
  active component version hactive := lists_written.2 (.inr (h.active _ _ hactive))
  keyed key stored hstored := by
    rw [Tables.written, RecordTable.find?_insert] at hstored
    split at hstored
    · rename_i heq
      rw [← Option.some.inj hstored, heq]
    · exact h.keyed _ _ hstored

theorem activated {component version : String} (hlists : t.Lists component version) :
    (t.activated component version).Consistent where
  lists_iff := h.lists_iff
  proper := h.proper
  active other v hactive := by
    rw [Tables.activated, SortedMap.find?_insert] at hactive
    split at hactive
    · rename_i heq
      obtain rfl := Option.some.inj hactive
      exact heq ▸ hlists
    · exact h.active _ _ hactive
  keyed := h.keyed

theorem deleted (component version : String) : (t.deleted component version).Consistent where
  lists_iff other v := by
    rw [lists_deleted, h.lists_iff]
    simp only [Tables.deleted, RecordTable.contains_filter, Bool.not_eq_true',
      ← Bool.not_eq_true, RecordKey.isOf_iff]
    exact ⟨fun ⟨⟨prop, hprop⟩, hne⟩ => ⟨prop, hne, hprop⟩,
      fun ⟨prop, hne, hprop⟩ => ⟨⟨prop, hprop⟩, hne⟩⟩
  proper other listed hlisted := by
    rw [Tables.deleted, find?_unlistVersion] at hlisted
    split at hlisted
    · obtain ⟨hmap, hne⟩ := Option.filter_eq_some_iff.1 hlisted
      obtain ⟨before, hbefore, rfl⟩ := Option.map_eq_some_iff.1 hmap
      exact ⟨by simpa using hne, (h.proper _ _ hbefore).2.filter _⟩
    · exact h.proper _ _ hlisted
  active other v hactive := by
    rw [Tables.deleted, find?_deactivate] at hactive
    split at hactive
    · cases hactive
    · rename_i hne
      refine lists_deleted.2 ⟨h.active _ _ hactive, ?_⟩
      rintro ⟨rfl, rfl⟩
      exact hne ⟨rfl, hactive⟩
  keyed key stored hstored := by
    rw [Tables.deleted, RecordTable.find?_filter] at hstored
    split at hstored
    · exact h.keyed _ _ hstored
    · cases hstored

end Consistent

/-- What a call can do: it leaves the tables alone, and answers something else than `done`, or it
succeeds in writing a record, or in activating or removing a version that is listed. -/
theorem call_cases (t : Tables) (c : Call) :
    ((memory.call c t).2 = t ∧ (memory.call c t).1 ≠ .ok .done) ∨
    (∃ r, c = .put r ∧ t.records.contains r.key = false ∧
      memory.call c t = (.ok .done, t.written r)) ∨
    (∃ component version, c = .activate component version ∧ t.Lists component version ∧
      memory.call c t = (.ok .done, t.activated component version)) ∨
    ∃ component version, c = .delete component version ∧ t.Lists component version ∧
      memory.call c t = (.ok .done, t.deleted component version) := by
  cases c with
  | put r =>
    rw [RecordStore.call, Task.bind_pure_apply, put_memory]
    cases h : t.records.contains r.key with
    | true => exact .inl ⟨rfl, nofun⟩
    | false => exact .inr (.inl ⟨r, rfl, h, rfl⟩)
  | get key =>
    rw [RecordStore.call, Task.bind_pure_apply, get_memory]
    cases t.records.find? key <;> exact .inl ⟨rfl, nofun⟩
  | contains key =>
    rw [RecordStore.call, Task.bind_pure_apply, contains_memory]
    exact .inl ⟨rfl, nofun⟩
  | props component version =>
    rw [RecordStore.call, Task.bind_pure_apply, props_memory]
    cases t.hasVersion component version <;> exact .inl ⟨rfl, nofun⟩
  | versions component => exact .inl ⟨rfl, nofun⟩
  | active component => exact .inl ⟨rfl, nofun⟩
  | activate component version =>
    rw [RecordStore.call, Task.bind_pure_apply, activate_memory]
    cases h : t.hasVersion component version with
    | true => exact .inr (.inr (.inl ⟨_, _, rfl, hasVersion_iff.1 h, rfl⟩))
    | false => exact .inl ⟨rfl, nofun⟩
  | delete component version =>
    rw [RecordStore.call, Task.bind_pure_apply, delete_memory]
    cases h : t.hasVersion component version with
    | true => exact .inr (.inr (.inr ⟨_, _, rfl, hasVersion_iff.1 h, rfl⟩))
    | false => exact .inl ⟨rfl, nofun⟩

/-- A call keeps the tables in step. -/
theorem Consistent.call {t : Tables} (h : t.Consistent) (c : Call) :
    (memory.call c t).2.Consistent := by
  rcases call_cases t c with ⟨hsame, -⟩ | ⟨r, -, -, hcall⟩ |
    ⟨component, version, -, hlists, hcall⟩ | ⟨component, version, -, -, hcall⟩
  · rwa [hsame]
  · rw [hcall]; exact h.written r
  · rw [hcall]; exact h.activated hlists
  · rw [hcall]; exact h.deleted component version

/-- A run keeps the tables in step. -/
theorem Consistent.answers {t : Tables} (h : t.Consistent) (calls : List Call) :
    (memory.answers calls t).2.Consistent := by
  induction calls generalizing t with
  | nil => exact h
  | cons c calls ih => exact ih (h.call c)

/-! ## What operations say -/

/-- A call that fails leaves the tables alone. -/
theorem eq_of_call_error {t u : Tables} {c : Call} {e : StorageError}
    (h : memory.call c t = (.error e, u)) : u = t := by
  rcases call_cases t c with ⟨hsame, -⟩ | ⟨_, -, -, hcall⟩ | ⟨_, _, -, -, hcall⟩ |
    ⟨_, _, -, -, hcall⟩
  · rwa [h] at hsame
  · rw [h] at hcall; cases hcall
  · rw [h] at hcall; cases hcall
  · rw [h] at hcall; cases hcall

theorem get_eq_ok_iff {t : Tables} {key : RecordKey} :
    (∃ r, memory.get key t = (.ok r, t)) ↔ t.records.contains key = true := by
  rw [get_memory, RecordTable.contains]
  cases t.records.find? key with
  | none =>
    refine iff_of_false ?_ Bool.false_ne_true
    rintro ⟨_, h⟩
    cases h
  | some r => exact iff_of_true ⟨r, rfl⟩ rfl

theorem props_eq_ok_iff {t : Tables} {component version : String} {names : List String} :
    memory.props component version t = (.ok names, t) ↔
      t.Lists component version ∧ names = t.props component version := by
  rw [props_memory, ← hasVersion_iff]
  cases t.hasVersion component version with
  | true =>
    refine ⟨fun h => ?_, fun h => by rw [h.2]; rfl⟩
    cases h
    exact ⟨rfl, rfl⟩
  | false => exact iff_of_false (fun h => nomatch h) fun h => Bool.false_ne_true h.1

/-- What holds of the tables of a store, whatever has been done to it. -/
structure Invariant (t : Tables) : Prop extends Consistent t where
  /-- Asking for a record, reading it and finding its prop listed come to the same. -/
  readable : ∀ key, ∃ present, memory.contains key t = (.ok present, t) ∧
    (present = true ↔ ∃ r, memory.get key t = (.ok r, t)) ∧
    (present = true ↔ ∃ names,
      memory.props key.component key.version t = (.ok names, t) ∧ key.prop ∈ names)
  /-- Props are listed in order, each once. -/
  ordered : ∀ component version names, memory.props component version t = (.ok names, t) →
    names.Pairwise (· < ·)
  /-- A call that fails leaves all three tables alone. -/
  unharmed : ∀ c e u, memory.call c t = (.error e, u) → u = t

theorem Consistent.invariant {t : Tables} (h : t.Consistent) : t.Invariant where
  toConsistent := h
  readable key := by
    refine ⟨_, contains_memory t key, get_eq_ok_iff.symm, ?_⟩
    simp only [props_eq_ok_iff]
    constructor
    · intro hkey
      exact ⟨_, ⟨(h.lists_iff _ _).2 ⟨key.prop, hkey⟩, rfl⟩, mem_props_iff.2 hkey⟩
    · rintro ⟨_, ⟨-, rfl⟩, hprop⟩
      exact mem_props_iff.1 hprop
  ordered component version names hnames := by
    rw [(props_eq_ok_iff.1 hnames).2]
    exact sorted_props t component version
  unharmed _ _ _ := eq_of_call_error

end Tables

end PropStorage
