import PropStorage.Proofs.Store.Mirror

/-!
# Components side by side

What a store answers about a component does not depend on what is done with other components: tables
that agree on a component answer alike about it (`AgreeOn.answers`) and still agree afterwards
(`AgreeOn.call`), and a call about another component keeps them in agreement (`agreeOn_of_other`). So
the calls about others can be left out of a run (`Tables.separates`).
-/

namespace PropStorage

/-- The component that a call is about. -/
def Call.component : Call → String
  | .put r => r.key.component
  | .get key => key.component
  | .contains key => key.component
  | .props component _ => component
  | .versions component => component
  | .active component => component
  | .activate component _ => component
  | .delete component _ => component

/-- The calls of a run that are about a component. -/
def callsAbout (component : String) (calls : List Call) : List Call :=
  calls.filter fun c => c.component = component

/-- Whether no answer about a component, after any run, depends on the calls about other
components. -/
def RecordStore.Separates {σ : Type} (s : RecordStore σ) (start : σ) : Prop :=
  ∀ (calls : List Call) (probe : Call), (s.call probe (s.answers calls start).2).1
    = (s.call probe (s.answers (callsAbout probe.component calls) start).2).1

namespace Tables

/-- Whether two tables hold the same about a component. -/
structure AgreeOn (component : String) (t u : Tables) : Prop where
  records : ∀ key : RecordKey, key.component = component →
    t.records.find? key = u.records.find? key
  versions : t.versions.find? component = u.versions.find? component
  active : t.active.find? component = u.active.find? component

namespace AgreeOn

variable {component : String} {t u w : Tables}

protected theorem refl (t : Tables) : AgreeOn component t t := ⟨fun _ _ => rfl, rfl, rfl⟩

theorem trans (htu : AgreeOn component t u) (huw : AgreeOn component u w) :
    AgreeOn component t w where
  records key hkey := (htu.records key hkey).trans (huw.records key hkey)
  versions := htu.versions.trans huw.versions
  active := htu.active.trans huw.active

section

variable (h : AgreeOn component t u)
include h

theorem contains {key : RecordKey} (hkey : key.component = component) :
    t.records.contains key = u.records.contains key := by
  rw [RecordTable.contains, RecordTable.contains, h.records key hkey]

theorem hasVersion (version : String) :
    t.hasVersion component version = u.hasVersion component version := by
  rw [Tables.hasVersion, Tables.hasVersion, h.versions]

theorem props (version : String) : t.props component version = u.props component version := by
  have hmem (prop : String) :
      prop ∈ t.props component version ↔ prop ∈ u.props component version := by
    rw [mem_props_iff, mem_props_iff, h.contains rfl]
  exact eq_of_mem_iff_of_sorted (sorted_props ..) (sorted_props ..) hmem

theorem written {r : Record} (hr : r.key.component = component) :
    AgreeOn component (t.written r) (u.written r) where
  records key hkey := by
    simp only [Tables.written, RecordTable.find?_insert, h.records key hkey]
  versions := by
    simp only [Tables.written, find?_listVersion, hr, h.versions]
  active := h.active

theorem activated (version : String) :
    AgreeOn component (t.activated component version) (u.activated component version) where
  records := h.records
  versions := h.versions
  active := by simp only [Tables.activated, SortedMap.find?_insert, if_pos]

theorem deleted (version : String) :
    AgreeOn component (t.deleted component version) (u.deleted component version) where
  records key hkey := by
    simp only [Tables.deleted, RecordTable.find?_filter, h.records key hkey]
  versions := by simp only [Tables.deleted, find?_unlistVersion, h.versions]
  active := by simp only [Tables.deleted, find?_deactivate, h.active]

end

/-- A call about the component has the same answer, and keeps the tables in agreement. -/
theorem call {c : Call} (h : AgreeOn c.component t u) :
    (memory.call c t).1 = (memory.call c u).1 ∧
      AgreeOn c.component (memory.call c t).2 (memory.call c u).2 := by
  cases c with
  | put r =>
    change AgreeOn r.key.component t u at h
    rw [RecordStore.call, Task.bind_pure_apply, Task.bind_pure_apply, put_memory, put_memory,
      h.contains rfl]
    cases u.records.contains r.key with
    | true => exact ⟨rfl, h⟩
    | false => exact ⟨rfl, h.written rfl⟩
  | get key =>
    change AgreeOn key.component t u at h
    rw [RecordStore.call, Task.bind_pure_apply, Task.bind_pure_apply, get_memory, get_memory,
      h.records key rfl]
    cases u.records.find? key <;> exact ⟨rfl, h⟩
  | contains key =>
    change AgreeOn key.component t u at h
    rw [RecordStore.call, Task.bind_pure_apply, Task.bind_pure_apply, contains_memory,
      contains_memory, h.contains rfl]
    exact ⟨rfl, h⟩
  | props component version =>
    change AgreeOn component t u at h
    rw [RecordStore.call, Task.bind_pure_apply, Task.bind_pure_apply, props_memory, props_memory,
      h.hasVersion, h.props]
    cases u.hasVersion component version <;> exact ⟨rfl, h⟩
  | versions component =>
    refine ⟨?_, h⟩
    show Except.ok (Answer.names ((t.versions.find? component).getD [])) = _
    rw [show t.versions.find? component = u.versions.find? component from h.versions]
    rfl
  | active component =>
    refine ⟨?_, h⟩
    show Except.ok (Answer.name? (t.active.find? component)) = _
    rw [show t.active.find? component = u.active.find? component from h.active]
    rfl
  | activate component version =>
    change AgreeOn component t u at h
    rw [RecordStore.call, Task.bind_pure_apply, Task.bind_pure_apply, activate_memory,
      activate_memory, h.hasVersion]
    cases u.hasVersion component version with
    | true => exact ⟨rfl, h.activated version⟩
    | false => exact ⟨rfl, h⟩
  | delete component version =>
    change AgreeOn component t u at h
    rw [RecordStore.call, Task.bind_pure_apply, Task.bind_pure_apply, delete_memory, delete_memory,
      h.hasVersion]
    cases u.hasVersion component version with
    | true => exact ⟨rfl, h.deleted version⟩
    | false => exact ⟨rfl, h⟩

end AgreeOn

/-- A call about another component changes nothing for this one. -/
theorem agreeOn_of_other {component : String} {c : Call} (hc : c.component ≠ component)
    (t : Tables) : AgreeOn component (memory.call c t).2 t := by
  rcases call_cases t c with ⟨hsame, -⟩ | ⟨r, rfl, -, hcall⟩ | ⟨other, version, rfl, -, hcall⟩ |
    ⟨other, version, rfl, -, hcall⟩
  · rw [hsame]; exact .refl t
  · change r.key.component ≠ component at hc
    rw [hcall]
    refine ⟨fun key hkey => ?_, ?_, rfl⟩
    · have hne : key ≠ r.key := fun heq => hc (heq ▸ hkey)
      rw [written, RecordTable.find?_insert, if_neg hne]
    · rw [written, find?_listVersion, if_neg (Ne.symm hc)]
  · change other ≠ component at hc
    rw [hcall]
    refine ⟨fun _ _ => rfl, rfl, ?_⟩
    rw [activated, SortedMap.find?_insert, if_neg (Ne.symm hc)]
  · change other ≠ component at hc
    rw [hcall]
    refine ⟨fun key hkey => ?_, ?_, ?_⟩
    · have hne : key.isOf other version = false := by
        rw [Bool.eq_false_iff, Ne, RecordKey.isOf_iff]
        exact fun h => hc (h.1.symm.trans hkey)
      rw [deleted, RecordTable.find?_filter, hne]
      rfl
    · rw [deleted, find?_unlistVersion, if_neg (Ne.symm hc)]
    · rw [deleted, find?_deactivate, if_neg fun h => hc h.1.symm]

/-- A run, and the same run without the calls about other components, end in agreement. -/
theorem AgreeOn.answers {component : String} {t u : Tables} (h : AgreeOn component t u)
    (calls : List Call) : AgreeOn component (memory.answers calls t).2
      (memory.answers (callsAbout component calls) u).2 := by
  induction calls generalizing t u with
  | nil => exact h
  | cons c calls ih =>
    by_cases hc : c.component = component
    · subst hc
      rw [callsAbout, List.filter_cons_of_pos (by simp)]
      exact ih h.call.2
    · rw [callsAbout, List.filter_cons_of_neg (by simpa using hc)]
      exact ih ((agreeOn_of_other hc t).trans h)

theorem separates (t : Tables) : memory.Separates t := by
  intro calls probe
  have hend : AgreeOn probe.component (memory.answers calls t).2
      (memory.answers (callsAbout probe.component calls) t).2 := (AgreeOn.refl t).answers calls
  exact hend.call.1

/-- What cannot be told from the tables separates components, too. -/
theorem Mirrors.separates {t : Tables} {s : Store} (h : t.Mirrors s) :
    Store.memory.Separates s := by
  intro calls probe
  have hall := (alike_call probe _ _ (h.answers calls).2).1
  have habout := (alike_call probe _ _ (h.answers (callsAbout probe.component calls)).2).1
  rw [← hall, ← habout]
  exact Tables.separates t calls probe

end Tables

end PropStorage
