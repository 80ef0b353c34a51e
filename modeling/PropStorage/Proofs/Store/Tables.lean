import PropStorage.Proofs.Store.Authoring
import PropStorage.Store.Tables

/-!
# The tables of a store

What each table holds once it is changed (`RecordTable.find?_insert`, `Tables.find?_listVersion`,
`Tables.find?_unlistVersion`, `Tables.find?_deactivate`), and what the operations of `Tables.memory`
come to: they answer from the tables and leave them alone, or end in `Tables.written`,
`Tables.activated` or `Tables.deleted`.
-/

namespace PropStorage

/-! ## Records by key -/

namespace RecordTable

theorem find?_insert (t : RecordTable) (key : RecordKey) (r : Record) (other : RecordKey) :
    (t.insert key r).find? other = if other = key then some r else t.find? other := by
  show (insertRow key r t.rows).lookup other = if other = key then some r else t.rows.lookup other
  induction t.rows with
  | nil => exact lookup_cons key r [] other
  | cons row rows ih =>
    obtain ⟨k, stored⟩ := row
    rw [insertRow]
    split
    · rw [lookup_cons]
    · split
      · rename_i heq
        subst heq
        rw [lookup_cons, lookup_cons]
        split <;> rfl
      · rename_i hne
        rw [lookup_cons, lookup_cons, ih]
        by_cases hother : other = k
        · subst hother
          rw [if_pos rfl, if_neg (Ne.symm hne), if_pos rfl]
        · rw [if_neg hother, if_neg hother]

theorem find?_filter (t : RecordTable) (keep : RecordKey → Bool) (key : RecordKey) :
    (t.filter keep).find? key = if keep key then t.find? key else none :=
  lookup_filter keep t.rows key

theorem mem_keys_iff {t : RecordTable} {key : RecordKey} :
    key ∈ t.keys ↔ t.contains key = true := by
  rw [keys, contains, find?]
  induction t.rows with
  | nil => simp
  | cons row rows ih =>
    obtain ⟨k, stored⟩ := row
    rw [List.map_cons, List.mem_cons, ih, lookup_cons]
    by_cases hkey : key = k <;> simp [hkey]

theorem contains_insert {t : RecordTable} {key : RecordKey} {r : Record} {other : RecordKey} :
    (t.insert key r).contains other = true ↔ other = key ∨ t.contains other = true := by
  rw [contains, find?_insert, contains]
  by_cases h : other = key <;> simp [h]

theorem contains_filter {t : RecordTable} {keep : RecordKey → Bool} {key : RecordKey} :
    (t.filter keep).contains key = true ↔ keep key = true ∧ t.contains key = true := by
  rw [contains, find?_filter, contains]
  cases keep key <;> simp

theorem sorted_keys (t : RecordTable) : t.keys.Pairwise (· < ·) := List.pairwise_map.2 t.sorted

end RecordTable

namespace RecordKey

/-- Keys that differ in the prop only are in the order of the props. -/
theorem prop_lt {a b : RecordKey} (h : a < b) (hcomponent : a.component = b.component)
    (hversion : a.version = b.version) : a.prop < b.prop := by
  obtain ⟨component, prop, version⟩ := a
  obtain ⟨component', prop', version'⟩ := b
  obtain rfl : component = component' := hcomponent
  obtain rfl : version = version' := hversion
  have hparts : [component, prop, version] < [component, prop', version] := h
  simpa [List.cons_lt_cons_iff, String.lt_irrefl] using hparts

theorem isOf_iff {component version : String} {k : RecordKey} :
    k.isOf component version = true ↔ k.component = component ∧ k.version = version := by
  rw [isOf, Bool.and_eq_true, decide_eq_true_iff, decide_eq_true_iff]

end RecordKey

namespace Tables

/-! ## Listed versions -/

/-- Whether the version is in the list of the component. -/
def Lists (t : Tables) (component version : String) : Prop :=
  ∃ listed, t.versions.find? component = some listed ∧ version ∈ listed

theorem lists_iff_mem {t : Tables} {component version : String} :
    t.Lists component version ↔ version ∈ (t.versions.find? component).getD [] := by
  rw [Lists]
  cases t.versions.find? component <;> simp

theorem hasVersion_iff {t : Tables} {component version : String} :
    t.hasVersion component version = true ↔ t.Lists component version := by
  rw [hasVersion, lists_iff_mem]
  cases t.versions.find? component <;> simp

theorem addVersion_of_mem {version : String} {listed : List String} (h : version ∈ listed) :
    addVersion version listed = listed := if_pos (List.contains_iff_mem.2 h)

theorem addVersion_of_not_mem {version : String} {listed : List String} (h : version ∉ listed) :
    addVersion version listed = listed ++ [version] := if_neg (mt List.contains_iff_mem.1 h)

theorem mem_addVersion {version : String} {listed : List String} {other : String} :
    other ∈ addVersion version listed ↔ other = version ∨ other ∈ listed := by
  by_cases h : version ∈ listed
  · rw [addVersion_of_mem h]
    exact ⟨.inr, fun hother => hother.elim (· ▸ h) id⟩
  · rw [addVersion_of_not_mem h, List.mem_append, List.mem_singleton, or_comm]

theorem nodup_addVersion {version : String} {listed : List String} (h : listed.Nodup) :
    (addVersion version listed).Nodup := by
  by_cases hmem : version ∈ listed
  · rwa [addVersion_of_mem hmem]
  · rw [addVersion_of_not_mem hmem, ← List.concat_eq_append]
    exact h.concat hmem

theorem find?_listVersion (component version : String) (versions : SortedMap (List String))
    (other : String) :
    (listVersion component version versions).find? other =
      if other = component then some (addVersion version ((versions.find? component).getD []))
      else versions.find? other :=
  SortedMap.find?_insert ..

/-- A list that becomes empty is removed. -/
theorem find?_unlistVersion (component version : String) (versions : SortedMap (List String))
    (other : String) :
    (unlistVersion component version versions).find? other =
      if other = component then
        ((versions.find? component).map (List.filter (· ≠ version))).filter fun l => !l.isEmpty
      else versions.find? other := by
  rw [unlistVersion]
  by_cases hother : other = component
  · subst hother
    rw [if_pos rfl]
    cases hfind : versions.find? other with
    | none => exact hfind
    | some listed =>
      rw [Option.map_some]
      cases hfilter : listed.filter (· ≠ version) with
      | nil => simp only [hfilter, SortedMap.find?_erase, if_pos]; rfl
      | cons v kept => simp only [hfilter, SortedMap.find?_insert, if_pos]; rfl
  · rw [if_neg hother]
    split
    · rfl
    · split
      · rw [SortedMap.find?_erase, if_neg hother]
      · rw [SortedMap.find?_insert, if_neg hother]

theorem getD_listVersion (component version : String) (versions : SortedMap (List String))
    (other : String) :
    ((listVersion component version versions).find? other).getD [] =
      if other = component then addVersion version ((versions.find? other).getD [])
      else (versions.find? other).getD [] := by
  rw [find?_listVersion]
  split
  · rename_i heq
    rw [heq]; rfl
  · rfl

theorem getD_unlistVersion (component version : String) (versions : SortedMap (List String))
    (other : String) :
    ((unlistVersion component version versions).find? other).getD [] =
      if other = component then ((versions.find? other).getD []).filter (· ≠ version)
      else (versions.find? other).getD [] := by
  rw [find?_unlistVersion]
  split
  · rename_i heq
    rw [heq]
    cases versions.find? component with
    | none => rfl
    | some listed =>
      rw [Option.map_some, Option.getD_some]
      cases listed.filter (· ≠ version) <;> rfl
  · rfl

theorem find?_deactivate (component version : String) (active : SortedMap String)
    (other : String) :
    (deactivate component version active).find? other =
      if other = component ∧ active.find? component = some version then none
      else active.find? other := by
  rw [deactivate]
  by_cases h : active.find? component = some version
  · rw [if_pos h, SortedMap.find?_erase]
    simp only [h, and_true]
  · rw [if_neg h, if_neg fun h' => h h'.2]

/-! ## Props of a version -/

theorem mem_props_iff {t : Tables} {component version prop : String} :
    prop ∈ t.props component version
      ↔ t.records.contains ⟨component, prop, version⟩ = true := by
  rw [props, List.mem_map, ← RecordTable.mem_keys_iff]
  constructor
  · rintro ⟨key, hkey, rfl⟩
    obtain ⟨hmem, hof⟩ := List.mem_filter.1 hkey
    obtain ⟨rfl, rfl⟩ := RecordKey.isOf_iff.1 hof
    exact hmem
  · intro hmem
    exact ⟨_, List.mem_filter.2 ⟨hmem, RecordKey.isOf_iff.2 ⟨rfl, rfl⟩⟩, rfl⟩

theorem sorted_props (t : Tables) (component version : String) :
    (t.props component version).Pairwise (· < ·) := by
  rw [props, List.pairwise_map]
  refine (t.records.sorted_keys.filter _).imp_of_mem fun {a b} ha hb hlt => ?_
  obtain ⟨hca, hva⟩ := RecordKey.isOf_iff.1 (List.mem_filter.1 ha).2
  obtain ⟨hcb, hvb⟩ := RecordKey.isOf_iff.1 (List.mem_filter.1 hb).2
  exact RecordKey.prop_lt hlt (hca.trans hcb.symm) (hva.trans hvb.symm)

/-- Sorted lists are one list if they have the same items. -/
theorem eq_of_mem_iff_of_sorted {as bs : List String} (ha : as.Pairwise (· < ·))
    (hb : bs.Pairwise (· < ·)) (h : ∀ name, name ∈ as ↔ name ∈ bs) : as = bs :=
  ((List.perm_ext_iff_of_nodup (ha.imp String.ne_of_lt) (hb.imp String.ne_of_lt)).2
    h).eq_of_pairwise (fun _ _ _ _ hab hba => absurd hba (String.lt_asymm hab)) ha hb

/-! ## Operations -/

/-- The tables once a record is written. -/
def written (t : Tables) (r : Record) : Tables where
  records := t.records.insert r.key r
  versions := listVersion r.key.component r.key.version t.versions
  active := t.active

/-- The tables once a version is active. -/
def activated (t : Tables) (component version : String) : Tables :=
  { t with active := t.active.insert component version }

/-- The tables once a version is removed. -/
def deleted (t : Tables) (component version : String) : Tables where
  records := t.records.filter fun k => !k.isOf component version
  versions := unlistVersion component version t.versions
  active := deactivate component version t.active

theorem put_memory (t : Tables) (r : Record) :
    memory.put r t =
      if t.records.contains r.key then (.error (.duplicate r.key), t)
      else (.ok (), t.written r) := by
  show put r t = _
  rw [put, Task.get_bind_apply]
  cases t.records.contains r.key <;> rfl

theorem get_memory (t : Tables) (key : RecordKey) :
    memory.get key t =
      match t.records.find? key with
      | some r => (.ok r, t)
      | none => (.error (.notFound key), t) := by
  refine (Task.get_bind_apply _ t).trans ?_
  cases t.records.find? key <;> rfl

theorem contains_memory (t : Tables) (key : RecordKey) :
    memory.contains key t = (.ok (t.records.contains key), t) := by
  rw [RecordStore.contains, Task.tryCatch_apply, Task.bind_pure_apply, get_memory,
    RecordTable.contains]
  cases t.records.find? key <;> rfl

theorem props_memory (t : Tables) (component version : String) :
    memory.props component version t =
      if t.hasVersion component version then (.ok (t.props component version), t)
      else (.error (.versionNotFound component version), t) := by
  refine (Task.get_bind_apply _ t).trans ?_
  cases t.hasVersion component version <;> rfl

theorem activate_memory (t : Tables) (component version : String) :
    memory.activate component version t =
      if t.hasVersion component version then (.ok (), t.activated component version)
      else (.error (.versionNotFound component version), t) := by
  show activate component version t = _
  rw [activate, Task.get_bind_apply]
  cases t.hasVersion component version <;> rfl

theorem delete_memory (t : Tables) (component version : String) :
    memory.delete component version t =
      if t.hasVersion component version then (.ok (), t.deleted component version)
      else (.error (.versionNotFound component version), t) := by
  show delete component version t = _
  rw [delete, Task.get_bind_apply]
  cases t.hasVersion component version <;> rfl

end Tables

end PropStorage
