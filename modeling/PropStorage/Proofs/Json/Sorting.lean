import PropStorage.Json.Canonical
import PropStorage.Proofs.Entries

/-!
# Sorting members

`Json.sortMembers` gives every value a form that does not depend on the order of members.

* `Json.induction`: a property of values follows from that of the items and members within them;
* `sortMembers_sortMembers`: sorting twice changes nothing;
* `sortMembers_object_eq_iff`: objects whose names are distinct are sorted alike just if they agree
  on each name, up to sorting.
-/

namespace PropStorage.Json

/-- A property that passes from the items of an array and from the members of an object to the whole
holds of all values. -/
@[elab_as_elim]
theorem induction {motive : Json → Prop} (null : motive .null)
    (bool : ∀ b, motive (.bool b)) (number : ∀ n, motive (.number n))
    (string : ∀ s, motive (.string s))
    (array : ∀ items, (∀ item ∈ items, motive item) → motive (.array items))
    (object : ∀ members, (∀ m ∈ members, motive m.2) → motive (.object members)) (v : Json) :
    motive v :=
  match v with
  | .null => null
  | .bool b => bool b
  | .number n => number n
  | .string s => string s
  | .array items => array items fun item _h =>
    induction null bool number string array object item
  | .object members => object members fun m _h =>
    induction null bool number string array object m.2
termination_by sizeOf v
decreasing_by
  · have := List.sizeOf_lt_of_mem _h
    simp only [Json.array.sizeOf_spec]
    omega
  · have := List.sizeOf_lt_of_mem _h
    obtain ⟨name, value⟩ := m
    simp only [Json.object.sizeOf_spec, Prod.mk.sizeOf_spec] at this ⊢
    omega

/-! ## Distinct names -/

theorem distinct_array_iff {items : List Json} :
    (array items).Distinct ↔ ∀ item ∈ items, item.Distinct := by
  rw [Distinct]
  induction items with
  | nil => simp [DistinctItems]
  | cons item items ih => rw [DistinctItems, ih, List.forall_mem_cons]

theorem distinct_object_iff {members : Entries Json} :
    (object members).Distinct ↔
      (Entries.names members).Nodup ∧ ∀ m ∈ members, m.2.Distinct := by
  have hvalues : DistinctMembers members ↔ ∀ m ∈ members, m.2.Distinct := by
    induction members with
    | nil => simp [DistinctMembers]
    | cons m members ih => rw [DistinctMembers, ih, List.forall_mem_cons]
  rw [Distinct, hvalues]

theorem Distinct.find? {members : Entries Json} (h : (object members).Distinct) {name : String}
    {v : Json} (hv : Entries.find? members name = some v) : v.Distinct :=
  (distinct_object_iff.1 h).2 _ (Entries.mem_of_find? hv)

/-! ## Items and members -/

theorem sortMembersOfItems_eq_map (items : List Json) :
    sortMembersOfItems items = items.map sortMembers := by
  induction items with
  | nil => rfl
  | cons item items ih => rw [sortMembersOfItems, ih, List.map_cons]

theorem sortMembersOfValues_eq_mapValues (members : Entries Json) :
    sortMembersOfValues members = Entries.mapValues sortMembers members := by
  induction members with
  | nil => rfl
  | cons m members ih =>
    obtain ⟨name, value⟩ := m
    rw [sortMembersOfValues, ih]; rfl

theorem sortMembers_array (items : List Json) :
    sortMembers (.array items) = .array (items.map sortMembers) := by
  rw [sortMembers, sortMembersOfItems_eq_map]

theorem sortMembers_object (members : Entries Json) :
    sortMembers (.object members)
      = .object (SortedMap.ofEntries (Entries.mapValues sortMembers members)).entries := by
  rw [sortMembers, sortMembersOfValues_eq_mapValues]

/-- The members of a sorted map only have their values sorted. -/
theorem sortMembers_map (m : SortedMap Json) :
    sortMembers (.object m.entries) = .object (m.map sortMembers).entries := by
  rw [sortMembers_object]
  exact congrArg (fun m => object m.entries) (m.map sortMembers).ofEntries_entries

/-! ## Sorted values -/

/-- The values of the entries that make up a map are those of the map. -/
theorem forall_values_ofEntries {α : Type} {P : α → Prop} {entries : Entries α}
    (h : ∀ e ∈ entries, P e.2) : ∀ e ∈ (SortedMap.ofEntries entries).entries, P e.2 := by
  rintro ⟨name, v⟩ he
  have hfind : (SortedMap.ofEntries entries).find? name = some v :=
    Entries.find?_of_mem (SortedMap.ofEntries entries).sorted.nodup he
  rw [SortedMap.find?_ofEntries_reverse] at hfind
  exact h _ (List.mem_reverse.1 (Entries.mem_of_find? hfind))

theorem mapValues_eq_self {α : Type} {f : α → α} {entries : Entries α}
    (h : ∀ e ∈ entries, f e.2 = e.2) : Entries.mapValues f entries = entries := by
  rw [Entries.mapValues]
  refine (List.map_congr_left fun e he => ?_).trans (List.map_id entries)
  rw [h e he]; rfl

/-- Sorting twice changes nothing. -/
theorem sortMembers_sortMembers (v : Json) : sortMembers (sortMembers v) = sortMembers v := by
  induction v using Json.induction with
  | null => rfl
  | bool => rfl
  | number => rfl
  | string => rfl
  | array items ih =>
    rw [sortMembers_array, sortMembers_array, List.map_map]
    exact congrArg array (List.map_congr_left ih)
  | object members ih =>
    have hsorted : ∀ m ∈ (SortedMap.ofEntries (Entries.mapValues sortMembers members)).entries,
        sortMembers m.2 = m.2 := by
      refine forall_values_ofEntries (P := fun v => sortMembers v = v) fun e he => ?_
      obtain ⟨m, hm, rfl⟩ := List.mem_map.1 he
      exact ih m hm
    rw [sortMembers_object, sortMembers_map]
    exact congrArg object (mapValues_eq_self hsorted)

/-- An array is sorted if its items are. -/
theorem sortMembers_array_eq_self_iff {items : List Json} :
    sortMembers (.array items) = .array items ↔ ∀ item ∈ items, sortMembers item = item := by
  have h := List.map_inj_left (l := items) (f := sortMembers) (g := id)
  rw [List.map_id] at h
  rw [sortMembers_array, array.injEq]
  exact h

/-- Sorting leaves no member twice. -/
theorem distinct_sortMembers {v : Json} (h : v.Distinct) : (sortMembers v).Distinct := by
  induction v using Json.induction with
  | array items ih =>
    rw [sortMembers_array, distinct_array_iff]
    intro item hitem
    obtain ⟨item, hmem, rfl⟩ := List.mem_map.1 hitem
    exact ih item hmem (distinct_array_iff.1 h item hmem)
  | object members ih =>
    rw [sortMembers_object, distinct_object_iff]
    refine ⟨SortedMap.nodup_names _, forall_values_ofEntries (P := Distinct) fun e he => ?_⟩
    obtain ⟨m, hm, rfl⟩ := List.mem_map.1 he
    exact ih m hm ((distinct_object_iff.1 h).2 m hm)
  | _ => exact trivial

/-- The member of a name, sorted. -/
theorem find?_sortMembers {members : Entries Json} (hd : (Entries.names members).Nodup)
    (name : String) :
    (SortedMap.ofEntries (Entries.mapValues sortMembers members)).find? name
      = (Entries.find? members name).map sortMembers := by
  rw [SortedMap.find?_ofEntries (by rwa [Entries.names_mapValues]), Entries.find?_mapValues]

/-- Objects with distinct names are sorted alike just if they agree on each name. -/
theorem sortMembers_object_eq_iff {as bs : Entries Json} (ha : (Entries.names as).Nodup)
    (hb : (Entries.names bs).Nodup) :
    sortMembers (.object as) = sortMembers (.object bs) ↔
      ∀ name,
        (Entries.find? as name).map sortMembers = (Entries.find? bs name).map sortMembers := by
  rw [sortMembers_object, sortMembers_object, object.injEq]
  constructor
  · intro h name
    rw [← find?_sortMembers ha, ← find?_sortMembers hb, SortedMap.ext h]
  · intro h
    refine congrArg SortedMap.entries (SortedMap.ext_find? fun name => ?_)
    rw [find?_sortMembers ha, find?_sortMembers hb, h]

end PropStorage.Json
