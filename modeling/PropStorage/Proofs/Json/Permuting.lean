import Mathlib.Logic.Relation
import PropStorage.Proofs.Json.Rendering

/-!
# Values with permuted members

`Json.Permutes` permutes the members of one object somewhere within a value; `Json.Permuted` does so
any number of times. Sorting permutes members (`permuted_sortMembers`), and no permutation changes
what is sorted (`Permutes.sortMembers_eq`). So the canonical text of a value tells it from all
others, except from those that its members can be permuted to (`canonicalText_eq_iff_permuted`).
-/

namespace PropStorage

/-- Where no name is given twice, the order of entries does not matter for lookups. -/
theorem Entries.find?_of_perm {α : Type} {as bs : Entries α} (hd : (names as).Nodup)
    (h : as.Perm bs) (name : String) : find? as name = find? bs name := by
  have hd' : (names bs).Nodup := (h.map Prod.fst).nodup_iff.1 hd
  refine Option.ext fun v => ⟨fun hv => ?_, fun hv => ?_⟩
  · exact find?_of_mem hd' (h.mem_iff.1 (mem_of_find? hv))
  · exact find?_of_mem hd (h.mem_iff.2 (mem_of_find? hv))

/-- The entries of a map are those that it was made from, in another order. -/
theorem SortedMap.perm_ofEntries {α : Type} {entries : Entries α}
    (hd : (Entries.names entries).Nodup) : entries.Perm (ofEntries entries).entries := by
  have hd' : (Entries.names (ofEntries entries).entries).Nodup := (ofEntries entries).nodup_names
  refine (List.perm_ext_iff_of_nodup (.of_map _ hd) (.of_map _ hd')).2 fun ⟨name, v⟩ => ?_
  have hfind : Entries.find? (ofEntries entries).entries name = Entries.find? entries name :=
    find?_ofEntries hd name
  constructor
  · intro h
    exact Entries.mem_of_find? (hfind.trans (Entries.find?_of_mem hd h))
  · intro h
    exact Entries.mem_of_find? (hfind.symm.trans (Entries.find?_of_mem hd' h))

namespace Json

/-- One object, the value itself or one within it, has its members in another order. -/
inductive Permutes : Json → Json → Prop where
  | members {as bs : Entries Json} (h : as.Perm bs) : Permutes (object as) (object bs)
  | item {v w : Json} (front back : List Json) (h : Permutes v w) :
    Permutes (array (front ++ v :: back)) (array (front ++ w :: back))
  | value {v w : Json} (name : String) (front back : Entries Json) (h : Permutes v w) :
    Permutes (object (front ++ (name, v) :: back)) (object (front ++ (name, w) :: back))

/-- The second value is obtained from the first by permuting the members of objects. -/
abbrev Permuted : Json → Json → Prop := Relation.ReflTransGen Permutes

theorem Permutes.symm {v w : Json} (h : Permutes v w) : Permutes w v := by
  induction h with
  | members h => exact .members h.symm
  | item front back _ ih => exact .item front back ih
  | value name front back _ ih => exact .value name front back ih

instance : Std.Symm Permutes := ⟨fun _ _ => Permutes.symm⟩

theorem Permuted.symm {v w : Json} (h : Permuted v w) : Permuted w v := Std.Symm.symm v w h

/-! ## Parts that are permuted -/

theorem Permuted.item {v w : Json} (front back : List Json) (h : Permuted v w) :
    Permuted (array (front ++ v :: back)) (array (front ++ w :: back)) :=
  Relation.ReflTransGen.lift (fun v => array (front ++ v :: back))
    (fun _ _ => Permutes.item front back) v w h

theorem Permuted.value {v w : Json} (name : String) (front back : Entries Json)
    (h : Permuted v w) :
    Permuted (object (front ++ (name, v) :: back)) (object (front ++ (name, w) :: back)) :=
  Relation.ReflTransGen.lift (fun v => object (front ++ (name, v) :: back))
    (fun _ _ => Permutes.value name front back) v w h

/-- Items that are permuted one by one make permuted arrays, whatever stands before them. -/
theorem permuted_array {as bs : List Json} (h : List.Forall₂ Permuted as bs) (front : List Json) :
    Permuted (array (front ++ as)) (array (front ++ bs)) := by
  induction h generalizing front with
  | nil => exact .refl
  | @cons a b as bs hab _ ih =>
    have htail := ih (front ++ [b])
    rw [List.append_assoc, List.append_assoc] at htail
    exact (Permuted.item front as hab).trans htail

/-- Values that are permuted one by one make permuted objects, whatever stands before them. -/
theorem permuted_object {f : Json → Json} {members : Entries Json}
    (h : ∀ m ∈ members, Permuted m.2 (f m.2)) (front : Entries Json) :
    Permuted (object (front ++ members)) (object (front ++ Entries.mapValues f members)) := by
  induction members generalizing front with
  | nil => exact .refl
  | cons m members ih =>
    obtain ⟨name, v⟩ := m
    rw [List.forall_mem_cons] at h
    have htail := ih h.2 (front ++ [(name, f v)])
    rw [List.append_assoc, List.append_assoc] at htail
    exact (Permuted.value name front members h.1).trans htail

/-! ## Sorting and permuting -/

/-- Sorting the members of a value permutes them. -/
theorem permuted_sortMembers {v : Json} (h : v.Distinct) : Permuted v v.sortMembers := by
  induction v using Json.induction with
  | array items ih =>
    have hitems : List.Forall₂ Permuted items (items.map sortMembers) :=
      List.forall₂_map_right_iff.2 <| List.forall₂_same.2 fun item hitem =>
        ih item hitem (distinct_array_iff.1 h item hitem)
    rw [sortMembers_array]
    exact permuted_array hitems []
  | object members ih =>
    obtain ⟨hd, hvalues⟩ := distinct_object_iff.1 h
    have hsorted : Permuted (object members) (object (Entries.mapValues sortMembers members)) :=
      permuted_object (fun m hm => ih m hm (hvalues m hm)) []
    have hd' : (Entries.names (Entries.mapValues sortMembers members)).Nodup := by
      rwa [Entries.names_mapValues]
    rw [sortMembers_object]
    exact hsorted.tail (.members (SortedMap.perm_ofEntries hd'))
  | _ => exact .refl

/-- Permuting members keeps their names distinct, and does not change the sorted value. -/
theorem Permutes.sortMembers_eq {v w : Json} (h : Permutes v w) (hv : v.Distinct) :
    w.Distinct ∧ v.sortMembers = w.sortMembers := by
  induction h with
  | @members as bs h =>
    rw [distinct_object_iff] at hv
    have hd : (Entries.names bs).Nodup := (h.map Prod.fst).nodup_iff.1 hv.1
    refine ⟨distinct_object_iff.2 ⟨hd, fun m hm => hv.2 m (h.mem_iff.2 hm)⟩, ?_⟩
    rw [sortMembers_object_eq_iff hv.1 hd]
    intro name
    rw [Entries.find?_of_perm hv.1 h]
  | item front back _ ih =>
    rw [distinct_array_iff, List.forall_mem_append, List.forall_mem_cons] at hv
    obtain ⟨hw, hsorted⟩ := ih hv.2.1
    constructor
    · rw [distinct_array_iff, List.forall_mem_append, List.forall_mem_cons]
      exact ⟨hv.1, hw, hv.2.2⟩
    · rw [sortMembers_array, sortMembers_array, List.map_append, List.map_append, List.map_cons,
        List.map_cons, hsorted]
  | value name front back _ ih =>
    rw [distinct_object_iff, List.forall_mem_append, List.forall_mem_cons] at hv
    obtain ⟨hw, hsorted⟩ := ih hv.2.2.1
    constructor
    · rw [distinct_object_iff, List.forall_mem_append, List.forall_mem_cons]
      refine ⟨?_, hv.2.1, hw, hv.2.2.2⟩
      simpa [Entries.names] using hv.1
    · simp only [sortMembers_object, Entries.mapValues, List.map_append, List.map_cons, hsorted]

theorem Permuted.sortMembers_eq {v w : Json} (h : Permuted v w) (hv : v.Distinct) :
    w.Distinct ∧ v.sortMembers = w.sortMembers := by
  induction h with
  | refl => exact ⟨hv, rfl⟩
  | tail _ hstep ih =>
    obtain ⟨hw, hsorted⟩ := hstep.sortMembers_eq ih.1
    exact ⟨hw, ih.2.trans hsorted⟩

/-- Two values have one canonical text just if the one is obtained from the other by permuting the
members of objects at any depth. -/
theorem canonicalText_eq_iff_permuted {v w : Json} (hv : v.Distinct) (hw : w.Distinct) :
    v.canonicalText = w.canonicalText ↔ Permuted v w := by
  rw [canonicalText_eq_iff]
  constructor
  · intro h
    have hv' := permuted_sortMembers hv
    rw [h] at hv'
    exact hv'.trans (permuted_sortMembers hw).symm
  · exact fun h => (h.sortMembers_eq hv).2

/-- Sizes of a card, in the order in which an author gives them. -/
def cardSizes : Json :=
  .object [("width", .natural 3), ("steps", .array [.object [("y", .natural 1), ("x", .null)]])]

/-- The same sizes in another order. -/
def cardSizesTurned : Json :=
  .object [("steps", .array [.object [("x", .null), ("y", .natural 1)]]), ("width", .natural 3)]

/-- The sizes have one canonical text in either order, so the members of the one are permuted in the
other. -/
theorem canonicalText_eq_iff_permuted_sizes :
    cardSizes.Distinct ∧ cardSizesTurned.Distinct ∧
      cardSizes.canonicalText = cardSizesTurned.canonicalText ∧
      Permuted cardSizes cardSizesTurned := by
  have hv : cardSizes.Distinct := by
    simp [cardSizes, natural, Distinct, DistinctMembers, DistinctItems, Entries.names]
  have hw : cardSizesTurned.Distinct := by
    simp [cardSizesTurned, natural, Distinct, DistinctMembers, DistinctItems, Entries.names]
  have htext : cardSizes.canonicalText = cardSizesTurned.canonicalText := by decide +kernel
  exact ⟨hv, hw, htext, (canonicalText_eq_iff_permuted hv hw).1 htext⟩

end Json

end PropStorage
