import PropStorage.Proofs.Component.Source

/-!
# Resolving props one by one

A component is resolved just if each of its props is, by itself, and then to what each prop is
resolved to: `ComponentSource.exists_resolve_iff`, `ComponentSource.find?_of_resolve`.
-/

namespace PropStorage

namespace ComponentSource

/-- Whether a value describes a shape that is resolved to `m`. -/
def Resolves (r : Resolver) (v : Json) (m : Option StorableShape) : Prop :=
  ∃ s, Shape.ofJson v = .ok s ∧ r.resolve s = .ok m

variable {source : ComponentSource} {r : Resolver} {c : ResolvedComponent}

theorem exists_shapes_iff : (∃ shapes, source.shapes = .ok shapes) ↔
    ∀ prop v, source.props.find? prop = some v → ∃ s, Shape.ofJson v = .ok s := by
  refine SortedMap.exists_traverse_iff.trans ?_
  refine forall_congr' fun prop => forall_congr' fun v => imp_congr_right fun _ => ?_
  cases Shape.ofJson v <;> simp

theorem exists_storables_iff {shapes : SortedMap Shape} :
    (∃ found, storables r shapes = .ok found) ↔
      ∀ prop s, shapes.find? prop = some s → ∃ m, r.resolve s = .ok m := by
  simp only [storables, Except.bind_eq_ok_iff]
  rw [exists_comm]
  simp only [exists_and_left, Except.ok.injEq, exists_eq', and_true]
  refine SortedMap.exists_traverse_iff.trans ?_
  refine forall_congr' fun prop => forall_congr' fun s => imp_congr_right fun _ => ?_
  cases r.resolve s <;> simp

/-- A component is resolved to the shape and the storable shape of each prop. -/
theorem find?_of_resolve (h : source.resolve r = .ok c) {prop : String} {v : Json}
    (hv : source.props.find? prop = some v) :
    ∃ s, Shape.ofJson v = .ok s ∧ c.shapes.find? prop = some s ∧
      r.resolve s = .ok (c.storables.find? prop) := by
  obtain ⟨hshapes, hstorables, -, -⟩ := resolve_eq_ok h
  have hshape := SortedMap.find?_traverse hshapes prop
  rw [hv] at hshape
  obtain ⟨s, hread, hs⟩ := hshape
  refine ⟨s, ?_, hs, ?_⟩
  · split at hread
    · rename_i hok; rw [hok, Except.ok.inj hread]
    · cases hread
  · rw [storables, Except.bind_eq_ok_iff] at hstorables
    obtain ⟨all, hall, hfound⟩ := hstorables
    have hstorable := SortedMap.find?_traverse hall prop
    rw [hs] at hstorable
    obtain ⟨m, hresolve, hm⟩ := hstorable
    rw [← Except.ok.inj hfound, SortedMap.find?_ofEntries (Entries.nodup_filterMap all.nodup_names),
      Entries.find?_filterMap all.nodup_names, ← SortedMap.find?, hm]
    split at hresolve
    · rename_i hok; rw [hok, Except.ok.inj hresolve]; rfl
    · cases hresolve

/-- The storable shape of a prop is what its shape is resolved to. -/
theorem resolve_of_find?_shapes (h : source.resolve r = .ok c) {prop : String} {s : Shape}
    (hs : c.shapes.find? prop = some s) : r.resolve s = .ok (c.storables.find? prop) := by
  obtain ⟨v, hv, -⟩ := find?_shapes (resolve_eq_ok h).1 hs
  obtain ⟨s', -, hs', hresolve⟩ := find?_of_resolve h hv
  obtain rfl := Option.some.inj (hs.symm.trans hs')
  exact hresolve

/-- A component can be resolved just if each of its props can. -/
theorem exists_resolve_iff : (∃ c, source.resolve r = .ok c) ↔
    ∀ prop v, source.props.find? prop = some v → ∃ m, Resolves r v m := by
  constructor
  · rintro ⟨c, h⟩ prop v hv
    obtain ⟨s, hread, -, hresolve⟩ := find?_of_resolve h hv
    exact ⟨_, s, hread, hresolve⟩
  · intro h
    obtain ⟨shapes, hshapes⟩ := exists_shapes_iff.2 fun prop v hv => by
      obtain ⟨m, s, hread, -⟩ := h prop v hv
      exact ⟨s, hread⟩
    obtain ⟨found, hfound⟩ := (exists_storables_iff (r := r)).2 fun prop s hs => by
      obtain ⟨v, hv, hread⟩ := find?_shapes hshapes hs
      obtain ⟨m, s', hread', hresolve⟩ := h prop v hv
      obtain rfl := Except.ok.inj (hread.symm.trans hread')
      exact ⟨m, hresolve⟩
    rw [resolve, hshapes]
    exact ⟨_, Except.bind_eq_ok_iff.2 ⟨_, rfl, Except.bind_eq_ok_iff.2 ⟨_, hfound, rfl⟩⟩⟩

end ComponentSource

end PropStorage
