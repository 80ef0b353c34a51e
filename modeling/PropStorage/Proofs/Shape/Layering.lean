import PropStorage.Proofs.Shape.Describing
import PropStorage.Proofs.Shape.Overlay

/-!
# Shapes that lie over definitions

When a shape is inlined its members lie over those of a definition, and the whole is read. Of the
definition only what the shape leaves uncovered counts (`Shape.uncoveredValues`, `Shape.Fills`). So
whether the whole describes a shape can be told from the two of them
(`Shape.describesShape_overlayMembers_iff`): their types and, where one of them has a type, their
parts have to fit (`Shape.LiesOver`).
-/

namespace PropStorage.Shape

/-! ## Values that stay uncovered -/

/-- The names of the properties that members declare. -/
def declaredNames (members : Entries Json) : List String :=
  (Entries.find? members "properties").toList.flatMap fun v => Entries.names v.members

theorem mem_declaredNames_iff {members : Entries Json} {v : Json} {name : String}
    (h : Entries.find? members "properties" = some v) :
    name ∈ declaredNames members ↔ name ∈ Entries.names v.members := by
  rw [declaredNames, h]
  simp

theorem declaredNames_of_none {members : Entries Json}
    (h : Entries.find? members "properties" = none) : declaredNames members = [] := by
  rw [declaredNames, h]
  rfl

/-- The values among members that are shapes, but for those that other members cover when they lie
over them. -/
def uncoveredValues (below own : Entries Json) : List Json :=
  ((Entries.find? below "properties").toList.flatMap fun v =>
      (v.members.filter fun m => m.1 ∉ declaredNames own).map Prod.snd)
    ++ (Entries.find? below "items").toList.filter fun _ => (Entries.find? own "items").isNone

theorem forall_uncoveredValues_iff {below own : Entries Json} {P : Json → Prop} :
    (∀ v ∈ uncoveredValues below own, P v) ↔
      (∀ v ∈ Entries.find? below "properties", ∀ m ∈ v.members, m.1 ∉ declaredNames own → P m.2) ∧
        (Entries.find? own "items" = none → ∀ v ∈ Entries.find? below "items", P v) := by
  simp only [uncoveredValues, List.mem_append, List.mem_flatMap, List.mem_map, List.mem_filter,
    Option.mem_toList, decide_eq_true_eq, Option.isNone_iff_eq_none]
  constructor
  · intro h
    exact ⟨fun v hv m hm hfree => h m.2 (.inl ⟨v, hv, m, ⟨hm, hfree⟩, rfl⟩),
      fun hfree v hv => h v (.inr ⟨hv, hfree⟩)⟩
  · rintro ⟨hproperties, hitems⟩ v (⟨w, hw, m, ⟨hm, hfree⟩, rfl⟩ | ⟨hv, hfree⟩)
    · exact hproperties w hw m hm hfree
    · exact hitems hfree v hv

theorem mem_shapeValues_of_mem_uncoveredValues {below own : Entries Json} {v : Json}
    (h : v ∈ uncoveredValues below own) : v ∈ shapeValues below := by
  obtain ⟨hproperties, hitems⟩ := forall_shapeValues_iff.1 fun v (h : v ∈ shapeValues below) => h
  refine forall_uncoveredValues_iff.2 ⟨?_, fun _ => hitems⟩ v h
  exact fun v hv m hm _ => hproperties v hv m hm

section Overlay

variable {below own : Entries Json} (hbelow : (Json.object below).Distinct)
  (hown : (Json.object own).Distinct) {P : Json → Prop}
include hbelow hown

theorem forall_mem_overlay_iff :
    (∀ m ∈ overlay below own, P m.2) ↔
      (∀ m ∈ own, P m.2) ∧ ∀ m ∈ below, m.1 ∉ Entries.names own → P m.2 := by
  obtain ⟨hown, hvalues⟩ := Json.distinct_object_iff.1 hown
  have hwhole := (Json.distinct_object_iff.1 (distinct_overlay hbelow hvalues)).1
  rw [Entries.forall_mem_iff_find? (P := fun _ v => P v) hwhole,
    Entries.forall_mem_iff_find? (P := fun _ v => P v) hown,
    Entries.forall_mem_iff_find? (P := fun name v => name ∉ Entries.names own → P v)
      (Json.distinct_object_iff.1 hbelow).1]
  simp only [find?_overlay hown, Option.or_eq_some_iff, ← Entries.find?_eq_none_iff]
  constructor
  · intro h
    exact ⟨fun name v hv => h name v (.inl hv), fun name v hv hfree => h name v (.inr ⟨hfree, hv⟩)⟩
  · rintro ⟨hcover, huncovered⟩ name v (hv | ⟨hfree, hv⟩)
    · exact hcover name v hv
    · exact huncovered name v hv hfree

/-- Where members lie over others, the properties are those that they declare and those that stay
uncovered. -/
theorem forall_properties_overlayMembers_iff
    (hobject : ∀ v ∈ Entries.find? own "properties", ∃ ms, v = .object ms) :
    (∀ v ∈ Entries.find? (overlayMembers below own) "properties", ∀ m ∈ v.members, P m.2) ↔
      (∀ v ∈ Entries.find? own "properties", ∀ m ∈ v.members, P m.2) ∧
        ∀ v ∈ Entries.find? below "properties",
          ∀ m ∈ v.members, m.1 ∉ declaredNames own → P m.2 := by
  rw [find?_overlayMembers_properties (Json.distinct_object_iff.1 hown).1]
  cases ho : Entries.find? own "properties" with
  | none =>
    rw [overlaidProperties_none, declaredNames_of_none ho]
    exact ⟨fun h => ⟨nofun, fun v hv m hm _ => h v hv m hm⟩,
      fun h v hv m hm => h.2 v hv m hm List.not_mem_nil⟩
  | some v =>
    obtain ⟨os, rfl⟩ := hobject v ho
    simp only [mem_declaredNames_iff ho]
    cases hb : Entries.find? below "properties" with
    | none => exact (and_iff_left nofun).symm
    | some w =>
      have hwhole := forall_mem_overlay_iff (P := P) (Json.distinct_members (hbelow.find? hb))
        (hown.find? ho)
      -- only objects are joined; any other value below declares nothing and is covered
      cases w with
      | object bs => simpa [overlaidProperties, Json.members] using hwhole
      | _ => simp [overlaidProperties, Json.members]

/-- Where members lie over others, the values that are shapes are theirs and those that stay
uncovered. -/
theorem forall_shapeValues_overlayMembers_iff
    (hobject : ∀ v ∈ Entries.find? own "properties", ∃ ms, v = .object ms) :
    (∀ v ∈ shapeValues (overlayMembers below own), P v) ↔
      (∀ v ∈ shapeValues own, P v) ∧ ∀ v ∈ uncoveredValues below own, P v := by
  have hitems : (∀ v ∈ Entries.find? (overlayMembers below own) "items", P v) ↔
      (∀ v ∈ Entries.find? own "items", P v) ∧
        (Entries.find? own "items" = none → ∀ v ∈ Entries.find? below "items", P v) := by
    rw [find?_overlayMembers (by decide) (Json.distinct_object_iff.1 hown).1]
    cases Entries.find? own "items" <;> simp
  rw [forall_shapeValues_iff, forall_shapeValues_iff, forall_uncoveredValues_iff, hitems,
    forall_properties_overlayMembers_iff hbelow hown hobject]
  exact and_and_and_comm

end Overlay

/-! ## Members that lie over a definition -/

/-- Whether the parts of a definition that stay uncovered are built as they have to be when members
lie over it. -/
structure Fills (below own : Entries Json) : Prop where
  format : Entries.find? own "format" = none →
    ∀ v ∈ Entries.find? below "format", ∃ text, v = .string text
  properties : Entries.find? own "properties" = none →
    ∀ v ∈ Entries.find? below "properties", ∃ ms, v = .object ms
  shapes : ∀ v ∈ uncoveredValues below own, v.DescribesShape

/-- A definition with a type has its parts, whatever lies over it. -/
theorem HasParts.fills {below : Entries Json} (h : HasParts below) (own : Entries Json) :
    Fills below own where
  format _ := h.format
  properties _ := h.properties
  shapes v hv := h.shapes v (mem_shapeValues_of_mem_uncoveredValues hv)

/-- Only the names of what lies over a definition matter to it. -/
theorem Fills.congr {below own own' : Entries Json}
    (hnone : ∀ name, Entries.find? own' name = none ↔ Entries.find? own name = none)
    (hnames : declaredNames own' = declaredNames own) (h : Fills below own) : Fills below own' where
  format hfree := h.format ((hnone _).1 hfree)
  properties hfree := h.properties ((hnone _).1 hfree)
  shapes := by
    obtain ⟨hproperties, hitems⟩ := forall_uncoveredValues_iff.1 h.shapes
    exact forall_uncoveredValues_iff.2
      ⟨hnames ▸ hproperties, fun hfree => hitems ((hnone _).1 hfree)⟩

/-- Members over others have their parts just if they do themselves, as far as they go, and the
others fill the rest. -/
theorem hasParts_overlayMembers_iff {below own : Entries Json}
    (hbelow : (Json.object below).Distinct) (hown : (Json.object own).Distinct) :
    HasParts (overlayMembers below own) ↔ HasParts own ∧ Fills below own := by
  have hnames := (Json.distinct_object_iff.1 hown).1
  have hformat := find?_overlayMembers (show "format" ≠ "properties" by decide) hnames below
  have hproperties := find?_overlayMembers_properties hnames below
  constructor
  · intro h
    have hobject : ∀ v ∈ Entries.find? own "properties", ∃ ms, v = .object ms := by
      intro v hv
      by_contra hnot
      refine hnot (h.properties v ?_)
      rw [hproperties, hv, overlaidProperties_of_ne fun ms heq => hnot ⟨ms, heq⟩]
      rfl
    have hshapes := (forall_shapeValues_overlayMembers_iff hbelow hown hobject).1 h.shapes
    refine ⟨⟨fun v hv => h.format v ?_, hobject, hshapes.1⟩, ⟨fun hfree v hv => h.format v ?_,
      fun hfree v hv => h.properties v ?_, hshapes.2⟩⟩
    · rw [hformat, hv]
      rfl
    · rw [hformat, hfree, Option.none_or]
      exact hv
    · rw [hproperties, hfree, overlaidProperties_none]
      exact hv
  · rintro ⟨hparts, hfills⟩
    refine ⟨?_, ?_, (forall_shapeValues_overlayMembers_iff hbelow hown hparts.properties).2
      ⟨hparts.shapes, hfills.shapes⟩⟩
    · rw [hformat]
      cases ho : Entries.find? own "format" with
      | none => exact hfills.format ho
      | some v => exact fun w hw => hparts.format w (ho.trans hw)
    · rw [hproperties]
      cases ho : Entries.find? own "properties" with
      | none => exact hfills.properties ho
      | some v =>
        obtain ⟨os, rfl⟩ := hparts.properties v ho
        unfold overlaidProperties
        split <;> simp_all

/-! ## Shapes that lie over a definition -/

/-- Whether a shape and a definition fit together when the shape lies over it: neither has a type,
or all parts are built as they have to be, those of the shape and those of the definition that stay
uncovered. -/
def LiesOver (s : Shape) (below : Entries Json) : Prop :=
  s.type? = none ∧ Entries.find? below "type" = none ∨
    HasParts s.toMembers ∧ Fills below s.toMembers

theorem hasParts_toMembers {s : Shape} (h : s.Everywhere WellFormed) (htype : s.type?.isSome) :
    HasParts s.toMembers := by
  cases s with
  | bare => cases htype
  | typed =>
    exact ((describesShape_iff_of_type find?_toMembers_type).1 (describesShape_toJson h)).2.2

/-- Over a definition with a type a shape only has to have its own parts, and a typed shape has them
(`hasParts_toMembers`). -/
theorem liesOver_iff_hasParts {below : Entries Json} {s : Shape}
    (hdescribes : (Json.object below).DescribesShape)
    (htype : Entries.find? below "type" ≠ none) : s.LiesOver below ↔ HasParts s.toMembers := by
  obtain ⟨v, hv⟩ := Option.ne_none_iff_exists'.1 htype
  have hparts := ((describesShape_iff_of_type hv).1 hdescribes).2.2
  constructor
  · rintro (⟨-, hnone⟩ | ⟨h, -⟩)
    · exact absurd hnone htype
    · exact h
  · exact fun h => .inr ⟨h, hparts.fills _⟩

/-- A shape over a definition describes a shape just if the two fit together. -/
theorem describesShape_overlayMembers_iff {below : Entries Json} {s : Shape} {uri : String}
    (hbelow : (Json.object below).Distinct) (hdescribes : (Json.object below).DescribesShape)
    (hs : s.Everywhere WellFormed) (hreference : s.reference? = some uri) :
    (Json.object (overlayMembers below s.toMembers)).DescribesShape ↔ s.LiesOver below := by
  have hnames := nodup_names_toMembers hs.here
  have htype := find?_overlayMembers (show "type" ≠ "properties" by decide) hnames below
  have hlink : Entries.find? (overlayMembers below s.toMembers) "$ref" = some (.string uri) := by
    rw [find?_overlayMembers (by decide) hnames, find?_toMembers_reference? hs.here, hreference]
    rfl
  have hstring : ∀ v ∈ Entries.find? (overlayMembers below s.toMembers) "$ref",
      ∃ uri, v = .string uri := fun v hv => ⟨uri, Option.some.inj (hv.symm.trans hlink)⟩
  have hparts := hasParts_overlayMembers_iff hbelow (distinct_toJson hs)
  rw [LiesOver, ← hparts]
  cases s with
  | typed type reference format properties items keywords =>
    rw [find?_toMembers_type, Option.some_or] at htype
    rw [describesShape_iff_of_type htype]
    simp only [type?, reduceCtorEq, false_and, false_or]
    exact (and_iff_right ⟨type, .inl rfl⟩).trans (and_iff_right hstring)
  | bare uri' keywords =>
    rw [find?_toMembers_bare, if_neg (by decide), hs.here.find?_bare_keywords (by decide),
      Option.none_or] at htype
    cases hb : Entries.find? below "type" with
    | none =>
      refine iff_of_true ?_ (.inl ⟨rfl, rfl⟩)
      exact (describesShape_iff_of_no_type (htype.trans hb)).2 ⟨uri, hlink⟩
    | some v =>
      rw [describesShape_iff_of_type (htype.trans hb)]
      simp only [reduceCtorEq, and_false, false_or]
      exact (and_iff_right ((describesShape_iff_of_type hb).1 hdescribes).1).trans
        (and_iff_right hstring)

end PropStorage.Shape
