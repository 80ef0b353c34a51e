import PropStorage.Proofs.Shape.Inlining
import PropStorage.Proofs.Shape.Renormal

/-!
# Values that describe shapes

A value describes a shape just if it is built as one (`Json.DescribesShape`): an object with a type
or a reference whose parts are built as they have to be (`Shape.HasParts`). Where it stands does not
matter (`Shape.exists_ofJsonAt_iff`).

The parts that are shapes themselves are the values of properties and the value of items
(`Shape.shapeValues`). A bare reference may have such members, too, but they are not read.

Definitions that were registered describe shapes (`Definitions.Registered.describesShape`).
-/

namespace PropStorage

namespace Shape

/-- The values among members that are shapes if they are read. -/
def shapeValues (members : Entries Json) : List Json :=
  ((Entries.find? members "properties").toList.flatMap fun v => v.members.map Prod.snd)
    ++ (Entries.find? members "items").toList

theorem forall_shapeValues_iff {members : Entries Json} {P : Json → Prop} :
    (∀ v ∈ shapeValues members, P v) ↔
      (∀ v ∈ Entries.find? members "properties", ∀ m ∈ v.members, P m.2) ∧
        ∀ v ∈ Entries.find? members "items", P v := by
  simp only [shapeValues, List.mem_append, List.mem_flatMap, List.mem_map, Option.mem_toList]
  constructor
  · intro h
    exact ⟨fun v hv m hm => h m.2 (.inl ⟨v, hv, m, hm, rfl⟩), fun v hv => h v (.inr hv)⟩
  · rintro ⟨hproperties, hitems⟩ v (⟨w, hw, m, hm, rfl⟩ | hv)
    · exact hproperties w hw m hm
    · exact hitems v hv

end Shape

namespace Json

/-- Whether a value is the name of a type, perhaps as the one item of a list. -/
def NamesType (v : Json) : Prop :=
  ∃ type : SchemaType, v = .string type.name ∨ v = .array [.string type.name]

/-- Whether a value is built as one that describes a shape. -/
inductive DescribesShape : Json → Prop where
  | reference {members : Entries Json} {uri : String}
    (type : Entries.find? members "type" = none)
    (reference : Entries.find? members "$ref" = some (.string uri)) :
    DescribesShape (.object members)
  | typed {members : Entries Json} {v : Json} (type : Entries.find? members "type" = some v)
    (named : v.NamesType)
    (reference : ∀ v ∈ Entries.find? members "$ref", ∃ uri, v = .string uri)
    (format : ∀ v ∈ Entries.find? members "format", ∃ text, v = .string text)
    (properties : ∀ v ∈ Entries.find? members "properties", ∃ ms, v = .object ms)
    (shapes : ∀ v ∈ Shape.shapeValues members, DescribesShape v) :
    DescribesShape (.object members)

theorem DescribesShape.eq_object {v : Json} (h : v.DescribesShape) :
    ∃ members, v = .object members :=
  match h with
  | .reference .. => ⟨_, rfl⟩
  | .typed .. => ⟨_, rfl⟩

end Json

namespace Shape

/-- Whether the members that are parts of a typed shape are built as they have to be. -/
structure HasParts (members : Entries Json) : Prop where
  format : ∀ v ∈ Entries.find? members "format", ∃ text, v = .string text
  properties : ∀ v ∈ Entries.find? members "properties", ∃ ms, v = .object ms
  shapes : ∀ v ∈ shapeValues members, v.DescribesShape

/-- An object with a type describes a shape just if it has its parts. -/
theorem describesShape_iff_of_type {members : Entries Json} {v : Json}
    (htype : Entries.find? members "type" = some v) :
    (Json.object members).DescribesShape ↔
      v.NamesType ∧ (∀ v ∈ Entries.find? members "$ref", ∃ uri, v = .string uri) ∧
        HasParts members := by
  constructor
  · intro h
    cases h with
    | reference hnone =>
      rw [htype] at hnone
      cases hnone
    | typed hsome hnamed hreference hformat hproperties hshapes =>
      obtain rfl := Option.some.inj (htype.symm.trans hsome)
      exact ⟨hnamed, hreference, hformat, hproperties, hshapes⟩
  · rintro ⟨hnamed, hreference, hparts⟩
    exact .typed htype hnamed hreference hparts.format hparts.properties hparts.shapes

/-- An object without a type describes a shape just if it has a reference. -/
theorem describesShape_iff_of_no_type {members : Entries Json}
    (htype : Entries.find? members "type" = none) :
    (Json.object members).DescribesShape ↔
      ∃ uri, Entries.find? members "$ref" = some (.string uri) := by
  constructor
  · intro h
    cases h with
    | reference _ hreference => exact ⟨_, hreference⟩
    | typed hsome =>
      rw [htype] at hsome
      cases hsome
  · rintro ⟨uri, hreference⟩
    exact .reference htype hreference

/-! ## Reading -/

theorem readTypeName_eq_ok_iff {path name : String} {type : SchemaType} :
    readTypeName path name = .ok type ↔ name = type.name := by
  constructor
  · intro h
    unfold readTypeName at h
    split at h
    · rename_i found hfound
      obtain rfl := Except.ok.inj h
      unfold SchemaType.ofName? at hfound
      split at hfound <;> cases hfound <;> rfl
    · cases h
  · rintro rfl
    rw [readTypeName, SchemaType.ofName?_name]

theorem readType_eq_ok_iff {path : String} {v : Json} {type : SchemaType} :
    readType path v = .ok type ↔ v = .string type.name ∨ v = .array [.string type.name] := by
  unfold readType
  split
  · rw [readTypeName_eq_ok_iff]
    simp
  · rw [readTypeName_eq_ok_iff]
    simp
  · rename_i items hother
    refine iff_of_false nofun ?_
    rintro (h | h)
    · cases h
    · exact hother _ (Json.array.inj h)
  · rename_i hstring _ harray
    refine iff_of_false nofun ?_
    rintro (rfl | rfl)
    · exact hstring _ rfl
    · exact harray _ rfl

theorem exists_map_string_iff {v : Option Json} :
    (∃ s : Option String, v = s.map .string) ↔ ∀ w ∈ v, ∃ text, w = .string text := by
  cases v with
  | none => exact iff_of_true ⟨none, rfl⟩ nofun
  | some w =>
    constructor
    · rintro ⟨s, hs⟩ _ ⟨⟩
      obtain ⟨text, -, rfl⟩ := Option.map_eq_some_iff.1 hs.symm
      exact ⟨text, rfl⟩
    · intro h
      obtain ⟨text, rfl⟩ := h w rfl
      exact ⟨some text, rfl⟩

section Parts

variable (path : String) {members : Entries Json}

theorem exists_readProperties_of_forall
    (hobject : ∀ v ∈ Entries.find? members "properties", ∃ ms, v = .object ms)
    (hvalues : ∀ v ∈ Entries.find? members "properties", ∀ m ∈ v.members,
      ∀ path, ∃ s, ofJsonAt path m.2 = .ok s) :
    ∃ ps, readProperties path members = .ok ps := by
  cases hfind : Entries.find? members "properties" with
  | none => exact ⟨none, readProperties_eq_ok_iff.2 hfind⟩
  | some v =>
    obtain ⟨raws, rfl⟩ := hobject v hfind
    obtain ⟨ps, hps⟩ : ∃ ps, readShapes path raws = .ok ps := by
      rw [readShapes_eq_traverse]
      exact Entries.exists_traverse_eq_ok fun raw hraw => hvalues _ hfind raw hraw _
    exact ⟨some ps, readProperties_eq_ok_iff.2 ⟨raws, hfind, hps⟩⟩

theorem exists_readItems_of_forall
    (hobject : ∀ v ∈ Entries.find? members "items", ∃ ms, v = .object ms)
    (hvalue : ∀ v ∈ Entries.find? members "items", ∀ path, ∃ s, ofJsonAt path v = .ok s) :
    ∃ i, readItems path members = .ok i := by
  cases hfind : Entries.find? members "items" with
  | none => exact ⟨none, readItems_eq_ok_iff.2 hfind⟩
  | some v =>
    obtain ⟨raw, rfl⟩ := hobject v hfind
    obtain ⟨s, hs⟩ := hvalue _ hfind (path ++ "/items")
    exact ⟨some s, readItems_eq_ok_iff.2 ⟨raw, hfind, hs⟩⟩

end Parts

/-- What holds of all parts of a shape that is read holds of all values that are shapes, where it
agrees on each value and the shape read from it. -/
theorem ReadsTyped.forall_parts_iff {path : String} {members : Entries Json} {type : SchemaType}
    {reference format : Option String} {properties : Option (Entries Shape)} {items : Option Shape}
    (h : ReadsTyped path members type reference format properties items) (keywords : SortedMap Json)
    {R : Json → Shape → Prop} {P : Shape → Prop} {Q : Json → Prop}
    (hproperties : ∀ ps ∈ properties, ∃ raws,
      Entries.find? members "properties" = some (.object raws) ∧
        List.Forall₂ (fun raw p => p.1 = raw.1 ∧ R raw.2 p.2) raws ps)
    (hitems : ∀ t ∈ items, ∃ raw, Entries.find? members "items" = some raw ∧ R raw t)
    (hPQ : ∀ v s, R v s → (P s ↔ Q v)) :
    (∀ t ∈ (typed type reference format properties items keywords).parts, P t) ↔
      ∀ v ∈ shapeValues members, Q v := by
  rw [forall_parts_typed, forall_shapeValues_iff]
  refine and_congr ?_ ?_
  · cases properties with
    | none =>
      rw [readProperties_eq_ok_iff.1 h.properties]
      exact iff_of_true nofun nofun
    | some ps =>
      obtain ⟨raws, hfind, hall⟩ := hproperties ps rfl
      rw [hfind]
      simp only [Option.mem_some_iff, forall_eq', Json.members]
      exact Entries.forall_mem_iff_of_forall₂ hall.flip fun p raw h => hPQ _ _ h.2
  · cases items with
    | none =>
      rw [readItems_eq_ok_iff.1 h.items]
      exact iff_of_true nofun nofun
    | some t =>
      obtain ⟨raw, hfind, hR⟩ := hitems t rfl
      rw [hfind]
      simp only [Option.mem_some_iff, forall_eq']
      exact hPQ _ _ hR

theorem exists_ofJsonAt_of_describesShape {v : Json} (h : v.DescribesShape) (path : String) :
    ∃ s, ofJsonAt path v = .ok s := by
  induction h generalizing path with
  | reference htype hreference =>
    exact ⟨_, ofJsonAt_object_eq_ok_iff.2 (.inl ⟨_, htype, hreference, rfl⟩)⟩
  | @typed members v htype hnamed hreference hformat hproperties hshapes ih =>
    obtain ⟨type, hnamed⟩ := hnamed
    obtain ⟨reference, hreference⟩ := exists_map_string_iff.2 hreference
    obtain ⟨format, hformat⟩ := exists_map_string_iff.2 hformat
    obtain ⟨hproperty, hitem⟩ := forall_shapeValues_iff.1 ih
    obtain ⟨ps, hps⟩ := exists_readProperties_of_forall path hproperties hproperty
    obtain ⟨i, hi⟩ := exists_readItems_of_forall path
      (fun v hv => ((forall_shapeValues_iff.1 hshapes).2 v hv).eq_object) hitem
    exact ⟨_, ofJsonAt_object_eq_ok_iff.2 (.inr ⟨type, reference, format, ps, i,
      ⟨⟨v, htype, readType_eq_ok_iff.2 hnamed⟩, hreference, hformat, hps, hi⟩, rfl⟩)⟩

theorem describesShape_of_ofJsonAt {v : Json} {path : String} {s : Shape}
    (h : ofJsonAt path v = .ok s) : v.DescribesShape := by
  refine ofJsonAt_induction (motive := fun v _ => v.DescribesShape) ?_ ?_ v path s h
  · intro members uri htype hreference
    exact .reference htype hreference
  · intro path members type reference format properties items hreads hproperties hitems
    obtain ⟨v, htype, hnamed⟩ := hreads.type
    have hshapes := hreads.forall_parts_iff (P := fun _ => True) ∅ hproperties hitems
      fun _ _ h => iff_of_true trivial h
    refine .typed htype ⟨type, readType_eq_ok_iff.1 hnamed⟩
      (exists_map_string_iff.1 ⟨reference, hreads.reference⟩)
      (exists_map_string_iff.1 ⟨format, hreads.format⟩) ?_ (hshapes.1 fun _ _ => trivial)
    intro v hv
    cases properties with
    | none => cases hv.symm.trans (readProperties_eq_ok_iff.1 hreads.properties)
    | some ps =>
      obtain ⟨raws, hfind, -⟩ := hproperties ps rfl
      exact ⟨raws, Option.some.inj (hv.symm.trans hfind)⟩

/-- Just the values that are built as shapes describe shapes, wherever they stand. -/
theorem exists_ofJsonAt_iff {path : String} {v : Json} :
    (∃ s, ofJsonAt path v = .ok s) ↔ v.DescribesShape :=
  ⟨fun ⟨_, h⟩ => describesShape_of_ofJsonAt h, fun h => exists_ofJsonAt_of_describesShape h path⟩

/-- The JSON form of a well-formed shape describes a shape. -/
theorem describesShape_toJson {s : Shape} (h : s.Everywhere WellFormed) :
    s.toJson.DescribesShape := by
  obtain ⟨_, hread, -⟩ := ofJsonAt_toJson h "#"
  exact describesShape_of_ofJsonAt hread

end Shape

namespace Definitions

/-- A value that is registered describes a shape, and is then found under its URI. -/
theorem register_eq_ok {d d' : Definitions} {uri : String} {body : Json}
    (h : d.register uri body = .ok d') :
    (∃ s, Shape.ofJson body = .ok s) ∧
      ∀ other, d'.find? other = if other = uri then some body else d.find? other := by
  obtain ⟨-, hread, rfl⟩ := register_eq_ok_iff.1 h
  exact ⟨hread, SortedMap.find?_insert d.bodies uri body⟩

/-- The definitions that can be registered, one after the other. No object within them names a
member twice. -/
inductive Registered : Definitions → Prop where
  | empty : Registered ∅
  | builtins : Registered builtins
  | register {d d' : Definitions} {uri : String} {body : Json} (hd : Registered d)
    (hbody : body.Distinct) (h : d.register uri body = .ok d') : Registered d'

namespace Registered

variable {d : Definitions}

/-- What holds of the builtin definitions and of each definition that is registered holds of all. -/
theorem forall_find? (h : d.Registered) {P : Json → Prop}
    (hbuiltins : ∀ e ∈ Definitions.builtins.bodies.entries, P e.2)
    (hregister : ∀ body s, body.Distinct → Shape.ofJson body = .ok s → P body) {uri : String}
    {body : Json} (hfind : d.find? uri = some body) : P body := by
  induction h generalizing uri body with
  | empty => cases hfind
  | builtins => exact hbuiltins _ (Entries.mem_of_find? hfind)
  | @register d d' uri' body' _ hbody h ih =>
    obtain ⟨⟨s, hread⟩, hfound⟩ := register_eq_ok h
    rw [hfound] at hfind
    split at hfind
    · obtain rfl := Option.some.inj hfind
      exact hregister _ s hbody hread
    · exact ih hfind

theorem distinct (h : d.Registered) : d.Distinct := by
  induction h with
  | empty => exact fun _ he => absurd he List.not_mem_nil
  | builtins => exact distinct_builtins
  | register _ hbody h ih => exact ih.register hbody h

/-- All definitions describe shapes. -/
theorem describesShape (h : d.Registered) {uri : String} {body : Json}
    (hfind : d.find? uri = some body) : body.DescribesShape := by
  refine h.forall_find? ?_ (fun _ _ _ hread => Shape.describesShape_of_ofJsonAt hread) hfind
  refine Json.forall_values_ofEntries (P := Json.DescribesShape) ?_
  have himage : image.DescribesShape :=
    Shape.describesShape_of_ofJsonAt (rfl : Shape.ofJsonAt "#" image = .ok _)
  have hdateRange : dateRange.DescribesShape :=
    Shape.describesShape_of_ofJsonAt (rfl : Shape.ofJsonAt "#" dateRange = .ok _)
  simp only [List.forall_mem_cons]
  exact ⟨himage, hdateRange, nofun⟩

end Registered

end Definitions

end PropStorage
