import PropStorage.Proofs.Json.Reordering
import PropStorage.Proofs.Shape.Describing

/-!
# What shapes retain

A value is read as a shape just if it is built as one (`Json.DescribesShape`, which
`Json.describesShape_object_iff` spells out). The shape then retains all that the value says
(`Shape.Retains`), but for the keywords that inform people: the type and the reference of each node,
its properties, each once and in their order, its items, and all other keywords.

A bare reference keeps its keywords as they are written. At a typed node they are brought to normal
form, in which members may have changed places and equal required names are merged
(`Shape.RetainsValue`).
-/

namespace PropStorage

namespace Json

/-- What it takes for an object to describe a shape: its reference, if it has one, is a string, and
it has a reference and no type, or it has a type and all its parts are built as they have to be. -/
theorem describesShape_object_iff {members : Entries Json} :
    (object members).DescribesShape ↔
      (∀ v ∈ Entries.find? members "$ref", ∃ uri, v = string uri) ∧
        ((Entries.find? members "$ref" ≠ none ∧ Entries.find? members "type" = none) ∨
          (∃ v ∈ Entries.find? members "type", v.NamesType) ∧
          (∀ v ∈ Entries.find? members "format", ∃ text, v = string text) ∧
          (∀ v ∈ Entries.find? members "properties",
            ∃ raws, v = object raws ∧ ∀ raw ∈ raws, raw.2.DescribesShape) ∧
          ∀ v ∈ Entries.find? members "items", v.DescribesShape) := by
  constructor
  · intro h
    cases h with
    | @reference _ uri htype hreference =>
      simp [htype, hreference]
    | typed htype hnamed hreference hformat hproperties hshapes =>
      obtain ⟨hvalues, hitems⟩ := Shape.forall_shapeValues_iff.1 hshapes
      refine ⟨hreference, .inr ⟨⟨_, htype, hnamed⟩, hformat, fun v hv => ?_, hitems⟩⟩
      obtain ⟨raws, rfl⟩ := hproperties v hv
      exact ⟨raws, rfl, hvalues _ hv⟩
  · rintro ⟨hreference, ⟨hsome, htype⟩ | ⟨⟨v, htype, hnamed⟩, hformat, hproperties, hitems⟩⟩
    · obtain ⟨v, hv⟩ := Option.ne_none_iff_exists'.1 hsome
      obtain ⟨uri, rfl⟩ := hreference v hv
      exact .reference htype hv
    · refine .typed htype hnamed hreference hformat (fun v hv => ?_)
        (Shape.forall_shapeValues_iff.2 ⟨fun v hv => ?_, hitems⟩)
      · obtain ⟨raws, rfl, -⟩ := hproperties v hv
        exact ⟨raws, rfl⟩
      · obtain ⟨raws, rfl, hraws⟩ := hproperties v hv
        exact hraws

end Json

namespace Shape

/-! ## Keywords -/

/-- Whether the value of a keyword of a typed node is retained: members may change places, and of
the items of a `required` list some may be left out that are equal to others. -/
inductive RetainsValue (name : String) : Json → Json → Prop where
  | reordered {v w : Json} (h : v.Reordered w) : RetainsValue name v w
  | merged {items chosen kept : List Json} (required : name = "required")
    (subperm : chosen.Subperm items) (reordered : List.Forall₂ Json.Reordered chosen kept)
    (covered : ∀ item ∈ items, ∃ k ∈ kept, k.equiv item = true) :
    RetainsValue name (.array items) (.array kept)

/-- A `required` list is retained when it is settled and members within it are sorted. -/
theorem retainsValue_required {items : List Json} (h : (Json.array items).Distinct) :
    RetainsValue "required" (.array items)
      (.array ((normalRequired items).map Json.sortMembers)) := by
  have hitems := Json.distinct_array_iff.1 h
  refine .merged rfl (subperm_normalRequired items) ?_ fun item hitem => ?_
  · rw [List.forall₂_map_right_iff, List.forall₂_same]
    exact fun item hitem => Json.reordered_sortMembers (hitems item (mem_normalRequired hitem))
  · obtain ⟨kept, hkept, hequal⟩ :=
      exists_mem_normalRequired (fun item hitem => Json.equiv_self (hitems item hitem)) hitem
    have hdistinct := hitems kept (mem_normalRequired hkept)
    have hsorted := Json.distinct_sortMembers hdistinct
    refine ⟨kept.sortMembers, List.mem_map_of_mem hkept,
      Json.equiv_trans hsorted hdistinct (hitems item hitem) ?_ hequal⟩
    exact Json.equiv_of_sortMembers_eq hsorted hdistinct kept.sortMembers_sortMembers

theorem retainsValue_normalKeyword (name : String) {v : Json} (h : v.Distinct) :
    RetainsValue name v (normalKeyword name v) := by
  by_cases hrequired : ∃ items, v = .array items ∧ name = "required"
  · obtain ⟨items, rfl, rfl⟩ := hrequired
    rw [normalKeyword, if_pos rfl, Json.sortMembers_array]
    exact retainsValue_required h
  · rw [normalKeyword_of_ne fun items hv hname => hrequired ⟨items, hv, hname⟩]
    exact .reordered (Json.reordered_sortMembers h)

/-! ## Nodes -/

/-- Whether a shape retains what a value says. -/
inductive Retains : Json → Shape → Prop where
  | bare {members : Entries Json} {uri : String} {keywords : SortedMap Json}
    (untyped : Entries.find? members "type" = none)
    (reference : Entries.find? members "$ref" = some (.string uri))
    (keyword : ∀ name, keywords.find? name =
      if name ∈ "$ref" :: informational then none else Entries.find? members name) :
    Retains (.object members) (.bare uri keywords)
  | typed {members : Entries Json} {type : SchemaType} {reference format : Option String}
    {properties : Option (Entries Shape)} {items : Option Shape} {keywords : SortedMap Json}
    (named : ∃ v ∈ Entries.find? members "type",
      v = .string type.name ∨ v = .array [.string type.name])
    (referred : Entries.find? members "$ref" = reference.map .string)
    (formatted : Entries.find? members "format" = format.map .string)
    (names : (Entries.find? members "properties").map (fun v => Entries.names v.members)
      = properties.map Entries.names)
    (once : ∀ ps ∈ properties, (Entries.names ps).Nodup)
    (property : ∀ v ∈ Entries.find? members "properties", ∀ ps ∈ properties, ∀ name raw s,
      v.member? name = some raw → Entries.find? ps name = some s → Retains raw s)
    (isSome_items : (Entries.find? members "items").isSome = items.isSome)
    (item : ∀ raw ∈ Entries.find? members "items", ∀ s ∈ items, Retains raw s)
    (keyword : ∀ name, Option.Rel (RetainsValue name)
      (if name ∈ structural ++ informational then none else Entries.find? members name)
      (keywords.find? name)) :
    Retains (.object members) (.typed type reference format properties items keywords)

theorem rel_normalKeywords {members : Entries Json} (h : (Json.object members).Distinct)
    (name : String) : Option.Rel (RetainsValue name)
      (if name ∈ structural ++ informational then none else Entries.find? members name)
      ((normalKeywords members).find? name) := by
  rw [find?_normalKeywords (Json.distinct_object_iff.1 h).1]
  split
  · exact .none
  · cases hfind : Entries.find? members name with
    | none => exact .none
    | some v => exact .some (retainsValue_normalKeyword name (h.find? hfind))

/-- A typed node is retained if the values of its properties and its items are. -/
theorem retains_of_readsTyped {path : String} {members : Entries Json} {type : SchemaType}
    {reference format : Option String} {properties : Option (Entries Shape)} {items : Option Shape}
    (h : ReadsTyped path members type reference format properties items)
    (hd : (Json.object members).Distinct)
    (hproperties : ∀ ps ∈ properties, ∃ raws,
      Entries.find? members "properties" = some (.object raws) ∧
        List.Forall₂ (fun raw p => p.1 = raw.1 ∧ (raw.2.Distinct → p.2.Retains raw.2)) raws ps)
    (hitems : ∀ t ∈ items, ∃ raw, Entries.find? members "items" = some raw ∧
      (raw.Distinct → t.Retains raw)) :
    Retains (.object members)
      (.typed type reference format properties items (normalKeywords members)) := by
  obtain ⟨v, htype, hnamed⟩ := h.type
  refine .typed ⟨v, htype, readType_eq_ok_iff.1 hnamed⟩ h.reference h.format ?_ ?_ ?_ ?_ ?_
    (rel_normalKeywords hd)
  · cases properties with
    | none => rw [readProperties_eq_ok_iff.1 h.properties]; rfl
    | some ps =>
      obtain ⟨raws, hfind, hall⟩ := hproperties ps rfl
      have hnames := Entries.names_eq_of_forall₂ hall fun _ _ h => h.1
      rw [hfind, Option.map_some, Option.map_some, hnames]
      rfl
  · intro ps hps
    obtain ⟨raws, hfind, hall⟩ := hproperties ps hps
    rw [Entries.names_eq_of_forall₂ hall fun _ _ h => h.1]
    exact (Json.distinct_object_iff.1 (hd.find? hfind)).1
  · intro v hv ps hps name raw s hraw hs
    obtain ⟨raws, hfind, hall⟩ := hproperties ps hps
    obtain rfl := Option.some.inj (hv.symm.trans hfind)
    have hpair := Entries.rel_find?_of_forall₂ (R := fun raw p => raw.Distinct → p.Retains raw)
      (hall.imp fun _ _ h => ⟨h.1.symm, h.2⟩)
    exact Entries.rel_of_find? hpair hraw hs ((hd.find? hfind).find? hraw)
  · cases items with
    | none => rw [readItems_eq_ok_iff.1 h.items]; rfl
    | some t =>
      obtain ⟨raw, hfind, -⟩ := hitems t rfl
      rw [hfind]; rfl
  · intro raw hraw t ht
    obtain ⟨raw', hfind, hretains⟩ := hitems t ht
    obtain rfl := Option.some.inj (hraw.symm.trans hfind)
    exact hretains (hd.find? hfind)

/-- The shape that is read retains what the value says. -/
theorem retains_ofJsonAt {v : Json} (hv : v.Distinct) {path : String} {s : Shape}
    (h : ofJsonAt path v = .ok s) : s.Retains v := by
  refine ofJsonAt_induction (motive := fun v s => v.Distinct → s.Retains v) ?_ ?_ v path s h hv
  · intro members uri htype hreference hd
    exact .bare htype hreference (find?_keywordsExcept (Json.distinct_object_iff.1 hd).1)
  · intro path members type reference format properties items hreads hproperties hitems hd
    exact retains_of_readsTyped hreads hd hproperties hitems

/-- Just the values that are built as shapes are read. What is read has no keywords left that only
inform people, at any node, and retains all else that the value says. -/
theorem ofJson_retains (v : Json) :
    ((∃ s, ofJson v = .ok s) ↔ v.DescribesShape) ∧
      (v.Distinct → ∀ s, ofJson v = .ok s →
        s.Retains v ∧ s.Everywhere fun t => ∀ name ∈ informational, t.keyword? name = none) := by
  refine ⟨exists_ofJsonAt_iff, fun hv s hs => ⟨retains_ofJsonAt hv hs, ?_⟩⟩
  exact (wellFormed_ofJsonAt hv hs).imp fun _ h => h.keyword?_informational

/-- A form whose fields are named like keywords. -/
def form : Json := .object [("title", .string "Form"), ("type", .array [.string "object"]),
  ("required", .array [.string "type", .string "title", .string "type"]),
  ("properties", .object [
    ("type", .object [("type", .string "string"), ("default", .string "plain")]),
    ("title", .object [("$ref", .string imageUri), ("title", .string "Picture")]),
    ("default", .object [("type", .string "array"),
      ("items", .object [("description", .string "Choice"), ("type", .string "integer")])])])]

theorem ofJson_retains_form :
    form.Distinct ∧ form.DescribesShape ∧ ∃ s, ofJson form = .ok s ∧ s.Retains form ∧
      (s.Everywhere fun t => ∀ name ∈ informational, t.keyword? name = none) ∧
      s.properties?.map Entries.names = some ["type", "title", "default"] := by
  have hform : form.Distinct := by
    simp [form, Json.Distinct, Json.DistinctMembers, Json.DistinctItems, Entries.names]
  obtain ⟨hdescribes, hretains⟩ := ofJson_retains form
  obtain ⟨s, hs, hnames⟩ : ∃ s, ofJson form = .ok s ∧
      s.properties?.map Entries.names = some ["type", "title", "default"] := ⟨_, rfl, rfl⟩
  obtain ⟨hs', hinformational⟩ := hretains hform s hs
  exact ⟨hform, hdescribes.1 ⟨s, hs⟩, s, hs, hs', hinformational, hnames⟩

end Shape

end PropStorage
