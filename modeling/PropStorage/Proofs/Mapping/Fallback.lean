import PropStorage.Proofs.Mapping.Default
import PropStorage.Proofs.Shape.Overlay

/-!
# Defaults of shapes that refer to definitions

Where a shape has no default mapping, it is specified that its references are inlined and the
default of the result counts (`Resolver.specifiedDraft`). A resolver does this only for shapes
within which there is a bare reference. It makes no difference but for three kinds of shapes
(`Shape.Overlooked`), to which a definition beside a type could give what their default lacks
(`Resolver.draft_candidate_of_references`): inlining keeps the type, the reference, the keywords and
the items of all others.
-/

namespace PropStorage

namespace Shape

/-! ## The default mapping of shapes that are alike -/

section Alike

variable {s t : Shape} (h : s.Alike t)
include h

theorem enum?_eq_of_alike : t.enum? = s.enum? := by
  rw [enum?, enum?, h.keyword? _ (by decide)]

theorem stringMapping?_eq_of_alike : t.stringMapping? = s.stringMapping? := by
  have hmedia : t.contentMediaType? = s.contentMediaType? := by
    rw [contentMediaType?, contentMediaType?, h.keyword? _ (by decide)]
  have hline : t.lineMapping = s.lineMapping := by
    rw [lineMapping, lineMapping, h.keyword? _ (by decide)]
  have htext : t.textMapping = s.textMapping := by
    rw [textMapping, textMapping, hmedia, hline]
  have hformat (format : String) : t.formatMapping? format = s.formatMapping? format := by
    unfold formatMapping?
    rw [isImageAddress, isImageAddress, hmedia, htext]
  rw [stringMapping?, stringMapping?, enum?_eq_of_alike h, h.format?, htext]
  simp only [hformat]

theorem numericMapping_eq_of_alike (fieldType listType : Name) :
    t.numericMapping fieldType listType = s.numericMapping fieldType listType := by
  rw [numericMapping, numericMapping, enum?_eq_of_alike h, numberMapping, numberMapping,
    h.keyword? "minimum" (by decide), h.keyword? "maximum" (by decide)]

/-- Shapes that are alike and no arrays have one default mapping. -/
theorem defaultMapping?_eq_of_alike (harray : s.type? ≠ some .array) :
    t.defaultMapping? = s.defaultMapping? := by
  rw [defaultMapping?_eq, defaultMapping?_eq, h.type?, stringMapping?_eq_of_alike h,
    objectMapping?, objectMapping?, h.reference?]
  simp only [numericMapping_eq_of_alike h]
  split
  all_goals first | rfl | exact absurd ‹_› harray

end Alike

/-! ## Shapes whose definition is overlooked -/

/-- Whether a shape is an image address beside a reference, and has no default mapping. -/
structure NamedAddress (s : Shape) : Prop where
  type? : s.type? = some .string
  isImageAddress : s.isImageAddress = true
  reference? : s.reference?.isSome = true
  unmapped : s.defaultMapping? = none

/-- Whether the definition of a shape could give a default mapping, although the shape and its items
have types: it could list the values of an image address, or say what the items of a list are. -/
inductive Overlooked (s : Shape) : Prop where
  | address (h : s.NamedAddress) : Overlooked s
  | list (htype : s.type? = some .array) (hreference : s.reference?.isSome = true)
    (hitems : s.items? = none) : Overlooked s
  | addresses {item : Shape} (htype : s.type? = some .array) (hitem : s.items? = some item)
    (h : item.NamedAddress) : Overlooked s

theorem isImageAddress_of_stringMapping?_eq_none {s : Shape} (h : s.stringMapping? = none) :
    s.isImageAddress = true := by
  unfold stringMapping? at h
  split at h
  · cases h
  · split at h
    · unfold formatMapping? at h
      split at h <;> try cases h
      all_goals
        split at h
        · assumption
        · cases h
    · cases h

theorem Overlooked.defaultMapping?_eq_none {s : Shape} (h : s.Overlooked) :
    s.defaultMapping? = none := by
  have hitems (htype : s.type? = some .array)
      (h : ∀ item ∈ s.items?, item.defaultMapping? = none) : s.defaultMapping? = none := by
    refine Option.eq_none_iff_forall_ne_some.2 fun m hm => ?_
    obtain ⟨item, _, _, hitem, hsingle, -⟩ := (defaultMapping?_array_eq_some_iff htype).1 hm
    rw [h item hitem] at hsingle
    cases hsingle
  cases h with
  | address h => exact h.unmapped
  | list htype _ hnone =>
    refine hitems htype fun item hitem => ?_
    rw [hnone] at hitem
    cases hitem
  | addresses htype hsome h =>
    refine hitems htype fun item hitem => ?_
    rw [hsome] at hitem
    exact Option.some.inj hitem ▸ h.unmapped

/-! ## Shapes that gain nothing -/

theorem typed_of_hasBareReference {s : Shape} (h : s.hasBareReference = false) :
    s.type?.isSome = true ∧ ∀ item ∈ s.items?, item.hasBareReference = false := by
  cases s with
  | bare => cases h
  | typed type reference format properties items keywords =>
    rw [hasBareReference, Bool.or_eq_false_iff] at h
    refine ⟨rfl, ?_⟩
    rintro item hitem
    obtain rfl : items = some item := hitem
    exact h.2

/-- An array keeps its limit when it is inlined. -/
theorem exists_arrayCardinality?_of_keeps {R : Shape → Shape → Prop} {s t : Shape} (h : s.Keeps R t)
    {cardinality : Cardinality} (ht : t.arrayCardinality? = some cardinality) :
    ∃ own, s.arrayCardinality? = some own := by
  cases hlimit : s.keyword? "maxItems" with
  | none => exact ⟨.unlimited, by rw [arrayCardinality?, hlimit]⟩
  | some limit =>
    have hkept := h.keyword? "maxItems" (by decide) limit hlimit
    refine ⟨cardinality, ?_⟩
    rw [← ht, arrayCardinality?, arrayCardinality?, hlimit, hkept]

section Inlined

variable {d : Definitions} (hd : d.Distinct) {s t : Shape} (hs : s.Everywhere WellFormed)
  (hinline : s.inline d = .ok t) (hnone : s.defaultMapping? = none)
include hd hs hinline hnone

/-- A typed shape that is not an array gains no default mapping when it is inlined, unless it is an
image address. -/
theorem defaultMapping?_inline_single (htype : s.type?.isSome = true)
    (harray : s.type? ≠ some .array) (haddress : ¬s.NamedAddress) : t.defaultMapping? = none := by
  cases hreference : s.reference? with
  | none =>
    exact (defaultMapping?_eq_of_alike (alike_of_inline htype hreference hinline).1 harray).trans
      hnone
  | some uri =>
    have hkeeps := keeps_of_inline hd hs htype hinline
    rw [defaultMapping?_eq] at hnone
    rw [defaultMapping?_eq, hkeeps.type?]
    cases hsome : s.type? with
    | none => rfl
    | some type =>
      rw [hsome] at hnone
      cases type with
      | string =>
        refine absurd ⟨hsome, isImageAddress_of_stringMapping?_eq_none hnone, ?_, ?_⟩ haddress
        · rw [hreference]; rfl
        · rw [defaultMapping?_eq, hsome]; exact hnone
      | integer | number | boolean => cases hnone
      | object =>
        have hobject : t.objectMapping? = s.objectMapping? := by
          rw [objectMapping?, objectMapping?, hkeeps.reference?]
        exact hobject.trans hnone
      | array => exact absurd hsome harray

/-- Nor does an array, unless the definition could say what its items are. -/
theorem defaultMapping?_inline_array (harray : s.type? = some .array)
    (htyped : ∀ item ∈ s.items?, item.type?.isSome = true) (hover : ¬s.Overlooked) :
    t.defaultMapping? = none := by
  have htype : s.type?.isSome = true := by rw [harray]; rfl
  have hkeeps := keeps_of_inline hd hs htype hinline
  refine Option.eq_none_iff_forall_ne_some.2 fun m hm => ?_
  obtain ⟨u, single, cardinality, hu, hsingle, hcardinality, hlimit, -⟩ :=
    (defaultMapping?_array_eq_some_iff (hkeeps.type?.trans harray)).1 hm
  cases hitems : s.items? with
  | none =>
    have hreference : s.reference? = none :=
      Option.not_isSome_iff_eq_none.1 fun h => hover (.list harray h hitems)
    rw [(alike_of_inline htype hreference hinline).2 hitems] at hu
    cases hu
  | some item =>
    obtain ⟨w, hw, v, hv, halike⟩ := hkeeps.items? item hitems
    obtain rfl := Option.some.inj (hu.symm.trans hw)
    -- The items of the inlined array are single values, so those of the array are, too.
    have huarray : u.type? ≠ some .array := by
      rw [ne_eq, ← isSome_cardinality_iff hsingle, hcardinality]
      nofun
    have hvarray : v.type? ≠ some .array := halike.type? ▸ huarray
    have hitem : item.Everywhere WellFormed :=
      hs.within (List.mem_append_right _ (Option.mem_toList.2 hitems))
    have hiarray : item.type? ≠ some .array :=
      (keeps_of_inline hd hitem (htyped item hitems) hv).type? ▸ hvarray
    have hvmapping := (defaultMapping?_eq_of_alike halike hvarray).symm.trans hsingle
    cases hmapping : item.defaultMapping? with
    | none =>
      rw [defaultMapping?_inline_single hd hitem hv hmapping (htyped item hitems) hiarray
        fun h => hover (.addresses harray hitems h)] at hvmapping
      cases hvmapping
    | some own =>
      obtain ⟨limit, hlimit⟩ := exists_arrayCardinality?_of_keeps hkeeps hlimit
      rw [(defaultMapping?_array_eq_some_iff harray).2 ⟨item, own, limit, hitems, hmapping,
        (suits_of_defaultMapping? hiarray hmapping).cardinality, hlimit, rfl⟩] at hnone
      cases hnone

/-- Only the shapes that are overlooked gain a default mapping when they are inlined, if there is
no bare reference within them. -/
theorem defaultMapping?_inline (htyped : s.hasBareReference = false) (hover : ¬s.Overlooked) :
    t.defaultMapping? = none := by
  obtain ⟨htype, hitems⟩ := typed_of_hasBareReference htyped
  by_cases harray : s.type? = some .array
  · exact defaultMapping?_inline_array hd hs hinline hnone harray
      (fun item hitem => (typed_of_hasBareReference (hitems item hitem)).1) hover
  · exact defaultMapping?_inline_single hd hs hinline hnone htype harray fun h =>
      hover (.address h)

end Inlined

end Shape

/-! ## Candidates -/

namespace Resolver

/-- The draft that is specified for a shape: its default mapping; if it has none, that of the shape
with all references inlined, if they can be; else none. -/
def specifiedDraft (r : Resolver) (s : Shape) : Draft :=
  match s.defaultMapping?, s.inline r.definitions with
  | some mapping, _ => mapping.toDraft
  | none, .ok inlined => (inlined.defaultMapping?.map DefaultMapping.toDraft).getD ∅
  | none, .error _ => ∅

/-- The draft of a candidate is the one that is specified, but for the shapes that are overlooked:
if there is no bare reference within these, their candidates have none. -/
theorem draft_candidate_of_references {r : Resolver} (hr : r.definitions.Distinct) {s : Shape}
    (hs : s.Obtained) :
    (s.hasBareReference = true ∨ ¬s.Overlooked → (r.candidate s).draft = r.specifiedDraft s) ∧
    (s.hasBareReference = false → s.Overlooked → (r.candidate s).draft = ∅) := by
  show (_ → (r.draftAndEffective s).1 = _) ∧ (_ → _ → (r.draftAndEffective s).1 = _)
  unfold draftAndEffective specifiedDraft
  constructor
  · intro h
    cases hmapping : s.defaultMapping? with
    | some mapping => rfl
    | none =>
      dsimp only
      split
      · cases s.inline r.definitions <;> rfl
      · rename_i htyped
        have hover : ¬s.Overlooked := h.resolve_left htyped
        cases hinline : s.inline r.definitions with
        | error => rfl
        | ok inlined =>
          have hnone := Shape.defaultMapping?_inline hr hs.wellFormed hinline hmapping
            (Bool.eq_false_iff.2 htyped) hover
          dsimp only
          rw [hnone]
          rfl
  · intro htyped hover
    rw [hover.defaultMapping?_eq_none, htyped]
    rfl

/-- The URI of the definition of a list of texts. -/
def tagsUri : String := "json-schema-definitions://acme/tags"

/-- The definition. -/
def tagsBody : Json :=
  .object [("type", .string "array"), ("items", .object [("type", .string "string")])]

/-- A reference to the definition. -/
def tagsReference : Json := .object [("$ref", .string tagsUri)]

/-- A list that leaves its items to the definition. -/
def unlistedTags : Json := .object [("type", .string "array"), ("$ref", .string tagsUri)]

theorem draft_candidate_of_references_tags :
    ∃ d, Definitions.builtins.register tagsUri tagsBody = .ok d ∧
      (∃ s, Shape.ofJson tagsReference = .ok s ∧ s.hasBareReference = true ∧
        ((unaltered d).candidate s).draft = (unaltered d).specifiedDraft s ∧
        ((unaltered d).specifiedDraft s).widget = some "string_textfield") ∧
      ∃ s, Shape.ofJson unlistedTags = .ok s ∧ s.hasBareReference = false ∧ s.Overlooked ∧
        ((unaltered d).candidate s).draft = ∅ := by
  have hbody : tagsBody.Distinct := by
    simp [tagsBody, Json.Distinct, Json.DistinctMembers, Entries.names]
  have hreference : tagsReference.Distinct := by
    simp [tagsReference, Json.Distinct, Json.DistinctMembers, Entries.names]
  have hunlisted : unlistedTags.Distinct := by
    simp [unlistedTags, Json.Distinct, Json.DistinctMembers, Entries.names]
  have hregister : Definitions.builtins.register tagsUri tagsBody
      = .ok ⟨Definitions.builtins.bodies.insert tagsUri tagsBody⟩ := rfl
  have hdefinitions := Definitions.distinct_builtins.register hbody hregister
  refine ⟨_, hregister, ⟨_, rfl, rfl, ?_, rfl⟩, _, rfl, rfl, .list rfl rfl rfl, ?_⟩
  · exact (draft_candidate_of_references (r := unaltered _) hdefinitions (.read hreference rfl)).1
      (.inl rfl)
  · exact (draft_candidate_of_references (r := unaltered _) hdefinitions
      (.read hunlisted rfl)).2 rfl (.list rfl rfl rfl)

theorem draft_candidate_unlistedTags :
    ∃ d s, Definitions.builtins.register tagsUri tagsBody = .ok d ∧
      Shape.ofJson unlistedTags = .ok s ∧ ((unaltered d).candidate s).draft = ∅ ∧
      (unaltered d).specifiedDraft s =
        ⟨some (.fieldType ⟨⟨"string", by decide⟩, ⟨"value", by decide⟩⟩),
          some "string_textfield", some .unlimited, none, none⟩ :=
  ⟨_, _, rfl, rfl, rfl, rfl⟩

end Resolver

end PropStorage
