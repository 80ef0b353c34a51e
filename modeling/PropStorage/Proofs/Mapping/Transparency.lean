import PropStorage.Proofs.Mapping.Presentation
import PropStorage.Proofs.Shape.Pending

/-!
# Transparent references

A reference without other keywords is inlined to its definition, which then only remembers its URI
(`Shape.inline_bare`). The URI matters to the default mapping of objects, where it is that of a
builtin definition (`Shape.defaultMapping?_withReference`), and to matchers that ask for a reference
(`Shape.accepts_withReference`); no rule that a mapping has to keep depends on it. So for all other
definitions that refer to nothing themselves, and overrides that do not ask for references, such a
reference is stored like the definition written out (`Resolver.settings_reference`).
-/

namespace PropStorage

namespace Shape

/-! ## Shapes that remember a reference -/

/-- The shape with another reference. -/
def withReference (uri : String) : Shape → Shape
  | bare _ keywords => bare uri keywords
  | typed type _ format properties items keywords =>
    typed type (some uri) format properties items keywords

variable (uri : String)

@[simp] theorem type?_withReference (s : Shape) : (s.withReference uri).type? = s.type? := by
  cases s <;> rfl

@[simp] theorem format?_withReference (s : Shape) : (s.withReference uri).format? = s.format? := by
  cases s <;> rfl

@[simp] theorem properties?_withReference (s : Shape) :
    (s.withReference uri).properties? = s.properties? := by
  cases s <;> rfl

@[simp] theorem items?_withReference (s : Shape) : (s.withReference uri).items? = s.items? := by
  cases s <;> rfl

@[simp] theorem contentMediaType?_withReference (s : Shape) :
    (s.withReference uri).contentMediaType? = s.contentMediaType? := by
  cases s <;> rfl

@[simp] theorem reference?_withReference (s : Shape) :
    (s.withReference uri).reference? = some uri := by
  cases s <;> rfl

/-- A reference among the members of a shape is remembered, and changes nothing else. -/
theorem ofJsonAt_insert_reference {path : String} {members : Entries Json} {s : Shape}
    (hd : (Entries.names members).Nodup) (htype : Entries.find? members "type" ≠ none)
    (h : ofJsonAt path (.object members) = .ok s) :
    ofJsonAt path (.object (Entries.insert "$ref" (.string uri) members))
      = .ok (s.withReference uri) := by
  have hfind {name : String} (hname : name ≠ "$ref") :
      Entries.find? (Entries.insert "$ref" (.string uri) members) name
        = Entries.find? members name := by
    rw [Entries.find?_insert, if_neg hname]
  rcases ofJsonAt_object_eq_ok_iff.1 h with
    ⟨_, hnone, -, -⟩ | ⟨type, reference, format, properties, items, hreads, rfl⟩
  · exact absurd hnone htype
  · have hproperties := readProperties_eq_ok_iff.1 hreads.properties
    have hitems := readItems_eq_ok_iff.1 hreads.items
    rw [← hfind (by decide)] at hproperties hitems
    have hkeywords : normalKeywords (Entries.insert "$ref" (.string uri) members)
        = normalKeywords members := by
      refine SortedMap.ext_find? fun name => ?_
      rw [find?_normalKeywords hd, find?_normalKeywords (Entries.nodup_names_insert hd _ _)]
      by_cases hname : name = "$ref"
      · rw [hname, if_pos (by decide), if_pos (by decide)]
      · rw [hfind hname]
    refine ofJsonAt_object_eq_ok_iff.2 (.inr ⟨type, some uri, format, properties, items, ⟨?_, ?_, ?_,
      readProperties_eq_ok_iff.2 hproperties, readItems_eq_ok_iff.2 hitems⟩, ?_⟩)
    · rw [hfind (by decide)]
      exact hreads.type
    · rw [Entries.find?_insert, if_pos rfl]
      rfl
    · rw [hfind (by decide)]
      exact hreads.format
    · rw [hkeywords]
      rfl

/-- A reference without other keywords is inlined to its definition. -/
theorem inline_bare {d : Definitions} (hd : d.Distinct) {uri : String} {members : Entries Json}
    (hbody : d.find? uri = some (.object members)) (htype : Entries.find? members "type" ≠ none)
    {s : Shape} (hs : ofJson (.object members) = .ok s) :
    (bare uri ∅).inline d = .ok (s.withReference uri) := by
  have hnames := (Json.distinct_object_iff.1 (hd.find? hbody)).1
  rw [inline, inlineReference, hbody]
  show ofJson (.object (overlayMember members ("$ref", .string uri))) = _
  rw [overlayMember_of_ne (show "$ref" ≠ "properties" by decide)]
  exact ofJsonAt_insert_reference uri hnames htype hs

/-! ## What a remembered reference changes -/

/-- The default mapping depends on a reference only if it is one to a builtin definition. -/
theorem defaultMapping?_withReference {s : Shape} (himage : uri ≠ imageUri)
    (hrange : uri ≠ dateRangeUri) (hnone : s.reference? = none) :
    (s.withReference uri).defaultMapping? = s.defaultMapping? := by
  cases s with
  | bare => cases hnone
  | typed type reference format properties items keywords =>
    obtain rfl : reference = none := hnone
    rw [defaultMapping?_eq, defaultMapping?_eq]
    cases type with
    | object =>
      show (if uri = imageUri then _ else if uri = dateRangeUri then _ else none) = none
      rw [if_neg himage, if_neg hrange]
    | _ => rfl

/-- A matcher that does not ask for a reference accepts a shape whatever it refers to. -/
theorem accepts_withReference {m : ShapeMatcher} (hm : m.reference = none) (s : Shape) :
    m.accepts (s.withReference uri) = m.accepts s := by
  rw [ShapeMatcher.accepts, ShapeMatcher.accepts, hm, type?_withReference, format?_withReference,
    contentMediaType?_withReference]
  rfl

open Mapping in
/-- No rule that a mapping has to keep depends on the reference of the shape. -/
theorem violation?_withReference (s : Shape) (expression : Expression)
    (cardinality : Option Cardinality) :
    violation? (s.withReference uri) expression cardinality
      = violation? s expression cardinality := by
  simp [violation?, cardinalityViolation?, undeclared?, declared?, isArray]

/-- A shape that is read from members without a reference has none. -/
theorem reference?_eq_none_of_ofJsonAt {path : String} {members : Entries Json} {s : Shape}
    (hfree : Entries.find? members "$ref" = none) (h : ofJsonAt path (.object members) = .ok s) :
    s.reference? = none := by
  rcases ofJsonAt_object_eq_ok_iff.1 h with
    ⟨_, -, hreference, -⟩ | ⟨_, reference, _, _, _, hreads, rfl⟩
  · cases hfree.symm.trans hreference
  · exact Option.map_eq_none_iff.1 (hreads.reference.symm.trans hfree)

end Shape

namespace Resolver

variable {r : Resolver} {s t : Shape}

/-! ## The shape that a mapping has to fit -/

theorem effective_of_hasBareReference_eq_false (h : s.hasBareReference = false) :
    r.effective s = s := by
  rw [effective, draftAndEffective, h]
  cases s.defaultMapping? <;> rfl

theorem effective_of_inline (hnone : s.defaultMapping? = none) (hbare : s.hasBareReference = true)
    (h : s.inline r.definitions = .ok t) : r.effective s = t := by
  rw [effective, draftAndEffective, hnone, hbare, h]
  rfl

/-! ## Settings -/

/-- A reference to a definition is stored like the definition written out: both have the same
settings, none or the same error. The definition has a type, is not one of the two with a mapping of
their own and mentions no reference, and no override asks for one. -/
theorem settings_reference {d : Definitions} (hd : d.Registered) {uri : String} {body : Json}
    (hbody : d.find? uri = some body) (himage : uri ≠ imageUri) (hrange : uri ≠ dateRangeUri)
    (htype : Entries.find? body.members "type" ≠ none) (hfree : ¬body.Mentions "$ref")
    {overrides : List Override} (hov : ∀ o ∈ overrides, o.matcher.reference = none) :
    ∃ s t, Shape.ofJson (.object [("$ref", .string uri)]) = .ok s ∧ Shape.ofJson body = .ok t ∧
      (⟨d, overrides.map Override.toAlteration⟩ : Resolver).settings s
        = (⟨d, overrides.map Override.toAlteration⟩ : Resolver).settings t := by
  have hdescribes := hd.describesShape hbody
  obtain ⟨members, rfl⟩ := hdescribes.eq_object
  obtain ⟨t, ht⟩ := Shape.exists_ofJsonAt_of_describesShape hdescribes "#"
  have hreference : t.reference? = none :=
    Shape.reference?_eq_none_of_ofJsonAt
      (Entries.find?_eq_none_iff.2 fun hin => hfree (.here hin)) ht
  have hbare : t.hasBareReference = false :=
    (Shape.hasBareReference_eq_false_iff_of_ofJsonAt ht).2 (hdescribes.typedThroughout hfree)
  refine ⟨.bare uri ∅, t, rfl, ht, ?_⟩
  have hs : (⟨d, overrides.map Override.toAlteration⟩ : Resolver).effective (.bare uri ∅)
      = t.withReference uri :=
    effective_of_inline rfl rfl (Shape.inline_bare hd.distinct hbody htype ht)
  have ht : (⟨d, overrides.map Override.toAlteration⟩ : Resolver).effective t = t :=
    effective_of_hasBareReference_eq_false hbare
  refine settings_eq rfl ?_ (fun o ho => ?_) fun expression cardinality => ?_
  · have hdraft := fun s => draft_candidate ⟨d, overrides.map Override.toAlteration⟩ s
    refine (hdraft _).trans (.trans ?_ (hdraft t).symm)
    rw [hs, ht, Shape.defaultMapping?_withReference uri himage hrange hreference]
  · rw [hs, ht, Shape.accepts_withReference uri (hov o ho)]
  · rw [hs, ht, Shape.violation?_withReference]

/-- An override that edits lists as tags. -/
def tagsOverride : Override where
  name := "tags"
  matcher := ⟨some .array, none, none, none⟩
  values := ⟨none, some "tags_default", none, none, none⟩

theorem settings_reference_tags :
    ∃ d s t m, Definitions.builtins.register tagsUri tagsBody = .ok d ∧
      Shape.ofJson tagsReference = .ok s ∧ Shape.ofJson tagsBody = .ok t ∧
      (⟨d, [tagsOverride].map Override.toAlteration⟩ : Resolver).settings s = .ok (some m) ∧
      (⟨d, [tagsOverride].map Override.toAlteration⟩ : Resolver).settings t = .ok (some m) ∧
      m.widget = "tags_default" := by
  have hbody : tagsBody.Distinct := by
    simp [tagsBody, Json.Distinct, Json.DistinctMembers, Entries.names]
  have hfree : ¬tagsBody.Mentions "$ref" := by
    simp [tagsBody, Json.mentions_object_iff, Json.not_mentions_string, Entries.names]
  have hregister : Definitions.builtins.register tagsUri tagsBody
      = .ok ⟨Definitions.builtins.bodies.insert tagsUri tagsBody⟩ := rfl
  have hfind : (⟨Definitions.builtins.bodies.insert tagsUri tagsBody⟩ : Definitions).find? tagsUri
      = some tagsBody := rfl
  have hov : ∀ o ∈ [tagsOverride], o.matcher.reference = none := by
    simp [tagsOverride]
  obtain ⟨s, t, hs, ht, hsettings⟩ := settings_reference (.register .builtins hbody hregister)
    hfind (by decide) (by decide) (Option.some_ne_none _) hfree hov
  obtain rfl : Shape.bare tagsUri ∅ = s := Except.ok.inj hs
  exact ⟨_, _, t, _, hregister, hs, ht, rfl, hsettings.symm, rfl⟩

end Resolver

end PropStorage
