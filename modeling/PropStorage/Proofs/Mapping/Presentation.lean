import PropStorage.Component.Settings
import PropStorage.Mapping.Override
import PropStorage.Proofs.Mapping.Fallback
import PropStorage.Proofs.Shape.Presentation

/-!
# Presentation and storage

Shapes that are stored alike have one default mapping (`Shape.StoredAlike.defaultMapping?_eq`), are
accepted by the same matchers, and no mapping breaks a rule for only one of them
(`Shape.StoredAlike.violation?_eq`). So whatever the definitions and the overrides are, they resolve
to the same settings, to none or to the same error (`Resolver.settings_eq_of_storedAlike`). With
that, how a shape is presented has no effect on storage (`Resolver.settings_eq_of_rewritten`).
-/

namespace PropStorage

namespace Shape

/-! ## What rules and matchers see -/

section Parts

variable {s t : Shape}

theorem StoredAlike.type?_eq (h : s.StoredAlike t) : s.type? = t.type? := by cases h <;> rfl

theorem StoredAlike.reference?_eq (h : s.StoredAlike t) : s.reference? = t.reference? := by
  cases h <;> rfl

theorem StoredAlike.format?_eq (h : s.StoredAlike t) : s.format? = t.format? := by cases h <;> rfl

theorem StoredAlike.properties?_rel (h : s.StoredAlike t) :
    Option.Rel (fun ps qs => (Entries.names ps).Perm (Entries.names qs)) s.properties?
      t.properties? := by
  cases h with
  | bare => exact .none
  | typed _ names => exact names

theorem StoredAlike.items?_rel (h : s.StoredAlike t) :
    Option.Rel StoredAlike s.items? t.items? := by
  cases h with
  | bare => exact .none
  | @typed _ _ _ _ _ items items' _ _ _ _ isSome_items _ item =>
    show Option.Rel StoredAlike items items'
    cases items <;> cases items' <;> cases isSome_items
    · exact .none
    · exact .some (item _ rfl _ rfl)

theorem StoredAlike.contentMediaType?_eq (h : s.StoredAlike t) :
    s.contentMediaType? = t.contentMediaType? := by
  cases h with
  | @bare uri keywords keywords' h =>
    have hmedia : Option.Rel Json.Reordered (keywords.find? "contentMediaType")
        (keywords'.find? "contentMediaType") := by
      cases h with
      | other hv => exact absurd rfl (hv _)
      | node keyword =>
        have hname := keyword "contentMediaType" (by decide)
        rwa [find?_toMembers_bare, find?_toMembers_bare] at hname
    exact bind_eq_of_rel hmedia Json.Reordered.string?_eq
  | typed keyword =>
    exact congrArg (Option.bind · Json.string?) (keyword "contentMediaType" (by decide))

/-- Matchers accept shapes that are stored alike. -/
theorem StoredAlike.accepts_eq (h : s.StoredAlike t) (m : ShapeMatcher) :
    m.accepts s = m.accepts t := by
  rw [ShapeMatcher.accepts, ShapeMatcher.accepts, h.type?_eq, h.format?_eq, h.reference?_eq,
    h.contentMediaType?_eq]

end Parts

/-! ## Bare references -/

theorem StoredAlike.hasBareReference_of {s t : Shape} (h : s.StoredAlike t)
    (hs : s.Everywhere WellFormed) (ht : t.Everywhere WellFormed)
    (hbare : s.hasBareReference = true) : t.hasBareReference = true := by
  induction h with
  | bare => rfl
  | @typed type reference format properties properties' items items' _ _ _ names isSome_items _ _
      ihproperty ihitem =>
    obtain ⟨hps, his⟩ := forall_parts_typed.1 fun s hmem => hs.within hmem
    obtain ⟨hqs, hjs⟩ := forall_parts_typed.1 fun t hmem => ht.within hmem
    rw [hasBareReference, Bool.or_eq_true] at hbare ⊢
    refine hbare.imp (fun hproperties => ?_) fun hitem => ?_
    · cases names with
      | none => exact hproperties
      | @some ps qs names =>
        rw [hasBareReferenceInProperties, hasBareReferenceInList_iff] at hproperties ⊢
        obtain ⟨⟨name, a⟩, ha, hbare⟩ := hproperties
        obtain ⟨⟨_, b⟩, hb, rfl⟩ := List.mem_map.1 (names.mem_iff.1 (List.mem_map_of_mem ha))
        exact ⟨_, hb, ihproperty ps rfl qs rfl _ a b (Entries.find?_of_mem (hs.here.2 ps rfl) ha)
          (Entries.find?_of_mem (ht.here.2 qs rfl) hb) (hps ps rfl _ ha) (hqs qs rfl _ hb) hbare⟩
    · cases items <;> cases items' <;> cases isSome_items
      · exact hitem
      · exact ihitem _ rfl _ rfl (his _ rfl) (hjs _ rfl) hitem

theorem StoredAlike.hasBareReference_eq {s t : Shape} (h : s.StoredAlike t)
    (hs : s.Everywhere WellFormed) (ht : t.Everywhere WellFormed) :
    s.hasBareReference = t.hasBareReference :=
  Bool.eq_iff_iff.2 ⟨h.hasBareReference_of hs ht, h.symm.hasBareReference_of ht hs⟩

/-! ## Default mappings -/

/-- Shapes that are stored alike have one default mapping. -/
theorem StoredAlike.defaultMapping?_eq {s t : Shape} (h : s.StoredAlike t) :
    s.defaultMapping? = t.defaultMapping? := by
  induction h with
  | bare => rfl
  | @typed type reference format properties properties' items items' keywords keywords' keyword
      names isSome_items property item _ ihitem =>
    have halike : Shape.Alike (Shape.typed type reference format properties' items' keywords')
        (Shape.typed type reference format properties items keywords) := ⟨rfl, rfl, rfl, keyword⟩
    by_cases harray : type = .array
    · subst harray
      have hitems : itemMapping? items = itemMapping? items' := by
        cases items <;> cases items' <;> cases isSome_items
        · rfl
        · exact ihitem _ rfl _ rfl
      rw [defaultMapping?, defaultMapping?, hitems, arrayCardinality?, arrayCardinality?,
        halike.keyword? "maxItems" (by decide)]
    · exact defaultMapping?_eq_of_alike halike fun h => harray (Option.some.inj h)

/-! ## Rules -/

open Mapping in
/-- A mapping breaks the same rule for shapes that are stored alike. -/
theorem StoredAlike.violation?_eq {s t : Shape} (h : s.StoredAlike t) (expression : Expression)
    (cardinality : Option Cardinality) :
    violation? s expression cardinality = violation? t expression cardinality := by
  have harray : s.isArray = t.isArray := by rw [isArray, isArray, h.type?_eq]
  have hdeclared : Option.Rel (fun ps qs => (Entries.names ps).Perm (Entries.names qs))
      (declared? s) (declared? t) := by
    rw [declared?, declared?, harray]
    split
    · rcases rel_cases h.items?_rel with ⟨hs, ht⟩ | ⟨i, j, hs, ht, hij⟩ <;> rw [hs, ht]
      · exact .none
      · exact hij.properties?_rel
    · exact h.properties?_rel
  have hundeclared : undeclared? s expression = undeclared? t expression := by
    unfold undeclared?
    cases expression with
    | object o =>
      rcases rel_cases hdeclared with ⟨hs, ht⟩ | ⟨ps, qs, hs, ht, hnames⟩ <;> rw [hs, ht]
      simp only [List.contains_eq_mem, hnames.mem_iff]
    | _ => rfl
  have hcardinality :
      cardinalityViolation? s cardinality = cardinalityViolation? t cardinality := by
    unfold cardinalityViolation?
    rw [harray, h.type?_eq]
  rw [violation?, violation?, hundeclared, hcardinality]

end Shape

/-! ## Settings -/

/-- The settings of a storable shape that is put together from its parts. -/
theorem StorableShape.map_ofStorable_build (shape effective : Shape) (expression : Expression)
    (widget : String) (cardinality : Option Cardinality)
    (storageSettings instanceSettings : Option FieldSettings) :
    (build shape effective expression widget cardinality storageSettings instanceSettings).map
        PropSettings.ofStorable
      = match Mapping.violation? effective expression cardinality with
        | none => .ok ⟨expression.print, widget, cardinality, storageSettings, instanceSettings⟩
        | some error => .error error := by
  unfold build
  split
  · rename_i h
    simp only [h]; rfl
  · rename_i h
    simp only [h]; rfl

/-- The settings of candidates with one draft, for shapes for which mappings break the same
rules. -/
theorem Candidate.settings_finish_eq {c c' : Candidate} (hdraft : c.draft = c'.draft)
    (hrule : ∀ expression cardinality, Mapping.violation? c.effective expression cardinality
      = Mapping.violation? c'.effective expression cardinality) :
    c.finish.map (Option.map PropSettings.ofStorable)
      = c'.finish.map (Option.map PropSettings.ofStorable) := by
  have hmap {α β : Type} (f : α → β) (result : Except InvariantError α) :
      (some <$> result).map (Option.map f) = (result.map f).map some := by
    cases result <;> rfl
  unfold finish
  rw [hdraft]
  split
  · rfl
  · rfl
  · rfl
  · rw [hmap, hmap, StorableShape.map_ofStorable_build, StorableShape.map_ofStorable_build,
      hrule]

namespace Resolver

/-- How a shape is stored, as far as it is kept with a component. -/
def settings (r : Resolver) (s : Shape) : Except InvariantError (Option PropSettings) :=
  (r.resolve s).map (Option.map .ofStorable)

/-- Overrides see of the effective shape only whether they accept it. -/
theorem draft_applyAll_eq {overrides : List Override} {c c' : Candidate}
    (hdraft : c.draft = c'.draft)
    (haccepts : ∀ o ∈ overrides, o.matcher.accepts c.effective = o.matcher.accepts c'.effective) :
    (Alteration.applyAll (overrides.map Override.toAlteration) c).draft
      = (Alteration.applyAll (overrides.map Override.toAlteration) c').draft := by
  induction overrides generalizing c c' with
  | nil => exact hdraft
  | cons o overrides ih =>
    have hstep : o.alter c = o.alter c' := by
      rw [Override.alter, Override.alter, haccepts o List.mem_cons_self, hdraft]
    exact ih hstep fun o ho => haccepts o (List.mem_cons_of_mem _ ho)

/-- Shapes with one draft have the same settings if their effective shapes are accepted by the same
overrides and mappings break the same rules for them. -/
theorem settings_eq {r : Resolver} {overrides : List Override}
    (hr : r.alterations = overrides.map Override.toAlteration) {s t : Shape}
    (hdraft : (r.draftAndEffective s).1 = (r.draftAndEffective t).1)
    (haccepts : ∀ o ∈ overrides,
      o.matcher.accepts (r.effective s) = o.matcher.accepts (r.effective t))
    (hrule : ∀ expression cardinality,
      Mapping.violation? (r.effective s) expression cardinality
        = Mapping.violation? (r.effective t) expression cardinality) :
    r.settings s = r.settings t := by
  unfold settings resolve altered
  rw [hr]
  refine Candidate.settings_finish_eq (draft_applyAll_eq hdraft haccepts) ?_
  rw [(Alteration.applyAll_shape _ _).2, (Alteration.applyAll_shape _ _).2]
  exact hrule

section StoredAlike

variable {r : Resolver} (hr : r.definitions.Distinct) {s t : Shape} (h : s.StoredAlike t)
  (hs : s.Everywhere Shape.WellFormed) (ht : t.Everywhere Shape.WellFormed)
include hr h hs ht

/-- Shapes that are stored alike have one draft, and their effective shapes are stored alike. -/
theorem draftAndEffective_of_storedAlike :
    (r.draftAndEffective s).1 = (r.draftAndEffective t).1 ∧
      (r.draftAndEffective s).2.StoredAlike (r.draftAndEffective t).2 := by
  unfold draftAndEffective
  rw [h.defaultMapping?_eq, h.hasBareReference_eq hs ht]
  cases t.defaultMapping? with
  | some mapping => exact ⟨rfl, h⟩
  | none =>
    dsimp only
    split
    · cases hinline : s.inline r.definitions with
      | ok s' =>
        obtain ⟨t', ht', halike⟩ := h.inline hr hs ht s' hinline
        rw [ht']
        refine ⟨?_, halike⟩
        dsimp only
        rw [halike.defaultMapping?_eq]
      | error e =>
        cases hinline' : t.inline r.definitions with
        | ok t' =>
          obtain ⟨s', hs', -⟩ := h.symm.inline hr ht hs t' hinline'
          rw [hs'] at hinline
          cases hinline
        | error => exact ⟨rfl, h⟩
    · exact ⟨rfl, h⟩

end StoredAlike

/-- Shapes that are stored alike have the same settings, none or the same error, whatever the
definitions and the overrides are. -/
theorem settings_eq_of_storedAlike {d : Definitions} (hd : d.Distinct) (overrides : List Override)
    {s t : Shape} (h : s.StoredAlike t) (hs : s.Everywhere Shape.WellFormed)
    (ht : t.Everywhere Shape.WellFormed) :
    (⟨d, overrides.map Override.toAlteration⟩ : Resolver).settings s
      = (⟨d, overrides.map Override.toAlteration⟩ : Resolver).settings t := by
  obtain ⟨hdraft, heffective⟩ := draftAndEffective_of_storedAlike
    (r := ⟨d, overrides.map Override.toAlteration⟩) hd h hs ht
  exact settings_eq rfl hdraft (fun o _ => heffective.accepts_eq o.matcher) heffective.violation?_eq

/-- How a shape is presented does not affect storage: of two values that differ only in keywords
that inform people and in the order of members, both or none describe a shape, and the two shapes
have the same settings, none or the same error, whatever the definitions and the overrides are. -/
theorem settings_eq_of_rewritten {v w : Json} (hv : v.Distinct) (hw : w.Distinct)
    (h : Json.Rewritten .presentation v w) :
    ((∃ s, Shape.ofJson v = .ok s) ↔ ∃ t, Shape.ofJson w = .ok t) ∧
    ∀ s t, Shape.ofJson v = .ok s → Shape.ofJson w = .ok t →
      ∀ (d : Definitions) (overrides : List Override), d.Distinct →
        (⟨d, overrides.map Override.toAlteration⟩ : Resolver).settings s
          = (⟨d, overrides.map Override.toAlteration⟩ : Resolver).settings t := by
  have hread := Shape.storedAlike_of_rewritten h.storage hv hw
  have hread' := Shape.storedAlike_of_rewritten h.storage.storage_symm hw hv
  refine ⟨Shape.exists_ofJson_iff hread hread', fun s t hs ht d overrides hd => ?_⟩
  obtain ⟨t', ht', halike⟩ := hread "#" s hs
  obtain rfl := Except.ok.inj (ht'.symm.trans ht)
  exact settings_eq_of_storedAlike hd overrides halike (Shape.wellFormed_ofJsonAt hv hs)
    (Shape.wellFormed_ofJsonAt hw ht)

/-- A name with a list of tags, presented in full. -/
def presentedName : Json := .object [
  ("title", .string "Name"), ("type", .string "object"),
  ("properties", .object [
    ("text", .object [("type", .string "string"), ("description", .string "As it is shown")]),
    ("tags", .object [("$ref", .string tagsUri)])])]

/-- The same with its parts in another order, and without what informs people. -/
def plainName : Json := .object [
  ("properties", .object [
    ("tags", .object [("$ref", .string tagsUri)]),
    ("text", .object [("type", .string "string")])]),
  ("type", .string "object")]

/-- Where the name is stored. -/
def nameExpression : Expression.ObjectProps where
  fieldType := ⟨"label", by decide⟩
  targets := [
    (⟨"text", by decide⟩, .prop ⟨"content", by decide⟩),
    (⟨"tags", by decide⟩, .prop ⟨"tags", by decide⟩)]
  nonempty := by simp
  distinct := by decide

/-- An override that stores objects as names. -/
def nameOverride : Override where
  name := "names"
  matcher := ⟨some .object, none, none, none⟩
  values := ⟨some (.object nameExpression), some "name_default", none, none, none⟩

theorem rewritten_presentedName : Json.Rewritten .presentation presentedName plainName := by
  refine .node (fun name hname => ?_) (.some (.object (.swap _ _ _))) .none ?_ ?_
  · simp only [List.mem_cons, not_or, Latitude.presentation, Latitude.reordering,
      Shape.informational] at hname
    simp only [Entries.find?_cons, Entries.find?_nil, hname, if_false]
    exact rel_refl Json.Reordered.refl _
  · rintro ps qs hps hqs name v w hv hw
    cases hps
    cases hqs
    by_cases htext : name = "text"
    · subst htext
      cases hv
      cases hw
      refine .node (fun name hname => ?_) .none .none ?_ ?_
      · simp only [List.mem_cons, not_or, Latitude.presentation, Latitude.reordering,
          Shape.informational] at hname
        simp only [Entries.find?_cons, Entries.find?_nil, hname, if_false]
        exact rel_refl Json.Reordered.refl _
      · rintro _ _ ⟨⟩
      · rintro _ _ ⟨⟩
    · simp only [Entries.find?_cons, Entries.find?_nil, htext, if_false] at hv hw
      obtain rfl := Option.some.inj (hv.symm.trans hw)
      exact Json.rewritten_refl _ v
  · rintro _ _ ⟨⟩

theorem settings_eq_of_rewritten_name :
    ∃ d s t, Definitions.builtins.register tagsUri tagsBody = .ok d ∧
      Shape.ofJson presentedName = .ok s ∧ Shape.ofJson plainName = .ok t ∧
      (⟨d, [nameOverride].map Override.toAlteration⟩ : Resolver).settings s
        = (⟨d, [nameOverride].map Override.toAlteration⟩ : Resolver).settings t ∧
      (⟨d, [nameOverride].map Override.toAlteration⟩ : Resolver).settings s
        = .ok (some
          ⟨(Expression.object nameExpression).print, "name_default", none, none, none⟩) := by
  have hbody : tagsBody.Distinct := by
    simp [tagsBody, Json.Distinct, Json.DistinctMembers, Entries.names]
  have hpresented : presentedName.Distinct := by
    simp [presentedName, Json.Distinct, Json.DistinctMembers, Entries.names]
  have hplain : plainName.Distinct := by
    simp [plainName, Json.Distinct, Json.DistinctMembers, Entries.names]
  have hregister : Definitions.builtins.register tagsUri tagsBody
      = .ok ⟨Definitions.builtins.bodies.insert tagsUri tagsBody⟩ := rfl
  have hdefinitions := Definitions.distinct_builtins.register hbody hregister
  exact ⟨_, _, _, hregister, rfl, rfl, (settings_eq_of_rewritten hpresented hplain
    rewritten_presentedName).2 _ _ rfl rfl _ [nameOverride] hdefinitions, rfl⟩

end Resolver

end PropStorage
