import PropStorage.Proofs.Shape.Layering

/-!
# Shapes that can be inlined

A shape is inlined in two steps: first the shapes within it, then the shape itself if it is a
reference (`Shape.inline_eq`). The first step changes nothing of what the second depends on
(`Shape.liesOver_iff_of_inlineParts`). So a shape can be inlined just if all references within it
are registered and each shape that is a reference lies over its definition, and otherwise the error
comes from one of these places (`Shape.Obtained.inline_outcome`).
-/

namespace PropStorage.Shape

/-! ## Inlining in two steps -/

/-- The shape with the shapes within it inlined, but not the shape itself. -/
def inlineParts (d : Definitions) : Shape → Except ShapeError Shape
  | bare uri keywords => .ok (bare uri keywords)
  | typed type reference format properties items keywords => do
    let properties ← inlineProperties d properties
    let items ← inlineItems d items
    .ok (typed type reference format properties items keywords)

/-- The shape inlined, where the shapes within it are. -/
def inlineSelf (d : Definitions) (s : Shape) : Except ShapeError Shape :=
  match s.reference? with
  | none => .ok s
  | some uri => inlineReference d uri s

variable {d : Definitions} {s t : Shape}

/-- A shape is inlined in two steps. -/
theorem inline_eq (d : Definitions) (s : Shape) :
    s.inline d = s.inlineParts d >>= inlineSelf d := by
  cases s with
  | bare uri keywords => rw [inline]; rfl
  | typed type reference format properties items keywords =>
    rw [inline, inlineParts]
    cases inlineProperties d properties with
    | error e => rfl
    | ok ps =>
      cases inlineItems d items with
      | error e => rfl
      | ok i => cases reference <;> rfl

theorem inlineParts_typed_eq_ok {type : SchemaType} {reference format : Option String}
    {properties : Option (Entries Shape)} {items : Option Shape} {keywords : SortedMap Json}
    (h : (typed type reference format properties items keywords).inlineParts d = .ok t) :
    ∃ ps i, inlineProperties d properties = .ok ps ∧ inlineItems d items = .ok i ∧
      t = typed type reference format ps i keywords := by
  obtain ⟨ps, hps, h⟩ := Except.bind_eq_ok_iff.1 h
  obtain ⟨i, hi, h⟩ := Except.bind_eq_ok_iff.1 h
  exact ⟨ps, i, hps, hi, (Except.ok.inj h).symm⟩

theorem reference?_inlineParts (h : s.inlineParts d = .ok t) : t.reference? = s.reference? := by
  cases s with
  | bare => obtain rfl := Except.ok.inj h; rfl
  | typed => obtain ⟨_, _, -, -, rfl⟩ := inlineParts_typed_eq_ok h; rfl

/-- Each part is what a part of the shape is inlined to. -/
theorem exists_part_of_inlineParts (h : s.inlineParts d = .ok t) {q : Shape} (hq : q ∈ t.parts) :
    ∃ p ∈ s.parts, p.inline d = .ok q := by
  cases s with
  | bare =>
    obtain rfl := Except.ok.inj h
    exact absurd hq List.not_mem_nil
  | typed =>
    obtain ⟨_, _, hps, hi, rfl⟩ := inlineParts_typed_eq_ok h
    exact exists_inline_of_mem_parts hps hi hq

/-- Each part of the shape is inlined. -/
theorem exists_inlined_of_inlineParts (h : s.inlineParts d = .ok t) {p : Shape}
    (hp : p ∈ s.parts) : ∃ q ∈ t.parts, p.inline d = .ok q := by
  cases s with
  | bare => exact absurd hp List.not_mem_nil
  | typed =>
    obtain ⟨ps, i, hps, hi, rfl⟩ := inlineParts_typed_eq_ok h
    rcases mem_parts_typed hp with ⟨as, rfl, a, ha, rfl⟩ | rfl
    · obtain ⟨qs, hlist, rfl⟩ := Except.map_eq_ok_iff.1 hps
      obtain ⟨q, hq, -, hinline⟩ :=
        Entries.exists_of_forall₂ (inlineList_eq_ok_iff.1 hlist).flip ha
      exact ⟨q.2, mem_parts_property hq, hinline⟩
    · obtain ⟨q, hinline, rfl⟩ := Except.map_eq_ok_iff.1 hi
      exact ⟨q, mem_parts_items, hinline⟩

/-- The first step fails as the inlining of one of the parts does. -/
theorem inlineParts_eq_error {e : ShapeError} (h : s.inlineParts d = .error e) :
    ∃ p ∈ s.parts, p.inline d = .error e := by
  cases s with
  | bare => cases h
  | typed type reference format properties items keywords =>
    rcases Except.bind_eq_error_iff.1 h with h | ⟨_, -, h⟩
    · cases properties with
      | none => cases h
      | some ps =>
        rw [inlineProperties, Except.map_eq_error_iff, inlineList_eq_traverse] at h
        obtain ⟨p, hp, h⟩ := Entries.exists_of_traverse_eq_error h
        exact ⟨p.2, mem_parts_property hp, h⟩
    · rcases Except.bind_eq_error_iff.1 h with h | ⟨_, -, h⟩
      · cases items with
        | none => cases h
        | some item => exact ⟨item, mem_parts_items, Except.map_eq_error_iff.1 h⟩
      · cases h

/-! ## What the first step keeps -/

theorem names_inlineProperties {properties ps : Option (Entries Shape)}
    (h : inlineProperties d properties = .ok ps) :
    ps.map Entries.names = properties.map Entries.names := by
  cases properties with
  | none => obtain rfl := Except.ok.inj h; rfl
  | some as =>
    obtain ⟨qs, hlist, rfl⟩ := Except.map_eq_ok_iff.1 h
    have hnames := Entries.names_eq_of_forall₂ (inlineList_eq_ok_iff.1 hlist) fun _ _ h => h.1
    exact congrArg some hnames

theorem isSome_inlineItems {items i : Option Shape} (h : inlineItems d items = .ok i) :
    i.isSome = items.isSome := by
  cases items with
  | none => obtain rfl := Except.ok.inj h; rfl
  | some item => obtain ⟨_, -, rfl⟩ := Except.map_eq_ok_iff.1 h; rfl

theorem declaredNames_toMembers {type : SchemaType} {reference format : Option String}
    {properties : Option (Entries Shape)} {items : Option Shape} {keywords : SortedMap Json}
    (h : (typed type reference format properties items keywords).WellFormed) :
    declaredNames (typed type reference format properties items keywords).toMembers
      = (properties.map Entries.names).getD [] := by
  have hfind := (find?_toMembers_properties h).trans (propertiesToJson_eq properties)
  cases properties with
  | none => exact declaredNames_of_none hfind
  | some ps =>
    rw [declaredNames, hfind]
    simp [Json.members, Entries.names_mapValues]

section WellFormed

variable (hs : s.Everywhere WellFormed) (h : s.inlineParts d = .ok t)
include hs h

/-- The members of a shape keep their names when the shapes within it are inlined. -/
theorem find?_toMembers_eq_none_iff (name : String) :
    Entries.find? t.toMembers name = none ↔ Entries.find? s.toMembers name = none := by
  cases s with
  | bare => obtain rfl := Except.ok.inj h; rfl
  | typed type reference format properties items keywords =>
    obtain ⟨ps, i, hps, hi, rfl⟩ := inlineParts_typed_eq_ok h
    by_cases hname : name = "type"
    · subst hname
      rw [find?_toMembers_type, find?_toMembers_type]
    · have hproperties := congrArg Option.isSome (names_inlineProperties hps)
      have hitems := isSome_inlineItems hi
      rw [Option.isSome_map, Option.isSome_map] at hproperties
      rw [find?_toMembers_rest hname, find?_toMembers_rest hname, find?_restMembers,
        find?_restMembers, propertiesToJson_eq, propertiesToJson_eq, itemsToJson_eq, itemsToJson_eq]
      split_ifs
      · cases i <;> cases items <;> simp_all
      · cases ps <;> cases properties <;> simp_all
      all_goals rfl

variable (hd : d.Distinct)
include hd

theorem wellFormed_inlineParts : t.Everywhere WellFormed := by
  cases s with
  | bare => obtain rfl := Except.ok.inj h; exact hs
  | typed =>
    obtain ⟨_, _, hps, hi, rfl⟩ := inlineParts_typed_eq_ok h
    exact wellFormed_typed_of_inlined hs.here
      (fun s hmem _ => wellFormed_inline hd (hs.within hmem)) hps hi

/-- Whether a shape lies over a definition does not depend on what the shapes within it are
references to. -/
theorem liesOver_iff_of_inlineParts (below : Entries Json) :
    t.LiesOver below ↔ s.LiesOver below := by
  have ht := wellFormed_inlineParts hs h hd
  have hnone := find?_toMembers_eq_none_iff hs h
  cases s with
  | bare => obtain rfl := Except.ok.inj h; rfl
  | typed type reference format properties items keywords =>
    obtain ⟨ps, i, hps, hi, rfl⟩ := inlineParts_typed_eq_ok h
    have hnames : declaredNames (typed type reference format ps i keywords).toMembers
        = declaredNames (typed type reference format properties items keywords).toMembers := by
      rw [declaredNames_toMembers ht.here, declaredNames_toMembers hs.here,
        names_inlineProperties hps]
    refine or_congr_right (and_congr ?_ ⟨?_, ?_⟩)
    · exact iff_of_true (hasParts_toMembers ht rfl) (hasParts_toMembers hs rfl)
    · exact Fills.congr (fun name => (hnone name).symm) hnames.symm
    · exact Fills.congr hnone hnames

end WellFormed

/-! ## Outcomes -/

/-- Whether a shape that is a reference to a registered definition lies over it. -/
def LiesOverDefinition (d : Definitions) (s : Shape) : Prop :=
  ∀ uri ∈ s.reference?, ∀ body ∈ d.find? uri, s.LiesOver body.members

section Outcome

variable (hd : d.Registered)
include hd

theorem exists_ofJson_overlayMembers_iff {uri : String} {body : Json} (hs : s.Everywhere WellFormed)
    (hreference : s.reference? = some uri) (hbody : d.find? uri = some body) :
    (∃ t, ofJson (.object (overlayMembers body.members s.toMembers)) = .ok t) ↔
      s.LiesOver body.members := by
  obtain ⟨members, rfl⟩ := (hd.describesShape hbody).eq_object
  exact exists_ofJsonAt_iff.trans (describesShape_overlayMembers_iff (hd.distinct.find? hbody)
    (hd.describesShape hbody) hs hreference)

/-- A shape that is inlined is not a reference, or it is one to a registered definition and lies
over it. -/
theorem registered_of_inlineSelf (hs : s.Everywhere WellFormed) (h : inlineSelf d s = .ok t) :
    (∀ uri ∈ s.reference?, d.contains uri) ∧ s.LiesOverDefinition d := by
  have hfound : ∀ uri ∈ s.reference?, ∃ body, d.find? uri = some body ∧
      s.LiesOver body.members := by
    intro uri huri
    rw [inlineSelf, huri] at h
    dsimp only at h
    rw [inlineReference] at h
    split at h
    · cases h
    · rename_i body hbody
      exact ⟨body, hbody, (exists_ofJson_overlayMembers_iff hd hs huri hbody).1 ⟨t, h⟩⟩
  constructor
  · intro uri huri
    obtain ⟨body, hbody, -⟩ := hfound uri huri
    exact Option.isSome_of_mem hbody
  · intro uri huri body hbody
    obtain ⟨body', hbody', hlies⟩ := hfound uri huri
    rwa [Option.some.inj (hbody.symm.trans hbody')]

/-- The second step fails for a reference that is not registered, or because the shape does not lie
over its definition. -/
theorem inlineSelf_eq_error (hs : s.Everywhere WellFormed) {e : ShapeError}
    (h : inlineSelf d s = .error e) :
    (∃ uri, e = .unknownReference uri ∧ d.contains uri = false ∧ s.reference? = some uri) ∨
      (∃ v, ofJson v = .error e) ∧ ¬s.LiesOverDefinition d := by
  rw [inlineSelf] at h
  split at h
  · cases h
  · rename_i uri huri
    rw [inlineReference] at h
    split at h
    · rename_i hnone
      refine .inl ⟨uri, (Except.error.inj h).symm, ?_, huri⟩
      exact Option.isSome_eq_false_iff.2 (Option.isNone_iff_eq_none.2 hnone)
    · rename_i body hbody
      refine .inr ⟨⟨_, h⟩, fun hlies => ?_⟩
      obtain ⟨t, ht⟩ :=
        (exists_ofJson_overlayMembers_iff hd hs huri hbody).2 (hlies uri huri body hbody)
      cases h.symm.trans ht

theorem everywhere_of_inline (hs : s.Everywhere WellFormed) (h : s.inline d = .ok t) :
    s.Everywhere fun n => (∀ uri ∈ n.reference?, d.contains uri) ∧ n.LiesOverDefinition d := by
  induction s using parts_induction generalizing t with
  | h s ih =>
    rw [inline_eq] at h
    obtain ⟨u, hparts, hself⟩ := Except.bind_eq_ok_iff.1 h
    refine .intro ?_ fun p hp => ?_
    · have hu := registered_of_inlineSelf hd (wellFormed_inlineParts hs hparts hd.distinct) hself
      simpa only [LiesOverDefinition, reference?_inlineParts hparts,
        liesOver_iff_of_inlineParts hs hparts hd.distinct] using hu
    · obtain ⟨q, -, hq⟩ := exists_inlined_of_inlineParts hparts hp
      exact ih p hp (hs.within hp) hq

theorem somewhere_of_inline_eq_error (hs : s.Everywhere WellFormed) {e : ShapeError}
    (h : s.inline d = .error e) :
    (∃ uri, e = .unknownReference uri ∧ d.contains uri = false ∧
        s.Somewhere fun n => n.reference? = some uri) ∨
      (∃ v, ofJson v = .error e) ∧ s.Somewhere fun n => ¬n.LiesOverDefinition d := by
  induction s using parts_induction with
  | h s ih =>
    rw [inline_eq] at h
    rcases Except.bind_eq_error_iff.1 h with hparts | ⟨u, hparts, hself⟩
    · obtain ⟨p, hp, hfail⟩ := inlineParts_eq_error hparts
      obtain ⟨uri, he, hunknown, hat⟩ | ⟨hread, hat⟩ := ih p hp (hs.within hp) hfail
      · exact .inl ⟨uri, he, hunknown, .within hp hat⟩
      · exact .inr ⟨hread, .within hp hat⟩
    · have hu := inlineSelf_eq_error hd (wellFormed_inlineParts hs hparts hd.distinct) hself
      rw [reference?_inlineParts hparts] at hu
      obtain ⟨uri, he, hunknown, hat⟩ | ⟨hread, hat⟩ := hu
      · exact .inl ⟨uri, he, hunknown, .here hat⟩
      · refine .inr ⟨hread, .here ?_⟩
        simpa only [LiesOverDefinition, reference?_inlineParts hparts,
          liesOver_iff_of_inlineParts hs hparts hd.distinct] using hat

/-- A shape can be inlined just if all references within it are registered and each lies over its
definition. Otherwise the error names a reference that is not registered, or it is one of reading a
value, and some reference does not lie over its definition. -/
theorem Obtained.inline_outcome (hs : s.Obtained) :
    ((∃ t, s.inline d = .ok t) ↔
      (s.Everywhere fun n => ∀ uri ∈ n.reference?, d.contains uri) ∧
        s.Everywhere fun n => n.LiesOverDefinition d) ∧
    ∀ e, s.inline d = .error e →
      (∃ uri, e = .unknownReference uri ∧ d.contains uri = false ∧
          s.Somewhere fun n => n.reference? = some uri) ∨
        (∃ v, ofJson v = .error e) ∧ s.Somewhere fun n => ¬n.LiesOverDefinition d := by
  have herror : ∀ e, s.inline d = .error e → _ := fun e =>
    somewhere_of_inline_eq_error hd hs.wellFormed
  refine ⟨⟨?_, ?_⟩, herror⟩
  · rintro ⟨t, ht⟩
    have h := everywhere_of_inline hd hs.wellFormed ht
    exact ⟨h.imp fun _ => And.left, h.imp fun _ => And.right⟩
  · rintro ⟨hregistered, hlies⟩
    cases h : s.inline d with
    | ok t => exact ⟨t, rfl⟩
    | error e =>
      -- each place that an error can come from is excluded
      obtain ⟨uri, -, hunknown, hat⟩ | ⟨-, hat⟩ := herror e h
      · obtain ⟨n, hknown, huri⟩ := hat.exists_and hregistered
        rw [hknown uri huri] at hunknown
        cases hunknown
      · obtain ⟨n, hn, hnot⟩ := hat.exists_and hlies
        exact absurd hn hnot

end Outcome

/-- A list of images with captions. -/
def captionedImages : Json := .object [("type", .string "array"), ("items", .object [
  ("$ref", .string imageUri),
  ("properties", .object [("caption", .object [("type", .string "string")])])])]

theorem Obtained.inline_outcome_captionedImages :
    ∃ s, ofJson captionedImages = .ok s ∧ (∃ t, s.inline .builtins = .ok t) ∧
      s.Everywhere fun n => n.LiesOverDefinition .builtins := by
  have hraw : captionedImages.Distinct := by
    simp [captionedImages, Json.Distinct, Json.DistinctMembers, Entries.names]
  refine ⟨_, rfl, ⟨_, rfl⟩, ?_⟩
  exact ((Obtained.inline_outcome .builtins (.read hraw rfl)).1.1 ⟨_, rfl⟩).2

/-- An image whose format is a number, and a reference that is not registered. -/
def numberedImage : Json := .object [("type", .string "object"), ("properties", .object [
  ("a", .object [("$ref", .string imageUri), ("format", .natural 5)]),
  ("b", .object [("$ref", .string "json-schema-definitions://acme/missing")])])]

/-- The error need not name a reference that is not registered, even where there is one. -/
theorem Obtained.inline_ne_unknownReference :
    ∃ s e, ofJson numberedImage = .ok s ∧ s.inline .builtins = .error e ∧
      e = .notAString "#" "format" (.natural 5) ∧ ∀ uri, e ≠ .unknownReference uri :=
  ⟨_, _, rfl, rfl, rfl, nofun⟩

end PropStorage.Shape
