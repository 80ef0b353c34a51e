import PropStorage.Proofs.Shape.Identity
import PropStorage.Proofs.Shape.Reading
import PropStorage.Shape.Inline

/-!
# Inlined shapes

Shapes come from reading values and from inlining definitions (`Obtained`). All of them are
well-formed: a definition with the members of a shape over it names no member twice
(`distinct_overlayMembers`), and what is read from it is well-formed (`wellFormed_inline`). So the
identity key tells all shapes apart that can be obtained (`Obtained.eq_of_identityKey_eq`).
-/

namespace PropStorage

/-- No object within a definition names a member twice. -/
def Definitions.Distinct (d : Definitions) : Prop := ∀ e ∈ d.bodies.entries, e.2.Distinct

namespace Definitions

theorem distinct_builtins : Definitions.Distinct builtins := by
  refine Json.forall_values_ofEntries (P := Json.Distinct) ?_
  simp [image, dateRange, typeMember, formatMember, Json.Distinct, Json.DistinctMembers,
    Json.DistinctItems, Entries.names]

theorem register_eq_ok_iff {d d' : Definitions} {uri : String} {body : Json} :
    d.register uri body = .ok d' ↔
      isDefinitionUri uri = true ∧ (∃ s, Shape.ofJson body = .ok s) ∧
        d' = ⟨d.bodies.insert uri body⟩ := by
  rw [Definitions.register]
  constructor
  · intro h
    split at h
    · rename_i huri
      obtain ⟨s, hread, h⟩ := Except.bind_eq_ok_iff.1 h
      exact ⟨huri, ⟨s, hread⟩, (Except.ok.inj h).symm⟩
    · cases h
  · rintro ⟨huri, ⟨s, hread⟩, rfl⟩
    rw [if_pos huri, hread]
    rfl

theorem Distinct.register {d d' : Definitions} (hd : d.Distinct) {uri : String} {body : Json}
    (hbody : body.Distinct) (h : d.register uri body = .ok d') : d'.Distinct := by
  obtain ⟨-, -, rfl⟩ := register_eq_ok_iff.1 h
  intro e he
  rcases Entries.mem_insertSorted he with rfl | he
  · exact hbody
  · exact hd e he

theorem Distinct.find? {d : Definitions} (hd : d.Distinct) {uri : String} {body : Json}
    (h : d.find? uri = some body) : body.Distinct := hd _ (Entries.mem_of_find? h)

end Definitions

theorem Json.distinct_members {v : Json} (h : v.Distinct) : (object v.members).Distinct := by
  cases v with
  | object members => exact h
  | _ => exact distinct_object_iff.2 ⟨List.nodup_nil, fun _ hm => absurd hm List.not_mem_nil⟩

namespace Shape

/-! ## Members over members -/

section Overlay

variable {members : Entries Json}

theorem distinct_insert (h : (Json.object members).Distinct) (name : String) {value : Json}
    (hv : value.Distinct) : (Json.object (Entries.insert name value members)).Distinct := by
  obtain ⟨hd, hvalues⟩ := Json.distinct_object_iff.1 h
  refine Json.distinct_object_iff.2 ⟨Entries.nodup_names_insert hd name value, fun m hm => ?_⟩
  rcases Entries.mem_insert hm with rfl | hm
  · exact hv
  · exact hvalues m hm

theorem distinct_overlay (h : (Json.object members).Distinct) {own : Entries Json}
    (hown : ∀ m ∈ own, m.2.Distinct) : (Json.object (overlay members own)).Distinct := by
  induction own generalizing members with
  | nil => exact h
  | cons m own ih =>
    exact ih (distinct_insert h m.1 (hown m List.mem_cons_self))
      fun m' hm' => hown m' (List.mem_cons_of_mem _ hm')

theorem distinct_overlayMember (h : (Json.object members).Distinct) {own : String × Json}
    (hown : own.2.Distinct) : (Json.object (overlayMember members own)).Distinct := by
  unfold overlayMember
  split
  · rename_i hproperties
    refine distinct_insert h _ (distinct_overlay ?_ (Json.distinct_object_iff.1 hown).2)
    exact (Json.distinct_object_iff.1 h).2 _ (Entries.mem_of_find? hproperties)
  · exact distinct_insert h _ hown

/-- Where members are put over others, no member is named twice. -/
theorem distinct_overlayMembers (h : (Json.object members).Distinct) {own : Entries Json}
    (hown : ∀ m ∈ own, m.2.Distinct) : (Json.object (overlayMembers members own)).Distinct := by
  induction own generalizing members with
  | nil => exact h
  | cons m own ih =>
    exact ih (distinct_overlayMember h (hown m List.mem_cons_self))
      fun m' hm' => hown m' (List.mem_cons_of_mem _ hm')

end Overlay

/-! ## Inlining -/

theorem inlineList_eq_traverse (d : Definitions) (properties : Entries Shape) :
    inlineList d properties = Entries.traverse (fun _ s => s.inline d) properties := by
  induction properties with
  | nil => rw [inlineList]; rfl
  | cons p properties ih =>
    obtain ⟨name, s⟩ := p
    rw [inlineList, ih]; rfl

theorem inlineList_eq_ok_iff {d : Definitions} {properties inlined : Entries Shape} :
    inlineList d properties = .ok inlined ↔
      List.Forall₂ (fun p q => q.1 = p.1 ∧ p.2.inline d = .ok q.2) properties inlined := by
  induction properties generalizing inlined with
  | nil => rw [inlineList, List.forall₂_nil_left_iff, Except.ok.injEq, eq_comm]
  | cons p properties ih =>
    obtain ⟨name, s⟩ := p
    rw [inlineList, List.forall₂_cons_left_iff]
    simp only [Except.bind_eq_ok_iff, Except.ok.injEq]
    constructor
    · rintro ⟨t, ht, rest, hrest, rfl⟩
      exact ⟨(name, t), rest, ⟨rfl, ht⟩, ih.1 hrest, rfl⟩
    · rintro ⟨⟨_, t⟩, rest, ⟨rfl, ht⟩, hrest, rfl⟩
      exact ⟨t, ht, rest, ih.2 hrest, rfl⟩

theorem inlineProperties_eq_ok {d : Definitions} {properties inlined : Option (Entries Shape)}
    (h : inlineProperties d properties = .ok inlined) {qs : Entries Shape}
    (hqs : inlined = some qs) : ∃ ps, properties = some ps ∧ inlineList d ps = .ok qs := by
  cases properties with
  | none =>
    rw [inlineProperties] at h
    cases h; cases hqs
  | some ps =>
    rw [inlineProperties] at h
    obtain ⟨qs', hlist, rfl⟩ := Except.map_eq_ok_iff.1 h
    exact ⟨ps, rfl, hlist.trans (congrArg _ (Option.some.inj hqs))⟩

theorem inlineItems_eq_ok {d : Definitions} {items inlined : Option Shape}
    (h : inlineItems d items = .ok inlined) {t : Shape} (ht : inlined = some t) :
    ∃ s, items = some s ∧ s.inline d = .ok t := by
  cases items with
  | none =>
    rw [inlineItems] at h
    cases h; cases ht
  | some s =>
    rw [inlineItems] at h
    obtain ⟨t', hs, rfl⟩ := Except.map_eq_ok_iff.1 h
    exact ⟨s, rfl, hs.trans (congrArg _ (Option.some.inj ht))⟩

/-- Inlining a typed shape: first its parts, then the reference of the shape with these parts. -/
theorem inline_typed_eq_ok {d : Definitions} {type : SchemaType} {reference format : Option String}
    {properties : Option (Entries Shape)} {items : Option Shape} {keywords : SortedMap Json}
    {t : Shape} (h : (typed type reference format properties items keywords).inline d = .ok t) :
    ∃ ps i, inlineProperties d properties = .ok ps ∧ inlineItems d items = .ok i ∧
      (reference = none ∧ t = typed type reference format ps i keywords ∨
        ∃ uri, reference = some uri ∧
          inlineReference d uri (typed type reference format ps i keywords) = .ok t) := by
  rw [inline, Except.bind_eq_ok_iff] at h
  obtain ⟨ps, hps, h⟩ := h
  obtain ⟨i, hi, h⟩ := Except.bind_eq_ok_iff.1 h
  refine ⟨ps, i, hps, hi, ?_⟩
  split at h
  · exact .inl ⟨rfl, (Except.ok.inj h).symm⟩
  · exact .inr ⟨_, rfl, h⟩

theorem inline_typed {d : Definitions} {type : SchemaType} {reference format : Option String}
    {properties ps : Option (Entries Shape)} {items i : Option Shape} {keywords : SortedMap Json}
    (hps : inlineProperties d properties = .ok ps) (hi : inlineItems d items = .ok i) :
    (typed type reference format properties items keywords).inline d
      = match reference with
        | none => .ok (typed type none format ps i keywords)
        | some uri => inlineReference d uri (typed type (some uri) format ps i keywords) := by
  rw [inline, hps, hi]
  cases reference <;> rfl

/-- The parts of a typed shape whose parts are inlined come from its own parts. -/
theorem exists_inline_of_mem_parts {d : Definitions} {type : SchemaType}
    {reference format : Option String} {properties ps : Option (Entries Shape)}
    {items i : Option Shape} {keywords : SortedMap Json}
    (hps : inlineProperties d properties = .ok ps) (hi : inlineItems d items = .ok i) {t : Shape}
    (ht : t ∈ (typed type reference format ps i keywords).parts) :
    ∃ s ∈ (typed type reference format properties items keywords).parts, s.inline d = .ok t := by
  rcases mem_parts_typed ht with ⟨qs, hqs, q, hq, rfl⟩ | hitem
  · obtain ⟨as, rfl, hlist⟩ := inlineProperties_eq_ok hps hqs
    obtain ⟨p, hp, -, hinline⟩ := Entries.exists_of_forall₂ (inlineList_eq_ok_iff.1 hlist) hq
    exact ⟨p.2, mem_parts_property hp, hinline⟩
  · obtain ⟨s, rfl, hinline⟩ := inlineItems_eq_ok hi hitem
    exact ⟨s, mem_parts_items, hinline⟩

/-- A typed shape stays well-formed when its parts are inlined. -/
theorem wellFormed_typed_of_inlined {d : Definitions} {type : SchemaType}
    {reference format : Option String} {properties ps : Option (Entries Shape)}
    {items i : Option Shape} {keywords : SortedMap Json}
    (hs : (typed type reference format properties items keywords).WellFormed)
    (ih : ∀ s ∈ (typed type reference format properties items keywords).parts, ∀ t,
      s.inline d = .ok t → t.Everywhere WellFormed)
    (hps : inlineProperties d properties = .ok ps) (hi : inlineItems d items = .ok i) :
    (typed type reference format ps i keywords).Everywhere WellFormed := by
  refine .intro ⟨hs.1, fun qs hqs => ?_⟩ fun t ht => ?_
  · obtain ⟨as, rfl, hlist⟩ := inlineProperties_eq_ok hps hqs
    rw [Entries.names_eq_of_forall₂ (inlineList_eq_ok_iff.1 hlist) fun _ _ h => h.1]
    exact hs.2 as rfl
  · obtain ⟨s, hs, hinline⟩ := exists_inline_of_mem_parts hps hi ht
    exact ih s hs t hinline

section WellFormed

variable {d : Definitions} (hd : d.Distinct)
include hd

/-- What a reference is inlined to is read from members that lie over others, none named twice. -/
theorem inlineReference_eq_ok {uri : String} {s t : Shape} (hs : s.Everywhere WellFormed)
    (h : inlineReference d uri s = .ok t) :
    ∃ members, (Json.object (overlayMembers members s.toMembers)).Distinct ∧
      ofJson (.object (overlayMembers members s.toMembers)) = .ok t := by
  rw [inlineReference] at h
  split at h
  · cases h
  · rename_i body hbody
    refine ⟨body.members, distinct_overlayMembers ?_ ?_, h⟩
    · exact Json.distinct_members (hd.find? hbody)
    · exact (Json.distinct_object_iff.1 (distinct_toJson hs)).2

theorem wellFormed_inlineReference {uri : String} {s t : Shape} (hs : s.Everywhere WellFormed)
    (h : inlineReference d uri s = .ok t) : t.Everywhere WellFormed := by
  obtain ⟨_, hv, h⟩ := inlineReference_eq_ok hd hs h
  exact wellFormed_ofJsonAt hv h

/-- A well-formed shape stays well-formed when it is inlined. -/
theorem wellFormed_inline {s : Shape} (hs : s.Everywhere WellFormed) {t : Shape}
    (h : s.inline d = .ok t) : t.Everywhere WellFormed := by
  induction s using parts_induction generalizing t with
  | h s ih =>
    cases s with
    | bare uri keywords => exact wellFormed_inlineReference hd hs h
    | typed type reference format properties items keywords =>
      obtain ⟨ps, i, hps, hi, h⟩ := inline_typed_eq_ok h
      have hparts : (typed type reference format ps i keywords).Everywhere WellFormed :=
        wellFormed_typed_of_inlined hs.here (fun s hs' _ => ih s hs' (hs.within hs')) hps hi
      rcases h with ⟨-, rfl⟩ | ⟨uri, -, h⟩
      · exact hparts
      · exact wellFormed_inlineReference hd hparts h

/-- What holds of all shapes that are read, and does not depend on the parts of a shape, is kept
when a shape is inlined. -/
theorem everywhere_inline {P : Shape → Prop}
    (hread : ∀ v s, v.Distinct → ofJson v = .ok s → s.Everywhere P)
    (hparts : ∀ type reference format ps qs i j keywords,
      P (typed type reference format ps i keywords) → P (typed type reference format qs j keywords))
    {s : Shape} (hs : s.Everywhere WellFormed) (hP : s.Everywhere P) {t : Shape}
    (h : s.inline d = .ok t) : t.Everywhere P := by
  have hreference {uri : String} {s t : Shape} (hs : s.Everywhere WellFormed)
      (h : inlineReference d uri s = .ok t) : t.Everywhere P := by
    obtain ⟨_, hv, h⟩ := inlineReference_eq_ok hd hs h
    exact hread _ t hv h
  induction s using parts_induction generalizing t with
  | h s ih =>
    cases s with
    | bare uri keywords => exact hreference hs h
    | typed type reference format properties items keywords =>
      obtain ⟨ps, i, hps, hi, h⟩ := inline_typed_eq_ok h
      rcases h with ⟨-, rfl⟩ | ⟨uri, -, h⟩
      · refine .intro (hparts _ _ _ _ _ _ _ _ hP.here) fun t ht => ?_
        obtain ⟨s, hmem, hinline⟩ := exists_inline_of_mem_parts hps hi ht
        exact ih s hmem (hs.within hmem) (hP.within hmem) hinline
      · exact hreference (wellFormed_typed_of_inlined hs.here
          (fun s hmem _ => wellFormed_inline hd (hs.within hmem)) hps hi) h

end WellFormed

/-! ## Shapes that can be obtained -/

/-- The shapes that can be obtained: those read from values, and those in which definitions are
inlined. -/
inductive Obtained : Shape → Prop where
  | read {raw : Json} {s : Shape} (hraw : raw.Distinct) (h : ofJson raw = .ok s) : Obtained s
  | inlined {d : Definitions} {s t : Shape} (hd : d.Distinct) (hs : Obtained s)
      (h : s.inline d = .ok t) : Obtained t

theorem Obtained.wellFormed {s : Shape} (h : s.Obtained) : s.Everywhere WellFormed := by
  induction h with
  | read hraw h => exact wellFormed_ofJsonAt hraw h
  | inlined hd _ h ih => exact wellFormed_inline hd ih h

/-- Shapes that can be obtained and have one identity key have one JSON form, with all members in
one order, and are one shape. -/
theorem Obtained.eq_of_identityKey_eq {s t : Shape} (hs : s.Obtained) (ht : t.Obtained)
    (h : s.identityKey = t.identityKey) : s.toJson = t.toJson ∧ s = t := by
  have hmembers : s.toMembers = t.toMembers :=
    identityKey_inj (distinct_toJson hs.wellFormed) (distinct_toJson ht.wellFormed) h
  exact ⟨congrArg Json.object hmembers, toMembers_inj hs.wellFormed ht.wellFormed hmembers⟩

/-- The URI of the definition that the example refers to. -/
def labelUri : String := "json-schema-definitions://acme/label"

/-- A keyword without a name, whose value has a member named like a part of an identity key. -/
def oddKeyword : String × Json := ("", .object [("b]=1&c", .natural 1)])

/-- The definition. -/
def labelBody : Json := .object [("title", .string "Label"), ("type", .string "string")]

/-- A reference to the definition. -/
def labelReference : Json := .object [("$ref", .string labelUri), oddKeyword]

/-- The shape that the reference stands for, written out. -/
def labelText : Json :=
  .object [oddKeyword, ("type", .array [.string "string"]), ("$ref", .string labelUri)]

theorem Obtained.eq_of_identityKey_eq_label :
    ∃ d r s t, Definitions.builtins.register labelUri labelBody = .ok d ∧
      ofJson labelReference = .ok r ∧ r.inline d = .ok s ∧ ofJson labelText = .ok t ∧
      s.identityKey = t.identityKey ∧ s.toJson = t.toJson ∧ s = t := by
  have hbody : labelBody.Distinct := by
    simp [labelBody, Json.Distinct, Json.DistinctMembers, Entries.names]
  have hreference : labelReference.Distinct := by
    simp [labelReference, oddKeyword, Json.natural, Json.Distinct, Json.DistinctMembers,
      Entries.names]
  have htext : labelText.Distinct := by
    simp [labelText, oddKeyword, Json.natural, Json.Distinct, Json.DistinctMembers,
      Json.DistinctItems, Entries.names]
  have hregister : Definitions.builtins.register labelUri labelBody
      = .ok ⟨Definitions.builtins.bodies.insert labelUri labelBody⟩ := rfl
  have hdefinitions := Definitions.distinct_builtins.register hbody hregister
  refine ⟨_, _, _, _, hregister, rfl, rfl, rfl, rfl, ?_⟩
  exact Obtained.eq_of_identityKey_eq (.inlined hdefinitions (.read hreference rfl) rfl)
    (.read htext rfl) rfl

end Shape

end PropStorage
