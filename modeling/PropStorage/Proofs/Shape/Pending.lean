import PropStorage.Proofs.Shape.Inlinable

/-!
# References that inlining leaves

A bare reference keeps its keywords as they were written, properties and items included. They become
shapes only when the reference is inlined, and references among them are then left as they are
(`Shape.pending`). So, where no definition mentions a reference, a shape that is inlined holds no
bare reference just if none is pending within it
(`Shape.Obtained.hasBareReference_inline_eq_false_iff`).
-/

namespace PropStorage

namespace Json

/-- Whether an object within a value, at any depth, has a member of the given name. -/
inductive Mentions (name : String) : Json → Prop where
  | here {members : Entries Json} (h : name ∈ Entries.names members) :
    Mentions name (.object members)
  | item {items : List Json} {v : Json} (hv : v ∈ items) (h : Mentions name v) :
    Mentions name (.array items)
  | member {members : Entries Json} {m : String × Json} (hm : m ∈ members)
    (h : Mentions name m.2) : Mentions name (.object members)

/-- Whether a value has a type, and so do all values within it that are shapes. -/
inductive TypedThroughout : Json → Prop where
  | intro {members : Entries Json} (type : Entries.find? members "type" ≠ none)
    (shapes : ∀ v ∈ Shape.shapeValues members, TypedThroughout v) :
    TypedThroughout (.object members)

theorem mentions_array_iff {name : String} {items : List Json} :
    (Json.array items).Mentions name ↔ ∃ v ∈ items, v.Mentions name := by
  constructor
  · rintro (_ | ⟨hv, h⟩)
    exact ⟨_, hv, h⟩
  · rintro ⟨v, hv, h⟩
    exact .item hv h

theorem mentions_object_iff {name : String} {members : Entries Json} :
    (Json.object members).Mentions name ↔
      name ∈ Entries.names members ∨ ∃ m ∈ members, m.2.Mentions name := by
  constructor
  · rintro (h | _ | ⟨hm, h⟩)
    · exact .inl h
    · exact .inr ⟨_, hm, h⟩
  · rintro (h | ⟨m, hm, h⟩)
    · exact .here h
    · exact .member hm h

theorem not_mentions_string (name s : String) : ¬(Json.string s).Mentions name := nofun

theorem typedThroughout_object_iff {members : Entries Json} :
    (Json.object members).TypedThroughout ↔
      Entries.find? members "type" ≠ none ∧ ∀ v ∈ Shape.shapeValues members, v.TypedThroughout := by
  constructor
  · rintro ⟨htype, hshapes⟩
    exact ⟨htype, hshapes⟩
  · rintro ⟨htype, hshapes⟩
    exact .intro htype hshapes

/-- The values that are shapes stand within the object. -/
theorem Mentions.of_mem_shapeValues {name : String} {members : Entries Json} {v : Json}
    (hv : v ∈ Shape.shapeValues members) (h : v.Mentions name) :
    (Json.object members).Mentions name := by
  have hall : ∀ v ∈ Shape.shapeValues members, v.Mentions name →
      (Json.object members).Mentions name := by
    refine Shape.forall_shapeValues_iff.2 ⟨fun v hfind m hm h => ?_, fun v hfind h => ?_⟩
    · cases v with
      | object properties => exact .member (Entries.mem_of_find? hfind) (.member hm h)
      | _ => exact absurd hm List.not_mem_nil
    · exact .member (Entries.mem_of_find? hfind) h
  exact hall v hv h

/-- A value that describes a shape and does not mention a reference has types throughout. -/
theorem DescribesShape.typedThroughout {v : Json} (h : v.DescribesShape)
    (hfree : ¬v.Mentions "$ref") : v.TypedThroughout := by
  induction h with
  | @reference members uri _ hreference =>
    refine absurd (Mentions.here ?_) hfree
    exact Entries.find?_isSome_iff.1 (Option.isSome_iff_exists.2 ⟨_, hreference⟩)
  | typed htype _ _ _ _ _ ih =>
    refine .intro (fun hnone => ?_) fun v hv => ih v hv fun hin => ?_
    · cases htype.symm.trans hnone
    · exact hfree (.of_mem_shapeValues hv hin)

end Json

/-- No definition mentions a reference. -/
def Definitions.Closed (d : Definitions) : Prop :=
  ∀ uri body, d.find? uri = some body → ¬body.Mentions "$ref"

namespace Definitions

theorem closed_builtins : Definitions.Closed builtins := by
  intro uri body hfind
  refine Json.forall_values_ofEntries (P := fun v => ¬Json.Mentions "$ref" v) ?_ _
    (Entries.mem_of_find? hfind)
  simp [image, dateRange, typeMember, formatMember, Json.mentions_object_iff,
    Json.mentions_array_iff, Json.not_mentions_string, Entries.names]

theorem Closed.register {d d' : Definitions} (hd : d.Closed) {uri : String} {body : Json}
    (hbody : ¬body.Mentions "$ref") (h : d.register uri body = .ok d') : d'.Closed := by
  intro other found hfind
  rw [(register_eq_ok h).2] at hfind
  split at hfind
  · rwa [← Option.some.inj hfind]
  · exact hd _ _ hfind

end Definitions

namespace Shape

/-! ## Shapes with types throughout -/

/-- A shape holds no bare reference just if the value that it is read from has types throughout. -/
theorem hasBareReference_eq_false_iff_of_ofJsonAt {v : Json} {path : String} {s : Shape}
    (h : ofJsonAt path v = .ok s) : s.hasBareReference = false ↔ v.TypedThroughout := by
  rw [hasBareReference_eq_false_iff]
  refine ofJsonAt_induction
    (motive := fun v s => (s.Everywhere fun t => t.type?.isSome) ↔ v.TypedThroughout)
    ?_ ?_ v path s h
  · intro members uri htype _
    exact iff_of_false (fun h => nomatch h.here)
      fun h => (Json.typedThroughout_object_iff.1 h).1 htype
  · intro path members type reference format properties items hreads hproperties hitems
    obtain ⟨v, htype, -⟩ := hreads.type
    have htyped : Entries.find? members "type" ≠ none := by
      rw [htype]
      exact Option.some_ne_none v
    rw [everywhere_iff, Json.typedThroughout_object_iff]
    exact and_congr (iff_of_true rfl htyped)
      (hreads.forall_parts_iff _ hproperties hitems fun _ _ h => h)

/-- The values that are shapes and stand next to a bare reference: they are not read before the
reference is inlined. -/
def pending : Shape → List Json
  | bare _ keywords => shapeValues keywords.entries
  | typed .. => []

theorem forall_shapeValues_toMembers_iff {s : Shape} (h : s.WellFormed) {P : Json → Prop} :
    (∀ v ∈ shapeValues s.toMembers, P v) ↔
      (∀ t ∈ s.parts, P t.toJson) ∧ ∀ v ∈ s.pending, P v := by
  cases s with
  | bare uri keywords =>
    refine Iff.trans ?_ (and_iff_right nofun).symm
    rw [pending, forall_shapeValues_iff, forall_shapeValues_iff, find?_toMembers_bare,
      find?_toMembers_bare, if_neg (by decide), if_neg (by decide)]
    rfl
  | typed type reference format properties items keywords =>
    refine Iff.trans ?_ (and_iff_left nofun).symm
    rw [forall_parts_typed, forall_shapeValues_iff, find?_toMembers_properties h,
      find?_toMembers_items h, propertiesToJson_eq, itemsToJson_eq]
    refine and_congr ?_ ?_
    · cases properties <;> simp [Json.members, Entries.mapValues]
    · cases items <;> simp

/-- The JSON form of a shape has types throughout just if the shape holds no bare reference. -/
theorem typedThroughout_toJson_iff {s : Shape} (h : s.Everywhere WellFormed) :
    s.toJson.TypedThroughout ↔ s.hasBareReference = false := by
  rw [hasBareReference_eq_false_iff]
  induction s using parts_induction with
  | h s ih =>
    rw [everywhere_iff, toJson, Json.typedThroughout_object_iff,
      forall_shapeValues_toMembers_iff h.here]
    have hparts : (∀ t ∈ s.parts, t.toJson.TypedThroughout) ↔ _ :=
      forall₂_congr fun t ht => ih t ht (h.within ht)
    cases s with
    | bare uri keywords =>
      refine iff_of_false (fun hall => hall.1 ?_) fun hall => absurd hall.1 Bool.false_ne_true
      rw [find?_toMembers_bare, if_neg (by decide), h.here.find?_bare_keywords (by decide)]
    | typed =>
      refine and_congr (iff_of_true ?_ rfl) ((and_iff_left ?_).trans hparts)
      · rw [find?_toMembers_type]
        exact Option.some_ne_none _
      · exact fun _ h => absurd h List.not_mem_nil

/-! ## Shapes that are inlined -/

theorem pending_inlineParts {d : Definitions} {s t : Shape} (h : s.inlineParts d = .ok t) :
    t.pending = s.pending := by
  cases s with
  | bare => obtain rfl := Except.ok.inj h; rfl
  | typed => obtain ⟨_, _, -, -, rfl⟩ := inlineParts_typed_eq_ok h; rfl

/-- Where a shape lies over a definition with types throughout, the whole has types throughout just
if the values of the shape do. -/
theorem typedThroughout_overlayMembers_iff {below own : Entries Json}
    (hbelow : (Json.object below).Distinct) (hown : (Json.object own).Distinct)
    (hparts : HasParts own) (htyped : (Json.object below).TypedThroughout) :
    (Json.object (overlayMembers below own)).TypedThroughout ↔
      ∀ v ∈ shapeValues own, v.TypedThroughout := by
  obtain ⟨htype, hshapes⟩ := Json.typedThroughout_object_iff.1 htyped
  rw [Json.typedThroughout_object_iff,
    forall_shapeValues_overlayMembers_iff hbelow hown hparts.properties,
    find?_overlayMembers (by decide) (Json.distinct_object_iff.1 hown).1, Ne, Option.or_eq_none_iff]
  refine (and_iff_right fun hnone => htype hnone.2).trans (and_iff_left fun v hv => ?_)
  exact hshapes v (mem_shapeValues_of_mem_uncoveredValues hv)

/-- Whether the values that stand next to a bare reference hold no bare references themselves. -/
def NothingPending (s : Shape) : Prop :=
  ∀ v ∈ s.pending, ∀ t, ofJson v = .ok t → t.hasBareReference = false

theorem nothingPending_iff {s : Shape} (h : ∀ v ∈ s.pending, v.DescribesShape) :
    s.NothingPending ↔ ∀ v ∈ s.pending, v.TypedThroughout := by
  refine forall₂_congr fun v hv => ⟨fun hread => ?_, fun htyped t ht => ?_⟩
  · obtain ⟨t, ht⟩ := exists_ofJsonAt_of_describesShape (h v hv) "#"
    exact (hasBareReference_eq_false_iff_of_ofJsonAt ht).1 (hread t ht)
  · exact (hasBareReference_eq_false_iff_of_ofJsonAt ht).2 htyped

section Inline

variable {d : Definitions} (hd : d.Registered) (hclosed : d.Closed) {s t : Shape}
include hd hclosed

theorem hasBareReference_inlineReference_eq_false_iff (hs : s.Everywhere WellFormed) {uri : String}
    (huri : s.reference? = some uri) (h : inlineReference d uri s = .ok t) :
    t.hasBareReference = false ↔
      s.NothingPending ∧ ∀ q ∈ s.parts, q.hasBareReference = false := by
  rw [inlineReference] at h
  split at h
  · cases h
  · rename_i body hbody
    have hdescribes := hd.describesShape hbody
    have htyped := hdescribes.typedThroughout (hclosed uri body hbody)
    obtain ⟨below, rfl⟩ := hdescribes.eq_object
    have h : ofJson (.object (overlayMembers below s.toMembers)) = .ok t := h
    have hbelow := hd.distinct.find? hbody
    have hlies := (describesShape_overlayMembers_iff hbelow hdescribes hs huri).1
      (describesShape_of_ofJsonAt h)
    have hparts := (liesOver_iff_hasParts hdescribes
      (Json.typedThroughout_object_iff.1 htyped).1).1 hlies
    have hpending := ((forall_shapeValues_toMembers_iff hs.here).1 hparts.shapes).2
    rw [hasBareReference_eq_false_iff_of_ofJsonAt h, nothingPending_iff hpending,
      typedThroughout_overlayMembers_iff hbelow (distinct_toJson hs) hparts htyped,
      forall_shapeValues_toMembers_iff hs.here, and_comm]
    exact and_congr_right' (forall₂_congr fun q hq => typedThroughout_toJson_iff (hs.within hq))

theorem hasBareReference_inlineSelf_eq_false_iff (hs : s.Everywhere WellFormed)
    (h : inlineSelf d s = .ok t) :
    t.hasBareReference = false ↔
      s.NothingPending ∧ ∀ q ∈ s.parts, q.hasBareReference = false := by
  rw [inlineSelf] at h
  split at h
  · rename_i hnone
    obtain rfl := Except.ok.inj h
    cases s with
    | bare => cases hnone
    | typed =>
      simp only [hasBareReference_eq_false_iff]
      rw [everywhere_iff]
      exact and_congr (iff_of_true rfl fun _ h => absurd h List.not_mem_nil) Iff.rfl
  · rename_i uri huri
    exact hasBareReference_inlineReference_eq_false_iff hd hclosed hs huri h

theorem hasBareReference_of_inline_iff (hs : s.Everywhere WellFormed)
    (h : s.inline d = .ok t) : t.hasBareReference = false ↔ s.Everywhere NothingPending := by
  induction s using parts_induction generalizing t with
  | h s ih =>
    rw [inline_eq] at h
    obtain ⟨u, hparts, hself⟩ := Except.bind_eq_ok_iff.1 h
    have hu := hasBareReference_inlineSelf_eq_false_iff hd hclosed
      (wellFormed_inlineParts hs hparts hd.distinct) hself
    rw [hu, everywhere_iff, NothingPending, NothingPending, pending_inlineParts hparts]
    refine and_congr_right' ⟨fun hall p hp => ?_, fun hall q hq => ?_⟩
    · obtain ⟨q, hq, hinline⟩ := exists_inlined_of_inlineParts hparts hp
      exact (ih p hp (hs.within hp) hinline).1 (hall q hq)
    · obtain ⟨p, hp, hinline⟩ := exists_part_of_inlineParts hparts hq
      exact (ih p hp (hs.within hp) hinline).2 (hall p hp)

/-- Where no definition mentions a reference, inlining leaves no bare reference just if none stands
among the properties and items next to a bare reference. -/
theorem Obtained.hasBareReference_inline_eq_false_iff (hs : s.Obtained) (h : s.inline d = .ok t) :
    t.hasBareReference = false ↔ s.Everywhere NothingPending :=
  hasBareReference_of_inline_iff hd hclosed hs.wellFormed h

end Inline

theorem Obtained.hasBareReference_inline_captionedImages :
    ∃ s t, ofJson captionedImages = .ok s ∧ s.inline .builtins = .ok t ∧
      t.hasBareReference = false ∧ s.Everywhere NothingPending := by
  have hraw : captionedImages.Distinct := by
    simp [captionedImages, Json.Distinct, Json.DistinctMembers, Entries.names]
  refine ⟨_, _, rfl, rfl, rfl, ?_⟩
  exact (Obtained.hasBareReference_inline_eq_false_iff .builtins Definitions.closed_builtins
    (.read hraw rfl) rfl).1 rfl

/-- The URI of a definition of a list. -/
def albumUri : String := "json-schema-definitions://acme/album"

/-- The definition: it leaves the items open. -/
def albumBody : Json := .object [("type", .string "array")]

/-- A reference to the definition whose items are references themselves. -/
def imageAlbum : Json :=
  .object [("$ref", .string albumUri), ("items", .object [("$ref", .string imageUri)])]

/-- The items next to a bare reference stay a reference. -/
theorem Obtained.hasBareReference_inline_imageAlbum :
    ∃ d s t, Definitions.builtins.register albumUri albumBody = .ok d ∧ d.Closed ∧
      ofJson imageAlbum = .ok s ∧ s.inline d = .ok t ∧ t.hasBareReference = true := by
  have hregister : Definitions.builtins.register albumUri albumBody
      = .ok ⟨Definitions.builtins.bodies.insert albumUri albumBody⟩ := rfl
  refine ⟨_, _, _, hregister, Definitions.closed_builtins.register ?_ hregister, rfl, rfl, rfl⟩
  simp [albumBody, Json.mentions_object_iff, Json.not_mentions_string, Entries.names]

end Shape

end PropStorage
