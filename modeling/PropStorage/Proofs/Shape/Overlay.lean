import PropStorage.Proofs.Joining
import PropStorage.Proofs.Shape.Inlining
import PropStorage.Proofs.Shape.Renormal

/-!
# What a shape keeps when it is inlined

Where members are put over others, each name has the member that is put there, if there is one
(`find?_overlayMembers`); only properties are joined (`find?_overlayMembers_properties`). So a typed
shape keeps its type, its reference, its keywords and, inlined, its items when its definition is put
under it (`keeps_of_inline`). A `required` list may come in another order, since the whole is read
again (`alike_of_ofJsonAt_toJson`).
-/

namespace PropStorage.Shape

/-! ## Members over members -/

section Overlay

variable {name : String} (hname : name ≠ "properties")
include hname

theorem find?_overlayMember (members : Entries Json) (own : String × Json) :
    Entries.find? (overlayMember members own) name
      = if name = own.1 then some own.2 else Entries.find? members name := by
  unfold overlayMember
  split
  · rw [Entries.find?_insert, if_neg hname, if_neg hname]
  · exact Entries.find?_insert _ _ _ _

/-- A member that is put over others takes the place of the one of its name. -/
theorem find?_overlayMembers {own : Entries Json} (hown : (Entries.names own).Nodup)
    (members : Entries Json) :
    Entries.find? (overlayMembers members own) name
      = (Entries.find? own name).or (Entries.find? members name) := by
  induction own generalizing members with
  | nil => rfl
  | cons m own ih =>
    obtain ⟨hfresh, hown⟩ := List.nodup_cons.1 hown
    have hrest := ih hown (overlayMember members m)
    rw [find?_overlayMember hname] at hrest
    show Entries.find? (overlayMembers (overlayMember members m) own) name = _
    rw [hrest, Entries.find?_cons]
    by_cases heq : name = m.1
    · have hnone : Entries.find? own name = none :=
        Entries.find?_eq_none_iff.2 (heq ▸ hfresh)
      rw [if_pos heq, if_pos heq, hnone]
      rfl
    · rw [if_neg heq, if_neg heq]

end Overlay

/-- The value of `properties` where a shape is put over a definition: two objects are joined. -/
def overlaidProperties : Option Json → Option Json → Option Json
  | some (.object own), some (.object below) => some (.object (overlay below own))
  | own, below => own.or below

theorem overlaidProperties_of_ne {own : Json} (hown : ∀ ms, own ≠ .object ms)
    (below : Option Json) : overlaidProperties (some own) below = some own := by
  unfold overlaidProperties
  split
  · rename_i heq
    exact absurd (Option.some.inj heq) (hown _)
  · rfl

theorem find?_overlay {own : Entries Json} (hown : (Entries.names own).Nodup)
    (below : Entries Json) (name : String) :
    Entries.find? (overlay below own) name
      = (Entries.find? own name).or (Entries.find? below name) :=
  Entries.find?_insertAll hown below name

theorem overlaidProperties_none (below : Option Json) : overlaidProperties none below = below :=
  Option.none_or

theorem overlayMember_of_ne {own : String × Json} (h : own.1 ≠ "properties")
    (below : Entries Json) : overlayMember below own = Entries.insert own.1 own.2 below := by
  unfold overlayMember
  split
  · exact absurd rfl h
  · rfl

theorem find?_overlayMember_properties (below : Entries Json) (v : Json) :
    Entries.find? (overlayMember below ("properties", v)) "properties"
      = overlaidProperties (some v) (Entries.find? below "properties") := by
  unfold overlayMember overlaidProperties
  split <;> split <;> simp_all [Entries.find?_insert]

/-- Where members are put over others, properties are joined. -/
theorem find?_overlayMembers_properties {own : Entries Json} (hown : (Entries.names own).Nodup)
    (below : Entries Json) :
    Entries.find? (overlayMembers below own) "properties"
      = overlaidProperties (Entries.find? own "properties") (Entries.find? below "properties") := by
  induction own generalizing below with
  | nil => exact (overlaidProperties_none _).symm
  | cons m own ih =>
    obtain ⟨name, v⟩ := m
    obtain ⟨hfresh, hown⟩ := List.nodup_cons.1 hown
    show Entries.find? (overlayMembers (overlayMember below (name, v)) own) "properties" = _
    rw [ih hown, Entries.find?_cons]
    by_cases hname : name = "properties"
    · subst hname
      rw [if_pos rfl, Entries.find?_eq_none_iff.2 hfresh, overlaidProperties_none,
        find?_overlayMember_properties]
    · rw [if_neg (Ne.symm hname), overlayMember_of_ne hname, Entries.find?_insert,
        if_neg (Ne.symm hname)]

/-! ## Shapes that are read again -/

/-- Whether two shapes have the same type, reference, format and keywords, but for the `required`
list. -/
structure Alike (s t : Shape) : Prop where
  type? : t.type? = s.type?
  reference? : t.reference? = s.reference?
  format? : t.format? = s.format?
  keyword? : ∀ name, name ≠ "required" → t.keyword? name = s.keyword? name

theorem Alike.refl (s : Shape) : s.Alike s := ⟨rfl, rfl, rfl, fun _ _ => rfl⟩

/-- A shape that is read back is like the one that was written. -/
theorem alike_of_ofJsonAt_toJson {s t : Shape} (h : s.WellFormed) {path : String}
    (ht : ofJsonAt path s.toJson = .ok t) : s.Alike t := by
  cases s with
  | bare uri keywords =>
    obtain rfl := Except.ok.inj ((ofJsonAt_toJson_bare h path).symm.trans ht)
    exact .refl _
  | typed type reference format properties items keywords =>
    obtain ⟨ps, i, -, -, rfl⟩ := (ofJsonAt_toJson_typed h).1 ht
    refine ⟨rfl, rfl, rfl, fun name hname => ?_⟩
    show (normalKeywords _).find? name = keywords.find? name
    rw [find?_normalKeywords_toMembers h]
    cases hkeyword : keywords.find? name with
    | none => rfl
    | some v => rw [Option.map_some, h.normalKeyword_eq hname hkeyword]

/-! ## Shapes that are inlined -/

/-- What a shape keeps of another one: its type, its reference, the keywords that it has, except for
the `required` list, and items that are related to its own. -/
structure Keeps (R : Shape → Shape → Prop) (s t : Shape) : Prop where
  type? : t.type? = s.type?
  reference? : t.reference? = s.reference?
  keyword? : ∀ name, name ≠ "required" → ∀ v ∈ s.keyword? name, t.keyword? name = some v
  items? : ∀ item ∈ s.items?, ∃ u ∈ t.items?, R item u

/-- Whether a shape is like the one that another is inlined to. -/
def InlinedAlike (d : Definitions) (s u : Shape) : Prop := ∃ t, s.inline d = .ok t ∧ t.Alike u

/-- A typed shape without a reference is changed in its parts only. -/
theorem alike_of_inline {d : Definitions} {s t : Shape} (htype : s.type?.isSome)
    (hreference : s.reference? = none) (h : s.inline d = .ok t) :
    s.Alike t ∧ (s.items? = none → t.items? = none) := by
  cases s with
  | bare => cases htype
  | typed type reference format properties items keywords =>
    obtain ⟨ps, i, -, hi, h⟩ := inline_typed_eq_ok h
    obtain rfl : reference = none := hreference
    rcases h with ⟨-, rfl⟩ | ⟨uri, huri, -⟩
    · refine ⟨⟨rfl, rfl, rfl, fun _ _ => rfl⟩, ?_⟩
      rintro rfl
      rw [inlineItems] at hi
      exact (Except.ok.inj hi).symm
    · cases huri

section Inline

variable {d : Definitions} (hd : d.Distinct)
include hd

/-- A definition that is put under a typed shape does not change what the shape says. -/
theorem keeps_of_inlineReference {type : SchemaType} {uri : String} {format : Option String}
    {properties : Option (Entries Shape)} {items : Option Shape} {keywords : SortedMap Json}
    (hs : (typed type (some uri) format properties items keywords).Everywhere WellFormed)
    {t : Shape}
    (h : inlineReference d uri (typed type (some uri) format properties items keywords) = .ok t) :
    (typed type (some uri) format properties items keywords).Keeps Alike t := by
  obtain ⟨members, hdistinct, hread⟩ := inlineReference_eq_ok hd hs h
  have hnames := (Json.distinct_object_iff.1 hdistinct).1
  have hown {name : String} (hname : name ≠ "properties") {v : Json}
      (hv : Entries.find? (typed type (some uri) format properties items keywords).toMembers name
        = some v) :
      Entries.find? (overlayMembers members
        (typed type (some uri) format properties items keywords).toMembers) name = some v := by
    rw [find?_overlayMembers hname (nodup_names_toMembers hs.here), hv, Option.some_or]
  obtain ⟨reference, format', ps, i, hreference, -, -, hi, rfl⟩ :=
    (ofJsonAt_typed_eq_ok_iff (hown (by decide) find?_toMembers_type)).1 hread
  rw [hown (by decide) (find?_toMembers_reference hs.here)] at hreference
  refine ⟨rfl, Option.map_injective (fun _ _ h => Json.string.inj h) hreference.symm, ?_, ?_⟩
  · intro name hname v hv
    have hv : keywords.find? name = some v := hv
    have hplace := (hs.here.1 _ (Entries.mem_of_find? hv)).1
    have hproperties : name ≠ "properties" := by
      rintro rfl
      exact hplace (List.mem_append_left _ (show "properties" ∈ structural by decide))
    have hmember := hown hproperties
      ((find?_toMembers_keyword fun hin => hplace (List.mem_append_left _ hin)).trans hv)
    show (normalKeywords _).find? name = some v
    rw [find?_normalKeywords hnames, if_neg hplace, hmember, Option.map_some,
      hs.here.normalKeyword_eq hname hv]
  · rintro item hitem
    obtain rfl : items = some item := hitem
    have hfind := hown (by decide) ((find?_toMembers_items hs.here).trans (itemsToJson_eq _))
    have hitems := readItems_eq_ok_iff.1 hi
    cases i with
    | none =>
      rw [hfind] at hitems
      cases hitems
    | some u =>
      obtain ⟨raw, hraw, hu⟩ := hitems
      rw [hfind] at hraw
      rw [← Option.some.inj hraw] at hu
      exact ⟨u, rfl, alike_of_ofJsonAt_toJson (hs.within mem_parts_items).here hu⟩

/-- A typed shape that is inlined keeps what it says, and has what its items are inlined to. -/
theorem keeps_of_inline {s t : Shape} (hs : s.Everywhere WellFormed) (htype : s.type?.isSome)
    (h : s.inline d = .ok t) : s.Keeps (InlinedAlike d) t := by
  cases s with
  | bare => cases htype
  | typed type reference format properties items keywords =>
    obtain ⟨ps, i, hps, hi, h⟩ := inline_typed_eq_ok h
    have hitems : ∀ item ∈ items, ∃ u ∈ i, item.inline d = .ok u := by
      rintro item rfl
      rw [inlineItems] at hi
      obtain ⟨u, hu, rfl⟩ := Except.map_eq_ok_iff.1 hi
      exact ⟨u, rfl, hu⟩
    rcases h with ⟨rfl, rfl⟩ | ⟨uri, rfl, h⟩
    · refine ⟨rfl, rfl, fun _ _ _ hv => hv, fun item hitem => ?_⟩
      obtain ⟨u, hu, hinline⟩ := hitems item hitem
      exact ⟨u, hu, u, hinline, .refl u⟩
    · have hkeeps := keeps_of_inlineReference hd (wellFormed_typed_of_inlined hs.here
        (fun s hmem _ => wellFormed_inline hd (hs.within hmem)) hps hi) h
      refine ⟨hkeeps.type?, hkeeps.reference?, hkeeps.keyword?, fun item hitem => ?_⟩
      obtain ⟨u, hu, hinline⟩ := hitems item hitem
      obtain ⟨w, hw, halike⟩ := hkeeps.items? u hu
      exact ⟨w, hw, u, hinline, halike⟩

end Inline

end PropStorage.Shape
