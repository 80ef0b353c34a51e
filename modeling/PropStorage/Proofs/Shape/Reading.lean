import PropStorage.Proofs.Except
import PropStorage.Proofs.Shape.Members
import PropStorage.Proofs.Shape.Required

/-!
# Reading shapes

What it takes for a JSON value to describe a shape (`ofJsonAt_object_eq_ok_iff`,
`ofJsonAt_typed_eq_ok_iff`, `ofJsonAt_eq_ok`), and that the shape is then well-formed, with all
shapes within it (`wellFormed_ofJsonAt`).
-/

namespace PropStorage.Shape

/-! ## Keywords -/

section Keywords

variable {names : List String} {members : Entries Json}

/-- Whether a member is kept as a keyword. -/
theorem keep_iff {name : String} :
    (!informational.contains name && !names.contains name) = true
      ↔ name ∉ names ++ informational := by
  simp [List.contains_eq_mem, and_comm]

theorem mem_keywordsExcept {e : String × Json} (h : e ∈ (keywordsExcept names members).entries) :
    e ∈ members ∧ e.1 ∉ names ++ informational := by
  have hfind := Entries.find?_of_mem (SortedMap.nodup_names _) h
  rw [keywordsExcept] at hfind
  have hmem := Entries.mem_of_find? ((SortedMap.find?_ofEntries_reverse _ _).symm.trans hfind)
  rw [List.mem_reverse, List.mem_filter] at hmem
  exact ⟨hmem.1, keep_iff.1 hmem.2⟩

variable (hd : (Entries.names members).Nodup)
include hd

theorem find?_keywordsExcept (name : String) :
    (keywordsExcept names members).find? name
      = if name ∈ names ++ informational then none else Entries.find? members name := by
  have hsub : (Entries.names (members.filter fun m =>
      !informational.contains m.1 && !names.contains m.1)).Nodup :=
    hd.sublist (List.filter_sublist.map _)
  rw [keywordsExcept, SortedMap.find?_ofEntries hsub,
    Entries.find?_filter fun n => !informational.contains n && !names.contains n]
  by_cases hname : name ∈ names ++ informational
  · rw [if_pos hname, if_neg fun h => keep_iff.1 h hname]
  · rw [if_neg hname, if_pos (keep_iff.2 hname)]

theorem find?_normalKeywords (name : String) :
    (normalKeywords members).find? name
      = if name ∈ structural ++ informational then none
        else (Entries.find? members name).map (normalKeyword name) := by
  have hnames : (Entries.names ((keywordsExcept structural members).entries.map fun m =>
      (m.1, normalKeyword m.1 m.2))).Nodup := by
    rw [Entries.names, List.map_map]
    exact SortedMap.nodup_names _
  rw [normalKeywords, SortedMap.find?_ofEntries hnames, Entries.find?_mapNamed]
  show (SortedMap.find? _ name).map _ = _
  rw [find?_keywordsExcept hd]
  split <;> rfl

end Keywords

theorem sortMembers_normalKeyword (name : String) (value : Json) :
    (normalKeyword name value).sortMembers = normalKeyword name value := by
  unfold normalKeyword
  split
  · split <;> exact Json.sortMembers_sortMembers _
  · exact Json.sortMembers_sortMembers _

theorem distinct_normalKeyword (name : String) {value : Json} (h : value.Distinct) :
    (normalKeyword name value).Distinct := by
  unfold normalKeyword
  split
  · split
    · refine Json.distinct_sortMembers (Json.distinct_array_iff.2 fun item hitem => ?_)
      exact Json.distinct_array_iff.1 h item (mem_normalRequired hitem)
    · exact Json.distinct_sortMembers h
  · exact Json.distinct_sortMembers h

/-! ## Parts that may be missing -/

theorem stringKeyword_eq_ok_iff {path name : String} {members : Entries Json} {s : Option String} :
    stringKeyword path name members = .ok s ↔ Entries.find? members name = s.map .string := by
  unfold stringKeyword
  split
  · rename_i h
    rw [h]
    cases s <;> simp
  · rename_i h
    rw [h]
    cases s <;> simp
  · rename_i h
    rw [h]
    cases s <;> simp_all

theorem readShapes_eq_traverse (path : String) (raws : Entries Json) :
    readShapes path raws
      = Entries.traverse (fun name v => ofJsonAt (path ++ "/properties/" ++ name) v) raws := by
  induction raws with
  | nil => rw [readShapes]; rfl
  | cons raw raws ih =>
    obtain ⟨name, v⟩ := raw
    rw [readShapes, ih]; rfl

theorem readShapes_eq_ok_iff {path : String} {raws : Entries Json} {properties : Entries Shape} :
    readShapes path raws = .ok properties ↔
      List.Forall₂ (fun raw p => p.1 = raw.1 ∧
        ofJsonAt (path ++ "/properties/" ++ raw.1) raw.2 = .ok p.2) raws properties := by
  induction raws generalizing properties with
  | nil =>
    rw [readShapes, List.forall₂_nil_left_iff, Except.ok.injEq, eq_comm]
  | cons raw raws ih =>
    obtain ⟨name, value⟩ := raw
    rw [readShapes, List.forall₂_cons_left_iff]
    simp only [Except.bind_eq_ok_iff, Except.ok.injEq]
    constructor
    · rintro ⟨s, hs, rest, hrest, rfl⟩
      exact ⟨(name, s), rest, ⟨rfl, hs⟩, ih.1 hrest, rfl⟩
    · rintro ⟨⟨name', s⟩, rest, ⟨rfl, hs⟩, hrest, rfl⟩
      exact ⟨s, hs, rest, ih.2 hrest, rfl⟩

theorem readProperties_eq_ok_iff {path : String} {members : Entries Json}
    {properties : Option (Entries Shape)} :
    readProperties path members = .ok properties ↔
      match properties with
      | none => Entries.find? members "properties" = none
      | some ps => ∃ raws, Entries.find? members "properties" = some (.object raws) ∧
          readShapes path raws = .ok ps := by
  induction members with
  | nil => rw [readProperties]; cases properties <;> simp [Entries.find?_nil]
  | cons m members ih =>
    obtain ⟨name, value⟩ := m
    rw [Entries.find?_cons]
    by_cases hname : name = "properties"
    · rw [if_pos hname.symm]
      cases value with
      | object raws =>
        rw [readProperties, if_pos hname, Except.map_eq_ok_iff]
        cases properties <;> simp
      | _ =>
        rw [readProperties, if_pos hname]
        · cases properties <;> simp
        · exact fun _ h => nomatch h
    · rw [if_neg (Ne.symm hname)]
      unfold readProperties
      rw [if_neg hname]
      exact ih

theorem readItems_eq_ok_iff {path : String} {members : Entries Json} {items : Option Shape} :
    readItems path members = .ok items ↔
      match items with
      | none => Entries.find? members "items" = none
      | some s => ∃ raw, Entries.find? members "items" = some (.object raw) ∧
          ofJsonAt (path ++ "/items") (.object raw) = .ok s := by
  induction members with
  | nil => rw [readItems]; cases items <;> simp [Entries.find?_nil]
  | cons m members ih =>
    obtain ⟨name, value⟩ := m
    rw [Entries.find?_cons]
    by_cases hname : name = "items"
    · rw [if_pos hname.symm]
      cases value with
      | object raw =>
        rw [readItems, if_pos hname, Except.map_eq_ok_iff]
        cases items <;> simp
      | _ =>
        rw [readItems, if_pos hname]
        · cases items <;> simp
        · exact fun _ h => nomatch h
    · rw [if_neg (Ne.symm hname)]
      unfold readItems
      rw [if_neg hname]
      exact ih

/-! ## Shapes -/

/-- How a typed shape is read. -/
structure ReadsTyped (path : String) (members : Entries Json) (type : SchemaType)
    (reference format : Option String) (properties : Option (Entries Shape))
    (items : Option Shape) : Prop where
  type : ∃ v, Entries.find? members "type" = some v ∧ readType path v = .ok type
  reference : Entries.find? members "$ref" = reference.map .string
  format : Entries.find? members "format" = format.map .string
  properties : readProperties path members = .ok properties
  items : readItems path members = .ok items

/-- An object describes a shape just if it has a type and all its parts can be read, or is a
reference. -/
theorem ofJsonAt_object_eq_ok_iff {path : String} {members : Entries Json} {s : Shape} :
    ofJsonAt path (.object members) = .ok s ↔
      (∃ uri, Entries.find? members "type" = none ∧
        Entries.find? members "$ref" = some (.string uri) ∧
        s = .bare uri (keywordsExcept ["$ref"] members)) ∨
      ∃ type reference format properties items,
        ReadsTyped path members type reference format properties items ∧
        s = .typed type reference format properties items (normalKeywords members) := by
  rw [ofJsonAt, Except.bind_eq_ok_iff]
  constructor
  · rintro ⟨reference, hreference, h⟩
    rw [stringKeyword_eq_ok_iff] at hreference
    split at h
    · rename_i htype
      split at h
      · exact .inl ⟨_, htype, hreference, (Except.ok.inj h).symm⟩
      · cases h
    · rename_i v hv
      simp only [Except.bind_eq_ok_iff] at h
      obtain ⟨type, htype, format, hformat, properties, hproperties, items, hitems, h⟩ := h
      exact .inr ⟨type, reference, format, properties, items,
        ⟨⟨v, hv, htype⟩, hreference, stringKeyword_eq_ok_iff.1 hformat, hproperties, hitems⟩,
        (Except.ok.inj h).symm⟩
  · rintro (⟨uri, htype, hreference, rfl⟩ | ⟨type, reference, format, properties, items, h, rfl⟩)
    · refine ⟨some uri, stringKeyword_eq_ok_iff.2 hreference, ?_⟩
      rw [htype]
    · obtain ⟨v, hv, htype⟩ := h.type
      refine ⟨reference, stringKeyword_eq_ok_iff.2 h.reference, ?_⟩
      rw [hv]
      simp only [Except.bind_eq_ok_iff]
      exact ⟨type, htype, format, stringKeyword_eq_ok_iff.2 h.format, properties, h.properties,
        items, h.items, rfl⟩

theorem readType_name (path : String) (type : SchemaType) :
    readType path (.string type.name) = .ok type := by
  rw [readType, readTypeName, SchemaType.ofName?_name]

/-- An object with the name of a type describes a shape of that type, if its parts can be read. -/
theorem ofJsonAt_typed_eq_ok_iff {path : String} {members : Entries Json} {type : SchemaType}
    (htype : Entries.find? members "type" = some (.string type.name)) {s : Shape} :
    ofJsonAt path (.object members) = .ok s ↔
      ∃ reference format properties items,
        Entries.find? members "$ref" = reference.map .string ∧
        Entries.find? members "format" = format.map .string ∧
        readProperties path members = .ok properties ∧ readItems path members = .ok items ∧
        s = .typed type reference format properties items (normalKeywords members) := by
  rw [ofJsonAt_object_eq_ok_iff]
  constructor
  · rintro (⟨uri, hnone, -, -⟩ | ⟨type', reference, format, properties, items, h, rfl⟩)
    · rw [htype] at hnone
      cases hnone
    · obtain ⟨v, hv, hread⟩ := h.type
      obtain rfl := Option.some.inj (htype.symm.trans hv)
      rw [readType_name] at hread
      obtain rfl := Except.ok.inj hread
      exact ⟨reference, format, properties, items, h.reference, h.format, h.properties, h.items,
        rfl⟩
  · rintro ⟨reference, format, properties, items, hreference, hformat, hproperties, hitems, rfl⟩
    exact .inr ⟨type, reference, format, properties, items,
      ⟨⟨_, htype, readType_name path type⟩, hreference, hformat, hproperties, hitems⟩, rfl⟩

theorem ofJsonAt_eq_ok {path : String} {v : Json} {s : Shape} (h : ofJsonAt path v = .ok s) :
    ∃ members, v = .object members := by
  cases v with
  | object members => exact ⟨members, rfl⟩
  | _ => rw [ofJsonAt] at h; cases h; exact fun _ h => nomatch h

section Induction

variable {motive : Json → Shape → Prop}
  (bare : ∀ members uri, Entries.find? members "type" = none →
    Entries.find? members "$ref" = some (.string uri) →
    motive (.object members) (.bare uri (keywordsExcept ["$ref"] members)))
  (typed : ∀ path members type reference format properties items,
    ReadsTyped path members type reference format properties items →
    (∀ ps ∈ properties, ∃ raws, Entries.find? members "properties" = some (.object raws) ∧
      List.Forall₂ (fun raw p => p.1 = raw.1 ∧ motive raw.2 p.2) raws ps) →
    (∀ t ∈ items, ∃ raw, Entries.find? members "items" = some raw ∧ motive raw t) →
    motive (.object members)
      (.typed type reference format properties items (normalKeywords members)))
include bare typed

/-- What passes from the values of properties and items to the whole holds of all values that
describe shapes, and of these shapes. -/
theorem ofJsonAt_induction (v : Json) :
    ∀ path s, ofJsonAt path v = .ok s → motive v s := by
  -- The values of properties stand two levels down, so the members are carried along.
  suffices h : (∀ path s, ofJsonAt path v = .ok s → motive v s) ∧
      ∀ m ∈ v.members, ∀ path s, ofJsonAt path m.2 = .ok s → motive m.2 s from h.1
  induction v using Json.induction with
  | object members ih =>
    refine ⟨fun path s h => ?_, fun m hm => (ih m hm).1⟩
    rcases ofJsonAt_object_eq_ok_iff.1 h with
      ⟨uri, htype, hreference, rfl⟩ | ⟨type, reference, format, properties, items, hreads, rfl⟩
    · exact bare members uri htype hreference
    · refine typed path members type reference format properties items hreads ?_ ?_
      · rintro ps rfl
        obtain ⟨raws, hfind, hshapes⟩ := readProperties_eq_ok_iff.1 hreads.properties
        have hread := List.forall₂_iff_zip.1 (readShapes_eq_ok_iff.1 hshapes)
        refine ⟨raws, hfind, List.forall₂_iff_zip.2 ⟨hread.1, fun {raw p} hmem => ?_⟩⟩
        obtain ⟨hname, hok⟩ := hread.2 hmem
        exact ⟨hname, (ih _ (Entries.mem_of_find? hfind)).2 raw (List.of_mem_zip hmem).1 _ _ hok⟩
      · rintro t rfl
        obtain ⟨raw, hfind, hok⟩ := readItems_eq_ok_iff.1 hreads.items
        exact ⟨_, hfind, (ih _ (Entries.mem_of_find? hfind)).1 _ _ hok⟩
  | _ =>
    refine ⟨fun path s h => ?_, fun m hm => absurd hm List.not_mem_nil⟩
    obtain ⟨members, hv⟩ := ofJsonAt_eq_ok h
    cases hv

end Induction

/-! ## What reading gives -/

/-- What holds of each single shape that is read from a value with distinct names holds of all
shapes within what such a value describes. -/
theorem everywhere_ofJsonAt {P : Shape → Prop}
    (bare : ∀ members uri, (Json.object members).Distinct → Entries.find? members "type" = none →
      P (.bare uri (keywordsExcept ["$ref"] members)))
    (typed : ∀ path members type reference format properties items, (Json.object members).Distinct →
      ReadsTyped path members type reference format properties items →
      P (.typed type reference format properties items (normalKeywords members)))
    {v : Json} (hv : v.Distinct) {path : String} {s : Shape} (h : ofJsonAt path v = .ok s) :
    s.Everywhere P := by
  refine ofJsonAt_induction (motive := fun v s => v.Distinct → s.Everywhere P) ?_ ?_ v path s h hv
  · intro members uri htype _ hd
    exact .intro (bare members uri hd htype) fun t ht => absurd ht List.not_mem_nil
  · intro path members type reference format properties items hreads hproperties hitems hd
    have hvalues := (Json.distinct_object_iff.1 hd).2
    refine .intro (typed path members type reference format properties items hd hreads)
      fun t ht => ?_
    rcases mem_parts_typed ht with ⟨ps, hps, p, hp, rfl⟩ | hitem
    · obtain ⟨raws, hfind, hall⟩ := hproperties ps hps
      obtain ⟨raw, hraw, -, hp⟩ := Entries.exists_of_forall₂ hall hp
      exact hp ((Json.distinct_object_iff.1 (hvalues _ (Entries.mem_of_find? hfind))).2 raw hraw)
    · obtain ⟨raw, hfind, hraw⟩ := hitems t hitem
      exact hraw (hvalues _ (Entries.mem_of_find? hfind))

/-- The shapes that a value with distinct names describes are well-formed. -/
theorem wellFormed_ofJsonAt {v : Json} (hv : v.Distinct) {path : String} {s : Shape}
    (h : ofJsonAt path v = .ok s) : s.Everywhere WellFormed := by
  refine everywhere_ofJsonAt ?_ ?_ hv h
  · intro members uri hd htype e he
    obtain ⟨hmem, hname⟩ := mem_keywordsExcept he
    refine ⟨fun hin => ?_, (Json.distinct_object_iff.1 hd).2 e hmem⟩
    rcases List.mem_cons.1 hin with htypeName | hin
    · have := Entries.find?_of_mem (Json.distinct_object_iff.1 hd).1 hmem
      rw [htypeName, htype] at this
      cases this
    · exact hname hin
  · intro path members type reference format properties items hd hreads
    obtain ⟨hnodup, hvalues⟩ := Json.distinct_object_iff.1 hd
    refine ⟨fun e he => ?_, ?_⟩
    · have hfind : (normalKeywords members).find? e.1 = some e.2 :=
        Entries.find?_of_mem (SortedMap.nodup_names _) he
      rw [find?_normalKeywords hnodup] at hfind
      split at hfind
      · cases hfind
      · rename_i hname
        obtain ⟨v, hv, hvalue⟩ := Option.map_eq_some_iff.1 hfind
        rw [← hvalue]
        exact ⟨hname, sortMembers_normalKeyword e.1 v,
          distinct_normalKeyword e.1 (hvalues _ (Entries.mem_of_find? hv))⟩
    · rintro ps rfl
      obtain ⟨raws, hfind, hshapes⟩ := readProperties_eq_ok_iff.1 hreads.properties
      rw [Entries.names_eq_of_forall₂ (readShapes_eq_ok_iff.1 hshapes) fun _ _ h => h.1]
      exact (Json.distinct_object_iff.1 (hvalues _ (Entries.mem_of_find? hfind))).1

end PropStorage.Shape
