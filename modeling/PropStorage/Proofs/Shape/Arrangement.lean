import PropStorage.Proofs.Json.Reordering
import PropStorage.Proofs.Shape.Outline

/-!
# Shapes whose properties are declared in another order

The order in which a shape declares its properties is a part of the shape. It is lost where members
are sorted, as they are before the hash of a value is taken: what is left of a shape then is what it
has in common with the shapes that only declare their properties in another order
(`Shape.Rearranged`, `Shape.rearranged_iff_toJson_equiv`).
-/

namespace PropStorage

theorem Json.equivMaps_iff {m n : SortedMap Json} :
    equivMaps m n = true ↔ ∀ name, Same? (m.find? name) (n.find? name) :=
  equiv_object_iff m.nodup_names n.nodup_names

theorem Json.same?_map_string_iff {a b : Option String} :
    Same? (a.map string) (b.map string) ↔ a = b := by
  cases a with
  | none => cases b <;> simp [Same?]
  | some s =>
    cases b with
    | none => simp [Same?]
    | some t => rw [Option.map_some, Option.map_some, same?_string_iff, Option.some.injEq]

theorem rel_map_iff {α β γ δ : Type} {R : γ → δ → Prop} {f : α → γ} {g : β → δ} {a : Option α}
    {b : Option β} :
    Option.Rel R (a.map f) (b.map g) ↔ Option.Rel (fun x y => R (f x) (g y)) a b := by
  cases a <;> cases b <;> simp

namespace Shape

/-- Two shapes that are the same up to the order in which they, and the shapes within them, declare
their properties. -/
inductive Rearranged : Shape → Shape → Prop where
  | bare {uri : String} {keywords keywords' : SortedMap Json}
    (keyword : Json.equivMaps keywords keywords' = true) :
    Rearranged (bare uri keywords) (bare uri keywords')
  | typed {type : SchemaType} {reference format : Option String}
    {properties properties' : Option (Entries Shape)} {items items' : Option Shape}
    {keywords keywords' : SortedMap Json}
    (keyword : Json.equivMaps keywords keywords' = true)
    (names : Option.Rel (fun ps qs => (Entries.names ps).Perm (Entries.names qs)) properties
      properties')
    (isSome_items : items.isSome = items'.isSome)
    (property : ∀ ps ∈ properties, ∀ qs ∈ properties', ∀ name s t,
      Entries.find? ps name = some s → Entries.find? qs name = some t → Rearranged s t)
    (item : ∀ s ∈ items, ∀ t ∈ items', Rearranged s t) :
    Rearranged (typed type reference format properties items keywords)
      (typed type reference format properties' items' keywords')

/-! ## Shapes that are the same -/

theorem rearranged_of_equiv {s t : Shape} (h : s.equiv t = true) : s.Rearranged t := by
  induction s using parts_induction generalizing t with
  | h s ih =>
    cases s with
    | bare =>
      cases t with
      | bare =>
        rw [equiv, Bool.and_eq_true, beq_iff_eq] at h
        obtain ⟨rfl, hkeywords⟩ := h
        exact .bare hkeywords
      | typed => simp [equiv] at h
    | typed type reference format properties items keywords =>
      cases t with
      | bare => simp [equiv] at h
      | typed type' reference' format' properties' items' keywords' =>
        simp only [equiv, Bool.and_eq_true, beq_iff_eq, equivProperties_iff, equivItems_iff] at h
        obtain ⟨⟨⟨⟨⟨rfl, rfl⟩, rfl⟩, hproperties⟩, hitems⟩, hkeywords⟩ := h
        refine .typed hkeywords (rel_imp hproperties fun ps _ qs _ hlists => ?_) ?_ ?_ ?_
        · rw [Entries.names_eq_of_forall₂ (equivLists_iff.1 hlists) fun _ _ h => h.1.symm]
        · cases hitems <;> rfl
        · rintro ps rfl qs rfl name a b ha hb
          cases hproperties with
          | some hlists =>
            have hrel := Entries.rel_find?_of_forall₂ (R := fun a b : Shape => a.equiv b = true)
              (equivLists_iff.1 hlists)
            exact ih a (mem_parts_property (Entries.mem_of_find? ha))
              (Entries.rel_of_find? hrel ha hb)
        · rintro a rfl b rfl
          cases hitems with
          | some hitem => exact ih a mem_parts_items hitem

/-! ## Shapes as JSON -/

theorem same?_toMembers_iff {s t : Shape} (hs : s.WellFormed) (ht : t.WellFormed) :
    s.toJson.equiv t.toJson = true ↔
      ∀ name, Json.Same? (Entries.find? s.toMembers name) (Entries.find? t.toMembers name) :=
  Json.equiv_object_iff (nodup_names_toMembers hs) (nodup_names_toMembers ht)

section Typed

variable {type type' : SchemaType} {reference reference' format format' : Option String}
  {properties properties' : Option (Entries Shape)} {items items' : Option Shape}
  {keywords keywords' : SortedMap Json}
  (hs : (typed type reference format properties items keywords).WellFormed)
  (ht : (typed type' reference' format' properties' items' keywords').WellFormed)
include hs ht

/-- The JSON forms of two typed shapes are the same just if their parts are, each by itself. -/
theorem typed_toJson_equiv_iff :
    (typed type reference format properties items keywords).toJson.equiv
        (typed type' reference' format' properties' items' keywords').toJson = true ↔
      type = type' ∧ reference = reference' ∧ format = format' ∧
        Json.Same? (propertiesToJson properties) (propertiesToJson properties') ∧
        Json.Same? (itemsToJson items) (itemsToJson items') ∧
        Json.equivMaps keywords keywords' = true := by
  rw [same?_toMembers_iff hs ht, Json.equivMaps_iff]
  constructor
  · intro h
    refine ⟨?_, ?_, ?_, ?_, ?_, fun name => ?_⟩
    · have htype := h "type"
      rw [find?_toMembers_type, find?_toMembers_type, Json.same?_string_iff] at htype
      exact name_injective htype
    · have hreference := h "$ref"
      rwa [find?_toMembers_reference hs, find?_toMembers_reference ht,
        Json.same?_map_string_iff] at hreference
    · have hformat := h "format"
      rwa [find?_toMembers_format hs, find?_toMembers_format ht,
        Json.same?_map_string_iff] at hformat
    · have hproperties := h "properties"
      rwa [find?_toMembers_properties hs, find?_toMembers_properties ht] at hproperties
    · have hitems := h "items"
      rwa [find?_toMembers_items hs, find?_toMembers_items ht] at hitems
    · by_cases hname : name ∈ structural
      · have hname := List.mem_append_left informational hname
        rw [hs.find?_keywords hname, ht.find?_keywords hname]
        exact .none
      · have hkeyword := h name
        rwa [find?_toMembers_keyword hname, find?_toMembers_keyword hname] at hkeyword
  · rintro ⟨rfl, rfl, rfl, hproperties, hitems, hkeywords⟩ name
    by_cases hname : name ∈ structural
    · simp only [structural, List.mem_cons, List.not_mem_nil, or_false] at hname
      rcases hname with rfl | rfl | rfl | rfl | rfl
      · rw [find?_toMembers_type, find?_toMembers_type, Json.same?_string_iff]
      · rw [find?_toMembers_reference hs, find?_toMembers_reference ht, Json.same?_map_string_iff]
      · rw [find?_toMembers_format hs, find?_toMembers_format ht, Json.same?_map_string_iff]
      · rwa [find?_toMembers_properties hs, find?_toMembers_properties ht]
      · rwa [find?_toMembers_items hs, find?_toMembers_items ht]
    · rw [find?_toMembers_keyword hname, find?_toMembers_keyword hname]
      exact hkeywords name

end Typed

/-- The JSON forms of two references are the same just if the references are. -/
theorem bare_toJson_equiv_iff {uri uri' : String} {keywords keywords' : SortedMap Json}
    (hs : (bare uri keywords).WellFormed) (ht : (bare uri' keywords').WellFormed) :
    (bare uri keywords).toJson.equiv (bare uri' keywords').toJson = true ↔
      uri = uri' ∧ Json.equivMaps keywords keywords' = true := by
  rw [same?_toMembers_iff hs ht, Json.equivMaps_iff]
  simp only [find?_toMembers_bare]
  constructor
  · intro h
    refine ⟨?_, fun name => ?_⟩
    · have huri := h "$ref"
      rwa [if_pos rfl, if_pos rfl, Json.same?_string_iff] at huri
    · by_cases hname : name = "$ref"
      · rw [hname, hs.find?_bare_keywords (by decide), ht.find?_bare_keywords (by decide)]
        exact .none
      · have hkeyword := h name
        rwa [if_neg hname, if_neg hname] at hkeyword
  · rintro ⟨rfl, hkeywords⟩ name
    split
    · exact Json.same?_string_iff.2 rfl
    · exact hkeywords name

theorem type?_eq_of_toJson_equiv {s t : Shape} (hs : s.WellFormed) (ht : t.WellFormed)
    (h : s.toJson.equiv t.toJson = true) : s.type? = t.type? := by
  have htype {u : Shape} (hu : u.WellFormed) :
      Entries.find? u.toMembers "type" = (u.type?.map SchemaType.name).map Json.string := by
    cases u with
    | bare => rw [find?_toMembers_bare, if_neg (by decide), hu.find?_bare_keywords (by decide)]; rfl
    | typed => exact find?_toMembers_type
  have hmember := (same?_toMembers_iff hs ht).1 h "type"
  rw [htype hs, htype ht, Json.same?_map_string_iff] at hmember
  exact Option.map_injective (fun _ _ => name_injective) hmember

/-- The JSON forms of two lists of properties are the same just if the properties are, name by
name. -/
theorem same?_propertiesToJson_iff {properties properties' : Option (Entries Shape)}
    (hd : ∀ ps ∈ properties, (Entries.names ps).Nodup)
    (hd' : ∀ qs ∈ properties', (Entries.names qs).Nodup) :
    Json.Same? (propertiesToJson properties) (propertiesToJson properties') ↔
      Option.Rel (fun ps qs => (Entries.names ps).Perm (Entries.names qs)) properties properties' ∧
        ∀ ps ∈ properties, ∀ qs ∈ properties', ∀ name s t, Entries.find? ps name = some s →
          Entries.find? qs name = some t → s.toJson.equiv t.toJson = true := by
  rw [propertiesToJson_eq, propertiesToJson_eq]
  cases properties with
  | none => cases properties' <;> simp [Json.Same?]
  | some ps =>
    cases properties' with
    | none => simp [Json.Same?]
    | some qs =>
      have hps := hd ps rfl
      have hqs := hd' qs rfl
      simp only [Json.Same?, Option.map_some, Option.rel_some_some, Option.mem_some_iff,
        forall_eq']
      rw [Json.equiv_object_iff (by rwa [Entries.names_mapValues])
        (by rwa [Entries.names_mapValues])]
      simp only [Entries.find?_mapValues, Json.Same?, rel_map_iff]
      exact ⟨fun h => ⟨Entries.perm_names hps hqs (Entries.mem_names_iff_of_rel h),
        fun _ _ _ => Entries.rel_of_find? h⟩, fun h => Entries.rel_find? (fun _ => h.1.mem_iff) h.2⟩

theorem same?_itemsToJson_iff {items items' : Option Shape} :
    Json.Same? (itemsToJson items) (itemsToJson items') ↔
      items.isSome = items'.isSome ∧
        ∀ s ∈ items, ∀ t ∈ items', s.toJson.equiv t.toJson = true := by
  rw [itemsToJson_eq, itemsToJson_eq]
  cases items <;> cases items' <;> simp [Json.Same?]

/-- Two shapes are the same up to the order of properties just if their JSON forms are the same up
to the order of members. -/
theorem rearranged_iff_toJson_equiv {s t : Shape} (hs : s.Everywhere WellFormed)
    (ht : t.Everywhere WellFormed) : s.Rearranged t ↔ s.toJson.equiv t.toJson = true := by
  induction s using parts_induction generalizing t with
  | h s ih =>
    cases s with
    | bare uri keywords =>
      cases t with
      | bare uri' keywords' =>
        rw [bare_toJson_equiv_iff hs.here ht.here]
        constructor
        · rintro ⟨keyword⟩
          exact ⟨rfl, keyword⟩
        · rintro ⟨rfl, hkeywords⟩
          exact .bare hkeywords
      | typed =>
        exact iff_of_false nofun fun h => nomatch type?_eq_of_toJson_equiv hs.here ht.here h
    | typed type reference format properties items keywords =>
      cases t with
      | bare =>
        exact iff_of_false nofun fun h => nomatch type?_eq_of_toJson_equiv hs.here ht.here h
      | typed type' reference' format' properties' items' keywords' =>
        have hproperty : ∀ ps ∈ properties, ∀ qs ∈ properties', ∀ name a b,
            Entries.find? ps name = some a → Entries.find? qs name = some b →
              (a.Rearranged b ↔ a.toJson.equiv b.toJson = true) := by
          rintro ps rfl qs rfl name a b ha hb
          have ha := Entries.mem_of_find? ha
          exact ih a (mem_parts_property ha) (hs.within (mem_parts_property ha))
            (ht.within (mem_parts_property (Entries.mem_of_find? hb)))
        have hitem : ∀ a ∈ items, ∀ b ∈ items',
            (a.Rearranged b ↔ a.toJson.equiv b.toJson = true) := by
          rintro a rfl b rfl
          exact ih a mem_parts_items (hs.within mem_parts_items) (ht.within mem_parts_items)
        rw [typed_toJson_equiv_iff hs.here ht.here, same?_propertiesToJson_iff hs.here.2 ht.here.2,
          same?_itemsToJson_iff]
        constructor
        · rintro (_ | ⟨keyword, names, isSome_items, property, item⟩)
          refine ⟨rfl, rfl, rfl, ⟨names, fun ps hps qs hqs name a b ha hb => ?_⟩,
            ⟨isSome_items, fun a ha b hb => ?_⟩, keyword⟩
          · exact (hproperty ps hps qs hqs name a b ha hb).1 (property ps hps qs hqs name a b ha hb)
          · exact (hitem a ha b hb).1 (item a ha b hb)
        · rintro ⟨rfl, rfl, rfl, ⟨hnames, hvalues⟩, ⟨hsome, hvalue⟩, hkeywords⟩
          refine .typed hkeywords hnames hsome (fun ps hps qs hqs name a b ha hb => ?_)
            fun a ha b hb => ?_
          · exact (hproperty ps hps qs hqs name a b ha hb).2 (hvalues ps hps qs hqs name a b ha hb)
          · exact (hitem a ha b hb).2 (hvalue a ha b hb)

end Shape

end PropStorage
