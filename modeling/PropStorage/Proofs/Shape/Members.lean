import PropStorage.Proofs.Json.Sorting
import PropStorage.Shape.Basic
import PropStorage.Shape.Normal

/-!
# The members of a shape

What a shape says everywhere within it (`Shape.Everywhere`), and what its JSON form holds:

* `find?_toMembers_rest`, `find?_toMembers_bare`: the member of each name;
* `Shape.WellFormed`: keywords are only what has no other place, as `Shape.ofJson` leaves them;
* `distinct_toJson`: no object of the JSON form names a member twice;
* `toMembers_inj`: the JSON form determines the shape.
-/

namespace PropStorage.Shape

/-! ## Shapes within shapes -/

/-- The shapes directly within a shape: its properties and its items. -/
def parts (s : Shape) : List Shape :=
  (s.properties?.getD []).map Prod.snd ++ s.items?.toList

theorem sizeOf_parts {s t : Shape} (h : t ∈ s.parts) : sizeOf t < sizeOf s := by
  cases s with
  | bare uri keywords => cases h
  | typed type reference format properties items keywords =>
    rcases List.mem_append.1 h with h | h
    · cases properties with
      | none => cases h
      | some properties =>
        obtain ⟨p, hp, rfl⟩ := List.mem_map.1 h
        have hlist : sizeOf p < sizeOf properties := List.sizeOf_lt_of_mem hp
        obtain ⟨name, s⟩ := p
        simp only [typed.sizeOf_spec, Option.some.sizeOf_spec, Prod.mk.sizeOf_spec] at hlist ⊢
        omega
    · cases items with
      | none => cases h
      | some items =>
        obtain rfl := List.mem_singleton.1 h
        simp only [typed.sizeOf_spec, Option.some.sizeOf_spec]
        omega

/-- A property that passes from the parts of a shape to the shape holds of all shapes. -/
theorem parts_induction {motive : Shape → Prop}
    (h : ∀ s, (∀ t ∈ s.parts, motive t) → motive s) (s : Shape) : motive s :=
  h s fun t _ht => parts_induction h t
termination_by sizeOf s
decreasing_by exact sizeOf_parts _ht

/-- Whether a property holds of a shape and of all shapes within it. -/
inductive Everywhere (P : Shape → Prop) : Shape → Prop where
  | intro {s : Shape} (here : P s) (within : ∀ t ∈ s.parts, Everywhere P t) : Everywhere P s

theorem Everywhere.here {P : Shape → Prop} {s : Shape} (h : s.Everywhere P) : P s := by
  cases h; assumption

theorem Everywhere.within {P : Shape → Prop} {s t : Shape} (h : s.Everywhere P)
    (ht : t ∈ s.parts) : t.Everywhere P := by
  cases h with
  | intro _ within => exact within t ht

theorem everywhere_iff {P : Shape → Prop} {s : Shape} :
    s.Everywhere P ↔ P s ∧ ∀ t ∈ s.parts, t.Everywhere P :=
  ⟨fun h => ⟨h.here, fun _ ht => h.within ht⟩, fun h => .intro h.1 h.2⟩

/-- What holds of a shape if another property does holds of all shapes within a shape of which the
other property holds throughout. -/
theorem Everywhere.mp {P Q : Shape → Prop} {s : Shape} (h : s.Everywhere fun t => P t → Q t)
    (hP : s.Everywhere P) : s.Everywhere Q := by
  induction h with
  | intro here _ ih => exact .intro (here hP.here) fun t ht => ih t ht (hP.within ht)

theorem Everywhere.imp {P Q : Shape → Prop} {s : Shape} (h : s.Everywhere P)
    (hPQ : ∀ t, P t → Q t) : s.Everywhere Q := by
  induction h with
  | intro here _ ih => exact .intro (hPQ _ here) ih

theorem mem_parts_property {type : SchemaType} {reference format : Option String}
    {properties : Entries Shape} {items : Option Shape} {keywords : SortedMap Json}
    {p : String × Shape} (h : p ∈ properties) :
    p.2 ∈ (typed type reference format (some properties) items keywords).parts :=
  List.mem_append_left _ (List.mem_map_of_mem h)

theorem mem_parts_items {type : SchemaType} {reference format : Option String}
    {properties : Option (Entries Shape)} {items : Shape} {keywords : SortedMap Json} :
    items ∈ (typed type reference format properties (some items) keywords).parts :=
  List.mem_append_right _ (List.mem_singleton_self _)

theorem mem_parts_typed {type : SchemaType} {reference format : Option String}
    {properties : Option (Entries Shape)} {items : Option Shape} {keywords : SortedMap Json}
    {t : Shape} (h : t ∈ (typed type reference format properties items keywords).parts) :
    (∃ ps ∈ properties, ∃ p ∈ ps, p.2 = t) ∨ t ∈ items := by
  rcases List.mem_append.1 h with h | h
  · cases properties with
    | none => cases h
    | some ps =>
      obtain ⟨p, hp, hpt⟩ := List.mem_map.1 h
      exact .inl ⟨ps, rfl, p, hp, hpt⟩
  · exact .inr (Option.mem_toList.1 h)

theorem forall_parts_typed {type : SchemaType} {reference format : Option String}
    {properties : Option (Entries Shape)} {items : Option Shape} {keywords : SortedMap Json}
    {P : Shape → Prop} :
    (∀ t ∈ (typed type reference format properties items keywords).parts, P t) ↔
      (∀ ps ∈ properties, ∀ p ∈ ps, P p.2) ∧ ∀ t ∈ items, P t := by
  constructor
  · intro h
    refine ⟨?_, ?_⟩
    · rintro ps rfl p hp
      exact h p.2 (mem_parts_property hp)
    · rintro t rfl
      exact h t mem_parts_items
  · rintro ⟨hproperties, hitems⟩ t ht
    rcases mem_parts_typed ht with ⟨ps, hps, p, hp, rfl⟩ | hitem
    · exact hproperties ps hps p hp
    · exact hitems t hitem

/-- Whether a property holds of a shape or of a shape within it. -/
inductive Somewhere (P : Shape → Prop) : Shape → Prop where
  | here {s : Shape} (h : P s) : Somewhere P s
  | within {s t : Shape} (ht : t ∈ s.parts) (h : Somewhere P t) : Somewhere P s

/-- What holds everywhere holds where something else does. -/
theorem Somewhere.exists_and {P Q : Shape → Prop} {s : Shape} (h : s.Somewhere Q)
    (hP : s.Everywhere P) : ∃ t, P t ∧ Q t := by
  induction h with
  | here h => exact ⟨_, hP.here, h⟩
  | within ht _ ih => exact ih (hP.within ht)

/-! ## Bare references -/

theorem hasBareReferenceInList_iff {ps : Entries Shape} :
    hasBareReferenceInList ps = true ↔ ∃ p ∈ ps, p.2.hasBareReference = true := by
  induction ps with
  | nil => simp [hasBareReferenceInList]
  | cons p ps ih =>
    obtain ⟨name, s⟩ := p
    rw [hasBareReferenceInList, Bool.or_eq_true, ih, List.exists_mem_cons_iff]

/-- There is no bare reference just where all shapes have types. -/
theorem hasBareReference_eq_false_iff {s : Shape} :
    s.hasBareReference = false ↔ s.Everywhere fun t => t.type?.isSome := by
  induction s using parts_induction with
  | h s ih =>
    rw [everywhere_iff]
    cases s with
    | bare => exact iff_of_false nofun fun h => nomatch h.1
    | typed type reference format properties items keywords =>
      obtain ⟨hproperties, hitems⟩ := forall_parts_typed.1 ih
      rw [hasBareReference, Bool.or_eq_false_iff, forall_parts_typed]
      refine (and_congr ?_ ?_).trans (and_iff_right rfl).symm
      · cases properties with
        | none => exact iff_of_true rfl nofun
        | some ps =>
          rw [hasBareReferenceInProperties, ← Bool.not_eq_true, hasBareReferenceInList_iff]
          simp only [not_exists, not_and, Bool.not_eq_true, Option.mem_some_iff, forall_eq']
          exact forall₂_congr fun p hp => hproperties ps rfl p hp
      · cases items with
        | none => exact iff_of_true rfl nofun
        | some t =>
          rw [hasBareReferenceInItems, hitems t rfl]
          simp

/-! ## The member of a name -/

theorem listToMembers_eq (properties : Entries Shape) :
    listToMembers properties = Entries.mapValues toJson properties := by
  induction properties with
  | nil => rfl
  | cons p properties ih =>
    obtain ⟨name, s⟩ := p
    rw [listToMembers, ih]; rfl

theorem propertiesToJson_eq (properties : Option (Entries Shape)) :
    propertiesToJson properties
      = properties.map fun properties => .object (Entries.mapValues toJson properties) := by
  cases properties with
  | none => rfl
  | some properties => rw [propertiesToJson, listToMembers_eq]; rfl

theorem itemsToJson_eq (items : Option Shape) : itemsToJson items = items.map toJson := by
  cases items with
  | none => rfl
  | some s => rw [itemsToJson]; rfl

theorem find?_restMembers (reference format : Option String) (properties items : Option Json)
    (keywords : SortedMap Json) (name : String) :
    Entries.find? (restMembers reference format properties items keywords) name =
      if name = "items" then items.or (keywords.find? name)
      else if name = "properties" then properties.or (keywords.find? name)
      else if name = "format" then (format.map Json.string).or (keywords.find? name)
      else if name = "$ref" then (reference.map Json.string).or (keywords.find? name)
      else keywords.find? name := by
  show SortedMap.find? _ name = _
  simp only [SortedMap.find?_insert?]
  by_cases hitems : name = "items"
  · subst hitems; simp
  by_cases hproperties : name = "properties"
  · subst hproperties; simp
  by_cases hformat : name = "format"
  · subst hformat; simp
  by_cases hreference : name = "$ref"
  · subst hreference; simp
  simp [hitems, hproperties, hformat, hreference]

/-! ## Well-formed shapes -/

/-- Whether the keywords of a shape are what `ofJson` leaves: they have no other place, they matter,
and for a typed shape they are sorted; no property is declared twice. -/
def WellFormed : Shape → Prop
  | bare _ keywords =>
    ∀ e ∈ keywords.entries, e.1 ∉ "type" :: "$ref" :: informational ∧ e.2.Distinct
  | typed _ _ _ properties _ keywords =>
    (∀ e ∈ keywords.entries,
      e.1 ∉ structural ++ informational ∧ e.2.sortMembers = e.2 ∧ e.2.Distinct) ∧
    ∀ ps ∈ properties, (Entries.names ps).Nodup

theorem find?_eq_none_of_excluded {keywords : SortedMap Json} {excluded : List String}
    (h : ∀ e ∈ keywords.entries, e.1 ∉ excluded) {name : String} (hname : name ∈ excluded) :
    keywords.find? name = none := by
  refine Entries.find?_eq_none_iff.2 fun hmem => ?_
  obtain ⟨e, he, rfl⟩ := List.mem_map.1 hmem
  exact h e he hname

section Typed

variable {type : SchemaType} {reference format : Option String}
  {properties : Option (Entries Shape)} {items : Option Shape} {keywords : SortedMap Json}

theorem WellFormed.find?_keywords {name : String}
    (h : (typed type reference format properties items keywords).WellFormed)
    (hname : name ∈ structural ++ informational) : keywords.find? name = none :=
  find?_eq_none_of_excluded (fun e he => (h.1 e he).1) hname

theorem find?_toMembers_type :
    Entries.find? (typed type reference format properties items keywords).toMembers "type"
      = some (.string type.name) := by
  rw [toMembers, Entries.find?_cons, if_pos rfl]

theorem find?_toMembers_rest {name : String} (hname : name ≠ "type") :
    Entries.find? (typed type reference format properties items keywords).toMembers name
      = Entries.find? (restMembers reference format (propertiesToJson properties)
          (itemsToJson items) keywords) name := by
  rw [toMembers, Entries.find?_cons, if_neg hname]

theorem find?_toMembers_keyword {name : String} (hname : name ∉ structural) :
    Entries.find? (typed type reference format properties items keywords).toMembers name
      = keywords.find? name := by
  simp only [structural, List.mem_cons, List.not_mem_nil, or_false, not_or] at hname
  obtain ⟨htype, hreference, hformat, hproperties, hitems⟩ := hname
  rw [find?_toMembers_rest htype, find?_restMembers, if_neg hitems, if_neg hproperties,
    if_neg hformat, if_neg hreference]

variable (h : (typed type reference format properties items keywords).WellFormed)
include h

theorem find?_toMembers_reference :
    Entries.find? (typed type reference format properties items keywords).toMembers "$ref"
      = reference.map Json.string := by
  rw [find?_toMembers_rest (by decide), find?_restMembers, if_neg (by decide), if_neg (by decide),
    if_neg (by decide), if_pos rfl, h.find?_keywords (by decide), Option.or_none]

theorem find?_toMembers_format :
    Entries.find? (typed type reference format properties items keywords).toMembers "format"
      = format.map Json.string := by
  rw [find?_toMembers_rest (by decide), find?_restMembers, if_neg (by decide), if_neg (by decide),
    if_pos rfl, h.find?_keywords (by decide), Option.or_none]

theorem find?_toMembers_properties :
    Entries.find? (typed type reference format properties items keywords).toMembers "properties"
      = propertiesToJson properties := by
  rw [find?_toMembers_rest (by decide), find?_restMembers, if_neg (by decide), if_pos rfl,
    h.find?_keywords (by decide), Option.or_none]

theorem find?_toMembers_items :
    Entries.find? (typed type reference format properties items keywords).toMembers "items"
      = itemsToJson items := by
  rw [find?_toMembers_rest (by decide), find?_restMembers, if_pos rfl,
    h.find?_keywords (by decide), Option.or_none]

end Typed

theorem WellFormed.find?_bare_keywords {uri name : String} {keywords : SortedMap Json}
    (h : (bare uri keywords).WellFormed)
    (hname : name ∈ "type" :: "$ref" :: informational) : keywords.find? name = none :=
  find?_eq_none_of_excluded (fun e he => (h e he).1) hname

/-- Well-formed shapes have no keywords that only inform people. -/
theorem WellFormed.keyword?_informational {s : Shape} (h : s.WellFormed) :
    ∀ name ∈ informational, s.keyword? name = none := by
  intro name hname
  cases s with
  | bare =>
    exact h.find?_bare_keywords (List.mem_cons_of_mem _ (List.mem_cons_of_mem _ hname))
  | typed => exact h.find?_keywords (List.mem_append_right _ hname)

theorem find?_toMembers_bare (uri : String) (keywords : SortedMap Json) (name : String) :
    Entries.find? (bare uri keywords).toMembers name
      = if name = "$ref" then some (.string uri) else keywords.find? name := by
  rw [toMembers, find?_restMembers]
  simp only [Option.map_none, Option.none_or, Option.map_some, Option.some_or]
  by_cases hreference : name = "$ref"
  · subst hreference; simp
  · simp [hreference]

theorem find?_toMembers_reference? {s : Shape} (h : s.WellFormed) :
    Entries.find? s.toMembers "$ref" = s.reference?.map Json.string := by
  cases s with
  | bare uri keywords => rw [find?_toMembers_bare, if_pos rfl]; rfl
  | typed => exact find?_toMembers_reference h

theorem toMembers_ne_nil (s : Shape) : s.toMembers ≠ [] := by
  intro h
  cases s with
  | bare uri keywords =>
    have hfind := find?_toMembers_bare uri keywords "$ref"
    rw [h, if_pos rfl] at hfind
    cases hfind
  | typed => rw [toMembers] at h; cases h

/-! ## No member twice -/

theorem nodup_names_toMembers {s : Shape} (h : s.WellFormed) :
    (Entries.names s.toMembers).Nodup := by
  cases s with
  | bare uri keywords => rw [toMembers]; exact SortedMap.nodup_names _
  | typed type reference format properties items keywords =>
    rw [toMembers, Entries.names, List.map_cons, List.nodup_cons]
    refine ⟨?_, SortedMap.nodup_names _⟩
    show "type" ∉ Entries.names _
    refine Entries.find?_eq_none_iff.1 ?_
    rw [find?_restMembers, if_neg (by decide), if_neg (by decide), if_neg (by decide),
      if_neg (by decide), h.find?_keywords (by decide)]

/-- No object of the JSON form names a member twice. -/
theorem distinct_toJson {s : Shape} (h : s.Everywhere WellFormed) : s.toJson.Distinct := by
  induction s using parts_induction with
  | h s ih =>
    refine Json.distinct_object_iff.2 ⟨nodup_names_toMembers h.here, ?_⟩
    rintro ⟨name, v⟩ hm
    have hfind := Entries.find?_of_mem (nodup_names_toMembers h.here) hm
    cases s with
    | bare uri keywords =>
      rw [find?_toMembers_bare] at hfind
      split at hfind
      · obtain rfl := Option.some.inj hfind
        exact trivial
      · exact (h.here _ (Entries.mem_of_find? hfind)).2
    | typed type reference format properties items keywords =>
      by_cases hname : name ∈ structural
      · simp only [structural, List.mem_cons, List.not_mem_nil, or_false] at hname
        rcases hname with rfl | rfl | rfl | rfl | rfl
        · rw [find?_toMembers_type] at hfind
          obtain rfl := Option.some.inj hfind
          exact trivial
        · rw [find?_toMembers_reference h.here] at hfind
          obtain ⟨uri, -, rfl⟩ := Option.map_eq_some_iff.1 hfind
          exact trivial
        · rw [find?_toMembers_format h.here] at hfind
          obtain ⟨format, -, rfl⟩ := Option.map_eq_some_iff.1 hfind
          exact trivial
        · rw [find?_toMembers_properties h.here, propertiesToJson_eq] at hfind
          obtain ⟨ps, rfl, rfl⟩ := Option.map_eq_some_iff.1 hfind
          refine Json.distinct_object_iff.2 ⟨?_, fun m hm => ?_⟩
          · rw [Entries.names_mapValues]; exact h.here.2 ps rfl
          · obtain ⟨p, hp, rfl⟩ := List.mem_map.1 hm
            exact ih p.2 (mem_parts_property hp) (h.within (mem_parts_property hp))
        · rw [find?_toMembers_items h.here, itemsToJson_eq] at hfind
          obtain ⟨item, rfl, rfl⟩ := Option.map_eq_some_iff.1 hfind
          exact ih item mem_parts_items (h.within mem_parts_items)
      · rw [find?_toMembers_keyword hname] at hfind
        exact (h.here.1 _ (Entries.mem_of_find? hfind)).2.2

/-! ## Shapes and their JSON forms -/

theorem name_injective {s t : SchemaType} (h : s.name = t.name) : s = t := by
  have := congrArg SchemaType.ofName? h
  rw [SchemaType.ofName?_name, SchemaType.ofName?_name] at this
  exact Option.some.inj this

theorem map_string_injective {a b : Option String}
    (h : a.map Json.string = b.map Json.string) : a = b :=
  Option.map_injective (fun _ _ => Json.string.inj) h

/-- A reference without a type is no typed shape. -/
theorem toMembers_bare_ne_typed {uri : String} {type : SchemaType}
    {reference format : Option String} {properties : Option (Entries Shape)} {items : Option Shape}
    {keywords keywords' : SortedMap Json} (h : (bare uri keywords).WellFormed) :
    (bare uri keywords).toMembers
      ≠ (typed type reference format properties items keywords').toMembers := by
  intro heq
  have hfind := congrArg (Entries.find? · "type") heq
  simp only [find?_toMembers_type] at hfind
  rw [find?_toMembers_bare, if_neg (by decide), h.find?_bare_keywords (by decide)] at hfind
  cases hfind

theorem properties_inj {ps qs : Option (Entries Shape)}
    (ih : ∀ as ∈ ps, ∀ bs ∈ qs, ∀ a ∈ as, ∀ b ∈ bs, a.2.toMembers = b.2.toMembers → a.2 = b.2)
    (h : propertiesToJson ps = propertiesToJson qs) : ps = qs := by
  rw [propertiesToJson_eq, propertiesToJson_eq] at h
  cases ps with
  | none =>
    cases qs with
    | none => rfl
    | some bs => cases h
  | some as =>
    cases qs with
    | none => cases h
    | some bs =>
      refine congrArg some (Entries.mapValues_inj (fun a ha b hb heq => ?_)
        (Json.object.inj (Option.some.inj h)))
      exact ih as rfl bs rfl a ha b hb (Json.object.inj heq)

theorem items_inj {items items' : Option Shape}
    (ih : ∀ a ∈ items, ∀ b ∈ items', a.toMembers = b.toMembers → a = b)
    (h : itemsToJson items = itemsToJson items') : items = items' := by
  rw [itemsToJson_eq, itemsToJson_eq] at h
  cases items with
  | none =>
    cases items' with
    | none => rfl
    | some b => cases h
  | some a =>
    cases items' with
    | none => cases h
    | some b => rw [ih a rfl b rfl (Json.object.inj (Option.some.inj h))]

theorem bare_inj {uri uri' : String} {keywords keywords' : SortedMap Json}
    (hs : (bare uri keywords).WellFormed) (ht : (bare uri' keywords').WellFormed)
    (h : (bare uri keywords).toMembers = (bare uri' keywords').toMembers) :
    bare uri keywords = bare uri' keywords' := by
  have hfind := fun name => congrArg (Entries.find? · name) h
  have huri := hfind "$ref"
  simp only [find?_toMembers_bare, if_pos] at huri
  obtain rfl := Json.string.inj (Option.some.inj huri)
  have hkeywords : keywords = keywords' := by
    refine SortedMap.ext_find? fun name => ?_
    by_cases hname : name = "$ref"
    · rw [hname, hs.find?_bare_keywords (by decide), ht.find?_bare_keywords (by decide)]
    · have := hfind name
      simpa only [find?_toMembers_bare, if_neg hname] using this
  rw [hkeywords]

section Typed

variable {type type' : SchemaType} {reference reference' format format' : Option String}
  {properties properties' : Option (Entries Shape)} {items items' : Option Shape}
  {keywords keywords' : SortedMap Json}
  (hs : (typed type reference format properties items keywords).WellFormed)
  (ht : (typed type' reference' format' properties' items' keywords').WellFormed)
  (h : (typed type reference format properties items keywords).toMembers
    = (typed type' reference' format' properties' items' keywords').toMembers)
include hs ht h

theorem typed_keywords_inj : keywords = keywords' := by
  refine SortedMap.ext_find? fun name => ?_
  by_cases hname : name ∈ structural
  · have hname := List.mem_append_left informational hname
    rw [hs.find?_keywords hname, ht.find?_keywords hname]
  · have := congrArg (Entries.find? · name) h
    simpa only [find?_toMembers_keyword hname] using this

theorem typed_texts_inj : type = type' ∧ reference = reference' ∧ format = format' := by
  have hfind := fun name => congrArg (Entries.find? · name) h
  have htype := hfind "type"
  simp only [find?_toMembers_type] at htype
  have hreference := hfind "$ref"
  simp only [find?_toMembers_reference hs, find?_toMembers_reference ht] at hreference
  have hformat := hfind "format"
  simp only [find?_toMembers_format hs, find?_toMembers_format ht] at hformat
  exact ⟨name_injective (Json.string.inj (Option.some.inj htype)),
    map_string_injective hreference, map_string_injective hformat⟩

theorem typed_parts_inj : propertiesToJson properties = propertiesToJson properties' ∧
    itemsToJson items = itemsToJson items' := by
  have hfind := fun name => congrArg (Entries.find? · name) h
  have hproperties := hfind "properties"
  simp only [find?_toMembers_properties hs, find?_toMembers_properties ht] at hproperties
  have hitems := hfind "items"
  simp only [find?_toMembers_items hs, find?_toMembers_items ht] at hitems
  exact ⟨hproperties, hitems⟩

end Typed

/-- A well-formed shape is determined by its JSON form. -/
theorem toMembers_inj {s t : Shape} (hs : s.Everywhere WellFormed) (ht : t.Everywhere WellFormed)
    (h : s.toMembers = t.toMembers) : s = t := by
  induction s using parts_induction generalizing t with
  | h s ih =>
    cases s with
    | bare uri keywords =>
      cases t with
      | bare uri' keywords' => exact bare_inj hs.here ht.here h
      | typed => exact absurd h (toMembers_bare_ne_typed hs.here)
    | typed type reference format properties items keywords =>
      cases t with
      | bare => exact absurd h.symm (toMembers_bare_ne_typed ht.here)
      | typed type' reference' format' properties' items' keywords' =>
        obtain ⟨hproperties, hitems⟩ := typed_parts_inj hs.here ht.here h
        have hproperties : properties = properties' := by
          refine properties_inj (fun ps hps qs hqs p hp q hq heq => ?_) hproperties
          subst hps hqs
          exact ih p.2 (mem_parts_property hp) (hs.within (mem_parts_property hp))
            (ht.within (mem_parts_property hq)) heq
        have hitems : items = items' := by
          refine items_inj (fun a ha b hb heq => ?_) hitems
          subst ha hb
          exact ih a mem_parts_items (hs.within mem_parts_items) (ht.within mem_parts_items) heq
        obtain ⟨rfl, rfl, rfl⟩ := typed_texts_inj hs.here ht.here h
        rw [typed_keywords_inj hs.here ht.here h, hproperties, hitems]

end PropStorage.Shape
