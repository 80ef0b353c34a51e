import PropStorage.Proofs.Shape.Overlay
import PropStorage.Proofs.Shape.Rewriting

/-!
# The presentation of shapes

How a shape is presented to people, and in which order its parts are written, does not change what
is read: two values that differ only so (`Latitude.presentation`) describe shapes that are stored
alike (`Shape.storedAlike_of_rewritten`), and these stay so when definitions are inlined
(`Shape.StoredAlike.inline`).

Shapes that are stored alike may differ in the order of their properties, and in their `required`
lists: such a list is sorted by the texts of its items, which depend on the order of members.
-/

namespace PropStorage

namespace Latitude

/-- Members may change places, declared properties among them, and the given keywords of nodes do
not matter. -/
def reordering (ignored : List String) : Latitude := ⟨ignored, List.Perm, fun _ => Json.Reordered⟩

/-- Keywords that only inform people do not matter, nor does the order of members. -/
def presentation : Latitude := reordering Shape.informational

/-- Nor do `required` lists matter to how a shape is stored. -/
def storage : Latitude := reordering ("required" :: Shape.informational)

end Latitude

namespace Json

theorem Rewritten.storage {v w : Json} (h : Rewritten .presentation v w) :
    Rewritten .storage v w :=
  h.mono (l := .presentation) (m := .storage) (List.subset_cons_self _ _) id id

theorem rewritten_refl (ignored : List String) (v : Json) : Rewritten (.reordering ignored) v v :=
  .refl List.Perm.refl (fun _ => Reordered.refl) v

theorem Rewritten.storage_symm {v w : Json} (h : Rewritten .storage v w) : Rewritten .storage w v :=
  h.symm List.Perm.symm Reordered.symm

end Json

namespace Shape

/-! ## Shapes that are stored alike -/

/-- Two shapes that are stored alike: they differ at most in the order of their properties, in their
`required` lists, and in how bare references are written. -/
inductive StoredAlike : Shape → Shape → Prop where
  | bare {uri : String} {keywords keywords' : SortedMap Json}
    (h : Json.Rewritten .storage (bare uri keywords).toJson (bare uri keywords').toJson) :
    StoredAlike (bare uri keywords) (bare uri keywords')
  | typed {type : SchemaType} {reference format : Option String}
    {properties properties' : Option (Entries Shape)} {items items' : Option Shape}
    {keywords keywords' : SortedMap Json}
    (keyword : ∀ name, name ≠ "required" → keywords.find? name = keywords'.find? name)
    (names : Option.Rel (fun ps qs => (Entries.names ps).Perm (Entries.names qs)) properties
      properties')
    (isSome_items : items.isSome = items'.isSome)
    (property : ∀ ps ∈ properties, ∀ qs ∈ properties', ∀ name s t,
      Entries.find? ps name = some s → Entries.find? qs name = some t → StoredAlike s t)
    (item : ∀ s ∈ items, ∀ t ∈ items', StoredAlike s t) :
    StoredAlike (typed type reference format properties items keywords)
      (typed type reference format properties' items' keywords')

theorem StoredAlike.symm {s t : Shape} (h : s.StoredAlike t) : t.StoredAlike s := by
  induction h with
  | bare h => exact .bare h.storage_symm
  | typed keyword names isSome_items _ _ ihproperty ihitem =>
    exact .typed (fun name hname => (keyword name hname).symm) (rel_symm List.Perm.symm names)
      isSome_items.symm
      (fun qs hqs ps hps name t s ht hs => ihproperty ps hps qs hqs name s t hs ht)
      fun t ht s hs => ihitem s hs t ht

/-! ## Reading -/

section Reading

variable {ms ns : Entries Json}
  (keyword : ∀ name, name ∉ "properties" :: "items" :: "required" :: informational →
    Option.Rel Json.Reordered (Entries.find? ms name) (Entries.find? ns name))
include keyword

/-- A reference without a type is read as such. -/
theorem exists_bare (hms : (Json.object ms).Distinct) (hns : (Json.object ns).Distinct)
    (h : Json.Rewritten .storage (.object ms) (.object ns)) {path uri : String}
    (htype : Entries.find? ms "type" = none) (huri : Entries.find? ms "$ref" = some (.string uri)) :
    ∃ t, ofJsonAt path (.object ns) = .ok t ∧
      StoredAlike (bare uri (keywordsExcept ["$ref"] ms)) t := by
  have huri' := find?_eq_map_string (keyword "$ref" (by decide)) (s := some uri) huri
  have htype' := find?_eq_map_string (keyword "type" (by decide)) (s := none) htype
  have hmembers {ms : Entries Json} (hd : (Entries.names ms).Nodup)
      (huri : Entries.find? ms "$ref" = some (.string uri)) (name : String)
      (hname : name ∉ "required" :: informational) :
      Entries.find? (bare uri (keywordsExcept ["$ref"] ms)).toMembers name
        = Entries.find? ms name := by
    rw [find?_toMembers_bare, find?_keywordsExcept hd]
    by_cases hreference : name = "$ref"
    · rw [if_pos hreference, hreference, huri]
    · rw [if_neg hreference, if_neg (by simp_all)]
  refine ⟨_, ofJsonAt_object_eq_ok_iff.2 (.inl ⟨uri, htype', huri', rfl⟩), .bare ?_⟩
  exact h.congr (by decide) (by decide) (hmembers (Json.distinct_object_iff.1 hms).1 huri)
    (hmembers (Json.distinct_object_iff.1 hns).1 huri')

end Reading

/-- Values that differ in their presentation only describe shapes that are stored alike. -/
theorem storedAlike_of_rewritten {v w : Json} (h : Json.Rewritten .storage v w) (hv : v.Distinct)
    (hw : w.Distinct) : ReadsAlike StoredAlike v w := by
  induction h with
  | other hother =>
    intro path s hs
    obtain ⟨ms, rfl⟩ := ofJsonAt_eq_ok hs
    exact absurd rfl (hother ms)
  | @node ms ns keyword properties items property item ihproperty ihitem =>
    intro path s hs
    rcases ofJsonAt_object_eq_ok_iff.1 hs with
      ⟨uri, htype, huri, rfl⟩ | ⟨type, reference, format, ps, i, hreads, rfl⟩
    · exact exists_bare keyword hv hw (.node keyword properties items property item) htype huri
    · obtain ⟨qs, hqs, hnames, hproperty⟩ := exists_readProperties (l := .storage) hw
        (fun h _ => List.Perm.mem_iff h) properties (fun as bs has hbs name a b ha hb =>
          ihproperty as bs has hbs name a b ha hb ((hv.find? has).find? ha)
            ((hw.find? hbs).find? hb)) hreads.properties
      obtain ⟨j, hj, hitem⟩ := exists_readItems items (fun is js his hjs =>
        ihitem is js his hjs (hv.find? his) (hw.find? hjs)) hreads.items
      refine ⟨_, ofJsonAt_object_eq_ok_iff.2 (.inr ⟨type, reference, format, qs, j,
        hreads.congr readType_eq_ok_of_reordered (keyword "type" (by decide))
          (keyword "$ref" (by decide)) (keyword "format" (by decide)) hqs hj, rfl⟩),
        .typed (fun name hname => ?_) hnames ?_ hproperty ?_⟩
      · refine find?_normalKeywords_eq hv hw hname fun hplace => keyword name ?_
        simp_all [structural, Latitude.storage, Latitude.reordering]
      · cases hitem <;> rfl
      · rintro s rfl t rfl
        cases hitem with
        | some h => exact h

/-! ## Shapes as JSON -/

section Typed

variable {type : SchemaType} {reference format : Option String}
  {properties : Option (Entries Shape)} {items : Option Shape} {keywords : SortedMap Json}
  (h : (typed type reference format properties items keywords).WellFormed)
include h

theorem exists_properties {raws : Entries Json}
    (hraws : Entries.find? (typed type reference format properties items keywords).toMembers
      "properties" = some (.object raws)) :
    ∃ ps, properties = some ps ∧ raws = Entries.mapValues toJson ps := by
  rw [find?_toMembers_properties h, propertiesToJson_eq] at hraws
  obtain ⟨ps, hps, heq⟩ := Option.map_eq_some_iff.1 hraws
  exact ⟨ps, hps, (Json.object.inj heq).symm⟩

theorem exists_items {raw : Entries Json}
    (hraw : Entries.find? (typed type reference format properties items keywords).toMembers
      "items" = some (.object raw)) : ∃ s, items = some s ∧ .object raw = s.toJson := by
  rw [find?_toMembers_items h, itemsToJson_eq] at hraw
  obtain ⟨s, hs, heq⟩ := Option.map_eq_some_iff.1 hraw
  exact ⟨s, hs, heq.symm⟩

end Typed

/-- The JSON forms of shapes that are stored alike differ in their presentation only. -/
theorem StoredAlike.rewritten {s t : Shape} (h : s.StoredAlike t) (hs : s.Everywhere WellFormed)
    (ht : t.Everywhere WellFormed) : Json.Rewritten .storage s.toJson t.toJson := by
  induction h with
  | bare h => exact h
  | @typed type reference format ps qs i j keywords keywords' keyword names isSome_items _ _
      ihproperty ihitem =>
    refine .node (fun name hname => ?_) ?_ ?_ (fun ps' qs' hps hqs name v w hv hw => ?_)
      fun is js his hjs => ?_
    · have hmember : Entries.find? (Shape.typed type reference format ps i keywords).toMembers name
          = Entries.find? (Shape.typed type reference format qs j keywords').toMembers name := by
        by_cases hstructural : name ∈ structural
        · simp only [structural, List.mem_cons, List.not_mem_nil, or_false] at hstructural
          rcases hstructural with rfl | rfl | rfl | rfl | rfl
          · rw [find?_toMembers_type, find?_toMembers_type]
          · rw [find?_toMembers_reference hs.here, find?_toMembers_reference ht.here]
          · rw [find?_toMembers_format hs.here, find?_toMembers_format ht.here]
          · exact absurd List.mem_cons_self hname
          · exact absurd (List.mem_cons_of_mem _ List.mem_cons_self) hname
        · rw [find?_toMembers_keyword hstructural, find?_toMembers_keyword hstructural,
            keyword name (by simp_all [Latitude.storage, Latitude.reordering])]
      rw [hmember]
      exact rel_refl Json.Reordered.refl _
    · rw [find?_toMembers_properties hs.here, find?_toMembers_properties ht.here,
        propertiesToJson_eq, propertiesToJson_eq]
      cases names with
      | none => exact .none
      | some names =>
        refine .some (.object ?_)
        rw [Entries.names_mapValues, Entries.names_mapValues]
        exact names
    · rw [find?_toMembers_items hs.here, find?_toMembers_items ht.here, itemsToJson_eq,
        itemsToJson_eq]
      cases i <;> cases j <;> cases isSome_items
      · exact .none
      · exact .some (.object trivial)
    · obtain ⟨as, rfl, rfl⟩ := exists_properties hs.here hps
      obtain ⟨bs, rfl, rfl⟩ := exists_properties ht.here hqs
      rw [Entries.find?_mapValues] at hv hw
      obtain ⟨a, ha, rfl⟩ := Option.map_eq_some_iff.1 hv
      obtain ⟨b, hb, rfl⟩ := Option.map_eq_some_iff.1 hw
      exact ihproperty as rfl bs rfl name a b ha hb
        (hs.within (mem_parts_property (Entries.mem_of_find? ha)))
        (ht.within (mem_parts_property (Entries.mem_of_find? hb)))
    · obtain ⟨a, rfl, ha⟩ := exists_items hs.here his
      obtain ⟨b, rfl, hb⟩ := exists_items ht.here hjs
      rw [ha, hb]
      exact ihitem a rfl b rfl (hs.within mem_parts_items) (ht.within mem_parts_items)

/-! ## Members over members -/

/-- Whether two values of `properties` differ in their presentation only. -/
structure DeclareAlike (x y : Option Json) : Prop where
  framed : Option.Rel (Json.Framed List.Perm) x y
  value : ∀ ps qs, x = some (.object ps) → y = some (.object qs) → ∀ name v w,
    Entries.find? ps name = some v → Entries.find? qs name = some w → Json.Rewritten .storage v w

theorem DeclareAlike.refl (x : Option Json) : DeclareAlike x x := by
  refine ⟨rel_refl (Json.Framed.refl List.Perm.refl) x, ?_⟩
  rintro ps _ rfl ⟨⟩ name v w hv hw
  obtain rfl := Option.some.inj (hv.symm.trans hw)
  exact Json.rewritten_refl _ v

/-- The joined properties of two shapes over one definition. -/
theorem DeclareAlike.overlay {own own' below : Entries Json} (hown : (Json.object own).Distinct)
    (hown' : (Json.object own').Distinct) (hbelow : (Json.object below).Distinct)
    (h : DeclareAlike (some (.object own)) (some (.object own'))) :
    DeclareAlike (some (.object (overlay below own))) (some (.object (overlay below own'))) := by
  obtain ⟨hd, hvalues⟩ := Json.distinct_object_iff.1 hown
  obtain ⟨hd', hvalues'⟩ := Json.distinct_object_iff.1 hown'
  have hnames : ∀ name, name ∈ Entries.names own ↔ name ∈ Entries.names own' := by
    cases h.framed with
    | some h =>
      cases h with
      | object h => exact fun _ => h.mem_iff
      | other hv => exact absurd rfl (hv own)
  have hrel (name : String) : Option.Rel (Json.Rewritten .storage)
      (Entries.find? (Shape.overlay below own) name)
      (Entries.find? (Shape.overlay below own') name) := by
    rw [find?_overlay hd, find?_overlay hd']
    exact rel_or (Json.rewritten_refl _)
      (Entries.rel_find? hnames (h.value own own' rfl rfl) name) _
  refine ⟨.some (.object (Entries.perm_names ?_ ?_ (Entries.mem_names_iff_of_rel hrel))), ?_⟩
  · exact (Json.distinct_object_iff.1 (distinct_overlay hbelow hvalues)).1
  · exact (Json.distinct_object_iff.1 (distinct_overlay hbelow hvalues')).1
  · rintro _ _ ⟨⟩ ⟨⟩ name v w hv hw
    exact Entries.rel_of_find? hrel hv hw

theorem DeclareAlike.overlaid {x y below : Option Json} (h : DeclareAlike x y)
    (hx : ∀ v ∈ x, v.Distinct) (hy : ∀ v ∈ y, v.Distinct) (hbelow : ∀ v ∈ below, v.Distinct) :
    DeclareAlike (overlaidProperties x below) (overlaidProperties y below) := by
  obtain ⟨hframed, hvalue⟩ := h
  cases hframed with
  | none => exact .refl _
  | @some v w hvw =>
    cases hvw with
    | other hv hvw =>
      rw [overlaidProperties_of_ne hv, overlaidProperties_of_ne (hvw.ne_object hv)]
      exact ⟨.some (.other hv hvw), hvalue⟩
    | @object own own' hnames =>
      have hjoined : DeclareAlike (some (.object own)) (some (.object own')) :=
        ⟨.some (.object hnames), hvalue⟩
      cases below with
      | none => exact hjoined
      | some below =>
        cases below with
        | object ps => exact hjoined.overlay (hx _ rfl) (hy _ rfl) (hbelow _ rfl)
        | _ => exact hjoined

/-- Members that differ in their presentation only do so over a definition, too. -/
theorem rewritten_overlayMembers {own own' below : Entries Json} (hown : (Json.object own).Distinct)
    (hown' : (Json.object own').Distinct) (hbelow : (Json.object below).Distinct)
    (h : Json.Rewritten .storage (.object own) (.object own')) :
    Json.Rewritten .storage (.object (overlayMembers below own))
      (.object (overlayMembers below own')) := by
  have hd := (Json.distinct_object_iff.1 hown).1
  have hd' := (Json.distinct_object_iff.1 hown').1
  have hor {R : Json → Json → Prop} (hR : ∀ v, R v v) {name : String} (hname : name ≠ "properties")
      (hrel : Option.Rel R (Entries.find? own name) (Entries.find? own' name)) :
      Option.Rel R (Entries.find? (overlayMembers below own) name)
        (Entries.find? (overlayMembers below own') name) := by
    rw [find?_overlayMembers hname hd, find?_overlayMembers hname hd']
    exact rel_or hR hrel _
  cases h with
  | other hv => exact absurd rfl (hv own)
  | node keyword properties items property item =>
    have hproperties := DeclareAlike.overlaid ⟨properties, property⟩
      (fun v hv => hown.find? hv) (fun v hv => hown'.find? hv)
      fun v (hv : Entries.find? below "properties" = some v) => hbelow.find? hv
    rw [← find?_overlayMembers_properties hd, ← find?_overlayMembers_properties hd']
      at hproperties
    refine .node (fun name hname => hor Json.Reordered.refl ?_ (keyword name hname))
      hproperties.framed (hor (Json.Framed.refl fun _ => trivial) (by decide) items)
      hproperties.value fun is js his hjs => ?_
    · rintro rfl
      exact hname List.mem_cons_self
    · have hitem := hor (R := fun v w => ∀ is js, v = .object is → w = .object js →
          Json.Rewritten .storage v w) (fun v _ _ _ _ => Json.rewritten_refl _ v)
        (show "items" ≠ "properties" by decide) (rel_imp items fun v hv w hw _ is js his hjs => by
          subst his hjs
          exact item is js hv hw)
      rw [his, hjs] at hitem
      cases hitem with
      | some h => exact h is js rfl rfl

/-! ## Inlining -/

section Inline

variable {d : Definitions}

/-- Properties are inlined alike if their shapes are. -/
theorem exists_inlineProperties {properties properties' ps : Option (Entries Shape)}
    (names : Option.Rel (fun ps qs => (Entries.names ps).Perm (Entries.names qs)) properties
      properties')
    (hnodup : ∀ qs ∈ properties', (Entries.names qs).Nodup)
    (ih : ∀ ps ∈ properties, ∀ qs ∈ properties', ∀ name s t, Entries.find? ps name = some s →
      Entries.find? qs name = some t → ∀ s', s.inline d = .ok s' →
      ∃ t', t.inline d = .ok t' ∧ s'.StoredAlike t')
    (h : inlineProperties d properties = .ok ps) :
    ∃ qs, inlineProperties d properties' = .ok qs ∧
      Option.Rel (fun ps qs => (Entries.names ps).Perm (Entries.names qs)) ps qs ∧
      ∀ as ∈ ps, ∀ bs ∈ qs, ∀ name s t, Entries.find? as name = some s →
        Entries.find? bs name = some t → s.StoredAlike t := by
  cases names with
  | none =>
    rw [inlineProperties] at h
    obtain rfl := Except.ok.inj h
    refine ⟨none, by rw [inlineProperties], .none, ?_⟩
    rintro _ ⟨⟩
  | @some own own' names =>
    rw [inlineProperties] at h
    obtain ⟨as, has, rfl⟩ := Except.map_eq_ok_iff.1 h
    rw [inlineList_eq_traverse] at has
    obtain ⟨bs, hbs, hbnames, hrelated⟩ := Entries.exists_traverse_of_rel (hnodup own' rfl)
      (fun _ => names.mem_iff) (ih own rfl own' rfl) has
    refine ⟨some bs, ?_, .some ?_, ?_⟩
    · rw [inlineProperties, inlineList_eq_traverse, hbs]; rfl
    · rw [(Entries.find?_traverse has).1, hbnames]; exact names
    · rintro _ ⟨⟩ _ ⟨⟩
      exact hrelated

/-- Items are inlined alike if their shapes are. -/
theorem exists_inlineItems {items items' i : Option Shape}
    (isSome_items : items.isSome = items'.isSome)
    (ih : ∀ s ∈ items, ∀ t ∈ items', ∀ s', s.inline d = .ok s' →
      ∃ t', t.inline d = .ok t' ∧ s'.StoredAlike t')
    (h : inlineItems d items = .ok i) :
    ∃ j, inlineItems d items' = .ok j ∧ i.isSome = j.isSome ∧
      ∀ s ∈ i, ∀ t ∈ j, s.StoredAlike t := by
  cases items <;> cases items' <;> cases isSome_items
  · rw [inlineItems] at h
    obtain rfl := Except.ok.inj h
    refine ⟨none, by rw [inlineItems], rfl, ?_⟩
    rintro _ ⟨⟩
  · rw [inlineItems] at h
    obtain ⟨s', hs', rfl⟩ := Except.map_eq_ok_iff.1 h
    obtain ⟨t', ht', hrelated⟩ := ih _ rfl _ rfl s' hs'
    refine ⟨some t', by rw [inlineItems, ht']; rfl, rfl, ?_⟩
    rintro _ ⟨⟩ _ ⟨⟩
    exact hrelated

variable (hd : d.Distinct)
include hd

theorem StoredAlike.inlineReference {s t : Shape} (h : s.StoredAlike t)
    (hs : s.Everywhere WellFormed) (ht : t.Everywhere WellFormed) {uri : String} {s' : Shape}
    (hs' : inlineReference d uri s = .ok s') :
    ∃ t', Shape.inlineReference d uri t = .ok t' ∧ s'.StoredAlike t' := by
  rw [Shape.inlineReference] at hs' ⊢
  cases hbody : d.find? uri with
  | none =>
    rw [hbody] at hs'
    cases hs'
  | some body =>
    rw [hbody] at hs'
    have hbelow := Json.distinct_members (hd.find? hbody)
    have hdistinct {s : Shape} (hs : s.Everywhere WellFormed) :
        (Json.object (overlayMembers body.members s.toMembers)).Distinct :=
      distinct_overlayMembers hbelow (Json.distinct_object_iff.1 (distinct_toJson hs)).2
    exact storedAlike_of_rewritten (rewritten_overlayMembers (distinct_toJson hs)
      (distinct_toJson ht) hbelow (h.rewritten hs ht)) (hdistinct hs) (hdistinct ht) "#" s' hs'

/-- Shapes that are stored alike stay so when definitions are inlined: where that succeeds for one
of them, it does for the other. -/
theorem StoredAlike.inline {s t : Shape} (h : s.StoredAlike t) (hs : s.Everywhere WellFormed)
    (ht : t.Everywhere WellFormed) :
    ∀ s', s.inline d = .ok s' → ∃ t', t.inline d = .ok t' ∧ s'.StoredAlike t' := by
  induction h with
  | bare h =>
    intro s' hs'
    rw [Shape.inline] at hs' ⊢
    exact (StoredAlike.bare h).inlineReference hd hs ht hs'
  | @typed type reference format _ _ _ _ keywords keywords' keyword names isSome_items _ _
      ihproperty ihitem =>
    intro s' hs'
    obtain ⟨hproperties, hitems⟩ := forall_parts_typed.1 fun s hmem => hs.within hmem
    obtain ⟨hproperties', hitems'⟩ := forall_parts_typed.1 fun t hmem => ht.within hmem
    obtain ⟨ps, i, hps, hi, hs'⟩ := inline_typed_eq_ok hs'
    obtain ⟨qs, hqs, hnames, hproperty⟩ := exists_inlineProperties names ht.here.2
      (fun as has bs hbs name a b ha hb => ihproperty as has bs hbs name a b ha hb
        (hproperties as has _ (Entries.mem_of_find? ha))
        (hproperties' bs hbs _ (Entries.mem_of_find? hb))) hps
    obtain ⟨j, hj, hsome, hitem⟩ := exists_inlineItems isSome_items
      (fun a ha b hb => ihitem a ha b hb (hitems a ha) (hitems' b hb)) hi
    have hparts : StoredAlike (Shape.typed type reference format ps i keywords)
        (Shape.typed type reference format qs j keywords') :=
      .typed keyword hnames hsome hproperty hitem
    rw [inline_typed hqs hj]
    rcases hs' with ⟨rfl, rfl⟩ | ⟨uri, rfl, hs'⟩
    · exact ⟨_, rfl, hparts⟩
    · exact hparts.inlineReference hd
        (wellFormed_typed_of_inlined hs.here (fun s hmem _ => wellFormed_inline hd (hs.within hmem))
          hps hi)
        (wellFormed_typed_of_inlined ht.here (fun t hmem _ => wellFormed_inline hd (ht.within hmem))
          hqs hj) hs'

end Inline

end Shape

end PropStorage
