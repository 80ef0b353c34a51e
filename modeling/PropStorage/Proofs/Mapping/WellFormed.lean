import PropStorage.Mapping.Override
import PropStorage.Mapping.Script
import PropStorage.Proofs.Component.Settings
import PropStorage.Proofs.Component.Source
import PropStorage.Proofs.Mapping.Default
import PropStorage.Proofs.Shape.Inlining
import PropStorage.Proofs.Shape.Outline

/-!
# Well-formed mappings

No object within the settings of a mapping names a member twice, if none within a shape, a
definition or what an alteration puts in does:

* `Shape.distinct_defaultMapping?`: default mappings take their settings from the keywords;
* `Script.distinct_toAlteration`, `Override.distinct_toAlteration`: scripts add no settings, and
  overrides only their own;
* `Resolver.wellFormed_resolve`: so storable shapes are well-formed.
-/

namespace PropStorage

/-! ## Default mappings -/

/-- No object within the settings names a member twice. -/
def Draft.Distinct (d : Draft) : Prop :=
  FieldSettings.Distinct d.storageSettings ∧ FieldSettings.Distinct d.instanceSettings

theorem Draft.distinct_empty : (∅ : Draft).Distinct := ⟨nofun, nofun⟩

theorem FieldSettings.distinct_insert {settings : Option FieldSettings} (h : Distinct settings)
    (name : String) {value : Json} (hv : value.Distinct) :
    Distinct (some ((settings.getD ∅).insert name value)) := by
  rintro _ ⟨⟩ e he
  rcases Entries.mem_insertSorted he with rfl | he
  · exact hv
  · cases settings with
    | none => cases he
    | some s => exact h s rfl e he

namespace DefaultMapping

/-- No object within the settings names a member twice. -/
def Distinct (m : DefaultMapping) : Prop := m.toDraft.Distinct

theorem distinct_plain (expression : Expression) (widget : String) :
    (plain expression widget).Distinct :=
  ⟨nofun, nofun⟩

theorem Distinct.withStorageSetting {m : DefaultMapping} (h : m.Distinct) (name : String)
    {value : Json} (hv : value.Distinct) : (m.withStorageSetting name value).Distinct :=
  ⟨FieldSettings.distinct_insert h.1 name hv, h.2⟩

theorem Distinct.withInstanceSetting {m : DefaultMapping} (h : m.Distinct) (name : String)
    {value : Json} (hv : value.Distinct) : (m.withInstanceSetting name value).Distinct :=
  ⟨h.1, FieldSettings.distinct_insert h.2 name hv⟩

end DefaultMapping

namespace Shape

open DefaultMapping

theorem WellFormed.distinct_keyword {s : Shape} (h : s.WellFormed) {name : String} {v : Json}
    (hv : s.keyword? name = some v) : v.Distinct :=
  h.distinct_keywords (name, v) (Entries.mem_of_find? hv)

theorem WellFormed.distinct_enum {s : Shape} (h : s.WellFormed) {values : List Json}
    (hvalues : s.enum? = some values) : ∀ v ∈ values, v.Distinct := by
  obtain ⟨v, hv, harray⟩ := Option.bind_eq_some_iff.1 hvalues
  cases v <;> cases harray
  exact Json.distinct_array_iff.1 (h.distinct_keyword hv)

theorem distinct_allowedValues {values : List Json} (h : ∀ v ∈ values, v.Distinct) :
    (allowedValues values).Distinct := by
  refine Json.distinct_array_iff.2 fun item hitem => ?_
  obtain ⟨v, hv, rfl⟩ := List.mem_map.1 hitem
  simp [Json.Distinct, Json.DistinctMembers, Entries.names, h v hv]

theorem distinct_choice (fieldType : Name) {values : List Json} (h : ∀ v ∈ values, v.Distinct) :
    (choice fieldType values).Distinct :=
  (distinct_plain _ _).withStorageSetting _ (distinct_allowedValues h)

/-- What holds of a shape and of all shapes within it holds of its stored values. -/
theorem Everywhere.element? {P : Shape → Prop} {s element : Shape} (h : s.Everywhere P)
    (helement : s.element? = some element) : element.Everywhere P := by
  rw [Shape.element?] at helement
  split at helement
  · exact h.within (List.mem_append_right _ (Option.mem_toList.2 helement))
  · exact Option.some.inj helement ▸ h

section

variable {s : Shape} (hs : s.WellFormed) {m : DefaultMapping}
include hs

theorem distinct_stringMapping? (h : s.stringMapping? = some m) : m.Distinct := by
  cases stringProposal_of_stringMapping? h with
  | choice henum => exact distinct_choice _ (hs.distinct_enum henum)
  | date => exact (distinct_plain _ _).withStorageSetting _ trivial
  | link => exact (distinct_plain _ _).withInstanceSetting _ trivial
  | value => exact distinct_plain _ _
  | line => exact (distinct_plain _ _).withStorageSetting _ trivial

theorem distinct_withBound (keyword name : String) (h : m.Distinct) :
    (s.withBound keyword name m).Distinct := by
  unfold withBound
  split
  · rename_i bound hkeyword
    exact h.withInstanceSetting _ (hs.distinct_keyword hkeyword)
  · exact h

theorem distinct_numberMapping (fieldType : Name) : (s.numberMapping fieldType).Distinct := by
  rw [numberMapping_eq]
  exact distinct_withBound hs _ _ (distinct_withBound hs _ _ (distinct_plain _ _))

theorem distinct_numericMapping (fieldType listType : Name) :
    (s.numericMapping fieldType listType).Distinct := by
  unfold numericMapping
  split
  · rename_i values hvalues
    exact distinct_choice _ (hs.distinct_enum hvalues)
  · exact distinct_numberMapping hs fieldType

omit hs in
theorem distinct_objectMapping? (h : s.objectMapping? = some m) : m.Distinct := by
  obtain ⟨-, rfl⟩ | ⟨-, rfl⟩ := objectMapping?_cases h
  · exact distinct_plain _ _
  · exact (distinct_plain _ _).withStorageSetting _ trivial

end

/-- The default mapping of a well-formed shape. -/
theorem distinct_defaultMapping? {s : Shape} (hs : s.Everywhere WellFormed) {m : DefaultMapping}
    (h : s.defaultMapping? = some m) : m.Distinct := by
  -- an array is stored like its items, but for the cardinality
  obtain ⟨element, single, helement, harray, hsingle, hm⟩ := exists_single_of_defaultMapping? h
  have hwellFormed : element.WellFormed := (hs.element? helement).here
  suffices single.Distinct by rw [hm]; exact this
  cases singleProposal_of_defaultMapping? harray hsingle with
  | string _ h => exact distinct_stringMapping? hwellFormed h
  | integer => exact distinct_numericMapping hwellFormed _ _
  | number => exact distinct_numericMapping hwellFormed _ _
  | boolean => exact distinct_plain _ _
  | object _ h => exact distinct_objectMapping? h

end Shape

/-! ## Alterations -/

/-- Whether the shapes of a candidate are well-formed, and no object within its settings names a
member twice. -/
structure Candidate.WellFormed (c : Candidate) : Prop where
  shape : c.shape.Everywhere Shape.WellFormed
  effective : c.effective.Everywhere Shape.WellFormed
  draft : c.draft.Distinct

/-- Whether an alteration adds no object that names a member twice. -/
def Alteration.Distinct (a : Alteration) : Prop :=
  ∀ c : Candidate, c.WellFormed → (a.alter c).Distinct

/-- Such alterations keep a candidate well-formed. -/
theorem Alteration.wellFormed_applyAll {alterations : List Alteration}
    (halter : ∀ a ∈ alterations, a.Distinct) {c : Candidate} (h : c.WellFormed) :
    (applyAll alterations c).WellFormed := by
  induction alterations generalizing c with
  | nil => exact h
  | cons a alterations ih =>
    rw [List.forall_mem_cons] at halter
    exact ih halter.2 ⟨h.shape, h.effective, halter.1 c h⟩

theorem Draft.Distinct.clear {d : Draft} (h : d.Distinct) (field : DraftField) :
    (d.clear field).Distinct := by
  cases field with
  | storageSettings => exact ⟨nofun, h.2⟩
  | instanceSettings => exact ⟨h.1, nofun⟩
  | _ => exact h

theorem Draft.Distinct.override {values d : Draft} (hvalues : values.Distinct) (h : d.Distinct) :
    (values.override d).Distinct := by
  have horElse {a b : Option FieldSettings} (ha : FieldSettings.Distinct a)
      (hb : FieldSettings.Distinct b) : FieldSettings.Distinct (a <|> b) := by
    cases a with
    | none => exact hb
    | some s => exact ha
  exact ⟨horElse hvalues.1 h.1, horElse hvalues.2 h.2⟩

/-- No script adds settings. -/
theorem Script.distinct_toAlteration (name : String) (actions : List Action) :
    (toAlteration name actions).Distinct := by
  rintro ⟨shape, effective, d⟩ h
  have hrun (d : Draft) (hd : d.Distinct) : (run shape d actions).Distinct := by
    fun_induction run shape d actions with
    | case1 => exact hd
    | case2 d field rest ih => exact ih (hd.clear field)
    | case3 d text rest ih => exact ih hd
    | case4 d e rest ih => exact ih hd
    | case5 d format rest hformat ih => exact ih hd
    | case6 => exact hd
    | case7 d uri rest hreference ih => exact ih hd
    | case8 => exact hd
  exact hrun d h.draft

/-- An override adds its own settings only. -/
theorem Override.distinct_toAlteration {o : Override} (h : o.values.Distinct) :
    o.toAlteration.Distinct := by
  intro c hc
  show (o.alter c).Distinct
  rw [alter]
  split
  · exact h.override hc.draft
  · exact hc.draft

/-! ## Resolving -/

/-- Whether the shapes of a storable shape are well-formed, and no object within its settings names
a member twice. -/
structure StorableShape.WellFormed (s : StorableShape) : Prop where
  shape : s.shape.Everywhere Shape.WellFormed
  effective : s.effective.Everywhere Shape.WellFormed
  settings : (PropSettings.ofStorable s).Distinct

/-- Whether the definitions and the alterations add no object that names a member twice. -/
structure Resolver.Distinct (r : Resolver) : Prop where
  definitions : r.definitions.Distinct
  alterations : ∀ a ∈ r.alterations, a.Distinct

theorem Candidate.WellFormed.finish {c : Candidate} (h : c.WellFormed) {s : StorableShape}
    (hs : c.finish = .ok (some s)) : s.WellFormed := by
  obtain ⟨hshape, heffective, hstorage, hinstance⟩ := finish_eq_ok_some hs
  have hsettings : FieldSettings.Distinct s.storageSettings ∧
      FieldSettings.Distinct s.instanceSettings := by
    rw [hstorage, hinstance]
    exact h.draft
  exact ⟨hshape ▸ h.shape, heffective ▸ h.effective, hsettings⟩

namespace Resolver

variable {r : Resolver} (hr : r.Distinct) {shape : Shape}
  (hshape : shape.Everywhere Shape.WellFormed)
include hr hshape

theorem wellFormed_candidate : (r.candidate shape).WellFormed := by
  have hparts : (r.draftAndEffective shape).1.Distinct ∧
      (r.draftAndEffective shape).2.Everywhere Shape.WellFormed := by
    unfold draftAndEffective
    split
    · rename_i mapping hmapping
      exact ⟨Shape.distinct_defaultMapping? hshape hmapping, hshape⟩
    · split_ifs
      · split
        · rename_i inlined hinline
          have hinlined := Shape.wellFormed_inline hr.definitions hshape hinline
          refine ⟨?_, hinlined⟩
          cases hmapping : inlined.defaultMapping? with
          | none => exact Draft.distinct_empty
          | some mapping => exact Shape.distinct_defaultMapping? hinlined hmapping
        · exact ⟨Draft.distinct_empty, hshape⟩
      · exact ⟨Draft.distinct_empty, hshape⟩
  exact ⟨hshape, hparts.2, hparts.1⟩

/-- The storable shape of a well-formed shape. -/
theorem wellFormed_resolve {s : StorableShape} (h : r.resolve shape = .ok (some s)) :
    s.WellFormed :=
  (Alteration.wellFormed_applyAll hr.alterations (wellFormed_candidate hr hshape)).finish h

end Resolver

/-- The storable shapes of a component. -/
theorem ComponentSource.wellFormed_storables {source : ComponentSource} {r : Resolver}
    {c : ResolvedComponent} (hsource : source.Distinct) (hr : r.Distinct)
    (h : source.resolve r = .ok c) {prop : String} {s : StorableShape}
    (hs : c.storables.find? prop = some s) : s.WellFormed := by
  obtain ⟨hshapes, hstorables, -, -⟩ := resolve_eq_ok h
  obtain ⟨shape, hshape, hresolve⟩ := find?_storables hstorables hs
  exact Resolver.wellFormed_resolve hr (wellFormed_shapes hsource hshapes hshape) hresolve

end PropStorage
