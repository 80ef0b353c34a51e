import PropStorage.Mapping.Resolver
import PropStorage.Mapping.Snapshot
import PropStorage.Proofs.Mapping.Storable

/-!
# Mappings that fit

What it takes for a mapping to fit a shape (`Mapping.Fits`), and which rule comes first among those
that it breaks (`Mapping.Breaks`). `violation?` tells just that (`violation?_eq_none_iff`,
`violation?_eq_some_iff`).

The candidates that fit are those of the storable shapes (`Candidate.fits_iff`). Resolving a shape,
putting parts together and reading a snapshot all come down to this (`storable_iff_fits`).
-/

namespace PropStorage

/-! ## What a mapping has to satisfy -/

/-- The shape of each single value that is stored: an array stores its items one by one. -/
def Shape.element? (s : Shape) : Option Shape :=
  if s.type? = some .array then s.items? else some s

/-- The properties that an expression maps. -/
def Expression.sources : Expression → List Name
  | object o => o.targets.map Prod.fst
  | _ => []

namespace Mapping

/-- Just arrays have a cardinality, and a limited one lets an array hold two items. -/
structure CardinalityFits (shape : Shape) (cardinality : Option Cardinality) : Prop where
  isSome_iff : cardinality.isSome = true ↔ shape.type? = some .array
  limit : ∀ count, cardinality = some (.limited count) → 2 ≤ count

/-- The stored values have the property, if they declare any. -/
def Declares (shape : Shape) (property : Name) : Prop :=
  ∀ element ∈ shape.element?, ∀ properties ∈ element.properties?,
    property.text ∈ Entries.names properties

/-- A mapping that breaks no rule. -/
structure Fits (shape : Shape) (expression : Expression) (cardinality : Option Cardinality) :
    Prop where
  fieldType : expression.isFieldTypeExpression = true
  cardinality : CardinalityFits shape cardinality
  declared : ∀ source ∈ expression.sources, Declares shape source

/-- How a cardinality does not fit. -/
inductive BreaksCardinality (shape : Shape) : Option Cardinality → InvariantError → Prop where
  | missing (harray : shape.type? = some .array) : BreaksCardinality shape none .missingCardinality
  | limit {count : UInt32} (harray : shape.type? = some .array) (hcount : count < 2) :
    BreaksCardinality shape (some (.limited count)) (.arrayLimit count)
  | unexpected {cardinality : Cardinality} (hother : shape.type? ≠ some .array) :
    BreaksCardinality shape (some cardinality) (.unexpectedCardinality cardinality shape.type?)

/-- The first rule that a mapping breaks: on the expression, the cardinality, or the properties in
the order in which they are mapped. -/
inductive Breaks (shape : Shape) (expression : Expression) (cardinality : Option Cardinality) :
    InvariantError → Prop where
  | fieldType (h : expression.isFieldTypeExpression = false) :
    Breaks shape expression cardinality (.notAFieldType expression)
  | cardinality {error : InvariantError} (hfieldType : expression.isFieldTypeExpression = true)
    (h : BreaksCardinality shape cardinality error) : Breaks shape expression cardinality error
  | property {before after : List Name} {source : Name}
    (hfieldType : expression.isFieldTypeExpression = true)
    (hcardinality : CardinalityFits shape cardinality)
    (hsources : expression.sources = before ++ source :: after)
    (hbefore : ∀ n ∈ before, Declares shape n) (hsource : ¬Declares shape source) :
    Breaks shape expression cardinality (.undeclaredProperty source expression)

/-! ## Rule by rule -/

section Rules

variable {shape : Shape} {expression : Expression} {cardinality : Option Cardinality}
  {error : InvariantError}

theorem isArray_iff : shape.isArray = true ↔ shape.type? = some .array := decide_eq_true_iff

theorem cardinalityViolation?_eq_none_iff :
    cardinalityViolation? shape cardinality = none ↔ CardinalityFits shape cardinality := by
  unfold cardinalityViolation?
  split
  · rename_i harray
    have harray := isArray_iff.1 harray
    match cardinality with
    | none => exact iff_of_false nofun fun h => nomatch h.isSome_iff.2 harray
    | some .unlimited => exact iff_of_true rfl ⟨iff_of_true rfl harray, nofun⟩
    | some (.limited count) =>
      dsimp only
      split
      · rename_i hcount
        exact iff_of_false nofun fun h => UInt32.not_le.2 hcount (h.limit count rfl)
      · rename_i hcount
        refine iff_of_true rfl ⟨iff_of_true rfl harray, ?_⟩
        rintro _ ⟨⟩
        exact UInt32.not_lt.1 hcount
  · rename_i hother
    have hother := mt isArray_iff.2 hother
    cases cardinality with
    | none => exact iff_of_true rfl ⟨iff_of_false nofun hother, nofun⟩
    | some c => exact iff_of_false nofun fun h => hother (h.isSome_iff.1 rfl)

theorem cardinalityViolation?_eq_some_iff :
    cardinalityViolation? shape cardinality = some error ↔
      BreaksCardinality shape cardinality error := by
  constructor
  · intro h
    unfold cardinalityViolation? at h
    split at h
    · rename_i harray
      have harray := isArray_iff.1 harray
      split at h
      · obtain rfl := Option.some.inj h
        exact .missing harray
      · cases h
      · split at h
        · rename_i hcount
          obtain rfl := Option.some.inj h
          exact .limit harray hcount
        · cases h
    · rename_i hother
      obtain ⟨c, rfl, rfl⟩ := Option.map_eq_some_iff.1 h
      exact .unexpected (mt isArray_iff.2 hother)
  · intro h
    unfold cardinalityViolation?
    cases h with
    | missing harray => rw [if_pos (isArray_iff.2 harray)]
    | limit harray hcount => rw [if_pos (isArray_iff.2 harray)]; exact if_pos hcount
    | unexpected hother => rw [if_neg (mt isArray_iff.1 hother)]; rfl

theorem declared?_eq : declared? shape = shape.element?.bind Shape.properties? := by
  unfold declared? Shape.element?
  by_cases h : shape.type? = some .array
  · rw [if_pos (isArray_iff.2 h), if_pos h]
  · rw [if_neg (mt isArray_iff.1 h), if_neg h]; rfl

theorem declares_iff {property : Name} :
    Declares shape property ↔
      ∀ properties ∈ declared? shape, property.text ∈ Entries.names properties := by
  rw [declared?_eq, Declares]
  constructor
  · intro h properties hproperties
    obtain ⟨element, helement, hproperties⟩ := Option.bind_eq_some_iff.1 hproperties
    exact h element helement properties hproperties
  · intro h element helement properties hproperties
    exact h properties (Option.bind_eq_some_iff.2 ⟨element, helement, hproperties⟩)

theorem undeclared?_eq_some_iff {source : Name} :
    undeclared? shape expression = some source ↔
      ∃ before after, expression.sources = before ++ source :: after ∧
        (∀ n ∈ before, Declares shape n) ∧ ¬Declares shape source := by
  have hnone (h : ∀ source ∈ expression.sources, Declares shape source) :
      ¬∃ before after, expression.sources = before ++ source :: after ∧
        (∀ n ∈ before, Declares shape n) ∧ ¬Declares shape source := by
    rintro ⟨before, after, hsources, -, hsource⟩
    exact hsource (h source (hsources ▸ List.mem_append_right _ List.mem_cons_self))
  unfold undeclared?
  cases expression with
  | object o =>
    cases hdeclared : declared? shape with
    | none =>
      refine iff_of_false nofun (hnone fun source _ => declares_iff.2 fun _ hproperties => ?_)
      rw [hdeclared] at hproperties
      cases hproperties
    | some properties =>
      have hiff (n : Name) : Declares shape n ↔ n.text ∈ properties.names := by
        simp [declares_iff, hdeclared]
      simp only [hiff, Expression.sources, List.find?_eq_some_iff_append]
      simp
      tauto
  | _ => exact iff_of_false nofun (hnone fun source hsource => nomatch hsource)

theorem undeclared?_eq_none_iff :
    undeclared? shape expression = none ↔ ∀ source ∈ expression.sources, Declares shape source := by
  unfold undeclared?
  cases expression with
  | object o =>
    cases hdeclared : declared? shape with
    | none => simp [declares_iff, hdeclared]
    | some properties => simp [declares_iff, hdeclared, Expression.sources]
  | _ => simp [Expression.sources]

/-! ## All rules -/

/-- Just the mappings that fit break no rule. -/
theorem violation?_eq_none_iff :
    violation? shape expression cardinality = none ↔ Fits shape expression cardinality := by
  unfold violation?
  split
  · rename_i hfieldType
    cases hcardinality : cardinalityViolation? shape cardinality with
    | none =>
      show Option.map _ _ = none ↔ _
      rw [Option.map_eq_none_iff, undeclared?_eq_none_iff]
      exact ⟨fun h => ⟨hfieldType, cardinalityViolation?_eq_none_iff.1 hcardinality, h⟩,
        Fits.declared⟩
    | some e =>
      refine iff_of_false nofun fun h => ?_
      rw [cardinalityViolation?_eq_none_iff.2 h.cardinality] at hcardinality
      cases hcardinality
  · rename_i hfieldType
    exact iff_of_false nofun fun h => hfieldType h.fieldType

/-- The rule that is named is the first that the mapping breaks. -/
theorem violation?_eq_some_iff :
    violation? shape expression cardinality = some error ↔
      Breaks shape expression cardinality error := by
  unfold violation?
  split
  · rename_i hfieldType
    cases hcardinality : cardinalityViolation? shape cardinality with
    | none =>
      have hfits := cardinalityViolation?_eq_none_iff.1 hcardinality
      show Option.map _ _ = some error ↔ _
      rw [Option.map_eq_some_iff]
      constructor
      · rintro ⟨source, hsource, rfl⟩
        obtain ⟨before, after, hsources, hbefore, hsource⟩ := undeclared?_eq_some_iff.1 hsource
        exact .property hfieldType hfits hsources hbefore hsource
      · intro h
        cases h with
        | fieldType h => exact absurd hfieldType (Bool.eq_false_iff.1 h)
        | cardinality _ h =>
          rw [cardinalityViolation?_eq_some_iff.2 h] at hcardinality
          cases hcardinality
        | property _ _ hsources hbefore hsource =>
          exact ⟨_, undeclared?_eq_some_iff.2 ⟨_, _, hsources, hbefore, hsource⟩, rfl⟩
    | some e =>
      have hbreaks := cardinalityViolation?_eq_some_iff.1 hcardinality
      show some e = some error ↔ _
      constructor
      · intro h
        exact Option.some.inj h ▸ .cardinality hfieldType hbreaks
      · intro h
        cases h with
        | fieldType h => exact absurd hfieldType (Bool.eq_false_iff.1 h)
        | cardinality _ h => exact hcardinality.symm.trans (cardinalityViolation?_eq_some_iff.2 h)
        | property _ h =>
          rw [cardinalityViolation?_eq_none_iff.2 h] at hcardinality
          cases hcardinality
  · rename_i hfieldType
    rw [Option.some.injEq]
    constructor
    · rintro rfl
      exact .fieldType (Bool.eq_false_iff.2 hfieldType)
    · intro h
      cases h with
      | fieldType => rfl
      | cardinality h => exact absurd h hfieldType
      | property h => exact absurd h hfieldType

end Rules

end Mapping

/-! ## Candidates that fit -/

namespace Candidate

/-- Whether a candidate has an expression and a widget, and the mapping fits. -/
def Fits (c : Candidate) : Prop :=
  ∃ expression widget, c.draft.expression = some expression ∧ c.draft.widget = some widget ∧
    Mapping.Fits c.effective expression c.draft.cardinality

/-- The first rule that a candidate breaks. -/
inductive Breaks (c : Candidate) : InvariantError → Prop where
  | noExpression {widget : String} (hexpression : c.draft.expression = none)
    (hwidget : c.draft.widget = some widget) : Breaks c (.widgetWithoutExpression widget)
  | noWidget {expression : Expression} (hexpression : c.draft.expression = some expression)
    (hwidget : c.draft.widget = none) : Breaks c (.expressionWithoutWidget expression)
  | mapping {expression : Expression} {widget : String} {error : InvariantError}
    (hexpression : c.draft.expression = some expression) (hwidget : c.draft.widget = some widget)
    (h : Mapping.Breaks c.effective expression c.draft.cardinality error) : Breaks c error

end Candidate

namespace StorableShape

/-- The candidate that a storable shape completes. -/
def candidate (m : StorableShape) : Candidate where
  shape := m.shape
  effective := m.effective
  draft := ⟨some m.expression, some m.widget, m.cardinality, m.storageSettings, m.instanceSettings⟩

section Build

variable {shape effective : Shape} {expression : Expression} {widget : String}
  {cardinality : Option Cardinality} {storageSettings instanceSettings : Option FieldSettings}

/-- Parts are put together as they are. -/
theorem build_eq_ok_iff {m : StorableShape} :
    build shape effective expression widget cardinality storageSettings instanceSettings = .ok m ↔
      m.candidate = ⟨shape, effective, some expression, some widget, cardinality, storageSettings,
        instanceSettings⟩ := by
  constructor
  · intro h
    unfold build at h
    split at h
    · cases h; rfl
    · cases h
  · intro h
    cases h
    exact m.build_self

theorem build_eq_error_iff {error : InvariantError} :
    build shape effective expression widget cardinality storageSettings instanceSettings
      = .error error ↔ Mapping.Breaks effective expression cardinality error := by
  rw [← Mapping.violation?_eq_some_iff]
  unfold build
  split
  · rename_i hnone
    simp [hnone]
  · rename_i e hsome
    simp [hsome]

end Build

end StorableShape

namespace Candidate

variable {c : Candidate}

/-- Just the candidates that fit can be completed. -/
theorem fits_iff : c.Fits ↔ ∃ m : StorableShape, m.candidate = c := by
  constructor
  · obtain ⟨shape, effective, _, _, cardinality, storageSettings, instanceSettings⟩ := c
    rintro ⟨expression, widget, rfl, rfl, hfits⟩
    exact ⟨⟨shape, effective, expression, widget, cardinality, storageSettings, instanceSettings,
      Mapping.violation?_eq_none_iff.2 hfits⟩, rfl⟩
  · rintro ⟨m, rfl⟩
    exact ⟨m.expression, m.widget, rfl, rfl, Mapping.violation?_eq_none_iff.1 m.fits⟩

theorem finish_eq_ok_none_iff :
    c.finish = .ok none ↔ c.draft.expression = none ∧ c.draft.widget = none := by
  unfold finish
  split
  · rename_i hexpression hwidget
    exact iff_of_true rfl ⟨hexpression, hwidget⟩
  · rename_i widget hexpression hwidget
    exact iff_of_false nofun fun h => nomatch hwidget.symm.trans h.2
  · rename_i expression hexpression hwidget
    exact iff_of_false nofun fun h => nomatch hexpression.symm.trans h.1
  · rename_i expression widget hexpression hwidget
    refine iff_of_false (fun h => ?_) fun h => nomatch hexpression.symm.trans h.1
    obtain ⟨m, -, hm⟩ := Except.map_eq_ok_iff.1 h
    cases hm

theorem finish_eq_ok_some_iff {m : StorableShape} :
    c.finish = .ok (some m) ↔ m.candidate = c := by
  constructor
  · obtain ⟨shape, effective, expression, widget, cardinality, storageSettings,
      instanceSettings⟩ := c
    intro h
    unfold finish at h
    split at h
    · cases h
    · cases h
    · cases h
    · rename_i hexpression hwidget
      obtain rfl : expression = _ := hexpression
      obtain rfl : widget = _ := hwidget
      obtain ⟨m', hbuild, hm⟩ := Except.map_eq_ok_iff.1 h
      obtain rfl := Option.some.inj hm
      exact StorableShape.build_eq_ok_iff.1 hbuild
  · rintro rfl
    exact Except.map_eq_ok_iff.2 ⟨m, m.build_self, rfl⟩

theorem finish_eq_error_iff {error : InvariantError} :
    c.finish = .error error ↔ c.Breaks error := by
  constructor
  · intro h
    unfold finish at h
    split at h
    · cases h
    · rename_i hexpression hwidget
      cases h
      exact .noExpression hexpression hwidget
    · rename_i hexpression hwidget
      cases h
      exact .noWidget hexpression hwidget
    · rename_i hexpression hwidget
      exact .mapping hexpression hwidget
        (StorableShape.build_eq_error_iff.1 (Except.map_eq_error_iff.1 h))
  · intro h
    unfold finish
    cases h with
    | noExpression hexpression hwidget => rw [hexpression, hwidget]
    | noWidget hexpression hwidget => rw [hexpression, hwidget]
    | mapping hexpression hwidget h =>
      rw [hexpression, hwidget]
      show some <$> _ = _
      rw [StorableShape.build_eq_error_iff.2 h]
      rfl

end Candidate

namespace Decoder

variable {α ε : Type}

theorem present_eq_ok_iff {o : Option α} {a : α} : present o = .ok a ↔ o = some a := by
  cases o <;> simp [present]

theorem mapError_eq_ok_iff {f : ε → DecodeError} {x : Except ε α} {a : α} :
    mapError f x = .ok a ↔ x = .ok a := by
  cases x <;> simp [mapError]

end Decoder

namespace StorableShape

theorem exists_build_eq_ok_iff {shape effective : Shape} {expression : Expression}
    {widget : String} {cardinality : Option Cardinality}
    {storageSettings instanceSettings : Option FieldSettings} :
    (∃ m, build shape effective expression widget cardinality storageSettings instanceSettings
      = .ok m) ↔ Mapping.Fits effective expression cardinality := by
  simp only [build_eq_ok_iff, ← Candidate.fits_iff]
  constructor
  · rintro ⟨_, _, ⟨⟩, ⟨⟩, h⟩
    exact h
  · exact fun h => ⟨expression, widget, rfl, rfl, h⟩

/-! ## Snapshots -/

/-- The candidate that the parts of a snapshot make up. -/
def Parts.candidate? (p : Parts) : Option Candidate :=
  p.shape.map fun shape => ⟨shape, p.effective.getD shape, p.draft⟩

theorem ofParts_eq_ok_iff {p : Parts} {m : StorableShape} :
    ofParts p = .ok m ↔ p.candidate? = some m.candidate := by
  simp only [ofParts, Except.bind_eq_ok_iff, Decoder.present_eq_ok_iff,
    Decoder.mapError_eq_ok_iff, build_eq_ok_iff]
  obtain ⟨shape, effective, expression, widget, cardinality, storageSettings, instanceSettings⟩ := p
  constructor
  · rintro ⟨shape, rfl, expression, rfl, widget, rfl, h⟩
    exact congrArg some h.symm
  · intro h
    obtain ⟨shape, rfl, h⟩ := Option.map_eq_some_iff.1 h
    cases congrArg Candidate.draft h
    exact ⟨shape, rfl, m.expression, rfl, m.widget, rfl, h.symm⟩

theorem ofSnapshot_eq_ok_iff {v : Json} {m : StorableShape} :
    ofSnapshot v = .ok m ↔
      ∃ p, snapshotFormat.decode .empty v = .ok p ∧ p.candidate? = some m.candidate := by
  simp only [ofSnapshot, Except.bind_eq_ok_iff, ofParts_eq_ok_iff]

end StorableShape

/-! ## All ways to a storable shape -/

/-- Settings give a storable shape just if their expression can be read and the mapping fits what
the shape becomes. -/
theorem PropSettings.exists_toStorable_eq_ok_iff {settings : PropSettings} {r : Resolver}
    {prop : String} {shape : Shape} :
    (∃ m, settings.toStorable r prop shape = .ok m) ↔
      ∃ expression, settings.parseExpression = .ok expression ∧
        Mapping.Fits (r.effective shape) expression settings.cardinality := by
  unfold toStorable
  cases hexpression : settings.parseExpression with
  | error e => simp
  | ok expression =>
    have hfits : (∃ m, StorableShape.build shape (r.effective shape) expression settings.widget
        settings.cardinality settings.storageSettings settings.instanceSettings = .ok m) ↔
        Mapping.Fits (r.effective shape) expression settings.cardinality :=
      StorableShape.exists_build_eq_ok_iff
    simp only [Except.ok.injEq, exists_eq_left']
    rw [← hfits]
    split
    · rename_i e herror
      simp [herror]
    · rename_i m hm
      exact iff_of_true ⟨m, rfl⟩ ⟨m, hm⟩

/-- A shape has no mapping just if the altered candidate has neither an expression nor a widget, and
it has the mapping of that candidate just if this fits; otherwise the first rule that is broken is
named. Parts that are put together, settings and snapshots give a storable shape just if what they
hold fits, so all storable shapes fit. -/
theorem storable_iff_fits :
    (∀ (r : Resolver) (s : Shape),
      (r.altered s).shape = s ∧ (r.altered s).effective = r.effective s ∧
      (r.resolve s = .ok none ↔
        (r.altered s).draft.expression = none ∧ (r.altered s).draft.widget = none) ∧
      ((∃ m, r.resolve s = .ok (some m)) ↔ (r.altered s).Fits) ∧
      (∀ m, r.resolve s = .ok (some m) ↔ m.candidate = r.altered s) ∧
      ∀ error, r.resolve s = .error error ↔ (r.altered s).Breaks error) ∧
    (∀ shape effective expression widget cardinality storageSettings instanceSettings,
      ((∃ m, StorableShape.build shape effective expression widget cardinality storageSettings
          instanceSettings = .ok m) ↔ Mapping.Fits effective expression cardinality) ∧
      ∀ error, StorableShape.build shape effective expression widget cardinality storageSettings
        instanceSettings = .error error ↔ Mapping.Breaks effective expression cardinality error) ∧
    (∀ (settings : PropSettings) (r : Resolver) (prop : String) (shape : Shape),
      (∃ m, settings.toStorable r prop shape = .ok m) ↔
        ∃ expression, settings.parseExpression = .ok expression ∧
          Mapping.Fits (r.effective shape) expression settings.cardinality) ∧
    (∀ v, (∃ m, StorableShape.ofSnapshot v = .ok m) ↔
      ∃ parts c, StorableShape.snapshotFormat.decode .empty v = .ok parts ∧
        parts.candidate? = some c ∧ c.Fits) ∧
    ∀ m : StorableShape, Mapping.Fits m.effective m.expression m.cardinality := by
  refine ⟨fun r s => ?_, fun _ _ _ _ _ _ _ => ?_, fun _ _ _ _ => ?_, fun v => ?_, fun m => ?_⟩
  · obtain ⟨hshape, heffective⟩ := Alteration.applyAll_shape r.alterations (r.candidate s)
    have hstored (m : StorableShape) : r.resolve s = .ok (some m) ↔ m.candidate = r.altered s :=
      Candidate.finish_eq_ok_some_iff
    refine ⟨hshape, heffective, Candidate.finish_eq_ok_none_iff, ?_, hstored,
      fun error => Candidate.finish_eq_error_iff⟩
    rw [Candidate.fits_iff]
    exact exists_congr hstored
  · exact ⟨StorableShape.exists_build_eq_ok_iff, fun error => StorableShape.build_eq_error_iff⟩
  · exact PropSettings.exists_toStorable_eq_ok_iff
  · simp only [StorableShape.ofSnapshot_eq_ok_iff, Candidate.fits_iff]
    constructor
    · rintro ⟨m, parts, hparts, hm⟩
      exact ⟨parts, m.candidate, hparts, hm, m, rfl⟩
    · rintro ⟨parts, _, hparts, hc, m, rfl⟩
      exact ⟨m, parts, hparts, hc⟩
  · exact Mapping.violation?_eq_none_iff.1 m.fits

end PropStorage
