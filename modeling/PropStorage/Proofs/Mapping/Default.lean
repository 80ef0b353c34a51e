import PropStorage.Proofs.Mapping.Fitting

/-!
# Default mappings

What the rules for default mappings propose: a mapping of a field type, with a cardinality just for
arrays (`Shape.cardinalityFits_of_defaultMapping?`), that maps properties just for the two objects
that are always known, and then a fixed list of them (`Shape.mappedProperties`).

Whether the stored values declare these properties is not looked at. So without alterations a shape
can be resolved just if they do, wherever a default mapping is proposed
(`Resolver.exists_resolve_unaltered_eq_ok_iff`), and the only error is that they do not
(`Resolver.resolve_unaltered_eq_error`).
-/

namespace PropStorage

namespace Shape

open DefaultMapping

/-! ## The rules -/

/-- What the rule for strings proposes: a choice, a date, a link, a value without settings, or a
line of text of limited length. -/
inductive StringProposal (s : Shape) : DefaultMapping → Prop where
  | choice {values : List Json} (henum : s.enum? = some values) :
    StringProposal s (choice ⟨"list_string", by decide⟩ values)
  | date (kind : String) : StringProposal s (dateMapping kind)
  | link : StringProposal s linkMapping
  | value (fieldType : Name) (widget : String) : StringProposal s (toValue fieldType widget)
  | line (length : Nat) : StringProposal s
    ((toValue ⟨"string", by decide⟩ "string_textfield").withStorageSetting "max_length"
      (.natural length))

theorem textMapping_cases (s : Shape) :
    s.textMapping = toValue ⟨"text_long", by decide⟩ "text_textarea" ∨
      s.textMapping = toValue ⟨"string", by decide⟩ "string_textfield" ∨
      ∃ length, s.textMapping
        = (toValue ⟨"string", by decide⟩ "string_textfield").withStorageSetting "max_length"
          (.natural length) := by
  unfold textMapping lineMapping
  split
  · exact .inl rfl
  · dsimp only
    split
    · exact .inr (.inr ⟨_, rfl⟩)
    · exact .inr (.inl rfl)

theorem formatMapping?_cases {s : Shape} {format : String} {m : DefaultMapping}
    (h : s.formatMapping? format = some m) :
    (∃ kind, m = dateMapping kind) ∨ m = toValue ⟨"uri", by decide⟩ "uri" ∨ m = linkMapping ∨
      m = toValue ⟨"email", by decide⟩ "email_default" ∨ m = s.textMapping := by
  have haddress (h : (if s.isImageAddress then none else some linkMapping) = some m) :
      m = linkMapping := by
    split at h <;> cases h
    rfl
  unfold formatMapping? at h
  split at h
  case h_1 | h_2 => exact .inl ⟨_, (Option.some.inj h).symm⟩
  case h_3 | h_4 => exact .inr (.inl (Option.some.inj h).symm)
  case h_5 | h_6 => exact .inr (.inr (.inl (haddress h)))
  case h_7 | h_8 => exact .inr (.inr (.inr (.inl (Option.some.inj h).symm)))
  case h_9 => exact .inr (.inr (.inr (.inr (Option.some.inj h).symm)))

theorem stringProposal_textMapping (s : Shape) : s.StringProposal s.textMapping := by
  obtain h | h | ⟨length, h⟩ := s.textMapping_cases
  · exact h ▸ .value _ _
  · exact h ▸ .value _ _
  · exact h ▸ .line length

theorem stringProposal_of_formatMapping? {s : Shape} {format : String} {m : DefaultMapping}
    (h : s.formatMapping? format = some m) : s.StringProposal m := by
  obtain ⟨kind, rfl⟩ | rfl | rfl | rfl | rfl := formatMapping?_cases h
  · exact .date kind
  · exact .value _ _
  · exact .link
  · exact .value _ _
  · exact s.stringProposal_textMapping

theorem stringProposal_of_stringMapping? {s : Shape} {m : DefaultMapping}
    (h : s.stringMapping? = some m) : s.StringProposal m := by
  unfold stringMapping? at h
  split at h
  · rename_i values hvalues
    cases h
    exact .choice hvalues
  · split at h
    · exact stringProposal_of_formatMapping? h
    · cases h
      exact s.stringProposal_textMapping

/-- The mapping with a setting for a bound, if the shape has the keyword. -/
def withBound (s : Shape) (keyword name : String) (m : DefaultMapping) : DefaultMapping :=
  match s.keyword? keyword with
  | some bound => m.withInstanceSetting name bound
  | none => m

theorem numberMapping_eq (s : Shape) (fieldType : Name) :
    s.numberMapping fieldType
      = s.withBound "maximum" "max" (s.withBound "minimum" "min" (toValue fieldType "number")) :=
  rfl

theorem itemMapping?_eq (items : Option Shape) :
    itemMapping? items = items.bind defaultMapping? := by
  cases items <;> rw [itemMapping?] <;> rfl

/-- One rule for each type. -/
theorem defaultMapping?_eq (s : Shape) :
    s.defaultMapping? =
      match s.type? with
      | none => none
      | some .string => s.stringMapping?
      | some .integer => some (s.numericMapping ⟨"integer", by decide⟩ ⟨"list_integer", by decide⟩)
      | some .number => some (s.numericMapping ⟨"float", by decide⟩ ⟨"list_float", by decide⟩)
      | some .boolean =>
        some (DefaultMapping.toValue ⟨"boolean", by decide⟩ "boolean_checkbox")
      | some .object => s.objectMapping?
      | some .array =>
        match s.arrayCardinality?, s.items?.bind defaultMapping? with
        | some cardinality, some mapping =>
          if mapping.cardinality.isSome then none
          else some { mapping with cardinality := some cardinality }
        | _, _ => none := by
  cases s with
  | bare => rfl
  | typed type reference format properties items keywords =>
    cases type <;> first | rfl | (rw [defaultMapping?, itemMapping?_eq]; rfl)

theorem objectMapping?_cases {s : Shape} {m : DefaultMapping} (h : s.objectMapping? = some m) :
    (s.reference? = some imageUri ∧ m = plain (.object imageExpression) "image_image") ∨
      (s.reference? = some dateRangeUri ∧
        m = (plain (.object dateRangeExpression) "daterange_default").withStorageSetting
          "datetime_type" (.string "date")) := by
  unfold objectMapping? at h
  split at h
  · cases h
  · rename_i uri hreference
    split at h
    · rename_i himage
      exact .inl ⟨hreference.trans (congrArg some himage), (Option.some.inj h).symm⟩
    · split at h
      · rename_i hrange
        exact .inr ⟨hreference.trans (congrArg some hrange), (Option.some.inj h).symm⟩
      · cases h

/-- What the rule for the type of a shape proposes, if the shape is not an array. -/
inductive SingleProposal (s : Shape) : DefaultMapping → Prop where
  | string {m : DefaultMapping} (htype : s.type? = some .string) (h : s.stringMapping? = some m) :
    SingleProposal s m
  | integer (htype : s.type? = some .integer) :
    SingleProposal s (s.numericMapping ⟨"integer", by decide⟩ ⟨"list_integer", by decide⟩)
  | number (htype : s.type? = some .number) :
    SingleProposal s (s.numericMapping ⟨"float", by decide⟩ ⟨"list_float", by decide⟩)
  | boolean (htype : s.type? = some .boolean) :
    SingleProposal s (toValue ⟨"boolean", by decide⟩ "boolean_checkbox")
  | object {m : DefaultMapping} (htype : s.type? = some .object) (h : s.objectMapping? = some m) :
    SingleProposal s m

theorem singleProposal_of_defaultMapping? {s : Shape} {m : DefaultMapping}
    (harray : s.type? ≠ some .array) (h : s.defaultMapping? = some m) : s.SingleProposal m := by
  rw [defaultMapping?_eq] at h
  cases htype : s.type? with
  | none =>
    rw [htype] at h
    cases h
  | some type =>
    rw [htype] at h
    cases type with
    | string => exact .string htype h
    | integer =>
      obtain rfl := Option.some.inj h
      exact .integer htype
    | number =>
      obtain rfl := Option.some.inj h
      exact .number htype
    | boolean =>
      obtain rfl := Option.some.inj h
      exact .boolean htype
    | object => exact .object htype h
    | array => exact absurd htype harray

end Shape

/-! ## One value -/

namespace DefaultMapping

/-- Whether a mapping stores single values in one property of a field type. -/
def IsProp (m : DefaultMapping) : Prop :=
  (∃ e, m.expression = .fieldType e) ∧ m.cardinality = none

theorem isProp_toProp (fieldType prop : Name) (widget : String) :
    (toProp fieldType prop widget).IsProp :=
  ⟨⟨_, rfl⟩, rfl⟩

theorem IsProp.withStorageSetting {m : DefaultMapping} (h : m.IsProp) (name : String)
    (value : Json) : (m.withStorageSetting name value).IsProp :=
  h

theorem IsProp.withInstanceSetting {m : DefaultMapping} (h : m.IsProp) (name : String)
    (value : Json) : (m.withInstanceSetting name value).IsProp :=
  h

end DefaultMapping

namespace Shape

open DefaultMapping

theorem isProp_choice (fieldType : Name) (values : List Json) : (choice fieldType values).IsProp :=
  (isProp_toProp _ _ _).withStorageSetting _ _

/-- The default mapping of a string stores a value of it. -/
theorem StringProposal.isProp {s : Shape} {m : DefaultMapping} (h : s.StringProposal m) :
    m.IsProp := by
  cases h with
  | choice => exact isProp_choice _ _
  | date => exact (isProp_toProp _ _ _).withStorageSetting _ _
  | link => exact (isProp_toProp _ _ _).withInstanceSetting _ _
  | value => exact isProp_toProp _ _ _
  | line => exact (isProp_toProp _ _ _).withStorageSetting _ _

theorem isProp_withBound (s : Shape) (keyword name : String) {m : DefaultMapping} (h : m.IsProp) :
    (s.withBound keyword name m).IsProp := by
  unfold withBound
  split
  · exact h.withInstanceSetting _ _
  · exact h

theorem isProp_numericMapping (s : Shape) (fieldType listType : Name) :
    (s.numericMapping fieldType listType).IsProp := by
  unfold numericMapping
  split
  · exact isProp_choice _ _
  · rw [numberMapping_eq]
    exact s.isProp_withBound _ _ (s.isProp_withBound _ _ (isProp_toProp _ _ _))

/-! ## Shapes other than arrays -/

/-- The properties that the default mapping of a shape maps: those of the two objects that are
always known. -/
def mappedProperties (s : Shape) : List String :=
  match s.type?, s.reference? with
  | some .object, some uri =>
    if uri = imageUri then ["src", "alt", "width", "height"]
    else if uri = dateRangeUri then ["from", "to"]
    else []
  | _, _ => []

end Shape

namespace DefaultMapping

/-- Whether a mapping is one for single values of the shape. -/
structure Suits (m : DefaultMapping) (s : Shape) : Prop where
  fieldType : m.expression.isFieldTypeExpression = true
  cardinality : m.cardinality = none
  sources : m.expression.sources.map Name.text = s.mappedProperties

theorem IsProp.suits {m : DefaultMapping} (h : m.IsProp) {s : Shape}
    (hs : s.mappedProperties = []) : m.Suits s := by
  obtain ⟨⟨e, he⟩, hcardinality⟩ := h
  refine ⟨?_, hcardinality, ?_⟩
  · rw [he]; rfl
  · rw [he, hs]; rfl

end DefaultMapping

namespace Shape

open DefaultMapping

variable {s : Shape} {m : DefaultMapping}

theorem suits_of_objectMapping? (htype : s.type? = some .object)
    (h : s.objectMapping? = some m) : m.Suits s := by
  obtain ⟨hreference, rfl⟩ | ⟨hreference, rfl⟩ := objectMapping?_cases h
  · refine ⟨rfl, rfl, ?_⟩
    rw [mappedProperties, htype, hreference]
    rfl
  · refine ⟨rfl, rfl, ?_⟩
    rw [mappedProperties, htype, hreference]
    rfl

/-- The default mapping of a shape that is not an array is one for single values. -/
theorem suits_of_defaultMapping? (harray : s.type? ≠ some .array)
    (h : s.defaultMapping? = some m) : m.Suits s := by
  have hunmapped {type : SchemaType} (htype : s.type? = some type) (hobject : type ≠ .object) :
      s.mappedProperties = [] := by
    rw [mappedProperties, htype]
    cases type <;> first | rfl | exact absurd rfl hobject
  cases singleProposal_of_defaultMapping? harray h with
  | string htype h =>
    exact (stringProposal_of_stringMapping? h).isProp.suits (hunmapped htype nofun)
  | integer htype => exact (isProp_numericMapping _ _ _).suits (hunmapped htype nofun)
  | number htype => exact (isProp_numericMapping _ _ _).suits (hunmapped htype nofun)
  | boolean htype => exact (isProp_toProp _ _ _).suits (hunmapped htype nofun)
  | object htype h => exact suits_of_objectMapping? htype h

/-! ## Arrays -/

/-- An array is stored like its items if these are single values, and its cardinality is one. -/
theorem defaultMapping?_array_eq_some_iff (harray : s.type? = some .array) :
    s.defaultMapping? = some m ↔
      ∃ item single cardinality, s.items? = some item ∧ item.defaultMapping? = some single ∧
        single.cardinality = none ∧ s.arrayCardinality? = some cardinality ∧
        m = { single with cardinality := some cardinality } := by
  rw [defaultMapping?_eq, harray]
  dsimp only
  constructor
  · intro h
    split at h
    · rename_i cardinality single hcardinality hsingle
      obtain ⟨item, hitem, hsingle⟩ := Option.bind_eq_some_iff.1 hsingle
      split at h
      · cases h
      · rename_i hnone
        exact ⟨item, single, cardinality, hitem, hsingle, Option.not_isSome_iff_eq_none.1 hnone,
          hcardinality, (Option.some.inj h).symm⟩
    · cases h
  · rintro ⟨item, single, cardinality, hitem, hsingle, hnone, hcardinality, rfl⟩
    rw [hcardinality, hitem, Option.bind_some, hsingle]
    dsimp only
    rw [hnone]
    rfl

/-- Just arrays have a default mapping with a cardinality. -/
theorem isSome_cardinality_iff (h : s.defaultMapping? = some m) :
    m.cardinality.isSome = true ↔ s.type? = some .array := by
  by_cases harray : s.type? = some .array
  · obtain ⟨_, _, _, -, -, -, -, rfl⟩ := (defaultMapping?_array_eq_some_iff harray).1 h
    exact iff_of_true rfl harray
  · rw [(suits_of_defaultMapping? harray h).cardinality]
    exact iff_of_false nofun harray

theorem two_le_of_arrayCardinality? {count : UInt32}
    (h : s.arrayCardinality? = some (.limited count)) : 2 ≤ count := by
  unfold arrayCardinality? at h
  split at h
  · cases h
  · split at h
    · rename_i n _
      split at h
      · rename_i hn
        cases h
        rw [UInt32.le_iff_toNat_le, UInt32.toNat_ofNat_of_lt' hn.2]
        exact hn.1
      · cases h
    · cases h

/-! ## Default mappings that fit -/

/-- The cardinality of a default mapping fits. -/
theorem cardinalityFits_of_defaultMapping? (h : s.defaultMapping? = some m) :
    Mapping.CardinalityFits s m.cardinality := by
  refine ⟨isSome_cardinality_iff h, fun count hcount => ?_⟩
  have harray := (isSome_cardinality_iff h).1 (by rw [hcount]; rfl)
  obtain ⟨_, _, _, -, -, -, hcardinality, rfl⟩ := (defaultMapping?_array_eq_some_iff harray).1 h
  obtain rfl := Option.some.inj hcount
  exact two_le_of_arrayCardinality? hcardinality

/-- A default mapping is that of single values, up to its cardinality. -/
theorem exists_single_of_defaultMapping? (h : s.defaultMapping? = some m) :
    ∃ element single, s.element? = some element ∧ element.type? ≠ some .array ∧
      element.defaultMapping? = some single ∧
      m = { single with cardinality := m.cardinality } := by
  by_cases harray : s.type? = some .array
  · obtain ⟨item, single, _, hitem, hsingle, hnone, -, rfl⟩ :=
      (defaultMapping?_array_eq_some_iff harray).1 h
    refine ⟨item, single, by rw [element?, if_pos harray, hitem], fun hitems => ?_, hsingle, rfl⟩
    have hsome := (isSome_cardinality_iff hsingle).2 hitems
    rw [hnone] at hsome
    cases hsome
  · exact ⟨s, m, by rw [element?, if_neg harray], harray, h, rfl⟩

/-- A default mapping maps the properties of single values, in a field type. -/
theorem exists_element_of_defaultMapping? (h : s.defaultMapping? = some m) :
    ∃ element, s.element? = some element ∧ m.expression.isFieldTypeExpression = true ∧
      m.expression.sources.map Name.text = element.mappedProperties := by
  obtain ⟨element, single, helement, harray, hsingle, hm⟩ := exists_single_of_defaultMapping? h
  have hsuits := suits_of_defaultMapping? harray hsingle
  rw [hm]
  exact ⟨element, helement, hsuits.fieldType, hsuits.sources⟩

/-- Whether a shape that declares properties declares all that its default mapping maps. -/
def DeclaresMapped (s : Shape) : Prop :=
  ∀ properties ∈ s.properties?, ∀ name ∈ s.mappedProperties, name ∈ Entries.names properties

/-- A default mapping fits just if the stored values declare the properties that it maps. -/
theorem fits_defaultMapping?_iff (h : s.defaultMapping? = some m) :
    Mapping.Fits s m.expression m.cardinality ↔ ∀ element ∈ s.element?, element.DeclaresMapped := by
  obtain ⟨element, helement, hfieldType, hsources⟩ := exists_element_of_defaultMapping? h
  have hdeclares : (∀ source ∈ m.expression.sources, Mapping.Declares s source) ↔
      element.DeclaresMapped := by
    rw [DeclaresMapped, ← hsources]
    simp only [Mapping.Declares, helement, Option.mem_some_iff, forall_eq']
    constructor
    · intro h properties hproperties name hname
      obtain ⟨source, hsource, rfl⟩ := List.mem_map.1 hname
      exact h source hsource properties hproperties
    · intro h source hsource properties hproperties
      exact h properties hproperties source.text (List.mem_map_of_mem hsource)
  rw [helement]
  simp only [Option.mem_some_iff, forall_eq', ← hdeclares]
  exact ⟨Mapping.Fits.declared,
    fun h' => ⟨hfieldType, cardinalityFits_of_defaultMapping? h, h'⟩⟩

end Shape

/-! ## Resolving without alterations -/

namespace Resolver

/-- The resolver that knows the definitions and changes nothing. -/
def unaltered (d : Definitions) : Resolver := ⟨d, []⟩

/-- The draft of a candidate is the default mapping of the shape that it has to fit. -/
theorem draft_candidate (r : Resolver) (s : Shape) :
    (r.candidate s).draft
      = ((r.effective s).defaultMapping?.map DefaultMapping.toDraft).getD ∅ := by
  unfold candidate effective draftAndEffective
  cases hmapping : s.defaultMapping? with
  | some m => simp [hmapping]
  | none =>
    dsimp only
    split
    · cases s.inline r.definitions <;> simp [hmapping]
    · simp [hmapping]

variable (d : Definitions) (s : Shape)

/-- Without alterations the default mapping is what a shape is resolved to. -/
theorem resolve_unaltered :
    (unaltered d).resolve s =
      match ((unaltered d).effective s).defaultMapping? with
      | none => .ok none
      | some m =>
        some <$> StorableShape.build s ((unaltered d).effective s) m.expression m.widget
          m.cardinality m.storageSettings m.instanceSettings := by
  show ((unaltered d).candidate s).finish = _
  have hdraft := draft_candidate (unaltered d) s
  cases hmapping : ((unaltered d).effective s).defaultMapping? with
  | none =>
    rw [hmapping] at hdraft
    rw [Candidate.finish, hdraft]
    rfl
  | some m =>
    rw [hmapping] at hdraft
    rw [Candidate.finish, hdraft]
    rfl

/-- The only error without alterations is that a property which the default mapping maps is not
declared. -/
theorem resolve_unaltered_eq_error {error : InvariantError}
    (h : (unaltered d).resolve s = .error error) :
    ∃ m ∈ ((unaltered d).effective s).defaultMapping?, ∃ source ∈ m.expression.sources,
      ¬Mapping.Declares ((unaltered d).effective s) source ∧
      error = .undeclaredProperty source m.expression := by
  rw [resolve_unaltered] at h
  split at h
  · cases h
  · rename_i m hm
    obtain ⟨element, -, hfieldType, -⟩ := Shape.exists_element_of_defaultMapping? hm
    have hcardinality := Shape.cardinalityFits_of_defaultMapping? hm
    cases StorableShape.build_eq_error_iff.1 (Except.map_eq_error_iff.1 h) with
    | fieldType hother => exact absurd hfieldType (Bool.eq_false_iff.1 hother)
    | cardinality _ hbreaks =>
      rw [← Mapping.cardinalityViolation?_eq_some_iff,
        Mapping.cardinalityViolation?_eq_none_iff.2 hcardinality] at hbreaks
      cases hbreaks
    | @property before after source _ _ hsources _ hsource =>
      exact ⟨m, hm, source, hsources ▸ List.mem_append_right _ List.mem_cons_self, hsource, rfl⟩

/-- Without alterations a shape can be resolved, to a mapping or to none, just if the stored values
declare the properties that the default mapping maps, or there is none. -/
theorem exists_resolve_unaltered_eq_ok_iff :
    (∃ found, (unaltered d).resolve s = .ok found) ↔
      ∀ m ∈ ((unaltered d).effective s).defaultMapping?,
        ∀ element ∈ ((unaltered d).effective s).element?, element.DeclaresMapped := by
  rw [resolve_unaltered]
  cases hmapping : ((unaltered d).effective s).defaultMapping? with
  | none => exact iff_of_true ⟨none, rfl⟩ nofun
  | some m =>
    have hbuild : (∃ found, StorableShape.build s ((unaltered d).effective s) m.expression m.widget
        m.cardinality m.storageSettings m.instanceSettings = .ok found) ↔ _ :=
      StorableShape.exists_build_eq_ok_iff
    rw [Shape.fits_defaultMapping?_iff hmapping] at hbuild
    simp only [Option.mem_some_iff, forall_eq', ← hbuild, Except.map_eq_ok_iff]
    constructor
    · rintro ⟨_, found, hfound, -⟩
      exact ⟨found, hfound⟩
    · rintro ⟨found, hfound⟩
      exact ⟨some found, found, hfound, rfl⟩

/-- An image that declares its source only. -/
def sourceOnly : Json := .object [("type", .string "object"), ("$ref", .string imageUri),
  ("properties", .object [("src", .object [("type", .string "string")])])]

theorem resolve_unaltered_sourceOnly :
    ∃ s, Shape.ofJson sourceOnly = .ok s ∧ (unaltered .builtins).resolve s
      = .error (.undeclaredProperty ⟨"alt", by decide⟩ (.object Shape.imageExpression)) :=
  ⟨_, rfl, rfl⟩

end Resolver

end PropStorage
