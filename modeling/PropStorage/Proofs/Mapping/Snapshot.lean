import PropStorage.Proofs.Decode.Record
import PropStorage.Proofs.Mapping.Storable
import PropStorage.Proofs.Shape.Outline
import PropStorage.Proofs.Shape.Renormal

/-!
# Reading snapshots back

A snapshot of a storable shape can always be read, and gives back its settings
(`StorableShape.ofSnapshot_snapshot`). The shape may come back with its required names in another
order, and a mapping still fits it: the rules look at types and at the names of properties only
(`Shape.Resembles.violation?_eq`), and reading keeps these (`Shape.resembles_of_ofJson_toJson`).
-/

namespace PropStorage

namespace Shape

/-! ## What the rules look at -/

/-- The names of the declared properties. -/
def propertyNames? (s : Shape) : Option (List String) := s.properties?.map Entries.names

/-- Whether two shapes have the same type, and declare the same properties, and so do their
items. -/
structure Resembles (s t : Shape) : Prop where
  type? : t.type? = s.type?
  propertyNames? : t.propertyNames? = s.propertyNames?
  items? : t.items?.map Shape.propertyNames? = s.items?.map Shape.propertyNames?

theorem Resembles.trans {s t u : Shape} (hst : Resembles s t) (htu : Resembles t u) :
    Resembles s u :=
  ⟨htu.type?.trans hst.type?, htu.propertyNames?.trans hst.propertyNames?,
    htu.items?.trans hst.items?⟩

theorem propertyNames?_declared {s t : Shape} (h : Resembles s t) :
    (Mapping.declared? t).map Entries.names = (Mapping.declared? s).map Entries.names := by
  have hitems (s : Shape) : (s.items?.bind properties?).map Entries.names
      = (s.items?.map Shape.propertyNames?).join := by
    cases s.items? <;> rfl
  rw [Mapping.declared?, Mapping.declared?, isArray, isArray, h.type?]
  split
  · rw [hitems, hitems, h.items?]
  · exact h.propertyNames?

/-- Shapes that resemble each other are fitted by the same mappings. -/
theorem Resembles.violation?_eq {s t : Shape} (h : Resembles s t) (expression : Expression)
    (cardinality : Option Cardinality) :
    Mapping.violation? t expression cardinality = Mapping.violation? s expression cardinality := by
  have harray : t.isArray = s.isArray := by rw [isArray, isArray, h.type?]
  have hcardinality :
      Mapping.cardinalityViolation? t cardinality = Mapping.cardinalityViolation? s cardinality := by
    unfold Mapping.cardinalityViolation?
    rw [harray, h.type?]
  have hundeclared : Mapping.undeclared? t expression = Mapping.undeclared? s expression := by
    have hnames := propertyNames?_declared h
    unfold Mapping.undeclared?
    generalize Mapping.declared? s = ds, Mapping.declared? t = dt at hnames
    cases ds <;> cases dt
    · rfl
    · cases hnames
    · cases hnames
    · have hnames := Option.some.inj hnames
      cases expression <;> simp only [hnames]
  rw [Mapping.violation?, Mapping.violation?, hcardinality, hundeclared]

/-! ## Shapes that are the same, and shapes that are read back -/

theorem type?_eq_of_equiv {s t : Shape} (h : s.equiv t = true) : t.type? = s.type? := by
  cases s <;> cases t <;> simp [equiv, type?] at h ⊢
  exact h.1.1.1.1.1.symm

theorem propertyNames?_eq_of_equiv {s t : Shape} (h : s.equiv t = true) :
    t.propertyNames? = s.propertyNames? := by
  cases s <;> cases t <;> simp [equiv] at h
  · rfl
  · obtain ⟨⟨⟨-, hproperties⟩, -⟩, -⟩ := h
    rw [propertyNames?, propertyNames?, properties?, properties?]
    cases equivProperties_iff.1 hproperties with
    | none => rfl
    | some hlists =>
      exact congrArg some
        (Entries.names_eq_of_forall₂ (equivLists_iff.1 hlists) fun _ _ h => h.1.symm)

theorem resembles_of_equiv {s t : Shape} (h : s.equiv t = true) : Resembles s t where
  type? := type?_eq_of_equiv h
  propertyNames? := propertyNames?_eq_of_equiv h
  items? := by
    cases s <;> cases t <;> simp [equiv] at h
    · rfl
    · obtain ⟨⟨-, hitems⟩, -⟩ := h
      show Option.map _ _ = Option.map _ _
      cases equivItems_iff.1 hitems with
      | none => rfl
      | some hequiv => exact congrArg some (propertyNames?_eq_of_equiv hequiv)

section ReadBack

variable {type : SchemaType} {reference format : Option String}
  {properties : Option (Entries Shape)} {items : Option Shape} {keywords : SortedMap Json}
  (h : (typed type reference format properties items keywords).WellFormed) {path : String}
include h

/-- Properties come back in their order. -/
theorem names_of_readProperties_toMembers {ps : Option (Entries Shape)}
    (hps : readProperties path
      (typed type reference format properties items keywords).toMembers = .ok ps) :
    ps.map Entries.names = properties.map Entries.names := by
  have hfind := find?_toMembers_properties h
  have hread := readProperties_eq_ok_iff.1 hps
  rw [propertiesToJson_eq] at hfind
  cases properties with
  | none =>
    cases ps with
    | none => rfl
    | some ps =>
      obtain ⟨raws, hraws, -⟩ := hread
      rw [hfind] at hraws
      cases hraws
  | some as =>
    cases ps with
    | none =>
      rw [hfind] at hread
      cases hread
    | some ps =>
      obtain ⟨raws, hraws, hshapes⟩ := hread
      rw [hfind] at hraws
      cases hraws
      have hnames := Entries.names_eq_of_forall₂ (readShapes_eq_ok_iff.1 hshapes) fun _ _ h => h.1
      rw [Entries.names_mapValues] at hnames
      exact congrArg some hnames

/-- Items come back if there are any. -/
theorem readItems_toMembers_inv {i : Option Shape}
    (hi : readItems path
      (typed type reference format properties items keywords).toMembers = .ok i) :
    Option.Rel (fun s t => ∃ path, ofJsonAt path s.toJson = .ok t) items i := by
  have hfind := find?_toMembers_items h
  have hread := readItems_eq_ok_iff.1 hi
  rw [itemsToJson_eq] at hfind
  cases items with
  | none =>
    cases i with
    | none => exact .none
    | some t =>
      obtain ⟨raw, hraw, -⟩ := hread
      rw [hfind] at hraw
      cases hraw
  | some s =>
    cases i with
    | none =>
      rw [hfind] at hread
      cases hread
    | some t =>
      obtain ⟨raw, hraw, hitem⟩ := hread
      rw [hfind] at hraw
      cases hraw
      exact .some ⟨_, hitem⟩

end ReadBack

/-- How a typed shape comes back, and a reference as it was. -/
theorem parts_of_ofJsonAt_toJson {s t : Shape} (h : s.WellFormed) {path : String}
    (ht : ofJsonAt path s.toJson = .ok t) :
    t.type? = s.type? ∧ t.propertyNames? = s.propertyNames? ∧
      Option.Rel (fun s t => ∃ path, ofJsonAt path s.toJson = .ok t) s.items? t.items? := by
  cases s with
  | bare uri keywords =>
    obtain rfl := Except.ok.inj ((ofJsonAt_toJson_bare h path).symm.trans ht)
    exact ⟨rfl, rfl, .none⟩
  | typed type reference format properties items keywords =>
    obtain ⟨ps, i, hps, hi, rfl⟩ := (ofJsonAt_toJson_typed h).1 ht
    exact ⟨rfl, names_of_readProperties_toMembers h hps, readItems_toMembers_inv h hi⟩

/-- A shape that is read back resembles the one that was written. -/
theorem resembles_of_ofJson_toJson {s t : Shape} (h : s.Everywhere WellFormed)
    (ht : ofJson s.toJson = .ok t) : Resembles s t := by
  obtain ⟨htype, hproperties, hitems⟩ := parts_of_ofJsonAt_toJson h.here ht
  refine ⟨htype, hproperties, ?_⟩
  have hwithin : ∀ i ∈ s.items?, i.Everywhere WellFormed := fun i hi =>
    h.within (List.mem_append_right _ (Option.mem_toList.2 hi))
  generalize s.items? = i, t.items? = j at hitems hwithin
  cases hitems with
  | none => rfl
  | some hread =>
    obtain ⟨path, hread⟩ := hread
    exact congrArg some (parts_of_ofJsonAt_toJson (hwithin _ rfl).here hread).2.1

end Shape

namespace StorableShape

/-! ## The members of a snapshot -/

section Members

open FieldFormat

variable (p : Parts)

theorem readMember_shape {v : Json} {s : Shape} (h : Decoder.shape v = .ok s) :
    snapshotFormat.readMember p ("shape", v) = .ok { p with shape := some s } :=
  required_read_of_ok "shape" _ h p

theorem readMember_structure {v : Json} {t : Shape} (hv : v ≠ .null)
    (h : Decoder.shape v = .ok t) :
    snapshotFormat.readMember p ("structure", v) = .ok { p with effective := some t } :=
  nullable_read_of_ok "structure" _ hv h p

theorem readMember_expression (e : Expression) :
    snapshotFormat.readMember p ("field_type_prop", .string e.print)
      = .ok { p with draft.expression := some e } :=
  required_read_of_ok "field_type_prop" _ (Decoder.expression_print e) p

theorem readMember_widget (w : String) : snapshotFormat.readMember p ("field_widget", .string w)
    = .ok { p with draft.widget := some w } := rfl

theorem readsDraft (shape effective : Option Shape) :
    snapshotFormat.ReadsDraft (Parts.mk shape effective) where
  cardinality d c := nullable_read_of_ok "cardinality" _ (by cases c <;> nofun)
    (Decoder.cardinality_toJson c) _
  storageSettings d s := nullable_read_of_ok "field_storage_settings" _ s.toJson_ne_null
    (Decoder.settings_toJson s) _
  instanceSettings d s := nullable_read_of_ok "field_instance_settings" _ s.toJson_ne_null
    (Decoder.settings_toJson s) _

/-- Each field of a snapshot has one name. -/
theorem exists_names_eq : ∀ field ∈ snapshotFormat.fields, ∃ name, field.names = [name] := by
  simp [snapshotFormat, required, nullable, option]

/-- The members that hold the settings give the mapping back. -/
theorem foldlM_settings (s : StorableShape) (shape effective : Option Shape) :
    (PropSettings.ofStorable s).toJson.members.foldlM snapshotFormat.readMember
        ⟨shape, effective, ∅⟩
      = .ok ⟨shape, effective, ⟨some s.expression, some s.widget, s.cardinality,
          s.storageSettings, s.instanceSettings⟩⟩ := by
  show List.foldlM _ _ (("field_type_prop", Json.string s.expression.print)
    :: ("field_widget", Json.string s.widget)
    :: Mapping.optionalMembers s.cardinality s.storageSettings s.instanceSettings) = _
  rw [List.foldlM_cons, readMember_expression]
  refine Except.bind_eq_ok_iff.2 ⟨_, rfl, ?_⟩
  rw [List.foldlM_cons, readMember_widget]
  refine Except.bind_eq_ok_iff.2 ⟨_, rfl, ?_⟩
  exact (readsDraft shape effective).foldlM_optionalMembers (some s.expression) (some s.widget)
    s.cardinality s.storageSettings s.instanceSettings

end Members

/-! ## Reading a snapshot -/

/-- A well-formed shape comes back, with all that the rules look at. -/
theorem exists_shape_toJson {s : Shape} (h : s.Everywhere Shape.WellFormed) :
    ∃ t, Decoder.shape s.toJson = .ok t ∧ Shape.Resembles s t := by
  obtain ⟨t, ht, -⟩ := Shape.ofJsonAt_toJson h "#"
  refine ⟨t, ?_, Shape.resembles_of_ofJson_toJson h ht⟩
  rw [Decoder.shape, Shape.ofJson, ht]
  rfl

/-- The structure comes back if there is one, and the mapping fits what the snapshot has in its
place. -/
theorem exists_structure_toJson (s : StorableShape)
    (heffective : s.effective.Everywhere Shape.WellFormed) {shape : Shape}
    (hshape : Shape.Resembles s.shape shape) :
    ∃ effective, Option.Rel (fun t u => Decoder.shape t.toJson = .ok u) s.structure? effective ∧
      Shape.Resembles s.effective (effective.getD shape) := by
  rw [structure?]
  split
  · rename_i hequiv
    exact ⟨none, .none, (Shape.resembles_of_equiv hequiv).trans hshape⟩
  · obtain ⟨t, ht, hresembles⟩ := exists_shape_toJson heffective
    exact ⟨some t, .some ht, hresembles⟩

/-- The parts of a snapshot: shapes as they come back, and the mapping as it was. -/
theorem decode_snapshot (s : StorableShape) {shape : Shape} {effective : Option Shape}
    (hshape : Decoder.shape s.shape.toJson = .ok shape)
    (hstructure : Option.Rel (fun t u => Decoder.shape t.toJson = .ok u) s.structure? effective) :
    snapshotFormat.decode .empty s.snapshot
      = .ok ⟨some shape, effective, ⟨some s.expression, some s.widget, s.cardinality,
          s.storageSettings, s.instanceSettings⟩⟩ := by
  have hread : (s.structure?.map fun t => ("structure", t.toJson)).toList.foldlM
      snapshotFormat.readMember ⟨some shape, none, ∅⟩ = .ok ⟨some shape, effective, ∅⟩ := by
    generalize s.structure? = structure? at hstructure
    cases hstructure with
    | none => rfl
    | some ht =>
      rw [Option.map_some, Option.toList_some, List.foldlM_cons,
        readMember_structure _ (by simp [Shape.toJson]) ht]
      rfl
  have hmembers := s.nodup_names_snapshot
  rw [snapshot_eq, Json.members] at hmembers
  rw [snapshot_eq, RecordFormat.decode, RecordFormat.readMembers_eq_foldlM exists_names_eq hmembers
    (fun _ _ => List.not_mem_nil), List.cons_append, List.foldlM_cons, readMember_shape _ hshape]
  refine Except.bind_eq_ok_iff.2 ⟨_, rfl, ?_⟩
  rw [List.foldlM_append]
  exact Except.bind_eq_ok_iff.2 ⟨_, hread, foldlM_settings s _ _⟩

/-- A snapshot can be read, and gives the settings of the prop back. -/
theorem ofSnapshot_snapshot (s : StorableShape) (hshape : s.shape.Everywhere Shape.WellFormed)
    (heffective : s.effective.Everywhere Shape.WellFormed) :
    ∃ s', ofSnapshot s.snapshot = .ok s' ∧
      PropSettings.ofStorable s' = PropSettings.ofStorable s := by
  obtain ⟨shape, hread, hresembles⟩ := exists_shape_toJson hshape
  obtain ⟨effective, hstructure, hfits⟩ := s.exists_structure_toJson heffective hresembles
  have hviolation := hfits.violation?_eq s.expression s.cardinality
  rw [s.fits] at hviolation
  let s' : StorableShape := ⟨shape, effective.getD shape, s.expression, s.widget, s.cardinality,
    s.storageSettings, s.instanceSettings, hviolation⟩
  refine ⟨s', ?_, rfl⟩
  rw [ofSnapshot, s.decode_snapshot hread hstructure]
  exact congrArg (Decoder.mapError .invariant) s'.build_self

end StorableShape

end PropStorage
