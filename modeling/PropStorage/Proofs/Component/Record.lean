import PropStorage.Component.Settings
import PropStorage.Proofs.Decode.Record
import PropStorage.Proofs.Mapping.Storable

/-!
# The record of settings

The settings of a component have two writers: one for version ids (`ComponentSettings.toJson`), and
one for what is kept (`ComponentSettings.record`). Both write the same JSON, member for member
(`PropSettings.record_eq_toJson`), and what they write is read as the settings that it was written
from (`PropSettings.ofJson_record`). `ComponentSettings.ofJson_record_eq_toJson` says so of whole
components.
-/

namespace PropStorage

theorem Cardinality.record_eq_toJson (c : Cardinality) : c.record = c.toJson := by
  cases c <;> rfl

/-! ## Maps -/

/-- Entries whose values are read as they were before they were written are read as they were. -/
theorem Entries.traverse_mapValues {α β ε : Type} {read : β → Except ε α} {write : α → β}
    {entries : Entries α} (h : ∀ e ∈ entries, read (write e.2) = .ok e.2) :
    traverse (fun _ v => read v) (mapValues write entries) = .ok entries := by
  induction entries with
  | nil => rfl
  | cons e entries ih =>
    obtain ⟨name, a⟩ := e
    rw [List.forall_mem_cons] at h
    have hstep : traverse (fun _ v => read v) (mapValues write ((name, a) :: entries))
        = read (write a) >>= fun r =>
          traverse (fun _ v => read v) (mapValues write entries) >>= fun rs =>
            .ok ((name, r) :: rs) := rfl
    rw [hstep, h.1, ih h.2]
    rfl

/-- A map is read back if its values are. -/
theorem Decoder.map_entries {α : Type} {decode : Decoder α} {write : α → Json} {m : SortedMap α}
    (h : ∀ e ∈ m.entries, decode (write e.2) = .ok e.2) :
    Decoder.map decode (.object (m.map write).entries) = .ok m := by
  show SortedMap.ofEntries <$> Entries.traverse (fun _ v => decode v)
    (Entries.mapValues write m.entries) = _
  rw [Entries.traverse_mapValues h]
  exact congrArg Except.ok m.ofEntries_entries

namespace PropSettings

/-! ## Settings of one prop -/

/-- Both writers write the same members in the same order. -/
theorem record_eq_toJson (s : PropSettings) : s.record = s.toJson := by
  obtain ⟨expression, widget, cardinality, storageSettings, instanceSettings⟩ := s
  have hcardinality : cardinality.map Cardinality.record = cardinality.map Cardinality.toJson :=
    congrArg cardinality.map (funext Cardinality.record_eq_toJson)
  rw [record, fields, toJson, hcardinality]
  cases cardinality <;> cases storageSettings <;> cases instanceSettings <;> rfl

section Members

open FieldFormat

variable (p : Parts)

theorem readMember_expression (e : String) :
    recordFormat.readMember p ("field_type_prop", .string e)
      = .ok { p with expression := some e } := rfl

theorem readMember_widget (w : String) :
    recordFormat.readMember p ("field_widget", .string w)
      = .ok { p with rest.widget := some w } := rfl

theorem readsDraft (expression : Option String) :
    recordFormat.ReadsDraft (Parts.mk expression) where
  cardinality d c := nullable_read_of_ok "cardinality" _ (by cases c <;> nofun)
    (Decoder.cardinality_toJson c) _
  storageSettings d s := nullable_read_of_ok "field_storage_settings" _ s.toJson_ne_null
    (Decoder.settings_toJson s) _
  instanceSettings d s := nullable_read_of_ok "field_instance_settings" _ s.toJson_ne_null
    (Decoder.settings_toJson s) _

end Members

/-- Each field of the settings has one name. -/
theorem exists_names_eq : ∀ field ∈ recordFormat.fields, ∃ name, field.names = [name] := by
  simp [recordFormat, FieldFormat.required, FieldFormat.nullable, FieldFormat.option]

/-- The parts that are read from the written settings. -/
theorem decode_toJson (s : PropSettings) :
    recordFormat.decode ⟨none, ∅⟩ s.toJson
      = .ok ⟨some s.expression,
          ⟨none, some s.widget, s.cardinality, s.storageSettings, s.instanceSettings⟩⟩ := by
  obtain ⟨expression, widget, cardinality, storageSettings, instanceSettings⟩ := s
  have hmembers := nodup_names_members
    ⟨expression, widget, cardinality, storageSettings, instanceSettings⟩
  rw [toJson, Json.members] at hmembers
  rw [toJson, RecordFormat.decode, RecordFormat.readMembers_eq_foldlM exists_names_eq hmembers
    (fun _ _ => List.not_mem_nil), List.foldlM_cons, readMember_expression]
  refine Except.bind_eq_ok_iff.2 ⟨_, rfl, ?_⟩
  rw [List.foldlM_cons, readMember_widget]
  refine Except.bind_eq_ok_iff.2 ⟨_, rfl, ?_⟩
  exact (readsDraft (some expression)).foldlM_optionalMembers none (some widget) cardinality
    storageSettings instanceSettings

/-- The settings of a prop are read back from their record. -/
theorem ofJson_record (s : PropSettings) : ofJson s.record = .ok s := by
  rw [record_eq_toJson, ofJson, decode_toJson]
  rfl

end PropSettings

/-! ## Settings of a component -/

/-- The settings of a component have one JSON form: what is hashed for a version id is what is kept,
member for member, and it is read as the settings that it was written from. -/
theorem ComponentSettings.ofJson_record_eq_toJson (s : ComponentSettings) :
    s.record = s.toJson ∧ ofJson s.record = .ok s := by
  have hrecord : PropSettings.record = PropSettings.toJson :=
    funext PropSettings.record_eq_toJson
  have hprops : Decoder.map PropSettings.ofJson
      (.object (s.props.map PropSettings.record).entries) = .ok s.props :=
    Decoder.map_entries fun e _ => e.2.ofJson_record
  refine ⟨by rw [record, toJson, hrecord], ?_⟩
  have hdecode : recordFormat.decode none s.record = .ok (some s.props) := by
    show (FieldFormat.required "props" (Decoder.map PropSettings.ofJson) _).read _ none >>= _ = _
    rw [FieldFormat.required_read_of_ok "props" _ hprops]
    rfl
  rw [ofJson, hdecode]
  rfl

end PropStorage
