import PropStorage.Mapping.Snapshot
import PropStorage.Proofs.Entries
import PropStorage.Proofs.Expression.RoundTrip

/-!
# Reading what was written

The decoders give back what was written: `readMembers_eq_foldlM` turns the reading of a record with
distinct members into one read after the other, and `Decoder.expression_print`,
`Decoder.cardinality_toJson` and `Decoder.settings_toJson` give back single fields. A record that
holds the optional parts of a mapping gives them back together (`RecordFormat.ReadsDraft`).
-/

namespace PropStorage

/-! ## Members of a record -/

namespace RecordFormat

variable {δ : Type}

/-- Reads one member of a record. -/
def readMember (f : RecordFormat δ) (draft : δ) (m : String × Json) : Except DecodeError δ :=
  match f.field? m.1 with
  | none => if f.closed then .error .mismatch else .ok draft
  | some field => field.read m.2 draft

/-- Members of distinct names are read one after the other, if each field has one name. -/
theorem readMembers_eq_foldlM {f : RecordFormat δ}
    (hsingle : ∀ field ∈ f.fields, ∃ name, field.names = [name]) {members : Entries Json}
    (hd : (Entries.names members).Nodup) {seen : List String}
    (hseen : ∀ name ∈ Entries.names members, name ∉ seen) (draft : δ) :
    f.readMembers seen draft members = members.foldlM f.readMember draft := by
  induction members generalizing seen draft with
  | nil => rfl
  | cons m members ih =>
    obtain ⟨name, v⟩ := m
    rw [Entries.names, List.map_cons, List.nodup_cons] at hd
    rw [Entries.names, List.map_cons, List.forall_mem_cons] at hseen
    rw [readMembers, List.foldlM_cons, readMember]
    cases hfield : f.field? name with
    | none =>
      cases hclosed : f.closed with
      | true => rfl
      | false => exact ih hd.2 hseen.2 draft
    | some field =>
      have hnames : field.names = [name] := by
        obtain ⟨n, hn⟩ := hsingle field (List.mem_of_find?_eq_some hfield)
        have hcontains := List.find?_some hfield
        rw [hn] at hcontains ⊢
        simpa [eq_comm] using hcontains
      have hunseen : seen.contains name = false := by simpa using hseen.1
      simp only [hunseen]
      refine congrArg (field.read v draft >>= ·) (funext fun draft' => ?_)
      refine ih hd.2 (fun n hn hmem => ?_) draft'
      rw [hnames, List.singleton_append, List.mem_cons] at hmem
      rcases hmem with rfl | hmem
      · exact hd.1 hn
      · exact hseen.2 n hn hmem

/-- A member that is left out where there is no value: `result` is what is read, by the value. -/
theorem foldlM_optional {α : Type} {f : RecordFormat δ} {name : String} {toJson : α → Json}
    (result : Option α → δ)
    (h : ∀ a, f.readMember (result none) (name, toJson a) = .ok (result (some a)))
    (o : Option α) :
    (o.map fun a => (name, toJson a)).toList.foldlM f.readMember (result none)
      = .ok (result o) := by
  cases o with
  | none => rfl
  | some a => exact (bind_pure (f.readMember (result none) (name, toJson a))).trans (h a)

end RecordFormat

/-! ## Single fields -/

theorem Entries.traverse_ok {α ε : Type} (entries : Entries α) :
    traverse (fun _ v => (.ok v : Except ε α)) entries = .ok entries := by
  induction entries with
  | nil => rfl
  | cons e entries ih =>
    rw [traverse, ih]
    rfl

theorem FieldSettings.toJson_ne_null (settings : FieldSettings) : settings.toJson ≠ .null := by
  rw [FieldSettings.toJson]
  nofun

namespace Decoder

theorem option_of_ok {α : Type} {decode : Decoder α} {v : Json} {a : α} (hv : v ≠ .null)
    (h : decode v = .ok a) : Decoder.option .json decode v = .ok (some a) := by
  have habsent : DataFormat.json.isAbsent v = false := by
    cases v <;> first | rfl | exact absurd rfl hv
  rw [Decoder.option, habsent, h]
  rfl

theorem settings_toJson (settings : FieldSettings) :
    Decoder.settings settings.toJson = .ok settings := by
  show SortedMap.ofEntries <$> Entries.traverse (fun _ v => Except.ok v) settings.entries = _
  rw [Entries.traverse_ok]
  exact congrArg Except.ok settings.ofEntries_entries

theorem expression_print (e : Expression) : Decoder.expression (.string e.print) = .ok e := by
  rw [Decoder.expression, Expression.parse_eq_ok_iff.2 (Expression.canonicalText_print e).symm]
  rfl

theorem cardinality_toJson (c : Cardinality) : Decoder.cardinality c.toJson = .ok c := by
  cases c with
  | unlimited => rfl
  | limited count =>
    have hcount := count.toNat_lt
    have hofInt : Cardinality.ofInt (count.toNat : Int) = .ok (.limited count) := by
      rw [Cardinality.ofInt, if_neg (by omega), if_pos ⟨by omega, by exact_mod_cast hcount⟩]
      simp
    have hlimit : ((count.toNat : Nat) : Int) < Number.signedLimit := by
      have : (UInt32.size : Int) ≤ Number.signedLimit := by decide
      have : count.toNat < UInt32.size := hcount
      omega
    show (if ((count.toNat : Nat) : Int) < Number.signedLimit then
      mapError .cardinality (Cardinality.ofInt count.toNat) else .error .mismatch) = _
    rw [if_pos hlimit, hofInt]
    rfl

end Decoder

namespace FieldFormat

variable {α δ : Type} {decode : Decoder α} {v : Json} {a : α}

theorem required_read_of_ok (name : String) (set : α → δ → δ) (h : decode v = .ok a) (draft : δ) :
    (required name decode set).read v draft = .ok (set a draft) :=
  congrArg ((set · draft) <$> ·) h

theorem nullable_read_of_ok (name : String) (set : Option α → δ → δ) (hv : v ≠ .null)
    (h : decode v = .ok a) (draft : δ) :
    (nullable name decode set).read v draft = .ok (set (some a) draft) :=
  congrArg ((set · draft) <$> ·) (Decoder.option_of_ok hv h)

end FieldFormat

/-! ## The optional parts of a mapping -/

/-- The format reads the optional parts of a mapping into a draft, which `put` puts into what is
read altogether. -/
structure RecordFormat.ReadsDraft {δ : Type} (f : RecordFormat δ) (put : Draft → δ) : Prop where
  cardinality (d : Draft) (c : Cardinality) :
    f.readMember (put d) ("cardinality", c.toJson) = .ok (put { d with cardinality := some c })
  storageSettings (d : Draft) (s : FieldSettings) :
    f.readMember (put d) ("field_storage_settings", s.toJson)
      = .ok (put { d with storageSettings := some s })
  instanceSettings (d : Draft) (s : FieldSettings) :
    f.readMember (put d) ("field_instance_settings", s.toJson)
      = .ok (put { d with instanceSettings := some s })

namespace RecordFormat.ReadsDraft

variable {δ : Type} {f : RecordFormat δ} {put : Draft → δ}

/-- The optional parts are read into a draft that has none of them. -/
theorem foldlM_optionalMembers (h : f.ReadsDraft put) (e : Option Expression) (w : Option String)
    (c : Option Cardinality) (s i : Option FieldSettings) :
    (Mapping.optionalMembers c s i).foldlM f.readMember (put ⟨e, w, none, none, none⟩)
      = .ok (put ⟨e, w, c, s, i⟩) := by
  have hcardinality := foldlM_optional (fun c => put ⟨e, w, c, none, none⟩)
    (h.cardinality _) c
  have hstorage := foldlM_optional (fun s => put ⟨e, w, c, s, none⟩)
    (h.storageSettings _) s
  have hinstance := foldlM_optional (fun i => put ⟨e, w, c, s, i⟩)
    (h.instanceSettings _) i
  rw [Mapping.optionalMembers, List.foldlM_append, List.foldlM_append]
  exact Except.bind_eq_ok_iff.2 ⟨_, Except.bind_eq_ok_iff.2 ⟨_, hcardinality, hstorage⟩, hinstance⟩

end RecordFormat.ReadsDraft

end PropStorage
