import PropStorage.Proofs.Component.Settings
import PropStorage.Proofs.Mapping.Fitting
import PropStorage.Proofs.Mapping.Snapshot
import PropStorage.Proofs.Shape.RequiredNames

/-!
# Snapshots and what they were taken of

The snapshot of a storable shape whose shapes require names only gives the same storable shape back
(`StorableShape.ofSnapshot_snapshot_same`). All parts come back as they were, but for a structure
that the snapshot leaves out because it is the same as the shape: there the shape comes back.
-/

namespace PropStorage

theorem FieldSettings.equiv?_self {settings : Option FieldSettings} (h : Distinct settings) :
    equiv? settings settings = true := by
  cases settings with
  | none => rfl
  | some s => exact Json.equivMaps_self (h s rfl)

namespace StorableShape

/-- What comes back in the place of the structure is the same. -/
theorem equiv_structure?_getD {s : StorableShape} (hshape : s.shape.Everywhere Shape.WellFormed)
    (heffective : s.effective.Everywhere Shape.WellFormed) :
    (s.structure?.getD s.shape).equiv s.effective = true := by
  rw [structure?]
  split
  · rename_i hequiv
    exact Shape.equiv_symm heffective hshape hequiv
  · exact Shape.equiv_self heffective

theorem reads_structure {s : StorableShape} (h : s.effective.Obtained)
    (hnames : s.effective.Everywhere Shape.RequiresNames) :
    Option.Rel (fun t u => Decoder.shape t.toJson = .ok u) s.structure? s.structure? := by
  rw [structure?]
  split
  · exact .none
  · refine .some ?_
    rw [Decoder.shape, h.ofJson_toJson_self hnames]
    rfl

/-- The snapshot of a storable shape whose shapes require names only can be read, and gives a
storable shape that is the same. -/
theorem ofSnapshot_snapshot_same {s : StorableShape} (hshape : s.shape.Obtained)
    (heffective : s.effective.Obtained) (hsettings : (PropSettings.ofStorable s).Distinct)
    (hshapeNames : s.shape.Everywhere Shape.RequiresNames)
    (heffectiveNames : s.effective.Everywhere Shape.RequiresNames) :
    ∃ s', ofSnapshot s.snapshot = .ok s' ∧ s'.equiv s = true := by
  have hread : Decoder.shape s.shape.toJson = .ok s.shape := by
    rw [Decoder.shape, hshape.ofJson_toJson_self hshapeNames]
    rfl
  have hdecode := s.decode_snapshot hread (reads_structure heffective heffectiveNames)
  have hequiv := equiv_structure?_getD hshape.wellFormed heffective.wellFormed
  have hviolation := (Shape.resembles_of_equiv hequiv).violation?_eq s.expression s.cardinality
  let s' : StorableShape := ⟨s.shape, s.structure?.getD s.shape, s.expression, s.widget,
    s.cardinality, s.storageSettings, s.instanceSettings, hviolation.symm.trans s.fits⟩
  refine ⟨s', ofSnapshot_eq_ok_iff.2 ⟨_, hdecode, rfl⟩, ?_⟩
  have hstorage : FieldSettings.equiv? s.storageSettings s.storageSettings = true :=
    FieldSettings.equiv?_self hsettings.1
  have hinstance : FieldSettings.equiv? s.instanceSettings s.instanceSettings = true :=
    FieldSettings.equiv?_self hsettings.2
  simp [equiv, s', Shape.equiv_self hshape.wellFormed, hequiv, hstorage, hinstance]

/-- The URI of the definition that the example refers to. -/
def peopleUri : String := "json-schema-definitions://acme/people"

/-- What the definition says about each person. -/
def personMembers : Entries Json :=
  [("type", .string "object"), ("required", .array [.string "name", .string "alias"]),
    ("properties", .object [("name", .object [("type", .string "string")]),
      ("alias", .object [("type", .string "string")])])]

/-- The definition. -/
def peopleBody : Json := .object [("type", .string "array"), ("items", .object personMembers)]

/-- A reference to the definition. -/
def peopleReference : Json := .object [("$ref", .string peopleUri)]

/-- The expression of the example. -/
def peopleExpression : Expression.ObjectProps where
  fieldType := ⟨"person", by decide⟩
  targets := [
    (⟨"name", by decide⟩, .prop ⟨"full_name", by decide⟩),
    (⟨"alias", by decide⟩, .prop ⟨"alias", by decide⟩)]
  nonempty := by simp
  distinct := by decide

/-- Settings of the example. -/
def peopleSettings : FieldSettings := .ofEntries [("help", .null)]

theorem ofSnapshot_snapshot_same_people :
    ∃ d shape effective s, Definitions.builtins.register peopleUri peopleBody = .ok d ∧
      Shape.ofJson peopleReference = .ok shape ∧ shape.inline d = .ok effective ∧
      build shape effective (.object peopleExpression) "person_table" (some (.limited 2))
        (some ∅) (some peopleSettings) = .ok s ∧
      ∃ s', ofSnapshot s.snapshot = .ok s' ∧ s'.equiv s = true := by
  have hbody : peopleBody.Distinct := by
    simp [peopleBody, personMembers, Json.Distinct, Json.DistinctMembers, Json.DistinctItems,
      Entries.names]
  have hreference : peopleReference.Distinct := by
    simp [peopleReference, Json.Distinct, Json.DistinctMembers, Entries.names]
  have hregister : Definitions.builtins.register peopleUri peopleBody
      = .ok ⟨Definitions.builtins.bodies.insert peopleUri peopleBody⟩ := rfl
  have hdefinitions := Definitions.distinct_builtins.register hbody hregister
  refine ⟨_, _, _, ⟨_, _, _, _, _, _, _, ?_⟩, hregister, rfl, rfl,
    build_eq_ok_iff.2 rfl, ?_⟩
  · rfl
  · refine ofSnapshot_snapshot_same (.read hreference rfl)
      (.inlined hdefinitions (.read hreference rfl) rfl) ?_ ?_ ?_
    · refine ⟨?_, ?_⟩
      · rintro _ ⟨⟩ e he
        cases he
      · rintro _ ⟨⟩ e he
        obtain rfl := List.mem_singleton.1 he
        trivial
    · exact .intro (Shape.requiresNames_of_none rfl) fun t ht => absurd ht List.not_mem_nil
    · refine .intro (Shape.requiresNames_of_none rfl) fun t ht => ?_
      obtain rfl := List.mem_singleton.1 ht
      refine .intro (Shape.requiresNames_normalKeywords personMembers (by decide) ?_)
        fun t ht => ?_
      · rintro required ⟨⟩ item hitem
        simp only [List.mem_cons, List.not_mem_nil, or_false] at hitem
        rcases hitem with rfl | rfl <;> exact ⟨_, rfl⟩
      · rcases List.mem_cons.1 ht with rfl | ht
        · exact .intro (Shape.requiresNames_of_none rfl) fun t ht => absurd ht List.not_mem_nil
        · obtain rfl := List.mem_singleton.1 ht
          exact .intro (Shape.requiresNames_of_none rfl) fun t ht => absurd ht List.not_mem_nil

end StorableShape

end PropStorage
