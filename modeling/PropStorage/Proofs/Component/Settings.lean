import PropStorage.Proofs.Json.Outline
import PropStorage.Proofs.Mapping.Storable

/-!
# Settings and their JSON form

When settings are the same (`PropSettings.equiv`, `ComponentSettings.Same`), and that their JSON
form tells: it holds a member for each part that is there (`PropSettings.find?_members`), and so two
settings are the same just if their JSON forms are (`PropSettings.toJson_equiv_iff`).
-/

namespace PropStorage

/-- No object within the settings names a member twice. -/
def FieldSettings.Distinct (settings : Option FieldSettings) : Prop :=
  ∀ s ∈ settings, ∀ e ∈ s.entries, e.2.Distinct

theorem FieldSettings.distinct_toJson {settings : Option FieldSettings} (h : Distinct settings)
    {v : Json} (hv : settings.map toJson = some v) : v.Distinct := by
  obtain ⟨s, hs, rfl⟩ := Option.map_eq_some_iff.1 hv
  exact Json.distinct_object_iff.2 ⟨s.nodup_names, h s hs⟩

theorem FieldSettings.same?_toJson_iff {a b : Option FieldSettings} :
    Json.Same? (a.map toJson) (b.map toJson) ↔ equiv? a b = true := by
  cases a with
  | none => cases b <;> simp [Json.Same?, equiv?]
  | some s =>
    cases b with
    | none => simp [Json.Same?, equiv?]
    | some t => simp [Json.Same?, equiv?, toJson, Json.equiv, Json.equivMaps]

theorem Cardinality.same?_toJson_iff {a b : Option Cardinality} :
    Json.Same? (a.map toJson) (b.map toJson) ↔ a = b := by
  have hnatural : ∀ {m n : UInt32}, (m.toNat : Int) = n.toNat ↔ m = n := by
    intro m n
    rw [Int.natCast_inj, UInt32.toNat_inj]
  cases a with
  | none => cases b <;> simp [Json.Same?]
  | some c =>
    cases b with
    | none => simp [Json.Same?]
    | some d =>
      cases c <;> cases d <;>
        simp [Json.Same?, toJson, Json.equiv, Json.natural, Number.equiv, hnatural]

namespace PropSettings

/-- Whether two settings are the same up to the order of members. -/
def equiv (a b : PropSettings) : Bool :=
  a.expression = b.expression && a.widget = b.widget && a.cardinality = b.cardinality
    && FieldSettings.equiv? a.storageSettings b.storageSettings
    && FieldSettings.equiv? a.instanceSettings b.instanceSettings

/-- No object within the settings names a member twice. -/
def Distinct (s : PropSettings) : Prop :=
  FieldSettings.Distinct s.storageSettings ∧ FieldSettings.Distinct s.instanceSettings

theorem find?_optional {α : Type} (o : Option α) (n : String) (f : α → Json) (name : String) :
    Entries.find? (o.map fun a => (n, f a)).toList name = if name = n then o.map f else none := by
  cases o with
  | none => simp [Entries.find?_nil]
  | some a =>
    rw [Option.map_some, Option.toList_some, Entries.find?_cons, Entries.find?_nil]
    rfl

/-- The member of each name in the JSON form. -/
theorem find?_members (s : PropSettings) (name : String) :
    Entries.find? s.toJson.members name =
      if name = "field_type_prop" then some (.string s.expression)
      else if name = "field_widget" then some (.string s.widget)
      else if name = "cardinality" then s.cardinality.map Cardinality.toJson
      else if name = "field_storage_settings" then s.storageSettings.map FieldSettings.toJson
      else if name = "field_instance_settings" then s.instanceSettings.map FieldSettings.toJson
      else none := by
  rw [toJson, Json.members, Entries.find?_cons, Entries.find?_cons, Mapping.optionalMembers,
    Entries.find?_append, Entries.find?_append, find?_optional, find?_optional, find?_optional]
  by_cases hcardinality : name = "cardinality"
  · subst hcardinality; simp
  by_cases hstorage : name = "field_storage_settings"
  · subst hstorage; simp
  simp [hcardinality, hstorage]

/-- Two settings are the same just if their JSON forms are. -/
theorem toJson_equiv_iff {p q : PropSettings} :
    p.toJson.equiv q.toJson = true ↔ p.equiv q = true := by
  have hobject : ∀ s : PropSettings, s.toJson = .object s.toJson.members := fun _ => rfl
  rw [hobject p, hobject q, Json.equiv_object_iff p.nodup_names_members q.nodup_names_members]
  simp only [equiv, Bool.and_eq_true, decide_eq_true_eq, ← Json.same?_string_iff,
    ← Cardinality.same?_toJson_iff, ← FieldSettings.same?_toJson_iff, find?_members]
  constructor
  · intro h
    exact ⟨⟨⟨⟨h "field_type_prop", h "field_widget"⟩, h "cardinality"⟩,
      h "field_storage_settings"⟩, h "field_instance_settings"⟩
  · rintro ⟨⟨⟨⟨hexpression, hwidget⟩, hcardinality⟩, hstorage⟩, hinstance⟩ name
    split_ifs
    · exact hexpression
    · exact hwidget
    · exact hcardinality
    · exact hstorage
    · exact hinstance
    · exact .none

theorem distinct_toJson {s : PropSettings} (h : s.Distinct) : s.toJson.Distinct := by
  refine Json.distinct_object_iff.2 ⟨s.nodup_names_members, fun m hm => ?_⟩
  have hfind : Entries.find? s.toJson.members m.1 = some m.2 :=
    Entries.find?_of_mem s.nodup_names_members hm
  rw [find?_members] at hfind
  split_ifs at hfind
  · rw [← Option.some.inj hfind]; exact trivial
  · rw [← Option.some.inj hfind]; exact trivial
  · obtain ⟨c, -, hc⟩ := Option.map_eq_some_iff.1 hfind
    rw [← hc]
    cases c <;> exact trivial
  · exact FieldSettings.distinct_toJson h.1 hfind
  · exact FieldSettings.distinct_toJson h.2 hfind

/-- What sameness does not see of settings once members are sorted: which zeros are negative. -/
def outline (s : PropSettings) : Json := s.toJson.sortMembers.outline

section

variable {p q : PropSettings} (hp : p.Distinct) (hq : q.Distinct)
include hp hq

/-- Settings that are sorted alike are the same. -/
theorem equiv_of_sortMembers_eq (h : p.toJson.sortMembers = q.toJson.sortMembers) :
    p.equiv q = true :=
  toJson_equiv_iff.1 (Json.equiv_of_sortMembers_eq (distinct_toJson hp) (distinct_toJson hq) h)

/-- Settings that are the same are sorted alike if none of their zeros is negative. -/
theorem sortMembers_eq_of_equiv (hpz : p.toJson.hasNegativeZero = false)
    (hqz : q.toJson.hasNegativeZero = false) (h : p.equiv q = true) :
    p.toJson.sortMembers = q.toJson.sortMembers :=
  Json.sortMembers_eq_of_equiv (distinct_toJson hp) (distinct_toJson hq) hpz hqz
    (toJson_equiv_iff.2 h)

/-- Settings that are the same are sorted alike just if they have the same negative zeros. -/
theorem sortMembers_eq_iff_outline_eq (h : p.equiv q = true) :
    p.toJson.sortMembers = q.toJson.sortMembers ↔ p.outline = q.outline := by
  have hdp := distinct_toJson hp
  have hdq := distinct_toJson hq
  refine ⟨congrArg Json.outline, fun houtline => ?_⟩
  refine Json.eq_of_outline_eq (Json.distinct_sortMembers hdp) (Json.distinct_sortMembers hdq) ?_
    houtline
  rw [Json.sortMembers_equiv_iff hdp hdq]
  exact toJson_equiv_iff.2 h

end

end PropSettings

namespace ComponentSettings

/-- Whether two settings have the same settings for the same props. -/
def Same (s t : ComponentSettings) : Prop :=
  ∀ prop, Option.Rel (fun p q => p.equiv q = true) (s.props.find? prop) (t.props.find? prop)

/-- No object within the settings names a member twice. -/
def Distinct (s : ComponentSettings) : Prop := ∀ e ∈ s.props.entries, e.2.Distinct

/-- No zero within the settings is negative. -/
def Plain (s : ComponentSettings) : Prop :=
  ∀ e ∈ s.props.entries, e.2.toJson.hasNegativeZero = false

end ComponentSettings

end PropStorage
