import PropStorage.Proofs.Shape.Inlining
import PropStorage.Proofs.Shape.Renormal

/-!
# Shapes that require names

The members of a `required` list are meant to be names. Sorting the members of a value leaves names
as they are, so such a list is settled once it was read (`requiredSettled_normalKeywords`). A shape
that can be obtained and requires names only is what its JSON form describes
(`Obtained.ofJson_toJson_self`).
-/

namespace PropStorage.Shape

/-- Whether a `required` list of the shape holds strings only. -/
def RequiresNames (s : Shape) : Prop :=
  ∀ items, s.keyword? "required" = some (.array items) → ∀ item ∈ items, ∃ name, item = .string name

/-- A value is a string if it is one once its members are sorted. -/
theorem eq_string_of_sortMembers {v : Json} {name : String} (h : v.sortMembers = .string name) :
    v = .string name := by
  cases v <;> simp [Json.sortMembers] at h ⊢
  exact h

/-- The value of a keyword that is a list was a list before it was brought to normal form. -/
theorem normalKeyword_required_eq_array {v : Json} {items : List Json}
    (h : normalKeyword "required" v = .array items) :
    ∃ raw, v = .array raw ∧ items = (normalRequired raw).map Json.sortMembers := by
  cases v with
  | array raw =>
    rw [normalKeyword, if_pos rfl, Json.sortMembers_array] at h
    exact ⟨raw, rfl, (Json.array.inj h).symm⟩
  | _ => simp [normalKeyword, Json.sortMembers] at h

theorem requiresNames_of_none {s : Shape} (h : s.keyword? "required" = none) :
    s.RequiresNames := by
  intro items hitems
  rw [h] at hitems
  cases hitems

/-- A shape that is read requires names if the value does. -/
theorem requiresNames_normalKeywords (members : Entries Json)
    (hd : (Entries.names members).Nodup) {type : SchemaType} {reference format : Option String}
    {properties : Option (Entries Shape)} {items : Option Shape}
    (h : ∀ required, Entries.find? members "required" = some (.array required) →
      ∀ item ∈ required, ∃ name, item = .string name) :
    (typed type reference format properties items (normalKeywords members)).RequiresNames := by
  intro list hlist item hitem
  have hfind : (normalKeywords members).find? "required" = some (.array list) := hlist
  rw [find?_normalKeywords hd, if_neg (by decide)] at hfind
  obtain ⟨v, hv, hnormal⟩ := Option.map_eq_some_iff.1 hfind
  obtain ⟨required, rfl, rfl⟩ := normalKeyword_required_eq_array hnormal
  obtain ⟨item, hmem, rfl⟩ := List.mem_map.1 hitem
  obtain ⟨name, rfl⟩ := h required hv item (mem_normalRequired hmem)
  exact ⟨name, rfl⟩

/-- A `required` list that was read is settled if it holds names only. -/
theorem requiredSettled_normalKeywords {members : Entries Json}
    (hd : (Entries.names members).Nodup) {type : SchemaType} {reference format : Option String}
    {properties : Option (Entries Shape)} {items : Option Shape}
    (h : (typed type reference format properties items (normalKeywords members)).RequiresNames) :
    (typed type reference format properties items (normalKeywords members)).RequiredSettled := by
  intro _ list hlist
  have hnames := h list hlist
  have hfind : (normalKeywords members).find? "required" = some (.array list) := hlist
  rw [find?_normalKeywords hd, if_neg (by decide)] at hfind
  obtain ⟨v, -, hv⟩ := Option.map_eq_some_iff.1 hfind
  obtain ⟨raw, rfl, rfl⟩ := normalKeyword_required_eq_array hv
  have hsorted : (normalRequired raw).map Json.sortMembers = normalRequired raw := by
    refine (List.map_congr_left fun item hitem => ?_).trans (List.map_id _)
    obtain ⟨name, hname⟩ := hnames _ (List.mem_map_of_mem hitem)
    rw [hname, id, eq_string_of_sortMembers hname]
  rw [hsorted]
  exact settled_normalRequired raw

/-- Whether the `required` list of a shape is settled if it holds names only. -/
def SettledNames (s : Shape) : Prop := s.RequiresNames → s.RequiredSettled

theorem settledNames_ofJsonAt {v : Json} (hv : v.Distinct) {path : String} {s : Shape}
    (h : ofJsonAt path v = .ok s) : s.Everywhere SettledNames := by
  refine everywhere_ofJsonAt (fun members uri _ _ _ htype => nomatch htype) ?_ hv h
  intro path members type reference format properties items hd _
  exact requiredSettled_normalKeywords (Json.distinct_object_iff.1 hd).1

theorem Obtained.settledNames {s : Shape} (h : s.Obtained) : s.Everywhere SettledNames := by
  induction h with
  | read hraw h => exact settledNames_ofJsonAt hraw h
  | inlined hd hs h ih =>
    exact everywhere_inline hd (fun v s hv h => settledNames_ofJsonAt hv h)
      (fun _ _ _ _ _ _ _ _ h => h) hs.wellFormed ih h

/-- A shape that requires names only is what its JSON form describes. -/
theorem Obtained.ofJson_toJson_self {s : Shape} (h : s.Obtained)
    (hnames : s.Everywhere RequiresNames) : ofJson s.toJson = .ok s := by
  obtain ⟨t, ht, hiff⟩ := ofJsonAt_toJson h.wellFormed "#"
  rwa [hiff.2 (h.settledNames.mp hnames)] at ht

end PropStorage.Shape
