import PropStorage.Proofs.Json.Sameness

/-!
# Values that differ in the order of members

`Json.Reordered` relates two values just if one becomes the other when members change places, within
objects at any depth. Unlike `Json.equiv` it keeps all numbers as they are.

Where no member is named twice, this is so just if both are sorted alike
(`reordered_iff_sortMembers_eq`).
-/

namespace PropStorage

/-! ## Values that may be missing -/

section Rel

variable {α β : Type}

theorem rel_refl {R : α → α → Prop} (h : ∀ a, R a a) (a : Option α) : Option.Rel R a a := by
  cases a with
  | none => exact .none
  | some a => exact .some (h a)

theorem rel_imp {R S : α → β → Prop} {a : Option α} {b : Option β} (hab : Option.Rel R a b)
    (h : ∀ x ∈ a, ∀ y ∈ b, R x y → S x y) : Option.Rel S a b := by
  cases hab with
  | none => exact .none
  | some hab => exact .some (h _ rfl _ rfl hab)

theorem rel_symm {R : α → β → Prop} {S : β → α → Prop} (h : ∀ {a b}, R a b → S b a) {a : Option α}
    {b : Option β} (hab : Option.Rel R a b) : Option.Rel S b a := by
  cases hab with
  | none => exact .none
  | some hab => exact .some (h hab)

theorem rel_or {R : α → α → Prop} (hR : ∀ a, R a a) {a b : Option α} (hab : Option.Rel R a b)
    (c : Option α) : Option.Rel R (a.or c) (b.or c) := by
  cases hab with
  | none => exact rel_refl hR c
  | some hab => exact .some hab

theorem eq_none_of_rel {R : α → β → Prop} {b : Option β} (h : Option.Rel R none b) : b = none := by
  cases h; rfl

theorem exists_of_rel_some {R : α → β → Prop} {a : α} {b : Option β} (h : Option.Rel R (some a) b) :
    ∃ b', b = some b' ∧ R a b' := by
  cases h with
  | some h => exact ⟨_, rfl, h⟩

theorem eq_of_rel {a b : Option α} (h : Option.Rel Eq a b) : a = b := by
  cases h with
  | none => rfl
  | some h => exact congrArg some h

theorem rel_cases {R : α → β → Prop} {a : Option α} {b : Option β} (h : Option.Rel R a b) :
    (a = none ∧ b = none) ∨ ∃ x y, a = some x ∧ b = some y ∧ R x y := by
  cases h with
  | none => exact .inl ⟨rfl, rfl⟩
  | some h => exact .inr ⟨_, _, rfl, rfl, h⟩

theorem map_eq_of_rel {γ : Type} {R : α → β → Prop} {f : α → γ} {g : β → γ} {a : Option α}
    {b : Option β} (hab : Option.Rel R a b) (h : ∀ x ∈ a, ∀ y ∈ b, R x y → f x = g y) :
    a.map f = b.map g := by
  cases hab with
  | none => rfl
  | some hab => exact congrArg some (h _ rfl _ rfl hab)

theorem bind_eq_of_rel {γ : Type} {R : α → β → Prop} {f : α → Option γ} {g : β → Option γ}
    {a : Option α} {b : Option β} (hab : Option.Rel R a b) (h : ∀ {x y}, R x y → f x = g y) :
    a.bind f = b.bind g := by
  cases hab with
  | none => rfl
  | some hab => exact h hab

end Rel

/-! ## Names in another order -/

namespace Entries

variable {α β : Type} {as : Entries α} {bs : Entries β}

/-- Entries with the same names, whose values are related by name, are related at each name. -/
theorem rel_find? {R : α → β → Prop} (hnames : ∀ name, name ∈ names as ↔ name ∈ names bs)
    (h : ∀ name a b, find? as name = some a → find? bs name = some b → R a b) (name : String) :
    Option.Rel R (find? as name) (find? bs name) := by
  have hsome : (find? as name).isSome ↔ (find? bs name).isSome := by
    rw [find?_isSome_iff, find?_isSome_iff, hnames]
  cases ha : find? as name with
  | none =>
    rw [ha] at hsome
    rw [Option.not_isSome_iff_eq_none.1 fun hb => nomatch hsome.2 hb]
    exact .none
  | some a =>
    rw [ha] at hsome
    obtain ⟨b, hb⟩ := Option.isSome_iff_exists.1 (hsome.1 rfl)
    rw [hb]
    exact .some (h name a b ha hb)

/-- Entries that are related one by one are related at each name. -/
theorem rel_find?_of_forall₂ {R : α → β → Prop}
    (h : List.Forall₂ (fun a b => a.1 = b.1 ∧ R a.2 b.2) as bs) (name : String) :
    Option.Rel R (find? as name) (find? bs name) := by
  induction h with
  | nil => exact .none
  | @cons a b as bs hab _ ih =>
    rw [find?_cons, find?_cons, hab.1]
    split
    · exact .some hab.2
    · exact ih

/-- Entries that are related at each name have the same names. -/
theorem mem_names_iff_of_rel {R : α → β → Prop}
    (h : ∀ name, Option.Rel R (find? as name) (find? bs name)) (name : String) :
    name ∈ names as ↔ name ∈ names bs := by
  rw [← find?_isSome_iff, ← find?_isSome_iff]
  have hname := h name
  revert hname
  cases find? as name <;> cases find? bs name <;> simp

/-- Of entries that are related at each name, those of one name are related. -/
theorem rel_of_find? {R : α → β → Prop}
    (h : ∀ name, Option.Rel R (find? as name) (find? bs name)) {name : String} {a : α} {b : β}
    (ha : find? as name = some a) (hb : find? bs name = some b) : R a b := by
  have hname := h name
  rw [ha, hb] at hname
  obtain ⟨_, ⟨⟩, hab⟩ := exists_of_rel_some hname
  exact hab

/-- If a step that succeeds for a value of a name succeeds for the other value, too, with a related
result, then a traversal that succeeds for the one entries succeeds for the others, with results
that are related by name. -/
theorem exists_traverse_of_rel {γ δ ε ζ : Type} {R : γ → δ → Prop} {f : String → α → Except ε γ}
    {g : String → β → Except ζ δ} (hb : (names bs).Nodup)
    (hnames : ∀ name, name ∈ names as ↔ name ∈ names bs)
    (h : ∀ name a b, find? as name = some a → find? bs name = some b → ∀ r, f name a = .ok r →
      ∃ r', g name b = .ok r' ∧ R r r') {rs : Entries γ} (hrs : traverse f as = .ok rs) :
    ∃ rs', traverse g bs = .ok rs' ∧ names rs' = names bs ∧
      ∀ name r r', find? rs name = some r → find? rs' name = some r' → R r r' := by
  obtain ⟨-, hfind⟩ := find?_traverse hrs
  -- Where the other entries have a name, the step succeeds for both values.
  have hstep : ∀ name b, find? bs name = some b →
      ∃ r r', find? rs name = some r ∧ g name b = .ok r' ∧ R r r' := by
    intro name b hb
    obtain ⟨a, ha⟩ := Option.isSome_iff_exists.1 (find?_isSome_iff.2
      ((hnames name).2 (find?_isSome_iff.1 (Option.isSome_iff_exists.2 ⟨b, hb⟩))))
    have hname := hfind name
    rw [ha] at hname
    obtain ⟨r, hr, hrs⟩ := hname
    obtain ⟨r', hr', hR⟩ := h name a b ha hb r hr
    exact ⟨r, r', hrs, hr', hR⟩
  have hall : ∀ e ∈ bs, ∃ r', g e.1 e.2 = .ok r' := fun e he => by
    obtain ⟨_, r', -, hr', -⟩ := hstep e.1 e.2 (find?_of_mem hb he)
    exact ⟨r', hr'⟩
  obtain ⟨rs', hrs'⟩ := exists_traverse_eq_ok hall
  obtain ⟨hnames', hfind'⟩ := find?_traverse hrs'
  refine ⟨rs', hrs', hnames', fun name r r' hr hr' => ?_⟩
  have hname := hfind' name
  cases hbs : find? bs name with
  | none =>
    rw [hbs] at hname
    rw [hname] at hr'
    cases hr'
  | some b =>
    rw [hbs] at hname
    obtain ⟨s', hs', hfound⟩ := hname
    obtain ⟨s, t', hs, ht', hR⟩ := hstep name b hbs
    obtain rfl := Except.ok.inj (hs'.symm.trans ht')
    obtain rfl := Option.some.inj (hr.symm.trans hs)
    obtain rfl := Option.some.inj (hr'.symm.trans hfound)
    exact hR

/-- Where no name is given twice, entries with the same names have them in some order. -/
theorem perm_names (ha : (names as).Nodup) (hb : (names bs).Nodup)
    (h : ∀ name, name ∈ names as ↔ name ∈ names bs) : (names as).Perm (names bs) :=
  (List.perm_ext_iff_of_nodup ha hb).2 h

end Entries

namespace Json

/-! ## Members in another order -/

/-- Two values that differ only in the order in which the members of objects stand. -/
inductive Reordered : Json → Json → Prop where
  | refl (v : Json) : Reordered v v
  | array {as bs : List Json} (length : as.length = bs.length)
    (item : ∀ {a b}, (a, b) ∈ as.zip bs → Reordered a b) : Reordered (array as) (array bs)
  | object {as bs : Entries Json} (names : (Entries.names as).Perm (Entries.names bs))
    (member : ∀ name a b, Entries.find? as name = some a → Entries.find? bs name = some b →
      Reordered a b) : Reordered (object as) (object bs)

theorem Reordered.symm {v w : Json} (h : v.Reordered w) : w.Reordered v := by
  induction h with
  | refl v => exact .refl v
  | array length _ ih =>
    have hitems := List.forall₂_iff_zip.1 (List.Forall₂.flip (R := fun b a => Reordered b a)
      (List.forall₂_iff_zip.2 ⟨length, ih⟩))
    exact .array hitems.1 hitems.2
  | object names _ ih => exact .object names.symm fun name b a hb ha => ih name a b ha hb

/-- A value that is no object stays none. -/
theorem Reordered.isObject_iff {v w : Json} (h : v.Reordered w) :
    (∃ ms, v = .object ms) ↔ ∃ ns, w = .object ns := by
  cases h with
  | refl => rfl
  | array => simp
  | object => simp

theorem Reordered.eq_string {s : String} {w : Json} (h : (string s).Reordered w) :
    w = string s := by
  cases h; rfl

theorem Reordered.string?_eq {v w : Json} (h : v.Reordered w) : v.string? = w.string? := by
  cases h <;> rfl

/-- Values that differ only in the order of members are sorted alike. -/
theorem Reordered.sortMembers_eq {v w : Json} (h : v.Reordered w) (hv : v.Distinct)
    (hw : w.Distinct) : v.sortMembers = w.sortMembers := by
  induction h with
  | refl => rfl
  | @array as bs length _ ih =>
    rw [sortMembers_array, sortMembers_array, array.injEq, ← List.forall₂_eq_eq_eq,
      List.forall₂_map_left_iff, List.forall₂_map_right_iff, List.forall₂_iff_zip]
    refine ⟨length, fun {a b} hmem => ?_⟩
    obtain ⟨ha, hb⟩ := List.of_mem_zip hmem
    exact ih hmem (distinct_array_iff.1 hv a ha) (distinct_array_iff.1 hw b hb)
  | @object as bs names _ ih =>
    refine (sortMembers_object_eq_iff (distinct_object_iff.1 hv).1
      (distinct_object_iff.1 hw).1).2 fun name => ?_
    refine map_eq_of_rel (R := fun a b => a.sortMembers = b.sortMembers)
      (Entries.rel_find? (fun _ => names.mem_iff) (fun name a b ha hb => ?_) name)
      fun _ _ _ _ h => h
    exact ih name a b ha hb (hv.find? ha) (hw.find? hb)

/-- Values that are sorted alike differ only in the order of members. -/
theorem reordered_of_sortMembers_eq {v w : Json} (hv : v.Distinct) (hw : w.Distinct)
    (h : v.sortMembers = w.sortMembers) : v.Reordered w := by
  induction v using Json.induction generalizing w with
  | array items ih =>
    cases w with
    | array others =>
      rw [sortMembers_array, sortMembers_array, array.injEq, ← List.forall₂_eq_eq_eq,
        List.forall₂_map_left_iff, List.forall₂_map_right_iff, List.forall₂_iff_zip] at h
      refine .array h.1 fun {a b} hmem => ?_
      obtain ⟨ha, hb⟩ := List.of_mem_zip hmem
      exact ih a ha (distinct_array_iff.1 hv a ha) (distinct_array_iff.1 hw b hb) (h.2 hmem)
    | _ => simp [sortMembers] at h
  | object members ih =>
    cases w with
    | object others =>
      have hd := (distinct_object_iff.1 hv).1
      have hd' := (distinct_object_iff.1 hw).1
      rw [sortMembers_object_eq_iff hd hd'] at h
      refine .object (Entries.perm_names hd hd' fun name => ?_) fun name a b ha hb => ?_
      · rw [← Entries.find?_isSome_iff, ← Entries.find?_isSome_iff,
          ← Option.isSome_map (f := sortMembers), h, Option.isSome_map]
      · have hname := h name
        rw [ha, hb, Option.map_some, Option.map_some, Option.some.injEq] at hname
        exact ih _ (Entries.mem_of_find? ha) (hv.find? ha) (hw.find? hb) hname
    | _ => simp [sortMembers] at h
  | _ => cases w <;> simp_all [sortMembers, Reordered.refl]

/-- Values that name no member twice differ only in the order of members just if they are sorted
alike. -/
theorem reordered_iff_sortMembers_eq {v w : Json} (hv : v.Distinct) (hw : w.Distinct) :
    v.Reordered w ↔ v.sortMembers = w.sortMembers :=
  ⟨fun h => h.sortMembers_eq hv hw, reordered_of_sortMembers_eq hv hw⟩

theorem reordered_sortMembers {v : Json} (h : v.Distinct) : v.Reordered v.sortMembers :=
  reordered_of_sortMembers_eq h (distinct_sortMembers h) v.sortMembers_sortMembers.symm

end Json

end PropStorage
