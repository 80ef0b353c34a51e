import PropStorage.Proofs.Json.Sameness

/-!
# What sameness does not see

Two values that are the same may still differ: in the order of members, and in the signs of zeros.
The outline of a value holds just this much of it (`Json.outline`), so values that are the same and
have one outline are one value (`eq_of_outline_eq`). Once members are sorted, only the signs of
zeros are left (`sortMembers_eq_of_equiv`).
-/

namespace PropStorage

/-- Whether the number is the zero with a minus sign. -/
def Number.isNegativeZero : Number → Bool
  | .integer _ => false
  | .decimal d => d.negative && d.coefficient = 0

theorem Decimal.eq_of_equiv {a b : Decimal} (h : a.equiv b = true)
    (hzero : (Number.decimal a).isNegativeZero = (Number.decimal b).isNegativeZero) : a = b := by
  obtain ⟨negative, coefficient, exponent, normal⟩ := a
  obtain ⟨negative', coefficient', exponent', normal'⟩ := b
  simp only [Decimal.equiv, Bool.or_eq_true, Bool.and_eq_true, decide_eq_true_eq] at h
  rcases h with h | ⟨ha, hb⟩
  · exact h
  · -- The coefficients are zero, and so are the exponents then: only the signs can differ.
    subst ha hb
    obtain rfl : exponent = 0 := by omega
    obtain rfl : exponent' = 0 := by omega
    simpa [Number.isNegativeZero] using hzero

theorem Number.eq_of_equiv {a b : Number} (h : a.equiv b = true)
    (hzero : a.isNegativeZero = b.isNegativeZero) : a = b := by
  cases a with
  | integer i =>
    cases b with
    | integer j => exact congrArg integer (of_decide_eq_true h)
    | decimal => cases h
  | decimal d =>
    cases b with
    | integer => cases h
    | decimal e => exact congrArg decimal (Decimal.eq_of_equiv h hzero)

namespace Json

mutual

/-- The value with null in place of all that holds no other value, but for negative zeros. -/
def outline : Json → Json
  | number n => if n.isNegativeZero then number n else null
  | array items => array (outlineItems items)
  | object members => object (outlineMembers members)
  | _ => null

def outlineItems : List Json → List Json
  | [] => []
  | item :: items => outline item :: outlineItems items

def outlineMembers : List (String × Json) → List (String × Json)
  | [] => []
  | (name, value) :: members => (name, outline value) :: outlineMembers members

end

theorem outlineItems_eq_map (items : List Json) : outlineItems items = items.map outline := by
  induction items with
  | nil => rfl
  | cons item items ih => rw [outlineItems, ih, List.map_cons]

theorem outlineMembers_eq_mapValues (members : Entries Json) :
    outlineMembers members = Entries.mapValues outline members := by
  induction members with
  | nil => rfl
  | cons m members ih =>
    obtain ⟨name, value⟩ := m
    rw [outlineMembers, ih]; rfl

theorem outline_array (items : List Json) : outline (array items) = array (items.map outline) := by
  rw [outline, outlineItems_eq_map]

theorem outline_object (members : Entries Json) :
    outline (object members) = object (Entries.mapValues outline members) := by
  rw [outline, outlineMembers_eq_mapValues]

theorem isNegativeZero_eq_of_outline {m n : Number}
    (h : (number m).outline = (number n).outline) : m.isNegativeZero = n.isNegativeZero := by
  rw [outline, outline] at h
  split at h <;> split at h
  · simp [*]
  · cases h
  · cases h
  · simp [*]

/-- Members that are the same by name are one list if their names stand in one order and each pair
of values is one value. -/
theorem eq_of_outlineMembers_eq {as bs : Entries Json} (hd : (Entries.names as).Nodup)
    (ih : ∀ a ∈ as, ∀ b ∈ bs, a.2.equiv b.2 = true → a.2.outline = b.2.outline → a.2 = b.2)
    (h : ∀ name, Same? (Entries.find? as name) (Entries.find? bs name))
    (houtline : Entries.mapValues outline as = Entries.mapValues outline bs) : as = bs := by
  refine Entries.ext_of_names_eq hd ?_ fun name => ?_
  · rw [← Entries.names_mapValues outline as, houtline, Entries.names_mapValues]
  · have hname := h name
    have hmap := congrArg (Entries.find? · name) houtline
    simp only [Entries.find?_mapValues] at hmap
    cases ha : Entries.find? as name with
    | none =>
      rw [ha] at hmap
      exact (Option.map_eq_none_iff.1 hmap.symm).symm
    | some a =>
      rw [ha] at hname hmap
      obtain ⟨b, hb, hab⟩ := exists_of_same?_some hname
      rw [hb, Option.map_some, Option.map_some, Option.some.injEq] at hmap
      rw [hb]
      exact congrArg some (ih _ (Entries.mem_of_find? ha) _ (Entries.mem_of_find? hb) hab hmap)

/-- Values that are the same and have one outline are one value. -/
theorem eq_of_outline_eq {v w : Json} (hv : v.Distinct) (hw : w.Distinct) (h : v.equiv w = true)
    (houtline : v.outline = w.outline) : v = w := by
  induction v using Json.induction generalizing w with
  | null => cases w <;> first | rfl | cases h
  | bool b =>
    cases w with
    | bool c => rw [equiv, beq_iff_eq] at h; rw [h]
    | _ => cases h
  | number m =>
    cases w with
    | number n =>
      rw [equiv] at h
      rw [Number.eq_of_equiv h (isNegativeZero_eq_of_outline houtline)]
    | _ => cases h
  | string s =>
    cases w with
    | string t => rw [equiv, beq_iff_eq] at h; rw [h]
    | _ => cases h
  | array items ih =>
    cases w with
    | array others =>
      rw [equiv, equivItems_iff] at h
      rw [outline_array, outline_array, array.injEq] at houtline
      refine congrArg array (Entries.eq_of_forall₂ h houtline fun a ha b hb => ?_)
      exact ih a ha (distinct_array_iff.1 hv a ha) (distinct_array_iff.1 hw b hb)
    | _ => cases h
  | object members ih =>
    cases w with
    | object others =>
      obtain ⟨hd, hvalues⟩ := distinct_object_iff.1 hv
      obtain ⟨hd', hvalues'⟩ := distinct_object_iff.1 hw
      rw [equiv_object_iff hd hd'] at h
      rw [outline_object, outline_object, object.injEq] at houtline
      refine congrArg object (eq_of_outlineMembers_eq hd (fun a ha b hb => ?_) h houtline)
      exact ih a ha (hvalues a ha) (hvalues' b hb)
    | _ => cases h

/-! ## Without negative zeros -/

mutual

/-- Whether a zero with a minus sign stands anywhere in the value. -/
def hasNegativeZero : Json → Bool
  | number n => n.isNegativeZero
  | array items => hasNegativeZeroInItems items
  | object members => hasNegativeZeroInMembers members
  | _ => false

def hasNegativeZeroInItems : List Json → Bool
  | [] => false
  | item :: items => hasNegativeZero item || hasNegativeZeroInItems items

def hasNegativeZeroInMembers : List (String × Json) → Bool
  | [] => false
  | (_, value) :: members => hasNegativeZero value || hasNegativeZeroInMembers members

end

theorem hasNegativeZero_array_eq_false_iff {items : List Json} :
    hasNegativeZero (array items) = false ↔ ∀ item ∈ items, hasNegativeZero item = false := by
  rw [hasNegativeZero]
  induction items with
  | nil => simp [hasNegativeZeroInItems]
  | cons item items ih =>
    rw [hasNegativeZeroInItems, Bool.or_eq_false_iff, ih, List.forall_mem_cons]

theorem hasNegativeZero_object_eq_false_iff {members : Entries Json} :
    hasNegativeZero (object members) = false ↔ ∀ m ∈ members, hasNegativeZero m.2 = false := by
  rw [hasNegativeZero]
  induction members with
  | nil => simp [hasNegativeZeroInMembers]
  | cons m members ih =>
    obtain ⟨name, value⟩ := m
    rw [hasNegativeZeroInMembers, Bool.or_eq_false_iff, ih, List.forall_mem_cons]

/-- Values that are the same are sorted alike if none of their zeros is negative. -/
theorem sortMembers_eq_of_equiv {v w : Json} (hv : v.Distinct) (hw : w.Distinct)
    (hvz : v.hasNegativeZero = false) (hwz : w.hasNegativeZero = false)
    (h : v.equiv w = true) : v.sortMembers = w.sortMembers := by
  induction v using Json.induction generalizing w with
  | null => cases w <;> first | rfl | cases h
  | bool b =>
    cases w with
    | bool c => rw [equiv, beq_iff_eq] at h; rw [h]
    | _ => cases h
  | number m =>
    cases w with
    | number n =>
      rw [equiv] at h
      rw [hasNegativeZero] at hvz hwz
      rw [Number.eq_of_equiv h (hvz.trans hwz.symm)]
    | _ => cases h
  | string s =>
    cases w with
    | string t => rw [equiv, beq_iff_eq] at h; rw [h]
    | _ => cases h
  | array items ih =>
    cases w with
    | array others =>
      rw [equiv, equivItems_iff] at h
      rw [distinct_array_iff] at hv hw
      rw [hasNegativeZero_array_eq_false_iff] at hvz hwz
      rw [sortMembers_array, sortMembers_array, array.injEq, ← List.forall₂_eq_eq_eq,
        List.forall₂_map_left_iff, List.forall₂_map_right_iff]
      refine List.forall₂_iff_zip.2 ⟨h.length_eq, fun {a b} hmem => ?_⟩
      obtain ⟨ha, hb⟩ := List.of_mem_zip hmem
      exact ih a ha (hv a ha) (hw b hb) (hvz a ha) (hwz b hb) ((List.forall₂_iff_zip.1 h).2 hmem)
    | _ => cases h
  | object members ih =>
    cases w with
    | object others =>
      obtain ⟨hd, hvalues⟩ := distinct_object_iff.1 hv
      obtain ⟨hd', hvalues'⟩ := distinct_object_iff.1 hw
      rw [equiv_object_iff hd hd'] at h
      rw [hasNegativeZero_object_eq_false_iff] at hvz hwz
      refine (sortMembers_object_eq_iff hd hd').2 fun name => ?_
      have hname := h name
      cases ha : Entries.find? members name with
      | none =>
        rw [ha] at hname
        cases hb : Entries.find? others name with
        | none => rfl
        | some b => rw [hb] at hname; cases hname
      | some a =>
        rw [ha] at hname
        obtain ⟨b, hb, hab⟩ := exists_of_same?_some hname
        have ha := Entries.mem_of_find? ha
        have hmem := Entries.mem_of_find? hb
        rw [hb, Option.map_some, Option.map_some,
          ih _ ha (hvalues _ ha) (hvalues' _ hmem) (hvz _ ha) (hwz _ hmem) hab]
    | _ => cases h

/-! ## Maps -/

/-- Maps that hold the same values are one map if the values have one outline. -/
theorem eq_of_map_outline_eq {m n : SortedMap Json} (hm : ∀ e ∈ m.entries, e.2.Distinct)
    (hn : ∀ e ∈ n.entries, e.2.Distinct) (h : equivMaps m n = true)
    (houtline : m.map outline = n.map outline) : m = n := by
  have hobject : (object m.entries).equiv (object n.entries) = true := by rw [equiv]; exact h
  refine SortedMap.ext (object.inj (eq_of_outline_eq ?_ ?_ hobject ?_))
  · exact distinct_object_iff.2 ⟨m.nodup_names, hm⟩
  · exact distinct_object_iff.2 ⟨n.nodup_names, hn⟩
  · rw [outline_object, outline_object]
    exact congrArg (fun m => object m.entries) houtline

/-- Maps of sorted values that are the same are one map if none of their zeros is negative. -/
theorem eq_of_equivMaps {m n : SortedMap Json}
    (hm : ∀ e ∈ m.entries, e.2.sortMembers = e.2 ∧ e.2.Distinct)
    (hn : ∀ e ∈ n.entries, e.2.sortMembers = e.2 ∧ e.2.Distinct)
    (hmz : ∀ e ∈ m.entries, e.2.hasNegativeZero = false)
    (hnz : ∀ e ∈ n.entries, e.2.hasNegativeZero = false) (h : equivMaps m n = true) : m = n := by
  have hobject : (object m.entries).equiv (object n.entries) = true := by rw [equiv]; exact h
  have hsorted := sortMembers_eq_of_equiv
    (distinct_object_iff.2 ⟨m.nodup_names, fun e he => (hm e he).2⟩)
    (distinct_object_iff.2 ⟨n.nodup_names, fun e he => (hn e he).2⟩)
    (hasNegativeZero_object_eq_false_iff.2 hmz) (hasNegativeZero_object_eq_false_iff.2 hnz) hobject
  rw [sortMembers_map, sortMembers_map, object.injEq] at hsorted
  refine SortedMap.ext ?_
  rw [← mapValues_eq_self fun e he => (hm e he).1, ← mapValues_eq_self fun e he => (hn e he).1]
  exact hsorted

end Json

end PropStorage
