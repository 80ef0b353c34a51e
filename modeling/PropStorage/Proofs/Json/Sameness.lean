import PropStorage.Proofs.Json.Sorting

/-!
# Sameness up to the order of members

What `Json.equiv` says of arrays and objects (`equivItems_iff`, `equivMembers_iff`), and of values
whose objects name no member twice:

* `equiv_self`: such a value is the same as itself;
* `equiv_object_iff`: two objects are the same just if they agree on each name;
* `sortMembers_equiv_iff`: sorting members does not change which values are the same.
-/

namespace PropStorage

theorem Decimal.equiv_self (d : Decimal) : d.equiv d = true := by
  simp [Decimal.equiv]

theorem Number.equiv_self (n : Number) : n.equiv n = true := by
  cases n with
  | integer i => exact decide_eq_true rfl
  | decimal d => exact d.equiv_self

theorem Decimal.equiv_symm {a b : Decimal} (h : a.equiv b = true) : b.equiv a = true := by
  simp only [Decimal.equiv, Bool.or_eq_true, Bool.and_eq_true, decide_eq_true_eq] at h ⊢
  exact h.imp Eq.symm And.symm

theorem Number.equiv_symm {m n : Number} (h : m.equiv n = true) : n.equiv m = true := by
  cases m with
  | integer i =>
    cases n with
    | integer j => exact decide_eq_true (of_decide_eq_true h).symm
    | decimal => cases h
  | decimal d =>
    cases n with
    | integer => cases h
    | decimal e => exact Decimal.equiv_symm h

theorem Decimal.equiv_trans {a b c : Decimal} (hab : a.equiv b = true) (hbc : b.equiv c = true) :
    a.equiv c = true := by
  simp only [Decimal.equiv, Bool.or_eq_true, Bool.and_eq_true, decide_eq_true_eq] at hab hbc ⊢
  rcases hab with rfl | hab
  · exact hbc
  · rcases hbc with rfl | hbc
    · exact .inr hab
    · exact .inr ⟨hab.1, hbc.2⟩

theorem Number.equiv_trans {k m n : Number} (hkm : k.equiv m = true) (hmn : m.equiv n = true) :
    k.equiv n = true := by
  cases k with
  | integer i =>
    cases m with
    | integer j =>
      obtain rfl : i = j := of_decide_eq_true hkm
      exact hmn
    | decimal => cases hkm
  | decimal d =>
    cases m with
    | integer => cases hkm
    | decimal e =>
      cases n with
      | integer => cases hmn
      | decimal f => exact Decimal.equiv_trans hkm hmn

namespace Json

theorem equivItems_iff {as bs : List Json} :
    equivItems as bs = true ↔ List.Forall₂ (fun a b => a.equiv b = true) as bs := by
  induction as generalizing bs with
  | nil => cases bs <;> simp [equivItems]
  | cons a as ih =>
    cases bs with
    | nil => simp [equivItems]
    | cons b bs => rw [equivItems, Bool.and_eq_true, ih, List.forall₂_cons]

theorem equivMembers_iff {as bs : Entries Json} :
    equivMembers as bs = true ↔
      ∀ m ∈ as, ∃ b, Entries.find? bs m.1 = some b ∧ m.2.equiv b = true := by
  induction as with
  | nil => simp [equivMembers]
  | cons m as ih =>
    obtain ⟨name, a⟩ := m
    rw [equivMembers, Bool.and_eq_true, ih, List.forall_mem_cons]
    refine and_congr_left' ?_
    cases Entries.find? bs name <;> simp

/-- The members of an object are the same as themselves if their values are. -/
theorem equivMembers_self {members : Entries Json} (hd : (Entries.names members).Nodup)
    (h : ∀ m ∈ members, m.2.equiv m.2 = true) : equivMembers members members = true :=
  equivMembers_iff.2 fun m hm => ⟨m.2, Entries.find?_of_mem hd hm, h m hm⟩

/-- A value whose objects name no member twice is the same as itself. -/
theorem equiv_self {v : Json} (h : v.Distinct) : v.equiv v = true := by
  induction v using Json.induction with
  | null => rfl
  | bool b => rw [equiv]; exact beq_self_eq_true b
  | number n => rw [equiv]; exact n.equiv_self
  | string s => rw [equiv]; exact beq_self_eq_true s
  | array items ih =>
    rw [equiv, equivItems_iff, List.forall₂_same]
    exact fun item hitem => ih item hitem (distinct_array_iff.1 h item hitem)
  | object members ih =>
    obtain ⟨hd, hvalues⟩ := distinct_object_iff.1 h
    rw [equiv, beq_self_eq_true, Bool.true_and]
    exact equivMembers_self hd fun m hm => ih m hm (hvalues m hm)

theorem equivMaps_self {m : SortedMap Json} (h : ∀ e ∈ m.entries, e.2.Distinct) :
    equivMaps m m = true := by
  rw [equivMaps, beq_self_eq_true, Bool.true_and]
  exact equivMembers_self m.nodup_names fun e he => equiv_self (h e he)

/-! ## Objects by name -/

/-- Two optional values are both missing, or the same up to the order of members. -/
abbrev Same? (a b : Option Json) : Prop := Option.Rel (fun a b => a.equiv b = true) a b

theorem isSome_eq_of_same? {a b : Option Json} (h : Same? a b) : a.isSome = b.isSome := by
  cases h <;> rfl

theorem exists_of_same?_some {a : Json} {b : Option Json} (h : Same? (some a) b) :
    ∃ b', b = some b' ∧ a.equiv b' = true := by
  cases h with
  | some h => exact ⟨_, rfl, h⟩

theorem same?_string_iff {s t : String} : Same? (some (string s)) (some (string t)) ↔ s = t := by
  simp [Same?, equiv]

theorem same?_map_iff {a b : Option Json} {f : Json → Json}
    (h : ∀ v ∈ a, ∀ w ∈ b, ((f v).equiv (f w) = true ↔ v.equiv w = true)) :
    Same? (a.map f) (b.map f) ↔ Same? a b := by
  cases a with
  | none => cases b <;> simp [Same?]
  | some v =>
    cases b with
    | none => simp [Same?]
    | some w => simp [Same?, h v rfl w rfl]

/-- Objects whose names are distinct are the same just if they agree on each name. -/
theorem equiv_object_iff {as bs : Entries Json} (ha : (Entries.names as).Nodup)
    (hb : (Entries.names bs).Nodup) :
    (object as).equiv (object bs) = true ↔
      ∀ name, Same? (Entries.find? as name) (Entries.find? bs name) := by
  rw [equiv, Bool.and_eq_true, beq_iff_eq, equivMembers_iff]
  constructor
  · rintro ⟨hlength, hmembers⟩ name
    have hsub : Entries.names as ⊆ Entries.names bs := by
      intro n hn
      obtain ⟨m, hm, rfl⟩ := List.mem_map.1 hn
      obtain ⟨b, hb, -⟩ := hmembers m hm
      exact Entries.find?_isSome_iff.1 (by rw [hb]; rfl)
    cases hfind : Entries.find? as name with
    | none =>
      rw [Entries.find?_eq_none_iff, Entries.mem_names_iff_of_subset ha hlength hsub,
        ← Entries.find?_eq_none_iff] at hfind
      rw [hfind]
      exact .none
    | some a =>
      obtain ⟨b, hb, hab⟩ := hmembers _ (Entries.mem_of_find? hfind)
      rw [hb]
      exact .some hab
  · intro h
    refine ⟨Entries.length_eq_of_mem_names_iff ha hb fun name => ?_, fun m hm => ?_⟩
    · rw [← Entries.find?_isSome_iff, ← Entries.find?_isSome_iff, isSome_eq_of_same? (h name)]
    · exact exists_of_same?_some (Entries.find?_of_mem ha hm ▸ h m.1)

theorem same?_symm {a b : Option Json}
    (hsymm : ∀ v ∈ a, ∀ w ∈ b, v.equiv w = true → w.equiv v = true) (h : Same? a b) :
    Same? b a := by
  cases h with
  | none => exact .none
  | some h => exact .some (hsymm _ rfl _ rfl h)

theorem same?_trans {a b c : Option Json}
    (htrans : ∀ u ∈ a, ∀ v ∈ b, ∀ w ∈ c, u.equiv v = true → v.equiv w = true → u.equiv w = true)
    (hab : Same? a b) (hbc : Same? b c) : Same? a c := by
  cases hab with
  | none => exact hbc
  | some hab =>
    cases hbc with
    | some hbc => exact .some (htrans _ rfl _ rfl _ rfl hab hbc)

theorem forall₂_trans {as bs cs : List Json}
    (htrans : ∀ u ∈ as, ∀ v ∈ bs, ∀ w ∈ cs, u.equiv v = true → v.equiv w = true →
      u.equiv w = true)
    (hab : List.Forall₂ (fun a b => a.equiv b = true) as bs)
    (hbc : List.Forall₂ (fun a b => a.equiv b = true) bs cs) :
    List.Forall₂ (fun a b => a.equiv b = true) as cs := by
  induction hab generalizing cs with
  | nil => exact hbc
  | cons h _ ih =>
    cases hbc with
    | cons h' hbc =>
      refine .cons (htrans _ List.mem_cons_self _ List.mem_cons_self _ List.mem_cons_self h h')
        (ih (fun u hu v hv w hw => ?_) hbc)
      exact htrans u (List.mem_cons_of_mem _ hu) v (List.mem_cons_of_mem _ hv) w
        (List.mem_cons_of_mem _ hw)

/-- Of two values that are the same, either is the same as the other. -/
theorem equiv_symm {v w : Json} (hv : v.Distinct) (hw : w.Distinct) (h : v.equiv w = true) :
    w.equiv v = true := by
  induction v using Json.induction generalizing w with
  | array items ih =>
    cases w with
    | array others =>
      rw [equiv, equivItems_iff, List.forall₂_iff_zip] at h
      rw [equiv, equivItems_iff]
      refine List.Forall₂.flip (List.forall₂_iff_zip.2 ⟨h.1, fun {a b} hmem => ?_⟩)
      obtain ⟨ha, hb⟩ := List.of_mem_zip hmem
      exact ih a ha (distinct_array_iff.1 hv a ha) (distinct_array_iff.1 hw b hb) (h.2 hmem)
    | _ => simp [equiv] at h
  | object members ih =>
    cases w with
    | object others =>
      obtain ⟨hd, hvalues⟩ := distinct_object_iff.1 hv
      obtain ⟨hd', hvalues'⟩ := distinct_object_iff.1 hw
      rw [equiv_object_iff hd hd'] at h
      rw [equiv_object_iff hd' hd]
      refine fun name => same?_symm (fun a ha b hb => ?_) (h name)
      have ha := Entries.mem_of_find? ha
      have hb := Entries.mem_of_find? hb
      exact ih _ ha (hvalues _ ha) (hvalues' _ hb)
    | _ => simp [equiv] at h
  | number m =>
    cases w with
    | number n => exact Number.equiv_symm h
    | _ => simp [equiv] at h
  | _ => cases w <;> simp_all [equiv]

/-- Values that are the same as a third one are the same. -/
theorem equiv_trans {u v w : Json} (hu : u.Distinct) (hv : v.Distinct) (hw : w.Distinct)
    (huv : u.equiv v = true) (hvw : v.equiv w = true) : u.equiv w = true := by
  induction u using Json.induction generalizing v w with
  | array items ih =>
    cases v with
    | array others =>
      cases w with
      | array more =>
        rw [equiv, equivItems_iff] at huv hvw ⊢
        refine forall₂_trans (fun a ha b hb c hc => ?_) huv hvw
        exact ih a ha (distinct_array_iff.1 hu a ha) (distinct_array_iff.1 hv b hb)
          (distinct_array_iff.1 hw c hc)
      | _ => simp [equiv] at hvw
    | _ => simp [equiv] at huv
  | object members ih =>
    cases v with
    | object others =>
      cases w with
      | object more =>
        obtain ⟨hd, hvalues⟩ := distinct_object_iff.1 hu
        obtain ⟨hd', hvalues'⟩ := distinct_object_iff.1 hv
        obtain ⟨hd'', hvalues''⟩ := distinct_object_iff.1 hw
        rw [equiv_object_iff hd hd'] at huv
        rw [equiv_object_iff hd' hd''] at hvw
        rw [equiv_object_iff hd hd'']
        refine fun name => same?_trans (fun a ha b hb c hc => ?_) (huv name) (hvw name)
        have ha := Entries.mem_of_find? ha
        exact ih _ ha (hvalues _ ha) (hvalues' _ (Entries.mem_of_find? hb))
          (hvalues'' _ (Entries.mem_of_find? hc))
      | _ => simp [equiv] at hvw
    | _ => simp [equiv] at huv
  | number m =>
    cases v with
    | number n =>
      cases w with
      | number k => exact Number.equiv_trans huv hvw
      | _ => simp [equiv] at hvw
    | _ => simp [equiv] at huv
  | _ => cases v <;> cases w <;> simp_all [equiv]

theorem equivMaps_symm {m n : SortedMap Json} (hm : ∀ e ∈ m.entries, e.2.Distinct)
    (hn : ∀ e ∈ n.entries, e.2.Distinct) (h : equivMaps m n = true) : equivMaps n m = true :=
  equiv_symm (v := object m.entries) (w := object n.entries)
    (distinct_object_iff.2 ⟨m.nodup_names, hm⟩) (distinct_object_iff.2 ⟨n.nodup_names, hn⟩) h

/-- Sorting members does not change which values are the same. -/
theorem sortMembers_equiv_iff {v w : Json} (hv : v.Distinct) (hw : w.Distinct) :
    v.sortMembers.equiv w.sortMembers = true ↔ v.equiv w = true := by
  induction v using Json.induction generalizing w with
  | array items ih =>
    cases w with
    | array others =>
      rw [sortMembers_array, sortMembers_array, equiv, equiv, equivItems_iff, equivItems_iff,
        List.forall₂_map_left_iff, List.forall₂_map_right_iff, List.forall₂_iff_zip,
        List.forall₂_iff_zip]
      refine and_congr_right fun _ => forall_congr' fun a => forall_congr' fun b => ?_
      refine forall_congr' fun hmem => ?_
      obtain ⟨ha, hb⟩ := List.of_mem_zip hmem
      exact ih a ha (distinct_array_iff.1 hv a ha) (distinct_array_iff.1 hw b hb)
    | _ => simp [sortMembers, equiv]
  | object members ih =>
    cases w with
    | object others =>
      obtain ⟨hd, hvalues⟩ := distinct_object_iff.1 hv
      obtain ⟨hd', hvalues'⟩ := distinct_object_iff.1 hw
      rw [sortMembers_object, sortMembers_object, equiv_object_iff (SortedMap.nodup_names _)
        (SortedMap.nodup_names _), equiv_object_iff hd hd']
      refine forall_congr' fun name => ?_
      have hfind : ∀ {ms : Entries Json}, (Entries.names ms).Nodup →
          Entries.find? (SortedMap.ofEntries (Entries.mapValues sortMembers ms)).entries name
            = (Entries.find? ms name).map sortMembers := fun hd => find?_sortMembers hd name
      rw [hfind hd, hfind hd', same?_map_iff]
      intro a ha b hb
      have ha := Entries.mem_of_find? ha
      have hb := Entries.mem_of_find? hb
      exact ih _ ha (hvalues _ ha) (hvalues' _ hb)
    | _ => simp [sortMembers, equiv]
  | _ => cases w <;> simp [sortMembers, equiv]

/-- Values that are sorted alike are the same. -/
theorem equiv_of_sortMembers_eq {v w : Json} (hv : v.Distinct) (hw : w.Distinct)
    (h : v.sortMembers = w.sortMembers) : v.equiv w = true := by
  rw [← sortMembers_equiv_iff hv hw, h]
  exact equiv_self (distinct_sortMembers hw)

end Json

end PropStorage
