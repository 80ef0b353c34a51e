import Mathlib.Tactic.Ring
import PropStorage.Json.Number
import PropStorage.Proofs.Text.Spans

/-!
# Numbers and their texts

Different numbers have different texts (`Number.render_injective`): sign, digits and exponent can be
read off the text (`parts?`), and they determine the number, since a decimal is kept in normal form
(`Decimal.ofParts_mul_pow`).
-/

namespace PropStorage

namespace Decimal

theorem ofParts_of_normal (d : Decimal) : ofParts d.negative d.coefficient d.exponent = d := by
  obtain ⟨negative, coefficient, exponent, hnormal⟩ := d
  rw [ofParts]
  rcases hnormal with hmod | ⟨rfl, rfl⟩
  · have hne : coefficient ≠ 0 := by rintro rfl; exact hmod rfl
    rw [if_neg hne, dif_pos hmod]
  · rw [if_pos rfl]; rfl

/-- Zeros at the end of the coefficient move into the exponent. -/
theorem ofParts_mul_pow (negative : Bool) (coefficient : Nat) (exponent : Int) (k : Nat) :
    ofParts negative (coefficient * 10 ^ k) exponent
      = ofParts negative coefficient (exponent + k) := by
  by_cases hc : coefficient = 0
  · subst hc
    rw [Nat.zero_mul, ofParts, if_pos rfl, ofParts, if_pos rfl]
  induction k generalizing exponent with
  | zero => rw [Nat.pow_zero, Nat.mul_one, Int.natCast_zero, Int.add_zero]
  | succ k ih =>
    have hpos : coefficient * 10 ^ k ≠ 0 := Nat.mul_ne_zero hc (Nat.pow_pos (by decide)).ne'
    have hten : coefficient * 10 ^ (k + 1) = coefficient * 10 ^ k * 10 := by ring
    rw [ofParts, hten, if_neg (Nat.mul_ne_zero hpos (by decide)),
      dif_neg (by rw [Nat.mul_mod_left]; exact fun h => h rfl), Nat.mul_div_cancel _ (by decide),
      ih]
    congr 1
    push_cast
    ring

/-- A decimal is determined by its sign and its value, however many zeros end its digits. -/
theorem eq_of_scaled {d e : Decimal} {j k : Nat} (hs : d.negative = e.negative)
    (hc : d.coefficient * 10 ^ j = e.coefficient * 10 ^ k)
    (hx : d.exponent - j = e.exponent - k) : d = e := by
  have hd : ofParts d.negative (d.coefficient * 10 ^ j) (d.exponent - j) = d := by
    rw [ofParts_mul_pow, Int.sub_add_cancel, ofParts_of_normal]
  have he : ofParts e.negative (e.coefficient * 10 ^ k) (e.exponent - k) = e := by
    rw [ofParts_mul_pow, Int.sub_add_cancel, ofParts_of_normal]
  rw [← hd, ← he, hs, hc, hx]

end Decimal

namespace Number

open Text

/-! ## Digits -/

theorem isDigit_digits {n : Nat} {c : Char} (h : c ∈ digits n) : c.isDigit = true :=
  Nat.isDigit_of_mem_toDigits (by decide) (by decide) h

theorem digits_ne_nil (n : Nat) : digits n ≠ [] := Nat.toDigits_ne_nil

theorem ofDigitChars_digits (n : Nat) : Nat.ofDigitChars 10 (digits n) 0 = n :=
  Nat.ofDigitChars_ten_toDigits

theorem isDigit_replicate_zero {k : Nat} {c : Char} (h : c ∈ List.replicate k '0') :
    c.isDigit = true := by
  rw [(List.mem_replicate.1 h).2]; decide

theorem isDigit_zero : ∀ c ∈ ['0'], c.isDigit = true := by
  intro c hc
  rw [List.mem_singleton.1 hc]; decide

theorem splitDigits_append {ds rest : List Char} (hd : ∀ c ∈ ds, c.isDigit = true)
    (hrest : Stops Char.isDigit rest) : splitDigits (ds ++ rest) = (ds, rest) := by
  rw [splitDigits, takeWhile_append hd hrest, dropWhile_append hd hrest]

theorem fraction?_point {ds rest : List Char} (hne : ds ≠ []) (hd : ∀ c ∈ ds, c.isDigit = true)
    (hrest : Stops Char.isDigit rest) : fraction? ('.' :: (ds ++ rest)) = some (some ds, rest) := by
  rw [fraction?, splitDigits_append hd hrest]
  cases ds with
  | nil => exact absurd rfl hne
  | cons d ds => rfl

/-- The exponent of a decimal. -/
def exponentText (e : Int) : List Char := 'e' :: (if e < 0 then '-' else '+') :: digits e.natAbs

theorem exponent?_exponentText (e : Int) : exponent? (exponentText e) = some (some e) := by
  have hall : (digits e.natAbs).all Char.isDigit = true :=
    List.all_eq_true.2 fun c hc => isDigit_digits hc
  have hne : (digits e.natAbs).isEmpty = false := List.isEmpty_eq_false_iff.2 (digits_ne_nil _)
  rw [exponentText]
  split
  · rename_i h
    simp only [exponent?, hall, hne, ofDigitChars_digits, decide_true, Char.reduceEq, decide_false,
      Bool.or_false, Bool.not_false, Bool.and_self, ↓reduceIte, Int.reduceNeg, neg_mul, one_mul,
      Option.some.injEq]
    omega
  · rename_i h
    simp only [exponent?, hall, hne, ofDigitChars_digits, decide_true, Char.reduceEq, decide_false,
      Bool.or_false, Bool.not_false, Bool.and_self, ↓reduceIte, one_mul, Option.some.injEq]
    omega

/-! ## Reading a text back -/

/-- What a text without its sign says: the number that its digits make, and how far they are
shifted; an integer shifts nothing. -/
def parts? (body : List Char) : Option (Nat × Option Int) := do
  let (whole, rest) := splitDigits body
  let (fraction, rest) ← fraction? rest
  let exponent ← exponent? rest
  let shift := match fraction, exponent with
    | none, none => none
    | _, _ => some (exponent.getD 0 - (fraction.getD []).length)
  some (Nat.ofDigitChars 10 (whole ++ fraction.getD []) 0, shift)

theorem stops_exponentText (e : Int) : Stops Char.isDigit (exponentText e) := stops_cons rfl

theorem parts?_integer {ds : List Char} (hd : ∀ c ∈ ds, c.isDigit = true) :
    parts? ds = some (Nat.ofDigitChars 10 ds 0, none) := by
  have hsplit : splitDigits (ds ++ []) = (ds, []) := splitDigits_append hd stops_nil
  rw [List.append_nil] at hsplit
  rw [parts?, hsplit]
  simp [fraction?, exponent?]

theorem parts?_fraction {ds fs : List Char} (hd : ∀ c ∈ ds, c.isDigit = true) (hne : fs ≠ [])
    (hf : ∀ c ∈ fs, c.isDigit = true) :
    parts? (ds ++ '.' :: fs) =
      some (Nat.ofDigitChars 10 (ds ++ fs) 0, some (-(fs.length : Int))) := by
  have hfraction : fraction? ('.' :: (fs ++ [])) = some (some fs, []) :=
    fraction?_point hne hf stops_nil
  rw [List.append_nil] at hfraction
  rw [parts?, splitDigits_append hd (stops_cons rfl)]
  simp [hfraction, exponent?]

theorem parts?_exponent {ds : List Char} (hd : ∀ c ∈ ds, c.isDigit = true) (e : Int) :
    parts? (ds ++ exponentText e) = some (Nat.ofDigitChars 10 ds 0, some e) := by
  have hfraction : fraction? (exponentText e) = some (none, exponentText e) := rfl
  rw [parts?, splitDigits_append hd (stops_exponentText e)]
  simp [hfraction, exponent?_exponentText]

theorem parts?_fraction_exponent {ds fs : List Char} (hd : ∀ c ∈ ds, c.isDigit = true)
    (hne : fs ≠ []) (hf : ∀ c ∈ fs, c.isDigit = true) (e : Int) :
    parts? (ds ++ '.' :: (fs ++ exponentText e)) =
      some (Nat.ofDigitChars 10 (ds ++ fs) 0, some (e - fs.length)) := by
  rw [parts?, splitDigits_append hd (stops_cons rfl)]
  simp [fraction?_point hne hf (stops_exponentText e), exponent?_exponentText]

theorem ofDigitChars_append_zeros (ds : List Char) (k : Nat) :
    Nat.ofDigitChars 10 (ds ++ List.replicate k '0') 0 = Nat.ofDigitChars 10 ds 0 * 10 ^ k := by
  rw [Nat.ofDigitChars_append, Nat.ofDigitChars_replicate_zero, Nat.mul_comm]

/-! ## The forms of a decimal -/

section LayOut

variable {ds : List Char} {e : Int}

theorem parts?_layOut_far (hd : ∀ c ∈ ds, c.isDigit = true) (hne : ds ≠ [])
    (hfar : e < -5 ∨ 16 ≤ e) :
    parts? (layOut ds e) = some (Nat.ofDigitChars 10 ds 0, some (e + 1 - ds.length)) := by
  match ds, hne with
  | [d], _ =>
    have htext : layOut [d] e = [d] ++ exponentText e := by unfold layOut; rw [if_pos hfar]; rfl
    rw [htext, parts?_exponent hd]
    congr 3
    show e = e + 1 - (1 : Nat)
    omega
  | d :: next :: more, _ =>
    have htext : layOut (d :: next :: more) e = [d] ++ '.' :: (next :: more ++ exponentText e) := by
      unfold layOut; rw [if_pos hfar]; rfl
    have hfirst : ∀ c ∈ [d], c.isDigit = true := by
      intro c hc
      exact hd c (List.mem_cons.2 (.inl (List.mem_singleton.1 hc)))
    rw [htext, parts?_fraction_exponent hfirst (List.cons_ne_nil _ _)
      (fun c hc => hd c (List.mem_cons_of_mem _ hc)), List.singleton_append]
    congr 3
    simp only [List.length_cons]
    omega

theorem parts?_layOut_below (hd : ∀ c ∈ ds, c.isDigit = true) (hne : ds ≠ [])
    (hnear : ¬(e < -5 ∨ 16 ≤ e)) (hneg : e < 0) :
    parts? (layOut ds e) = some (Nat.ofDigitChars 10 ds 0, some (e + 1 - ds.length)) := by
  have htext : layOut ds e = ['0'] ++ '.' :: (List.replicate (e.natAbs - 1) '0' ++ ds) := by
    unfold layOut; rw [if_neg hnear, if_pos hneg]; rfl
  have hdigits : ∀ c ∈ List.replicate (e.natAbs - 1) '0' ++ ds, c.isDigit = true := by
    intro c hc
    rcases List.mem_append.1 hc with hc | hc
    · exact isDigit_replicate_zero hc
    · exact hd c hc
  have hzeros : ['0'] ++ (List.replicate (e.natAbs - 1) '0' ++ ds) =
      List.replicate (e.natAbs - 1 + 1) '0' ++ ds := rfl
  rw [htext, parts?_fraction isDigit_zero (List.append_ne_nil_of_right_ne_nil _ hne) hdigits,
    hzeros, Nat.ofDigitChars_append, Nat.ofDigitChars_replicate_zero, Nat.mul_zero,
    List.length_append, List.length_replicate]
  congr 3
  omega

theorem parts?_layOut_whole (hd : ∀ c ∈ ds, c.isDigit = true) (hnear : ¬(e < -5 ∨ 16 ≤ e))
    (hneg : ¬e < 0) (hlen : ds.length ≤ e.toNat + 1) :
    parts? (layOut ds e) =
      some (Nat.ofDigitChars 10 ds 0 * 10 ^ (e.toNat + 1 - ds.length + 1), some (-1)) := by
  have htext :
      layOut ds e = ds ++ List.replicate (e.toNat + 1 - ds.length) '0' ++ '.' :: ['0'] := by
    unfold layOut; rw [if_neg hnear, if_neg hneg]; exact if_pos hlen
  have hdigits : ∀ c ∈ ds ++ List.replicate (e.toNat + 1 - ds.length) '0', c.isDigit = true := by
    intro c hc
    rcases List.mem_append.1 hc with hc | hc
    · exact hd c hc
    · exact isDigit_replicate_zero hc
  rw [htext, parts?_fraction hdigits (List.cons_ne_nil _ _) isDigit_zero, List.append_assoc,
    ← List.replicate_succ', ofDigitChars_append_zeros]
  rfl

theorem parts?_layOut_split (hd : ∀ c ∈ ds, c.isDigit = true) (hnear : ¬(e < -5 ∨ 16 ≤ e))
    (hneg : ¬e < 0) (hlen : ¬ds.length ≤ e.toNat + 1) :
    parts? (layOut ds e) = some (Nat.ofDigitChars 10 ds 0, some (e + 1 - ds.length)) := by
  have htext : layOut ds e = ds.take (e.toNat + 1) ++ '.' :: ds.drop (e.toNat + 1) := by
    unfold layOut; rw [if_neg hnear, if_neg hneg]; exact if_neg hlen
  have hne : ds.drop (e.toNat + 1) ≠ [] := by
    rw [Ne, List.drop_eq_nil_iff]; exact hlen
  rw [htext, parts?_fraction (fun c hc => hd c (List.mem_of_mem_take hc)) hne
    (fun c hc => hd c (List.mem_of_mem_drop hc)), List.take_append_drop, List.length_drop]
  congr 3
  omega

/-- The text of a decimal keeps its value: zeros may end the digits, and the shift makes up for
them. -/
theorem parts?_layOut (hd : ∀ c ∈ ds, c.isDigit = true) (hne : ds ≠ []) (e : Int) :
    ∃ k : Nat, parts? (layOut ds e) =
      some (Nat.ofDigitChars 10 ds 0 * 10 ^ k, some (e + 1 - ds.length - k)) := by
  by_cases hfar : e < -5 ∨ 16 ≤ e
  · exact ⟨0, by rw [parts?_layOut_far hd hne hfar]; simp⟩
  by_cases hneg : e < 0
  · exact ⟨0, by rw [parts?_layOut_below hd hne hfar hneg]; simp⟩
  by_cases hlen : ds.length ≤ e.toNat + 1
  · refine ⟨e.toNat + 1 - ds.length + 1, ?_⟩
    rw [parts?_layOut_whole hd hfar hneg hlen]
    congr 3
    omega
  · exact ⟨0, by rw [parts?_layOut_split hd hfar hneg hlen]; simp⟩

end LayOut

/-! ## Signs -/

/-- A text with its sign before it. -/
def withSign (negative : Bool) (body : List Char) : List Char :=
  if negative then '-' :: body else body

theorem parts?_minus (body : List Char) : parts? ('-' :: body) = none := rfl

/-- A signed text determines its sign and what it says. -/
theorem withSign_inj {s t : Bool} {body₁ body₂ : List Char} {p q : Nat × Option Int}
    (hp : parts? body₁ = some p) (hq : parts? body₂ = some q)
    (h : withSign s body₁ = withSign t body₂) : s = t ∧ p = q := by
  cases s <;> cases t
  · obtain rfl : body₁ = body₂ := h
    exact ⟨rfl, Option.some.inj (hp.symm.trans hq)⟩
  · obtain rfl : body₁ = '-' :: body₂ := h
    rw [parts?_minus] at hp; exact absurd hp (by simp)
  · obtain rfl : '-' :: body₁ = body₂ := h
    rw [parts?_minus] at hq; exact absurd hq (by simp)
  · obtain rfl : body₁ = body₂ := (List.cons.inj h).2
    exact ⟨rfl, Option.some.inj (hp.symm.trans hq)⟩

theorem renderInteger_eq (i : Int) : renderInteger i = withSign (i < 0) (digits i.natAbs) := by
  cases i <;> simp [renderInteger, withSign, Int.negSucc_lt_zero]

theorem parts?_digits (n : Nat) : parts? (digits n) = some (n, none) := by
  rw [parts?_integer fun c hc => isDigit_digits hc, ofDigitChars_digits]

theorem renderDecimal_eq (d : Decimal) :
    ∃ (body : List Char) (k : Nat), renderDecimal d = withSign d.negative body ∧
      parts? body = some (d.coefficient * 10 ^ k, some (d.exponent - k)) := by
  have hd : ∀ c ∈ digits d.coefficient, c.isDigit = true := fun c hc => isDigit_digits hc
  obtain ⟨k, hk⟩ := parts?_layOut hd (digits_ne_nil _)
    (d.exponent + (digits d.coefficient).length - 1)
  refine ⟨_, k, rfl, hk.trans ?_⟩
  rw [ofDigitChars_digits]
  congr 3
  omega

/-- Different numbers have different texts. -/
theorem render_injective {a b : Number} (h : a.render = b.render) : a = b := by
  cases a with
  | integer i =>
    have hi := parts?_digits i.natAbs
    rw [render, renderInteger_eq] at h
    cases b with
    | integer j =>
      rw [render, renderInteger_eq] at h
      obtain ⟨hs, hp⟩ := withSign_inj hi (parts?_digits j.natAbs) h
      have hs : i < 0 ↔ j < 0 := decide_eq_decide.1 hs
      have hp : i.natAbs = j.natAbs := congrArg Prod.fst hp
      obtain rfl : i = j := by omega
      rfl
    | decimal e =>
      obtain ⟨body, k, hbody, he⟩ := renderDecimal_eq e
      rw [render, hbody] at h
      exact absurd (congrArg Prod.snd (withSign_inj hi he h).2) (by simp)
  | decimal d =>
    obtain ⟨body, j, hbody, hd⟩ := renderDecimal_eq d
    rw [render, hbody] at h
    cases b with
    | integer i =>
      rw [render, renderInteger_eq] at h
      exact absurd (congrArg Prod.snd (withSign_inj hd (parts?_digits i.natAbs) h).2) (by simp)
    | decimal e =>
      obtain ⟨body', k, hbody', he⟩ := renderDecimal_eq e
      rw [render, hbody'] at h
      obtain ⟨hs, hp⟩ := withSign_inj hd he h
      rw [Prod.mk.injEq, Option.some.injEq] at hp
      rw [Decimal.eq_of_scaled hs hp.1 hp.2]

/-! ## Characters of a number -/

/-- Whether a character can stand in a number. -/
def isPart (c : Char) : Bool := c.isDigit || c ∈ ['-', '+', '.', 'e', 'E']

theorem isPart_of_isDigit {c : Char} (h : c.isDigit = true) : isPart c = true := by
  rw [isPart, h]; rfl

theorem isPart_or_mem_splitDigits {s : List Char} {c : Char} (hc : c ∈ s) :
    isPart c = true ∨ c ∈ (splitDigits s).2 := by
  rw [← List.takeWhile_append_dropWhile (p := Char.isDigit) (l := s), List.mem_append] at hc
  exact hc.imp_left fun h => isPart_of_isDigit (List.all_eq_true.1 List.all_takeWhile _ h)

theorem isPart_or_mem_fraction? {s rest : List Char} {fraction : Option (List Char)} {c : Char}
    (h : fraction? s = some (fraction, rest)) (hc : c ∈ s) : isPart c = true ∨ c ∈ rest := by
  unfold fraction? at h
  split at h
  · rename_i tail
    rcases List.mem_cons.1 hc with rfl | hc
    · exact .inl rfl
    · have hsplit := isPart_or_mem_splitDigits hc
      split at h
      · exact absurd h (by simp)
      · rename_i ds after _ heq
        simp only [Option.some.injEq, Prod.mk.injEq] at h
        rw [heq, h.2] at hsplit
        exact hsplit
  · simp only [Option.some.injEq, Prod.mk.injEq] at h
    exact .inr (h.2 ▸ hc)

theorem isPart_of_exponent? {s : List Char} {exponent : Option Int} {c : Char}
    (h : exponent? s = some exponent) (hc : c ∈ s) : isPart c = true := by
  cases s with
  | nil => exact absurd hc List.not_mem_nil
  | cons e rest =>
    simp only [exponent?, Option.ite_none_right_eq_some, Bool.and_eq_true, Bool.or_eq_true,
      decide_eq_true_eq] at h
    obtain ⟨⟨⟨he, -⟩, hall⟩, -⟩ := h
    have hdigits := List.all_eq_true.1 hall
    rcases List.mem_cons.1 hc with rfl | hc
    · rcases he with rfl | rfl <;> rfl
    · split at hdigits
      · rcases List.mem_cons.1 hc with rfl | hc
        · rfl
        · exact isPart_of_isDigit (hdigits c hc)
      · rcases List.mem_cons.1 hc with rfl | hc
        · rfl
        · exact isPart_of_isDigit (hdigits c hc)
      · exact isPart_of_isDigit (hdigits c hc)

/-- A text that says something has only characters of numbers. -/
theorem isPart_of_parts? {body : List Char} {p : Nat × Option Int} {c : Char}
    (h : parts? body = some p) (hc : c ∈ body) : isPart c = true := by
  simp only [parts?, Option.bind_eq_bind, Option.bind_eq_some_iff] at h
  obtain ⟨⟨fraction, rest⟩, hfraction, exponent, hexponent, -⟩ := h
  rcases isPart_or_mem_splitDigits hc with hc | hc
  · exact hc
  rcases isPart_or_mem_fraction? hfraction hc with hc | hc
  · exact hc
  exact isPart_of_exponent? hexponent hc

theorem isPart_withSign {negative : Bool} {body : List Char} {p : Nat × Option Int} {c : Char}
    (h : parts? body = some p) (hc : c ∈ withSign negative body) : isPart c = true := by
  cases negative with
  | false => exact isPart_of_parts? h hc
  | true =>
    rcases List.mem_cons.1 hc with rfl | hc
    · rfl
    · exact isPart_of_parts? h hc

theorem isPart_render {n : Number} {c : Char} (hc : c ∈ n.render) : isPart c = true := by
  cases n with
  | integer i =>
    rw [render, renderInteger_eq] at hc
    exact isPart_withSign (parts?_digits _) hc
  | decimal d =>
    obtain ⟨body, k, hbody, hparts⟩ := renderDecimal_eq d
    rw [render, hbody] at hc
    exact isPart_withSign hparts hc

theorem withSign_ne_nil {negative : Bool} {body : List Char} (h : body ≠ []) :
    withSign negative body ≠ [] := by
  cases negative with
  | false => exact h
  | true => exact List.cons_ne_nil _ _

theorem render_ne_nil (n : Number) : n.render ≠ [] := by
  cases n with
  | integer i =>
    rw [render, renderInteger_eq]
    exact withSign_ne_nil (digits_ne_nil _)
  | decimal d =>
    obtain ⟨body, k, hbody, hparts⟩ := renderDecimal_eq d
    rw [render, hbody]
    refine withSign_ne_nil ?_
    rintro rfl
    exact absurd (congrArg Prod.snd (Option.some.inj hparts)) (by simp)

end Number

end PropStorage
