import Mathlib.Data.List.Induction
import PropStorage.Expression.Parser
import PropStorage.Expression.Printer
import PropStorage.Proofs.Expression.Lexing

/-!
# Names, entities and item numbers as words

What a single word of an expression stands for. A name, an entity and an item number each have one
word, and only that word is read as them:

* `Name.ofChars?_eq_some_iff` for names;
* `Parser.entityOfWord_eq_ok_iff` for entities;
* `Parser.deltaOfWord_eq_ok_iff` for item numbers.
-/

namespace PropStorage

namespace Name

theorem isName_chars (n : Name) : isName n.chars = true := n.valid

theorem isWord_chars (n : Name) : Expression.IsWord n.chars :=
  (Expression.isName_iff.1 n.isName_chars).1

theorem colon_notMem_chars (n : Name) : ':' ∉ n.chars := (Expression.isName_iff.1 n.isName_chars).2

theorem ext_chars {m n : Name} (h : m.chars = n.chars) : m = n := by
  cases m; cases n
  simpa only [Name.chars, String.toList_inj, Name.mk.injEq] using h

/-- The characters of a name spell that name, and nothing else does. -/
theorem ofChars?_eq_some_iff {chars : List Char} {n : Name} :
    ofChars? chars = some n ↔ chars = n.chars := by
  unfold ofChars?
  split
  · rename_i h
    rw [Option.some.injEq]
    constructor
    · rintro rfl; exact String.toList_ofList.symm
    · intro hc; exact ext_chars (String.toList_ofList.trans hc)
  · rename_i h
    constructor
    · intro hn; cases hn
    · rintro rfl; exact absurd n.isName_chars h

theorem ofChars?_chars (n : Name) : ofChars? n.chars = some n := ofChars?_eq_some_iff.2 rfl

end Name

namespace Expression

namespace Parser

/-! ## Entities -/

theorem splitColons_ne_nil (chars : List Char) : splitColons chars ≠ [] := by
  fun_cases splitColons chars <;> simp

/-- Splitting at colons undoes joining by colons. -/
theorem intercalate_splitColons (chars : List Char) :
    [':'].intercalate (splitColons chars) = chars := by
  fun_induction splitColons chars with
  | case1 => rfl
  | case2 cs ih =>
    obtain ⟨part, parts, h⟩ := List.exists_cons_of_ne_nil (splitColons_ne_nil cs)
    rw [h] at ih ⊢
    rw [List.intercalate_cons_cons, ih]
    rfl
  | case3 c cs _ h => exact absurd h (splitColons_ne_nil cs)
  | case4 c cs _ part parts h ih =>
    rw [h] at ih
    cases parts with
    | nil =>
      rw [List.intercalate_singleton] at ih ⊢
      rw [ih]
    | cons next parts =>
      rw [List.intercalate_cons_cons] at ih ⊢
      rw [← ih]; rfl

theorem splitColons_of_notMem {chars : List Char} (h : ':' ∉ chars) :
    splitColons chars = [chars] := by
  induction chars with
  | nil => rfl
  | cons c cs ih =>
    have hc : c ≠ ':' := fun e => h (e ▸ List.mem_cons_self)
    rw [splitColons, if_neg hc, ih fun hmem => h (List.mem_cons_of_mem _ hmem)]

theorem splitColons_append {chars : List Char} (h : ':' ∉ chars) (rest : List Char) :
    splitColons (chars ++ ':' :: rest) = chars :: splitColons rest := by
  induction chars with
  | nil => rw [List.nil_append, splitColons, if_pos rfl]
  | cons c cs ih =>
    have hc : c ≠ ':' := fun e => h (e ▸ List.mem_cons_self)
    rw [List.cons_append, splitColons, if_neg hc, ih fun hmem => h (List.mem_cons_of_mem _ hmem)]

theorem splitColons_entity (e : Entity) :
    splitColons e.chars = match e.bundle with
      | none => [e.entityType.chars]
      | some bundle => [e.entityType.chars, bundle.chars] := by
  obtain ⟨entityType, bundle⟩ := e
  cases bundle with
  | none => exact splitColons_of_notMem entityType.colon_notMem_chars
  | some bundle =>
    simp only [Entity.chars]
    rw [splitColons_append entityType.colon_notMem_chars,
      splitColons_of_notMem bundle.colon_notMem_chars]

/-- The characters of an entity name that entity, and nothing else does. -/
theorem entityOfWord_eq_ok_iff {word : List Char} {e : Entity} :
    entityOfWord word = .ok e ↔ word = e.chars := by
  constructor
  · intro h
    have hjoin := intercalate_splitColons word
    unfold entityOfWord at h
    split at h
    · rename_i entityType hs
      split at h
      · rename_i n hn
        cases h
        rw [← hjoin, hs, List.intercalate_singleton]
        exact Name.ofChars?_eq_some_iff.1 hn
      · cases h
    · rename_i entityType bundle hs
      split at h
      · rename_i n b hn hb
        cases h
        rw [← hjoin, hs, Name.ofChars?_eq_some_iff.1 hn, Name.ofChars?_eq_some_iff.1 hb,
          List.intercalate_cons_cons, List.intercalate_singleton, List.append_assoc]
        rfl
      · cases h
    · cases h
  · rintro rfl
    unfold entityOfWord
    rw [splitColons_entity]
    obtain ⟨entityType, bundle⟩ := e
    cases bundle with
    | none => simp only [Name.ofChars?_chars]
    | some bundle => simp only [Name.ofChars?_chars]

/-! ## Item numbers -/

/-- Every decimal digit is the digit of a number below ten. -/
theorem exists_digitChar {c : Char} (h : c.isDigit = true) : ∃ n < 10, c = Nat.digitChar n := by
  obtain ⟨hlo, hhi⟩ := Char.isDigit_iff_toNat.1 h
  have hn : ∀ n < 10, Nat.digitChar n = Char.ofNat ('0'.toNat + n) := by decide
  have hlt : c.toNat - '0'.toNat < 10 := Nat.sub_lt_left_of_lt_add hlo (Nat.lt_succ_of_le hhi)
  exact ⟨_, hlt, by rw [hn _ hlt, Nat.add_sub_cancel' hlo, Char.ofNat_toNat]⟩

/-- Decimal digits without a leading zero are those of the number that they spell. -/
theorem toDigits_ofDigitChars {chars : List Char} (hd : ∀ c ∈ chars, c.isDigit = true)
    (hne : chars ≠ []) (hz : chars.length > 1 → chars.head? ≠ some '0') :
    Nat.toDigits 10 (Nat.ofDigitChars 10 chars 0) = chars := by
  induction chars using List.reverseRecOn with
  | nil => exact absurd rfl hne
  | append_singleton cs c ih =>
    obtain ⟨n, hn, rfl⟩ := exists_digitChar (hd c (by simp))
    rw [Nat.ofDigitChars_append, Nat.ofDigitChars_cons_digitChar_of_lt_ten hn, Nat.ofDigitChars_nil]
    cases cs with
    | nil => rw [Nat.ofDigitChars_nil, Nat.mul_zero, Nat.zero_add, Nat.toDigits_of_lt_base hn]; rfl
    | cons d ds =>
      have hhead : d ≠ '0' := fun e => hz (by simp) (by rw [e]; rfl)
      have hds := ih (fun e he => hd e (List.mem_append_left _ he)) (List.cons_ne_nil _ _)
        fun _ e => hhead (Option.some.inj e)
      have hpos : 0 < Nat.ofDigitChars 10 (d :: ds) 0 := by
        refine Nat.pos_of_ne_zero fun e => hhead ?_
        rw [e, Nat.toDigits_zero] at hds
        exact (List.cons.inj hds).1.symm
      rw [← Nat.toDigits_append_toDigits (by decide) hpos hn, hds, Nat.toDigits_of_lt_base hn]

theorem isDigit_of_mem_deltaChars {d : UInt32} {c : Char} (h : c ∈ deltaChars d) :
    c.isDigit = true :=
  Nat.isDigit_of_mem_toDigits (by decide) (by decide) h

theorem deltaChars_ne_nil (d : UInt32) : deltaChars d ≠ [] := Nat.toDigits_ne_nil

/-- A number of more than one digit does not start with a zero. -/
theorem head?_toDigits {n : Nat} (h : (Nat.toDigits 10 n).length > 1) :
    (Nat.toDigits 10 n).head? ≠ some '0' := by
  induction n using Nat.strongRecOn with
  | ind n ih =>
    rcases Nat.lt_or_ge n 10 with hlt | hge
    · rw [Nat.toDigits_of_lt_base hlt] at h; exact absurd h (by simp)
    · rw [Nat.toDigits_of_base_le (by decide) hge] at h ⊢
      rw [List.head?_append, Option.or_of_isSome (List.isSome_head?.2 Nat.toDigits_ne_nil)]
      rcases Nat.lt_or_ge (n / 10) 10 with hlt | hge'
      · rw [Nat.toDigits_of_lt_base hlt, List.head?_cons, ne_eq, Option.some.injEq,
          Nat.digitChar_eq_zero]
        omega
      · refine ih _ (by omega) ?_
        rw [Nat.toDigits_of_base_le (by decide) hge', List.length_append]
        have := Nat.length_toDigits_pos (b := 10) (n := n / 10 / 10)
        simp only [List.length_singleton]
        omega

/-- The digits of an item number spell that number, and no other word does. -/
theorem deltaOfWord_eq_ok_iff {word : List Char} (hne : word ≠ []) {d : UInt32} :
    deltaOfWord word = .ok d ↔ word = deltaChars d := by
  constructor
  · intro h
    unfold deltaOfWord at h
    split at h
    · cases h
    · rename_i hcanon
      simp only [Bool.or_eq_true, Bool.not_eq_true', Bool.and_eq_true, decide_eq_true_eq,
        not_or, not_and, Bool.not_eq_false] at hcanon
      obtain ⟨hdigits, hzero⟩ := hcanon
      dsimp only at h
      split at h
      · rename_i hlt
        cases h
        rw [deltaChars, UInt32.toNat_ofNat_of_lt' hlt,
          toDigits_ofDigitChars (List.all_eq_true.1 hdigits) hne hzero]
      · cases h
  · rintro rfl
    have hdigits : (deltaChars d).all Char.isDigit = true :=
      List.all_eq_true.2 fun c hc => isDigit_of_mem_deltaChars hc
    have hzero : ((deltaChars d).length > 1 && (deltaChars d).head? = some '0') = false := by
      simp only [Bool.and_eq_false_iff, decide_eq_false_iff_not]
      exact Decidable.or_iff_not_imp_left.2 fun h => head?_toDigits (Decidable.not_not.1 h)
    have hvalue : Nat.ofDigitChars 10 (deltaChars d) 0 = d.toNat := Nat.ofDigitChars_ten_toDigits
    unfold deltaOfWord
    simp only [hdigits, hzero, hvalue, Bool.not_true, Bool.or_false, Bool.false_eq_true, if_false,
      if_pos d.toNat_lt_size, UInt32.ofNat_toNat]

end Parser

theorem isWord_deltaChars (d : UInt32) : IsWord (deltaChars d) := by
  refine ⟨Parser.deltaChars_ne_nil d, fun c hc => ?_⟩
  have : c.isDigit = true := Parser.isDigit_of_mem_deltaChars hc
  simp [isWordChar, Char.isAlphanum, this]

theorem Entity.isWord_chars (e : Entity) : IsWord e.chars := by
  unfold Entity.chars
  split
  · exact e.entityType.isWord_chars
  · rename_i bundle _
    refine ⟨List.append_ne_nil_of_left_ne_nil e.entityType.isWord_chars.1 _, fun c hc => ?_⟩
    rcases List.mem_append.1 hc with hc | hc
    · exact e.entityType.isWord_chars.2 c hc
    · rcases List.mem_cons.1 hc with rfl | hc
      · decide
      · exact bundle.isWord_chars.2 c hc

end Expression

end PropStorage
