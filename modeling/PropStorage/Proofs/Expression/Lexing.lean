import PropStorage.Expression.Token
import PropStorage.Proofs.Except

/-!
# Cutting texts into tokens

What `Token.scan` accepts, and what it gives.

* `Separated`: the sequences of tokens that a text can be cut into: every word holds a word
  character and nothing else, and no two words stand side by side;
* `canonicalChars`: a text with the control characters replaced by the separators that they depict;
* `scan_eq_ok_iff`: a text is cut into a sequence of tokens just if the sequence is separated and
  spells the canonical form of the text.
-/

namespace PropStorage.Expression

/-- A character, or the separator that it depicts if it is a control character. -/
def canonicalChar (c : Char) : Char :=
  if c = '\x1c' then '\u241c'
  else if c = '\x1d' then '\u241d'
  else if c = '\x1e' then '\u241e'
  else c

/-- A text with control characters replaced by the separators that they depict. -/
def canonicalChars (text : List Char) : List Char := text.map canonicalChar

/-- A text with control characters replaced by the separators that they depict. -/
def canonicalText (text : String) : String := String.ofList (canonicalChars text.toList)

/-- Whether some characters make up a word. -/
def IsWord (chars : List Char) : Prop := chars ≠ [] ∧ ∀ c ∈ chars, isWordChar c = true

/-- A name is a word without a colon. -/
theorem isName_iff {chars : List Char} : isName chars = true ↔ IsWord chars ∧ ':' ∉ chars := by
  simp only [isName, IsWord, Bool.and_eq_true, Bool.not_eq_true', List.isEmpty_eq_false_iff,
    List.all_eq_true, decide_eq_true_eq, ne_eq]
  constructor
  · rintro ⟨hne, h⟩
    exact ⟨⟨hne, fun c hc => (h c hc).1⟩, fun hmem => (h _ hmem).2 rfl⟩
  · rintro ⟨⟨hne, h⟩, hcolon⟩
    exact ⟨hne, fun c hc => ⟨h c hc, fun e => hcolon (e ▸ hc)⟩⟩

namespace Token

/-- Whether a sequence of tokens starts with a word. -/
def startsWithWord : List Token → Bool
  | word _ :: _ => true
  | _ => false

/-- Every word of the sequence is one, and no two words stand side by side. -/
def Separated : List Token → Prop
  | [] => True
  | word chars :: tokens => IsWord chars ∧ startsWithWord tokens = false ∧ Separated tokens
  | _ :: tokens => Separated tokens

theorem Separated.ne_nil_of_mem {tokens : List Token} (h : Separated tokens) {chars : List Char}
    (hmem : word chars ∈ tokens) : chars ≠ [] := by
  induction tokens with
  | nil => simp at hmem
  | cons token tokens ih =>
    rcases List.mem_cons.1 hmem with rfl | hmem
    · exact h.1.1
    · refine ih ?_ hmem
      cases token
      case word => exact h.2.2
      all_goals exact h

/-! ## Characters -/

theorem canonicalChar_eq_self {c : Char} (h : isWordChar c = true) : canonicalChar c = c := by
  unfold canonicalChar
  split
  · subst c; exact absurd h (by decide)
  split
  · subst c; exact absurd h (by decide)
  split
  · subst c; exact absurd h (by decide)
  rfl

theorem ofSeparator?_canonicalChar (c : Char) :
    ofSeparator? (canonicalChar c) = ofSeparator? c := by
  unfold canonicalChar
  split
  · subst c; rfl
  split
  · subst c; rfl
  split
  · subst c; rfl
  rfl

/-! ## From texts to tokens -/

/-- What a separator stands for spells the separator. -/
theorem spelling_of_ofSeparator? {c : Char} {token : Token} (h : ofSeparator? c = some token) :
    spelling token = [canonicalChar c] ∧ startsWithWord [token] = false := by
  unfold ofSeparator? at h
  split at h
  all_goals first
    | (cases h; exact ⟨by decide, rfl⟩)
    | cases h

theorem Separated.cons {token : Token} {tokens : List Token}
    (h : startsWithWord [token] = false) (hs : Separated tokens) : Separated (token :: tokens) := by
  cases token
  case word => exact absurd h (by simp [startsWithWord])
  all_goals exact hs

theorem spell_cons (token : Token) (tokens : List Token) :
    spell (token :: tokens) = spelling token ++ spell tokens := by
  simp only [spell, List.flatMap_cons]

theorem spell_consWordChar (c : Char) (tokens : List Token) :
    spell (consWordChar c tokens) = c :: spell tokens := by
  unfold consWordChar
  split <;> simp only [spell_cons, spelling, List.cons_append, List.nil_append]

theorem Separated.consWordChar {c : Char} {tokens : List Token} (hc : isWordChar c = true)
    (h : Separated tokens) : Separated (consWordChar c tokens) := by
  unfold Token.consWordChar
  split
  · obtain ⟨hw, hnext, hrest⟩ := h
    refine ⟨⟨List.cons_ne_nil _ _, fun d hd => ?_⟩, hnext, hrest⟩
    rcases List.mem_cons.1 hd with rfl | hd
    · exact hc
    · exact hw.2 d hd
  · rename_i hne
    refine ⟨⟨List.cons_ne_nil _ _, fun d hd => ?_⟩, ?_, h⟩
    · rw [List.mem_singleton.1 hd]; exact hc
    · unfold startsWithWord
      split
      · exact absurd rfl (hne _ _)
      · rfl

/-- The tokens of a text are separated, and spell its canonical form. -/
theorem scanAt_sound {offset : Nat} {text : List Char} {tokens : List Token}
    (h : scanAt offset text = .ok tokens) :
    Separated tokens ∧ spell tokens = canonicalChars text := by
  fun_induction scanAt offset text generalizing tokens with
  | case1 => cases h; exact ⟨trivial, rfl⟩
  | case2 offset rest ih =>
    obtain ⟨more, hmore, rfl⟩ := Except.map_eq_ok_iff.1 h
    obtain ⟨hs, hspell⟩ := ih hmore
    exact ⟨hs, by rw [spell_cons, hspell]; rfl⟩
  | case3 => cases h
  | case4 offset c rest _ _ token hsep ih =>
    obtain ⟨more, hmore, rfl⟩ := Except.map_eq_ok_iff.1 h
    obtain ⟨hs, hspell⟩ := ih hmore
    obtain ⟨hc, hword⟩ := spelling_of_ofSeparator? hsep
    exact ⟨hs.cons hword, by rw [spell_cons, hspell, hc]; rfl⟩
  | case5 offset c rest _ _ _ hc ih =>
    obtain ⟨more, hmore, rfl⟩ := Except.map_eq_ok_iff.1 h
    obtain ⟨hs, hspell⟩ := ih hmore
    refine ⟨hs.consWordChar hc, ?_⟩
    rw [spell_consWordChar, hspell, canonicalChars, canonicalChars, List.map_cons,
      canonicalChar_eq_self hc]
  | case6 => cases h

/-! ## From tokens to texts -/

theorem eq_of_canonicalChar_eq {c d : Char} (h : canonicalChar c = d)
    (hd : ofSeparator? d = none) : c = d := by
  have hc : ofSeparator? c = none := by rw [← ofSeparator?_canonicalChar, h, hd]
  unfold canonicalChar at h
  split at h
  · subst c; exact absurd hc (by decide)
  split at h
  · subst c; exact absurd hc (by decide)
  split at h
  · subst c; exact absurd hc (by decide)
  exact h

theorem ofSeparator?_eq_none {c : Char} (h : isWordChar c = true) : ofSeparator? c = none := by
  unfold ofSeparator?
  split
  all_goals first
    | rfl
    | exact absurd h (by decide)

theorem scanAt_marker (offset : Nat) (rest : List Char) :
    scanAt offset ('\u2139' :: '\ufe0e' :: rest)
      = (structuredData :: ·) <$> scanAt (offset + 2) rest := by
  rw [scanAt]

theorem scanAt_separator {c : Char} {token : Token} (h : ofSeparator? c = some token)
    (offset : Nat) (rest : List Char) :
    scanAt offset (c :: rest) = (token :: ·) <$> scanAt (offset + 1) rest := by
  have hc : c ≠ '\u2139' := by rintro rfl; cases h
  rw [scanAt]
  · simp only [if_neg hc, h]
  · intro _ hmarker; exact absurd hmarker hc

theorem scanAt_wordChar {c : Char} (h : isWordChar c = true) (offset : Nat) (rest : List Char) :
    scanAt offset (c :: rest) = consWordChar c <$> scanAt (offset + 1) rest := by
  have hc : c ≠ '\u2139' := by rintro rfl; exact absurd h (by decide)
  rw [scanAt]
  · simp only [if_neg hc, ofSeparator?_eq_none h, h, ↓reduceIte]
  · intro _ hmarker; exact absurd hmarker hc

/-- Every token but a word and the two-character marker is spelled as a separator. -/
theorem ofSeparator?_spelling {token : Token} (hm : token ≠ structuredData)
    (hw : startsWithWord [token] = false) :
    ∃ c, spelling token = [c] ∧ ofSeparator? c = some token := by
  cases token
  case structuredData => exact absurd rfl hm
  case word => cases hw
  all_goals exact ⟨_, rfl, rfl⟩

/-- A word followed by no other word is read as a whole. -/
theorem scanAt_word {tokens : List Token} (hnext : startsWithWord tokens = false)
    {rest : List Char} (hrest : ∀ offset, scanAt offset rest = .ok tokens) (offset : Nat)
    {chars : List Char} (hw : IsWord chars) :
    scanAt offset (chars ++ rest) = .ok (word chars :: tokens) := by
  obtain ⟨hne, hall⟩ := hw
  induction chars generalizing offset with
  | nil => exact absurd rfl hne
  | cons c cs ih =>
    rw [List.cons_append, scanAt_wordChar (hall c List.mem_cons_self)]
    cases cs with
    | nil =>
      rw [List.nil_append, hrest, Except.map_eq_ok_iff]
      refine ⟨tokens, rfl, ?_⟩
      unfold consWordChar
      split
      · cases hnext
      · rfl
    | cons d ds =>
      rw [ih _ (List.cons_ne_nil _ _) fun e he => hall e (List.mem_cons_of_mem _ he)]
      rfl

theorem canonicalChars_eq_cons {text more : List Char} {c : Char}
    (h : canonicalChars text = c :: more) :
    ∃ d rest, text = d :: rest ∧ canonicalChar d = c ∧ canonicalChars rest = more := by
  obtain ⟨d, rest, rfl, hd, hrest⟩ := List.map_eq_cons_iff.1 h
  exact ⟨d, rest, rfl, hd, hrest⟩

/-- The characters of a word depict nothing, so a text with that word in its canonical form starts
with the word itself. -/
theorem canonicalChars_eq_word {text chars more : List Char} (hw : ∀ c ∈ chars, isWordChar c = true)
    (h : canonicalChars text = chars ++ more) :
    ∃ rest, text = chars ++ rest ∧ canonicalChars rest = more := by
  induction chars generalizing text with
  | nil => exact ⟨text, rfl, h⟩
  | cons c cs ih =>
    obtain ⟨d, rest, rfl, hd, hrest⟩ := canonicalChars_eq_cons h
    obtain ⟨rest', rfl, hmore⟩ := ih (fun e he => hw e (List.mem_cons_of_mem _ he)) hrest
    have hdc : d = c :=
      eq_of_canonicalChar_eq hd (ofSeparator?_eq_none (hw c List.mem_cons_self))
    exact ⟨rest', by rw [hdc]; rfl, hmore⟩

/-- A text whose canonical form separated tokens spell is cut into these tokens. -/
theorem scanAt_complete {tokens : List Token} (hs : Separated tokens) {text : List Char}
    (h : canonicalChars text = spell tokens) (offset : Nat) :
    scanAt offset text = .ok tokens := by
  induction tokens generalizing text offset with
  | nil =>
    have : text = [] := List.map_eq_nil_iff.1 h
    rw [this, scanAt]
  | cons token tokens ih =>
    rw [spell_cons] at h
    by_cases hw : startsWithWord [token] = false
    · have hs' : Separated tokens := by
        cases token
        case word => cases hw
        all_goals exact hs
      by_cases hm : token = structuredData
      · subst hm
        obtain ⟨c, _, rfl, hc, htail⟩ := canonicalChars_eq_cons h
        obtain ⟨d, rest, rfl, hd, hrest⟩ := canonicalChars_eq_cons htail
        obtain rfl := eq_of_canonicalChar_eq hc rfl
        obtain rfl := eq_of_canonicalChar_eq hd rfl
        rw [scanAt_marker, ih hs' hrest]
        rfl
      · obtain ⟨c, hc, hsep⟩ := ofSeparator?_spelling hm hw
        rw [hc] at h
        obtain ⟨d, rest, rfl, hd, hrest⟩ := canonicalChars_eq_cons h
        rw [← hd, ofSeparator?_canonicalChar] at hsep
        rw [scanAt_separator hsep, ih hs' hrest]
        rfl
    · cases token
      case word chars =>
        obtain ⟨rest, rfl, hrest⟩ := canonicalChars_eq_word hs.1.2 h
        exact scanAt_word hs.2.1 (fun o => ih hs.2.2 hrest o) offset hs.1
      all_goals exact absurd rfl hw

/-- A text is cut into a sequence of tokens just if the sequence is separated and spells the
canonical form of the text. -/
theorem scan_eq_ok_iff {text : List Char} {tokens : List Token} :
    scan text = .ok tokens ↔ Separated tokens ∧ spell tokens = canonicalChars text :=
  ⟨scanAt_sound, fun ⟨hs, h⟩ => scanAt_complete hs h.symm 0⟩

end Token

end PropStorage.Expression
