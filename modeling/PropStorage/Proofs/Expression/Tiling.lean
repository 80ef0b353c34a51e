import PropStorage.Expression.Parser
import PropStorage.Proofs.Expression.Lexing

/-!
# Tokens tile a text

A text that can be cut into tokens is covered by them without gap or overlap. The texts for which
this can be done are described apart from the scanner, as sequences of pieces, and so is the place
where it ends for all other texts.

* `Pieced`: a text made up of word characters, separators, and markers;
* `scanAt_pieced`, `scanAt_stuck`: the scanner passes over pieces, and fails where none starts;
* `Tiles`: tokens stand side by side in a text, each at its offset (`tiles_of_spell_eq`);
* `tokenize_cuts`: which texts are cut into tokens, into which, and where the others fail.
-/

namespace PropStorage.Expression

namespace Token

/-! ## Pieces of texts -/

/-- The characters that are tokens by themselves. -/
def separators : List Char :=
  ['\u2ff2', '\u241c', '\u241d', '\u241e', '\u241f', '{', '}', ',', '\u21a0', '\u219d']

/-- The control characters that may stand for the separators that they depict. -/
def controls : List Char := ['\x1c', '\x1d', '\x1e']

/-- The smallest parts of texts that can be cut into tokens. -/
inductive Piece : List Char → Prop where
  | marker : Piece ['\u2139', '\ufe0e']
  | separator {c : Char} (h : c ∈ separators ∨ c ∈ controls) : Piece [c]
  | wordChar {c : Char} (h : isWordChar c = true) : Piece [c]

/-- A text that is made up of pieces, one after the other. -/
def Pieced (text : List Char) : Prop :=
  ∃ pieces : List (List Char), (∀ p ∈ pieces, Piece p) ∧ pieces.flatten = text

/-- No piece starts where the text starts. -/
def Stuck (text : List Char) : Prop := ∀ p, Piece p → ¬ p <+: text

theorem pieced_nil : Pieced [] := ⟨[], by simp, rfl⟩

theorem Pieced.cons {p text : List Char} (hp : Piece p) (h : Pieced text) : Pieced (p ++ text) := by
  obtain ⟨pieces, hpieces, rfl⟩ := h
  exact ⟨p :: pieces, List.forall_mem_cons.2 ⟨hp, hpieces⟩, List.flatten_cons⟩

theorem Piece.length_pos {p : List Char} (h : Piece p) : 0 < p.length := by
  cases h <;> simp

/-- Every text is made up of pieces up to its end, or up to a character at which no piece starts. -/
theorem pieced_or_stuck (text : List Char) :
    Pieced text ∨
      ∃ front c rest, text = front ++ c :: rest ∧ Pieced front ∧ Stuck (c :: rest) := by
  induction hn : text.length using Nat.strongRecOn generalizing text with
  | ind n ih =>
    by_cases hstart : ∃ p, Piece p ∧ p <+: text
    · obtain ⟨p, hp, more, rfl⟩ := hstart
      have hlt : more.length < n := by
        have := hp.length_pos
        rw [List.length_append] at hn
        omega
      rcases ih _ hlt more rfl with hmore | ⟨front, c, rest, rfl, hfront, hstuck⟩
      · exact .inl (hmore.cons hp)
      · exact .inr ⟨p ++ front, c, rest, by rw [List.append_assoc], hfront.cons hp, hstuck⟩
    · have hstuck : Stuck text := fun p hp hprefix => hstart ⟨p, hp, hprefix⟩
      cases text with
      | nil => exact .inl pieced_nil
      | cons c rest => exact .inr ⟨[], c, rest, rfl, pieced_nil, hstuck⟩

/-! ## Scanning pieces -/

theorem ofSeparator?_isSome_iff {c : Char} :
    (ofSeparator? c).isSome ↔ c ∈ separators ∨ c ∈ controls := by
  constructor
  · intro h
    unfold ofSeparator? at h
    split at h
    all_goals first
      | decide
      | cases h
  · have hall : (separators ++ controls).all (fun c => (ofSeparator? c).isSome) = true := rfl
    exact fun h => List.all_eq_true.1 hall c (List.mem_append.2 h)

/-- The scanner passes over a piece: what follows alone decides whether it succeeds. -/
theorem scanAt_piece {p : List Char} (h : Piece p) :
    ∃ f, ∀ offset rest, scanAt offset (p ++ rest) = f <$> scanAt (offset + p.length) rest := by
  cases h with
  | marker => exact ⟨_, scanAt_marker⟩
  | separator h =>
    obtain ⟨token, htoken⟩ := Option.isSome_iff_exists.1 (ofSeparator?_isSome_iff.2 h)
    exact ⟨_, scanAt_separator htoken⟩
  | wordChar h => exact ⟨_, scanAt_wordChar h⟩

theorem scanAt_pieced {front : List Char} (h : Pieced front) :
    ∃ f, ∀ offset rest,
      scanAt offset (front ++ rest) = f <$> scanAt (offset + front.length) rest := by
  obtain ⟨pieces, hpieces, rfl⟩ := h
  induction pieces with
  | nil => exact ⟨id, fun offset rest => (id_map _).symm⟩
  | cons p pieces ih =>
    rw [List.forall_mem_cons] at hpieces
    obtain ⟨f, hf⟩ := scanAt_piece hpieces.1
    obtain ⟨g, hg⟩ := ih hpieces.2
    refine ⟨f ∘ g, fun offset rest => ?_⟩
    rw [List.flatten_cons, List.append_assoc, hf, hg, comp_map, List.length_append, Nat.add_assoc]

/-- What is wrong with a character at which no token starts. -/
def faultAt (c : Char) : Fault := if c = '\u2139' then .brokenMarker else .unexpected c

theorem scanAt_stuck {c : Char} {rest : List Char} (h : Stuck (c :: rest)) (offset : Nat) :
    scanAt offset (c :: rest) = .error (offset, faultAt c) := by
  have hmarker : ∀ more, ¬(c = '\u2139' ∧ rest = '\ufe0e' :: more) := by
    rintro more ⟨rfl, rfl⟩
    exact h _ .marker ⟨more, rfl⟩
  have hseparator : ofSeparator? c = none := by
    refine Option.not_isSome_iff_eq_none.1 fun hsome => ?_
    exact h _ (.separator (ofSeparator?_isSome_iff.1 hsome)) ⟨rest, rfl⟩
  have hword : ¬ isWordChar c = true := fun hw => h _ (.wordChar hw) ⟨rest, rfl⟩
  rw [scanAt, faultAt]
  · by_cases hc : c = '\u2139'
    · rw [if_pos hc, if_pos hc]
    · simp only [if_neg hc, hseparator, if_neg hword]
  · intro more hc hrest
    exact hmarker more ⟨hc, hrest⟩

/-- The texts that can be cut into tokens are those that are made up of pieces. -/
theorem exists_scan_iff {text : List Char} : (∃ tokens, scan text = .ok tokens) ↔ Pieced text := by
  constructor
  · rintro ⟨tokens, hscan⟩
    rcases pieced_or_stuck text with h | ⟨front, c, rest, rfl, hfront, hstuck⟩
    · exact h
    · obtain ⟨f, hf⟩ := scanAt_pieced hfront
      rw [scan, hf, scanAt_stuck hstuck] at hscan
      cases hscan
  · intro h
    obtain ⟨f, hf⟩ := scanAt_pieced h
    refine ⟨f [], ?_⟩
    rw [scan, ← List.append_nil text, hf, scanAt]
    rfl

/-- All other texts fail at the first character, after some pieces, at which none starts. -/
theorem scan_eq_error_iff {text : List Char} {failure : Nat × Fault} :
    scan text = .error failure ↔
      ∃ front c rest, text = front ++ c :: rest ∧ Pieced front ∧ Stuck (c :: rest) ∧
        failure = (front.length, faultAt c) := by
  have hstop : ∀ front c rest, Pieced front → Stuck (c :: rest) →
      scan (front ++ c :: rest) = .error (front.length, faultAt c) := by
    intro front c rest hfront hstuck
    obtain ⟨f, hf⟩ := scanAt_pieced hfront
    rw [scan, hf, scanAt_stuck hstuck, Nat.zero_add]
    rfl
  constructor
  · intro h
    rcases pieced_or_stuck text with hpieced | ⟨front, c, rest, rfl, hfront, hstuck⟩
    · obtain ⟨tokens, hscan⟩ := exists_scan_iff.2 hpieced
      rw [hscan] at h
      cases h
    · rw [hstop front c rest hfront hstuck, Except.error.injEq] at h
      exact ⟨front, c, rest, rfl, hfront, hstuck, h.symm⟩
  · rintro ⟨front, c, rest, rfl, hfront, hstuck, rfl⟩
    exact hstop front c rest hfront hstuck

/-! ## Offsets of tokens -/

/-- The tokens stand side by side in the text, each at its offset, when the first character of the
text stands at `start`. -/
inductive Tiles : (start : Nat) → (text : List Char) → List (Nat × Token) → Prop where
  | nil (start : Nat) : Tiles start [] []
  | cons {start : Nat} {token : Token} {chars rest : List Char} {more : List (Nat × Token)}
    (spelled : canonicalChars chars = token.spelling)
    (tiles : Tiles (start + chars.length) rest more) :
    Tiles start (chars ++ rest) ((start, token) :: more)

/-- Tokens that spell the canonical form of a text tile it, each at the offset that the widths of
those before it give. -/
theorem tiles_of_spell_eq {tokens : List Token} {text : List Char}
    (h : spell tokens = canonicalChars text) (start : Nat) :
    Tiles start text (offsets start tokens) := by
  induction tokens generalizing text start with
  | nil =>
    have hnil : text = [] := List.map_eq_nil_iff.1 h.symm
    rw [hnil]
    exact .nil start
  | cons token tokens ih =>
    rw [spell_cons] at h
    obtain ⟨chars, rest, rfl, hchars, hrest⟩ := List.map_eq_append_iff.1 h.symm
    have hwidth : token.width = chars.length := by
      rw [width, ← hchars, List.length_map]
    rw [offsets, hwidth]
    exact .cons hchars (ih hrest.symm _)

/-- The widths of tokens add up to the length of what they spell. -/
theorem totalWidth_eq (tokens : List Token) : totalWidth tokens = (spell tokens).length := by
  induction tokens with
  | nil => rfl
  | cons token tokens ih => rw [totalWidth, ih, spell_cons, List.length_append, width]

/-- In a separated sequence every word is one, and no word follows another. -/
theorem separated_iff {tokens : List Token} :
    Separated tokens ↔
      (∀ chars, word chars ∈ tokens → IsWord chars) ∧
        ∀ v w, ¬ [word v, word w] <:+: tokens := by
  induction tokens with
  | nil => simp [Separated]
  | cons token tokens ih =>
    have hapart : (∀ v w, ¬ [word v, word w] <:+: token :: tokens) ↔
        (startsWithWord [token] = true → startsWithWord tokens = false) ∧
          ∀ v w, ¬ [word v, word w] <:+: tokens := by
      simp only [List.infix_cons_iff, not_or, forall_and]
      refine and_congr_left fun _ => ?_
      cases token <;> cases tokens with
      | nil => simp [startsWithWord]
      | cons next tokens => cases next <;> simp [startsWithWord, List.cons_prefix_cons]
    have hsplit : Separated (token :: tokens) ↔
        (∀ chars, token = word chars → IsWord chars) ∧
          (startsWithWord [token] = true → startsWithWord tokens = false) ∧ Separated tokens := by
      cases token <;> simp [Separated, startsWithWord]
    rw [hsplit, hapart, ih]
    simp only [List.mem_cons, or_imp, forall_and, eq_comm (b := token)]
    constructor
    · rintro ⟨hhead, hnext, hwords, hapart⟩
      exact ⟨⟨hhead, hwords⟩, hnext, hapart⟩
    · rintro ⟨⟨hhead, hwords⟩, hnext, hapart⟩
      exact ⟨hhead, hnext, hwords, hapart⟩

/-- What it means that a text is cut into the tokens. -/
structure Cuts (text : List Char) (tokens : List Token) : Prop where
  /-- The tokens cover the text from its first character on, each at its offset. -/
  tiles : Tiles 0 text (offsets 0 tokens)
  /-- The input ends after as many characters as the text has. -/
  ends : totalWidth tokens = text.length
  spells : spell tokens = canonicalChars text
  words : ∀ chars, word chars ∈ tokens → IsWord chars
  /-- No word follows another. -/
  apart : ∀ v w, ¬ [word v, word w] <:+: tokens

theorem cuts_iff {text : List Char} {tokens : List Token} :
    Cuts text tokens ↔ scan text = .ok tokens := by
  rw [scan_eq_ok_iff, separated_iff]
  constructor
  · intro h
    exact ⟨⟨h.words, h.apart⟩, h.spells⟩
  · rintro ⟨⟨hwords, hapart⟩, hspell⟩
    have hends : totalWidth tokens = text.length := by
      rw [totalWidth_eq, hspell, canonicalChars, List.length_map]
    exact ⟨tiles_of_spell_eq hspell 0, hends, hspell, hwords, hapart⟩

end Token

/-! ## Texts -/

open Token (Pieced Stuck Cuts)

theorem tokenize_eq_ok_iff {text : String} {tokens : List Token} :
    tokenize text = .ok tokens ↔ Token.scan text.toList = .ok tokens := by
  unfold tokenize
  cases Token.scan text.toList <;> simp

theorem tokenize_eq_error_iff {text : String} {e : GrammarError} :
    tokenize text = .error e ↔
      ∃ offset fault, Token.scan text.toList = .error (offset, fault) ∧
        e = .noToken text offset fault := by
  unfold tokenize
  cases Token.scan text.toList with
  | ok tokens => simp
  | error failure =>
    obtain ⟨offset, fault⟩ := failure
    simp only [Except.error.injEq, Prod.mk.injEq]
    constructor
    · rintro rfl
      exact ⟨offset, fault, ⟨rfl, rfl⟩, rfl⟩
    · rintro ⟨_, _, ⟨rfl, rfl⟩, rfl⟩
      rfl

/-- The texts that are cut into tokens are those that are made up of pieces, and the tokens tile
them. Every other text fails at the first character, after some pieces, at which no token starts. -/
theorem tokenize_cuts (text : String) :
    ((∃ tokens, tokenize text = .ok tokens) ↔ Pieced text.toList) ∧
      (∀ tokens, tokenize text = .ok tokens ↔ Cuts text.toList tokens) ∧
      ∀ e, tokenize text = .error e ↔
        ∃ front c rest, text.toList = front ++ c :: rest ∧ Pieced front ∧ Stuck (c :: rest) ∧
          e = .noToken text front.length (Token.faultAt c) := by
  refine ⟨?_, fun tokens => ?_, fun e => ?_⟩
  · simp only [tokenize_eq_ok_iff, Token.exists_scan_iff]
  · rw [tokenize_eq_ok_iff, Token.cuts_iff]
  · rw [tokenize_eq_error_iff]
    constructor
    · rintro ⟨offset, fault, hscan, rfl⟩
      obtain ⟨front, c, rest, htext, hfront, hstuck, hfailure⟩ := Token.scan_eq_error_iff.1 hscan
      cases hfailure
      exact ⟨front, c, rest, htext, hfront, hstuck, rfl⟩
    · rintro ⟨front, c, rest, htext, hfront, hstuck, rfl⟩
      exact ⟨_, _, Token.scan_eq_error_iff.2 ⟨front, c, rest, htext, hfront, hstuck, rfl⟩, rfl⟩

end PropStorage.Expression
