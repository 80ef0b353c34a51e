import PropStorage.Proofs.Expression.Repetition
import PropStorage.Proofs.Expression.Tiling
import Mathlib.Order.Bounds.Basic

/-!
# Where errors are reported

A text that can be cut into tokens, but is not an expression, is refused at a character. The offset
is that of the first token that does not fit: the tokens before it start some expression, and with
it they start none (`Begins`). The end of the input counts as a token (`closed`).

The one exception is a property that is mapped twice (`RepeatsAt`). The token that does not fit is
its name then, and the offset is that of the token after it. `parse_error_offset` says all this.
-/

namespace PropStorage.Expression

/-! ## Places in a text -/

/-- The tokens, and the end of the input. -/
def closed (tokens : List Token) : List (Option Token) := tokens.map some ++ [none]

/-- The offsets at which the tokens start, and at which the input ends. -/
def starts (tokens : List Token) : List Nat :=
  (Token.offsets 0 tokens).map Prod.fst ++ [Token.totalWidth tokens]

/-- The tokens of some text that is read as an expression start with the given ones. -/
def Begins (front : List (Option Token)) : Prop :=
  ∃ text tokens e, tokenize text = .ok tokens ∧ parse text = .ok e ∧ front <+: closed tokens

/-- The token with the given index is the name of an object property that is mapped already: the
tokens before it are those of an expression on an object, up to that name. -/
def RepeatsAt (tokens : List Token) (i : Nat) : Prop :=
  ∃ (fieldType source : Name) (mapped : List (Name × Target)),
    (mapped.map Prod.fst).Nodup ∧ source ∈ mapped.map Prod.fst ∧
      tokens.take i = Parser.objectTokens fieldType mapped ∧
        tokens[i]? = some (nameToken source)

theorem closed_append (front rest : List Token) :
    closed (front ++ rest) = front.map some ++ closed rest := by
  rw [closed, closed, List.map_append, List.append_assoc]

theorem closed_eq_cons (tokens : List Token) : ∃ more, closed tokens = tokens.head? :: more := by
  cases tokens with
  | nil => exact ⟨[], rfl⟩
  | cons token tokens => exact ⟨closed tokens, rfl⟩

theorem take_closed (front rest : List Token) :
    (closed (front ++ rest)).take front.length = front.map some := by
  rw [closed_append, List.take_left' (List.length_map _)]

theorem take_closed_succ (front rest : List Token) :
    (closed (front ++ rest)).take (front.length + 1) = front.map some ++ [rest.head?] := by
  obtain ⟨more, hmore⟩ := closed_eq_cons rest
  rw [closed_append, List.take_add, List.take_left' (List.length_map _),
    List.drop_left' (List.length_map _), hmore]
  rfl

theorem map_some_append_prefix_closed {front tokens : List Token} {next : Option Token}
    (h : front.map some ++ [next] <+: closed tokens) :
    ∃ more, tokens = front ++ more ∧ more.head? = next := by
  induction front generalizing tokens with
  | nil =>
    obtain ⟨more, hmore⟩ := closed_eq_cons tokens
    rw [hmore] at h
    exact ⟨tokens, rfl, (List.cons_prefix_cons.1 h).1.symm⟩
  | cons token front ih =>
    cases tokens with
    | nil => cases (List.cons_prefix_cons.1 h).1
    | cons token' tokens =>
      obtain ⟨htoken, hfront⟩ := List.cons_prefix_cons.1 h
      obtain rfl := Option.some.inj htoken
      obtain ⟨more, rfl, hmore⟩ := ih hfront
      exact ⟨more, rfl, hmore⟩

/-! ## Offsets -/

theorem totalWidth_append (front rest : List Token) :
    Token.totalWidth (front ++ rest) = Token.totalWidth front + Token.totalWidth rest := by
  rw [Token.totalWidth_eq, Token.totalWidth_eq, Token.totalWidth_eq, Token.spell,
    List.flatMap_append, List.length_append]
  rfl

theorem offsets_append (start : Nat) (front rest : List Token) :
    Token.offsets start (front ++ rest)
      = Token.offsets start front ++ Token.offsets (start + Token.totalWidth front) rest := by
  induction front generalizing start with
  | nil => rfl
  | cons token front ih =>
    rw [List.cons_append, Token.offsets, Token.offsets, ih, Token.totalWidth, Nat.add_assoc]
    rfl

theorem length_offsets (start : Nat) (tokens : List Token) :
    (Token.offsets start tokens).length = tokens.length := by
  induction tokens generalizing start with
  | nil => rfl
  | cons token tokens ih => rw [Token.offsets, List.length_cons, ih, List.length_cons]

/-- What follows some tokens starts where their widths end. -/
theorem getElem?_starts_append (front rest : List Token) :
    (starts (front ++ rest))[front.length]? = some (Token.totalWidth front) := by
  have hlength : ((Token.offsets 0 front).map Prod.fst).length = front.length := by
    rw [List.length_map, length_offsets]
  rw [starts, offsets_append, List.map_append, List.append_assoc,
    List.getElem?_append_right hlength.le, hlength, Nat.sub_self, Nat.zero_add]
  cases rest with
  | nil => rw [List.append_nil]; rfl
  | cons token rest => rfl

/-! ## Beginnings of expressions -/

theorem tokenize_separated {text : String} {tokens : List Token} (h : tokenize text = .ok tokens) :
    Token.Separated tokens := (Token.scan_eq_ok_iff.1 (tokenize_eq_ok_iff.1 h)).1

theorem parse_of_tokenize {text : String} {tokens : List Token} (h : tokenize text = .ok tokens) :
    parse text = match ofTokens tokens with
      | .ok e => .ok e
      | .error failure => .error (.unexpected text
          (Token.totalWidth tokens - Token.totalWidth failure.rest) failure) := by
  rw [parse, h]
  rfl

theorem begins_iff {front : List (Option Token)} :
    Begins front ↔ ∃ e : Expression, front <+: closed e.tokens := by
  constructor
  · rintro ⟨text, tokens, e, htokens, hparse, hfront⟩
    refine ⟨e, ?_⟩
    have hs := tokenize_separated htokens
    rw [parse_of_tokenize htokens] at hparse
    split at hparse
    · rename_i hread
      cases hparse
      rwa [← (ofTokens_eq_ok_iff hs.proper).1 hread]
    · cases hparse
  · rintro ⟨e, hfront⟩
    have hscan : Token.scan e.print.toList = .ok e.tokens := by
      refine Token.scan_eq_ok_iff.2 ⟨separated_tokens e, ?_⟩
      rw [print, String.toList_ofList, canonicalChars_spell (separated_tokens e)]
    exact ⟨e.print, e.tokens, e, tokenize_eq_ok_iff.2 hscan, parse_print e, hfront⟩

theorem Begins.mono {front front' : List (Option Token)} (h : Begins front')
    (hf : front <+: front') : Begins front := by
  obtain ⟨text, tokens, e, htokens, hparse, hfront⟩ := h
  exact ⟨text, tokens, e, htokens, hparse, hf.trans hfront⟩

/-! ## The first token that does not fit -/

/-- The index of the first token that does not fit, and what is known of it. -/
theorem isLeast_not_begins {tokens : List Token} (hs : Token.Separated tokens) {failure : Failure}
    (h : ofTokens tokens = .error failure) :
    ∃ front, tokens = front ++ failure.misfit ∧ Begins ((closed tokens).take front.length) ∧
      IsLeast {i | ¬ Begins ((closed tokens).take (i + 1))} front.length := by
  obtain ⟨front, htokens, ⟨e, he⟩, hrefused⟩ := ofTokens_eq_error hs.proper h
  have hbegins : Begins ((closed tokens).take front.length) := by
    rw [htokens, take_closed]
    exact begins_iff.2 ⟨e, (he.map some).trans (List.prefix_append ..)⟩
  refine ⟨front, htokens, hbegins, ?_, fun i hi => ?_⟩
  · intro hnext
    rw [htokens, take_closed_succ] at hnext
    obtain ⟨e', he'⟩ := begins_iff.1 hnext
    obtain ⟨more, hmore, hhead⟩ := map_some_append_prefix_closed he'
    exact hrefused more hhead e' hmore
  · by_contra hlt
    refine hi (hbegins.mono ?_)
    exact List.take_prefix_take_left (by omega)

theorem misfit_eq_rest {failure : Failure}
    (h : ∀ source, failure.fault ≠ .repeatedProperty source) : failure.misfit = failure.rest := by
  obtain ⟨fault, rest⟩ := failure
  cases fault
  case repeatedProperty source => exact absurd rfl (h source)
  all_goals rfl

theorem ofTokens_eq_repeated_iff {tokens rest : List Token} {source : Name} :
    ofTokens tokens = .error ⟨.repeatedProperty source, rest⟩ ↔
      Parser.expression tokens = .error ⟨.repeatedProperty source, rest⟩ := by
  unfold ofTokens
  split
  · rename_i h; simp [h]
  · rename_i h; simp [h]
  · rename_i h; rw [h]; simp

/-- The parser complains of a property that is mapped twice just if the tokens map one twice. -/
theorem repeatsAt_iff {front : List Token} {failure : Failure}
    (h : ofTokens (front ++ failure.misfit) = .error failure) :
    RepeatsAt (front ++ failure.misfit) front.length ↔
      ∃ source, failure.fault = .repeatedProperty source := by
  constructor
  · rintro ⟨fieldType, source, mapped, hnodup, hsource, hfront, hnext⟩
    rw [List.take_left] at hfront
    rw [List.getElem?_append_right le_rfl, Nat.sub_self, ← List.head?_eq_getElem?] at hnext
    obtain ⟨rest, hrest⟩ := List.head?_eq_some_iff.1 hnext
    rw [hfront, hrest, ofTokens_eq_repeated_iff.2 (Parser.expression_eq_repeated_iff.2
      ⟨fieldType, mapped, hnodup, hsource, rfl⟩)] at h
    exact ⟨source, by rw [← Except.error.inj h]⟩
  · rintro ⟨source, hfault⟩
    obtain ⟨fault, rest⟩ := failure
    obtain rfl : fault = .repeatedProperty source := hfault
    obtain ⟨fieldType, mapped, hnodup, hsource, htokens⟩ :=
      Parser.expression_eq_repeated_iff.1 (ofTokens_eq_repeated_iff.1 h)
    have hfront : front = Parser.objectTokens fieldType mapped :=
      List.append_cancel_right htokens
    refine ⟨fieldType, source, mapped, hnodup, hsource, ?_, ?_⟩
    · rw [List.take_left, hfront]
    · rw [List.getElem?_append_right le_rfl, Nat.sub_self]
      rfl

theorem totalWidth_append_sub (front rest : List Token) :
    Token.totalWidth (front ++ rest) - Token.totalWidth rest = Token.totalWidth front := by
  rw [totalWidth_append, Nat.add_sub_cancel]

/-- The offset is that of the first token that does not fit. -/
theorem getElem?_starts_of_not_repeated (front : List Token) {failure : Failure}
    (h : ∀ source, failure.fault ≠ .repeatedProperty source) :
    (starts (front ++ failure.misfit))[front.length]?
      = some (Token.totalWidth (front ++ failure.misfit) - Token.totalWidth failure.rest) := by
  rw [getElem?_starts_append, misfit_eq_rest h, totalWidth_append_sub]

/-- The offset is that of the token after the repeated name, which is not that of the name. -/
theorem getElem?_starts_of_repeated (front : List Token) {failure : Failure} {source : Name}
    (h : failure.fault = .repeatedProperty source) :
    (starts (front ++ failure.misfit))[front.length + 1]?
        = some (Token.totalWidth (front ++ failure.misfit) - Token.totalWidth failure.rest) ∧
      (starts (front ++ failure.misfit))[front.length]?
        ≠ some (Token.totalWidth (front ++ failure.misfit) - Token.totalWidth failure.rest) := by
  have hsplit : front ++ failure.misfit = (front ++ [nameToken source]) ++ failure.rest := by
    rw [Failure.misfit, h, List.append_assoc, List.singleton_append]
  have hoffset : Token.totalWidth (front ++ failure.misfit) - Token.totalWidth failure.rest
      = Token.totalWidth (front ++ [nameToken source]) := by
    rw [hsplit, totalWidth_append_sub]
  have hnext := getElem?_starts_append (front ++ [nameToken source]) failure.rest
  rw [List.length_append, List.length_singleton, ← hsplit] at hnext
  have hwidth : 0 < Token.totalWidth [nameToken source] :=
    Nat.add_pos_left (List.length_pos_iff.2 source.isWord_chars.1) _
  rw [hoffset]
  refine ⟨hnext, fun heq => ?_⟩
  rw [getElem?_starts_append, Option.some.injEq, totalWidth_append] at heq
  omega

/-- Where a text is refused that can be cut into tokens: at the first token that does not fit, the
end of the input counting as one. The tokens before it start some expression, and with it they start
none. Only the name of a property that is mapped twice is passed over: then the offset is that of
the token after it. -/
theorem parse_error_offset {text : String} {tokens : List Token} {error : GrammarError}
    (htokens : tokenize text = .ok tokens) (herror : parse text = .error error) :
    ∃ i offset failure, error = .unexpected text offset failure ∧
      Begins ((closed tokens).take i) ∧
      IsLeast {j | ¬ Begins ((closed tokens).take (j + 1))} i ∧
      ((starts tokens)[i]? = some offset ↔ ¬ RepeatsAt tokens i) ∧
      (RepeatsAt tokens i → (starts tokens)[i + 1]? = some offset) := by
  rw [parse_of_tokenize htokens] at herror
  split at herror
  · cases herror
  · rename_i failure hfailure
    cases herror
    obtain ⟨front, rfl, hbegins, hleast⟩ :=
      isLeast_not_begins (tokenize_separated htokens) hfailure
    refine ⟨front.length, _, failure, rfl, hbegins, hleast, ?_⟩
    rw [repeatsAt_iff hfailure]
    by_cases hrepeated : ∃ source, failure.fault = .repeatedProperty source
    · obtain ⟨source, hfault⟩ := hrepeated
      obtain ⟨hnext, hne⟩ := getElem?_starts_of_repeated front hfault
      exact ⟨⟨fun h => absurd h hne, fun h => absurd ⟨source, hfault⟩ h⟩, fun _ => hnext⟩
    · have hstart := getElem?_starts_of_not_repeated front (not_exists.1 hrepeated)
      exact ⟨⟨fun _ => hrepeated, fun _ => hstart⟩, fun h => absurd h hrepeated⟩

/-- A field type with the separator of another kind of expression behind it. -/
def linkText : String := "ℹ︎link␝url"

def linkTokens : List Token :=
  [.structuredData, .word ['l', 'i', 'n', 'k'], .fieldLevel, .word ['u', 'r', 'l']]

/-- The field separator after the field type does not fit, and stands at the offset. -/
theorem parse_error_offset_link :
    (∃ failure, parse linkText = .error (.unexpected linkText 6 failure)) ∧
      IsLeast {j | ¬ Begins ((closed linkTokens).take (j + 1))} 2 ∧
      (starts linkTokens)[2]? = some 6 := by
  have htokens : tokenize linkText = .ok linkTokens := by decide +kernel
  have herror : parse linkText = .error (.unexpected linkText 6
      ⟨.expectedToken .propertyLevel, [.fieldLevel, .word ['u', 'r', 'l']]⟩) := by decide +kernel
  obtain ⟨i, offset, failure, heq, -, hleast, hstart, -⟩ := parse_error_offset htokens herror
  have hrepeats : ¬ RepeatsAt linkTokens i := by
    rintro ⟨fieldType, source, mapped, -, -, htake, -⟩
    have hbrace : Token.openBrace ∈ linkTokens.take i := by
      rw [htake, Parser.objectTokens]
      simp
    exact absurd (List.mem_of_mem_take hbrace) (by decide)
  obtain ⟨-, rfl, -⟩ := GrammarError.unexpected.inj heq
  have hstarts : starts linkTokens = [0, 2, 6, 7, 10] := by decide
  have hindex : ∀ i < 5, [0, 2, 6, 7, 10][i]? = some 6 → i = 2 := by decide
  have hi := hstart.2 hrepeats
  rw [hstarts] at hi ⊢
  obtain rfl : i = 2 := hindex i (List.getElem?_eq_some_iff.1 hi).1 hi
  exact ⟨⟨_, herror⟩, hleast, rfl⟩

/-- An object expression that maps a property twice. -/
def repeatedText : String := "ℹ︎image␟{alt↠alt,alt↠title}"

def repeatedTokens : List Token :=
  [.structuredData, .word ['i', 'm', 'a', 'g', 'e'], .propertyLevel, .openBrace,
    .word ['a', 'l', 't'], .useProp, .word ['a', 'l', 't'], .comma,
    .word ['a', 'l', 't'], .useProp, .word ['t', 'i', 't', 'l', 'e'], .closeBrace]

/-- The second name does not fit, but the offset is that of the arrow after it. -/
theorem parse_repeated_offset :
    tokenize repeatedText = .ok repeatedTokens ∧
      (∃ failure, parse repeatedText = .error (.unexpected repeatedText 20 failure)) ∧
      IsLeast {j | ¬ Begins ((closed repeatedTokens).take (j + 1))} 8 ∧
      (starts repeatedTokens)[8]? = some 17 := by
  have htokens : tokenize repeatedText = .ok repeatedTokens := by decide +kernel
  have hread : ofTokens repeatedTokens = .error ⟨.repeatedProperty ⟨"alt", by decide⟩,
      [.useProp, .word ['t', 'i', 't', 'l', 'e'], .closeBrace]⟩ := by
    decide +kernel
  have herror := parse_of_tokenize htokens
  rw [hread] at herror
  obtain ⟨front, hfront, -, hleast⟩ := isLeast_not_begins (tokenize_separated htokens) hread
  have hlength : front.length = 8 := by
    have := congrArg List.length hfront
    rw [List.length_append] at this
    exact Nat.add_right_cancel this.symm
  rw [hlength] at hleast
  exact ⟨htokens, ⟨_, herror⟩, hleast, by decide⟩

end PropStorage.Expression
