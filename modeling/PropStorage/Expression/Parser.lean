import PropStorage.Expression.Error

/-!
# Reading expressions

`Expression.parse` reads the canonical text of an expression, with the control characters allowed
for the separators that depict them, and refuses every other text. The grammar is read from the
tokens by recursive descent; a parser that fails leaves the tokens that it could not read.

* `Parser.Shrinks`: a successful parser has consumed a token, which bounds the loop over the
  mapped properties of an object (`targets`).
-/

namespace PropStorage.Expression

/-- Reads something from the front of a sequence of tokens. -/
abbrev Parser := StateT (List Token) (Except Failure)

namespace Parser

variable {α β : Type}

/-- Fails at the next token. -/
def fail (fault : Fault) : Parser α := fun rest => .error ⟨fault, rest⟩

/-- A successful run leaves fewer tokens. -/
def Shrinks (p : Parser α) : Prop :=
  ∀ tokens a rest, p tokens = .ok (a, rest) → rest.length < tokens.length

theorem Shrinks.bind {p : Parser α} {f : α → Parser β} (hp : p.Shrinks)
    (hf : ∀ a, (f a).Shrinks) : Shrinks (p >>= f) := by
  intro tokens b rest h
  change (p tokens >>= fun r => f r.1 r.2) = _ at h
  cases hr : p tokens with
  | error e => simp [hr, Except.bind, Bind.bind] at h
  | ok r =>
    simp only [hr] at h
    exact Nat.lt_trans (hf _ _ _ _ h) (hp _ _ _ hr)

theorem Shrinks.map {p : Parser α} (f : α → β) (hp : p.Shrinks) :
    Shrinks (p >>= fun a => pure (f a)) := by
  intro tokens b rest h
  change (p tokens >>= fun r => Except.ok (f r.1, r.2)) = _ at h
  cases hr : p tokens with
  | error e => simp [hr, Except.bind, Bind.bind] at h
  | ok r =>
    simp only [hr, Except.bind, Bind.bind, Except.ok.injEq, Prod.mk.injEq] at h
    exact h.2 ▸ hp _ _ _ hr

/-! ## Single tokens -/

/-- Reads the given token. -/
def expect (token : Token) : Parser Unit := fun tokens =>
  match tokens with
  | next :: rest => if next = token then .ok ((), rest) else .error ⟨.expectedToken token, tokens⟩
  | [] => .error ⟨.expectedToken token, []⟩

/-- Reads a name. -/
def name (part : Part) : Parser Name := fun tokens =>
  match tokens with
  | .word chars :: rest =>
    match Name.ofChars? chars with
    | some n => .ok (n, rest)
    | none => .error ⟨.colonInName part chars, tokens⟩
  | _ => .error ⟨.expectedPart part, tokens⟩

/-- The parts of a word between its colons. -/
def splitColons : List Char → List (List Char)
  | [] => [[]]
  | c :: cs =>
    if c = ':' then [] :: splitColons cs
    else match splitColons cs with
      | [] => [[c]]
      | part :: parts => (c :: part) :: parts

/-- The entity that a word names: an entity type, or an entity type and a bundle. -/
def entityOfWord (word : List Char) : Except Fault Entity :=
  match splitColons word with
  | [entityType] =>
    match Name.ofChars? entityType with
    | some e => .ok ⟨e, none⟩
    | none => .error (.emptyEntityPart word)
  | [entityType, bundle] =>
    match Name.ofChars? entityType, Name.ofChars? bundle with
    | some e, some b => .ok ⟨e, some b⟩
    | _, _ => .error (.emptyEntityPart word)
  | _ => .error (.manyColons word)

/-- Reads an entity. -/
def entity : Parser Entity := fun tokens =>
  match tokens with
  | .word word :: rest =>
    match entityOfWord word with
    | .ok e => .ok (e, rest)
    | .error fault => .error ⟨fault, tokens⟩
  | _ => .error ⟨.expectedPart .entityType, tokens⟩

/-- The item number that a word spells: digits without a leading zero, below `2^32`. -/
def deltaOfWord (word : List Char) : Except Fault UInt32 :=
  if !word.all Char.isDigit || (word.length > 1 && word.head? = some '0') then
    .error (.deltaNotCanonical word)
  else
    let n := Nat.ofDigitChars 10 word 0
    if n < UInt32.size then .ok (UInt32.ofNat n) else .error (.deltaOutOfRange word)

/-- Reads an item number, if a word comes next. -/
def delta? : Parser (Option UInt32) := fun tokens =>
  match tokens with
  | .word word :: rest =>
    match deltaOfWord word with
    | .ok d => .ok (some d, rest)
    | .error fault => .error ⟨fault, tokens⟩
  | _ => .ok (none, tokens)

theorem expect_shrinks (token : Token) : (expect token).Shrinks := by
  intro tokens a rest h
  unfold expect at h
  split at h
  · split at h
    · cases h; simp
    · cases h
  · cases h

theorem name_shrinks (part : Part) : (name part).Shrinks := by
  intro tokens a rest h
  unfold name at h
  split at h
  · split at h
    · cases h; simp
    · cases h
  · cases h

theorem entity_shrinks : entity.Shrinks := by
  intro tokens a rest h
  unfold entity at h
  split at h
  · split at h
    · cases h; simp
    · cases h
  · cases h

/-! ## Parts -/

/-- Refuses an item number within a reference. -/
def noDelta : Parser Unit := fun tokens =>
  match tokens with
  | .word _ :: _ => .error ⟨.deltaInReference, tokens⟩
  | _ => .ok ((), tokens)

/-- Reads the item level of a reference, which holds no item number, and the property level. -/
def everyItem : Parser Unit := do
  expect .itemLevel
  noDelta
  expect .propertyLevel

/-- Reads the way to a property of a referenced entity. -/
def chain : Parser (ReferencedField × Name) := do
  expect .entityLevel
  expect .entityLevel
  let entity ← entity
  expect .fieldLevel
  let field ← name .referencedField
  everyItem
  let prop ← name .referencedProperty
  pure (⟨entity, field⟩, prop)

theorem everyItem_shrinks : everyItem.Shrinks := by
  intro tokens a rest h
  have hstep : ∀ (p : Parser Unit), (noDelta >>= fun _ => p) tokens = .ok (a, rest) →
      p tokens = .ok (a, rest) := by
    intro p hp
    change (noDelta tokens >>= fun r => p r.2) = _ at hp
    unfold noDelta at hp
    split at hp
    · cases hp
    · exact hp
  change (expect .itemLevel tokens >>= fun r =>
    (noDelta >>= fun _ => expect .propertyLevel) r.2) = _ at h
  cases hr : expect .itemLevel tokens with
  | error e => simp [hr, Except.bind, Bind.bind] at h
  | ok r =>
    simp only [hr] at h
    change (noDelta r.2 >>= fun q => expect .propertyLevel q.2) = _ at h
    unfold noDelta at h
    split at h
    · cases h
    · exact Nat.lt_trans (expect_shrinks _ _ _ _ h) (expect_shrinks _ _ _ _ hr)

theorem chain_shrinks : chain.Shrinks :=
  (expect_shrinks _).bind fun _ => (expect_shrinks _).bind fun _ => entity_shrinks.bind fun e =>
    (expect_shrinks _).bind fun _ => (name_shrinks _).bind fun f => everyItem_shrinks.bind fun _ =>
      (name_shrinks _).map fun p => ((⟨e, f⟩ : ReferencedField), p)

/-- Reads the target of an object property. -/
def target (source : Name) : Parser Target := fun tokens =>
  match tokens with
  | .useProp :: rest => (do pure (.prop (← name .fieldTypeProperty)) : Parser Target) rest
  | .followReference :: rest =>
    (do
      let prop ← name .fieldTypeProperty
      let (referenced, referencedProp) ← chain
      pure (.follow prop referenced referencedProp) : Parser Target) rest
  | _ => .error ⟨.expectedArrow source, tokens⟩

theorem target_shrinks (source : Name) : (target source).Shrinks := by
  intro tokens a rest h
  unfold target at h
  split at h
  · exact Nat.lt_succ_of_lt (((name_shrinks _).map _) _ _ _ h)
  · have hs : Shrinks (name .fieldTypeProperty >>= fun prop => chain >>= fun r =>
        pure (Target.follow prop r.1 r.2)) :=
      (name_shrinks _).bind fun p => chain_shrinks.map fun r => Target.follow p r.1 r.2
    exact Nat.lt_succ_of_lt (hs _ _ _ h)
  · cases h

/-- Reads mapped properties, none of them among those seen before, up to the closing brace. A
repeated name is noticed once it has been read. -/
def targets (seen : List Name) (tokens : List Token) :
    Except Failure ({ t : FreshTargets seen // t.targets ≠ [] } × List Token) :=
  match hname : name .objectProperty tokens with
  | .error e => .error e
  | .ok (source, tokens₁) =>
    if hseen : source ∈ seen then .error ⟨.repeatedProperty source, tokens₁⟩
    else
      match htarget : target source tokens₁ with
      | .error e => .error e
      | .ok (t, .closeBrace :: rest) =>
        .ok (⟨.cons source t hseen .nil, List.cons_ne_nil _ _⟩, rest)
      | .ok (t, .comma :: rest) =>
        have : rest.length < tokens.length := by
          have h₁ := name_shrinks _ _ _ _ hname
          have h₂ := target_shrinks _ _ _ _ htarget
          simp only [List.length_cons] at h₂
          omega
        match targets (source :: seen) rest with
        | .error e => .error e
        | .ok (more, rest) =>
          .ok (⟨.cons source t hseen more.1, List.cons_ne_nil _ _⟩, rest)
      | .ok (_, rest) => .error ⟨.expectedSeparator, rest⟩
termination_by tokens.length

/-- Reads the rest of an expression on an object, after its opening brace. -/
def objectProps (fieldType : Name) : Parser Expression := fun tokens => do
  let (t, rest) ← targets [] tokens
  pure (.object ⟨fieldType, t.1.targets, t.2, t.1.distinct⟩, rest)

/-- Reads the item level of a field. -/
def item (field : Name) : Parser FieldItem := do
  let delta ← delta?
  match ← get with
  | .propertyLevel :: rest =>
    set rest
    pure ⟨field, delta, some (← name .itemProperty)⟩
  | _ => if delta.isNone then fail .emptyItem else pure ⟨field, delta, none⟩

/-- Reads a place in structured data, after its leading separator. -/
def structuredDataProp : Parser Expression := do
  let entity ← entity
  match ← get with
  | .fieldLevel :: rest =>
    set rest
    let field ← name .field
    match ← get with
    | .itemLevel :: rest =>
      set rest
      pure (.structuredData ⟨entity, some (← item field)⟩)
    | _ => pure (.structuredData ⟨entity, some ⟨field, none, none⟩⟩)
  | _ => pure (.structuredData ⟨entity, none⟩)

/-- Reads an expression on a field type. -/
def fieldTypeExpression : Parser Expression := do
  let fieldType ← name .fieldType
  expect .propertyLevel
  match ← get with
  | .openBrace :: rest =>
    set rest
    objectProps fieldType
  | _ =>
    let base : FieldTypeProp := ⟨fieldType, ← name .fieldTypeProperty⟩
    match ← get with
    | .entityLevel :: _ =>
      let (referenced, referencedProp) ← chain
      pure (.reference ⟨base, referenced, referencedProp⟩)
    | _ => pure (.fieldType base)

/-- Reads an expression. -/
def expression : Parser Expression := do
  match ← get with
  | .structuredData :: .entityLevel :: rest =>
    set rest
    structuredDataProp
  | .structuredData :: rest =>
    set rest
    fieldTypeExpression
  | .component :: rest =>
    set rest
    let instanceId ← name .instanceId
    expect .propertyLevel
    let prop ← name .prop
    pure (.component ⟨instanceId, prop⟩)
  | _ => fail .expectedMarker

end Parser

/-- The expression that a sequence of tokens spells. -/
def ofTokens (tokens : List Token) : Except Failure Expression :=
  match Parser.expression tokens with
  | .ok (e, []) => .ok e
  | .ok (_, rest) => .error ⟨.expectedEnd, rest⟩
  | .error failure => .error failure

/-- The tokens of a text. -/
def tokenize (text : String) : Except GrammarError (List Token) :=
  match Token.scan text.toList with
  | .ok tokens => .ok tokens
  | .error (offset, fault) => .error (.noToken text offset fault)

/-- The expression that a text spells. -/
def parse (text : String) : Except GrammarError Expression := do
  let tokens ← tokenize text
  match ofTokens tokens with
  | .ok e => .ok e
  | .error failure =>
    let offset := Token.totalWidth tokens - Token.totalWidth failure.rest
    .error (.unexpected text offset failure)

end PropStorage.Expression
