import PropStorage.Expression.Token

/-!
# Writing expressions

Every expression has one canonical sequence of tokens (`Expression.tokens`), and with it one
canonical text (`Expression.print`).
-/

namespace PropStorage.Expression

def nameToken (n : Name) : Token := .word n.chars

/-- One word: the entity type, with a colon before the bundle if there is one. -/
def Entity.chars (e : Entity) : List Char :=
  match e.bundle with
  | none => e.entityType.chars
  | some bundle => e.entityType.chars ++ ':' :: bundle.chars

def ReferencedField.tokens (r : ReferencedField) : List Token :=
  [.word r.entity.chars, .fieldLevel, nameToken r.field]

/-- The entity and the field as one text. -/
def ReferencedField.path (r : ReferencedField) : String := String.ofList (Token.spell r.tokens)

/-- The way to a property of a referenced entity; it addresses every item of the field. -/
def chainTokens (referenced : ReferencedField) (prop : Name) : List Token :=
  .entityLevel :: .entityLevel :: referenced.tokens ++ [.itemLevel, .propertyLevel, nameToken prop]

def FieldTypeProp.tokens (e : FieldTypeProp) : List Token :=
  [nameToken e.fieldType, .propertyLevel, nameToken e.prop]

def Target.tokens : Target → List Token
  | prop p => [.useProp, nameToken p]
  | follow p referenced referencedProp =>
    .followReference :: nameToken p :: chainTokens referenced referencedProp

/-- The mapped properties, separated by commas, and the closing brace. -/
def targetTokens : List (Name × Target) → List Token
  | [] => [.closeBrace]
  | [(source, target)] => nameToken source :: target.tokens ++ [.closeBrace]
  | (source, target) :: next :: rest =>
    nameToken source :: target.tokens ++ .comma :: targetTokens (next :: rest)

/-- The decimal digits of an item number. -/
def deltaChars (delta : UInt32) : List Char := Nat.toDigits 10 delta.toNat

/-- The item and property of a field: nothing at all if neither is given. -/
def FieldItem.tokens (item : FieldItem) : List Token :=
  let delta := match item.delta with
    | none => []
    | some d => [.word (deltaChars d)]
  let prop := match item.prop with
    | none => []
    | some p => [.propertyLevel, nameToken p]
  .fieldLevel :: nameToken item.field ::
    (if item.delta.isNone && item.prop.isNone then [] else .itemLevel :: delta ++ prop)

def StructuredDataProp.tokens (e : StructuredDataProp) : List Token :=
  .entityLevel :: .word e.entity.chars ::
    (match e.item with
      | none => []
      | some item => item.tokens)

/-- The canonical tokens of an expression. -/
def tokens : Expression → List Token
  | fieldType e => .structuredData :: e.tokens
  | reference e => .structuredData :: e.base.tokens ++ chainTokens e.referenced e.referencedProp
  | object e =>
    .structuredData :: nameToken e.fieldType :: .propertyLevel :: .openBrace
      :: targetTokens e.targets
  | structuredData e => .structuredData :: e.tokens
  | component e => [.component, nameToken e.instanceId, .propertyLevel, nameToken e.prop]

/-- The canonical text of an expression. -/
def print (e : Expression) : String := String.ofList (Token.spell e.tokens)

end PropStorage.Expression
