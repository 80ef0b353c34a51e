import PropStorage.Expression.Token

/-!
# Why a text is not an expression

A `GrammarError` says why a text is no expression, or why a text cannot be a name of one. A text
that is cut into tokens but does not follow the grammar fails at a token: `Failure` holds the tokens
from that one on, from which its place in the text follows.
-/

namespace PropStorage.Expression

/-- The parts of an expression that messages name. -/
inductive Part where
  | fieldType
  | fieldTypeProperty
  | entityType
  | bundle
  | referencedField
  | referencedProperty
  | objectMap
  | objectProperty
  | field
  | itemProperty
  | instanceId
  | prop
  deriving DecidableEq

def Part.label : Part → String
  | fieldType => "field type"
  | fieldTypeProperty => "field type property name"
  | entityType => "entity type"
  | bundle => "bundle"
  | referencedField => "referenced field name"
  | referencedProperty => "referenced property name"
  | objectMap => "object property map"
  | objectProperty => "object property name"
  | field => "field name"
  | itemProperty => "field item property name"
  | instanceId => "component instance uuid"
  | prop => "prop name"

/-- Why the tokens do not follow the grammar. -/
inductive Fault where
  | expectedMarker
  | expectedToken (token : Token)
  | expectedPart (part : Part)
  /-- An object property is not followed by an arrow. -/
  | expectedArrow (source : Name)
  /-- A target is followed neither by a comma nor by the closing brace. -/
  | expectedSeparator
  | expectedEnd
  | colonInName (part : Part) (word : List Char)
  | manyColons (word : List Char)
  | emptyEntityPart (word : List Char)
  | deltaNotCanonical (word : List Char)
  | deltaOutOfRange (word : List Char)
  | deltaInReference
  | repeatedProperty (source : Name)
  /-- The item level of a field names neither an item nor a property. -/
  | emptyItem
  deriving DecidableEq

/-- The tokens could be read up to a place, and no further. -/
structure Failure where
  fault : Fault
  /-- The tokens from the place of the failure on. -/
  rest : List Token
  deriving DecidableEq

namespace Failure

def expected (what : String) (rest : List Token) : String :=
  "expected " ++ what ++ ", got " ++ Token.describeNext rest

def reason (f : Failure) : String :=
  match f.fault with
  | .expectedMarker => expected "structured data or component marker" f.rest
  | .expectedToken token => expected token.describe f.rest
  | .expectedPart part => expected part.label f.rest
  | .expectedArrow source =>
    "expected '\u21a0' or '\u219d' after object property '" ++ source.text ++ "', got "
      ++ Token.describeNext f.rest
  | .expectedSeparator => expected "',' or '\x7d' in object property map" f.rest
  | .expectedEnd => expected (Token.describeNext []) f.rest
  | .colonInName part word =>
    part.label ++ " '" ++ String.ofList word
      ++ "' may not contain ':'; it only separates entity type and bundle"
  | .manyColons word => "entity '" ++ String.ofList word ++ "' has more than one ':'"
  | .emptyEntityPart word =>
    "entity '" ++ String.ofList word ++ "' has an empty entity type or bundle"
  | .deltaNotCanonical word =>
    "delta '" ++ String.ofList word ++ "' is not a canonical non-negative integer"
  | .deltaOutOfRange word => "delta '" ++ String.ofList word ++ "' is out of range"
  | .deltaInReference => "reference chains address every item; a delta is not allowed"
  | .repeatedProperty source => "object property '" ++ source.text ++ "' is mapped twice"
  | .emptyItem => "field item level needs a delta or a property name"

end Failure

/-- Why a text cannot stand for a part of an expression. -/
inductive NameFault where
  | empty
  | colon
  | character
  | noTargets
  | repeated
  deriving DecidableEq

def NameFault.reason : NameFault → String
  | empty => "names may not be empty"
  | colon => "':' only separates entity type and bundle"
  | character => "names may only contain ASCII letters, digits, '_', '.' and '-'"
  | noTargets => "at least one object property must be mapped"
  | repeated => "each object property may be mapped once"

end PropStorage.Expression

namespace PropStorage

open Expression in
/-- Why a text is no expression, or no part of one. -/
inductive GrammarError where
  /-- No token starts at the offset. -/
  | noToken (input : String) (offset : Nat) (fault : Token.Fault)
  /-- The token at the offset does not fit. -/
  | unexpected (input : String) (offset : Nat) (failure : Failure)
  | invalidName (part : Part) (value : String) (fault : NameFault)
  deriving DecidableEq

namespace GrammarError

open Expression

def malformedMessage (input : String) (offset : Nat) (reason : String) : String :=
  "malformed expression " ++ Text.quote input ++ " at character " ++ toString offset ++ ": "
    ++ reason

def message : GrammarError → String
  | noToken input offset fault => malformedMessage input offset fault.reason
  | unexpected input offset failure => malformedMessage input offset failure.reason
  | invalidName part value fault =>
    "invalid " ++ part.label ++ " " ++ Text.quote value ++ ": " ++ fault.reason

/-- The offset and the reason, for a text that is no expression. -/
def position? : GrammarError → Option (Nat × String)
  | noToken _ offset fault => some (offset, fault.reason)
  | unexpected _ offset failure => some (offset, failure.reason)
  | invalidName .. => none

end GrammarError

end PropStorage
