import PropStorage.Expression.Parser
import PropStorage.Mapping.Draft
import PropStorage.Mapping.Error
import PropStorage.Shape.Normal

/-!
# Decoding JSON values

A decoder reads a value of some type from a JSON value. It fails in two ways: the JSON value has not
the form that is asked for, or it has the form and the thing that it denotes is refused.

The JSON value may come from a TOML text (`DataFormat`). TOML has no null, so there nothing but
leaving it out makes a field absent.
-/

namespace PropStorage

/-- The format of the text that a JSON value comes from. -/
inductive DataFormat where
  | json
  /-- Here a null is a number without a finite size. -/
  | toml

namespace DataFormat

/-- Whether a value stands for no value. -/
def isAbsent : DataFormat → Json → Bool
  | json, .null => true
  | _, _ => false

/-- Whether a value holds no data: null in JSON, an empty table or array in TOML. -/
def isUnit : DataFormat → Json → Bool
  | json, .null => true
  | toml, .array [] => true
  | toml, .object [] => true
  | _, _ => false

/-- Whether a record that is written as an array may have items after those of its fields. -/
def allowsMoreItems : DataFormat → Bool
  | json => false
  | toml => true

end DataFormat

/-- Why a JSON value could not be decoded. -/
inductive DecodeError where
  /-- The value, or a value within it, has another form. -/
  | mismatch
  | expression (error : GrammarError)
  | shape (error : ShapeError)
  | invariant (error : InvariantError)
  | cardinality (error : CardinalityError)

namespace DecodeError

/-- What is wrong with the thing that the value denotes; nothing to say where the form is wrong. -/
def message? : DecodeError → Option String
  | mismatch => none
  | expression error => some error.message
  | shape error => some error.message
  | invariant error => some error.message
  | cardinality error => some error.message

end DecodeError

/-- Reads a value from a JSON value. -/
abbrev Decoder (α : Type) := Json → Except DecodeError α

namespace Decoder

/-- Changes the error of a result. -/
def mapError {ε α : Type} (f : ε → DecodeError) : Except ε α → Except DecodeError α
  | .ok a => .ok a
  | .error e => .error (f e)

/-- Any value, as it is. -/
def json : Decoder Json := .ok

def string : Decoder String
  | .string s => .ok s
  | _ => .error .mismatch

/-- None for what stands for no value. -/
def option {α : Type} (format : DataFormat) (decode : Decoder α) : Decoder (Option α) := fun v =>
  if format.isAbsent v then .ok none else some <$> decode v

/-- An object, by name. -/
def map {α : Type} (decode : Decoder α) : Decoder (SortedMap α)
  | .object members => SortedMap.ofEntries <$> Entries.traverse (fun _ v => decode v) members
  | _ => .error .mismatch

/-- The items of an array, each read by a decoder, in order. -/
def items {α : Type} (decode : Decoder α) : List Json → Except DecodeError (List α)
  | [] => .ok []
  | v :: rest => do
    let a ← decode v
    let as ← items decode rest
    .ok (a :: as)

def list {α : Type} (decode : Decoder α) : Decoder (List α)
  | .array vs => items decode vs
  | _ => .error .mismatch

/-! ## Values of the domain -/

def settings : Decoder FieldSettings := map json

/-- An expression in its written form. -/
def expression : Decoder Expression
  | .string s => mapError .expression (Expression.parse s)
  | _ => .error .mismatch

def shape : Decoder Shape := fun v => mapError .shape (Shape.ofJson v)

/-- A word, or a signed integer of 64 bits. -/
def cardinality : Decoder Cardinality
  | .string word => mapError .cardinality (Cardinality.ofWord word)
  | .number (.integer i) =>
    if i < Number.signedLimit then mapError .cardinality (Cardinality.ofInt i) else .error .mismatch
  | _ => .error .mismatch

def typeName (name : String) : Except DecodeError SchemaType :=
  match SchemaType.ofName? name with
  | some type => .ok type
  | none => .error .mismatch

/-- The name of a type, perhaps as the one name in an object, with a value that holds no data. -/
def schemaType (format : DataFormat) : Decoder SchemaType
  | .string name => typeName name
  | .object [(name, v)] => if format.isUnit v then typeName name else .error .mismatch
  | _ => .error .mismatch

end Decoder

end PropStorage
