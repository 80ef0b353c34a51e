import PropStorage.Shape.Normal

/-!
# Definitions of shapes

`Definitions` holds values that describe shapes under URIs, so that shapes can refer to them. Only
values that have a normal form are registered, and only under URIs of the form of
`isDefinitionUri`. `Definitions.builtins` holds two: an image and a range of dates.
-/

namespace PropStorage

/-- The scheme of the URIs of definitions. -/
def definitionScheme : String := "json-schema-definitions://"

/-- The characters after the first slash, and those before it. -/
def splitAtSlash (chars : List Char) : Option (List Char × List Char) :=
  match chars.span (· ≠ '/') with
  | (before, _ :: after) => some (before, after)
  | (_, []) => none

/-- Whether a URI has the form of the URI of a definition: the scheme, a provider, a slash and a
name without a slash. -/
def isDefinitionUri (uri : String) : Bool :=
  definitionScheme.toList.isPrefixOf uri.toList &&
    match splitAtSlash (uri.toList.drop definitionScheme.length) with
    | some (provider, name) => !provider.isEmpty && !name.isEmpty && !name.contains '/'
    | none => false

/-- The URI of the definition of an image. -/
def imageUri : String := "json-schema-definitions://propshape/image"

/-- The URI of the definition of a range of dates. -/
def dateRangeUri : String := "json-schema-definitions://propshape/date-range"

/-- Values that describe shapes, each under a URI. -/
structure Definitions where
  bodies : SortedMap Json

namespace Definitions

instance : EmptyCollection Definitions := ⟨⟨∅⟩⟩

/-- The value registered under the URI. -/
def find? (d : Definitions) (uri : String) : Option Json := d.bodies.find? uri

def contains (d : Definitions) (uri : String) : Bool := d.bodies.contains uri

def uris (d : Definitions) : List String := d.bodies.names

/-- Registers a value under a URI, in place of the one registered before. -/
def register (d : Definitions) (uri : String) (body : Json) : Except ShapeError Definitions :=
  if isDefinitionUri uri then do
    let _ ← Shape.ofJson body
    .ok ⟨d.bodies.insert uri body⟩
  else .error (.notADefinitionUri uri)

/-- Registers a value in definitions that are kept as a state. -/
def enter (uri : String) (body : Json) : ExceptT ShapeError (StateM Definitions) Unit := do
  if !isDefinitionUri uri then throw (.notADefinitionUri uri)
  let _ ← MonadExcept.ofExcept (Shape.ofJson body)
  modify fun d => ⟨d.bodies.insert uri body⟩

def typeMember (type : SchemaType) : String × Json := ("type", .string type.name)

def formatMember (format : String) : String × Json := ("format", .string format)

/-- An image: its source and, perhaps, its text and size. -/
def image : Json := .object [
  typeMember .object,
  ("required", .array [.string "src"]),
  ("properties", .object [
    ("src", .object [typeMember .string, formatMember "uri-reference",
      ("contentMediaType", .string "image/*")]),
    ("alt", .object [typeMember .string]),
    ("width", .object [typeMember .integer]),
    ("height", .object [typeMember .integer])])]

/-- A range of dates: its start and, perhaps, its end. -/
def dateRange : Json := .object [
  typeMember .object,
  ("required", .array [.string "from"]),
  ("properties", .object [
    ("from", .object [typeMember .string, formatMember "date"]),
    ("to", .object [typeMember .string, formatMember "date"])])]

/-- The definitions that are always known. -/
def builtins : Definitions := ⟨.ofEntries [(imageUri, image), (dateRangeUri, dateRange)]⟩

end Definitions

end PropStorage
