import PropStorage.Json.Basic

/-!
# Shapes

A shape describes the values of a prop. It is either *typed*, with the parts that matter for storage
taken apart, or a *bare* reference to a definition, whose other keywords stay as they were written.

`Shape.toJson` writes a shape as JSON. `Shape.equiv` compares two shapes; the order of properties
counts, the order of members within keyword values does not.
-/

namespace PropStorage

/-- The types that a shape can have. -/
inductive SchemaType where
  | string
  | number
  | integer
  | boolean
  | array
  | object
  deriving DecidableEq

namespace SchemaType

def name : SchemaType → String
  | string => "string"
  | number => "number"
  | integer => "integer"
  | boolean => "boolean"
  | array => "array"
  | object => "object"

/-- The type of the given name. -/
def ofName? : String → Option SchemaType
  | "string" => some string
  | "number" => some number
  | "integer" => some integer
  | "boolean" => some boolean
  | "array" => some array
  | "object" => some object
  | _ => none

theorem ofName?_name (t : SchemaType) : ofName? t.name = some t := by cases t <;> rfl

end SchemaType

inductive Shape where
  /-- A reference without a type; the keywords are all other members, as written. -/
  | bare (uri : String) (keywords : SortedMap Json)
  /-- A shape with a type, and perhaps the reference that it was inlined from. The keywords are the
  members that have no place of their own. -/
  | typed (type : SchemaType) (reference format : Option String)
      (properties : Option (List (String × Shape))) (items : Option Shape)
      (keywords : SortedMap Json)

namespace Shape

/-! ## Parts -/

def type? : Shape → Option SchemaType
  | bare .. => none
  | typed type .. => some type

def isArray (s : Shape) : Bool := s.type? = some .array

/-- The definition that the shape refers to, or that it was inlined from. -/
def reference? : Shape → Option String
  | bare uri _ => some uri
  | typed _ reference .. => reference

def format? : Shape → Option String
  | bare .. => none
  | typed _ _ format .. => format

/-- The declared properties in their order. -/
def properties? : Shape → Option (Entries Shape)
  | bare .. => none
  | typed _ _ _ properties .. => properties

def property? (s : Shape) (name : String) : Option Shape :=
  s.properties?.bind fun properties => properties.find? name

/-- The shape of the items of an array. -/
def items? : Shape → Option Shape
  | bare .. => none
  | typed _ _ _ _ items _ => items

def keywords : Shape → SortedMap Json
  | bare _ keywords => keywords
  | typed _ _ _ _ _ keywords => keywords

def keyword? (s : Shape) (name : String) : Option Json := s.keywords.find? name

/-- The values of an enumeration. -/
def enum? (s : Shape) : Option (List Json) := (s.keyword? "enum").bind Json.array?

def contentMediaType? (s : Shape) : Option String :=
  (s.keyword? "contentMediaType").bind Json.string?

/-! ## References that have not been inlined -/

mutual

/-- Whether the shape, or a shape within it, is a bare reference. -/
def hasBareReference : Shape → Bool
  | bare .. => true
  | typed _ _ _ properties items _ =>
    hasBareReferenceInProperties properties || hasBareReferenceInItems items

def hasBareReferenceInProperties : Option (List (String × Shape)) → Bool
  | none => false
  | some properties => hasBareReferenceInList properties

def hasBareReferenceInList : List (String × Shape) → Bool
  | [] => false
  | (_, s) :: properties => hasBareReference s || hasBareReferenceInList properties

def hasBareReferenceInItems : Option Shape → Bool
  | none => false
  | some s => hasBareReference s

end

/-! ## Shapes as JSON -/

/-- All members of a shape but its type, given those that have a place of their own. -/
def restMembers (reference format : Option String) (properties items : Option Json)
    (keywords : SortedMap Json) : Entries Json :=
  let members := keywords.insert? "$ref" (reference.map .string)
  let members := members.insert? "format" (format.map .string)
  ((members.insert? "properties" properties).insert? "items" items).entries

mutual

/-- The members of a shape: the type first, then the others by name. -/
def toMembers : Shape → List (String × Json)
  | bare uri keywords => restMembers (some uri) none none none keywords
  | typed type reference format properties items keywords =>
    ("type", .string type.name)
      :: restMembers reference format (propertiesToJson properties) (itemsToJson items) keywords

def propertiesToJson : Option (List (String × Shape)) → Option Json
  | none => none
  | some properties => some (.object (listToMembers properties))

def listToMembers : List (String × Shape) → List (String × Json)
  | [] => []
  | (name, s) :: properties => (name, .object (toMembers s)) :: listToMembers properties

def itemsToJson : Option Shape → Option Json
  | none => none
  | some s => some (.object (toMembers s))

end

/-- The shape as a JSON object. -/
def toJson (s : Shape) : Json := .object s.toMembers

/-! ## Sameness -/

mutual

/-- Whether two shapes are the same when the order of members within keywords does not count. -/
def equiv : Shape → Shape → Bool
  | bare uri₁ keywords₁, bare uri₂ keywords₂ => uri₁ == uri₂ && Json.equivMaps keywords₁ keywords₂
  | typed type₁ reference₁ format₁ properties₁ items₁ keywords₁,
    typed type₂ reference₂ format₂ properties₂ items₂ keywords₂ =>
    type₁ == type₂ && reference₁ == reference₂ && format₁ == format₂
      && equivProperties properties₁ properties₂ && equivItems items₁ items₂
      && Json.equivMaps keywords₁ keywords₂
  | _, _ => false

def equivProperties : Option (List (String × Shape)) → Option (List (String × Shape)) → Bool
  | none, none => true
  | some ss, some ts => equivLists ss ts
  | _, _ => false

def equivLists : List (String × Shape) → List (String × Shape) → Bool
  | [], [] => true
  | (m, s) :: ss, (n, t) :: ts => m == n && equiv s t && equivLists ss ts
  | _, _ => false

def equivItems : Option Shape → Option Shape → Bool
  | none, none => true
  | some s, some t => equiv s t
  | _, _ => false

end

end Shape

end PropStorage
