import PropStorage.Json.Canonical
import PropStorage.Shape.Basic
import PropStorage.Shape.Error

/-!
# Shapes of JSON values

`Shape.ofJson` reads a shape from a JSON value and brings it to normal form, so that two ways to
write one shape give the same shape:

* keywords that only inform people are left out;
* a list of one type name is that type;
* `required` is a set: it is sorted by the text of its members, and neighbours that are equal are
  merged;
* the members of objects within keyword values are sorted.

A bare reference keeps its keywords as they are written: they take effect once it is inlined.
-/

namespace PropStorage.Shape

/-- Keywords that only inform people. -/
def informational : List String := ["title", "description", "examples", "meta:enum", "default"]

/-- The members of a typed shape that have a place of their own. -/
def structural : List String := ["type", "$ref", "format", "properties", "items"]

/-- The members that are neither informational nor among the given ones. -/
def keywordsExcept (names : List String) (members : Entries Json) : SortedMap Json :=
  .ofEntries (members.filter fun m => !informational.contains m.1 && !names.contains m.1)

/-- The keyword `name`, which has to be a string if it is there. -/
def stringKeyword (path name : String) (members : Entries Json) :
    Except ShapeError (Option String) :=
  match members.find? name with
  | none => .ok none
  | some (.string s) => .ok (some s)
  | some value => .error (.notAString path name value)

/-- The type of the given name. -/
def readTypeName (path name : String) : Except ShapeError SchemaType :=
  match SchemaType.ofName? name with
  | some type => .ok type
  | none => .error (.unknownType path name)

/-- The type that a value names, perhaps as the one item of a list. -/
def readType (path : String) : Json → Except ShapeError SchemaType
  | .string name => readTypeName path name
  | .array [.string name] => readTypeName path name
  | .array items => .error (.typeList path (.array items))
  | value => .error (.typeValue path value)

/-- Leaves out each item that is equal to the last one kept. -/
def mergeRepeatsAfter (last : Json) : List Json → List Json
  | [] => [last]
  | item :: items =>
    if last.equiv item then mergeRepeatsAfter last items else last :: mergeRepeatsAfter item items

/-- Keeps one of each run of equal neighbours, the first. -/
def mergeRepeats : List Json → List Json
  | [] => []
  | item :: items => mergeRepeatsAfter item items

/-- The items sorted by their text, without equal neighbours. -/
def normalRequired (items : List Json) : List Json :=
  mergeRepeats (items.mergeSort fun a b => a.compact ≤ b.compact)

/-- The normal form of the value of a keyword. -/
def normalKeyword (name : String) (value : Json) : Json :=
  match value with
  | .array items =>
    if name = "required" then Json.sortMembers (.array (normalRequired items))
    else Json.sortMembers value
  | _ => Json.sortMembers value

/-- The keywords of a typed shape in normal form. -/
def normalKeywords (members : Entries Json) : SortedMap Json :=
  .ofEntries ((keywordsExcept structural members).entries.map fun m =>
    (m.1, normalKeyword m.1 m.2))

mutual

/-- The shape that a value describes, which stands at `path`. -/
def ofJsonAt (path : String) : Json → Except ShapeError Shape
  | .object members => do
    let reference ← stringKeyword path "$ref" members
    match Entries.find? members "type" with
    | none =>
      match reference with
      | some uri => .ok (.bare uri (keywordsExcept ["$ref"] members))
      | none => .error (.missingType path)
    | some typeValue =>
      let type ← readType path typeValue
      let format ← stringKeyword path "format" members
      let properties ← readProperties path members
      let items ← readItems path members
      .ok (.typed type reference format properties items (normalKeywords members))
  | _ => .error (.notAnObject path)

/-- The properties that the members of a shape declare. -/
def readProperties (path : String) :
    List (String × Json) → Except ShapeError (Option (List (String × Shape)))
  | [] => .ok none
  | (name, value) :: members =>
    if name = "properties" then
      match value with
      | .object properties => some <$> readShapes path properties
      | _ => .error (.propertiesNotAnObject path)
    else readProperties path members

/-- Named shapes, in order. -/
def readShapes (path : String) :
    List (String × Json) → Except ShapeError (List (String × Shape))
  | [] => .ok []
  | (name, value) :: members => do
    let s ← ofJsonAt (path ++ "/properties/" ++ name) value
    let rest ← readShapes path members
    .ok ((name, s) :: rest)

/-- The shape of the items that the members of a shape declare. -/
def readItems (path : String) : List (String × Json) → Except ShapeError (Option Shape)
  | [] => .ok none
  | (name, value) :: members =>
    if name = "items" then
      match value with
      | .object _ => some <$> ofJsonAt (path ++ "/items") value
      | _ => .error (.itemsNotAnObject path)
    else readItems path members

end

/-- The shape that a value describes. -/
def ofJson (value : Json) : Except ShapeError Shape := ofJsonAt "#" value

end PropStorage.Shape
