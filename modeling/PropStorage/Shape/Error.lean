import PropStorage.Json.Printer

/-!
# Why a value describes no shape

Each error about a value names the place of the shape within the value: `#` is the value itself,
`#/properties/title` a property of it, `#/items` the items of it.
-/

namespace PropStorage

inductive ShapeError where
  | notAnObject (path : String)
  /-- Neither a type nor a reference. -/
  | missingType (path : String)
  | unknownType (path name : String)
  /-- A list in place of a type, other than of one name. -/
  | typeList (path : String) (value : Json)
  /-- Neither a name nor a list in place of a type. -/
  | typeValue (path : String) (value : Json)
  /-- A keyword whose value has to be a string. -/
  | notAString (path keyword : String) (value : Json)
  | propertiesNotAnObject (path : String)
  | itemsNotAnObject (path : String)
  /-- The URI under which a definition was to be registered has not the form of one. -/
  | notADefinitionUri (uri : String)
  /-- A reference to a definition that is not registered. -/
  | unknownReference (uri : String)

namespace ShapeError

def invalidType (path detail : String) : String :=
  "prop shape at '" ++ path ++ "' has an unsupported type declaration: " ++ detail

def invalidKeyword (path keyword detail : String) : String :=
  "prop shape at '" ++ path ++ "' has an invalid '" ++ keyword ++ "' keyword: " ++ detail

def message : ShapeError → String
  | notAnObject path => "prop shape at '" ++ path ++ "' must be a JSON object"
  | missingType path => "prop shape at '" ++ path ++ "' has neither 'type' nor '$ref'"
  | unknownType path name => "prop shape at '" ++ path ++ "' has unknown type '" ++ name ++ "'"
  | typeList path value =>
    invalidType path ("type lists must hold exactly one type name, got " ++ value.compact)
  | typeValue path value => invalidType path ("expected a type name, got " ++ value.compact)
  | notAString path keyword value =>
    invalidKeyword path keyword ("must be a string, got " ++ value.compact)
  | propertiesNotAnObject path =>
    invalidKeyword path "properties" "must be an object of named shapes"
  | itemsNotAnObject path => invalidKeyword path "items" "tuple-form items are not supported"
  | notADefinitionUri uri =>
    invalidKeyword "#" "$ref"
      ("'" ++ uri ++ "' is not a json-schema-definitions://\x7bprovider\x7d/\x7bname\x7d URI")
  | unknownReference uri => "$ref '" ++ uri ++ "' does not point at a known definition"

end ShapeError

end PropStorage
