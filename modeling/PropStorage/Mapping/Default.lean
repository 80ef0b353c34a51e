import PropStorage.Json.Printer
import PropStorage.Mapping.Draft
import PropStorage.Shape.Definitions

/-!
# Default mappings

How a shape is stored if nothing else is said: one rule for each type. Objects have no default of
their own, except for the two definitions that are always known. An array is stored like its items,
with a cardinality; an array of arrays is not stored.
-/

namespace PropStorage

open Expression (ObjectProps)

/-- A mapping that a rule proposes. -/
structure DefaultMapping where
  expression : Expression
  widget : String
  cardinality : Option Cardinality
  storageSettings : Option FieldSettings
  instanceSettings : Option FieldSettings

namespace DefaultMapping

/-- A mapping without cardinality and settings. -/
def plain (expression : Expression) (widget : String) : DefaultMapping :=
  ⟨expression, widget, none, none, none⟩

/-- A mapping to one property of a field type. -/
def toProp (fieldType prop : Name) (widget : String) : DefaultMapping :=
  plain (.fieldType ⟨fieldType, prop⟩) widget

/-- A mapping to the property `value` of a field type. -/
def toValue (fieldType : Name) (widget : String) : DefaultMapping :=
  toProp fieldType ⟨"value", by decide⟩ widget

def withStorageSetting (m : DefaultMapping) (name : String) (value : Json) : DefaultMapping :=
  { m with storageSettings := some ((m.storageSettings.getD ∅).insert name value) }

def withInstanceSetting (m : DefaultMapping) (name : String) (value : Json) : DefaultMapping :=
  { m with instanceSettings := some ((m.instanceSettings.getD ∅).insert name value) }

def toDraft (m : DefaultMapping) : Draft :=
  ⟨some m.expression, some m.widget, m.cardinality, m.storageSettings, m.instanceSettings⟩

end DefaultMapping

namespace Shape

open DefaultMapping

/-- The text that stands for an allowed value. -/
def valueLabel : Json → String
  | .string s => s
  | v => v.compact

/-- Values to choose from, each with its label. -/
def allowedValues (values : List Json) : Json :=
  .array (values.map fun v => .object [("value", v), ("label", .string (valueLabel v))])

/-- A choice among the values of an enumeration. -/
def choice (fieldType : Name) (values : List Json) : DefaultMapping :=
  (toValue fieldType "options_select").withStorageSetting "allowed_values" (allowedValues values)

def dateMapping (kind : String) : DefaultMapping :=
  (toValue ⟨"datetime", by decide⟩ "datetime_default").withStorageSetting "datetime_type"
    (.string kind)

def linkMapping : DefaultMapping :=
  (toProp ⟨"link", by decide⟩ ⟨"uri", by decide⟩ "link_default").withInstanceSetting "title"
    (.string "disabled")

/-- A mapping to one line of text, perhaps of limited length. -/
def lineMapping (s : Shape) : DefaultMapping :=
  let mapping := toValue ⟨"string", by decide⟩ "string_textfield"
  match (s.keyword? "maxLength").bind Json.natural? with
  | some length => mapping.withStorageSetting "max_length" (.natural length)
  | none => mapping

/-- The mapping of a text without a format of its own. -/
def textMapping (s : Shape) : DefaultMapping :=
  if s.contentMediaType? = some "text/html" then
    toValue ⟨"text_long", by decide⟩ "text_textarea"
  else s.lineMapping

/-- Whether the shape holds the address of an image. Such an address is stored only as a part of the
whole image. -/
def isImageAddress (s : Shape) : Bool := s.contentMediaType?.any (·.startsWith "image/")

/-- The mapping of a text with the given format. -/
def formatMapping? (s : Shape) (format : String) : Option DefaultMapping :=
  match format with
  | "date-time" => some (dateMapping "datetime")
  | "date" => some (dateMapping "date")
  | "uri" => some (toValue ⟨"uri", by decide⟩ "uri")
  | "iri" => some (toValue ⟨"uri", by decide⟩ "uri")
  | "uri-reference" => if s.isImageAddress then none else some linkMapping
  | "iri-reference" => if s.isImageAddress then none else some linkMapping
  | "email" => some (toValue ⟨"email", by decide⟩ "email_default")
  | "idn-email" => some (toValue ⟨"email", by decide⟩ "email_default")
  | _ => some s.textMapping

def stringMapping? (s : Shape) : Option DefaultMapping :=
  match s.enum? with
  | some values => some (choice ⟨"list_string", by decide⟩ values)
  | none =>
    match s.format? with
    | some format => s.formatMapping? format
    | none => some s.textMapping

/-- A number, within the bounds of the shape. -/
def numberMapping (s : Shape) (fieldType : Name) : DefaultMapping :=
  let mapping := toValue fieldType "number"
  let mapping := match s.keyword? "minimum" with
    | some bound => mapping.withInstanceSetting "min" bound
    | none => mapping
  match s.keyword? "maximum" with
  | some bound => mapping.withInstanceSetting "max" bound
  | none => mapping

/-- A number, or a choice among numbers. -/
def numericMapping (s : Shape) (fieldType listType : Name) : DefaultMapping :=
  match s.enum? with
  | some values => choice listType values
  | none => s.numberMapping fieldType

/-- The expression of an image: the address of the file, the text, and the size. -/
def imageExpression : ObjectProps where
  fieldType := ⟨"image", by decide⟩
  targets := [
    (⟨"src", by decide⟩, .follow ⟨"entity", by decide⟩
      ⟨⟨⟨"file", by decide⟩, none⟩, ⟨"uri", by decide⟩⟩ ⟨"url", by decide⟩),
    (⟨"alt", by decide⟩, .prop ⟨"alt", by decide⟩),
    (⟨"width", by decide⟩, .prop ⟨"width", by decide⟩),
    (⟨"height", by decide⟩, .prop ⟨"height", by decide⟩)]
  nonempty := by simp
  distinct := by decide

/-- The expression of a range of dates. -/
def dateRangeExpression : ObjectProps where
  fieldType := ⟨"daterange", by decide⟩
  targets := [
    (⟨"from", by decide⟩, .prop ⟨"value", by decide⟩),
    (⟨"to", by decide⟩, .prop ⟨"end_value", by decide⟩)]
  nonempty := by simp
  distinct := by decide

def objectMapping? (s : Shape) : Option DefaultMapping :=
  match s.reference? with
  | none => none
  | some uri =>
    if uri = imageUri then some (plain (.object imageExpression) "image_image")
    else if uri = dateRangeUri then
      some ((plain (.object dateRangeExpression) "daterange_default").withStorageSetting
        "datetime_type" (.string "date"))
    else none

/-- The cardinality of an array: its largest number of items, which has to be at least two. -/
def arrayCardinality? (s : Shape) : Option Cardinality :=
  match s.keyword? "maxItems" with
  | none => some .unlimited
  | some bound =>
    match bound.natural? with
    | some n => if 2 ≤ n ∧ n < UInt32.size then some (.limited (UInt32.ofNat n)) else none
    | none => none

mutual

/-- The default mapping of a shape; a bare reference has none. -/
def defaultMapping? : Shape → Option DefaultMapping
  | bare .. => none
  | typed type reference format properties items keywords =>
    let s := typed type reference format properties items keywords
    match type with
    | .string => s.stringMapping?
    | .integer => some (s.numericMapping ⟨"integer", by decide⟩ ⟨"list_integer", by decide⟩)
    | .number => some (s.numericMapping ⟨"float", by decide⟩ ⟨"list_float", by decide⟩)
    | .boolean => some (toValue ⟨"boolean", by decide⟩ "boolean_checkbox")
    | .object => s.objectMapping?
    | .array =>
      match s.arrayCardinality?, itemMapping? items with
      | some cardinality, some mapping =>
        if mapping.cardinality.isSome then none
        else some { mapping with cardinality := some cardinality }
      | _, _ => none

/-- The default mapping of the items of an array. -/
def itemMapping? : Option Shape → Option DefaultMapping
  | none => none
  | some s => defaultMapping? s

end

end Shape

end PropStorage
