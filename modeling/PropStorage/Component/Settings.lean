import PropStorage.Component.Error
import PropStorage.Expression.Parser
import PropStorage.Mapping.Resolver
import PropStorage.Mapping.Snapshot

/-!
# Settings of a component

The settings of a component say for each prop that is stored how it is stored. They are plain data:
expressions stand in their written form. Together with the shapes of the props they give back the
storable shapes.

`ComponentSettings.toJson` is the form that version ids are computed from, and
`ComponentSettings.record` the one that is kept.
-/

namespace PropStorage

/-- How one prop is stored. -/
structure PropSettings where
  /-- The expression, in its written form. -/
  expression : String
  widget : String
  cardinality : Option Cardinality
  storageSettings : Option FieldSettings
  instanceSettings : Option FieldSettings

namespace PropSettings

def ofStorable (s : StorableShape) : PropSettings :=
  ⟨s.expression.print, s.widget, s.cardinality, s.storageSettings, s.instanceSettings⟩

def toJson (s : PropSettings) : Json :=
  .object <|
    ("field_type_prop", .string s.expression) :: ("field_widget", .string s.widget)
      :: Mapping.optionalMembers s.cardinality s.storageSettings s.instanceSettings

/-- The fields of the record, each with its value if it has one. -/
def fields (s : PropSettings) : Entries (Option Json) := [
  ("field_type_prop", some (.string s.expression)),
  ("field_widget", some (.string s.widget)),
  ("cardinality", s.cardinality.map Cardinality.record),
  ("field_storage_settings", s.storageSettings.map FieldSettings.toJson),
  ("field_instance_settings", s.instanceSettings.map FieldSettings.toJson)]

/-- The record of the settings: the fields that have a value. -/
def record (s : PropSettings) : Json :=
  .object (s.fields.filterMap fun f => f.2.map fun v => (f.1, v))

/-- The parts of the settings that have been read so far. -/
structure Parts where
  expression : Option String
  rest : Draft

def recordFormat : RecordFormat Parts where
  fields := [
    .required "field_type_prop" Decoder.string fun e p => { p with expression := some e },
    .required "field_widget" Decoder.string fun w p => { p with rest.widget := some w },
    .nullable "cardinality" Decoder.cardinality fun c p => { p with rest.cardinality := c },
    .nullable "field_storage_settings" Decoder.settings fun s p =>
      { p with rest.storageSettings := s },
    .nullable "field_instance_settings" Decoder.settings fun s p =>
      { p with rest.instanceSettings := s }]
  closed := false

/-- The settings that a value spells. -/
def ofJson : Decoder PropSettings := fun v => do
  let parts ← recordFormat.decode ⟨none, ∅⟩ v
  let expression ← Decoder.present parts.expression
  let widget ← Decoder.present parts.rest.widget
  .ok ⟨expression, widget, parts.rest.cardinality, parts.rest.storageSettings,
    parts.rest.instanceSettings⟩

/-- The expression that the settings hold in written form. -/
def parseExpression (s : PropSettings) : Except GrammarError Expression :=
  Expression.parse s.expression

/-- The storable shape of the prop, given its shape. References are inlined as the resolver does
it. -/
def toStorable (s : PropSettings) (r : Resolver) (prop : String) (shape : Shape) :
    Except SettingsError StorableShape :=
  match s.parseExpression with
  | .error e => .error (.expression prop e)
  | .ok expression =>
    match StorableShape.build shape (r.effective shape) expression s.widget s.cardinality
      s.storageSettings s.instanceSettings with
    | .error e => .error (.invariant prop e)
    | .ok storable => .ok storable

end PropSettings

/-- The settings of all props that are stored. -/
structure ComponentSettings where
  props : SortedMap PropSettings

namespace ComponentSettings

instance : EmptyCollection ComponentSettings := ⟨⟨∅⟩⟩

def isEmpty (s : ComponentSettings) : Bool := s.props.isEmpty

def ofStorables (storables : SortedMap StorableShape) : ComponentSettings :=
  ⟨storables.map .ofStorable⟩

def toJson (s : ComponentSettings) : Json :=
  .object [("props", .object (s.props.map PropSettings.toJson).entries)]

/-- The record of the settings. -/
def record (s : ComponentSettings) : Json :=
  .object [("props", .object (s.props.map PropSettings.record).entries)]

def recordFormat : RecordFormat (Option (SortedMap PropSettings)) where
  fields := [.required "props" (Decoder.map PropSettings.ofJson) fun props _ => some props]
  closed := false

/-- The settings that a value spells. -/
def ofJson : Decoder ComponentSettings := fun v => do
  let props ← recordFormat.decode none v
  mk <$> Decoder.present props

/-- The storable shapes of the props, given their shapes. -/
def toStorables (s : ComponentSettings) (r : Resolver) (shapes : SortedMap Shape) :
    Except SettingsError (SortedMap StorableShape) :=
  s.props.traverse fun prop settings =>
    match shapes.find? prop with
    | some shape => settings.toStorable r prop shape
    | none => .error (.unknownProp prop)

end ComponentSettings

end PropStorage
