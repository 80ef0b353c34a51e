import PropStorage.Mapping.Override
import PropStorage.Mapping.Widget
import PropStorage.Toml.Reader

/-!
# Configuration

A configuration adds definitions, overrides and transforms of widgets to what is built in. It is
written in TOML, in the tables `definitions`, `alter` and `widget_transforms`. Definitions are
checked as soon as a configuration is read. How TOML is read is left open: `Toml.read` is what
stands for it unless another reading is given.
-/

namespace PropStorage

/-- A value to register under a URI. -/
structure DefinitionEntry where
  uri : String
  schema : Json

structure Config where
  definitions : List DefinitionEntry
  overrides : List Override
  widgetTransforms : SortedMap (List String)

/-- Why a text is no configuration. -/
inductive ConfigError where
  | notToml (reason : String)
  /-- The tables have not the form of a configuration. -/
  | form (error : DecodeError)
  | definition (uri : String) (error : ShapeError)

def ConfigError.message : ConfigError → String
  | notToml reason => reason
  | form error => error.message?.getD "the tables do not form a configuration"
  | definition uri error => "definition '" ++ uri ++ "': " ++ error.message

namespace DefinitionEntry

/-- The parts of an entry that have been read so far. -/
structure Parts where
  uri : Option String
  schema : Option Json

def recordFormat : RecordFormat Parts where
  fields := [
    .required "uri" Decoder.string fun u p => { p with uri := some u },
    .required "schema" Decoder.json fun s p => { p with schema := some s }]
  closed := true
  moreItems := DataFormat.toml.allowsMoreItems

/-- The entry that a value spells. -/
def ofJson : Decoder DefinitionEntry := fun v => do
  let parts ← recordFormat.decode ⟨none, none⟩ v
  let uri ← Decoder.present parts.uri
  let schema ← Decoder.present parts.schema
  .ok ⟨uri, schema⟩

end DefinitionEntry

namespace Config

/-- The configuration that adds nothing. -/
def empty : Config := ⟨[], [], ∅⟩

def recordFormat : RecordFormat Config where
  fields := [
    .defaulted "definitions" (Decoder.list DefinitionEntry.ofJson) fun d c =>
      { c with definitions := d },
    .defaulted "alter" (Decoder.list (Override.ofJson .toml)) fun o c =>
      { c with overrides := o },
    .defaulted "widget_transforms" (Decoder.map (Decoder.list Decoder.string)) fun t c =>
      { c with widgetTransforms := t }]
  closed := true

/-- Registers entries one after the other. -/
def register (d : Definitions) : List DefinitionEntry → Except ConfigError Definitions
  | [] => .ok d
  | entry :: rest =>
    match d.register entry.uri entry.schema with
    | .ok d => register d rest
    | .error e => .error (.definition entry.uri e)

/-- The built-in definitions and those of the configuration. -/
def allDefinitions (c : Config) : Except ConfigError Definitions := register .builtins c.definitions

/-- The resolver with all definitions and overrides. -/
def resolver (c : Config) : Except ConfigError Resolver := do
  let definitions ← c.allDefinitions
  .ok ⟨definitions, c.overrides.map Override.toAlteration⟩

/-- The built-in transforms and those of the configuration. -/
def transforms (c : Config) : WidgetTransforms :=
  c.widgetTransforms.entries.foldl (fun t e => t.register e.1 e.2) .builtins

/-- The configuration that a TOML text spells, under a given reading of TOML. -/
def read (text : String) (readToml : String → Except String Json := Toml.read) :
    Except ConfigError Config :=
  match readToml text with
  | .error reason => .error (.notToml reason)
  | .ok v =>
    match recordFormat.decode empty v with
    | .error e => .error (.form e)
    | .ok c => do
      let _ ← c.allDefinitions
      .ok c

end Config

end PropStorage
