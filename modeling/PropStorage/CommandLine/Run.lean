import PropStorage.CommandLine.Arguments
import PropStorage.Config
import PropStorage.Expression.Description
import PropStorage.Json.Reader
import PropStorage.Store.Authoring
import PropStorage.Store.Tables

/-!
# Running commands

What the program prints and with which code it exits, given its arguments and the files that it may
read. A command prints its result and may still complain afterwards; every complaint ends in exit
code 1, and a mistake in the arguments in exit code 2.

How the text of a file is read as JSON or TOML is left open (`Readers`); a run of the program reads
with `Json.read` and `Toml.read`.
-/

namespace PropStorage.CommandLine

/-- What stands under a path. -/
inductive FileContent where
  /-- No file. -/
  | absent (reason : String)
  /-- A file that is no text. -/
  | unreadable (reason : String)
  | text (content : String)

/-- What stands under each path. -/
abbrev Files := String → FileContent

/-- The result of a run. -/
structure Outcome where
  exitCode : UInt32
  stdout : String
  stderr : String

/-- What a command has to say. -/
structure Reply where
  /-- The texts to print, each with a line feed after it. -/
  printed : List String
  complaint : Option String

namespace Reply

def print (texts : List String) : Reply := ⟨texts, none⟩

def complain (message : String) : Reply := ⟨[], some message⟩

/-- The reply of the next step, or the complaint about this one. -/
def andThen {α : Type} : Except String α → (α → Reply) → Reply
  | .ok a, next => next a
  | .error message, _ => complain message

end Reply

/-! ## Reading files -/

/-- How texts are read: the value of each, or why it has none. -/
structure Readers where
  json : String → Except String Json
  toml : String → Except String Json

/-- The readers of the program. -/
def Readers.standard : Readers := ⟨Json.read, Toml.read⟩

/-- The file that holds the configuration, unless another is named. -/
def defaultConfigFile : String := "propshape.toml"

def readConfigText (readers : Readers) (path content : String) : Except String Config :=
  match Config.read content readers.toml with
  | .ok config => .ok config
  | .error e => .error ("error in config '" ++ path ++ "': " ++ e.message)

def configUnreadable (path reason : String) : Except String Config :=
  .error ("error reading config '" ++ path ++ "': " ++ reason)

/-- The configuration under the given path, or else in the default file, or else the empty one. -/
def loadConfig (readers : Readers) (files : Files) : Option String → Except String Config
  | some path =>
    match files path with
    | .text content => readConfigText readers path content
    | .absent reason => configUnreadable path reason
    | .unreadable reason => configUnreadable path reason
  | none =>
    match files defaultConfigFile with
    | .text content => readConfigText readers defaultConfigFile content
    | .absent _ => .ok .empty
    | .unreadable reason => configUnreadable defaultConfigFile reason

/-- The JSON value in a file. -/
def readJson (readers : Readers) (files : Files) (path : String) : Except String Json :=
  match files path with
  | .absent reason => .error ("error reading file '" ++ path ++ "': " ++ reason)
  | .unreadable reason => .error ("error reading file '" ++ path ++ "': " ++ reason)
  | .text content =>
    match readers.json content with
    | .ok v => .ok v
    | .error reason => .error ("error parsing JSON in '" ++ path ++ "': " ++ reason)

/-- The shape that the value of a file describes. -/
def readShape (path : String) (value : Json) : Except String Shape :=
  match Shape.ofJson value with
  | .ok s => .ok s
  | .error e => .error (path ++ ": " ++ e.message)

def useResolver (config : Config) : Except String Resolver :=
  match config.resolver with
  | .ok r => .ok r
  | .error e => .error e.message

/-! ## The commands -/

/-- Describes an expression. -/
def parseReply (output : OutputFormat) (quiet : Bool) (expression : String) : Reply :=
  match Expression.parse expression with
  | .error e => .complain e.message
  | .ok e =>
    let members := e.descriptionMembers
      ++ [("canonical", .string e.print), ("field_type_expression", .bool e.isFieldTypeExpression)]
    match output with
    | .json => .print [(Json.object members).pretty]
    | .text =>
      let isDetail (member : String × Json) : Bool :=
        member.1 ≠ "kind" && member.1 ≠ "canonical" &&
          match member.2 with
          | .null => false
          | _ => true
      let details := (members.filter isDetail).map fun (name, v) =>
        "  " ++ name ++ ": " ++ v.compact
      .print ((e.kind ++ ": " ++ e.print) :: if quiet then [] else details)

/-- Shows the normal form of a shape, and its identity key. -/
def normalizeReply (output : OutputFormat) (quiet : Bool) (path : String) (value : Json) : Reply :=
  .andThen (readShape path value) fun s =>
    match output with
    | .json =>
      .print [(Json.object [("shape", s.toJson), ("dedup_key", .string s.identityKey)]).pretty]
    | .text => .print (s.toJson.pretty :: if quiet then [] else ["dedup key: " ++ s.identityKey])

/-- A line for each part of the settings of a prop. -/
def settingsLines (quiet : Bool) (s : PropSettings) : List String :=
  ["field type prop: " ++ s.expression, "field widget: " ++ s.widget]
    ++ (s.cardinality.map fun c => "cardinality: " ++ c.text).toList
    ++ (if quiet then []
      else
        (s.storageSettings.map fun f => "field storage settings: " ++ f.toJson.compact).toList
          ++ (s.instanceSettings.map fun f =>
            "field instance settings: " ++ f.toJson.compact).toList)

/-- Shows how a shape is stored. -/
def storableReply (output : OutputFormat) (quiet : Bool) (transforms : WidgetTransforms) :
    Option StorableShape → Reply
  | none =>
    match output with
    | .json => .print [(Json.object [("storable", .null)]).pretty]
    | .text => .print ["no storable mapping"]
  | some storable =>
    let settings := PropSettings.ofStorable storable
    let printed := match output with
      | .json => [(Json.object [("storable", settings.record)]).pretty]
      | .text => settingsLines quiet settings
    match transforms.check storable with
    | .ok () => .print printed
    | .error missing => ⟨printed, some missing.message⟩

/-- Shows how the shape in a file is stored. -/
def resolveReply (output : OutputFormat) (quiet : Bool) (config : Config) (path : String)
    (value : Json) : Reply :=
  .andThen (readShape path value) fun s =>
    .andThen (useResolver config) fun r =>
      match r.resolve s with
      | .error e => .complain ("invariant violation: " ++ e.message)
      | .ok storable => storableReply output quiet config.transforms storable

/-- The part of a path after its last slash, if it names a file. -/
def fileName? (path : String) : Option String :=
  match ((path.splitOn "/").filter fun part => part ≠ "" && part ≠ ".").getLast? with
  | some ".." => none
  | name => name

/-- The name of a file without what follows the last dot; a dot at the start does not count. -/
def fileStem (name : String) : String :=
  match (name.splitOn ".").dropLast with
  | [] => name
  | [""] => name
  | parts => ".".intercalate parts

/-- The name of a component that is not named otherwise. -/
def componentName (path : String) : String := ((fileName? path).map fileStem).getD "component"

/-- The first complaint about a widget without transforms. -/
def missingTransform? (transforms : WidgetTransforms) : Entries StorableShape → Option String
  | [] => none
  | (prop, storable) :: rest =>
    match transforms.check storable with
    | .ok () => missingTransform? transforms rest
    | .error missing => some (aboutProp prop missing.message)

/-- Shows a stored version of a component. -/
def storedReply (output : OutputFormat) (quiet : Bool) (unbound : List String)
    (v : StoredVersion) : Reply :=
  match output with
  | .json =>
    .print [(Json.object [
      ("component_id", .string v.component), ("version_id", .string v.versionId),
      ("settings", v.settings.record), ("unbound_props", .array (unbound.map .string))]).pretty]
  | .text =>
    .print ([v.component ++ "@" ++ v.versionId, v.settings.record.pretty]
      ++ if quiet || unbound.isEmpty then [] else ["unbound props: " ++ ", ".intercalate unbound])

def readSource (path : String) (value : Json) : Except String ComponentSource :=
  match ComponentSource.ofJson value with
  | .ok source => .ok source
  | .error e =>
    .error ("'" ++ path
      ++ "' is not a component source (\x7b \"props\": \x7b name: shape \x7d \x7d): "
      ++ e.message?.getD "the value has another form")

/-- Shows the version of the component in a file. -/
def versionReply (output : OutputFormat) (quiet : Bool) (config : Config)
    (path component : String) (value : Json) : Reply :=
  .andThen (readSource path value) fun source =>
    .andThen (useResolver config) fun r =>
      match source.resolve r with
      | .error e => .complain e.message
      | .ok resolved =>
        match missingTransform? config.transforms resolved.storables.entries with
        | some message => .complain message
        | none =>
          match (Tables.memory.storeVersion component resolved ∅).1 with
          | .error e => .complain e.message
          | .ok stored => storedReply output quiet resolved.unbound stored

/-- What a command has to say. -/
def Invocation.reply (i : Invocation) (readers : Readers) (files : Files) : Reply :=
  let withValue (path : String) (next : Config → Json → Reply) : Reply :=
    .andThen (loadConfig readers files i.config) fun config =>
      .andThen (readJson readers files path) fun value => next config value
  match i.command with
  | .parse expression => parseReply i.output i.quiet expression
  | .normalize file => withValue file fun _ => normalizeReply i.output i.quiet file
  | .resolve file => withValue file fun config => resolveReply i.output i.quiet config file
  | .version file component =>
    withValue file fun config =>
      versionReply i.output i.quiet config file (component.getD (componentName file))

/-- The complaint as it is written. -/
def writeComplaint (output : OutputFormat) (quiet : Bool) (message : String) : String :=
  if quiet then ""
  else
    match output with
    | .text => message ++ "\n"
    | .json => (Json.object [("error", .string message)]).compact ++ "\n"

/-- The outcome of a reply. -/
def Reply.outcome (output : OutputFormat) (quiet : Bool) (r : Reply) : Outcome where
  exitCode := if r.complaint.isSome then 1 else 0
  stdout := String.join (r.printed.map (· ++ "\n"))
  stderr := (r.complaint.map (writeComplaint output quiet)).getD ""

/-- The name and version of the program. -/
def versionLine : String := "propshape 0.1.0\n"

/-- How the program is used. -/
def usage : String := "\n".intercalate [
  "usage: propshape [options] <command> <operand>",
  "",
  "commands:",
  "  parse <expression>   describe a prop expression",
  "  normalize <file>     show the normal form of a shape and its key",
  "  resolve <file>       show how a shape is stored",
  "  version <file>       show the version of a component [--component <id>]",
  "",
  "options:",
  "  --output text|json   how to write results and errors",
  "  --quiet              leave out what is not essential",
  "  -v, --verbose        say more, where there is more to say",
  "  --config <path>      the configuration, instead of propshape.toml",
  "  -h, --help           show this text",
  "  -V, --version        show the version of the program",
  ""]

/-- The outcome of reading arguments that ended early. -/
def Stop.outcome : Stop → Outcome
  | version => ⟨0, versionLine, ""⟩
  | help => ⟨0, usage, ""⟩
  | misuse e => ⟨2, "", "error: " ++ e.message ++ "\n\n" ++ usage⟩

/-- The outcome of a run. -/
def run (arguments : List String) (files : Files) (readers : Readers := .standard) : Outcome :=
  match read arguments with
  | .error stop => stop.outcome
  | .ok i => (i.reply readers files).outcome i.output i.quiet

/-- The paths that a run may read. -/
def Invocation.paths (i : Invocation) : List String :=
  match i.command with
  | .parse _ => []
  | .normalize file => [i.config.getD defaultConfigFile, file]
  | .resolve file => [i.config.getD defaultConfigFile, file]
  | .version file _ => [i.config.getD defaultConfigFile, file]

end PropStorage.CommandLine
