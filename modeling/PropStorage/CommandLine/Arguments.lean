/-!
# Command line arguments

`CommandLine.read` reads the arguments of the program: options, one of four commands, and the
operand of the command. Options that hold for all commands may stand before the command and after
it; where they stand in both places, the later one counts, but in one place an option stands at most
once.

Arguments are read from left to right, and the first that ends the reading decides: a request for
the version or for help, or a mistake.
-/

namespace PropStorage.CommandLine

/-- How results and errors are written. -/
inductive OutputFormat where
  | text
  | json
  deriving DecidableEq

def OutputFormat.ofName? : String → Option OutputFormat
  | "text" => some text
  | "json" => some json
  | _ => none

inductive Command where
  /-- Describes an expression. -/
  | parse (expression : String)
  /-- Shows the normal form of the shape in a file. -/
  | normalize (file : String)
  /-- Shows how the shape in a file is stored. -/
  | resolve (file : String)
  /-- Shows the version of the component in a file. -/
  | version (file : String) (component : Option String)
  deriving DecidableEq

/-- What the program is asked to do. -/
structure Invocation where
  output : OutputFormat
  /-- Whether to leave out what is not essential. -/
  quiet : Bool
  verbose : Bool
  /-- The path of the configuration, if it is given. -/
  config : Option String
  command : Command
  deriving DecidableEq

/-- A mistake in the arguments. -/
inductive UsageError where
  | unknownOption (argument : String)
  | unexpectedArgument (argument : String)
  | missingValue (option : String)
  | unwantedValue (option : String)
  | invalidValue (option value : String)
  | repeated (option : String)
  | missingCommand
  | missingOperand
  deriving DecidableEq

def UsageError.message : UsageError → String
  | unknownOption argument => "unknown option '" ++ argument ++ "'"
  | unexpectedArgument argument => "unexpected argument '" ++ argument ++ "'"
  | missingValue option => "the option '" ++ option ++ "' needs a value"
  | unwantedValue option => "the option '" ++ option ++ "' takes no value"
  | invalidValue option value => "invalid value '" ++ value ++ "' for '" ++ option ++ "'"
  | repeated option => "the option '" ++ option ++ "' is given twice"
  | missingCommand => "a command is missing"
  | missingOperand => "the operand of the command is missing"

/-- Why the reading of arguments ended early. -/
inductive Stop where
  | version
  | help
  | misuse (error : UsageError)
  deriving DecidableEq

/-- The names of the commands. -/
inductive CommandName where
  | parse
  | normalize
  | resolve
  | version
  deriving DecidableEq

def CommandName.ofName? : String → Option CommandName
  | "parse" => some parse
  | "normalize" => some normalize
  | "resolve" => some resolve
  | "version" => some version
  | _ => none

/-- The options that hold for all commands, as they are given in one place. -/
structure SharedOptions where
  output : Option OutputFormat
  config : Option String
  quiet : Bool
  verbose : Bool
  deriving DecidableEq

def SharedOptions.none : SharedOptions := ⟨.none, .none, false, false⟩

/-- An option that takes a value. -/
inductive ValueOption where
  | output
  | config
  | component
  deriving DecidableEq

def ValueOption.name : ValueOption → String
  | output => "--output"
  | config => "--config"
  | component => "--component"

/-- What has been read of the arguments. -/
structure Reading where
  /-- The options before the command. -/
  before : SharedOptions
  command : Option CommandName
  /-- The options after the command. -/
  after : SharedOptions
  component : Option String
  operand : Option String
  /-- The option whose value comes next. -/
  pending : Option ValueOption
  /-- Whether all further arguments are operands. -/
  operandsOnly : Bool

namespace Reading

def start : Reading := ⟨.none, none, .none, none, none, none, false⟩

def misuse {α : Type} (e : UsageError) : Except Stop α := .error (.misuse e)

/-- The options of the place that is being read. -/
def shared (r : Reading) : SharedOptions := if r.command.isSome then r.after else r.before

/-- Changes the options of the place that is being read. -/
def setShared (r : Reading) (options : SharedOptions) : Reading :=
  if r.command.isSome then { r with after := options } else { r with before := options }

/-- Takes up the value of an option. Neither an option nor the path of a configuration may be
empty. -/
def setValue (r : Reading) (option : ValueOption) (value : String) : Except Stop Reading :=
  let r := { r with pending := none }
  match option with
  | .output =>
    if r.shared.output.isSome then misuse (.repeated option.name)
    else
      match OutputFormat.ofName? value with
      | some format => .ok (r.setShared { r.shared with output := some format })
      | none => misuse (.invalidValue option.name value)
  | .config =>
    if r.shared.config.isSome then misuse (.repeated option.name)
    else if value.isEmpty then misuse (.invalidValue option.name value)
    else .ok (r.setShared { r.shared with config := some value })
  | .component =>
    if r.component.isSome then misuse (.repeated option.name)
    else .ok { r with component := some value }

/-- Takes up an option with the value that is attached to it, or waits for the value. -/
def setOption (r : Reading) (option : ValueOption) (attached : Option String) :
    Except Stop Reading :=
  match attached with
  | some value => r.setValue option value
  | none => .ok { r with pending := some option }

def setQuiet (r : Reading) : Except Stop Reading :=
  if r.shared.quiet then misuse (.repeated "--quiet")
  else .ok (r.setShared { r.shared with quiet := true })

def setVerbose (r : Reading) : Except Stop Reading :=
  if r.shared.verbose then misuse (.repeated "--verbose")
  else .ok (r.setShared { r.shared with verbose := true })

/-- Takes up an option with a long name, perhaps with an attached value. -/
def readLong (r : Reading) (argument name : String) (attached : Option String) :
    Except Stop Reading :=
  let bare (next : Except Stop Reading) : Except Stop Reading :=
    if attached.isSome then misuse (.unwantedValue argument) else next
  match name with
  | "output" => r.setOption .output attached
  | "config" => r.setOption .config attached
  | "quiet" => bare r.setQuiet
  | "verbose" => bare r.setVerbose
  | "help" => bare (.error .help)
  | "component" =>
    if r.command = some .version then r.setOption .component attached
    else misuse (.unknownOption argument)
  | "version" =>
    if r.command.isNone then bare (.error .version) else misuse (.unknownOption argument)
  | _ => misuse (.unknownOption argument)

/-- Takes up options with names of one letter. -/
def readLetters (r : Reading) (argument : String) : List Char → Except Stop Reading
  | [] => .ok r
  | c :: rest =>
    if c = 'v' then do
      let r ← r.setVerbose
      readLetters r argument rest
    else if c = 'h' then .error .help
    else if c = 'V' ∧ r.command.isNone then .error .version
    else misuse (.unknownOption argument)

/-- Takes up an operand: the command first, and then its only operand. The name of a file is not
empty. -/
def readOperand (r : Reading) (argument : String) : Except Stop Reading :=
  match r.command with
  | none => misuse (.unexpectedArgument argument)
  | some command =>
    if r.operand.isSome then misuse (.unexpectedArgument argument)
    else if argument.isEmpty ∧ command ≠ .parse then misuse (.invalidValue "the file" argument)
    else .ok { r with operand := some argument }

/-- The name of a long option and the value that is attached to it by an equals sign. -/
def splitLong (chars : List Char) : String × Option String :=
  match chars.span (· ≠ '=') with
  | (name, _ :: value) => (String.ofList name, some (String.ofList value))
  | (name, []) => (String.ofList name, none)

/-- Takes up an argument that may be an option. -/
def readOptionOrOperand (r : Reading) (argument : String) : Except Stop Reading :=
  match argument.toList, r.pending with
  | '-' :: _ :: _, some option => misuse (.missingValue option.name)
  | ['-', '-'], none => .ok { r with operandsOnly := true }
  | '-' :: '-' :: long, none =>
    let (name, attached) := splitLong long
    r.readLong argument name attached
  | '-' :: c :: more, none => r.readLetters argument (c :: more)
  | _, some option => r.setValue option argument
  | _, none =>
    match r.command, CommandName.ofName? argument with
    | none, some command => .ok { r with command := some command }
    | _, _ => r.readOperand argument

/-- Takes up one argument. -/
def read (r : Reading) (argument : String) : Except Stop Reading :=
  if r.operandsOnly then r.readOperand argument else r.readOptionOrOperand argument

/-- Why a request for help ends the reading: it may name one command. -/
def helpWith : List String → Stop
  | [] => .help
  | [name] =>
    if name = "help" ∨ (CommandName.ofName? name).isSome then .help
    else .misuse (.unexpectedArgument name)
  | _ :: name :: _ => .misuse (.unexpectedArgument name)

/-- Takes up all arguments. -/
def readAll (r : Reading) : List String → Except Stop Reading
  | [] => .ok r
  | argument :: rest =>
    if argument = "help" ∧ r.command.isNone ∧ r.pending.isNone ∧ !r.operandsOnly then
      .error (helpWith rest)
    else do
      let r ← r.read argument
      readAll r rest

/-- The command with its operand. -/
def finishCommand (r : Reading) : CommandName → String → Command
  | .parse, expression => .parse expression
  | .normalize, file => .normalize file
  | .resolve, file => .resolve file
  | .version, file => .version file r.component

/-- The invocation that has been read. -/
def finish (r : Reading) : Except Stop Invocation :=
  match r.pending, r.command, r.operand with
  | some option, _, _ => misuse (.missingValue option.name)
  | none, none, _ => misuse .missingCommand
  | none, some _, none => misuse .missingOperand
  | none, some command, some operand =>
    .ok {
      output := (r.after.output <|> r.before.output).getD .text
      quiet := r.before.quiet || r.after.quiet
      verbose := r.before.verbose || r.after.verbose
      config := r.after.config <|> r.before.config
      command := r.finishCommand command operand }

end Reading

/-- The invocation that the arguments spell. -/
def read (arguments : List String) : Except Stop Invocation := do
  let r ← Reading.start.readAll arguments
  r.finish

end PropStorage.CommandLine
