import PropStorage.Toml.Scalar
import PropStorage.Toml.Table
import PropStorage.Toml.Token

/-!
# Reading TOML

`Toml.read?` reads the value of a document: comments, tables and arrays of tables, dotted and quoted
keys, texts of one line or several, integers, fractions, truth values, dates and times, arrays and
inline tables. The order of keys is kept. It goes through the tokens once, with the containers that
are still open on a stack. At most 79 containers may be open at a time, and a key has at most 79
parts.
-/

namespace PropStorage.Toml

/-- The largest number of arrays and inline tables that may be open at a time. -/
def maxDepth : Nat := 79

/-- The largest number of parts of a key. -/
def maxKeyParts : Nat := 79

/-- A key of which some parts have been read; they stand in reverse. -/
structure KeyReading where
  parts : List String
  /-- Whether a part has to follow: at the start, and after a dot. -/
  expectsPart : Bool

namespace KeyReading

def start : KeyReading := ⟨[], true⟩

def addPart (k : KeyReading) (part : String) : Option KeyReading :=
  if k.expectsPart then some ⟨part :: k.parts, false⟩ else none

def addDot (k : KeyReading) : Option KeyReading :=
  if k.expectsPart then none else some ⟨k.parts, true⟩

/-- Whether a character may stand in a key without quotes. -/
def isKeyChar (c : Char) : Bool := c.isAlphanum || c = '-' || c = '_'

/-- One piece of a bare run between two dots, which may be empty at the ends of the run. -/
def addPiece (k : KeyReading) (piece : String) : Option KeyReading :=
  if piece.isEmpty then some k
  else if piece.toList.all isKeyChar then k.addPart piece
  else none

/-- The pieces of a bare run, which dots separate. -/
def addPieces (k : KeyReading) : List String → Option KeyReading
  | [] => some k
  | [piece] => k.addPiece piece
  | piece :: rest => do
    let k ← k.addPiece piece
    let k ← k.addDot
    addPieces k rest

/-- One more token of the key. -/
def add (k : KeyReading) : Token → Option KeyReading
  | .text s => k.addPart s
  | .bare run => k.addPieces (run.splitOn ".")
  | _ => none

/-- The key, if it is complete and not too long. -/
def finish? (k : KeyReading) : Option (List String) :=
  if k.expectsPart || maxKeyParts < k.parts.length then none else some k.parts.reverse

end KeyReading

/-- A container that is still open, around the value being read. -/
inductive Frame where
  /-- The items so far, in reverse. -/
  | array (done : List Json)
  /-- The entries so far, and the key of the value being read. -/
  | table (done : Entries Node) (key : List String)

/-- Where a value stands within a document: the key of the pair that it belongs to, and what is open
around it. -/
structure Place where
  document : Document
  key : List String
  frames : List Frame

/-- Whether so many more containers may be opened here, one within the other. -/
def Place.admits (place : Place) (count : Nat) : Bool := place.frames.length + count ≤ maxDepth

/-- What may come next. -/
inductive Reading where
  /-- A header, a pair, or a new line. -/
  | line (d : Document)
  /-- A new line. -/
  | lineEnd (d : Document)
  /-- More of the key in a header, or the end of the header. -/
  | header (d : Document) (isItem : Bool) (key : KeyReading)
  /-- More of the key of a pair, or an equals sign. -/
  | key (d : Document) (key : KeyReading)
  /-- A value. -/
  | value (place : Place)
  /-- An item of an array, or its end. -/
  | item (done : List Json) (place : Place)
  /-- A comma, or the end of the array. -/
  | afterItem (done : List Json) (place : Place)
  /-- A key of an inline table, or its end. -/
  | firstKey (place : Place)
  /-- More of a key of an inline table, or an equals sign. -/
  | inlineKey (done : Entries Node) (key : KeyReading) (place : Place)
  /-- A comma, or the end of the inline table. -/
  | afterPair (done : Entries Node) (place : Place)

namespace Reading

/-- The state after a complete value. -/
def complete (v : Json) (place : Place) : Option Reading :=
  match place.frames with
  | [] => (place.document.put place.key v).map lineEnd
  | .array done :: frames => some (afterItem (v :: done) { place with frames := frames })
  | .table done path :: frames => do
    let done ← Toml.put path v done
    some (afterPair done { place with frames := frames })

/-- The state after the first token of a value. -/
def begin (place : Place) : Token → Option Reading
  | .text s => complete (.string s) place
  | .block s => complete (.string s) place
  | .bare run => (scalar? run).bind fun v => complete v place
  | .openBracket => if place.admits 1 then some (item [] place) else none
  | .openBrackets =>
    if place.admits 2 then some (item [] { place with frames := .array [] :: place.frames })
    else none
  | .openBrace => if place.admits 1 then some (firstKey place) else none
  | _ => none

/-- The state after the bracket that ends an array. -/
def closeArray : Reading → Option Reading
  | item done place => complete (.array done.reverse) place
  | afterItem done place => complete (.array done.reverse) place
  | _ => none

/-- The state after one more token. -/
def step : Reading → Token → Option Reading
  | line d, .newline => some (line d)
  | line d, .openBracket => some (header d false .start)
  | line d, .openBrackets => some (header d true .start)
  | line d, token => (KeyReading.start.add token).map (key d)
  | lineEnd d, .newline => some (line d)
  | header d false k, .closeBracket => (k.finish?.bind d.startTable).map lineEnd
  | header d true k, .closeBrackets => (k.finish?.bind d.startItem).map lineEnd
  | header d isItem k, token => (k.add token).map (header d isItem)
  | key d k, .equals => k.finish?.map fun path => value ⟨d, path, []⟩
  | key d k, token => (k.add token).map (key d)
  | value place, token => begin place token
  | item done place, .newline => some (item done place)
  | item done place, .closeBracket => closeArray (item done place)
  | item done place, .closeBrackets => (closeArray (item done place)).bind closeArray
  | item done place, token => begin { place with frames := .array done :: place.frames } token
  | afterItem done place, .newline => some (afterItem done place)
  | afterItem done place, .comma => some (item done place)
  | afterItem done place, .closeBracket => closeArray (afterItem done place)
  | afterItem done place, .closeBrackets => (closeArray (afterItem done place)).bind closeArray
  | firstKey place, .closeBrace => complete (.object []) place
  | firstKey place, token => (KeyReading.start.add token).map fun k => inlineKey [] k place
  | inlineKey done k place, .equals =>
    k.finish?.map fun path => value { place with frames := .table done path :: place.frames }
  | inlineKey done k place, token => (k.add token).map fun k => inlineKey done k place
  | afterPair done place, .comma => some (inlineKey done .start place)
  | afterPair done place, .closeBrace => complete (.object (Node.entriesToJson done)) place
  | _, _ => none

/-- The state after the given tokens. -/
def run (state : Reading) : List Token → Option Reading
  | [] => some state
  | token :: tokens => (step state token).bind fun next => run next tokens

/-- The value of a document that may end here. -/
def finish? : Reading → Option Json
  | line d => d.toJson?
  | lineEnd d => d.toJson?
  | _ => none

end Reading

/-- The value of a document. -/
def read? (text : String) : Option Json := do
  let tokens ← Token.scan text
  let state ← (Reading.line .empty).run tokens
  state.finish?

/-- The value of a document, or why there is none. -/
def read (text : String) : Except String Json :=
  match read? text with
  | some v => .ok v
  | none => .error "the text is not TOML"

end PropStorage.Toml
