import PropStorage.Json.Token

/-!
# Reading JSON

`Json.read?` reads a value from a text: it goes through the tokens once, with the containers that
are still open on a stack. At most 127 containers may be open at a time. Of two members with one
name the first gives the place and the last the value.
-/

namespace PropStorage.Json

/-- A container that is still open, around the value being read. -/
inductive Frame where
  /-- The items so far, in reverse. -/
  | array (done : List Json)
  /-- The members so far, and the name of the one being read. -/
  | object (done : Entries Json) (name : String)

/-- What may come next, and what is open around it. -/
inductive Reading where
  /-- A value. -/
  | value (frames : List Frame)
  /-- A value, or the end of the array that was just opened. -/
  | firstItem (frames : List Frame)
  /-- A name, or the end of the object that was just opened. -/
  | firstName (frames : List Frame)
  /-- A name. -/
  | name (done : Entries Json) (frames : List Frame)
  /-- A colon. -/
  | colon (done : Entries Json) (name : String) (frames : List Frame)
  /-- A comma or the end of the innermost container, of which `last` is the latest value. -/
  | next (last : Json) (inner : Frame) (frames : List Frame)
  /-- Nothing. -/
  | finished (value : Json)

/-- The largest number of containers that may be open at a time. -/
def maxDepth : Nat := 127

namespace Reading

/-- The state after a complete value. -/
def complete (v : Json) : List Frame → Reading
  | [] => finished v
  | frame :: frames => next v frame frames

/-- The state after the first token of a value. -/
def begin (frames : List Frame) : Token → Option Reading
  | .scalar v => some (complete v frames)
  | .openArray => if frames.length < maxDepth then some (firstItem frames) else none
  | .openObject => if frames.length < maxDepth then some (firstName frames) else none
  | _ => none

/-- The state after one more token. -/
def step : Reading → Token → Option Reading
  | value frames, token => begin frames token
  | firstItem frames, .closeArray => some (complete (.array []) frames)
  | firstItem frames, token => begin (.array [] :: frames) token
  | firstName frames, .closeObject => some (complete (.object []) frames)
  | firstName frames, .scalar (.string s) => some (colon [] s frames)
  | name done frames, .scalar (.string s) => some (colon done s frames)
  | colon done s frames, .colon => some (value (.object done s :: frames))
  | next v (.array done) frames, .comma => some (value (.array (v :: done) :: frames))
  | next v (.array done) frames, .closeArray => some (complete (.array (v :: done).reverse) frames)
  | next v (.object done s) frames, .comma => some (name (Entries.insert s v done) frames)
  | next v (.object done s) frames, .closeObject =>
    some (complete (.object (Entries.insert s v done)) frames)
  | _, _ => none

/-- The state after the given tokens. -/
def run (state : Reading) : List Token → Option Reading
  | [] => some state
  | token :: tokens => (step state token).bind fun next => run next tokens

end Reading

/-- The value that a sequence of tokens spells. -/
def ofTokens? (tokens : List Token) : Option Json :=
  match Reading.run (.value []) tokens with
  | some (.finished v) => some v
  | _ => none

/-- The value that a text spells. -/
def read? (text : String) : Option Json := (Token.scan text.toList).bind ofTokens?

/-- The value that a text spells, or why there is none. -/
def read (text : String) : Except String Json :=
  match read? text with
  | some v => .ok v
  | none => .error "the text is not JSON"

end PropStorage.Json
