import PropStorage.Json.Basic
import PropStorage.Text.Hex

/-!
# Tokens of JSON text

`Json.Token.scan` cuts a text into punctuation and scalars, or refuses it. It looks at one character
at a time; what it has seen of an unfinished token is its state (`Json.Token.Partial`).

A string may hold any character from the blank on except the quote and the backslash, which are
escaped. Two `\u` escapes that form a surrogate pair are one character; a lone half is refused.
-/

namespace PropStorage.Json

inductive Token where
  | openArray
  | closeArray
  | openObject
  | closeObject
  | comma
  | colon
  | scalar (value : Json)

namespace Token

/-- An unfinished token. Characters seen so far stand in reverse. -/
inductive Partial where
  | none
  | word (seen : List Char)
  | number (seen : List Char)
  | text (seen : List Char)
  /-- A backslash within a string. -/
  | escape (seen : List Char)
  /-- Within four hexadecimal digits, perhaps the second half of a pair. -/
  | unicode (seen : List Char) (high : Option Nat) (count value : Nat)
  /-- After the first half of a pair. -/
  | high (seen : List Char) (unit : Nat)
  | highEscape (seen : List Char) (unit : Nat)

def isBlank (c : Char) : Bool := c = ' ' || c = '\t' || c = '\n' || c = '\r'

def isNumberChar (c : Char) : Bool :=
  c.isDigit || c = '-' || c = '+' || c = '.' || c = 'e' || c = 'E'

/-- The token that a finished run of letters or number characters spells. -/
def ofRun? : Partial → Option Token
  | .word seen =>
    match String.ofList seen.reverse with
    | "null" => some (scalar .null)
    | "true" => some (scalar (.bool true))
    | "false" => some (scalar (.bool false))
    | _ => Option.none
  | .number seen => (Number.ofLiteral? seen.reverse).map fun n => scalar (.number n)
  | _ => Option.none

/-- The first character of a token. -/
def start (c : Char) : Option (Partial × List Token) :=
  if isBlank c then some (.none, [])
  else if c = '[' then some (.none, [openArray])
  else if c = ']' then some (.none, [closeArray])
  else if c = '{' then some (.none, [openObject])
  else if c = '}' then some (.none, [closeObject])
  else if c = ',' then some (.none, [comma])
  else if c = ':' then some (.none, [colon])
  else if c = '"' then some (.text [], [])
  else if c = '-' || c.isDigit then some (.number [c], [])
  else if c.isLower then some (.word [c], [])
  else Option.none

/-- Ends a run at the character `c`, which starts the next token. -/
def startAfter (run : Partial) (c : Char) : Option (Partial × List Token) := do
  let token ← ofRun? run
  let (next, tokens) ← start c
  some (next, token :: tokens)

/-- The character that an escape letter stands for. -/
def escaped? (c : Char) : Option Char :=
  match c with
  | '"' => some '"'
  | '\\' => some '\\'
  | '/' => some '/'
  | 'b' => some '\x08'
  | 'f' => some '\x0c'
  | 'n' => some '\n'
  | 'r' => some '\r'
  | 't' => some '\t'
  | _ => Option.none

/-- Takes up a code unit that four hexadecimal digits spelled. -/
def takeUnit (seen : List Char) (high : Option Nat) (unit : Nat) : Option Partial :=
  match high with
  | some first =>
    if 0xDC00 ≤ unit ∧ unit ≤ 0xDFFF then
      some (.text (Char.ofNat (0x10000 + (first - 0xD800) * 0x400 + (unit - 0xDC00)) :: seen))
    else Option.none
  | Option.none =>
    if 0xD800 ≤ unit ∧ unit ≤ 0xDBFF then some (.high seen unit)
    else if 0xDC00 ≤ unit ∧ unit ≤ 0xDFFF then Option.none
    else some (.text (Char.ofNat unit :: seen))

/-- One more character: the new state, and the tokens that it finishes. -/
def step (state : Partial) (c : Char) : Option (Partial × List Token) :=
  match state with
  | .none => start c
  | .word seen => if c.isLower then some (.word (c :: seen), []) else startAfter state c
  | .number seen => if isNumberChar c then some (.number (c :: seen), []) else startAfter state c
  | .text seen =>
    if c = '"' then some (.none, [scalar (.string (String.ofList seen.reverse))])
    else if c = '\\' then some (.escape seen, [])
    else if c.toNat < 0x20 then Option.none
    else some (.text (c :: seen), [])
  | .escape seen =>
    if c = 'u' then some (.unicode seen Option.none 0 0, [])
    else (escaped? c).map fun e => (.text (e :: seen), [])
  | .unicode seen high count value => do
    let digit ← Text.hexValue? c
    let value := value * 16 + digit
    if count < 3 then some (.unicode seen high (count + 1) value, [])
    else (takeUnit seen high value).map (·, [])
  | .high seen unit => if c = '\\' then some (.highEscape seen unit, []) else Option.none
  | .highEscape seen unit =>
    if c = 'u' then some (.unicode seen (some unit) 0 0, []) else Option.none

/-- The tokens of the rest of a text, from the given state on. -/
def scanFrom (state : Partial) : List Char → Option (List Token)
  | [] =>
    match state with
    | .none => some []
    | _ => (ofRun? state).map ([·])
  | c :: cs => do
    let (next, tokens) ← step state c
    let rest ← scanFrom next cs
    some (tokens ++ rest)

/-- The tokens of a text. -/
def scan (text : List Char) : Option (List Token) := scanFrom .none text

end Token

end PropStorage.Json
