import PropStorage.Text.Hex
import PropStorage.Toml.DateTime

/-!
# Tokens of TOML text

`Toml.Token.scan` cuts a text into tokens, or refuses it. It looks at one character at a time; what
it has seen of an unfinished token is its state (`Toml.Token.Partial`). Blanks and comments separate
tokens and leave no trace; two brackets that stand next to each other are one token, and so are a
date and the time that a blank separates from it.

A text stands between double quotes, which allow escapes, or between single ones. Three quotes
enclose a text of several lines, a block: a line end right after them is left out, and next to those
that end the block may stand one or two that belong to it.
-/

namespace PropStorage.Toml

inductive Token where
  | newline
  | openBracket
  /-- Two opening brackets next to each other. -/
  | openBrackets
  | closeBracket
  /-- Two closing brackets next to each other. -/
  | closeBrackets
  | openBrace
  | closeBrace
  | comma
  | equals
  /-- A text between quotes. -/
  | text (value : String)
  /-- A text between threefold quotes, which is no key. -/
  | block (value : String)
  /-- A run of other characters: a key, or a number, or a word. -/
  | bare (run : String)
  deriving DecidableEq

namespace Token

/-- How a text is quoted. -/
structure Quoting where
  quote : Char
  /-- Whether the quotes are threefold. -/
  isBlock : Bool

/-- Whether a backslash starts an escape. -/
def Quoting.escapes (q : Quoting) : Bool := q.quote = '"'

/-- An unfinished token. Characters seen so far stand in reverse. -/
inductive Partial where
  | none
  | comment
  /-- A carriage return, which a line feed has to follow; the two are a line end after `before`. -/
  | carriageReturn (before : Partial)
  | openBracket
  | closeBracket
  | bare (seen : List Char)
  /-- A date and a blank, which a time may follow. -/
  | date (seen : List Char)
  /-- Two quotes: an empty text, or the start of a block. -/
  | twoQuotes (quote : Char)
  /-- A block of which nothing has been seen. -/
  | blockStart (quote : Char)
  | text (q : Quoting) (seen : List Char)
  /-- Some quotes within a block, which may be its end. -/
  | quotes (quote : Char) (seen : List Char) (count : Nat)
  | escape (q : Quoting) (seen : List Char)
  /-- Within the hexadecimal digits of a code point, of which some are missing. -/
  | codePoint (q : Quoting) (seen : List Char) (missing value : Nat)
  /-- An escaped line end within a block, and the blanks and line ends around it. -/
  | fold (seen : List Char) (hasLineEnd : Bool)

def isBareChar (c : Char) : Bool :=
  c.isAlphanum || c = '-' || c = '_' || c = '+' || c = '.' || c = ':'

/-- Whether a character may stand in a comment or between quotes. -/
def isPlain (c : Char) : Bool := c = '\t' || (0x20 ≤ c.toNat && c.toNat ≠ 0x7F)

def ofSeen (seen : List Char) : String := String.ofList seen.reverse

/-- The first character of a token. -/
def start (c : Char) : Option (Partial × List Token) :=
  if c = ' ' || c = '\t' then some (.none, [])
  else if c = '\n' then some (.none, [newline])
  else if c = '\r' then some (.carriageReturn .none, [])
  else if c = '#' then some (.comment, [])
  else if c = '[' then some (.openBracket, [])
  else if c = ']' then some (.closeBracket, [])
  else if c = '{' then some (.none, [openBrace])
  else if c = '}' then some (.none, [closeBrace])
  else if c = ',' then some (.none, [comma])
  else if c = '=' then some (.none, [equals])
  else if c = '"' || c = '\'' then some (.text ⟨c, false⟩ [], [])
  else if isBareChar c then some (.bare [c], [])
  else Option.none

/-- Ends a token at the character `c`, which starts the next one. -/
def startAfter (token : Token) (c : Char) : Option (Partial × List Token) :=
  (start c).map fun (state, tokens) => (state, token :: tokens)

/-- The character that an escape letter stands for. -/
def escaped? (c : Char) : Option Char :=
  match c with
  | 'b' => some '\x08'
  | 't' => some '\t'
  | 'n' => some '\n'
  | 'f' => some '\x0c'
  | 'r' => some '\r'
  | '"' => some '"'
  | '\\' => some '\\'
  | _ => Option.none

/-- The number of quotes that enclose a block. -/
def blockQuotes : Nat := 3

/-- The block that `count` quotes end, of which those in excess belong to the block. -/
def endBlock (quote : Char) (seen : List Char) (count : Nat) : Token :=
  block (ofSeen (List.replicate (count - blockQuotes) quote ++ seen))

/-- One more character of a text. -/
def stepText (q : Quoting) (seen : List Char) (c : Char) : Option (Partial × List Token) :=
  if c = q.quote then
    if q.isBlock then some (.quotes q.quote seen 1, [])
    else if seen.isEmpty then some (.twoQuotes q.quote, [])
    else some (.none, [text (ofSeen seen)])
  else if c = '\\' && q.escapes then some (.escape q seen, [])
  else if c = '\n' && q.isBlock then some (.text q (c :: seen), [])
  else if c = '\r' && q.isBlock then some (.carriageReturn (.text q seen), [])
  else if isPlain c then some (.text q (c :: seen), [])
  else Option.none

/-- One more character of an escaped line end. -/
def stepFold (seen : List Char) (hasLineEnd : Bool) (c : Char) :
    Option (Partial × List Token) :=
  if c = ' ' || c = '\t' then some (.fold seen hasLineEnd, [])
  else if c = '\n' then some (.fold seen true, [])
  else if c = '\r' then some (.carriageReturn (.fold seen hasLineEnd), [])
  else if hasLineEnd then stepText ⟨'"', true⟩ seen c
  else Option.none

/-- One more character: the new state, and the tokens that it finishes. -/
def step (state : Partial) (c : Char) : Option (Partial × List Token) :=
  match state with
  | .none => start c
  | .comment =>
    if c = '\n' || c = '\r' then start c else if isPlain c then some (.comment, []) else Option.none
  | .carriageReturn before => if c = '\n' then step before c else Option.none
  | .openBracket => if c = '[' then some (.none, [openBrackets]) else startAfter openBracket c
  | .closeBracket => if c = ']' then some (.none, [closeBrackets]) else startAfter closeBracket c
  | .bare seen =>
    if isBareChar c then some (.bare (c :: seen), [])
    else if c = ' ' && (Date.read? seen.reverse).isSome then some (.date seen, [])
    else startAfter (bare (ofSeen seen)) c
  | .date seen =>
    if c.isDigit then some (.bare (c :: ' ' :: seen), []) else startAfter (bare (ofSeen seen)) c
  | .twoQuotes quote =>
    if c = quote then some (.blockStart quote, []) else startAfter (text "") c
  | .blockStart quote =>
    if c = '\n' then some (.text ⟨quote, true⟩ [], [])
    else if c = '\r' then some (.carriageReturn (.blockStart quote), [])
    else stepText ⟨quote, true⟩ [] c
  | .text q seen => stepText q seen c
  | .quotes quote seen count =>
    if c = quote then
      -- A block ends with at most two quotes of its own.
      if count + 1 < blockQuotes + 2 then some (.quotes quote seen (count + 1), [])
      else some (.none, [endBlock quote seen (count + 1)])
    else if count < blockQuotes then
      stepText ⟨quote, true⟩ (List.replicate count quote ++ seen) c
    else startAfter (endBlock quote seen count) c
  | .escape q seen =>
    if c = 'u' then some (.codePoint q seen 4 0, [])
    else if c = 'U' then some (.codePoint q seen 8 0, [])
    else
      match escaped? c with
      | some e => some (.text q (e :: seen), [])
      | Option.none => if q.isBlock then stepFold seen false c else Option.none
  | .codePoint q seen missing value => do
    let digit ← Text.hexValue? c
    let value := value * 16 + digit
    if missing > 1 then some (.codePoint q seen (missing - 1) value, [])
    else if value.isValidChar then some (.text q (Char.ofNat value :: seen), [])
    else Option.none
  | .fold seen hasLineEnd => stepFold seen hasLineEnd c

/-- The tokens that the end of a text finishes. -/
def last? : Partial → Option (List Token)
  | .none => some []
  | .comment => some []
  | .openBracket => some [openBracket]
  | .closeBracket => some [closeBracket]
  | .bare seen => some [bare (ofSeen seen)]
  | .date seen => some [bare (ofSeen seen)]
  | .twoQuotes _ => some [text ""]
  | .quotes quote seen count =>
    if count < blockQuotes then Option.none else some [endBlock quote seen count]
  | _ => Option.none

/-- The tokens of the rest of a text, from the given state on. -/
def scanFrom (state : Partial) : List Char → Option (List Token)
  | [] => last? state
  | c :: cs => do
    let (next, tokens) ← step state c
    let rest ← scanFrom next cs
    some (tokens ++ rest)

/-- The tokens of a text, which may start with a byte order mark. -/
def scan (s : String) : Option (List Token) :=
  match s.toList with
  | '\ufeff' :: rest => scanFrom .none rest
  | chars => scanFrom .none chars

end Token

end PropStorage.Toml
