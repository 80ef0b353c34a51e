import PropStorage.Expression.Basic
import PropStorage.Text.Quoted

/-!
# Tokens of prop expressions

The written form of an expression is a sequence of tokens without blanks: markers, separators, and
words. Each separator is one character with one role; three of them may also be given as the control
character that they depict. `Token.scan` cuts a text into its tokens, `Token.spell` writes them.

Tokens tile the text, so a token starts where the widths of those before it end: `Token.offsets`.
-/

namespace PropStorage.Expression

inductive Token where
  /-- Starts an expression that reaches into structured data. -/
  | structuredData
  /-- Starts an expression that reaches into a component instance. -/
  | component
  | entityLevel
  | fieldLevel
  | itemLevel
  | propertyLevel
  | openBrace
  | closeBrace
  | comma
  /-- Maps an object property to a property. -/
  | useProp
  /-- Maps an object property to a property of a referenced entity. -/
  | followReference
  /-- A run of word characters. -/
  | word (chars : List Char)
  deriving DecidableEq

/-- Why no token starts at a character. -/
inductive Token.Fault where
  /-- A marker is cut short. -/
  | brokenMarker
  | unexpected (c : Char)
  deriving DecidableEq

namespace Token

def Fault.reason : Fault → String
  | brokenMarker => "structured data marker must be followed by U+FE0E"
  | unexpected c => "unexpected character " ++ Text.quoteChar c

/-- The canonical spelling of a token. -/
def spelling : Token → List Char
  | structuredData => ['\u2139', '\ufe0e']
  | component => ['\u2ff2']
  | entityLevel => ['\u241c']
  | fieldLevel => ['\u241d']
  | itemLevel => ['\u241e']
  | propertyLevel => ['\u241f']
  | openBrace => ['{']
  | closeBrace => ['}']
  | comma => [',']
  | useProp => ['\u21a0']
  | followReference => ['\u219d']
  | word chars => chars

/-- The canonical spelling of a sequence of tokens. -/
def spell (tokens : List Token) : List Char := tokens.flatMap spelling

/-- How many characters a token takes up. -/
def width (token : Token) : Nat := token.spelling.length

/-- The token in words, for messages. -/
def describe : Token → String
  | structuredData => "structured data marker"
  | component => "component marker"
  | entityLevel => "entity separator '\u241c'"
  | fieldLevel => "field separator '\u241d'"
  | itemLevel => "field item separator '\u241e'"
  | propertyLevel => "property separator '\u241f'"
  | openBrace => "'\x7b'"
  | closeBrace => "'\x7d'"
  | comma => "','"
  | useProp => "'\u21a0'"
  | followReference => "'\u219d'"
  | word chars => "name '" ++ String.ofList chars ++ "'"

/-- The first token in words, or the end of the input. -/
def describeNext : List Token → String
  | [] => "end of input"
  | token :: _ => token.describe

/-! ## Scanning -/

/-- The token that a separator character stands for. -/
def ofSeparator? (c : Char) : Option Token :=
  match c with
  | '\u2ff2' => some component
  | '\u241c' => some entityLevel
  | '\x1c' => some entityLevel
  | '\u241d' => some fieldLevel
  | '\x1d' => some fieldLevel
  | '\u241e' => some itemLevel
  | '\x1e' => some itemLevel
  | '\u241f' => some propertyLevel
  | '{' => some openBrace
  | '}' => some closeBrace
  | ',' => some comma
  | '\u21a0' => some useProp
  | '\u219d' => some followReference
  | _ => none

/-- Puts a word character in front of a sequence of tokens: a word that stands there grows. -/
def consWordChar (c : Char) : List Token → List Token
  | word chars :: tokens => word (c :: chars) :: tokens
  | tokens => word [c] :: tokens

/-- The tokens of a text whose first character stands at `offset`, or the offset of the first
character at which no token starts. -/
def scanAt (offset : Nat) : List Char → Except (Nat × Fault) (List Token)
  | [] => .ok []
  | '\u2139' :: '\ufe0e' :: rest => (structuredData :: ·) <$> scanAt (offset + 2) rest
  | c :: rest =>
    if c = '\u2139' then .error (offset, .brokenMarker)
    else match ofSeparator? c with
      | some token => (token :: ·) <$> scanAt (offset + 1) rest
      | none =>
        if isWordChar c then consWordChar c <$> scanAt (offset + 1) rest
        else .error (offset, .unexpected c)

/-- The tokens of a text. -/
def scan (text : List Char) : Except (Nat × Fault) (List Token) := scanAt 0 text

/-- The width of a sequence of tokens. -/
def totalWidth : List Token → Nat
  | [] => 0
  | token :: tokens => token.width + totalWidth tokens

/-- Each token with the offset of its first character, the first one standing at `start`. -/
def offsets (start : Nat) : List Token → List (Nat × Token)
  | [] => []
  | token :: tokens => (start, token) :: offsets (start + token.width) tokens

end Token

end PropStorage.Expression
