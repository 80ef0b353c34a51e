import PropStorage.Text.Unprintable

/-!
# Quoted text in messages

How messages show a text or a character between quotes. The usual controls and the surrounding
quote stand behind a backslash, other characters without a face of their own are written by number
in braces, and everything else stands for itself.
-/

namespace PropStorage.Text

/-- The lowercase hexadecimal digits of `n`, without padding. -/
def hexDigits (n : Nat) : List Char := Nat.toDigits 16 n

/-- One character between a pair of the given quotes. -/
def quotedChar (quote : Char) (c : Char) : List Char :=
  if c = '\x00' then ['\\', '0']
  else if c = '\t' then ['\\', 't']
  else if c = '\r' then ['\\', 'r']
  else if c = '\n' then ['\\', 'n']
  else if c = '\\' then ['\\', '\\']
  else if c = quote then ['\\', c]
  else if isUnprintable c then ['\\', 'u', '\x7b'] ++ hexDigits c.toNat ++ ['\x7d']
  else [c]

/-- A text between double quotes. -/
def quote (s : String) : String :=
  String.ofList ('"' :: s.toList.flatMap (quotedChar '"') ++ ['"'])

/-- A character between single quotes. -/
def quoteChar (c : Char) : String :=
  String.ofList ('\'' :: quotedChar '\'' c ++ ['\''])

/-- A list of texts in brackets, each between double quotes. -/
def quoteList (texts : List String) : String :=
  "[" ++ ", ".intercalate (texts.map quote) ++ "]"

end PropStorage.Text
