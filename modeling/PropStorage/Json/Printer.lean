import PropStorage.Json.Basic

/-!
# Writing JSON

* `Json.compact`: one line without blanks;
* `Json.pretty`: one item or member a line, two blanks a level, `[]` and `\x7b\x7d` for the empty
  containers.

Strings escape the quote, the backslash and the characters below the blank, and nothing else.
-/

namespace PropStorage.Json

/-- One character inside a string. -/
def renderChar (c : Char) : List Char :=
  if c = '"' then ['\\', '"']
  else if c = '\\' then ['\\', '\\']
  else if c = '\x08' then ['\\', 'b']
  else if c = '\t' then ['\\', 't']
  else if c = '\n' then ['\\', 'n']
  else if c = '\x0c' then ['\\', 'f']
  else if c = '\r' then ['\\', 'r']
  else if c.toNat < 0x20 then
    ['\\', 'u', '0', '0', Nat.digitChar (c.toNat / 16), Nat.digitChar (c.toNat % 16)]
  else [c]

def renderString (s : String) : List Char := '"' :: s.toList.flatMap renderChar ++ ['"']

mutual

/-- The compact text of a value. -/
def render : Json → List Char
  | null => ['n', 'u', 'l', 'l']
  | bool true => ['t', 'r', 'u', 'e']
  | bool false => ['f', 'a', 'l', 's', 'e']
  | number n => n.render
  | string s => renderString s
  | array items => '[' :: renderItems items ++ [']']
  | object members => '{' :: renderMembers members ++ ['}']

def renderItems : List Json → List Char
  | [] => []
  | [item] => render item
  | item :: next :: items => render item ++ ',' :: renderItems (next :: items)

def renderMembers : List (String × Json) → List Char
  | [] => []
  | [(name, value)] => renderString name ++ ':' :: render value
  | (name, value) :: next :: members =>
    renderString name ++ ':' :: render value ++ ',' :: renderMembers (next :: members)

end

/-- The text of a value on one line, without blanks. -/
def compact (v : Json) : String := String.ofList (render v)

/-- A new line, indented to the given level. -/
def newline (level : Nat) : List Char := '\n' :: List.replicate (2 * level) ' '

mutual

/-- The indented text of a value whose first line stands at the given level. -/
def renderPretty (level : Nat) : Json → List Char
  | array (item :: items) =>
    '[' :: newline (level + 1) ++ renderPretty (level + 1) item ++ renderMoreItems level items
      ++ newline level ++ [']']
  | object ((name, value) :: members) =>
    '{' :: newline (level + 1) ++ renderString name ++ ':' :: ' ' :: renderPretty (level + 1) value
      ++ renderMoreMembers level members ++ newline level ++ ['}']
  | v => render v

def renderMoreItems (level : Nat) : List Json → List Char
  | [] => []
  | item :: items =>
    ',' :: newline (level + 1) ++ renderPretty (level + 1) item ++ renderMoreItems level items

def renderMoreMembers (level : Nat) : List (String × Json) → List Char
  | [] => []
  | (name, value) :: members =>
    ',' :: newline (level + 1) ++ renderString name ++ ':' :: ' ' :: renderPretty (level + 1) value
      ++ renderMoreMembers level members

end

/-- The text of a value with one item or member a line. -/
def pretty (v : Json) : String := String.ofList (renderPretty 0 v)

end PropStorage.Json
