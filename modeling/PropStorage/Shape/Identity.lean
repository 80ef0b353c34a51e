import PropStorage.Shape.Basic
import PropStorage.Json.Printer
import PropStorage.Text.Percent

/-!
# Identity keys

The identity key of a shape is a text that spells out the shape: one pair for each value within it
that holds no other value, the way to the value before the equals sign and the value after it. The
way starts with a bare name; further names stand in brackets, and places in a list as `[#i]`. Names
and values are percent-encoded, so no separator occurs within them.
-/

namespace PropStorage.Shape

mutual

/-- The pairs of the values within a value to which `path` leads. -/
def keyPairs (path : List Char) : Json → List (List Char)
  | .array (item :: items) => keyPairsOfItems path 0 (item :: items)
  | .object (member :: members) => keyPairsOfMembers path (member :: members)
  | leaf => [path ++ '=' :: Percent.encode leaf.compact]

def keyPairsOfItems (path : List Char) (index : Nat) : List Json → List (List Char)
  | [] => []
  | item :: items =>
    keyPairs (path ++ '[' :: '#' :: Nat.toDigits 10 index ++ [']']) item
      ++ keyPairsOfItems path (index + 1) items

def keyPairsOfMembers (path : List Char) : List (String × Json) → List (List Char)
  | [] => []
  | (name, value) :: members =>
    keyPairs (path ++ '[' :: Percent.encode name ++ [']']) value ++ keyPairsOfMembers path members

end

/-- The identity key of the shape. -/
def identityKey (s : Shape) : String :=
  let pairs := s.toMembers.flatMap fun m => keyPairs (Percent.encode m.1) m.2
  String.ofList (['&'].intercalate pairs)

end PropStorage.Shape
