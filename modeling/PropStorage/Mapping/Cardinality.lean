import PropStorage.Json.Basic

/-!
# Cardinality

How many values a prop with several values may store: any number, or a limited one. It is written
as the word `unlimited` or as the limit; `-1` is read as unlimited, too.
-/

namespace PropStorage

inductive Cardinality where
  | unlimited
  | limited (count : UInt32)
  deriving DecidableEq

/-- How a cardinality is kept: as a word, or as a signed integer. -/
inductive CardinalityForm where
  | word (word : String)
  | count (count : Int)

def CardinalityForm.toJson : CardinalityForm → Json
  | word w => .string w
  | count i => .number (.integer i)

/-- Why a word or a number is no cardinality. -/
inductive CardinalityError where
  | unknownWord (word : String)
  | outOfRange (count : Int)

def CardinalityError.message : CardinalityError → String
  | unknownWord word => "unknown cardinality '" ++ word ++ "'"
  | outOfRange count => "cardinality " ++ toString count ++ " is out of range"

namespace Cardinality

/-- The cardinality as a word or a number. -/
def text : Cardinality → String
  | unlimited => "unlimited"
  | limited count => toString count.toNat

def toJson : Cardinality → Json
  | unlimited => .string "unlimited"
  | limited count => .natural count.toNat

def form : Cardinality → CardinalityForm
  | unlimited => .word "unlimited"
  | limited count => .count count.toNat

/-- The cardinality in the form in which it is kept. -/
def record (c : Cardinality) : Json := c.form.toJson

def ofWord (word : String) : Except CardinalityError Cardinality :=
  if word = "unlimited" then .ok unlimited else .error (.unknownWord word)

def ofInt (count : Int) : Except CardinalityError Cardinality :=
  if count = -1 then .ok unlimited
  else if 0 ≤ count ∧ count < UInt32.size then .ok (limited (UInt32.ofNat count.toNat))
  else .error (.outOfRange count)

end Cardinality

end PropStorage
