import PropStorage.Entries
import PropStorage.Json.Number

/-!
# JSON values

A JSON value whose objects keep the order of their members. Two notions of sameness stand side by
side: equality of Lean values, which sees the order of members, and `Json.equiv`, which does not.

`Json.Distinct` says that no object, at any depth, names a member twice. Every value that is read
from a text is distinct.
-/

namespace PropStorage

inductive Json where
  | null
  | bool (value : Bool)
  | number (value : Number)
  | string (value : String)
  | array (items : List Json)
  | object (members : List (String × Json))

namespace Json

instance : Inhabited Json := ⟨null⟩

/-- The members of an object; other values have none. -/
def members : Json → Entries Json
  | object members => members
  | _ => []

/-- The member of an object with the given name. -/
def member? (v : Json) (name : String) : Option Json := Entries.find? v.members name

def string? : Json → Option String
  | string s => some s
  | _ => none

def array? : Json → Option (List Json)
  | array items => some items
  | _ => none

/-- The value, if it is an integer that is not negative. -/
def natural? : Json → Option Nat
  | number n => n.natural?
  | _ => none

def natural (n : Nat) : Json := number (.integer n)

/-- A string, or null for none. -/
def ofString? : Option String → Json
  | some s => string s
  | none => null

/-! ## Sameness up to the order of members -/

mutual

/-- Whether two values are the same when the order of object members does not count. -/
def equiv : Json → Json → Bool
  | null, null => true
  | bool a, bool b => a == b
  | number a, number b => a.equiv b
  | string a, string b => a == b
  | array as, array bs => equivItems as bs
  | object as, object bs => as.length == bs.length && equivMembers as bs
  | _, _ => false

/-- Whether two lists of values agree item by item. -/
def equivItems : List Json → List Json → Bool
  | [], [] => true
  | a :: as, b :: bs => equiv a b && equivItems as bs
  | _, _ => false

/-- Whether every member of the first list has an equal one in the second. -/
def equivMembers : List (String × Json) → List (String × Json) → Bool
  | [], _ => true
  | (name, a) :: as, bs =>
    (match Entries.find? bs name with
      | some b => equiv a b
      | none => false) && equivMembers as bs

end

/-- Whether two maps hold equal values under the same names. -/
def equivMaps (m n : SortedMap Json) : Bool :=
  m.entries.length == n.entries.length && equivMembers m.entries n.entries

/-! ## Member names occur once -/

mutual

/-- No object within the value names a member twice. -/
def Distinct : Json → Prop
  | array items => DistinctItems items
  | object members => (Entries.names members).Nodup ∧ DistinctMembers members
  | _ => True

/-- No object within the items names a member twice. -/
def DistinctItems : List Json → Prop
  | [] => True
  | item :: items => Distinct item ∧ DistinctItems items

/-- No object within the values of the members names a member twice. -/
def DistinctMembers : List (String × Json) → Prop
  | [] => True
  | (_, value) :: members => Distinct value ∧ DistinctMembers members

end

end Json

end PropStorage
