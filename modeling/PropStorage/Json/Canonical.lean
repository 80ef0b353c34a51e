import PropStorage.Hash.Sha256
import PropStorage.Json.Printer

/-!
# Canonical form

`Json.sortMembers` sorts the members of every object by name, at every depth. The compact text of
the result does not depend on the order in which members were given (`canonicalText`), and so
neither does its hash (`contentHash`).
-/

namespace PropStorage.Json

mutual

/-- The value with the members of every object sorted by name. -/
def sortMembers : Json → Json
  | array items => array (sortMembersOfItems items)
  | object members => object (SortedMap.ofEntries (sortMembersOfValues members)).entries
  | v => v

def sortMembersOfItems : List Json → List Json
  | [] => []
  | item :: items => sortMembers item :: sortMembersOfItems items

def sortMembersOfValues : List (String × Json) → List (String × Json)
  | [] => []
  | (name, value) :: members => (name, sortMembers value) :: sortMembersOfValues members

end

/-- The compact text with all members sorted. -/
def canonicalText (v : Json) : String := (sortMembers v).compact

/-- The SHA-256 hash of the canonical text, in hexadecimal. -/
def contentHash (v : Json) : String := Sha256.hexDigest v.canonicalText

end PropStorage.Json
