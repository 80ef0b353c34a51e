/-!
# Percent-encoding

The UTF-8 bytes of a text, each unreserved byte (letters, digits, `-`, `_`, `.`, `~`) as itself and
every other byte as `%` and two uppercase hexadecimal digits.
-/

namespace PropStorage.Percent

/-- Whether a byte stands for itself. -/
def isUnreserved (b : UInt8) : Bool :=
  let c := Char.ofNat b.toNat
  c.isAlphanum || c = '-' || c = '_' || c = '.' || c = '~'

/-- The uppercase hexadecimal digit of a number below sixteen. -/
def hexDigit (n : Nat) : Char := (Nat.digitChar n).toUpper

def encodeByte (b : UInt8) : List Char :=
  if isUnreserved b then [Char.ofNat b.toNat]
  else ['%', hexDigit (b.toNat / 16), hexDigit (b.toNat % 16)]

/-- The percent-encoded form of a text. -/
def encode (s : String) : List Char := s.toUTF8.toList.flatMap encodeByte

end PropStorage.Percent
