import PropStorage.Json.Decimal

/-!
# Numbers of a document

A number is an integer between `-2^63` and `2^64 - 1`, or a decimal. Text without a fraction or an
exponent is an integer if it fits; all else is a decimal, `-0` too. A decimal is written with a
fraction or an exponent, so the two kinds never look alike.

The digits of a text make up a significand of 64 bits (`Significand`). A decimal is what this
significand and its power of ten give in the arithmetic of binary64 (`Decimal.scaled?`): for some
texts not the value nearest to the number that they spell.

* `Number.ofLiteral?` reads the text of a number;
* `Number.render` writes it.
-/

namespace PropStorage

inductive Number where
  | integer (value : Int)
  | decimal (value : Decimal)
  deriving DecidableEq

namespace Number

/-- Whether two numbers are equal; an integer never equals a decimal. -/
def equiv : Number → Number → Bool
  | .integer a, .integer b => a = b
  | .decimal a, .decimal b => a.equiv b
  | _, _ => false

/-- The number, if it is an integer that is not negative. -/
def natural? : Number → Option Nat
  | .integer (.ofNat n) => some n
  | _ => none

/-! ## Writing -/

def digits (n : Nat) : List Char := Nat.toDigits 10 n

def renderInteger : Int → List Char
  | .ofNat n => digits n
  | .negSucc n => '-' :: digits (n + 1)

/-- The digits `ds` as a number whose first digit has the weight `10 ^ e`: positional from
`10 ^ -5` on and below `10 ^ 16`, with an exponent elsewhere. -/
def layOut (ds : List Char) (e : Int) : List Char :=
  if e < -5 ∨ 16 ≤ e then
    let mantissa := match ds with
      | d :: more@(_ :: _) => d :: '.' :: more
      | _ => ds
    mantissa ++ 'e' :: (if e < 0 then '-' else '+') :: digits e.natAbs
  else if e < 0 then '0' :: '.' :: List.replicate (e.natAbs - 1) '0' ++ ds
  else
    let whole := e.toNat + 1
    if ds.length ≤ whole then ds ++ List.replicate (whole - ds.length) '0' ++ ['.', '0']
    else ds.take whole ++ '.' :: ds.drop whole

def renderDecimal (d : Decimal) : List Char :=
  let ds := digits d.coefficient
  let body := layOut ds (d.exponent + ds.length - 1)
  if d.negative then '-' :: body else body

/-- The text of a number. -/
def render : Number → List Char
  | .integer i => renderInteger i
  | .decimal d => renderDecimal d

/-! ## Reading -/

/-- Splits off the longest run of digits. -/
def splitDigits (s : List Char) : List Char × List Char :=
  (s.takeWhile Char.isDigit, s.dropWhile Char.isDigit)

/-- Whether digits may stand before the point: there are some, and no zero leads. -/
def isWhole : List Char → Bool
  | [] => false
  | ['0'] => true
  | d :: _ => d ≠ '0'

/-- The digits after the point, if there is a point. -/
def fraction? : List Char → Option (Option (List Char) × List Char)
  | '.' :: rest =>
    match splitDigits rest with
    | ([], _) => none
    | (ds, rest) => some (some ds, rest)
  | rest => some (none, rest)

/-- The exponent, if there is one. -/
def exponent? : List Char → Option (Option Int)
  | [] => some none
  | e :: rest =>
    let (sign, ds) : Int × List Char := match rest with
      | '-' :: ds => (-1, ds)
      | '+' :: ds => (1, ds)
      | ds => (1, ds)
    if (e = 'e' || e = 'E') && !ds.isEmpty && ds.all Char.isDigit then
      some (some (sign * (Nat.ofDigitChars 10 ds 0 : Nat)))
    else none

/-- The largest magnitude of a negative integer, `2 ^ 63`. Signed integers of 64 bits lie below
it. -/
def signedLimit : Nat := 0x8000000000000000

/-- The digits that have been taken up, as the number `value × 10 ^ exponent`. -/
structure Significand where
  value : UInt64
  exponent : Int

namespace Significand

def zero : Significand := ⟨0, 0⟩

/-- The value with one more digit, if there is room for it. -/
def append? (s : Significand) (digit : Char) : Option UInt64 :=
  let n := s.value.toNat * 10 + (digit.toNat - '0'.toNat)
  if h : n < UInt64.size then some (.ofNatLT n h) else none

/-- Takes up the digits before the point. From the first on for which there is no room they only
count. -/
def takeWhole (s : Significand) : List Char → Significand
  | [] => s
  | digit :: rest =>
    match s.append? digit with
    | some value => takeWhole { s with value } rest
    | none => { s with exponent := s.exponent + (rest.length + 1) }

/-- Takes up the digits after the point. From the first on for which there is no room they are left
out. -/
def takeFraction (s : Significand) : List Char → Significand
  | [] => s
  | digit :: rest =>
    match s.append? digit with
    | some value => takeFraction ⟨value, s.exponent - 1⟩ rest
    | none => s

end Significand

/-- The decimal `± s`. -/
def ofSignificand? (negative : Bool) (s : Significand) : Option Number :=
  (Decimal.scaled? negative s.value s.exponent).map .decimal

/-- The integer `± s`, or a decimal where it is out of range. -/
def ofInteger? (negative : Bool) (s : Significand) : Option Number :=
  let n := s.value.toNat
  if s.exponent ≠ 0 then ofSignificand? negative s
  else if ¬negative then some (.integer n)
  else if 0 < n ∧ n ≤ signedLimit then some (.integer (-(n : Int)))
  else ofSignificand? negative s

/-- The number that a text spells: an optional minus sign, digits, an optional fraction and an
optional exponent. -/
def ofLiteral? (literal : List Char) : Option Number :=
  let (negative, unsigned) := match literal with
    | '-' :: rest => (true, rest)
    | rest => (false, rest)
  let (whole, rest) := splitDigits unsigned
  if !isWhole whole then none
  else do
    let (fraction, rest) ← fraction? rest
    let exponent ← exponent? rest
    let s := Significand.zero.takeWhole whole
    match fraction, exponent with
    | none, none => ofInteger? negative s
    | _, _ =>
      let s := s.takeFraction (fraction.getD [])
      ofSignificand? negative { s with exponent := s.exponent + exponent.getD 0 }

end Number

end PropStorage
