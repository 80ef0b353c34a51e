import PropStorage.Text.Hex
import PropStorage.Toml.DateTime

/-!
# Numbers and words of TOML

The values that a bare run can spell: the two truth values, dates and times, integers of 64 bits,
and decimal fractions. Digits may be grouped by underscores. TOML also has numbers without a finite
size, which JSON has not: they are null.
-/

namespace PropStorage.Toml

/-- The digits of a run in which single underscores may stand between digits. -/
def ungroup? (isDigit : Char → Bool) : List Char → Option (List Char)
  | [] => none
  | [c] => if isDigit c then some [c] else none
  | c :: '_' :: rest => if isDigit c then (ungroup? isDigit rest).map (c :: ·) else none
  | c :: rest => if isDigit c then (ungroup? isDigit rest).map (c :: ·) else none

/-- A run of decimal digits without leading zeros. -/
def whole? (run : List Char) : Option (List Char) :=
  match ungroup? Char.isDigit run with
  | some ['0'] => some ['0']
  | some ('0' :: _) => none
  | digits => digits

/-- The number that digits of a base spell. -/
def digitsValue (base : Nat) (digits : List Char) : Nat :=
  digits.foldl (fun n c => n * base + (Text.hexValue? c).getD 0) 0

/-- A number without a sign, in one of four bases. -/
def natural? : List Char → Option Nat
  | '0' :: 'x' :: run => (ungroup? (fun c => (Text.hexValue? c).isSome) run).map (digitsValue 16)
  | '0' :: 'o' :: run => (ungroup? (fun c => '0' ≤ c && c ≤ '7') run).map (digitsValue 8)
  | '0' :: 'b' :: run => (ungroup? (fun c => c = '0' || c = '1') run).map (digitsValue 2)
  | run => (whole? run).map (digitsValue 10)

/-- An integer of 64 bits. Only decimal digits may follow a sign. -/
def integer? (run : List Char) : Option Int :=
  let value := match run with
    | '-' :: digits => (whole? digits).map fun ds => -(digitsValue 10 ds : Int)
    | '+' :: digits => (whole? digits).map fun ds => (digitsValue 10 ds : Int)
    | digits => (natural? digits).map Int.ofNat
  value.filter fun i => -(Number.signedLimit : Int) ≤ i ∧ i < Number.signedLimit

/-- The exponent of a fraction: digits after an optional sign. -/
def exponent? : List Char → Option Int
  | '-' :: digits => (ungroup? Char.isDigit digits).map fun ds => -(digitsValue 10 ds : Int)
  | '+' :: digits => (ungroup? Char.isDigit digits).map fun ds => (digitsValue 10 ds : Int)
  | digits => (ungroup? Char.isDigit digits).map fun ds => (digitsValue 10 ds : Int)

/-- A fraction without a sign: digits, then digits after a point or an exponent or both. It is
returned as a coefficient and a power of ten. -/
def fraction? (run : List Char) : Option (Nat × Int) := do
  let (mantissa, power) := run.span fun c => c ≠ 'e' && c ≠ 'E'
  let exponent ← match power with
    | [] => some 0
    | _ :: digits => exponent? digits
  match mantissa.span (· ≠ '.'), power with
  | (_, []), [] => none
  | (before, []), _ => do
    let digits ← whole? before
    some (digitsValue 10 digits, exponent)
  | (before, _ :: after), _ => do
    let digits ← whole? before
    let places ← ungroup? Char.isDigit after
    some (digitsValue 10 (digits ++ places), exponent - places.length)

/-- The number `± coefficient × 10 ^ exponent`. Out of the range of binary64 a negative number is
taken for one without a finite size, and a positive one is refused. -/
def ofFraction? (negative : Bool) (coefficient : Nat) (exponent : Int) : Option Json :=
  match Decimal.nearest? negative coefficient exponent with
  | some d => some (.number (.decimal d))
  | none => if negative then some .null else none

/-- Whether a run names a value without a finite size. -/
def isUnbounded (run : List Char) : Bool :=
  let unsigned := match run with
    | '-' :: rest => rest
    | '+' :: rest => rest
    | rest => rest
  unsigned = ['i', 'n', 'f'] || unsigned = ['n', 'a', 'n']

/-- The value that a bare run spells. -/
def scalar? (run : String) : Option Json :=
  if run = "true" then some (.bool true)
  else if run = "false" then some (.bool false)
  else if isUnbounded run.toList then some .null
  else
    match DateTime.read? run.toList, integer? run.toList with
    | some d, _ => some d.toJson
    | none, some i => some (.number (.integer i))
    | none, none =>
      let (negative, unsigned) := match run.toList with
        | '-' :: rest => (true, rest)
        | '+' :: rest => (false, rest)
        | rest => (false, rest)
      (fraction? unsigned).bind fun (coefficient, power) => ofFraction? negative coefficient power

end PropStorage.Toml
