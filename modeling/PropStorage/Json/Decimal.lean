/-!
# Decimal numbers

`Decimal` is a signed decimal number in normal form: its coefficient does not end in a zero.

A fractional number of a document is held as the shortest decimal among those that round to the
same binary64 value, the nearest to that value if there are several. `Binary64.shortest` finds it:
it tries one grid of decimals after the other, the coarsest first.

There are two ways from the text of a number to its binary64 value. `Decimal.nearest?` rounds the
number itself. `Decimal.scaled?` multiplies or divides a significand of 64 bits by a power of ten,
and rounds after each step; it may end beside the nearest value.
-/

namespace PropStorage

/-- The number `± coefficient × 10 ^ exponent`; zero has exponent zero. -/
structure Decimal where
  negative : Bool
  coefficient : Nat
  exponent : Int
  normal : coefficient % 10 ≠ 0 ∨ coefficient = 0 ∧ exponent = 0
  deriving DecidableEq

namespace Decimal

/-- Zero, with a sign. -/
def zero (negative : Bool) : Decimal := ⟨negative, 0, 0, by decide⟩

/-- The normal form of `± coefficient × 10 ^ exponent`. -/
def ofParts (negative : Bool) (coefficient : Nat) (exponent : Int) : Decimal :=
  if coefficient = 0 then zero negative
  else if h : coefficient % 10 ≠ 0 then ⟨negative, coefficient, exponent, .inl h⟩
  else ofParts negative (coefficient / 10) (exponent + 1)
termination_by coefficient

/-- Whether two decimals are the same number; the sign of zero does not count. -/
def equiv (a b : Decimal) : Bool :=
  a = b || a.coefficient = 0 && b.coefficient = 0

end Decimal

/-- The number `significand × 2 ^ exponent`, in the range and precision of binary64. -/
structure Binary64 where
  significand : Nat
  exponent : Int

namespace Binary64

/-- The quotient of two numbers, rounded to nearest, a tie to the even neighbour. -/
def roundQuotient (num den : Nat) : Nat :=
  let q := num / den
  let twice := 2 * (num % den)
  if twice < den || twice = den && q % 2 = 0 then q else q + 1

/-- The least significand of a value with full precision, `2 ^ 52`. -/
def leastNormal : Nat := 0x10000000000000

/-- The binary64 value nearest to `num / den`, zero included; `none` beyond the largest value. -/
def round? (num den : Nat) : Option Binary64 :=
  let scaled (e : Int) : Nat × Nat := (num <<< (-e).toNat, den <<< e.toNat)
  let estimate : Int := (num.log2 : Int) - den.log2 - 52
  let (n, d) := scaled estimate
  let e := max (if n / d < leastNormal then estimate - 1 else estimate) (-1074)
  let (n, d) := scaled e
  let m := roundQuotient n d
  let value : Binary64 := if m = 2 * leastNormal then ⟨leastNormal, e + 1⟩ else ⟨m, e⟩
  if value.exponent ≤ 971 then some value else none

/-- Compares `c × 10 ^ g` with `n × 2 ^ e`. -/
def compareScaled (c : Nat) (g : Int) (n : Nat) (e : Int) : Ordering :=
  compare ((c * Nat.pow 10 g.toNat) <<< (-e).toNat) ((n * Nat.pow 10 (-g).toNat) <<< e.toNat)

/-- Whether `c × 10 ^ g` rounds to `x`: it lies between the midpoints to the neighbours of `x`,
or on one of them if the significand is even. Below a power of two the neighbour is half as far. -/
def readsBack (x : Binary64) (c : Nat) (g : Int) : Bool :=
  let narrow := x.significand = leastNormal && x.exponent > -1074
  let lower := if narrow then 4 * x.significand - 1 else 4 * x.significand - 2
  let upper := 4 * x.significand + 2
  let closed := x.significand % 2 = 0
  let fromLower := compareScaled c g lower (x.exponent - 2)
  let fromUpper := compareScaled c g upper (x.exponent - 2)
  (fromLower = .gt || closed && fromLower = .eq) && (fromUpper = .lt || closed && fromUpper = .eq)

/-- The decimal on the grid of step `10 ^ g` that rounds to `x`, the nearest if there are two. -/
def onGrid? (x : Binary64) (g : Int) : Option Nat :=
  let below := ((x.significand * Nat.pow 10 (-g).toNat) <<< x.exponent.toNat)
    / (Nat.pow 10 g.toNat <<< (-x.exponent).toNat)
  match x.readsBack below g, x.readsBack (below + 1) g with
  | false, false => none
  | true, false => some below
  | false, true => some (below + 1)
  | true, true =>
    match compareScaled (2 * below + 1) g (2 * x.significand) x.exponent with
    | .gt => some below
    | .lt => some (below + 1)
    | .eq => some (if below % 2 = 0 then below else below + 1)

/-- A power of ten above `x`, at most a few powers too high. -/
def scale (x : Binary64) : Int := ((x.significand.log2 : Int) + x.exponent + 1) * 30103 / 100000 + 2

/-- The shortest decimal that rounds to `x`; the exact value, should no grid of at most seventeen
digits hold one. -/
def shortest (x : Binary64) (negative : Bool) : Decimal :=
  let found := (List.range 22).findSome? fun (i : Nat) =>
    let g := x.scale - i
    (x.onGrid? g).map fun c => Decimal.ofParts negative c g
  match found with
  | some d => d
  | none =>
    if x.exponent < 0 then
      .ofParts negative (x.significand * Nat.pow 5 (-x.exponent).toNat) x.exponent
    else .ofParts negative (x.significand <<< x.exponent.toNat) 0

/-! ## Arithmetic -/

/-- The product, rounded. -/
def mul? (x y : Binary64) : Option Binary64 :=
  let e := x.exponent + y.exponent
  round? ((x.significand * y.significand) <<< e.toNat) (1 <<< (-e).toNat)

/-- The quotient, rounded. -/
def div? (x y : Binary64) : Option Binary64 :=
  let e := x.exponent - y.exponent
  round? (x.significand <<< e.toNat) (y.significand <<< (-e).toNat)

/-- The largest power of ten in the range of binary64. -/
def maxPower : Nat := 308

/-- The value nearest to `10 ^ n`. -/
def powerOfTen? (n : Nat) : Option Binary64 := round? (Nat.pow 10 n) 1

/-- `x × 10 ^ exponent`, by one product or by as many quotients as it takes, each of them rounded.
Zero stays zero. -/
def mulPower? (x : Binary64) (exponent : Int) : Option Binary64 :=
  if exponent.natAbs ≤ maxPower then do
    let power ← powerOfTen? exponent.natAbs
    if 0 ≤ exponent then x.mul? power else x.div? power
  else if x.significand = 0 then some x
  else if 0 ≤ exponent then none
  else do
    let power ← powerOfTen? maxPower
    let quotient ← x.div? power
    mulPower? quotient (exponent + maxPower)
termination_by exponent.natAbs
decreasing_by simp only [maxPower] at *; omega

end Binary64

/-! ## Reading -/

/-- The shortest decimal for a magnitude, zero included. -/
def Decimal.ofMagnitude (negative : Bool) (x : Binary64) : Decimal :=
  if x.significand = 0 then .zero negative else x.shortest negative

/-- The shortest decimal for the binary64 value nearest to `± coefficient × 10 ^ exponent`;
`none` beyond the range of binary64. -/
def Decimal.nearest? (negative : Bool) (coefficient : Nat) (exponent : Int) : Option Decimal :=
  let magnitude : Int := (Nat.toDigits 10 coefficient).length + exponent
  if coefficient = 0 || magnitude < -330 then some (.zero negative)
  else if magnitude > 310 then none
  else
    (Binary64.round? (coefficient * Nat.pow 10 exponent.toNat)
      (Nat.pow 10 (-exponent).toNat)).map (ofMagnitude negative)

/-- The shortest decimal for `± significand × 10 ^ exponent` in the arithmetic of binary64; `none`
beyond its range. -/
def Decimal.scaled? (negative : Bool) (significand : UInt64) (exponent : Int) : Option Decimal := do
  let x ← Binary64.round? significand.toNat 1
  let y ← x.mulPower? exponent
  some (ofMagnitude negative y)

end PropStorage
