import PropStorage.Json.Basic

/-!
# Dates and times of TOML

A date, a time of day, or both; a time of a date may have an offset from universal time. JSON has no
such values: `DateTime.toJson` stands for one by an object with a single member, which holds its
text in normal form. `DateTime.read?` reads a text in any form, with seconds to the nanosecond.
-/

namespace PropStorage.Toml

/-- The number that digits spell. -/
def digitsNumber? (digits : List Char) : Option Nat :=
  if digits.all Char.isDigit then some (Nat.ofDigitChars 10 digits 0) else none

/-- A number with zeros before it up to the given width. -/
def padded (width n : Nat) : List Char := (Nat.toDigits 10 n).leftpad width '0'

def isLeapYear (year : Nat) : Bool := year % 4 = 0 && (year % 100 ≠ 0 || year % 400 = 0)

def daysOfMonth (year month : Nat) : Nat :=
  match month with
  | 2 => if isLeapYear year then 29 else 28
  | 4 | 6 | 9 | 11 => 30
  | _ => 31

structure Date where
  year : Nat
  month : Nat
  day : Nat
  valid : year ≤ 9999 ∧ (1 ≤ month ∧ month ≤ 12) ∧ 1 ≤ day ∧ day ≤ daysOfMonth year month

namespace Date

/-- A year of four digits, a month and a day of two. -/
def read? : List Char → Option Date
  | [y₁, y₂, y₃, y₄, '-', m₁, m₂, '-', d₁, d₂] => do
    let year ← digitsNumber? [y₁, y₂, y₃, y₄]
    let month ← digitsNumber? [m₁, m₂]
    let day ← digitsNumber? [d₁, d₂]
    if valid : _ then some { year, month, day, valid } else none
  | _ => none

def render (d : Date) : List Char :=
  padded 4 d.year ++ '-' :: padded 2 d.month ++ '-' :: padded 2 d.day

end Date

/-- A time of day, perhaps with a leap second. -/
structure Time where
  hour : Nat
  minute : Nat
  second : Nat
  nanosecond : Nat
  valid : hour ≤ 23 ∧ minute ≤ 59 ∧ second ≤ 60 ∧ nanosecond < 1000000000

namespace Time

/-- The digits of a second after the point. -/
def fraction? : List Char → Option (List Char × List Char)
  | '.' :: rest =>
    match rest.span Char.isDigit with
    | ([], _) => none
    | (digits, rest) => some (digits, rest)
  | rest => some ([], rest)

/-- The nanoseconds that the digits of a fraction spell; what is shorter is left out. -/
def nanoseconds (digits : List Char) : Nat :=
  let digits := digits.take 9
  Nat.ofDigitChars 10 digits 0 * Nat.pow 10 (9 - digits.length)

/-- A time, and what follows it. -/
def read? : List Char → Option (Time × List Char)
  | h₁ :: h₂ :: ':' :: m₁ :: m₂ :: ':' :: s₁ :: s₂ :: rest => do
    let hour ← digitsNumber? [h₁, h₂]
    let minute ← digitsNumber? [m₁, m₂]
    let second ← digitsNumber? [s₁, s₂]
    let (digits, rest) ← fraction? rest
    let nanosecond := nanoseconds digits
    if valid : _ then some ({ hour, minute, second, nanosecond, valid }, rest) else none
  | _ => none

def render (t : Time) : List Char :=
  let fraction := ((padded 9 t.nanosecond).reverse.dropWhile (· = '0')).reverse
  padded 2 t.hour ++ ':' :: padded 2 t.minute ++ ':' :: padded 2 t.second
    ++ if t.nanosecond = 0 then [] else '.' :: fraction

end Time

/-- How far a time is from universal time. -/
inductive Offset where
  | universal
  | minutes (east : Int)

namespace Offset

/-- The offset that follows a time, if there is one. -/
def read? : List Char → Option (Option Offset)
  | [] => some none
  | ['Z'] => some (some universal)
  | ['z'] => some (some universal)
  | [sign, h₁, h₂, ':', m₁, m₂] => do
    let hour ← digitsNumber? [h₁, h₂]
    let minute ← digitsNumber? [m₁, m₂]
    let east : Int := hour * 60 + minute
    if 23 < hour ∨ 59 < minute then none
    else if sign = '+' then some (some (minutes east))
    else if sign = '-' then some (some (minutes (-east)))
    else none
  | _ => none

def render : Offset → List Char
  | universal => ['Z']
  | minutes east =>
    (if east < 0 then '-' else '+')
      :: padded 2 (east.natAbs / 60) ++ ':' :: padded 2 (east.natAbs % 60)

end Offset

inductive DateTime where
  | date (d : Date)
  | time (t : Time)
  | both (d : Date) (t : Time) (offset : Option Offset)

namespace DateTime

/-- Whether a character may stand between a date and its time. -/
def isDelimiter (c : Char) : Bool := c = 'T' || c = 't' || c = ' '

/-- The number of characters of a date. -/
def dateLength : Nat := 10

/-- The date-time that a run spells. -/
def read? (run : List Char) : Option DateTime :=
  match Date.read? (run.take dateLength), run.drop dateLength with
  | some d, [] => some (date d)
  | some d, delimiter :: rest => do
    let (t, rest) ← Time.read? rest
    let offset ← Offset.read? rest
    if isDelimiter delimiter then some (both d t offset) else none
  | none, _ =>
    match Time.read? run with
    | some (t, []) => some (time t)
    | _ => none

/-- The text in normal form. -/
def render : DateTime → List Char
  | date d => d.render
  | time t => t.render
  | both d t offset => d.render ++ 'T' :: t.render ++ (offset.map Offset.render).getD []

/-- The name of the member that holds the text of a date-time. -/
def memberName : String := "$__toml_private_datetime"

/-- The object that stands for a date-time. -/
def toJson (d : DateTime) : Json := .object [(memberName, .string (String.ofList d.render))]

end DateTime

end PropStorage.Toml
