/-!
# Numerals

Digits read as numbers, and decimal numerals with a fraction and an exponent.  A decimal is held
as a whole number times a power of ten, so whether it still fits a binary64 float is a question
about whole numbers.
-/

namespace OverDelimited.Text

/-- The value of a digit, in any base up to sixteen. -/
def digitValue? (c : Char) : Option Nat :=
  if '0' ≤ c && c ≤ '9' then some (c.toNat - '0'.toNat)
  else if 'a' ≤ c && c ≤ 'f' then some (c.toNat - 'a'.toNat + 10)
  else if 'A' ≤ c && c ≤ 'F' then some (c.toNat - 'A'.toNat + 10)
  else none

/-- The digits of a base, read onto a number that stands before them. -/
def digitsOnto? (base : Nat) : Nat → List Char → Option Nat
  | value, [] => some value
  | value, c :: rest =>
    match digitValue? c with
    | some d => if d < base then digitsOnto? base (value * base + d) rest else none
    | none => none

/-- The number a non-empty run of digits stands for. -/
def digits? (base : Nat) : List Char → Option Nat
  | [] => none
  | c :: rest => digitsOnto? base 0 (c :: rest)

/-- A run of decimal digits and what follows it. -/
def spanDigits (cs : List Char) : List Char × List Char :=
  (cs.takeWhile Char.isDigit, cs.dropWhile Char.isDigit)

/-- Whether a number is below two to the given power. -/
def fits (bits n : Nat) : Bool :=
  n < Nat.pow 2 bits

/-- Whether a number can be held in the given count of bits with its sign. -/
def fitsSigned (bits : Nat) (i : Int) : Bool :=
  if 0 ≤ i then fits (bits - 1) i.toNat else fits (bits - 1) (i.natAbs - 1)

/-- The number `mantissa * 10 ^ exponent`. -/
structure Decimal where
  mantissa : Nat
  exponent : Int
deriving DecidableEq, Repr

namespace Decimal

/-- A numeral's whole digits, fraction digits and exponent as one decimal. -/
def ofParts (whole fraction : List Char) (exponent : Int) : Decimal :=
  ⟨((whole ++ fraction).foldl (fun n c => n * 10 + (c.toNat - '0'.toNat)) 0),
    exponent - fraction.length⟩

/-- The least magnitude that rounds to infinity as a binary64 float. -/
def overflowBound : Nat :=
  Nat.pow 2 1024 - Nat.pow 2 970

/-- Whether the decimal rounds to a finite binary64 float. -/
def isFinite (d : Decimal) : Bool :=
  if d.mantissa = 0 then true
  else
    let magnitude : Int := (Nat.toDigits 10 d.mantissa).length + d.exponent
    if magnitude ≤ 308 then true
    else if 310 ≤ magnitude then false
    else if 0 ≤ d.exponent then d.mantissa * Nat.pow 10 d.exponent.toNat < overflowBound
    else d.mantissa < overflowBound * Nat.pow 10 (-d.exponent).toNat

/-- The binary64 float nearest to the decimal; a decimal that is too large is infinite, and one
below every float is zero. -/
def toFloat (d : Decimal) : Float :=
  let magnitude : Int := (Nat.toDigits 10 d.mantissa).length + d.exponent
  if d.mantissa = 0 || magnitude < -400 then 0.0
  else if !d.isFinite then 1.0 / 0.0
  else Float.ofScientific d.mantissa (d.exponent < 0) d.exponent.natAbs

end Decimal

end OverDelimited.Text
