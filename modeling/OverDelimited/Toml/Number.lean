import OverDelimited.Setting
import OverDelimited.Toml.Text

/-!
# TOML numbers and dates

Digits may be grouped by single underscores.  Whole numbers have 64 bits; floats may not be too
large, unless they are negative or spelled as infinite.  Dates and times are checked and kept as
they are spelled, since no setting is a date.
-/

namespace OverDelimited.Toml

/-! ### Digits -/

/-- A run of digits of a base without its underscores, each of which must stand between digits. -/
def digitRun? (base : Nat) (cs : List Char) : Option (List Char × List Char) :=
  let isDigit (c : Char) : Bool := (Text.digitValue? c).any (· < base)
  let run := cs.takeWhile fun c => isDigit c || c = '_'
  if (run.splitOn '_').any (·.isEmpty) then none
  else some (run.filter (· ≠ '_'), cs.drop run.length)

/-- Whether a minus sign leads, and what follows a sign of either kind. -/
def sign : List Char → Bool × List Char
  | '+' :: rest => (false, rest)
  | '-' :: rest => (true, rest)
  | rest => (false, rest)

/-! ### Whole numbers and floats -/

/-- A whole number, if it has 64 bits. -/
def whole? (negative : Bool) (size : Nat) : Option Setting :=
  let value : Int := if negative then -(size : Int) else (size : Int)
  if Text.fitsSigned 64 value then some (.int value) else none

/-- A whole number in another base than ten. -/
def based? (base : Nat) (cs : List Char) : Option (Setting × List Char) := do
  let (digits, rest) ← digitRun? base cs
  let value ← whole? false (← Text.digits? base digits)
  some (value, rest)

/-- The fraction after a point, empty if there is no point. -/
def fraction? : Reader (List Char)
  | '.' :: rest => digitRun? 10 rest
  | rest => some ([], rest)

/-- The exponent after its letter, absent if there is no letter. -/
def exponent? : Reader (Option Int)
  | [] => some (none, [])
  | c :: rest =>
    if c = 'e' || c = 'E' then do
      let (negative, rest) := sign rest
      let (digits, rest) ← digitRun? 10 rest
      let size ← Text.digits? 10 digits
      some (some (if negative then -(size : Int) else (size : Int)), rest)
    else some (none, c :: rest)

/-- A float of the given sign; only a negative one may be too large. -/
def float? (negative : Bool) (size : Text.Decimal) : Option Setting :=
  if negative then some (.float (-size.toFloat))
  else if size.isFinite then some (.float size.toFloat)
  else none

/-- A number in base ten after its sign. -/
def decimal? (negative : Bool) (cs : List Char) : Option (Setting × List Char) := do
  let (digits, rest) ← digitRun? 10 cs
  if digits.head? = some '0' ∧ digits.length ≠ 1 then none
  else
    let (fraction, rest) ← fraction? rest
    let (exponent, rest) ← exponent? rest
    let value ←
      if fraction = [] ∧ exponent = none then (Text.digits? 10 digits).bind (whole? negative)
      else float? negative (Text.Decimal.ofParts digits fraction (exponent.getD 0))
    some (value, rest)

/-- A number. -/
def number? : Reader Setting
  | '0' :: 'x' :: rest => based? 16 rest
  | '0' :: 'o' :: rest => based? 8 rest
  | '0' :: 'b' :: rest => based? 2 rest
  | cs =>
    match sign cs with
    | (negative, 'i' :: 'n' :: 'f' :: rest) =>
      some (.float (if negative then -1.0 / 0.0 else 1.0 / 0.0), rest)
    | (_, 'n' :: 'a' :: 'n' :: rest) => some (.float (0.0 / 0.0), rest)
    | (negative, rest) => decimal? negative rest

/-! ### Dates and times -/

/-- A number of the given count of digits in a range. -/
def field? (count low high : Nat) (cs : List Char) : Option (Nat × List Char) := do
  let n ← Text.digits? 10 (cs.take count)
  if count ≤ cs.length ∧ low ≤ n ∧ n ≤ high then some (n, cs.drop count) else none

/-- What follows a given character. -/
def expect (c : Char) : List Char → Option (List Char)
  | [] => none
  | d :: rest => if c = d then some rest else none

/-- The number of days of a month. -/
def daysIn (year month : Nat) : Nat :=
  if month = 2 then
    if year % 4 = 0 ∧ (year % 100 ≠ 0 ∨ year % 400 = 0) then 29 else 28
  else if month = 4 ∨ month = 6 ∨ month = 9 ∨ month = 11 then 30
  else 31

/-- What follows a date. -/
def date? (cs : List Char) : Option (List Char) := do
  let (year, cs) ← field? 4 0 9999 cs
  let cs ← expect '-' cs
  let (month, cs) ← field? 2 1 12 cs
  let cs ← expect '-' cs
  let (_, cs) ← field? 2 1 (daysIn year month) cs
  some cs

/-- What follows a time of day; its seconds may have a fraction and may leap. -/
def time? (cs : List Char) : Option (List Char) := do
  let (_, cs) ← field? 2 0 23 cs
  let cs ← expect ':' cs
  let (_, cs) ← field? 2 0 59 cs
  let cs ← expect ':' cs
  let (_, cs) ← field? 2 0 60 cs
  match cs with
  | '.' :: rest =>
    let (digits, rest) := Text.spanDigits rest
    if digits = [] then none else some rest
  | _ => some cs

/-- What follows the offset of a time, if there is one. -/
def offset? (cs : List Char) : Option (List Char) :=
  match cs with
  | [] => some []
  | c :: rest =>
    if c = 'Z' || c = 'z' then some rest
    else if c = '+' || c = '-' then do
      let (_, rest) ← field? 2 0 23 rest
      let rest ← expect ':' rest
      let (_, rest) ← field? 2 0 59 rest
      some rest
    else some (c :: rest)

/-- What follows a date, a time, or both. -/
def moment? (cs : List Char) : Option (List Char) :=
  match date? cs with
  | none => time? cs
  | some [] => some []
  | some (c :: rest) =>
    if c = 'T' || c = 't' || c = ' ' then
      match time? rest with
      | some rest => offset? rest
      | none => some (c :: rest)
    else some (c :: rest)

end OverDelimited.Toml
