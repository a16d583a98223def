import OverDelimited.Datum
import OverDelimited.Text.Decimal

/-!
# Values of plain scalars

A plain scalar is read as nothing, a truth value or a number if it is spelled like one, and as text
otherwise.  Whole numbers may be written in four bases and with a sign; digits after a leading zero
are text.
-/

namespace OverDelimited.Yaml

/-- What the spelling of a plain scalar stands for. -/
inductive Plain where
  | null
  | bool (value : Bool)
  /-- A whole number that fits 64 bits without a sign. -/
  | natural (value : Nat)
  /-- A negative whole number that fits 64 bits with a sign. -/
  | negative
  /-- A whole number that needs up to 128 bits. -/
  | wide
  | float
  | text
deriving DecidableEq, Repr

/-! ### Whole numbers -/

/-- Digits after a leading zero, with or without a sign: no number is spelled so. -/
def isPadded (cs : List Char) : Bool :=
  let digits := match cs with
    | c :: rest => if c = '-' || c = '+' then rest else cs
    | [] => []
  match digits with
  | '0' :: c :: rest => (c :: rest).all Char.isDigit
  | _ => false

/-- The base a prefix names, and the digits after it. -/
def based : List Char → Nat × List Char
  | '0' :: 'x' :: rest => (16, rest)
  | '0' :: 'o' :: rest => (8, rest)
  | '0' :: 'b' :: rest => (2, rest)
  | rest => (10, rest)

/-- The absolute value of a whole number without its sign. -/
def magnitude? (cs : List Char) : Option Nat :=
  let (base, digits) := based cs
  Text.digits? base digits

/-- The whole number a spelling stands for. -/
def integer? (cs : List Char) : Option Int :=
  if isPadded cs then none
  else
    match cs with
    | '+' :: rest => (magnitude? rest).map Int.ofNat
    | '-' :: rest => (magnitude? rest).map fun n => -(n : Int)
    | _ => (magnitude? cs).map Int.ofNat

/-! ### Floats -/

/-- The exponent of a float, zero if there is none. -/
def exponent? : List Char → Option Int
  | [] => some 0
  | c :: rest =>
    if c = 'e' || c = 'E' then
      match rest with
      | '-' :: digits => (Text.digits? 10 digits).map fun n => -(n : Int)
      | '+' :: digits => (Text.digits? 10 digits).map Int.ofNat
      | digits => (Text.digits? 10 digits).map Int.ofNat
    else none

/-- The decimal a spelling without a sign stands for. -/
def decimal? (cs : List Char) : Option Text.Decimal :=
  let (whole, rest) := Text.spanDigits cs
  let (fraction, rest) := match rest with
    | '.' :: rest => Text.spanDigits rest
    | rest => ([], rest)
  if whole = [] && fraction = [] then none
  else (exponent? rest).map (Text.Decimal.ofParts whole fraction)

/-- Whether a spelling is a float: a finite decimal, an infinity, or not a number. -/
def isFloat (cs : List Char) : Bool :=
  let infinities := [".inf", ".Inf", ".INF"].map String.toList
  let undefined := [".nan", ".NaN", ".NAN"].map String.toList
  let unsigned := match cs with
    | c :: rest => if c = '-' || c = '+' then rest else cs
    | [] => []
  undefined.contains cs || infinities.contains unsigned ||
    (decimal? unsigned).any Text.Decimal.isFinite

/-! ### Plain scalars -/

/-- What a spelling stands for. -/
def plainValue (cs : List Char) : Plain :=
  if ["", "~", "null", "Null", "NULL"].contains (String.ofList cs) then .null
  else if ["true", "True", "TRUE"].contains (String.ofList cs) then .bool true
  else if ["false", "False", "FALSE"].contains (String.ofList cs) then .bool false
  else
    match integer? cs with
    | some (.ofNat n) =>
      if cs.head? = some '-' then .negative
      else if Text.fits 64 n then .natural n
      else if Text.fits 128 n then .wide
      else if isFloat cs then .float
      else .text
    | some (.negSucc n) =>
      if Text.fits 63 n then .negative
      else if Text.fits 127 n then .wide
      else if isFloat cs then .float
      else .text
    | none => if !isPadded cs && isFloat cs then .float else .text

/-- The datum of a plain scalar; a number that needs more than 64 bits has none. -/
def plainDatum (cs : List Char) : Option Datum :=
  match plainValue cs with
  | .null => some .null
  | .bool b => some (.bool b)
  | .natural n => some (.natural n)
  | .negative | .float => some (.number (String.ofList cs))
  | .wide => none
  | .text => some (.text (String.ofList cs))

end OverDelimited.Yaml
