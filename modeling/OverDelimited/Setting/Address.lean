import OverDelimited.Setting
import OverDelimited.Text.Decimal

/-!
# Addresses of settings

An address such as `output.pretty` or `a.b[0]` leads to a place in a tree of settings.  Assigning to
an address makes every table and list it passes through, whatever stood there before.
-/

namespace OverDelimited.Setting

/-- One step into a tree. -/
inductive Step where
  | name (name : String)
  /-- A place in a list; below zero it counts from the end. -/
  | index (i : Int)
deriving DecidableEq, Repr

/-- An address: the steps from the root down. -/
abbrev Address := List Step

namespace Address

/-! ### Reading -/

/-- The characters of a name. -/
def isNameChar (c : Char) : Bool :=
  c.isAlphanum || c = ' ' || c = '_' || c = '-'

/-- The white space around the number of a place. -/
def isSpacing (c : Char) : Bool :=
  c = ' ' || c = '\t' || c = '\r' || c = '\n'

/-- A name, and what follows it. -/
def name? (cs : List Char) : Option (String × List Char) :=
  let name := cs.takeWhile isNameChar
  if name = [] then none else some (String.ofList name, cs.dropWhile isNameChar)

/-- A number of 64 bits with its sign and its closing bracket, and what follows it. -/
def index? (cs : List Char) : Option (Int × List Char) := do
  let start := cs.dropWhile isSpacing
  let negative := start.head? = some '-'
  let (digits, rest) := Text.spanDigits (if negative then start.drop 1 else start)
  let size ← Text.digits? 10 digits
  let value : Int := if negative then -(size : Int) else (size : Int)
  match rest.dropWhile isSpacing with
  | ']' :: rest => if Text.fitsSigned 64 value then some (value, rest) else none
  | _ => none

/-- The steps after the first, in at most `fuel` steps. -/
def steps? : Nat → List Char → Option Address
  | _, [] => some []
  | 0, _ => none
  | fuel + 1, '.' :: rest => do
    let (name, rest) ← name? rest
    (steps? fuel rest).map (.name name :: ·)
  | fuel + 1, '[' :: rest => do
    let (i, rest) ← index? rest
    (steps? fuel rest).map (.index i :: ·)
  | _ + 1, _ => none

/-- The address a text spells: a name, then names after dots and places in brackets. -/
def read? (text : String) : Option Address := do
  let (name, rest) ← name? text.toList
  (steps? rest.length rest).map (.name name :: ·)

end Address

/-! ### Assigning -/

/-- The place in a list of the given length. -/
def placeOf (i : Int) (length : Nat) : Nat :=
  if 0 ≤ i then i.toNat else length - i.natAbs

/-- Changes the item at a place; a list that is too short is filled up. -/
def changeAt (place : Nat) (change : Setting → Setting) (items : List Setting) : List Setting :=
  let items := items ++ List.replicate (place + 1 - items.length) nil
  items.modify place change

/-- Puts a value at an address. -/
def assign (value : Setting) : Address → Setting → Setting
  | [], _ => value
  | [.name name], root => put name value root
  | .name name :: rest, root =>
    table (upsert (foldName name) (fun old => assign value rest (old.getD nil)) root.entries)
  | .index i :: rest, root =>
    list (changeAt (placeOf i root.items.length) (assign value rest) root.items)

/-- Makes assignments one after another. -/
def assignAll (assignments : List (Address × Setting)) (root : Setting) : Setting :=
  assignments.foldl (fun root (address, value) => assign value address root) root

/-- The address that the name of an entry spells; any other name is one step. -/
def addressOf (name : String) : Address :=
  (Address.read? name).getD [.name name]

/-- The assignments that the entries of a file stand for. -/
def assignmentsOf (entries : List (String × Setting)) : List (Address × Setting) :=
  entries.map fun (name, value) => (addressOf name, value)

/-- Puts the entries of a file over a tree, as they are listed. -/
def layer (entries : List (String × Setting)) (root : Setting) : Setting :=
  assignAll (assignmentsOf entries) root

end OverDelimited.Setting
