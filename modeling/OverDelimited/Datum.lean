import OverDelimited.Tree

/-!
# Data as read

What a data format hands over before it is known what the data means.  A datum keeps every entry of
a record, in order and with repetitions.  Some data is well written and yet has no value: such a
leaf is `unreadable`, which matters only where the value is asked for.
-/

namespace OverDelimited

/-- The key of a record entry. -/
inductive Key where
  | text (name : String)
  /-- A whole number, which names a field by its place. -/
  | index (n : Nat)
  /-- Any other value. -/
  | other
  /-- Well written, but without a value. -/
  | unreadable
deriving DecidableEq, Repr

/-- A datum. -/
inductive Datum where
  | null
  | bool (value : Bool)
  /-- A whole number without a sign that fits 64 bits. -/
  | natural (value : Nat)
  /-- Any other number, as it is spelled. -/
  | number (spelling : String)
  | text (value : String)
  | list (items : List Datum)
  | record (entries : List (Key × Datum))
  /-- Well written, but without a value. -/
  | unreadable

namespace Datum

/-! ### What can be read -/

mutual
/-- Whether a datum has a value all the way down, nested at most `limit` levels deep. -/
def isReadable : Nat → Datum → Bool
  | 0, list _ => false
  | 0, record _ => false
  | limit + 1, list items => areReadable limit items
  | limit + 1, record entries => entriesReadable limit entries
  | _, unreadable => false
  | _, _ => true

/-- Whether all items have a value. -/
def areReadable (limit : Nat) : List Datum → Bool
  | [] => true
  | item :: rest => isReadable limit item && areReadable limit rest

/-- Whether all entries have a key and a value. -/
def entriesReadable (limit : Nat) : List (Key × Datum) → Bool
  | [] => true
  | (key, item) :: rest => key != .unreadable && isReadable limit item && entriesReadable limit rest
end

mutual
/-- How deep lists and records are nested. -/
def depth : Datum → Nat
  | list items => depthList items + 1
  | record entries => depthEntries entries + 1
  | _ => 0

/-- The greatest depth among items. -/
def depthList : List Datum → Nat
  | [] => 0
  | item :: rest => max (depth item) (depthList rest)

/-- The greatest depth among the values of entries. -/
def depthEntries : List (Key × Datum) → Nat
  | [] => 0
  | (_, item) :: rest => max (depth item) (depthEntries rest)
end

end Datum

/-! ### Written trees as data -/

mutual
/-- A written tree as the datum it is read as. -/
def Tree.toDatum : Tree → Datum
  | .null => .null
  | .text s => .text s
  | .list items => .list (Tree.toData items)
  | .record fields => .record (Tree.toEntries fields)

/-- The items of a written list as data. -/
def Tree.toData : List Tree → List Datum
  | [] => []
  | item :: rest => Tree.toDatum item :: Tree.toData rest

/-- The fields of a written record as entries. -/
def Tree.toEntries : List (String × Tree) → List (Key × Datum)
  | [] => []
  | (name, item) :: rest => (.text name, Tree.toDatum item) :: Tree.toEntries rest
end

end OverDelimited
