import OverDelimited.Setting

/-!
# TOML tables

A document builds its tables bit by bit: by headers, by arrays of tables and by dotted keys.  A
table remembers how it came to be, because no table may be defined twice.
-/

namespace OverDelimited.Toml

/-- How a table came to be. -/
inductive Origin where
  /-- A header names it. -/
  | header
  /-- A longer header passes through it. -/
  | implied
  /-- A dotted key passes through it. -/
  | dotted
deriving DecidableEq, Repr

/-- What stands under a key. -/
inductive Item where
  | value (value : Setting)
  | table (origin : Origin) (entries : List (String × Item))
  /-- An array of tables, of which only the last can still grow. -/
  | tables (earlier : List (List (String × Item))) (last : List (String × Item))

/-- The entries of a table. -/
abbrev Table := List (String × Item)

namespace Table

/-- Puts an item under a key. -/
def insert (key : String) (item : Item) (t : Table) : Table :=
  Setting.upsert key (fun _ => item) t

/-- Sets a dotted key.  The table that takes the value must be the table at hand or one made by
dotted keys, and no table on the way may have a header of its own. -/
def assign (value : Setting) : List String → Table → Option Table
  | [], _ => none
  | [key], t => if (t.lookup key).isNone then some (t.insert key (.value value)) else none
  | key :: rest, t =>
    match t.lookup key with
    | none => (assign value rest []).map fun sub => t.insert key (.table .dotted sub)
    | some (.value _) => none
    | some (.table origin sub) =>
      if origin = .header ∨ (rest.length = 1 ∧ origin ≠ .dotted) then none
      else (assign value rest sub).map fun sub => t.insert key (.table origin sub)
    | some (.tables earlier last) =>
      if rest.length = 1 then none
      else (assign value rest last).map fun last => t.insert key (.tables earlier last)

/-- Sets dotted keys one after another. -/
def assignAll (pairs : List (List String × Setting)) (t : Table) : Option Table :=
  pairs.foldlM (fun t (key, value) => assign value key t) t

/-- Defines the table a header names, with the entries of its section.  Only a table that longer
headers imply may be there already; an array of tables grows by one table instead. -/
def define (array : Bool) (pairs : List (List String × Setting)) :
    List String → Table → Option Table
  | [], _ => none
  | [key], t =>
    match array, t.lookup key with
    | false, none => (assignAll pairs []).map fun sub => t.insert key (.table .header sub)
    | false, some (.table .implied sub) =>
      (assignAll pairs sub).map fun sub => t.insert key (.table .header sub)
    | true, none => (assignAll pairs []).map fun sub => t.insert key (.tables [] sub)
    | true, some (.tables earlier last) =>
      (assignAll pairs []).map fun sub => t.insert key (.tables (earlier ++ [last]) sub)
    | _, _ => none
  | key :: rest, t =>
    match t.lookup key with
    | none => (define array pairs rest []).map fun sub => t.insert key (.table .implied sub)
    | some (.value _) => none
    | some (.table origin sub) =>
      (define array pairs rest sub).map fun sub => t.insert key (.table origin sub)
    | some (.tables earlier last) =>
      (define array pairs rest last).map fun last => t.insert key (.tables earlier last)

end Table

/-! ### As settings -/

mutual
/-- An item as a setting. -/
def Item.toSetting : Item → Setting
  | .value v => v
  | .table _ entries => .table (Item.toEntries entries)
  | .tables earlier last =>
    .list (Item.toTables earlier ++ [.table (Item.toEntries last)])

/-- The entries of a table as settings. -/
def Item.toEntries : List (String × Item) → List (String × Setting)
  | [] => []
  | (key, item) :: rest => (key, Item.toSetting item) :: Item.toEntries rest

/-- Tables as settings. -/
def Item.toTables : List (List (String × Item)) → List Setting
  | [] => []
  | entries :: rest => .table (Item.toEntries entries) :: Item.toTables rest
end

end OverDelimited.Toml
