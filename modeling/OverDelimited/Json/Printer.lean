import OverDelimited.Json.Text
import OverDelimited.Tree

/-!
# JSON output

A tree on one line without spaces, or spread over lines with two spaces of indentation a level.
Empty lists and records stay closed up in both.
-/

namespace OverDelimited.Json

/-! ### On one line -/

mutual
/-- A tree without any white space. -/
def compact : Tree → List Char
  | .null => ['n', 'u', 'l', 'l']
  | .text s => quote s.toList
  | .list items => '[' :: compactItems items ++ [']']
  | .record fields => '\x7b' :: compactFields fields ++ ['\x7d']

/-- Items with commas between them. -/
def compactItems : List Tree → List Char
  | [] => []
  | [item] => compact item
  | item :: rest => compact item ++ ',' :: compactItems rest

/-- Fields with commas between them. -/
def compactFields : List (String × Tree) → List Char
  | [] => []
  | [(name, item)] => quote name.toList ++ ':' :: compact item
  | (name, item) :: rest => quote name.toList ++ ':' :: compact item ++ ',' :: compactFields rest
end

/-! ### Over several lines -/

/-- A line break and the indentation of a level. -/
def newline (level : Nat) : List Char :=
  '\n' :: List.replicate (2 * level) ' '

mutual
/-- A tree at the given level of indentation. -/
def pretty (level : Nat) : Tree → List Char
  | .null => ['n', 'u', 'l', 'l']
  | .text s => quote s.toList
  | .list [] => ['[', ']']
  | .list items => '[' :: prettyItems (level + 1) items ++ newline level ++ [']']
  | .record [] => ['\x7b', '\x7d']
  | .record fields => '\x7b' :: prettyFields (level + 1) fields ++ newline level ++ ['\x7d']

/-- Items, each on a line of its own. -/
def prettyItems (level : Nat) : List Tree → List Char
  | [] => []
  | [item] => newline level ++ pretty level item
  | item :: rest => newline level ++ pretty level item ++ ',' :: prettyItems level rest

/-- Fields, each on a line of its own. -/
def prettyFields (level : Nat) : List (String × Tree) → List Char
  | [] => []
  | [(name, item)] => newline level ++ quote name.toList ++ ':' :: ' ' :: pretty level item
  | (name, item) :: rest =>
    newline level ++ quote name.toList ++ ':' :: ' ' :: pretty level item ++
      ',' :: prettyFields level rest
end

/-- A tree as JSON text. -/
def print (spread : Bool) (t : Tree) : List Char :=
  if spread then pretty 0 t else compact t

end OverDelimited.Json
