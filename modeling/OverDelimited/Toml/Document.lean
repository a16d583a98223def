import OverDelimited.Toml.Number
import OverDelimited.Toml.Table

/-!
# TOML documents

A document is a row of headers and of keys with values, each on a line of its own.  Arrays and
inline tables may be nested to a limit, and a key may have as many parts.
-/

namespace OverDelimited.Toml

/-- How deep arrays and inline tables may be nested, and how many parts a key may have. -/
def nestingLimit : Nat := 79

/-! ### Keys -/

/-- The characters of a key without quotes. -/
def isKeyChar (c : Char) : Bool :=
  c.isAlphanum || c = '_' || c = '-'

/-- One part of a key. -/
def keyPart? (cs : List Char) : Option (String × List Char) :=
  let bare := cs.takeWhile isKeyChar
  if bare = [] then (lineString? cs).map fun (text, rest) => (String.ofList text, rest)
  else some (String.ofList bare, cs.dropWhile isKeyChar)

/-- A key of at most the given number of parts, with the blanks around it. -/
def key? : Nat → Reader (List String)
  | 0, _ => none
  | parts + 1, cs => do
    let (part, rest) ← keyPart? (cs.dropWhile Text.isBlank)
    match rest.dropWhile Text.isBlank with
    | '.' :: rest => (key? parts rest).map fun (key, rest) => (part :: key, rest)
    | rest => some ([part], rest)

/-- A key and its value, with the blanks around them. -/
def pair? (value : Reader Setting) (cs : List Char) :
    Option ((List String × Setting) × List Char) := do
  let (key, rest) ← key? nestingLimit cs
  let rest ← expect '=' rest
  let (value, rest) ← value (rest.dropWhile Text.isBlank)
  some ((key, value), rest.dropWhile Text.isBlank)

/-! ### Values -/

/-- A value without parts. -/
def leaf? (cs : List Char) : Option (Setting × List Char) :=
  match cs with
  | 't' :: 'r' :: 'u' :: 'e' :: rest => some (.bool true, rest)
  | 'f' :: 'a' :: 'l' :: 's' :: 'e' :: rest => some (.bool false, rest)
  | '"' :: _ | '\x27' :: _ =>
    (string? cs).map fun (text, rest) => (.text (String.ofList text), rest)
  | _ =>
    match moment? cs with
    | some rest => some (.text (String.ofList (cs.take (cs.length - rest.length))), rest)
    | none => number? cs

/-- The values of an array up to its closing bracket, in at most `fuel` steps.  Line breaks and
comments may stand between them, and a comma after the last. -/
def arrayRest (value : Reader Setting) : Nat → Reader (List Setting)
  | 0, _ => none
  | fuel + 1, cs =>
    match skipLines false cs with
    | ']' :: rest => some ([], rest)
    | cs => do
      let (item, rest) ← value cs
      match skipLines false rest with
      | ',' :: rest => (arrayRest value fuel rest).map fun (items, rest) => (item :: items, rest)
      | ']' :: rest => some ([item], rest)
      | _ => none

/-- The pairs of an inline table up to its closing brace, in at most `fuel` steps.  It has no line
breaks and no comma after the last pair. -/
def inlineRest (value : Reader Setting) : Nat → Reader (List (List String × Setting))
  | 0, _ => none
  | fuel + 1, cs => do
    let (pair, rest) ← pair? value cs
    match rest with
    | ',' :: rest => (inlineRest value fuel rest).map fun (pairs, rest) => (pair :: pairs, rest)
    | '\x7d' :: rest => some ([pair], rest)
    | _ => none

/-- The pairs of an inline table after its opening brace. -/
def inlinePairs (value : Reader Setting) (cs : List Char) :
    Option (List (List String × Setting) × List Char) :=
  match cs.dropWhile Text.isBlank with
  | '\x7d' :: rest => some ([], rest)
  | _ => inlineRest value cs.length cs

/-- A value, with arrays and inline tables nested to the given limit. -/
def value? : Nat → Reader Setting
  | 0, cs => leaf? cs
  | limit + 1, cs =>
    match cs with
    | '[' :: rest =>
      (arrayRest (value? limit) cs.length rest).map fun (items, rest) => (.list items, rest)
    | '\x7b' :: rest => do
      let (pairs, rest) ← inlinePairs (value? limit) rest
      let t ← Table.assignAll pairs []
      some (.table (Item.toEntries t), rest)
    | _ => leaf? cs

/-! ### Lines -/

/-- What a line says. -/
inductive Statement where
  | header (array : Bool) (key : List String)
  | pair (key : List String) (value : Setting)

/-- One statement with the rest of its line. -/
def statement? (cs : List Char) : Option (Statement × List Char) :=
  match cs with
  | '[' :: '[' :: rest => do
    let (key, rest) ← key? nestingLimit rest
    let rest ← expect ']' rest
    let rest ← expect ']' rest
    some (.header true key, ← lineEnd? rest)
  | '[' :: rest => do
    let (key, rest) ← key? nestingLimit rest
    let rest ← expect ']' rest
    some (.header false key, ← lineEnd? rest)
  | _ => do
    let ((key, value), rest) ← pair? (value? nestingLimit) cs
    some (.pair key value, ← lineEnd? rest)

/-- The statements of a document, in at most `fuel` steps. -/
def statements? : Nat → List Char → Option (List Statement)
  | 0, _ => none
  | fuel + 1, cs =>
    match skipLines false cs with
    | [] => some []
    | cs => do
      let (s, rest) ← statement? cs
      (statements? fuel rest).map (s :: ·)

/-! ### Sections -/

/-- A header with the pairs below it. -/
structure Section where
  array : Bool
  key : List String
  pairs : List (List String × Setting)

/-- The pairs before the first header, and the sections. -/
def sections : List Statement → List (List String × Setting) × List Section
  | [] => ([], [])
  | .pair key value :: rest =>
    let (pairs, later) := sections rest
    ((key, value) :: pairs, later)
  | .header array key :: rest =>
    let (pairs, later) := sections rest
    ([], ⟨array, key, pairs⟩ :: later)

/-- The table that statements make. -/
def tableOf (statements : List Statement) : Option Table := do
  let (pairs, later) := sections statements
  let root ← Table.assignAll pairs []
  later.foldlM (fun t s => Table.define s.array s.pairs s.key t) root

/-- A text with every carriage return before a line feed left out. -/
def joinBreaks : List Char → List Char
  | '\r' :: '\n' :: rest => '\n' :: joinBreaks rest
  | c :: rest => c :: joinBreaks rest
  | [] => []

/-- A text without a byte order mark. -/
def dropMark : List Char → List Char
  | '\ufeff' :: rest => rest
  | cs => cs

/-- The settings of a document. -/
def read (text : String) : Option (List (String × Setting)) := do
  let cs := joinBreaks (dropMark text.toList)
  let t ← tableOf (← statements? (cs.length + 1) cs)
  some (Item.toEntries t)

end OverDelimited.Toml
