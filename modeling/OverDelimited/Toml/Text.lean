import OverDelimited.Text.Decimal
import OverDelimited.Text.Lines

/-!
# TOML strings

Strings stand between double quotes, with escapes, or between single quotes, without; with the
quotes tripled they may run over lines.  A body is first cut off at its closing quotes and its
escapes are resolved after that.  The text of a document has only line feeds for line breaks.
-/

namespace OverDelimited.Toml

/-- What reads a value off the front of a text. -/
abbrev Reader (α : Type) := List Char → Option (α × List Char)

/-! ### Spacing -/

/-- The characters that may stand inside a line: all but controls, the tab excepted. -/
def isInLine (c : Char) : Bool :=
  c = '\t' || (0x20 ≤ c.toNat && c ≠ '\x7f')

/-- What is left of a text after blanks, line breaks and comments. -/
def skipLines (inComment : Bool) : List Char → List Char
  | [] => []
  | c :: rest =>
    if c = '\n' then skipLines false rest
    else if inComment then if isInLine c then skipLines true rest else c :: rest
    else if Text.isBlank c then skipLines false rest
    else if c = '#' then skipLines true rest
    else c :: rest

/-- What is left of a text after the blanks and the comment that end a line. -/
def lineEnd? (cs : List Char) : Option (List Char) :=
  let cs := cs.dropWhile Text.isBlank
  let cs := if cs.head? = some '#' then cs.dropWhile isInLine else cs
  match cs with
  | [] => some []
  | '\n' :: rest => some rest
  | _ => none

/-! ### Escapes -/

/-- The character of an escape by letter. -/
def escaped? (c : Char) : Option Char :=
  if c = 'b' then some '\x08'
  else if c = 't' then some '\t'
  else if c = 'n' then some '\n'
  else if c = 'f' then some '\x0c'
  else if c = 'r' then some '\r'
  else if c = '"' then some '"'
  else if c = '\\' then some '\\'
  else none

/-- The character of the given number in hexadecimal digits. -/
def codePoint? (digits : List Char) : Option Char :=
  (Text.digits? 16 digits).bind fun n => if n.isValidChar then some (Char.ofNat n) else none

/-- What an escape after its backslash stands for, and what follows it.  A backslash at the end of a
line stands for nothing and takes the blanks and line breaks after it along. -/
def escape? : Reader (List Char)
  | [] => none
  | 'u' :: rest => (codePoint? (rest.take 4)).bind fun c =>
    if 4 ≤ rest.length then some ([c], rest.drop 4) else none
  | 'U' :: rest => (codePoint? (rest.take 8)).bind fun c =>
    if 8 ≤ rest.length then some ([c], rest.drop 8) else none
  | c :: rest =>
    match escaped? c with
    | some c => some ([c], rest)
    | none =>
      match (c :: rest).dropWhile Text.isBlank with
      | '\n' :: rest => some ([], rest.dropWhile fun c => Text.isBlank c || c = '\n')
      | _ => none

/-- The text of a body with escapes, in at most `fuel` steps. -/
def unescape : Nat → List Char → Option (List Char)
  | _, [] => some []
  | 0, _ => none
  | fuel + 1, '\\' :: rest => do
    let (text, rest) ← escape? rest
    (unescape fuel rest).map (text ++ ·)
  | fuel + 1, c :: rest => (unescape fuel rest).map (c :: ·)

/-! ### Bodies -/

/-- The body of a string on one line, up to its closing quote.  With escapes, a backslash keeps the
character after it from closing. -/
def lineBody (quote : Char) (escapes : Bool) : Reader (List Char)
  | [] => none
  | c :: rest =>
    if c = quote then some ([], rest)
    else if !isInLine c then none
    else if escapes && c = '\\' then
      match rest with
      | [] => none
      | d :: rest =>
        if isInLine d then
          (lineBody quote escapes rest).map fun (body, rest) => (c :: d :: body, rest)
        else none
    else (lineBody quote escapes rest).map fun (body, rest) => (c :: body, rest)

/-- The body of a string over lines, up to its three closing quotes.  One or two quotes right before
those belong to the body. -/
def linesBody (quote : Char) (escapes : Bool) : Reader (List Char)
  | [] => none
  | c :: rest =>
    let run := ((c :: rest).takeWhile (· = quote)).length
    if 3 ≤ run then
      if run ≤ 5 then some (List.replicate (run - 3) quote, (c :: rest).drop run) else none
    else if !(isInLine c || c = '\n') then none
    else if escapes && c = '\\' then
      match rest with
      | [] => none
      | d :: rest =>
        if isInLine d || d = '\n' then
          (linesBody quote escapes rest).map fun (body, rest) => (c :: d :: body, rest)
        else none
    else (linesBody quote escapes rest).map fun (body, rest) => (c :: body, rest)

/-- A text without the line break it opens with. -/
def dropBreak : List Char → List Char
  | '\n' :: rest => rest
  | cs => cs

/-! ### Strings -/

/-- The text of a body that has escapes. -/
def resolve (body : Option (List Char × List Char)) : Option (List Char × List Char) := do
  let (body, rest) ← body
  let text ← unescape body.length body
  some (text, rest)

/-- A string on one line. -/
def lineString? : Reader (List Char)
  | '"' :: rest => resolve (lineBody '"' true rest)
  | '\x27' :: rest => lineBody '\x27' false rest
  | _ => none

/-- A string of any kind. -/
def string? : Reader (List Char)
  | '"' :: '"' :: '"' :: rest => resolve (linesBody '"' true (dropBreak rest))
  | '\x27' :: '\x27' :: '\x27' :: rest => linesBody '\x27' false (dropBreak rest)
  | cs => lineString? cs

end OverDelimited.Toml
