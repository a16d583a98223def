import OverDelimited.Text.Lines

/-!
# Places in a YAML text

A cursor is what is left of a text and how far it lies from the text's start and from the start of
its line.  YAML knows five line breaks; all but the two Unicode separators are read as line feeds.
-/

namespace OverDelimited.Yaml

/-! ### Character classes -/

/-- The characters that end a line. -/
def isBreak (c : Char) : Bool :=
  c = '\n' || c = '\r' || c = '\u0085' || c = '\u2028' || c = '\u2029'

/-- Blanks and line breaks. -/
def isSpacing (c : Char) : Bool :=
  Text.isBlank c || isBreak c

/-- Whether a text is at its end, or a blank or a line break comes next. -/
def atSpacing : List Char → Bool
  | [] => true
  | c :: _ => isSpacing c

/-- Whether a text or its line is at the end. -/
def atLineEnd : List Char → Bool
  | [] => true
  | c :: _ => isBreak c

/-- The characters of names. -/
def isWord (c : Char) : Bool :=
  c.isAlphanum || c = '_' || c = '-'

/-- The characters a YAML text may hold at all. -/
def isAllowed (c : Char) : Bool :=
  let n := c.toNat
  n = 0x09 || n = 0x0a || n = 0x0d || (0x20 ≤ n && n ≤ 0x7e) || n = 0x85 ||
    (0xa0 ≤ n && n ≤ 0xd7ff) || (0xe000 ≤ n && n ≤ 0xfffd) || 0x10000 ≤ n

/-- Whether a text starts with the three characters of a document mark, set off by spacing. -/
def atDocumentMark (mark : Char) : List Char → Bool
  | a :: b :: c :: rest => a = mark && b = mark && c = mark && atSpacing rest
  | _ => false

/-! ### Cursors -/

/-- A place in a text. -/
structure Cursor where
  rest : List Char
  index : Nat := 0
  line : Nat := 0
  column : Nat := 0

namespace Cursor

/-- The start of a text. -/
def start (text : List Char) : Cursor :=
  { rest := text }

/-- Moves over the given number of characters, none of them a line break. -/
def skip (n : Nat) (c : Cursor) : Cursor :=
  { c with rest := c.rest.drop n, index := c.index + n, column := c.column + n }

/-- Moves to a later place on the same line. -/
def moveTo (rest : List Char) (c : Cursor) : Cursor :=
  c.skip (c.rest.length - rest.length)

/-- Moves over a line break, if there is one, and gives the break as it is read. -/
def takeBreak (c : Cursor) : List Char × Cursor :=
  match c.rest with
  | '\r' :: '\n' :: rest => (['\n'], { rest, index := c.index + 2, line := c.line + 1 })
  | b :: rest =>
    if isBreak b then
      (if b = '\u2028' || b = '\u2029' then [b] else ['\n'],
        { rest, index := c.index + 1, line := c.line + 1 })
    else ([], c)
  | [] => ([], c)

/-- Whether a document mark stands here. -/
def atDocumentEdge (c : Cursor) : Bool :=
  c.column = 0 && (atDocumentMark '-' c.rest || atDocumentMark '.' c.rest)

end Cursor

end OverDelimited.Yaml
