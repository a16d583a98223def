/-!
# Lines of a text

A text is a list of characters and a line feed is the only line separator.  Cutting a text into
lines and joining the lines again gives the text back (`toText_ofText`).  Beside the cut stand the
two runs at the ends of a delimited text: the blank line after its opening delimiter and the line
break with its indentation before the closing one.
-/

namespace OverDelimited.Text

/-! ### Margin characters -/

/-- Space and tab are the only characters that indent. -/
def isBlank (c : Char) : Bool :=
  c = ' ' || c = '\t'

/-! ### Cutting and joining -/

/-- A text cut at its line feeds: the line it opens with and the lines after it. -/
structure Lines where
  first : List Char
  later : List (List Char)
deriving DecidableEq, Repr

namespace Lines

/-- Cuts a text at every line feed. -/
def ofText : List Char → Lines
  | [] => ⟨[], []⟩
  | c :: rest =>
    let tail := ofText rest
    if c = '\n' then ⟨[], tail.first :: tail.later⟩ else ⟨c :: tail.first, tail.later⟩

/-- The lines of later index, each led by the line feed before it. -/
def joinLater : List (List Char) → List Char
  | [] => []
  | line :: rest => '\n' :: (line ++ joinLater rest)

/-- Joins the lines with line feeds. -/
def toText (lines : Lines) : List Char :=
  lines.first ++ joinLater lines.later

theorem toText_ofText (text : List Char) : (ofText text).toText = text := by
  induction text with
  | nil => rfl
  | cons c rest ih =>
    by_cases h : c = '\n' <;> simp_all [ofText, toText, joinLater]

end Lines

/-! ### Boundary runs -/

/-- Drops the blanks, an optional carriage return and the line feed a text opens with. -/
def dropOpeningBreak (text : List Char) : List Char :=
  match text.dropWhile isBlank with
  | '\r' :: '\n' :: rest => rest
  | '\n' :: rest => rest
  | _ => text

/-- Drops the last line break, with its optional carriage return, if only blanks follow it. -/
def dropClosingBreak (text : List Char) : List Char :=
  match text.reverse.dropWhile isBlank with
  | '\n' :: '\r' :: rest => rest.reverse
  | '\n' :: rest => rest.reverse
  | _ => text

/-! ### Margins -/

/-- What is left of a line once the margin is taken off its front. -/
def stripMargin : List Char → List Char → Option (List Char)
  | [], line => some line
  | _ :: _, [] => none
  | m :: margin, c :: line => if m = c then stripMargin margin line else none

end OverDelimited.Text
