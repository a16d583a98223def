import OverDelimited.Literal
import OverDelimited.Text.Lines

/-!
# Margin normalization

An over-delimited literal is written indented to fit the code around it.  Its opening delimiter run
is followed by a line break; the indentation of the first non-empty line is the margin, and the
margin is taken off every line.  A non-empty line without the margin is an error, except the line
a segment opens with, which may continue a line after a placeholder.  The line break after the
opening run, and the line break with its indentation before the closing run, are dropped.

Raw and cooked text go through the same steps, both held to the margin of the first raw text.
`Literal.normalize` never looks at placeholders.

This is the margin normalizer of the specification, sections 4.2 and 10.4.  The two ways to be
malformed are those of section 7.
-/

namespace OverDelimited

open Text

/-! ### What can be wrong with a literal -/

/-- The two ways an over-delimited literal can be written wrongly. -/
inductive Malformed where
  /-- Content starts on the line of the opening delimiter run. -/
  | missingLeadingNewline
  /-- A non-empty line that must carry the margin does not start with it. -/
  | inconsistentMargin (segment line : Nat)
deriving DecidableEq, Repr

/-- The wording of a malformed literal. -/
def Malformed.message : Malformed → String
  | .missingLeadingNewline => "over-delimited literals must start with a newline"
  | .inconsistentMargin segment line =>
    "over-delimited literals should have consistent margins (line " ++ toString line ++
      " of text segment " ++ toString segment ++ ")"

/-! ### The margin -/

/-- The leading blanks of the first non-empty line after the opening line break. -/
def marginOf (text : List Char) : Except Malformed (List Char) :=
  let lines := Lines.ofText text
  if lines.first = [] then
    .ok (((lines.later.find? fun line => line ≠ []).getD []).takeWhile isBlank)
  else
    .error .missingLeadingNewline

/-! ### Segments within a literal -/

/-- Where a segment stands among the segments of its literal. -/
inductive Position where
  | only
  | first
  | middle
  | last
deriving DecidableEq, Repr

namespace Position

/-- The position of the segment with the given index among `count` segments. -/
def of (index count : Nat) : Position :=
  match index == 0, index == count - 1 with
  | true, true => only
  | true, false => first
  | false, true => last
  | false, false => middle

/-- A segment after the opening delimiter loses its opening line break. -/
def trimsLeading : Position → Bool
  | only | first => true
  | middle | last => false

/-- A segment before the closing delimiter loses its closing line break. -/
def trimsTrailing : Position → Bool
  | only | last => true
  | first | middle => false

/-- The text left between the boundary runs; the closing run is dropped first. -/
def trim (position : Position) (text : List Char) : List Char :=
  let text := if position.trimsTrailing then dropClosingBreak text else text
  if position.trimsLeading then dropOpeningBreak text else text

end Position

/-! ### Lines within a segment -/

/-- How a line is held to the margin. -/
inductive LineRule where
  /-- The line a segment opens with may lack the margin. -/
  | continuation
  /-- A later line must carry the margin unless it is empty. -/
  | checked
deriving DecidableEq, Repr

/-- Only the line of index 0 continues another. -/
def LineRule.ofIndex (index : Nat) : LineRule :=
  if index = 0 then .continuation else .checked

/-- What becomes of a line held against the margin. -/
inductive LineOutcome where
  | dedented (rest : List Char)
  | kept (line : List Char)
  | inconsistent
deriving DecidableEq, Repr

/-- Holds one line against the margin. -/
def classify (margin : List Char) (rule : LineRule) (line : List Char) : LineOutcome :=
  match stripMargin margin line with
  | some rest => .dedented rest
  | none =>
    match rule, line with
    | .checked, _ :: _ => .inconsistent
    | _, _ => .kept line

/-- Takes the margin off a run of lines, the first of which has index `index`. -/
def dedentLines (margin : List Char) (segment : Nat) :
    Nat → List (List Char) → Except Malformed (List (List Char))
  | _, [] => .ok []
  | index, line :: rest =>
    match classify margin (.ofIndex index) line with
    | .inconsistent => .error (.inconsistentMargin segment index)
    | .dedented kept | .kept kept => (dedentLines margin segment (index + 1) rest).map (kept :: ·)

/-- Takes the margin off all lines of a text. -/
def dedent (margin : List Char) (segment : Nat) (text : List Char) : Except Malformed (List Char) :=
  let lines := Lines.ofText text
  match dedentLines margin segment 0 (lines.first :: lines.later) with
  | .error e => .error e
  | .ok [] => .ok []
  | .ok (first :: later) => .ok (Lines.toText ⟨first, later⟩)

/-- Trims and dedents one of the texts of a segment. -/
def normalizeText (margin : List Char) (position : Position) (segment : Nat) (text : String) :
    Except Malformed String :=
  (dedent margin segment (position.trim text.toList)).map String.ofList

/-! ### Segments and literals -/

/-- Trims and dedents the raw text of a segment, then its cooked text. -/
def Segment.normalize (margin : List Char) (count index : Nat) (s : Segment) :
    Except Malformed Segment :=
  let position := Position.of index count
  match normalizeText margin position index s.raw with
  | .error e => .error e
  | .ok raw =>
    match s.cooked with
    | none => .ok ⟨raw, none⟩
    | some cooked =>
      (normalizeText margin position index cooked).map fun cooked => ⟨raw, some cooked⟩

/-- Trims and dedents a literal: every segment, or the first problem met. -/
def Literal.normalize {α : Type} (l : Literal α) : Except Malformed (Literal α) :=
  match marginOf l.first.raw.toList with
  | .error e => .error e
  | .ok margin => l.mapSegmentsFrom (Segment.normalize margin l.segments.length) 0

end OverDelimited
