/-!
# Template literals

A template literal alternates runs of text with placeholders, and starts and ends with text.  The
type `Literal` builds this alternation in, so a literal always has one text segment more than it
has placeholders (`length_segments`); `Literal.ofParts` is where two lists of parts are checked to
interleave.  What a placeholder is stays a parameter, for nothing here looks at one.

These are the literals and the trivial literals of the specification, sections 3 and 10.2.
-/

namespace OverDelimited

/-- A run of literal text: the source characters, and their value once escapes are processed,
which is absent when they could not be. -/
structure Segment where
  raw : String
  cooked : Option String
deriving DecidableEq, Repr

/-- A segment without escapes. -/
def Segment.ofText (text : String) : Segment :=
  ⟨text, some text⟩

/-- Text segments with placeholders between them. -/
inductive Literal (α : Type) where
  /-- The segment before the closing delimiter. -/
  | text (segment : Segment)
  /-- A segment, the placeholder that ends it, and what follows the placeholder. -/
  | hole (segment : Segment) (placeholder : α) (rest : Literal α)
deriving DecidableEq, Repr

/-- Counts of text segments and placeholders that do not interleave. -/
structure ShapeError where
  segments : Nat
  placeholders : Nat
deriving DecidableEq, Repr

/-- The wording of a shape error. -/
def ShapeError.message (e : ShapeError) : String :=
  "literal has " ++ toString e.segments ++ " text segments for " ++ toString e.placeholders ++
    " placeholders"

namespace Literal

variable {α β ε : Type}

/-! ### Parts -/

/-- The text segments, in order. -/
def segments : Literal α → List Segment
  | text s => [s]
  | hole s _ rest => s :: rest.segments

/-- The placeholders, in order. -/
def placeholders : Literal α → List α
  | text _ => []
  | hole _ p rest => p :: rest.placeholders

/-- The segment after the opening delimiter. -/
def first : Literal α → Segment
  | text s => s
  | hole s _ _ => s

theorem length_segments (l : Literal α) : l.segments.length = l.placeholders.length + 1 := by
  induction l with
  | text s => rfl
  | hole s p rest ih => simp [segments, placeholders, ih]

/-- Interleaves segments and placeholders, if their numbers allow it. -/
def interleave : List Segment → List α → Option (Literal α)
  | [s], [] => some (text s)
  | s :: ss, p :: ps => (interleave ss ps).map (hole s p)
  | _, _ => none

/-- The literal of the given parts, or how many there were of each. -/
def ofParts (segments : List Segment) (placeholders : List α) : Except ShapeError (Literal α) :=
  match interleave segments placeholders with
  | some l => .ok l
  | none => .error ⟨segments.length, placeholders.length⟩

theorem interleave_parts (l : Literal α) : interleave l.segments l.placeholders = some l := by
  induction l with
  | text s => rfl
  | hole s p rest ih => simp [segments, placeholders, interleave, ih]

/-! ### Text-only literals -/

/-- A literal of one segment without escapes. -/
def ofText (raw : String) : Literal α :=
  text (Segment.ofText raw)

/-- What a delimiter pair that closes right against itself reads as. -/
def trivial : Literal α :=
  ofText ""

/-- One segment without source characters, whatever its cooked value. -/
def isTrivial : Literal α → Bool
  | text s => s.raw = ""
  | hole _ _ _ => false

/-! ### Rebuilding -/

/-- Replaces every segment by what `f` makes of it and its index, counted from `i`; the first
failure ends it. -/
def mapSegmentsFrom (f : Nat → Segment → Except ε Segment) (i : Nat) :
    Literal α → Except ε (Literal α)
  | text s => (f i s).map text
  | hole s p rest =>
    match f i s with
    | .error e => .error e
    | .ok s' => (mapSegmentsFrom f (i + 1) rest).map (hole s' p)

/-- Puts the given expressions in the place of the placeholders, first to first; placeholders that
are left over stay. -/
def withPlaceholders : Literal α → List α → Literal α
  | text s, _ => text s
  | hole s p rest, [] => hole s p rest
  | hole s _ rest, q :: qs => hole s q (rest.withPlaceholders qs)

theorem placeholders_withPlaceholders (l : Literal α) (ps : List α)
    (h : ps.length = l.placeholders.length) : (l.withPlaceholders ps).placeholders = ps := by
  induction l generalizing ps with
  | text s => cases ps <;> simp_all [placeholders, withPlaceholders]
  | hole s p rest ih =>
    cases ps with
    | nil => simp [placeholders] at h
    | cons q qs => simp_all [placeholders, withPlaceholders]

theorem segments_withPlaceholders (l : Literal α) (ps : List α) :
    (l.withPlaceholders ps).segments = l.segments := by
  induction l generalizing ps with
  | text s => rfl
  | hole s p rest ih => cases ps <;> simp [segments, withPlaceholders, ih]

end Literal

end OverDelimited
