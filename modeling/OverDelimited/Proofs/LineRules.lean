import OverDelimited.Margin

/-!
# The rules for lines

What normalizing does to a literal, said of its lines.  The texts of a literal are read in order,
segment after segment and raw before cooked.  Each is freed of the runs at the delimiters and split
at its line feeds; a line that must carry the margin and does not is an offence.  `normalize_eq`
says that normalizing reports the first offence, and otherwise takes the margin off every line that
carries it: steps 3 and 4 of the specification, section 4.2, for a whole literal at once.
-/

namespace OverDelimited

open Text

/-! ### Splitting and joining -/

theorem ofText_eq_splitOn (text : List Char) :
    (Lines.ofText text).first :: (Lines.ofText text).later = text.splitOn '\n' := by
  induction text with
  | nil => rfl
  | cons c rest ih =>
    rw [List.splitOn_cons_eq_if_modifyHead, ← ih]
    by_cases hc : c = '\n' <;> simp [Lines.ofText, hc]

theorem toText_eq_intercalate (first : List Char) (later : List (List Char)) :
    Lines.toText ⟨first, later⟩ = ['\n'].intercalate (first :: later) := by
  induction later generalizing first with
  | nil => simp [Lines.toText, Lines.joinLater]
  | cons line later ih =>
    have hrest : line ++ Lines.joinLater later = ['\n'].intercalate (line :: later) := ih line
    rw [List.intercalate_cons_cons, ← hrest]
    simp [Lines.toText, Lines.joinLater]

theorem first_ofText (text : List Char) :
    (Lines.ofText text).first = text.takeWhile fun c => c ≠ '\n' := by
  induction text with
  | nil => rfl
  | cons c rest ih => by_cases hc : c = '\n' <;> simp [Lines.ofText, hc, ih]

/-! ### Runs at the delimiters -/

/-- A line break, with or without a carriage return, after which only blanks stand. -/
def isClosingRun : List Char → Bool
  | '\n' :: blanks => blanks.all isBlank
  | '\r' :: '\n' :: blanks => blanks.all isBlank
  | _ => false

/-- The text in front of the closing run, or the whole text if none closes it. -/
def beforeClosingRun : List Char → List Char
  | [] => []
  | c :: rest => if isClosingRun (c :: rest) then [] else c :: beforeClosingRun rest

/-- What follows the blanks and the line break a text opens with, if it opens so. -/
def afterOpeningRun : List Char → Option (List Char)
  | '\n' :: rest => some rest
  | '\r' :: '\n' :: rest => some rest
  | c :: rest => if isBlank c then afterOpeningRun rest else none
  | [] => none

/-- A line without the carriage return it may end in. -/
def dropReturn (line : List Char) : List Char :=
  if line.getLast? = some '\r' then line.dropLast else line

theorem dropReturn_concat (line : List Char) : dropReturn (line ++ ['\r']) = line := by
  simp [dropReturn]

theorem dropReturn_cons {c : Char} {line : List Char} (h : ¬ (c = '\r' ∧ line = [])) :
    dropReturn (c :: line) = c :: dropReturn line := by
  cases line with
  | nil =>
    have hc : c ≠ '\r' := fun hc => h ⟨hc, rfl⟩
    simp [dropReturn, hc]
  | cons d line =>
    by_cases hlast : (d :: line).getLast? = some '\r' <;>
      simp [dropReturn, List.getLast?_cons_cons, hlast]

theorem isBlank_lineFeed : isBlank '\n' = false := rfl

theorem isClosingRun_iff {text : List Char} :
    isClosingRun text = true ↔ ∃ blanks, (∀ c ∈ blanks, isBlank c = true) ∧
      (text = '\n' :: blanks ∨ text = '\r' :: '\n' :: blanks) := by
  fun_cases isClosingRun text with
  | case1 blanks => simp
  | case2 blanks => simp
  | case3 text h1 h2 =>
    constructor
    · intro h
      cases h
    · intro h
      obtain ⟨blanks, -, rfl | rfl⟩ := h
      · exact absurd rfl (h1 blanks)
      · exact absurd rfl (h2 blanks)

section ClosingRun

variable {text kept blanks : List Char}

theorem not_all_blank_of_lineFeed {before after : List Char} :
    ¬ ∀ c ∈ before ++ '\n' :: after, isBlank c = true := by
  intro h
  have hfeed := h '\n' (by simp)
  rw [isBlank_lineFeed] at hfeed
  cases hfeed

theorem dropClosingBreak_of_run (hb : ∀ c ∈ blanks, isBlank c = true) :
    dropClosingBreak (kept ++ '\n' :: blanks) = dropReturn kept := by
  have hrun : (kept ++ '\n' :: blanks).reverse.dropWhile isBlank = '\n' :: kept.reverse := by
    have hrev : (kept ++ '\n' :: blanks).reverse = blanks.reverse ++ '\n' :: kept.reverse := by simp
    rw [hrev, List.dropWhile_append_of_pos (by simpa using hb), List.dropWhile_cons_of_neg]
    simp [isBlank_lineFeed]
  unfold dropClosingBreak
  rw [hrun]
  split
  · next rest h =>
    have hkept : kept = rest.reverse ++ ['\r'] := by
      have := congrArg List.reverse (List.cons.inj h).2
      simpa using this
    rw [hkept, dropReturn_concat]
  · next rest hreturn h =>
    have hrest : kept.reverse = rest := (List.cons.inj h).2
    have hlast : kept.getLast? ≠ some '\r' := by
      intro hlast
      obtain ⟨before, hkept⟩ := List.getLast?_eq_some_iff.mp hlast
      refine hreturn before.reverse ?_
      rw [← hrest, hkept]
      simp
    rw [← hrest, List.reverse_reverse, dropReturn, if_neg hlast]
  · next h1 h2 => exact absurd rfl (h2 kept.reverse)

theorem dropClosingBreak_of_no_run
    (h : ∀ kept blanks, text = kept ++ '\n' :: blanks → ¬ ∀ c ∈ blanks, isBlank c = true) :
    dropClosingBreak text = text := by
  have hrun : ∀ rest, text.reverse.dropWhile isBlank ≠ '\n' :: rest := by
    intro rest hrest
    have hsplit : text.reverse = text.reverse.takeWhile isBlank ++ '\n' :: rest := by
      rw [← hrest, List.takeWhile_append_dropWhile]
    have htext : text = rest.reverse ++ '\n' :: (text.reverse.takeWhile isBlank).reverse := by
      have := congrArg List.reverse hsplit
      simpa using this
    refine h _ _ htext ?_
    intro c hc
    rw [List.mem_reverse] at hc
    exact List.all_eq_true.mp List.all_takeWhile c hc
  unfold dropClosingBreak
  split
  · next rest hrest => exact absurd hrest (hrun _)
  · next rest hrest => exact absurd hrest (hrun _)
  · rfl

theorem beforeClosingRun_of_run (hb : ∀ c ∈ blanks, isBlank c = true) :
    beforeClosingRun (kept ++ '\n' :: blanks) = dropReturn kept := by
  induction kept with
  | nil =>
    have hrun : isClosingRun ('\n' :: blanks) = true := isClosingRun_iff.mpr ⟨blanks, hb, .inl rfl⟩
    rw [List.nil_append, beforeClosingRun, if_pos hrun]
    rfl
  | cons c kept ih =>
    by_cases hreturn : c = '\r' ∧ kept = []
    · obtain ⟨rfl, rfl⟩ := hreturn
      have hrun : isClosingRun ('\r' :: '\n' :: blanks) = true :=
        isClosingRun_iff.mpr ⟨blanks, hb, .inr rfl⟩
      show beforeClosingRun ('\r' :: '\n' :: blanks) = dropReturn ['\r']
      rw [beforeClosingRun, if_pos hrun]
      rfl
    · -- the line feed behind `kept` is no blank, so the run starts further on
      have hrun : isClosingRun (c :: (kept ++ '\n' :: blanks)) ≠ true := by
        intro h
        obtain ⟨later, hlater, heq | heq⟩ := isClosingRun_iff.mp h
        · rw [← (List.cons.inj heq).2] at hlater
          exact not_all_blank_of_lineFeed hlater
        · obtain ⟨hc, hrest⟩ := List.cons.inj heq
          cases kept with
          | nil => exact hreturn ⟨hc, rfl⟩
          | cons d kept =>
            rw [← (List.cons.inj hrest).2] at hlater
            exact not_all_blank_of_lineFeed hlater
      rw [List.cons_append, beforeClosingRun, if_neg hrun, ih, dropReturn_cons hreturn]

theorem beforeClosingRun_of_no_run
    (h : ∀ kept blanks, text = kept ++ '\n' :: blanks → ¬ ∀ c ∈ blanks, isBlank c = true) :
    beforeClosingRun text = text := by
  induction text with
  | nil => rfl
  | cons c rest ih =>
    have hrun : isClosingRun (c :: rest) ≠ true := by
      intro hrun
      obtain ⟨blanks, hb, heq | heq⟩ := isClosingRun_iff.mp hrun
      · exact h [] blanks heq hb
      · exact h ['\r'] blanks heq hb
    rw [beforeClosingRun, if_neg hrun, ih]
    intro kept blanks hrest
    exact h (c :: kept) blanks (congrArg (c :: ·) hrest)

end ClosingRun

theorem dropClosingBreak_eq (text : List Char) : dropClosingBreak text = beforeClosingRun text := by
  by_cases h : ∃ kept blanks, text = kept ++ '\n' :: blanks ∧ ∀ c ∈ blanks, isBlank c = true
  · obtain ⟨kept, blanks, rfl, hb⟩ := h
    rw [dropClosingBreak_of_run hb, beforeClosingRun_of_run hb]
  · have hno : ∀ kept blanks, text = kept ++ '\n' :: blanks → ¬ ∀ c ∈ blanks, isBlank c = true :=
      fun kept blanks htext hb => h ⟨kept, blanks, htext, hb⟩
    rw [dropClosingBreak_of_no_run hno, beforeClosingRun_of_no_run hno]

theorem afterOpeningRun_eq (text : List Char) :
    afterOpeningRun text =
      match text.dropWhile isBlank with
      | '\r' :: '\n' :: rest => some rest
      | '\n' :: rest => some rest
      | _ => none := by
  fun_induction afterOpeningRun text with
  | case1 rest => rfl
  | case2 rest => rfl
  | case3 c rest h1 h2 hc ih =>
    rw [List.dropWhile_cons_of_pos hc]
    exact ih
  | case4 c rest h1 h2 hc =>
    rw [List.dropWhile_cons_of_neg hc]
    split
    · next h => exact absurd (List.cons.inj h).2 (h2 _ (List.cons.inj h).1)
    · next h => exact absurd (List.cons.inj h).1 h1
    · rfl
  | case5 => rfl

theorem dropOpeningBreak_eq (text : List Char) :
    dropOpeningBreak text = (afterOpeningRun text).getD text := by
  rw [afterOpeningRun_eq, dropOpeningBreak]
  generalize text.dropWhile isBlank = run
  split
  · rfl
  · rfl
  · next h1 h2 => simp

/-! ### The margin and the lines under it -/

/-- The leading blanks of the first line after the first line feed that is not empty. -/
def marginIn (text : List Char) : List Char :=
  (((text.splitOn '\n').tail.find? fun line => line ≠ []).getD []).takeWhile isBlank

/-- A line that is not empty and does not start with the margin. -/
def LacksMargin (margin line : List Char) : Prop :=
  line ≠ [] ∧ ¬ margin <+: line

instance (margin line : List Char) : Decidable (LacksMargin margin line) :=
  inferInstanceAs (Decidable (_ ∧ _))

/-- A line with the margin taken off its front, if it starts with the margin. -/
def withoutMargin (margin line : List Char) : List Char :=
  if margin <+: line then line.drop margin.length else line

theorem marginOf_eq (text : List Char) :
    marginOf text = if text.takeWhile (fun c => c ≠ '\n') = [] then .ok (marginIn text)
      else .error .missingLeadingNewline := by
  have hlater : (text.splitOn '\n').tail = (Lines.ofText text).later := by
    rw [← ofText_eq_splitOn, List.tail_cons]
  rw [marginOf, marginIn, hlater, first_ofText]

theorem stripMargin_eq (margin line : List Char) :
    stripMargin margin line =
      if margin <+: line then some (line.drop margin.length) else none := by
  induction margin generalizing line with
  | nil => simp [stripMargin]
  | cons m margin ih =>
    cases line with
    | nil => simp [stripMargin]
    | cons c line =>
      by_cases hmc : m = c <;> simp [stripMargin, List.cons_prefix_cons, hmc, ih]

theorem dedentLines_cons_eq (margin : List Char) (segment index : Nat) (line : List Char)
    (rest : List (List Char)) :
    dedentLines margin segment index (line :: rest) =
      if 1 ≤ index ∧ LacksMargin margin line then .error (.inconsistentMargin segment index)
      else (dedentLines margin segment (index + 1) rest).map (withoutMargin margin line :: ·) := by
  by_cases hm : margin <+: line
  · simp [dedentLines, classify, stripMargin_eq, LacksMargin, withoutMargin, hm]
  · have hstrip : stripMargin margin line = none := by rw [stripMargin_eq, if_neg hm]
    cases index with
    | zero => simp [dedentLines, classify, hstrip, withoutMargin, hm, LineRule.ofIndex]
    | succ index =>
      cases line with
      | nil =>
        simp [dedentLines, classify, hstrip, withoutMargin, LineRule.ofIndex, LacksMargin, hm]
      | cons c line => simp [dedentLines, classify, hstrip, LineRule.ofIndex, LacksMargin, hm]

/-! ### Offences -/

/-- The result, or a report of the first offence if there is one. -/
def unlessOffended {α : Type} (offences : List (Nat × Nat)) (result : α) : Except Malformed α :=
  match offences with
  | [] => .ok result
  | (segment, line) :: _ => .error (.inconsistentMargin segment line)

/-- Where lines that must carry the margin lack it, the first line having the given index. -/
def offencesFrom (margin : List Char) (segment index : Nat) (lines : List (List Char)) :
    List (Nat × Nat) :=
  (lines.zipIdx index).filterMap fun (line, i) =>
    if 1 ≤ i ∧ LacksMargin margin line then some (segment, i) else none

theorem map_unlessOffended {α β : Type} (f : α → β) (offences : List (Nat × Nat)) (result : α) :
    (unlessOffended offences result).map f = unlessOffended offences (f result) := by
  cases offences <;> rfl

theorem offencesFrom_cons (margin : List Char) (segment index : Nat) (line : List Char)
    (rest : List (List Char)) :
    offencesFrom margin segment index (line :: rest) =
      if 1 ≤ index ∧ LacksMargin margin line
      then (segment, index) :: offencesFrom margin segment (index + 1) rest
      else offencesFrom margin segment (index + 1) rest := by
  rw [offencesFrom, List.zipIdx_cons, List.filterMap_cons]
  by_cases h : 1 ≤ index ∧ LacksMargin margin line <;> simp [h, offencesFrom]

theorem dedentLines_eq (margin : List Char) (segment index : Nat) (lines : List (List Char)) :
    dedentLines margin segment index lines =
      unlessOffended (offencesFrom margin segment index lines)
        (lines.map (withoutMargin margin)) := by
  induction lines generalizing index with
  | nil => rfl
  | cons line rest ih =>
    rw [dedentLines_cons_eq, offencesFrom_cons]
    by_cases h : 1 ≤ index ∧ LacksMargin margin line
    · rw [if_pos h, if_pos h]
      rfl
    · rw [if_neg h, if_neg h, ih, map_unlessOffended]
      rfl

theorem dedent_eq (margin : List Char) (segment : Nat) (text : List Char) :
    dedent margin segment text =
      (dedentLines margin segment 0 (text.splitOn '\n')).map fun lines =>
        ['\n'].intercalate lines := by
  rw [dedent, ← ofText_eq_splitOn]
  cases dedentLines margin segment 0 ((Lines.ofText text).first :: (Lines.ofText text).later) with
  | error e => rfl
  | ok lines =>
    cases lines with
    | nil => rfl
    | cons first later => exact congrArg Except.ok (toText_eq_intercalate first later)

/-! ### Texts, segments and literals -/

/-- The lines of a text of the given segment, once the runs at the delimiters are gone. -/
def trimmedLines (count segment : Nat) (text : String) : List (List Char) :=
  let closed := if segment + 1 = count then beforeClosingRun text.toList else text.toList
  let opened := if segment = 0 then (afterOpeningRun closed).getD closed else closed
  opened.splitOn '\n'

/-- A text of the given segment with its lines dedented and joined again. -/
def dedentedText (margin : List Char) (count segment : Nat) (text : String) : String :=
  String.ofList
    (['\n'].intercalate ((trimmedLines count segment text).map (withoutMargin margin)))

def Segment.texts (s : Segment) : List String :=
  s.raw :: s.cooked.toList

def Segment.offences (margin : List Char) (count segment : Nat) (s : Segment) : List (Nat × Nat) :=
  s.texts.flatMap fun text => offencesFrom margin segment 0 (trimmedLines count segment text)

def Segment.dedented (margin : List Char) (count segment : Nat) (s : Segment) : Segment :=
  ⟨dedentedText margin count segment s.raw, s.cooked.map (dedentedText margin count segment)⟩

theorem trim_of (count segment : Nat) (h : segment < count) (text : String) :
    ((Position.of segment count).trim text.toList).splitOn '\n' =
      trimmedLines count segment text := by
  have hlast : (segment == count - 1) = decide (segment + 1 = count) := by
    rw [Bool.eq_iff_iff, beq_iff_eq, decide_eq_true_iff]
    omega
  cases segment with
  | zero =>
    by_cases hc : 0 + 1 = count <;>
      simp [Position.of, hlast, hc, Position.trim, Position.trimsLeading, Position.trimsTrailing,
        trimmedLines, dropOpeningBreak_eq, dropClosingBreak_eq]
  | succ segment =>
    by_cases hc : segment + 1 + 1 = count <;>
      simp [Position.of, hlast, hc, Position.trim, Position.trimsLeading, Position.trimsTrailing,
        trimmedLines, dropClosingBreak_eq]

theorem normalizeText_eq (margin : List Char) {count segment : Nat} (h : segment < count)
    (text : String) :
    normalizeText margin (.of segment count) segment text =
      unlessOffended (offencesFrom margin segment 0 (trimmedLines count segment text))
        (dedentedText margin count segment text) := by
  rw [normalizeText, dedent_eq, trim_of count segment h, dedentLines_eq, map_unlessOffended,
    map_unlessOffended]
  rfl

theorem segment_normalize_eq (margin : List Char) {count segment : Nat} (h : segment < count)
    (s : Segment) :
    s.normalize margin count segment =
      unlessOffended (s.offences margin count segment) (s.dedented margin count segment) := by
  have hraw := normalizeText_eq margin h s.raw
  rw [Segment.normalize, Segment.offences, Segment.dedented, Segment.texts, List.flatMap_cons, hraw]
  cases offencesFrom margin segment 0 (trimmedLines count segment s.raw) with
  | cons offence rest => rfl
  | nil =>
    cases hcooked : s.cooked with
    | none => rfl
    | some cooked =>
      have htext := normalizeText_eq margin h cooked
      show (normalizeText margin (.of segment count) segment cooked).map _ = _
      rw [htext, map_unlessOffended]
      simp

namespace Literal

variable {α : Type}

/-- What the first raw text has in front of its first line feed. -/
def openingLine (l : Literal α) : List Char :=
  l.first.raw.toList.takeWhile fun c => c ≠ '\n'

def margin (l : Literal α) : List Char :=
  marginIn l.first.raw.toList

/-- The offences of a literal in the order in which its texts are read. -/
def offences (l : Literal α) : List (Nat × Nat) :=
  l.segments.zipIdx.flatMap fun (s, segment) => s.offences l.margin l.segments.length segment

/-- Every segment replaced by what `f` makes of it and its index, counted from `i`. -/
def mapFrom (f : Nat → Segment → Segment) (i : Nat) : Literal α → Literal α
  | text s => text (f i s)
  | hole s p rest => hole (f i s) p (rest.mapFrom f (i + 1))

theorem placeholders_mapFrom (f : Nat → Segment → Segment) (i : Nat) (l : Literal α) :
    (l.mapFrom f i).placeholders = l.placeholders := by
  induction l generalizing i with
  | text s => rfl
  | hole s p rest ih => simp [mapFrom, placeholders, ih]

theorem segments_mapFrom (f : Nat → Segment → Segment) (i : Nat) (l : Literal α) :
    (l.mapFrom f i).segments = l.segments.mapIdx fun j => f (i + j) := by
  induction l generalizing i with
  | text s => simp [mapFrom, segments]
  | hole s p rest ih =>
    have hindex : ∀ j, i + 1 + j = i + (j + 1) := by omega
    simp [mapFrom, segments, ih, hindex, List.mapIdx_cons]

/-- A traversal whose steps report their first offence reports the first of all. -/
theorem mapSegmentsFrom_eq {f : Nat → Segment → Except Malformed Segment}
    {offences : Nat → Segment → List (Nat × Nat)} {g : Nat → Segment → Segment} {count : Nat}
    (hf : ∀ i < count, ∀ s, f i s = unlessOffended (offences i s) (g i s)) (i : Nat)
    (l : Literal α) (h : i + l.segments.length ≤ count) :
    l.mapSegmentsFrom f i =
      unlessOffended ((l.segments.zipIdx i).flatMap fun (s, j) => offences j s)
        (l.mapFrom g i) := by
  induction l generalizing i with
  | text s =>
    have hi : i < count := by
      simp only [segments, List.length_cons, List.length_nil] at h
      omega
    rw [mapSegmentsFrom, hf i hi, map_unlessOffended]
    simp [segments, mapFrom]
  | hole s p rest ih =>
    simp only [segments, List.length_cons] at h
    rw [mapSegmentsFrom, hf i (by omega), ih (i + 1) (by omega)]
    simp only [map_unlessOffended, segments, List.zipIdx_cons, List.flatMap_cons, mapFrom]
    cases offences i s with
    | nil => rfl
    | cons offence more => rfl

theorem normalize_eq (l : Literal α) :
    l.normalize =
      if l.openingLine = [] then
        unlessOffended l.offences (l.mapFrom (Segment.dedented l.margin l.segments.length) 0)
      else .error .missingLeadingNewline := by
  rw [normalize, marginOf_eq, ← openingLine]
  by_cases h : l.openingLine = []
  · rw [if_pos h, if_pos h]
    have hsteps : ∀ i < l.segments.length, ∀ s : Segment,
        s.normalize l.margin l.segments.length i =
          unlessOffended (s.offences l.margin l.segments.length i)
            (s.dedented l.margin l.segments.length i) :=
      fun i hi s => segment_normalize_eq l.margin hi s
    exact mapSegmentsFrom_eq hsteps 0 l (by omega)
  · rw [if_neg h, if_neg h]

end Literal

/-- Normalizing fails for want of a line break exactly if something stands in front of the first
one; else it reports the first line that must carry the margin and does not, in the order segment,
raw before cooked, line; else it gives the literal of the trimmed lines without the margin. -/
theorem normalize_meets_line_rules {α : Type} (l : Literal α) :
    (l.normalize = .error .missingLeadingNewline ↔ l.openingLine ≠ []) ∧
    (∀ segment line, l.normalize = .error (.inconsistentMargin segment line) ↔
      l.openingLine = [] ∧ l.offences.head? = some (segment, line)) ∧
    ((∃ l', l.normalize = .ok l' ∧ l'.placeholders = l.placeholders ∧
        l'.segments = l.segments.mapIdx (Segment.dedented l.margin l.segments.length)) ↔
      l.openingLine = [] ∧ l.offences = []) := by
  rw [Literal.normalize_eq]
  by_cases h : l.openingLine = []
  · rw [if_pos h]
    cases hoff : l.offences with
    | nil =>
      have hps := l.placeholders_mapFrom (Segment.dedented l.margin l.segments.length) 0
      have hsegs := l.segments_mapFrom (Segment.dedented l.margin l.segments.length) 0
      simp only [Nat.zero_add] at hsegs
      refine ⟨by simp [unlessOffended, h], by simp [unlessOffended], ?_⟩
      exact ⟨fun _ => ⟨h, rfl⟩, fun _ => ⟨_, rfl, hps, hsegs⟩⟩
    | cons offence rest =>
      obtain ⟨segment, line⟩ := offence
      simp [unlessOffended, h]
  · rw [if_neg h]
    simp [h]

example :
    (Literal.hole ⟨"\n  a\n b ", none⟩ () (.text ⟨"c\nd", some "c\n\n  d\ne\n"⟩)).offences =
      [(0, 1), (1, 1), (1, 3)] := by decide

end OverDelimited
