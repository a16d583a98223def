import OverDelimited.Proofs.Indentation

/-!
# Shifted literals

A literal is shifted with the code around it when white space is put in front of its lines.  The
margin grows by that white space, and lines that are held to it fare as before, so a malformed
literal stays malformed in the same place.  Two things do not move along.  The line after a
placeholder stays where it is, but loses the margin if it happens to start with it.  And a line that
holds nothing but a carriage return is indented by the shift, though the return then goes with the
closing run and leaves the white space behind.  `shift_keeps_result_iff` says that nothing else
makes a difference.
-/

namespace OverDelimited

open Text

/-! ### Shifting -/

def firstLine (text : List Char) : List Char :=
  text.takeWhile fun c => c ≠ '\n'

def laterLines (text : List Char) : List (List Char) :=
  (text.splitOn '\n').tail

/-- White space in front of every line of index at least one that is not empty. -/
def shiftText (w : List Char) (text : String) : String :=
  String.ofList
    (['\n'].intercalate (firstLine text.toList :: (laterLines text.toList).map (indent w)))

def Segment.shift (w : List Char) (s : Segment) : Segment :=
  ⟨shiftText w s.raw, s.cooked.map (shiftText w)⟩

def Literal.shift {α : Type} (w : List Char) (l : Literal α) : Literal α :=
  l.mapFrom (fun _ s => s.shift w) 0

/-! ### What a shift disturbs -/

/-- The last but one of the lines holds a carriage return only, and the last holds blanks. -/
def EndsInLoneReturn (lines : List (List Char)) : Prop :=
  ∃ blanks ∈ lines, blanks.all isBlank = true ∧ [['\r'], blanks] <:+ lines

/-- A line that stays where it is loses as much to the new margin as to the old one. -/
def OpensSteady (w m line : List Char) : Prop :=
  w = [] ∨ (m = [] ∨ ¬ m <+: line) ∧ ¬ w ++ m <+: line

/-- No white space stays behind at the end of a text when the closing run goes. -/
def ClosesSteady (w m : List Char) (later : List (List Char)) : Prop :=
  w = [] ∨ m = [] ∨ ¬ EndsInLoneReturn later

/-- Shifting changes nothing about a text under the margin `m`: neither about the line it opens
with, if that follows a placeholder, nor about its end, if the closing delimiters follow. -/
def SteadyAt (w m : List Char) (count segment : Nat) (text : List Char) : Prop :=
  (segment ≠ 0 → OpensSteady w m (firstLine text)) ∧
  (segment + 1 = count → ClosesSteady w m (laterLines text))

def Literal.Steady {α : Type} (w : List Char) (l : Literal α) : Prop :=
  ∀ sj ∈ l.segments.zipIdx, SteadyAt w l.margin l.segments.length sj.2 sj.1.raw.toList

instance (lines : List (List Char)) : Decidable (EndsInLoneReturn lines) :=
  inferInstanceAs (Decidable (∃ _ ∈ lines, _ ∧ _))

instance (w m line : List Char) : Decidable (OpensSteady w m line) :=
  inferInstanceAs (Decidable (_ ∨ _))

instance (w m : List Char) (later : List (List Char)) : Decidable (ClosesSteady w m later) :=
  inferInstanceAs (Decidable (_ ∨ _))

instance (w m : List Char) (count segment : Nat) (text : List Char) :
    Decidable (SteadyAt w m count segment text) :=
  inferInstanceAs (Decidable (_ ∧ _))

instance {α : Type} (w : List Char) (l : Literal α) : Decidable (l.Steady w) :=
  inferInstanceAs (Decidable (∀ _ ∈ l.segments.zipIdx, _))

/-! ### The trimmed lines of a shifted text -/

section Trimmed

variable {w : List Char}

theorem splitOn_eq_cons (text : List Char) :
    text.splitOn '\n' = firstLine text :: laterLines text := by
  rw [laterLines, firstLine, ← first_ofText, ← ofText_eq_splitOn, List.tail_cons]

theorem splitOn_shiftText (hw : ∀ c ∈ w, isBlank c = true) (text : String) :
    (shiftText w text).toList.splitOn '\n' =
      firstLine text.toList :: (laterLines text.toList).map (indent w) := by
  have hlines : ∀ line ∈ firstLine text.toList :: laterLines text.toList, '\n' ∉ line := by
    rw [← splitOn_eq_cons]
    exact fun line => lineFeed_not_mem_of_mem_splitOn
  rw [shiftText, String.toList_ofList]
  refine List.splitOn_intercalate '\n' ?_ (List.cons_ne_nil _ _)
  exact lineFeed_not_mem_indentLater hw hlines

theorem firstLine_shiftText (hw : ∀ c ∈ w, isBlank c = true) (text : String) :
    firstLine (shiftText w text).toList = firstLine text.toList := by
  have h := splitOn_shiftText hw text
  rw [splitOn_eq_cons] at h
  exact (List.cons.inj h).1

theorem laterLines_shiftText (hw : ∀ c ∈ w, isBlank c = true) (text : String) :
    laterLines (shiftText w text).toList = (laterLines text.toList).map (indent w) := by
  rw [laterLines, splitOn_shiftText hw, List.tail_cons]

theorem isBlank_indent (hw : ∀ c ∈ w, isBlank c = true) {line : List Char} :
    (∀ c ∈ indent w line, isBlank c = true) ↔ ∀ c ∈ line, isBlank c = true := by
  by_cases hline : line = []
  · simp [indent, hline]
  · rw [indent_of_ne_nil hline]
    constructor
    · exact fun h c hc => h c (List.mem_append_right w hc)
    · intro h c hc
      rcases List.mem_append.mp hc with hc | hc
      · exact hw c hc
      · exact h c hc

theorem dropReturn_indent {line : List Char} (h : line ≠ ['\r']) :
    dropReturn (indent w line) = indent w (dropReturn line) := by
  by_cases hlast : line.getLast? = some '\r'
  · obtain ⟨before, rfl⟩ := List.getLast?_eq_some_iff.mp hlast
    have hbefore : before ≠ [] := by
      rintro rfl
      exact h rfl
    rw [indent_of_ne_nil (by simp), ← List.append_assoc, dropReturn_concat, dropReturn_concat,
      indent_of_ne_nil hbefore]
  · have hindent : (indent w line).getLast? ≠ some '\r' := getLast?_indent_ne hlast
    rw [dropReturn, if_neg hindent, dropReturn, if_neg hlast]

end Trimmed

/-! ### The line a segment opens with -/

section Opening

variable {w m line : List Char}

theorem withoutMargin_eq_iff :
    withoutMargin (w ++ m) line = withoutMargin m line ↔ OpensSteady w m line := by
  by_cases hw : w = []
  · simp [OpensSteady, hw]
  have hlength : 0 < w.length := List.length_pos_of_ne_nil hw
  by_cases hwm : w ++ m <+: line
  · -- the new margin is longer than the old one, so it takes more off the line
    have hle := hwm.length_le
    have hne : withoutMargin (w ++ m) line ≠ withoutMargin m line := by
      intro h
      have hlengths := congrArg List.length h
      rw [withoutMargin, if_pos hwm, withoutMargin, List.length_drop] at hlengths
      rw [List.length_append] at hlengths hle
      by_cases hm : m <+: line
      · rw [if_pos hm, List.length_drop] at hlengths
        omega
      · rw [if_neg hm] at hlengths
        omega
    exact ⟨fun h => absurd h hne, fun h => h.elim (absurd · hw) fun h => absurd hwm h.2⟩
  · rw [withoutMargin, if_neg hwm]
    by_cases hm : m <+: line
    · have hmnil : line = withoutMargin m line ↔ m = [] := by
        rw [withoutMargin, if_pos hm]
        constructor
        · intro h
          have hlengths := congrArg List.length h
          have hle := hm.length_le
          rw [List.length_drop] at hlengths
          exact List.eq_nil_of_length_eq_zero (by omega)
        · rintro rfl
          rfl
      simp [hmnil, OpensSteady, hw, hwm, hm]
    · simp [withoutMargin, OpensSteady, hw, hwm, hm]

theorem prefix_dropReturn_iff (hm : ∀ c ∈ m, isBlank c = true) :
    m <+: dropReturn line ↔ m <+: line := by
  by_cases hlast : line.getLast? = some '\r'
  · obtain ⟨before, rfl⟩ := List.getLast?_eq_some_iff.mp hlast
    rw [dropReturn_concat, List.prefix_concat_iff]
    constructor
    · exact Or.inr
    · rintro (rfl | h)
      · have hreturn : isBlank '\r' = true := hm '\r' (by simp)
        cases hreturn
      · exact h
  · rw [dropReturn, if_neg hlast]

theorem opensSteady_dropReturn (hw : ∀ c ∈ w, isBlank c = true) (hm : ∀ c ∈ m, isBlank c = true) :
    OpensSteady w m (dropReturn line) ↔ OpensSteady w m line := by
  have hwm : ∀ c ∈ w ++ m, isBlank c = true := by
    intro c hc
    exact (List.mem_append.mp hc).elim (hw c) (hm c)
  rw [OpensSteady, OpensSteady, prefix_dropReturn_iff hm, prefix_dropReturn_iff hwm]

end Opening

/-! ### The end of a text -/

section Closing

variable {w m : List Char}

theorem isClosingLine_map_indent (hw : ∀ c ∈ w, isBlank c = true) (lines : List (List Char)) :
    isClosingLine (lines.map (indent w)) = isClosingLine lines := by
  match lines with
  | [] => rfl
  | [blanks] =>
    rw [Bool.eq_iff_iff, isClosingLine_iff, isClosingLine_iff]
    simp [isBlank_indent hw]
  | _ :: _ :: _ => rfl

theorem agrees_dropReturn {line : List Char} (h : w = [] ∨ m = [] ∨ line ≠ ['\r']) :
    Agrees w m (dropReturn line) (dropReturn (indent w line)) := by
  by_cases hline : line = ['\r']
  · subst hline
    show Agrees w m [] (dropReturn (w ++ ['\r']))
    rw [dropReturn_concat]
    rcases h with rfl | rfl | hne
    · exact agrees_indent []
    · -- without a margin of its own, the white space is the whole new margin
      refine ⟨?_, fun _ => ?_⟩ <;> simp [LacksMargin, withoutMargin]
    · exact absurd rfl hne
  · rw [dropReturn_indent hline]
    exact agrees_indent (dropReturn line)

theorem agrees_closeLines (hw : ∀ c ∈ w, isBlank c = true) {lines : List (List Char)}
    (h : ClosesSteady w m lines) :
    List.Forall₂ (Agrees w m) (closeLines lines) (closeLines (lines.map (indent w))) := by
  induction lines with
  | nil => exact .nil
  | cons line rest ih =>
    rw [List.map_cons, closeLines, closeLines, isClosingLine_map_indent hw]
    by_cases hclosing : isClosingLine rest = true
    · rw [if_pos hclosing, if_pos hclosing]
      refine .cons (agrees_dropReturn (h.imp_right (Or.imp_right ?_))) .nil
      rintro hlone rfl
      obtain ⟨blanks, rfl, hb⟩ := isClosingLine_iff.mp hclosing
      exact hlone ⟨blanks, by simp, List.all_eq_true.mpr hb, List.suffix_refl _⟩
    · rw [if_neg hclosing, if_neg hclosing]
      refine .cons (agrees_indent line) (ih (h.imp_right (Or.imp_right ?_)))
      rintro hlone ⟨blanks, hmem, hb, hsuffix⟩
      have hsuffix' := hsuffix.trans (List.suffix_cons line rest)
      exact hlone ⟨blanks, List.mem_cons_of_mem _ hmem, hb, hsuffix'⟩

theorem shiftedLines_closeLines (hw : ∀ c ∈ w, isBlank c = true) (lines : List (List Char)) :
    ShiftedLines w m (ClosesSteady w m lines) (closeLines lines)
      (closeLines (lines.map (indent w))) := by
  by_cases h : ClosesSteady w m lines
  · exact .alike h (agrees_closeLines hw h)
  · have hsteady := h
    simp only [ClosesSteady, not_or, Decidable.not_not] at h
    obtain ⟨hwne, hmne, blanks, -, hb, before, rfl⟩ := h
    rw [List.all_eq_true] at hb
    have hblanks : ∀ c ∈ indent w blanks, isBlank c = true := (isBlank_indent hw).mpr hb
    have hreturn : dropReturn (indent w ['\r']) = w := by
      rw [indent_of_ne_nil (by simp), dropReturn_concat]
    rw [List.map_append, closeLines_concat before hb, List.map_cons, List.map_singleton,
      closeLines_concat _ hblanks, hreturn]
    exact .leftover hsteady hwne hmne (agrees_map_indent before)

end Closing

/-! ### Shifted texts -/

section Texts

variable {w m : List Char}

/-- Both texts keep the line they open with, up to the same return. -/
theorem closedLines_shift (hw : ∀ c ∈ w, isBlank c = true) (last : Prop) [Decidable last]
    (opening : List Char) (later : List (List Char)) :
    ∃ line rest rest', closedLines last (opening :: later) = line :: rest ∧
      closedLines last (opening :: later.map (indent w)) = line :: rest' ∧
      (line = opening ∨ line = dropReturn opening) ∧
      ShiftedLines w m (last → ClosesSteady w m later) rest rest' := by
  by_cases hlast : last
  · simp only [closedLines, closeLines, isClosingLine_map_indent hw, hlast, if_true, true_imp_iff]
    by_cases hclosing : isClosingLine later = true
    · simp only [if_pos hclosing]
      refine ⟨_, [], [], rfl, rfl, .inr rfl, .alike (.inr (.inr ?_)) .nil⟩
      rintro ⟨blanks, -, -, hsuffix⟩
      obtain ⟨last, rfl, -⟩ := isClosingLine_iff.mp hclosing
      have hlength := hsuffix.length_le
      simp at hlength
    · simp only [if_neg hclosing]
      exact ⟨_, _, _, rfl, rfl, .inl rfl, shiftedLines_closeLines hw later⟩
  · simp only [closedLines, if_neg hlast]
    exact ⟨_, _, _, rfl, rfl, .inl rfl, .alike (absurd · hlast) (agrees_map_indent later)⟩

/-- What a text after a placeholder reads as. -/
theorem follows_continuation (hw : ∀ c ∈ w, isBlank c = true) (hm : ∀ c ∈ m, isBlank c = true)
    (count : Nat) {segment : Nat} (hsegment : segment ≠ 0) (text : String) :
    Follows (OpensSteady w m (firstLine text.toList))
      (segment + 1 = count → ClosesSteady w m (laterLines text.toList))
      (readLines m segment (trimmedLines count segment text))
      (readLines (w ++ m) segment (trimmedLines count segment (shiftText w text))) := by
  obtain ⟨line, rest, rest', hold, hnew, hline, hrest⟩ :=
    closedLines_shift (m := m) hw (segment + 1 = count) (firstLine text.toList)
      (laterLines text.toList)
  simp only [trimmedLines, if_neg hsegment, splitOn_closed_eq, splitOn_shiftText hw]
  rw [splitOn_eq_cons, hold, hnew]
  refine readLines_follows ?_ hrest segment
  rw [withoutMargin_eq_iff]
  rcases hline with rfl | rfl
  · exact Iff.rfl
  · exact opensSteady_dropReturn hw hm

theorem isBlank_of_mem_marginIn (text : List Char) : ∀ c ∈ marginIn text, isBlank c = true :=
  List.all_eq_true.mp List.all_takeWhile

/-- The line after the opening run is the one the margin was read off, or it is empty. -/
theorem not_lacksMargin_head {text next : List Char} (h : next ∈ (laterLines text).head?) :
    ¬ LacksMargin (marginIn text) next := by
  rintro ⟨hne, hmargin⟩
  refine hmargin ?_
  obtain ⟨more, hlater⟩ := List.head?_eq_some_iff.mp h
  have hfind : (laterLines text).find? (fun line => line ≠ []) = some next := by
    rw [hlater, List.find?_cons_of_pos (by simpa using hne)]
  rw [marginIn, ← laterLines, hfind]
  exact List.takeWhile_prefix isBlank

theorem not_lacksMargin_dropReturn {line : List Char} (hm : ∀ c ∈ m, isBlank c = true)
    (h : ¬ LacksMargin m line) : ¬ LacksMargin m (dropReturn line) := by
  rintro ⟨hne, hmargin⟩
  refine h ⟨?_, fun hprefix => hmargin ((prefix_dropReturn_iff hm).mpr hprefix)⟩
  rintro rfl
  exact hne rfl

theorem not_lacksMargin_opened {last : Prop} [Decidable last] {text opening line : List Char}
    {rest : List (List Char)} (h : closedLines last (opening :: laterLines text) = line :: rest) :
    ∀ next ∈ rest.head?, ¬ LacksMargin (marginIn text) next := by
  intro next hnext
  obtain ⟨next', hnext', rfl | rfl⟩ := head_closedLines h next hnext
  · exact not_lacksMargin_head hnext'
  · exact not_lacksMargin_dropReturn (isBlank_of_mem_marginIn text) (not_lacksMargin_head hnext')

/-- Lines of which neither side opens with a line that lacks its margin. -/
theorem readLines_openedLines_follows {closing : Prop} {later later' : List (List Char)}
    (h : ShiftedLines w m closing later later')
    (hold : ∀ next ∈ later.head?, ¬ LacksMargin m next)
    (hnew : ∀ next ∈ later'.head?, ¬ LacksMargin (w ++ m) next) (segment : Nat) :
    Follows True closing (readLines m segment (openedLines later))
      (readLines (w ++ m) segment (openedLines later')) := by
  cases h with
  | alike hclosing h =>
    cases h with
    | nil =>
      have hempty : withoutMargin (w ++ m) [] = withoutMargin m [] := by
        rw [withoutMargin_nil, withoutMargin_nil]
      exact readLines_follows (iff_true_intro hempty) (.alike hclosing .nil) segment
    | cons hline hrest =>
      have hsame := hline.rest (hold _ rfl)
      exact readLines_follows (iff_true_intro hsame) (.alike hclosing hrest) segment
  | leftover hclosing hw hm h =>
    cases h with
    | nil => exact absurd (lacksMargin_of_wider hw hm) (hnew w rfl)
    | cons hline hrest =>
      have hsame := hline.rest (hold _ rfl)
      exact readLines_follows (iff_true_intro hsame) (.leftover hclosing hw hm hrest) segment

/-- What the text after the opening delimiters reads as. -/
theorem follows_opening (hw : ∀ c ∈ w, isBlank c = true) (count : Nat) {text : String}
    (hopening : firstLine text.toList = [])
    (hmargin : marginIn (shiftText w text).toList = w ++ marginIn text.toList) :
    Follows True (0 + 1 = count → ClosesSteady w (marginIn text.toList) (laterLines text.toList))
      (readLines (marginIn text.toList) 0 (trimmedLines count 0 text))
      (readLines (w ++ marginIn text.toList) 0 (trimmedLines count 0 (shiftText w text))) := by
  obtain ⟨line, later, later', hold, hnew, hline, hlater⟩ :=
    closedLines_shift (m := marginIn text.toList) hw (0 + 1 = count) (firstLine text.toList)
      (laterLines text.toList)
  obtain rfl : line = [] := by
    rw [hopening] at hline
    rcases hline with rfl | rfl <;> rfl
  have hclosed : (if 0 + 1 = count then beforeClosingRun text.toList
      else text.toList).splitOn '\n' = [] :: later := by
    rw [splitOn_closed_eq, splitOn_eq_cons, hold]
  have hclosed' : (if 0 + 1 = count then beforeClosingRun (shiftText w text).toList
      else (shiftText w text).toList).splitOn '\n' = [] :: later' := by
    rw [splitOn_closed_eq, splitOn_shiftText hw, hnew]
  simp only [trimmedLines, if_true, splitOn_opened_eq hclosed, splitOn_opened_eq hclosed']
  refine readLines_openedLines_follows hlater (not_lacksMargin_opened hold) ?_ 0
  -- the shifted text is a text as well, with a margin of its own
  rw [← hmargin]
  rw [← laterLines_shiftText hw] at hnew
  exact not_lacksMargin_opened hnew

end Texts

/-! ### Shifted segments and literals -/

section Shift

variable {α : Type} {w m : List Char}

theorem Segment.IsPlain.shift {s : Segment} (h : s.IsPlain) : (s.shift w).IsPlain := by
  rcases h with h | h
  · exact .inl (by rw [Segment.shift, h]; rfl)
  · exact .inr (by rw [Segment.shift, h]; rfl)

theorem normalize_of_isPlain {s : Segment} (hplain : s.IsPlain) {count segment : Nat}
    (h : segment < count) :
    s.normalize m count segment =
      (readLines m segment (trimmedLines count segment s.raw)).map fun text =>
        ⟨text, s.cooked.map fun _ => text⟩ := by
  rw [segment_normalize_eq m h, readLines, map_unlessOffended, dedented_of_isPlain hplain,
    Segment.offences]
  rcases hplain with hcooked | hcooked
  · simp only [Segment.texts, hcooked, Option.toList_none, List.flatMap_cons, List.flatMap_nil,
      List.append_nil]
    rfl
  · simp only [Segment.texts, hcooked, Option.toList_some, List.flatMap_cons, List.flatMap_nil,
      List.append_nil]
    cases offencesFrom m segment 0 (trimmedLines count segment s.raw) <;> rfl

theorem marginIn_shiftText (hw : ∀ c ∈ w, isBlank c = true) {text : String}
    (h : ∃ line ∈ laterLines text.toList, line ≠ []) :
    marginIn (shiftText w text).toList = w ++ marginIn text.toList := by
  obtain ⟨line, hline⟩ :
      ∃ line, (laterLines text.toList).find? (fun line => line ≠ []) = some line := by
    obtain ⟨line, hmem, hne⟩ := h
    rw [← Option.isSome_iff_exists, List.find?_isSome]
    exact ⟨line, hmem, by simpa using hne⟩
  rw [marginIn, marginIn, ← laterLines, ← laterLines, laterLines_shiftText hw, find?_map_indent,
    hline, Option.map_some, Option.getD_some, Option.getD_some, List.takeWhile_append_of_pos hw]

/-- What becomes of a segment, wherever it stands. -/
theorem follows_shift (hw : ∀ c ∈ w, isBlank c = true) (hm : ∀ c ∈ m, isBlank c = true)
    {s : Segment} (hplain : s.IsPlain) {count segment : Nat} (h : segment < count)
    (hfirst : segment = 0 → firstLine s.raw.toList = [] ∧ marginIn s.raw.toList = m ∧
      ∃ line ∈ laterLines s.raw.toList, line ≠ []) :
    Follows (segment ≠ 0 → OpensSteady w m (firstLine s.raw.toList))
      (segment + 1 = count → ClosesSteady w m (laterLines s.raw.toList))
      (s.normalize m count segment) ((s.shift w).normalize (w ++ m) count segment) := by
  have hcooked : ∀ text : String,
      (s.shift w).cooked.map (fun _ => text) = s.cooked.map fun _ => text := by
    intro text
    rw [Segment.shift, Option.map_map]
    rfl
  rw [normalize_of_isPlain hplain h, normalize_of_isPlain hplain.shift h]
  simp only [hcooked]
  refine Follows.map ?_ fun text text' heq => congrArg Segment.raw heq
  by_cases hsegment : segment = 0
  · subst hsegment
    obtain ⟨hopening, rfl, hline⟩ := hfirst rfl
    have hfree : (0 ≠ 0 → OpensSteady w (marginIn s.raw.toList) (firstLine s.raw.toList)) ↔ True :=
      iff_true_intro fun hne => absurd rfl hne
    rw [hfree]
    exact follows_opening hw count hopening (marginIn_shiftText hw hline)
  · rw [imp_iff_right hsegment]
    exact follows_continuation hw hm count hsegment s.raw

theorem Literal.first_shift (l : Literal α) : (l.shift w).first = l.first.shift w := by
  cases l <;> rfl

theorem Literal.length_segments_shift (l : Literal α) :
    (l.shift w).segments.length = l.segments.length := by
  rw [shift, segments_mapFrom, List.length_mapIdx]

end Shift

/-- Shifting a literal keeps every error where it is.  It keeps the result of a literal that has
none exactly if no line after a placeholder starts with the old margin or the new one, and no lone
carriage return stands before the closing delimiters. -/
theorem shift_keeps_result_iff {α : Type} {w : List Char} {l : Literal α}
    (hw : ∀ c ∈ w, isBlank c = true) (hplain : ∀ s ∈ l.segments, s.IsPlain)
    (hline : ∃ line ∈ laterLines l.first.raw.toList, line ≠ []) :
    (∀ e, l.normalize = .error e → (l.shift w).normalize = .error e) ∧
    ∀ l', l.normalize = .ok l' → ((l.shift w).normalize = .ok l' ↔ l.Steady w) := by
  have hopening : (l.shift w).openingLine = l.openingLine := by
    rw [Literal.openingLine, Literal.first_shift]
    exact firstLine_shiftText hw l.first.raw
  have hmargin : (l.shift w).margin = w ++ l.margin := by
    rw [Literal.margin, Literal.first_shift]
    exact marginIn_shiftText hw hline
  rw [Literal.normalize, Literal.normalize, marginOf_eq, marginOf_eq, ← Literal.openingLine,
    ← Literal.openingLine, hopening, ← Literal.margin, ← Literal.margin, hmargin,
    Literal.length_segments_shift]
  by_cases hempty : l.openingLine = []
  · rw [if_pos hempty, if_pos hempty]
    have hsegments : ∀ sj ∈ l.segments.zipIdx 0,
        Follows (sj.2 ≠ 0 → OpensSteady w l.margin (firstLine sj.1.raw.toList))
          (sj.2 + 1 = l.segments.length → ClosesSteady w l.margin (laterLines sj.1.raw.toList))
          (sj.1.normalize l.margin l.segments.length sj.2)
          ((sj.1.shift w).normalize (w ++ l.margin) l.segments.length sj.2) := by
      rintro ⟨s, segment⟩ hmem
      have hs := List.mem_zipIdx_iff_getElem?.mp hmem
      obtain ⟨hlt, -⟩ := List.getElem?_eq_some_iff.mp hs
      have hs' := hplain s (List.mem_of_getElem? hs)
      refine follows_shift hw (isBlank_of_mem_marginIn _) hs' hlt ?_
      rintro rfl
      obtain rfl : l.first = s := Option.some.inj (l.head?_segments.symm.trans hs)
      exact ⟨hempty, rfl, hline⟩
    have hfollows := follows_mapSegmentsFrom l 0 hsegments fun sj _ hne heq =>
      absurd (heq.trans (Nat.zero_add _).symm) hne
    refine ⟨hfollows.error, fun l' hl' => ?_⟩
    exact (hfollows.same_iff l' hl').trans forall₂_and.symm
  · rw [if_neg hempty, if_neg hempty]
    refine ⟨fun e he => he, fun l' hl' => ?_⟩
    cases hl'

/-- Two segments, of which the second goes on with a line that starts with half the margin. -/
def halfway : Literal Unit :=
  .hole ⟨"\n\n  a\r\n   b", none⟩ () (.text ⟨" c\n\n  d\r\n\t", some " c\n\n  d\r\n\t"⟩)

theorem halfway_shift_keeps_result :
    halfway.Steady [' ', '\t'] ∧
      halfway.normalize = .ok
        (.hole ⟨"\na\r\n b", none⟩ () (.text ⟨" c\n\nd", some " c\n\nd"⟩)) ∧
      (halfway.shift [' ', '\t']).normalize = halfway.normalize := by
  have hw : ∀ c ∈ [' ', '\t'], isBlank c = true := by simp [isBlank]
  have hplain : ∀ s ∈ halfway.segments, s.IsPlain := by
    simp [halfway, Literal.segments, Segment.IsPlain]
  have hline : ∃ line ∈ laterLines halfway.first.raw.toList, line ≠ [] :=
    ⟨[' ', ' ', 'a', '\r'], by decide, by decide⟩
  have hok : halfway.normalize = .ok
      (.hole ⟨"\na\r\n b", none⟩ () (.text ⟨" c\n\nd", some " c\n\nd"⟩)) := by decide
  have hsteady : halfway.Steady [' ', '\t'] := by decide
  have hiff := (shift_keeps_result_iff hw hplain hline).2 _ hok
  exact ⟨hsteady, hok, (hiff.mpr hsteady).trans hok.symm⟩

/-- After the placeholder stands a line that starts with the margin. -/
def aligned : Literal Unit :=
  .hole ⟨"\n  a ", some "\n  a "⟩ () (.text ⟨"  x\n", some "  x\n"⟩)

/-- A carriage return stands alone before the closing delimiters. -/
def returned : Literal Unit :=
  .text ⟨"\n  a\n\r\n", some "\n  a\n\r\n"⟩

theorem shift_changes_result :
    (∀ c ∈ [' ', ' '], isBlank c = true) ∧
    ((∀ s ∈ aligned.segments, s.IsPlain) ∧
      (∃ line ∈ laterLines aligned.first.raw.toList, line ≠ []) ∧
      aligned.normalize = .ok (.hole ⟨"a ", some "a "⟩ () (.text ⟨"x", some "x"⟩)) ∧
      (aligned.shift [' ', ' ']).normalize =
        .ok (.hole ⟨"a ", some "a "⟩ () (.text ⟨"  x", some "  x"⟩)) ∧
      (aligned.shift [' ', ' ']).normalize ≠ aligned.normalize) ∧
    (∀ s ∈ returned.segments, s.IsPlain) ∧
      (∃ line ∈ laterLines returned.first.raw.toList, line ≠ []) ∧
      returned.normalize = .ok (.text ⟨"a\n", some "a\n"⟩) ∧
      (returned.shift [' ', ' ']).normalize = .error (.inconsistentMargin 0 1) ∧
      (returned.shift [' ', ' ']).normalize ≠ returned.normalize := by
  have haligned : ∀ s ∈ aligned.segments, s.IsPlain := by
    simp [aligned, Literal.segments, Segment.IsPlain]
  have hreturned : ∀ s ∈ returned.segments, s.IsPlain := by
    simp [returned, Literal.segments, Segment.IsPlain]
  have haligned' : ∃ line ∈ laterLines aligned.first.raw.toList, line ≠ [] :=
    ⟨[' ', ' ', 'a', ' '], by decide, by decide⟩
  have hreturned' : ∃ line ∈ laterLines returned.first.raw.toList, line ≠ [] :=
    ⟨[' ', ' ', 'a'], by decide, by decide⟩
  exact ⟨by simp [isBlank], ⟨haligned, haligned', by decide, by decide, by decide⟩,
    hreturned, hreturned', by decide, by decide, by decide⟩

end OverDelimited
