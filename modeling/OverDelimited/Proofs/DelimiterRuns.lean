import OverDelimited.Proofs.LineRules

/-!
# Runs at the delimiters, line by line

Trimming a text takes white space and a line break off its ends.  Said of its lines, the closing run
is the last line, if that is blank, with the carriage return of the line before (`closeLines`), and
the opening run of a literal is its first line (`openedLines`).
-/

namespace OverDelimited

open Text

/-! ### Lines of joined texts -/

theorem lineFeed_not_mem_of_blank {w : List Char} (hw : ∀ c ∈ w, isBlank c = true) : '\n' ∉ w := by
  intro h
  have hblank := hw '\n' h
  rw [isBlank_lineFeed] at hblank
  cases hblank

theorem lineFeed_not_mem_of_mem_splitOn {text line : List Char} (h : line ∈ text.splitOn '\n') :
    '\n' ∉ line := by
  induction text generalizing line with
  | nil => simp_all
  | cons c rest ih =>
    obtain ⟨first, later, hrest⟩ := List.exists_cons_of_ne_nil (List.splitOn_ne_nil '\n' rest)
    rw [List.splitOn_cons_eq_if_modifyHead] at h
    by_cases hc : c = '\n'
    · rw [if_pos (by simp [hc])] at h
      rcases List.mem_cons.mp h with rfl | hmem
      · exact List.not_mem_nil
      · exact ih hmem
    · rw [if_neg (by simp [hc]), hrest, List.modifyHead_cons] at h
      rcases List.mem_cons.mp h with rfl | hmem
      · have hfirst : '\n' ∉ first := ih (by simp [hrest])
        simp [hfirst, Ne.symm hc]
      · exact ih (by simp [hrest, hmem])

theorem intercalate_append {before after : List (List Char)} (hb : before ≠ []) (ha : after ≠ []) :
    ['\n'].intercalate (before ++ after) =
      ['\n'].intercalate before ++ '\n' :: ['\n'].intercalate after := by
  induction before with
  | nil => exact absurd rfl hb
  | cons line before ih =>
    cases before with
    | nil => simp [List.intercalate_cons_of_ne_nil ha]
    | cons next before =>
      have hrest := ih (List.cons_ne_nil next before)
      simp only [List.cons_append, List.intercalate_cons_cons] at hrest ⊢
      rw [hrest]
      simp

theorem dropReturn_append (before line : List Char) :
    dropReturn (before ++ '\n' :: line) = before ++ '\n' :: dropReturn line := by
  induction before with
  | nil => exact dropReturn_cons (by simp)
  | cons c before ih =>
    rw [List.cons_append, dropReturn_cons (by simp), ih, List.cons_append]

theorem lineFeed_not_mem_dropReturn {line : List Char} (h : '\n' ∉ line) :
    '\n' ∉ dropReturn line := by
  by_cases hlast : line.getLast? = some '\r'
  · rw [dropReturn, if_pos hlast]
    exact fun hmem => h (List.dropLast_subset line hmem)
  · rw [dropReturn, if_neg hlast]
    exact h

theorem splitOn_dropReturn {text line : List Char} {before : List (List Char)}
    (h : text.splitOn '\n' = before ++ [line]) :
    (dropReturn text).splitOn '\n' = before ++ [dropReturn line] := by
  have hlines : ∀ line' ∈ before ++ [line], '\n' ∉ line' := by
    rw [← h]
    exact fun line' => lineFeed_not_mem_of_mem_splitOn
  have htext : text = ['\n'].intercalate (before ++ [line]) := by
    rw [← h, List.intercalate_splitOn]
  have hline : '\n' ∉ dropReturn line := lineFeed_not_mem_dropReturn (hlines line (by simp))
  by_cases hb : before = []
  · subst hb
    rw [htext, List.nil_append, List.intercalate_singleton, List.splitOn_eq_singleton hline]
    rfl
  · have hsplit : (['\n'].intercalate before).splitOn '\n' = before :=
      List.splitOn_intercalate '\n' (fun line' hl => hlines line' (by simp [hl])) hb
    rw [htext, intercalate_append hb (List.cons_ne_nil line []), List.intercalate_singleton,
      dropReturn_append, List.splitOn_append_cons_self, hsplit, List.splitOn_eq_singleton hline]

/-! ### The closing run -/

/-- The closing run takes the last line, and the return of the line before it. -/
theorem splitOn_beforeClosingRun {text line blanks : List Char} {before : List (List Char)}
    (h : text.splitOn '\n' = before ++ [line, blanks]) (hb : ∀ c ∈ blanks, isBlank c = true) :
    (beforeClosingRun text).splitOn '\n' = before ++ [dropReturn line] := by
  have hlines : ∀ line' ∈ before ++ [line], '\n' ∉ line' := by
    intro line' hmem
    have htext : line' ∈ text.splitOn '\n' := by
      rw [h]
      simp only [List.mem_append, List.mem_cons] at hmem ⊢
      grind
    exact lineFeed_not_mem_of_mem_splitOn htext
  have htext : text = ['\n'].intercalate (before ++ [line]) ++ '\n' :: blanks := by
    have hjoin : ['\n'].intercalate (before ++ [line, blanks]) = text := by
      rw [← h, List.intercalate_splitOn]
    have hsplit : before ++ [line, blanks] = (before ++ [line]) ++ [blanks] := by simp
    rw [← hjoin, hsplit, intercalate_append (by simp) (List.cons_ne_nil blanks []),
      List.intercalate_singleton]
  rw [htext, beforeClosingRun_of_run hb]
  exact splitOn_dropReturn (List.splitOn_intercalate '\n' hlines (by simp))

theorem beforeClosingRun_of_last_line {text : List Char}
    (h : ∀ before line blanks, text.splitOn '\n' = before ++ [line, blanks] →
      ¬ ∀ c ∈ blanks, isBlank c = true) :
    beforeClosingRun text = text := by
  refine beforeClosingRun_of_no_run fun kept blanks htext hb => ?_
  obtain ⟨before, line, hkept⟩ : ∃ before line, kept.splitOn '\n' = before ++ [line] :=
    ⟨_, _, (List.dropLast_concat_getLast (List.splitOn_ne_nil '\n' kept)).symm⟩
  refine h before line blanks ?_ hb
  rw [htext, List.splitOn_append_cons_self, hkept,
    List.splitOn_eq_singleton (lineFeed_not_mem_of_blank hb)]
  simp

/-- All that is left is one line of blanks. -/
def isClosingLine : List (List Char) → Bool
  | [blanks] => blanks.all isBlank
  | _ => false

/-- Drops the line of blanks before the closing delimiters, and the return that goes with it. -/
def closeLines : List (List Char) → List (List Char)
  | [] => []
  | line :: rest => if isClosingLine rest then [dropReturn line] else line :: closeLines rest

theorem isClosingLine_iff {lines : List (List Char)} :
    isClosingLine lines = true ↔ ∃ blanks, lines = [blanks] ∧ ∀ c ∈ blanks, isBlank c = true := by
  fun_cases isClosingLine lines with
  | case1 blanks => simp
  | case2 lines h =>
    constructor
    · intro hfalse
      cases hfalse
    · rintro ⟨blanks, rfl, -⟩
      exact absurd rfl (h blanks)

theorem closeLines_concat {line blanks : List Char} (before : List (List Char))
    (hb : ∀ c ∈ blanks, isBlank c = true) :
    closeLines (before ++ [line, blanks]) = before ++ [dropReturn line] := by
  induction before with
  | nil =>
    have hclosing : isClosingLine [blanks] = true := isClosingLine_iff.mpr ⟨blanks, rfl, hb⟩
    rw [List.nil_append, closeLines, if_pos hclosing]
    rfl
  | cons next before ih =>
    have hclosing : ¬ isClosingLine (before ++ [line, blanks]) = true := by
      intro h
      obtain ⟨last, hlines, -⟩ := isClosingLine_iff.mp h
      have hlength := congrArg List.length hlines
      simp at hlength
    rw [List.cons_append, closeLines, if_neg hclosing, ih]
    rfl

theorem closeLines_of_no_blanks {lines : List (List Char)}
    (h : ∀ before line blanks, lines = before ++ [line, blanks] →
      ¬ ∀ c ∈ blanks, isBlank c = true) :
    closeLines lines = lines := by
  induction lines with
  | nil => rfl
  | cons line rest ih =>
    have hclosing : ¬ isClosingLine rest = true := by
      intro hclosing
      obtain ⟨blanks, rfl, hb⟩ := isClosingLine_iff.mp hclosing
      exact h [] line blanks rfl hb
    rw [closeLines, if_neg hclosing, ih]
    intro before next blanks hrest
    exact h (line :: before) next blanks (congrArg (line :: ·) hrest)

theorem splitOn_beforeClosingRun_eq (text : List Char) :
    (beforeClosingRun text).splitOn '\n' = closeLines (text.splitOn '\n') := by
  by_cases h : ∃ before line blanks, text.splitOn '\n' = before ++ [line, blanks] ∧
      ∀ c ∈ blanks, isBlank c = true
  · obtain ⟨before, line, blanks, hlines, hb⟩ := h
    rw [splitOn_beforeClosingRun hlines hb, hlines, closeLines_concat before hb]
  · have hno : ∀ before line blanks, text.splitOn '\n' = before ++ [line, blanks] →
        ¬ ∀ c ∈ blanks, isBlank c = true :=
      fun before line blanks hlines hb => h ⟨before, line, blanks, hlines, hb⟩
    rw [beforeClosingRun_of_last_line hno, closeLines_of_no_blanks hno]

/-- The lines of a text once the closing run is gone, if the closing delimiters follow. -/
def closedLines (last : Prop) [Decidable last] (lines : List (List Char)) : List (List Char) :=
  if last then closeLines lines else lines

theorem splitOn_closed_eq (last : Prop) [Decidable last] (text : List Char) :
    (if last then beforeClosingRun text else text).splitOn '\n' =
      closedLines last (text.splitOn '\n') := by
  by_cases hlast : last
  · rw [closedLines, if_pos hlast, if_pos hlast, splitOn_beforeClosingRun_eq]
  · rw [closedLines, if_neg hlast, if_neg hlast]

theorem head_closedLines {last : Prop} [Decidable last] {opening line : List Char}
    {later rest : List (List Char)} (h : closedLines last (opening :: later) = line :: rest) :
    ∀ next ∈ rest.head?, ∃ next' ∈ later.head?, next = next' ∨ next = dropReturn next' := by
  intro next hnext
  by_cases hlast : last
  · rw [closedLines, if_pos hlast, closeLines] at h
    by_cases hclosing : isClosingLine later = true
    · rw [if_pos hclosing] at h
      obtain ⟨-, rfl⟩ := List.cons.inj h
      cases hnext
    · rw [if_neg hclosing] at h
      obtain ⟨-, rfl⟩ := List.cons.inj h
      cases later with
      | nil => cases hnext
      | cons next' later =>
        refine ⟨next', rfl, ?_⟩
        rw [closeLines] at hnext
        by_cases hclosing' : isClosingLine later = true
        · rw [if_pos hclosing'] at hnext
          exact .inr (Option.some.inj hnext).symm
        · rw [if_neg hclosing'] at hnext
          exact .inl (Option.some.inj hnext).symm
  · rw [closedLines, if_neg hlast] at h
    obtain ⟨-, rfl⟩ := List.cons.inj h
    exact ⟨next, hnext, .inl rfl⟩

/-! ### The opening run -/

theorem splitOn_afterOpeningRun {text line : List Char} {rest : List (List Char)}
    (h : text.splitOn '\n' = [] :: line :: rest) :
    ((afterOpeningRun text).getD text).splitOn '\n' = line :: rest := by
  have htext : text = '\n' :: ['\n'].intercalate (line :: rest) := by
    have hjoin : ['\n'].intercalate ([] :: line :: rest) = text := by
      rw [← h, List.intercalate_splitOn]
    rw [← hjoin, List.intercalate_cons_cons]
    rfl
  have hlines : ∀ line' ∈ line :: rest, '\n' ∉ line' := by
    intro line' hmem
    have hmem' : line' ∈ text.splitOn '\n' := h ▸ List.mem_cons_of_mem _ hmem
    exact lineFeed_not_mem_of_mem_splitOn hmem'
  rw [htext]
  exact List.splitOn_intercalate '\n' hlines (List.cons_ne_nil line rest)

/-- The lines after the empty line a literal opens with; a text without more stays empty. -/
def openedLines (later : List (List Char)) : List (List Char) :=
  if later = [] then [[]] else later

theorem splitOn_opened_eq {text : List Char} {later : List (List Char)}
    (h : text.splitOn '\n' = [] :: later) :
    ((afterOpeningRun text).getD text).splitOn '\n' = openedLines later := by
  cases later with
  | nil =>
    have hjoin : ['\n'].intercalate (text.splitOn '\n') = text := List.intercalate_splitOn '\n'
    rw [h] at hjoin
    rw [← hjoin]
    rfl
  | cons line rest => exact splitOn_afterOpeningRun h

end OverDelimited
