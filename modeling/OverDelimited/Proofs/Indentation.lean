import OverDelimited.Proofs.WiderMargin

/-!
# Written bodies

Writing a body indents its lines, opens it with a line break and closes it with another, behind
which the closing delimiters may be indented as they like.  Normalizing takes all of this off again
(`written_body_reads_back`): the lines between the runs are the indented ones
(`trimmedLines_written`), and the margin is the one they were indented with (`marginIn_written`).
This is the round trip of the specification, section 8.
-/

namespace OverDelimited

open Text

/-! ### Writing a body -/

/-- Ends the last text with a line break and the indentation of the closing delimiters. -/
def endWith (closing : List Char) : List (List Char) → List (List Char)
  | [] => []
  | [text] => [text ++ '\n' :: closing]
  | text :: next :: rest => text :: endWith closing (next :: rest)

/-- The texts of a body, given by the lines of its segments, as they are written with a margin. -/
def written (margin closing : List Char) (first : List (List Char))
    (later : List (List (List Char))) : List (List Char) :=
  endWith closing (('\n' :: ['\n'].intercalate (first.map (indent margin))) ::
    later.map fun lines => ['\n'].intercalate (indentLater margin lines))

/-- A body that can be told from its margin: its first line with text starts flush, no line after a
placeholder starts with the margin, and it does not end in a carriage return. -/
structure Writable (margin : List Char) (first : List (List Char))
    (later : List (List (List Char))) : Prop where
  hasLine : ∀ lines ∈ first :: later, lines ≠ []
  unbroken : ∀ lines ∈ first :: later, ∀ line ∈ lines, '\n' ∉ line
  flush : ∃ line, first.find? (fun line => line ≠ []) = some line ∧
    ∀ c ∈ line.head?, isBlank c = false
  continued : ∀ lines ∈ later, ∀ line ∈ lines.head?, margin <+: line → margin = []
  ending : ∀ lines ∈ (first :: later).getLast?, ∀ line ∈ lines.getLast?, line.getLast? ≠ some '\r'

theorem getElem?_endWith (closing : List Char) (texts : List (List Char)) (j : Nat) :
    (endWith closing texts)[j]? = texts[j]?.map fun text =>
      if j + 1 = texts.length then text ++ '\n' :: closing else text := by
  fun_induction endWith closing texts generalizing j with
  | case1 => rfl
  | case2 text => cases j <;> simp
  | case3 text next rest ih =>
    cases j with
    | zero => simp
    | succ j => simpa using ih j

theorem length_endWith (closing : List Char) (texts : List (List Char)) :
    (endWith closing texts).length = texts.length := by
  fun_induction endWith closing texts with
  | case1 => rfl
  | case2 text => rfl
  | case3 text next rest ih => simpa using ih

section Lines

variable {margin : List Char} {segment : Nat}

theorem not_lacksMargin_nil (line : List Char) : ¬ LacksMargin [] line := by
  simp [LacksMargin]

theorem offencesFrom_nil_margin (index : Nat) (lines : List (List Char)) :
    offencesFrom [] segment index lines = [] := by
  induction lines generalizing index with
  | nil => rfl
  | cons line rest ih =>
    rw [offencesFrom_cons, ih, if_neg fun h => not_lacksMargin_nil line h.2]

theorem offencesFrom_own_indent (index : Nat) (lines : List (List Char)) :
    offencesFrom margin segment index (lines.map (indent margin)) = [] := by
  have h := offencesFrom_of_agrees (agrees_map_indent (w := margin) (m := []) lines) segment index
  rw [List.append_nil, offencesFrom_nil_margin] at h
  exact h

theorem withoutMargin_own_indent (line : List Char) :
    withoutMargin margin (indent margin line) = line := by
  have h := withoutMargin_indent (w := margin) (not_lacksMargin_nil line)
  rw [List.append_nil] at h
  rw [h]
  simp [withoutMargin]

theorem map_withoutMargin_own_indent (lines : List (List Char)) :
    (lines.map (indent margin)).map (withoutMargin margin) = lines := by
  simp [Function.comp_def, withoutMargin_own_indent]

theorem find?_map_indent (lines : List (List Char)) :
    (lines.map (indent margin)).find? (fun line => line ≠ []) =
      (lines.find? fun line => line ≠ []).map (margin ++ ·) := by
  induction lines with
  | nil => rfl
  | cons line rest ih =>
    by_cases hline : line = []
    · rw [List.map_cons, List.find?_cons_of_neg (by simp [hline, indent]),
        List.find?_cons_of_neg (by simp [hline]), ih]
    · have hindent : indent margin line ≠ [] := by simp [indent_of_ne_nil hline, hline]
      rw [List.map_cons, List.find?_cons_of_pos (by simpa using hindent),
        List.find?_cons_of_pos (by simpa using hline), indent_of_ne_nil hline]
      rfl

end Lines

/-- What is left of a written text once its closing run is gone, if it has one. -/
theorem splitOn_closed {count segment : Nat} {closing text : List Char} {lines : List (List Char)}
    (hne : lines ≠ []) (hlines : ∀ line ∈ lines, '\n' ∉ line)
    (hc : ∀ c ∈ closing, isBlank c = true)
    (hend : segment + 1 = count → ∀ line ∈ lines.getLast?, line.getLast? ≠ some '\r')
    (htext : text = if segment + 1 = count then ['\n'].intercalate lines ++ '\n' :: closing
      else ['\n'].intercalate lines) :
    (if segment + 1 = count then beforeClosingRun text else text).splitOn '\n' = lines := by
  have hsplit : (['\n'].intercalate lines).splitOn '\n' = lines :=
    List.splitOn_intercalate '\n' hlines hne
  by_cases hlast : segment + 1 = count
  · rw [if_pos hlast] at htext ⊢
    obtain ⟨before, line, rfl⟩ : ∃ before line, lines = before ++ [line] :=
      ⟨_, _, (List.dropLast_concat_getLast hne).symm⟩
    have hlines : text.splitOn '\n' = before ++ [line, closing] := by
      rw [htext, List.splitOn_append_cons_self, hsplit,
        List.splitOn_eq_singleton (lineFeed_not_mem_of_blank hc)]
      simp
    have hreturn : dropReturn line = line := if_neg (hend hlast line (by simp))
    rw [splitOn_beforeClosingRun hlines hc, hreturn]
  · rw [if_neg hlast] at htext ⊢
    rw [htext, hsplit]

section Written

variable {margin closing : List Char} {first : List (List Char)} {later : List (List (List Char))}

/-- The lines a written text has between the runs at the delimiters. -/
def writtenLines (margin : List Char) (segment : Nat) (lines : List (List Char)) :
    List (List Char) :=
  if segment = 0 then lines.map (indent margin) else indentLater margin lines

theorem getLast?_indent_ne {line : List Char} (h : line.getLast? ≠ some '\r') :
    (indent margin line).getLast? ≠ some '\r' := by
  by_cases hline : line = []
  · simp [indent, hline]
  · have hlast := List.getLast?_eq_some_getLast hline
    rw [indent_of_ne_nil hline, List.getLast?_append, hlast, Option.some_or, ← hlast]
    exact h

theorem getLast?_map_indent_ne {lines : List (List Char)}
    (h : ∀ line ∈ lines.getLast?, line.getLast? ≠ some '\r') :
    ∀ line ∈ (lines.map (indent margin)).getLast?, line.getLast? ≠ some '\r' := by
  intro line hline
  rw [List.getLast?_map] at hline
  obtain ⟨line', hline', rfl⟩ := Option.map_eq_some_iff.mp hline
  exact getLast?_indent_ne (h line' hline')

theorem getLast?_cons_ne {lines : List (List Char)} {line : List Char} (hne : lines ≠ [])
    (h : ∀ line ∈ lines.getLast?, line.getLast? ≠ some '\r') :
    ∀ line' ∈ (line :: lines).getLast?, line'.getLast? ≠ some '\r' := by
  obtain ⟨next, rest, rfl⟩ := List.exists_cons_of_ne_nil hne
  rw [List.getLast?_cons_cons]
  exact h

theorem getLast?_indentLater_ne {lines : List (List Char)}
    (h : ∀ line ∈ lines.getLast?, line.getLast? ≠ some '\r') :
    ∀ line ∈ (indentLater margin lines).getLast?, line.getLast? ≠ some '\r' := by
  cases lines with
  | nil => exact h
  | cons line rest =>
    by_cases hrest : rest = []
    · subst hrest
      exact h
    · obtain ⟨next, rest, rfl⟩ := List.exists_cons_of_ne_nil hrest
      rw [List.getLast?_cons_cons] at h
      exact getLast?_cons_ne (by simp) (getLast?_map_indent_ne h)

theorem lineFeed_not_mem_indentLater (hm : ∀ c ∈ margin, isBlank c = true)
    {lines : List (List Char)} (h : ∀ line ∈ lines, '\n' ∉ line) :
    ∀ line ∈ indentLater margin lines, '\n' ∉ line := by
  cases lines with
  | nil => exact h
  | cons first rest =>
    intro line hline
    rcases List.mem_cons.mp hline with rfl | hline
    · exact h line (List.mem_cons_self ..)
    · obtain ⟨line', hline', rfl⟩ := List.mem_map.mp hline
      exact lineFeed_not_mem_indent hm (h line' (List.mem_cons_of_mem _ hline'))

theorem Writable.ending_of_last (h : Writable margin first later) {segment : Nat}
    {lines : List (List Char)} (hlines : (first :: later)[segment]? = some lines)
    (hlast : segment + 1 = (first :: later).length) :
    ∀ line ∈ lines.getLast?, line.getLast? ≠ some '\r' := by
  refine h.ending lines ?_
  have hindex : (first :: later).length - 1 = segment := by omega
  rw [List.getLast?_eq_getElem?, hindex, hlines]
  rfl

/-- Trimming a written text leaves its indented lines. -/
theorem trimmedLines_written (hm : ∀ c ∈ margin, isBlank c = true)
    (hc : ∀ c ∈ closing, isBlank c = true) (h : Writable margin first later) {segment : Nat}
    {lines : List (List Char)} {text : String}
    (hlines : (first :: later)[segment]? = some lines)
    (htext : (written margin closing first later)[segment]? = some text.toList) :
    trimmedLines (first :: later).length segment text = writtenLines margin segment lines := by
  have hmem : lines ∈ first :: later := List.mem_of_getElem? hlines
  have hne := h.hasLine lines hmem
  have hunbroken := h.unbroken lines hmem
  have hending := h.ending_of_last hlines
  rw [written, getElem?_endWith] at htext
  simp only [List.length_cons, List.length_map] at htext hending ⊢
  cases segment with
  | zero =>
    obtain rfl : first = lines := Option.some.inj hlines
    obtain ⟨line, rest, hrest⟩ := List.exists_cons_of_ne_nil hne
    have hbreak : '\n' :: ['\n'].intercalate (first.map (indent margin)) =
        ['\n'].intercalate ([] :: first.map (indent margin)) := by
      rw [List.intercalate_cons_of_ne_nil (by simpa using hne)]
      rfl
    have hempty : ∀ line ∈ [] :: first, '\n' ∉ line := by simpa using hunbroken
    have hfree := lineFeed_not_mem_indentLater hm hempty
    have hsplit : (if 0 + 1 = later.length + 1 then beforeClosingRun text.toList
        else text.toList).splitOn '\n' = [] :: first.map (indent margin) := by
      refine splitOn_closed (List.cons_ne_nil _ _) hfree hc ?_ ?_
      · exact fun hlast => getLast?_cons_ne (by simpa using hne)
          (getLast?_map_indent_ne (hending hlast))
      · rw [← hbreak]
        exact (Option.some.inj htext).symm
    rw [hrest] at hsplit
    rw [hrest]
    exact splitOn_afterOpeningRun hsplit
  | succ segment =>
    have hlater : later[segment]? = some lines := hlines
    have hfree := lineFeed_not_mem_indentLater hm hunbroken
    obtain ⟨line, rest, hrest⟩ := List.exists_cons_of_ne_nil hne
    have hne' : indentLater margin lines ≠ [] := by
      rw [hrest]
      exact List.cons_ne_nil _ _
    refine splitOn_closed hne' hfree hc (fun hlast => getLast?_indentLater_ne (hending hlast)) ?_
    simp only [List.getElem?_cons_succ, List.getElem?_map, hlater, Option.map_some,
      Option.some.injEq] at htext
    exact htext.symm

theorem offencesFrom_writtenLines (segment : Nat) (lines : List (List Char)) :
    offencesFrom margin segment 0 (writtenLines margin segment lines) = [] := by
  by_cases hfirst : segment = 0
  · rw [writtenLines, if_pos hfirst, offencesFrom_own_indent]
  · rw [writtenLines, if_neg hfirst]
    cases lines with
    | nil => rfl
    | cons line rest =>
      rw [indentLater, offencesFrom_cons, if_neg (by omega), offencesFrom_own_indent]

theorem map_withoutMargin_writtenLines {segment : Nat} {lines : List (List Char)}
    (h : segment ≠ 0 → ∀ line ∈ lines.head?, margin <+: line → margin = []) :
    (writtenLines margin segment lines).map (withoutMargin margin) = lines := by
  by_cases hfirst : segment = 0
  · rw [writtenLines, if_pos hfirst, map_withoutMargin_own_indent]
  · rw [writtenLines, if_neg hfirst]
    cases lines with
    | nil => rfl
    | cons line rest =>
      have hline : withoutMargin margin line = line := by
        by_cases hm : margin <+: line
        · simp [withoutMargin, h hfirst line rfl hm]
        · rw [withoutMargin, if_neg hm]
      rw [indentLater, List.map_cons, hline, map_withoutMargin_own_indent]

theorem Writable.continued_of_later (h : Writable margin first later) {segment : Nat}
    {lines : List (List Char)} (hlines : (first :: later)[segment]? = some lines)
    (hsegment : segment ≠ 0) : ∀ line ∈ lines.head?, margin <+: line → margin = [] := by
  cases segment with
  | zero => exact absurd rfl hsegment
  | succ segment => exact h.continued lines (List.mem_of_getElem? hlines)

theorem length_written : (written margin closing first later).length = (first :: later).length := by
  simp [written, length_endWith]

theorem written_first {text : List Char}
    (h : (written margin closing first later)[0]? = some text) :
    ∃ more, (more = [] ∨ more = '\n' :: closing) ∧
      text = ('\n' :: ['\n'].intercalate (first.map (indent margin))) ++ more := by
  rw [written, getElem?_endWith] at h
  by_cases hlast : later = []
  · refine ⟨'\n' :: closing, Or.inr rfl, ?_⟩
    simpa [hlast] using h.symm
  · refine ⟨[], Or.inl rfl, ?_⟩
    simpa [hlast] using h.symm

/-- The margin of a written body is the one it was written with. -/
theorem marginIn_written (hm : ∀ c ∈ margin, isBlank c = true) (h : Writable margin first later)
    {text : List Char} (htext : (written margin closing first later)[0]? = some text) :
    marginIn text = margin := by
  obtain ⟨line, hline, hflush⟩ := h.flush
  have hne := h.hasLine first (List.mem_cons_self ..)
  have hunbroken := h.unbroken first (List.mem_cons_self ..)
  have hblanks : line.takeWhile isBlank = [] := by
    cases line with
    | nil => rfl
    | cons c line => simp [hflush c rfl]
  have hlines : ('\n' :: ['\n'].intercalate (first.map (indent margin))).splitOn '\n' =
      [] :: first.map (indent margin) := by
    rw [List.splitOn_cons_eq_if_modifyHead, if_pos (by simp),
      List.splitOn_intercalate '\n' ?_ (by simpa using hne)]
    intro line' hline'
    obtain ⟨line'', hline'', rfl⟩ := List.mem_map.mp hline'
    exact lineFeed_not_mem_indent hm (hunbroken line'' hline'')
  obtain ⟨more, hmore⟩ : ∃ more, (text.splitOn '\n').tail = first.map (indent margin) ++ more := by
    obtain ⟨more, rfl | rfl, rfl⟩ := written_first htext
    · refine ⟨[], ?_⟩
      rw [List.append_nil, hlines, List.append_nil, List.tail_cons]
    · refine ⟨closing.splitOn '\n', ?_⟩
      rw [List.splitOn_append_cons_self, hlines]
      rfl
  rw [marginIn, hmore, List.find?_append, find?_map_indent, hline, Option.map_some, Option.some_or,
    Option.getD_some, List.takeWhile_append_of_pos hm, hblanks, List.append_nil]

end Written

/-- The raw text of a segment is its only text: escapes were not processed, or there are none. -/
def Segment.IsPlain (s : Segment) : Prop :=
  s.cooked = none ∨ s.cooked = some s.raw

theorem texts_of_isPlain {s : Segment} (h : s.IsPlain) : ∀ text ∈ s.texts, text = s.raw := by
  intro text htext
  rcases h with h | h <;> simpa [Segment.texts, h] using htext

theorem dedented_of_isPlain {s : Segment} (h : s.IsPlain) (margin : List Char)
    (count segment : Nat) :
    s.dedented margin count segment = ⟨dedentedText margin count segment s.raw,
      s.cooked.map fun _ => dedentedText margin count segment s.raw⟩ := by
  rcases h with h | h <;> simp [Segment.dedented, h]

theorem Literal.head?_segments {α : Type} (l : Literal α) : l.segments[0]? = some l.first := by
  cases l <;> rfl

/-- Of a plain literal it is enough to read the raw texts. -/
theorem normalize_of_plain_segments {α : Type} {l : Literal α}
    (hplain : ∀ s ∈ l.segments, s.IsPlain) (hopening : l.openingLine = [])
    (h : ∀ segment s, l.segments[segment]? = some s →
      offencesFrom l.margin segment 0 (trimmedLines l.segments.length segment s.raw) = []) :
    ∃ l', l.normalize = .ok l' ∧ l'.placeholders = l.placeholders ∧
      l'.segments = l.segments.mapIdx (Segment.dedented l.margin l.segments.length) := by
  have hoffences : l.offences = [] := by
    rw [Literal.offences, List.flatMap_eq_nil_iff]
    rintro ⟨s, segment⟩ hmem
    have hs : l.segments[segment]? = some s := List.mem_zipIdx_iff_getElem?.mp hmem
    show s.offences l.margin l.segments.length segment = []
    rw [Segment.offences, List.flatMap_eq_nil_iff]
    intro text htext
    rw [texts_of_isPlain (hplain s (List.mem_of_getElem? hs)) text htext, h segment s hs]
  have hnormalize := l.normalize_eq
  rw [if_pos hopening, hoffences] at hnormalize
  have hsegments := l.segments_mapFrom (Segment.dedented l.margin l.segments.length) 0
  simp only [Nat.zero_add] at hsegments
  exact ⟨_, hnormalize, l.placeholders_mapFrom _ 0, hsegments⟩

/-- A body written with any margin and any indentation of its closing delimiters normalizes to the
lines it was written from. -/
theorem written_body_reads_back {α : Type} {margin closing : List Char} {first : List (List Char)}
    {later : List (List (List Char))} {l : Literal α} (hm : ∀ c ∈ margin, isBlank c = true)
    (hc : ∀ c ∈ closing, isBlank c = true) (h : Writable margin first later)
    (hl : l.segments.map (fun s => s.raw.toList) = written margin closing first later)
    (hplain : ∀ s ∈ l.segments, s.IsPlain) :
    ∃ l', l.normalize = .ok l' ∧ l'.placeholders = l.placeholders ∧
      l'.segments = List.zipWith
        (fun s lines =>
          let text := String.ofList (['\n'].intercalate lines)
          ⟨text, s.cooked.map fun _ => text⟩)
        l.segments (first :: later) := by
  have htext : ∀ (segment : Nat) (s : Segment), l.segments[segment]? = some s →
      (written margin closing first later)[segment]? = some s.raw.toList := by
    intro segment s hs
    rw [← hl, List.getElem?_map, hs]
    rfl
  have hcount : l.segments.length = (first :: later).length := by
    have hlength := congrArg List.length hl
    rw [List.length_map, length_written] at hlength
    exact hlength
  have hfirst := htext 0 l.first l.head?_segments
  have hmargin : l.margin = margin := marginIn_written hm h hfirst
  have hopening : l.openingLine = [] := by
    obtain ⟨more, -, hmore⟩ := written_first hfirst
    rw [Literal.openingLine, hmore]
    rfl
  have htrimmed : ∀ (segment : Nat) (s : Segment) (lines : List (List Char)),
      l.segments[segment]? = some s → (first :: later)[segment]? = some lines →
      trimmedLines l.segments.length segment s.raw = writtenLines margin segment lines := by
    intro segment s lines hs hlines
    rw [hcount]
    exact trimmedLines_written hm hc h hlines (htext segment s hs)
  have hlines : ∀ (segment : Nat) (s : Segment), l.segments[segment]? = some s →
      ∃ lines, (first :: later)[segment]? = some lines := by
    intro segment s hs
    obtain ⟨hlt, -⟩ := List.getElem?_eq_some_iff.mp hs
    exact ⟨_, List.getElem?_eq_getElem (hcount ▸ hlt)⟩
  have hoffences : ∀ segment s, l.segments[segment]? = some s →
      offencesFrom l.margin segment 0 (trimmedLines l.segments.length segment s.raw) = [] := by
    intro segment s hs
    obtain ⟨lines, hlines⟩ := hlines segment s hs
    rw [hmargin, htrimmed segment s lines hs hlines, offencesFrom_writtenLines]
  obtain ⟨l', hl', hplaceholders, hsegments⟩ :=
    normalize_of_plain_segments hplain hopening hoffences
  refine ⟨l', hl', hplaceholders, hsegments.trans ?_⟩
  apply List.ext_getElem?
  intro segment
  rw [List.getElem?_mapIdx, List.getElem?_zipWith]
  cases hs : l.segments[segment]? with
  | none => rfl
  | some s =>
    obtain ⟨lines, hlines⟩ := hlines segment s hs
    have htext : dedentedText l.margin l.segments.length segment s.raw =
        String.ofList (['\n'].intercalate lines) := by
      rw [dedentedText, hmargin, htrimmed segment s lines hs hlines,
        map_withoutMargin_writtenLines (h.continued_of_later hlines)]
    rw [hlines, Option.map_some, dedented_of_isPlain (hplain s (List.mem_of_getElem? hs)), htext]

/-- Two segments under a margin of a tab and a space, with blank lines and deeper indentation. -/
def tabbed : Literal Unit :=
  .hole ⟨"\n\n\t a\n\t   b", none⟩ () (.text ⟨" c\n\n\t d\n ", some " c\n\n\t d\n "⟩)

theorem tabbed_reads_back :
    Writable ['\t', ' '] [[], ['a'], [' ', ' ', 'b']] [[[' ', 'c'], [], ['d']]] ∧
      ∃ l', tabbed.normalize = .ok l' ∧ l'.placeholders = [()] ∧
        l'.segments = [⟨"\na\n  b", none⟩, ⟨" c\n\nd", some " c\n\nd"⟩] := by
  have h : Writable ['\t', ' '] [[], ['a'], [' ', ' ', 'b']] [[[' ', 'c'], [], ['d']]] :=
    ⟨by decide, by decide, ⟨['a'], by decide, by simp [isBlank]⟩, by decide, by decide⟩
  have hl : tabbed.segments.map (fun s => s.raw.toList) =
      written ['\t', ' '] [' '] [[], ['a'], [' ', ' ', 'b']] [[[' ', 'c'], [], ['d']]] := by decide
  have hplain : ∀ s ∈ tabbed.segments, s.IsPlain := by
    simp [tabbed, Literal.segments, Segment.IsPlain]
  have hm : ∀ c ∈ ['\t', ' '], isBlank c = true := by simp [isBlank]
  have hc : ∀ c ∈ [' '], isBlank c = true := by simp [isBlank]
  obtain ⟨l', hl', hplaceholders, hsegments⟩ := written_body_reads_back hm hc h hl hplain
  exact ⟨h, l', hl', hplaceholders, hsegments.trans (by decide)⟩

end OverDelimited
