import Mathlib.Data.List.Forall2
import OverDelimited.Proofs.DelimiterRuns
import OverDelimited.Proofs.Walk

/-!
# Reading under a wider margin

The same lines are read twice, once under the margin `m`, and once indented by `w` under the margin
`w ++ m`.  Each line agrees with its indented form: both lack their margin or neither does, and
without it they are the same.  So the second reading fails where the first does, and succeeds alike
but for two lines that are not indented: the one a segment opens with, and one that the closing run
may leave behind (`readLines_follows`).  From segments this carries over to literals
(`follows_mapSegmentsFrom`).
-/

namespace OverDelimited

open Text

/-! ### Indented lines -/

/-- White space in front of a line, unless the line is empty. -/
def indent (w line : List Char) : List Char :=
  if line = [] then [] else w ++ line

/-- Indents every line but the one a segment opens with. -/
def indentLater (w : List Char) : List (List Char) → List (List Char)
  | [] => []
  | line :: later => line :: later.map (indent w)

section Indent

variable {w m line : List Char}

theorem indent_of_ne_nil (h : line ≠ []) : indent w line = w ++ line := if_neg h

theorem lineFeed_not_mem_indent (hw : ∀ c ∈ w, isBlank c = true) (h : '\n' ∉ line) :
    '\n' ∉ indent w line := by
  by_cases hline : line = []
  · simp [indent, hline]
  · rw [indent_of_ne_nil hline, List.mem_append]
    rintro (hmem | hmem)
    · exact lineFeed_not_mem_of_blank hw hmem
    · exact h hmem

theorem lacksMargin_indent : LacksMargin (w ++ m) (indent w line) ↔ LacksMargin m line := by
  by_cases hline : line = []
  · simp [LacksMargin, indent, hline]
  · simp [LacksMargin, indent_of_ne_nil hline, hline, List.prefix_append_right_inj]

theorem withoutMargin_nil (m : List Char) : withoutMargin m [] = [] := by
  by_cases hm : m <+: [] <;> simp [withoutMargin, hm]

theorem withoutMargin_indent (h : ¬ LacksMargin m line) :
    withoutMargin (w ++ m) (indent w line) = withoutMargin m line := by
  by_cases hline : line = []
  · subst hline
    show withoutMargin (w ++ m) [] = withoutMargin m []
    rw [withoutMargin_nil, withoutMargin_nil]
  · have hm : m <+: line := by
      by_cases hm : m <+: line
      · exact hm
      · exact absurd ⟨hline, hm⟩ h
    have hwm : w ++ m <+: w ++ line := (List.prefix_append_right_inj w).mpr hm
    rw [indent_of_ne_nil hline, withoutMargin, withoutMargin, if_pos hm, if_pos hwm,
      List.length_append, ← List.drop_drop, List.drop_left]

/-- White space that is less than the wider margin lacks it. -/
theorem lacksMargin_of_wider (hw : w ≠ []) (hm : m ≠ []) : LacksMargin (w ++ m) w := by
  refine ⟨hw, fun hprefix => hm ?_⟩
  have hlength := hprefix.length_le
  rw [List.length_append] at hlength
  exact List.eq_nil_of_length_eq_zero (by omega)

end Indent

/-! ### Lines that agree -/

/-- Two lines fare alike, the one under the margin `m` and the other under `w ++ m`. -/
structure Agrees (w m line line' : List Char) : Prop where
  lacks : LacksMargin (w ++ m) line' ↔ LacksMargin m line
  rest : ¬ LacksMargin m line → withoutMargin (w ++ m) line' = withoutMargin m line

section Agreement

variable {w m : List Char}

theorem agrees_indent (line : List Char) : Agrees w m line (indent w line) :=
  ⟨lacksMargin_indent, withoutMargin_indent⟩

theorem agrees_map_indent (lines : List (List Char)) :
    List.Forall₂ (Agrees w m) lines (lines.map (indent w)) := by
  induction lines with
  | nil => exact .nil
  | cons line rest ih => exact .cons (agrees_indent line) ih

theorem offencesFrom_of_agrees {lines lines' : List (List Char)}
    (h : List.Forall₂ (Agrees w m) lines lines') (segment index : Nat) :
    offencesFrom (w ++ m) segment index lines' = offencesFrom m segment index lines := by
  induction h generalizing index with
  | nil => rfl
  | cons hline _ ih =>
    rw [offencesFrom_cons, offencesFrom_cons, ih]
    simp only [hline.lacks]

theorem map_withoutMargin_of_agrees {lines lines' : List (List Char)}
    (h : List.Forall₂ (Agrees w m) lines lines') (hlacks : ∀ line ∈ lines, ¬ LacksMargin m line) :
    lines'.map (withoutMargin (w ++ m)) = lines.map (withoutMargin m) := by
  induction h with
  | nil => rfl
  | cons hline _ ih =>
    have hrest := ih fun line hmem => hlacks line (List.mem_cons_of_mem _ hmem)
    rw [List.map_cons, List.map_cons, hline.rest (hlacks _ (List.mem_cons_self ..)), hrest]

theorem not_lacksMargin_of_offencesFrom {segment index : Nat} {lines : List (List Char)}
    (hindex : 1 ≤ index) (h : offencesFrom m segment index lines = []) :
    ∀ line ∈ lines, ¬ LacksMargin m line := by
  induction lines generalizing index with
  | nil => simp
  | cons line rest ih =>
    rw [offencesFrom_cons] at h
    have hline : ¬ (1 ≤ index ∧ LacksMargin m line) := by
      intro hlacks
      rw [if_pos hlacks] at h
      cases h
    rw [if_neg hline] at h
    intro line' hmem
    rcases List.mem_cons.mp hmem with rfl | hmem
    · exact fun hlacks => hline ⟨hindex, hlacks⟩
    · exact ih (by omega) h line' hmem

theorem offencesFrom_append (segment index : Nat) (before after : List (List Char)) :
    offencesFrom m segment index (before ++ after) =
      offencesFrom m segment index before ++
        offencesFrom m segment (index + before.length) after := by
  rw [offencesFrom, List.zipIdx_append, List.filterMap_append, offencesFrom, offencesFrom]

/-- The line a segment opens with is never an offence. -/
theorem offencesFrom_opening (segment : Nat) (line : List Char) (rest : List (List Char)) :
    offencesFrom m segment 0 (line :: rest) = offencesFrom m segment 1 rest := by
  rw [offencesFrom_cons, if_neg (by omega)]

theorem intercalate_cons_inj {line line' : List Char} {rest : List (List Char)} :
    ['\n'].intercalate (line :: rest) = ['\n'].intercalate (line' :: rest) ↔ line = line' := by
  by_cases hrest : rest = []
  · simp [hrest]
  · rw [List.intercalate_cons_of_ne_nil hrest, List.intercalate_cons_of_ne_nil hrest,
      List.append_assoc, List.append_assoc, List.append_cancel_right_eq]

/-- What becomes of a text with the given trimmed lines. -/
def readLines (m : List Char) (segment : Nat) (lines : List (List Char)) :
    Except Malformed String :=
  unlessOffended (offencesFrom m segment 0 lines)
    (String.ofList (['\n'].intercalate (lines.map (withoutMargin m))))

theorem unlessOffended_eq_ok {α : Type} {offences : List (Nat × Nat)} {result a : α} :
    unlessOffended offences result = .ok a ↔ offences = [] ∧ result = a := by
  cases offences <;> simp [unlessOffended]

theorem readLines_eq_error_of_agrees {line line' : List Char} {rest rest' : List (List Char)}
    (h : List.Forall₂ (Agrees w m) rest rest') {segment : Nat} {e : Malformed}
    (he : readLines m segment (line :: rest) = .error e) :
    readLines (w ++ m) segment (line' :: rest') = .error e := by
  rw [readLines, offencesFrom_opening] at he ⊢
  rw [offencesFrom_of_agrees h]
  cases hoff : offencesFrom m segment 1 rest with
  | nil =>
    rw [hoff] at he
    cases he
  | cons offence more =>
    rw [hoff] at he
    exact he

theorem readLines_eq_ok_of_agrees {line line' : List Char} {rest rest' : List (List Char)}
    (h : List.Forall₂ (Agrees w m) rest rest') {segment : Nat} {text : String}
    (htext : readLines m segment (line :: rest) = .ok text) :
    readLines (w ++ m) segment (line' :: rest') = .ok
      (String.ofList (['\n'].intercalate
        (withoutMargin (w ++ m) line' :: rest.map (withoutMargin m)))) := by
  rw [readLines, offencesFrom_opening] at htext ⊢
  obtain ⟨hoff, -⟩ := unlessOffended_eq_ok.mp htext
  have hlacks := not_lacksMargin_of_offencesFrom (Nat.le_refl 1) hoff
  rw [offencesFrom_of_agrees h, hoff, List.map_cons, map_withoutMargin_of_agrees h hlacks]
  rfl

theorem readLines_eq_ok_iff_of_agrees {line line' : List Char} {rest rest' : List (List Char)}
    (h : List.Forall₂ (Agrees w m) rest rest') {segment : Nat} {text : String}
    (htext : readLines m segment (line :: rest) = .ok text) :
    readLines (w ++ m) segment (line' :: rest') = .ok text ↔
      withoutMargin (w ++ m) line' = withoutMargin m line := by
  have hold : String.ofList (['\n'].intercalate
      (withoutMargin m line :: rest.map (withoutMargin m))) = text := by
    rw [readLines] at htext
    exact (unlessOffended_eq_ok.mp htext).2
  rw [readLines_eq_ok_of_agrees h htext, ← hold, Except.ok.injEq, String.ofList_inj,
    intercalate_cons_inj]

/-- White space that is left of a lone return lacks the new margin, and nothing was wrong before. -/
theorem readLines_of_lone_return (line line' : List Char) {rest rest' : List (List Char)}
    (hw : w ≠ []) (hm : m ≠ []) (h : List.Forall₂ (Agrees w m) rest rest') (segment : Nat) :
    (∀ e, readLines m segment (line :: (rest ++ [[]])) = .error e →
      readLines (w ++ m) segment (line' :: (rest' ++ [w])) = .error e) ∧
    ∀ text, readLines (w ++ m) segment (line' :: (rest' ++ [w])) ≠ .ok text := by
  have hold : offencesFrom m segment 0 (line :: (rest ++ [[]])) =
      offencesFrom m segment 1 rest := by
    rw [offencesFrom_opening, offencesFrom_append, offencesFrom_cons,
      if_neg fun hlacks => hlacks.2.1 rfl]
    exact List.append_nil _
  have hnew : offencesFrom (w ++ m) segment 0 (line' :: (rest' ++ [w])) =
      offencesFrom m segment 1 rest ++ [(segment, 1 + rest'.length)] := by
    rw [offencesFrom_opening, offencesFrom_append, offencesFrom_of_agrees h, offencesFrom_cons,
      if_pos ⟨by omega, lacksMargin_of_wider hw hm⟩]
    rfl
  -- the new offence comes last, so it is reported only if there was none before
  rw [readLines, readLines, hold, hnew]
  cases hoff : offencesFrom m segment 1 rest with
  | nil => exact ⟨nofun, nofun⟩
  | cons offence more => exact ⟨fun e he => he, nofun⟩

end Agreement

/-! ### Two results -/

/-- One result follows another: it fails where that fails, and succeeds alike under two conditions,
of which the second is all it takes to succeed. -/
structure Follows {β : Type} (opening closing : Prop) (x y : Except Malformed β) : Prop where
  error : ∀ e, x = .error e → y = .error e
  same_iff : ∀ b, x = .ok b → (y = .ok b ↔ opening ∧ closing)
  succeeds : closing → ∀ b, x = .ok b → ∃ b', y = .ok b'

/-- Lines after the first, and what is left of them in the shifted text.  They agree, or else the
white space in front of a lone return is left over. -/
inductive ShiftedLines (w m : List Char) (steady : Prop) :
    List (List Char) → List (List Char) → Prop
  | alike {lines lines' : List (List Char)} (hsteady : steady)
      (h : List.Forall₂ (Agrees w m) lines lines') : ShiftedLines w m steady lines lines'
  | leftover {lines lines' : List (List Char)} (hsteady : ¬ steady) (hw : w ≠ []) (hm : m ≠ [])
      (h : List.Forall₂ (Agrees w m) lines lines') :
      ShiftedLines w m steady (lines ++ [[]]) (lines' ++ [w])

theorem readLines_follows {w m line line' : List Char} {rest rest' : List (List Char)}
    {opening closing : Prop} (hline : withoutMargin (w ++ m) line' = withoutMargin m line ↔ opening)
    (h : ShiftedLines w m closing rest rest') (segment : Nat) :
    Follows opening closing (readLines m segment (line :: rest))
      (readLines (w ++ m) segment (line' :: rest')) := by
  cases h with
  | alike hsteady h =>
    refine ⟨fun e => readLines_eq_error_of_agrees h, fun text htext => ?_, fun _ text htext => ?_⟩
    · rw [readLines_eq_ok_iff_of_agrees h htext, hline, and_iff_left hsteady]
    · exact ⟨_, readLines_eq_ok_of_agrees h htext⟩
  | leftover hsteady hw hm h =>
    obtain ⟨herror, hok⟩ := readLines_of_lone_return line line' hw hm h segment
    refine ⟨herror, fun text _ => ?_, fun hclosing => absurd hclosing hsteady⟩
    exact ⟨fun htext => absurd htext (hok text), fun hboth => absurd hboth.2 hsteady⟩

section Results

variable {α β γ : Type} {opening closing opening' closing' : Prop}

theorem map_eq_error {ε : Type} {f : β → γ} {x : Except ε β} {e : ε} :
    x.map f = .error e ↔ x = .error e := by
  cases x <;> simp [Except.map]

theorem Follows.map {x y : Except Malformed β} (h : Follows opening closing x y) {f : β → γ}
    (hf : ∀ b b', f b = f b' → b = b') : Follows opening closing (x.map f) (y.map f) := by
  refine ⟨fun e he => ?_, fun c hc => ?_, fun hclosing c hc => ?_⟩
  · exact map_eq_error.mpr (h.error e (map_eq_error.mp he))
  · obtain ⟨b, hx, rfl⟩ := map_eq_ok.mp hc
    rw [← h.same_iff b hx, map_eq_ok]
    constructor
    · rintro ⟨b', hy, heq⟩
      rw [← hf b' b heq]
      exact hy
    · exact fun hy => ⟨b, hy, rfl⟩
  · obtain ⟨b, hx, rfl⟩ := map_eq_ok.mp hc
    obtain ⟨b', hy⟩ := h.succeeds hclosing b hx
    exact ⟨f b', map_eq_ok.mpr ⟨b', hy, rfl⟩⟩

/-- A segment that cannot fail anew leaves it to the rest of the literal whether the whole does. -/
theorem Follows.hole {x y : Except Malformed Segment} {xs ys : Except Malformed (Literal α)}
    (h : Follows opening closing x y) (hclosing : closing) (hrest : Follows opening' closing' xs ys)
    (p : α) :
    Follows (opening ∧ opening') closing' (x >>= fun s => xs.map (Literal.hole s p))
      (y >>= fun s => ys.map (Literal.hole s p)) := by
  refine ⟨fun e he => ?_, fun l hl => ?_, fun hclosing' l hl => ?_⟩
  · cases hx : x with
    | error e' =>
      rw [hx] at he
      rw [h.error e' hx]
      exact he
    | ok s =>
      obtain ⟨s', hy⟩ := h.succeeds hclosing s hx
      rw [hx] at he
      rw [hy]
      exact map_eq_error.mpr (hrest.error e (map_eq_error.mp he))
  · obtain ⟨s, hx, hl⟩ := bind_eq_ok.mp hl
    obtain ⟨rest, hxs, rfl⟩ := map_eq_ok.mp hl
    have hsame := h.same_iff s hx
    have hsame' := hrest.same_iff rest hxs
    constructor
    · intro hboth
      obtain ⟨s', hy, hboth⟩ := bind_eq_ok.mp hboth
      obtain ⟨rest', hys, heq⟩ := map_eq_ok.mp hboth
      cases heq
      have hheld := hsame'.mp hys
      exact ⟨⟨(hsame.mp hy).1, hheld.1⟩, hheld.2⟩
    · rintro ⟨⟨hopening, hopening'⟩, hclosing'⟩
      have hy := hsame.mpr ⟨hopening, hclosing⟩
      have hys := hsame'.mpr ⟨hopening', hclosing'⟩
      exact bind_eq_ok.mpr ⟨s, hy, map_eq_ok.mpr ⟨rest, hys, rfl⟩⟩
  · obtain ⟨s, hx, hl⟩ := bind_eq_ok.mp hl
    obtain ⟨rest, hxs, rfl⟩ := map_eq_ok.mp hl
    obtain ⟨s', hy⟩ := h.succeeds hclosing s hx
    obtain ⟨rest', hys⟩ := hrest.succeeds hclosing' rest hxs
    exact ⟨_, bind_eq_ok.mpr ⟨s', hy, map_eq_ok.mpr ⟨rest', hys, rfl⟩⟩⟩

theorem mapSegmentsFrom_hole (f : Nat → Segment → Except Malformed Segment) (i : Nat) (s : Segment)
    (p : α) (rest : Literal α) :
    (Literal.hole s p rest).mapSegmentsFrom f i =
      f i s >>= fun s' => (rest.mapSegmentsFrom f (i + 1)).map (.hole s' p) := by
  rw [Literal.mapSegmentsFrom]
  cases f i s <;> rfl

/-- Only the last segment can fail anew, so a traversal follows another segment by segment. -/
theorem follows_mapSegmentsFrom {f f' : Nat → Segment → Except Malformed Segment}
    {g : Segment → Segment} {opens closes : Segment × Nat → Prop} (l : Literal α) (i : Nat)
    (h : ∀ sj ∈ l.segments.zipIdx i,
      Follows (opens sj) (closes sj) (f sj.2 sj.1) (f' sj.2 (g sj.1)))
    (hinner : ∀ sj ∈ l.segments.zipIdx i, sj.2 + 1 ≠ i + l.segments.length → closes sj) :
    Follows (∀ sj ∈ l.segments.zipIdx i, opens sj)
      (∀ sj ∈ l.segments.zipIdx i, closes sj) (l.mapSegmentsFrom f i)
      ((l.mapFrom (fun _ => g) i).mapSegmentsFrom f' i) := by
  induction l generalizing i with
  | text s =>
    simp only [Literal.segments, List.zipIdx_cons, List.zipIdx_nil, List.forall_mem_singleton]
      at h ⊢
    exact h.map fun s s' heq => Literal.text.inj heq
  | hole s p rest ih =>
    simp only [Literal.segments, List.zipIdx_cons, List.forall_mem_cons, List.length_cons]
      at h hinner ⊢
    have hcount := rest.length_segments
    have hcloses : closes (s, i) := hinner.1 (by omega)
    have hrest := ih (i + 1) h.2 fun sj hsj hne => hinner.2 sj hsj (by omega)
    rw [and_iff_right hcloses, Literal.mapFrom, mapSegmentsFrom_hole, mapSegmentsFrom_hole]
    exact h.1.hole hcloses hrest p

end Results

end OverDelimited
