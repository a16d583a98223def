import OverDelimited.Proofs.SecondPass

/-!
# Content

The content of an expression is what is left of its source once delimiters and the white space of
literals are taken away: names, strings and properties, the marks of calls, arrays and placeholders,
and the ink of every literal, in reading order.  Layers without text have no content, the trims and
the margin take off white space only, and the walk keeps the order of what it visits.  So collapsing
keeps the content of every expression.
-/

namespace OverDelimited

open Text

/-! ### Ink -/

/-- White space of a literal: what indents, and what ends a line. -/
def isLayout (c : Char) : Bool :=
  isBlank c || c = '\r' || c = '\n'

/-- The characters of a text that are not white space. -/
def ink (text : List Char) : List Char :=
  text.filter fun c => !isLayout c

theorem ink_append (a b : List Char) : ink (a ++ b) = ink a ++ ink b :=
  List.filter_append ..

theorem ink_reverse (text : List Char) : ink text.reverse = (ink text).reverse :=
  List.filter_reverse ..

theorem ink_cons_of_layout {c : Char} (h : isLayout c = true) (text : List Char) :
    ink (c :: text) = ink text :=
  List.filter_cons_of_neg (by simp [h])

theorem ink_cons_of_blank {c : Char} (h : isBlank c = true) (text : List Char) :
    ink (c :: text) = ink text :=
  ink_cons_of_layout (by simp [isLayout, h]) text

theorem ink_cons_lineFeed (text : List Char) : ink ('\n' :: text) = ink text :=
  ink_cons_of_layout rfl text

theorem ink_cons_return (text : List Char) : ink ('\r' :: text) = ink text :=
  ink_cons_of_layout rfl text

theorem ink_dropBlanks (text : List Char) : ink (text.dropWhile isBlank) = ink text := by
  induction text with
  | nil => rfl
  | cons c text ih =>
    cases hc : isBlank c with
    | true => rw [List.dropWhile_cons_of_pos hc, ih, ink_cons_of_blank hc]
    | false => rw [List.dropWhile_cons_of_neg (by simp [hc])]

/-! ### Trimming -/

theorem ink_dropOpeningBreak (text : List Char) : ink (dropOpeningBreak text) = ink text := by
  have hblanks := ink_dropBlanks text
  unfold dropOpeningBreak
  split
  · next rest h => rw [← hblanks, h, ink_cons_return, ink_cons_lineFeed]
  · next rest h => rw [← hblanks, h, ink_cons_lineFeed]
  · rfl

theorem ink_dropClosingBreak (text : List Char) : ink (dropClosingBreak text) = ink text := by
  have hblanks := ink_dropBlanks text.reverse
  rw [ink_reverse] at hblanks
  unfold dropClosingBreak
  split
  · next rest h =>
    rw [h, ink_cons_lineFeed, ink_cons_return] at hblanks
    rw [ink_reverse, hblanks, List.reverse_reverse]
  · next rest h =>
    rw [h, ink_cons_lineFeed] at hblanks
    rw [ink_reverse, hblanks, List.reverse_reverse]
  · rfl

theorem ink_trim (position : Position) (text : List Char) :
    ink (position.trim text) = ink text := by
  unfold Position.trim
  by_cases htrailing : position.trimsTrailing = true <;>
    by_cases hleading : position.trimsLeading = true <;>
      simp [htrailing, hleading, ink_dropOpeningBreak, ink_dropClosingBreak]

/-! ### Taking off the margin -/

theorem isBlank_of_mem_margin {text margin : List Char} (h : marginOf text = .ok margin) :
    ∀ c ∈ margin, isBlank c = true := by
  simp only [marginOf] at h
  split at h
  · cases h
    intro c hc
    exact List.all_eq_true.mp List.all_takeWhile c hc
  · cases h

theorem ink_stripMargin {margin line rest : List Char} (hm : ∀ c ∈ margin, isBlank c = true)
    (h : stripMargin margin line = some rest) : ink rest = ink line := by
  induction margin generalizing line with
  | nil =>
    cases h
    rfl
  | cons m margin ih =>
    cases line with
    | nil => cases h
    | cons c line =>
      unfold stripMargin at h
      split at h
      · next hmc =>
        subst hmc
        have hblank := hm m (List.mem_cons_self ..)
        rw [ih (fun c hc => hm c (List.mem_cons_of_mem _ hc)) h, ink_cons_of_blank hblank]
      · cases h

/-- What becomes of a line that is not refused. -/
theorem dedentLines_cons {margin line : List Char} {segment index : Nat}
    {rest lines' : List (List Char)}
    (h : dedentLines margin segment index (line :: rest) = .ok lines') :
    ∃ kept rest', lines' = kept :: rest' ∧
      (stripMargin margin line = some kept ∨ kept = line) ∧
      dedentLines margin segment (index + 1) rest = .ok rest' := by
  cases hs : stripMargin margin line with
  | some kept =>
    simp only [dedentLines, classify, hs] at h
    obtain ⟨rest', hrest, rfl⟩ := map_eq_ok.mp h
    exact ⟨kept, rest', rfl, Or.inl rfl, hrest⟩
  | none =>
    cases hc : classify margin (.ofIndex index) line with
    | inconsistent =>
      simp only [dedentLines, hc] at h
      cases h
    | dedented kept =>
      simp only [classify, hs] at hc
      split at hc <;> cases hc
    | kept kept =>
      have hkept : kept = line := by
        simp only [classify, hs] at hc
        split at hc <;> cases hc
        rfl
      simp only [dedentLines, hc] at h
      obtain ⟨rest', hrest, rfl⟩ := map_eq_ok.mp h
      exact ⟨kept, rest', rfl, Or.inr hkept, hrest⟩

theorem ink_dedentLines {margin : List Char} (hm : ∀ c ∈ margin, isBlank c = true)
    {segment index : Nat} {lines lines' : List (List Char)}
    (h : dedentLines margin segment index lines = .ok lines') :
    lines'.map ink = lines.map ink := by
  induction lines generalizing index lines' with
  | nil =>
    cases h
    rfl
  | cons line rest ih =>
    obtain ⟨kept, rest', rfl, hline, hrest⟩ := dedentLines_cons h
    have hkept : ink kept = ink line := by
      rcases hline with hstrip | rfl
      · exact ink_stripMargin hm hstrip
      · rfl
    rw [List.map_cons, List.map_cons, hkept, ih hrest]

theorem ink_joinLater (lines : List (List Char)) :
    ink (Lines.joinLater lines) = (lines.map ink).flatten := by
  induction lines with
  | nil => rfl
  | cons line rest ih =>
    rw [Lines.joinLater, ink_cons_lineFeed, ink_append, ih]
    rfl

theorem ink_toText (first : List Char) (later : List (List Char)) :
    ink (Lines.toText ⟨first, later⟩) = ((first :: later).map ink).flatten := by
  rw [Lines.toText, ink_append, ink_joinLater]
  rfl

theorem ink_dedent {margin text text' : List Char} (hm : ∀ c ∈ margin, isBlank c = true)
    {segment : Nat} (h : dedent margin segment text = .ok text') : ink text' = ink text := by
  have hcut : ink text =
      (((Lines.ofText text).first :: (Lines.ofText text).later).map ink).flatten := by
    rw [← ink_toText, Lines.toText_ofText]
  simp only [dedent] at h
  split at h
  · cases h
  · next hd =>
    cases h
    rw [hcut, ← ink_dedentLines hm hd]
    rfl
  · next first later hd =>
    cases h
    rw [hcut, ← ink_dedentLines hm hd, ink_toText]

theorem ink_normalizeText {margin : List Char} (hm : ∀ c ∈ margin, isBlank c = true)
    {position : Position} {segment : Nat} {text text' : String}
    (h : normalizeText margin position segment text = .ok text') :
    ink text'.toList = ink text.toList := by
  obtain ⟨chars, hd, rfl⟩ := map_eq_ok.mp h
  rw [String.toList_ofList, ink_dedent hm hd, ink_trim]

/-! ### Segments and literals -/

def Segment.ink (s : Segment) : List Char :=
  OverDelimited.ink s.raw.toList

theorem ink_segment_normalize {margin : List Char} (hm : ∀ c ∈ margin, isBlank c = true)
    {count index : Nat} {s s' : Segment} (h : s.normalize margin count index = .ok s') :
    s'.ink = s.ink := by
  simp only [Segment.normalize] at h
  cases hraw : normalizeText margin (.of index count) index s.raw with
  | error e =>
    simp only [hraw] at h
    cases h
  | ok raw =>
    have hink := ink_normalizeText hm hraw
    cases hcooked : s.cooked with
    | none =>
      simp only [hraw, hcooked] at h
      cases h
      exact hink
    | some cooked =>
      simp only [hraw, hcooked] at h
      obtain ⟨cooked', -, rfl⟩ := map_eq_ok.mp h
      exact hink

theorem ink_mapSegmentsFrom {α ε : Type} {f : Nat → Segment → Except ε Segment}
    (hf : ∀ i s s', f i s = .ok s' → s'.ink = s.ink) {i : Nat} {l l' : Literal α}
    (h : l.mapSegmentsFrom f i = .ok l') :
    l'.segments.map Segment.ink = l.segments.map Segment.ink := by
  induction l generalizing i l' with
  | text s =>
    obtain ⟨s', hs, rfl⟩ := mapSegmentsFrom_text_eq_ok.mp h
    simp only [Literal.segments, List.map_cons, List.map_nil, hf i s s' hs]
  | hole s p rest ih =>
    obtain ⟨s', hs, rest', hrest, rfl⟩ := mapSegmentsFrom_hole_eq_ok.mp h
    simp only [Literal.segments, List.map_cons, hf i s s' hs, ih hrest]

theorem ink_normalize {α : Type} {l l' : Literal α} (h : l.normalize = .ok l') :
    l'.segments.map Segment.ink = l.segments.map Segment.ink := by
  unfold Literal.normalize at h
  split at h
  · cases h
  · next margin hmargin =>
    refine ink_mapSegmentsFrom (fun i s s' hs => ?_) h
    exact ink_segment_normalize (isBlank_of_mem_margin hmargin) hs

/-! ### Content of expressions -/

/-- A piece of content. -/
inductive Token where
  | name (text : String)
  | string (value : String)
  | property (text : String)
  | openCall
  | closeCall
  | openArray
  | closeArray
  /-- What stands between two arguments or two elements. -/
  | separator
  | openPlaceholder
  | closePlaceholder
  /-- A character of a literal's raw text. -/
  | ink (c : Char)
deriving DecidableEq, Repr

mutual
/-- The content of an expression, in the order in which its source shows it. -/
def Expr.content : Expr → List Token
  | .identifier name => [.name name]
  | .string value => [.string value]
  | .template l => contentLiteral l
  | .tagged tag l => tag.content ++ contentLiteral l
  | .call callee arguments =>
    callee.content ++ .openCall :: contentAll arguments ++ [.closeCall]
  | .member object property => object.content ++ [.property property]
  | .array elements => .openArray :: contentAll elements ++ [.closeArray]

def contentLiteral : Literal Expr → List Token
  | .text s => s.ink.map .ink
  | .hole s p rest =>
    s.ink.map .ink ++ .openPlaceholder :: p.content ++ .closePlaceholder :: contentLiteral rest

def contentAll : List Expr → List Token
  | [] => []
  | [e] => e.content
  | e :: rest => e.content ++ .separator :: contentAll rest
end

theorem contentAll_cons_cons (e e₂ : Expr) (rest : List Expr) :
    contentAll (e :: e₂ :: rest) = e.content ++ .separator :: contentAll (e₂ :: rest) := by
  rw [contentAll]
  exact nofun

/-- The content of a list is made of the contents of its members. -/
theorem contentAll_congr {es es' : List Expr} (h : es'.map Expr.content = es.map Expr.content) :
    contentAll es' = contentAll es := by
  induction es generalizing es' with
  | nil => rw [List.map_eq_nil_iff.mp h]
  | cons e es ih =>
    obtain ⟨e', rest', rfl, he, hrest⟩ := List.map_eq_cons_iff.mp h
    cases es with
    | nil =>
      rw [List.map_eq_nil_iff.mp hrest]
      simp only [contentAll, he]
    | cons e₂ es =>
      obtain ⟨e₂', rest₂', rfl, -, -⟩ := List.map_eq_cons_iff.mp hrest
      rw [contentAll_cons_cons, contentAll_cons_cons, he, ih hrest]

/-- The content of a literal is made of the ink of its segments and the contents of its
placeholders. -/
theorem contentLiteral_congr {l l' : Literal Expr}
    (hs : l'.segments.map Segment.ink = l.segments.map Segment.ink)
    (hp : l'.placeholders.map Expr.content = l.placeholders.map Expr.content) :
    contentLiteral l' = contentLiteral l := by
  induction l generalizing l' with
  | text s =>
    cases l' with
    | text s' =>
      simp only [Literal.segments, List.map_cons, List.map_nil, List.cons.injEq] at hs
      simp only [contentLiteral, hs.1]
    | hole s' p' rest' => cases hp
  | hole s p rest ih =>
    cases l' with
    | text s' => cases hp
    | hole s' p' rest' =>
      simp only [Literal.segments, Literal.placeholders, List.map_cons, List.cons.injEq] at hs hp
      simp only [contentLiteral, hs.1, hp.1, ih hs.2 hp.2]

theorem contentLiteral_of_trivial {l : Literal Expr} (h : l.isTrivial = true) :
    contentLiteral l = [] := by
  obtain ⟨s, rfl⟩ := exists_text_of_isTrivial h
  have hraw : s.raw = "" := by simpa [Literal.isTrivial] using h
  simp [contentLiteral, Segment.ink, hraw, ink]

theorem content_of_closes {d : Nat} {x e : Expr} (h : Closes d x e) : e.content = x.content := by
  induction h with
  | refl => rfl
  | layer _ hl ih => rw [Expr.content, contentLiteral_of_trivial hl, List.append_nil, ih]

/-- A chain has the content of its tag and its body. -/
theorem content_of_resolve {tag : Expr} {l body : Literal Expr} {r : Option Expr} {d : Nat}
    (h : Tagged.resolve ⟨tag, l⟩ = some ⟨r, body, d⟩) :
    (Expr.tagged tag l).content = (Expr.ofLiteral r body).content := by
  obtain ⟨k, u, rfl, -, hc, hbal⟩ := Tagged.resolve_eq_some_iff.mp h
  have hclosing : (Expr.tagged tag l).content = u.content ++ contentLiteral body :=
    content_of_closes hc
  cases r with
  | none =>
    obtain ⟨bare, hbare, hu⟩ := balance_eq_bare_iff.mp hbal
    have hempty : bare.content = [] := by
      cases bare with
      | template m => exact contentLiteral_of_trivial hbare
      | _ => cases hbare
    rw [hclosing, content_of_closes hu, hempty]
    rfl
  | some t =>
    obtain ⟨-, hu⟩ := balance_eq_tag_iff.mp hbal
    rw [hclosing, content_of_closes hu]
    rfl

theorem content_ofLiteral (tag : Option Expr) (l : Literal Expr) :
    (Expr.ofLiteral tag l).content = (tag.map Expr.content).getD [] ++ contentLiteral l := by
  cases tag <;> rfl

/-! ### Collapsing keeps content -/

theorem content_of_collapseLiteral {tag : Option Expr} {l : Literal Expr} {e' : Expr}
    (h : collapseLiteral tag l = .ok e')
    (ihtag : ∀ t ∈ tag, ∀ t', t.collapse = .ok t' → t'.content = t.content)
    (ih : ∀ p ∈ l.placeholders, ∀ p', p.collapse = .ok p' → p'.content = p.content) :
    e'.content = (Expr.ofLiteral tag l).content := by
  obtain ⟨tag', ps, htag, hps, rfl⟩ := collapseLiteral_eq_ok_iff.mp h
  have hlit : contentLiteral (l.withPlaceholders ps) = contentLiteral l := by
    apply contentLiteral_congr
    · rw [Literal.segments_withPlaceholders]
    · rw [Literal.placeholders_withPlaceholders l ps (length_eq_of_map_eq hps)]
      exact map_eq_of_results hps ih
  rw [content_ofLiteral, content_ofLiteral, tag_map_eq_of_results htag ihtag, hlit]

theorem content_of_collapse {e e' : Expr} (h : e.collapse = .ok e') : e'.content = e.content := by
  induction e using Expr.walk_induction generalizing e' with
  | identifier name =>
    rw [Expr.collapse] at h
    cases h
    rfl
  | string value =>
    rw [Expr.collapse] at h
    cases h
    rfl
  | template l ih =>
    rw [collapse_template] at h
    exact content_of_collapseLiteral h (fun t ht => absurd ht (Option.not_mem_none t))
      fun p hp p' => ih p hp
  | kept tag l hr ihtag ih =>
    rw [collapse_of_resolve_none hr] at h
    refine content_of_collapseLiteral h (fun t ht t' ht' => ?_) fun p hp p' => ih p hp
    cases ht
    exact ihtag ht'
  | replaced tag l r body d hr ihr ih =>
    -- chain to body, body to normalized body, normalized body to result
    obtain ⟨body', hn, hlit⟩ := (collapse_replaced_eq_ok_iff hr).mp h
    have hps := placeholders_normalize hn
    have hbody : contentLiteral body' = contentLiteral body :=
      contentLiteral_congr (ink_normalize hn) (by rw [hps])
    have hcollapsed := content_of_collapseLiteral hlit (fun t ht t' => ihr t ht)
      fun p hp p' => ih p (hps ▸ hp)
    rw [hcollapsed, content_of_resolve hr, content_ofLiteral, content_ofLiteral, hbody]
  | call callee arguments ihcallee ih =>
    obtain ⟨callee', hcallee, arguments', hargs, rfl⟩ := collapse_call_eq_ok_iff.mp h
    have hall := contentAll_congr (map_eq_of_results hargs fun a ha a' => ih a ha)
    simp only [Expr.content, ihcallee hcallee, hall]
  | member object property ih =>
    obtain ⟨object', hobject, rfl⟩ := collapse_member_eq_ok_iff.mp h
    simp only [Expr.content, ih hobject]
  | array elements ih =>
    obtain ⟨elements', helems, rfl⟩ := collapse_array_eq_ok_iff.mp h
    have hall := contentAll_congr (map_eq_of_results helems fun a ha a' => ih a ha)
    simp only [Expr.content, hall]

/-- Collapsing an expression keeps its content, and collapsing a program keeps that of every
expression of its body. -/
theorem collapse_keeps_content :
    (∀ e e' : Expr, e.collapse = .ok e' → e'.content = e.content) ∧
    (∀ p q : Program, p.collapse = .ok q →
      q.body.map Expr.content = p.body.map Expr.content) := by
  constructor
  · intro e e' h
    exact content_of_collapse h
  · intro p q h
    exact map_eq_of_results (program_collapse_eq_ok_iff.mp h) fun e _ e' => content_of_collapse

/-- An indented body with a name in its placeholder. -/
def indented : Literal Expr :=
  .hole (.ofText "\n  a ") (.identifier "x") (.ofText "\n")

def unindented : Literal Expr :=
  .hole (.ofText "a ") (.identifier "x") (.ofText "")

theorem collapse_indented :
    (Expr.close 1 (.tagged (opening (some (.identifier "sql")) 1) indented)).collapse =
      .ok (.tagged (.identifier "sql") unindented) := by
  have hname : ∀ name, (Expr.identifier name).collapse = .ok (.identifier name) := by
    intro name
    rw [Expr.collapse]
  have hr : Tagged.resolve ⟨.tagged (opening (some (.identifier "sql")) 1) indented, .trivial⟩ =
      some ⟨some (.identifier "sql"), indented, 1⟩ := rfl
  have hn : indented.normalize = .ok unindented := rfl
  refine (collapse_replaced_eq_ok_iff hr).mpr ⟨_, hn, collapseLiteral_eq_ok_iff.mpr ?_⟩
  exact ⟨some (.identifier "sql"), [.identifier "x"], congrArg some (hname "sql"),
    congrArg (fun x => [x]) (hname "x"), rfl⟩

theorem indented_keeps_its_content :
    (Expr.close 1 (.tagged (opening (some (.identifier "sql")) 1) indented)).collapse =
      .ok (.tagged (.identifier "sql") unindented) ∧
    (Expr.tagged (.identifier "sql") unindented).content =
      (Expr.close 1 (.tagged (opening (some (.identifier "sql")) 1) indented)).content ∧
    (Expr.tagged (.identifier "sql") unindented).content =
      [.name "sql", .ink 'a', .openPlaceholder, .name "x", .closePlaceholder] ∧
    [Expr.tagged (.identifier "sql") unindented].map Expr.content =
      [Expr.close 1 (.tagged (opening (some (.identifier "sql")) 1) indented)].map
        Expr.content := by
  refine ⟨collapse_indented, collapse_keeps_content.1 _ _ collapse_indented, by decide, ?_⟩
  exact collapse_keeps_content.2 ⟨[_]⟩ ⟨[_]⟩ (program_collapse_singleton collapse_indented)

end OverDelimited
