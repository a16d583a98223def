import OverDelimited.Proofs.ChainText
import OverDelimited.Proofs.Indentation
import OverDelimited.Proofs.SecondPass

/-!
# The line break after the opening delimiters

A body whose first segment has text is refused unless the text starts with a line break.  A body
whose first segment is empty, so that a placeholder or the closing delimiters follow the opening
ones at once, is never refused: it has no margin that a line could lack.  In source, the content of
the body stands between the two runs of a chain, so these rules say what follows the opening run of
a chain that collapsing replaces.  Section 7 of the specification asks for a line break there.
-/

namespace OverDelimited

/-! ### Literals that are refused -/

section Literals

variable {α : Type}

theorem openingLine_eq_nil_iff (l : Literal α) :
    l.openingLine = [] ↔ l.first.raw = "" ∨ l.first.raw.toList.head? = some '\n' := by
  rw [Literal.openingLine, ← String.toList_eq_nil_iff]
  cases l.first.raw.toList with
  | nil => simp
  | cons c rest => by_cases hc : c = '\n' <;> simp [hc]

theorem normalize_eq_missing_iff (l : Literal α) :
    l.normalize = .error .missingLeadingNewline ↔
      l.first.raw ≠ "" ∧ l.first.raw.toList.head? ≠ some '\n' := by
  rw [← not_or, ← openingLine_eq_nil_iff, Literal.normalize_eq]
  by_cases h : l.openingLine = []
  · rw [if_pos h]
    cases l.offences <;> simp [unlessOffended, h]
  · rw [if_neg h]
    simp [h]

/-- Without text in front of its first placeholder a literal has no margin to keep to. -/
theorem offences_of_empty {l : Literal α} (h : l.first.raw = "") : l.offences = [] := by
  have hmargin : l.margin = [] := by
    rw [Literal.margin, h]
    rfl
  rw [Literal.offences, List.flatMap_eq_nil_iff]
  rintro ⟨s, segment⟩ -
  simp only [hmargin, Segment.offences, List.flatMap_eq_nil_iff]
  intro text _
  exact offencesFrom_nil_margin 0 _

theorem exists_normalize_of_empty {l : Literal α} (h : l.first.raw = "") :
    ∃ l', l.normalize = .ok l' := by
  rw [Literal.normalize_eq, if_pos ((openingLine_eq_nil_iff l).mpr (.inl h)), offences_of_empty h]
  exact ⟨_, rfl⟩

theorem head?_of_normalize {l l' : Literal α} (h : l.normalize = .ok l') :
    l.first.raw.toList.head? = some '\n' ↔ l.first.raw ≠ "" := by
  constructor
  · intro hbreak hempty
    simp [hempty] at hbreak
  · intro htext
    by_contra hbreak
    rw [(normalize_eq_missing_iff l).mpr ⟨htext, hbreak⟩] at h
    cases h

end Literals

/-! ### Chains that collapsing replaces -/

theorem head?_literalChars (l : Literal Expr) :
    (Expr.literalChars l).head? = some '\n' ↔ l.first.raw.toList.head? = some '\n' := by
  cases l with
  | text s => simp only [Expr.literalChars, Literal.first]
  | hole s p rest =>
    simp only [Expr.literalChars, Literal.first]
    cases s.raw.toList <;> simp

theorem exists_collapse_of_mem {es es' : List Expr} (h : es.map Expr.collapse = es'.map .ok)
    {c : Expr} (hc : c ∈ es) : ∃ c', c.collapse = .ok c' := by
  have hmem : c.collapse ∈ es'.map .ok := h ▸ List.mem_map_of_mem hc
  obtain ⟨c', -, hc'⟩ := List.mem_map.mp hmem
  exact ⟨c', hc'.symm⟩

theorem exists_collapse_of_collapseLiteral {tag : Option Expr} {l : Literal Expr} {e' c : Expr}
    (h : collapseLiteral tag l = .ok e') (hc : c ∈ tag.toList ++ l.placeholders) :
    ∃ c', c.collapse = .ok c' := by
  obtain ⟨tag', ps, htag, hps, -⟩ := collapseLiteral_eq_ok_iff.mp h
  rcases List.mem_append.mp hc with hc | hc
  · rw [Option.mem_toList.mp hc] at htag
    cases tag' with
    | none => cases htag
    | some t' => exact ⟨t', Option.some.inj htag⟩
  · exact exists_collapse_of_mem hps hc

theorem exists_collapse_of_mem_children {e e' c : Expr} (h : e.collapse = .ok e')
    (hc : c ∈ e.children) : ∃ c', c.collapse = .ok c' := by
  cases e with
  | identifier name => cases hc
  | string value => cases hc
  | template l =>
    rw [collapse_template] at h
    exact exists_collapse_of_collapseLiteral h hc
  | tagged tag l =>
    cases hr : Tagged.resolve ⟨tag, l⟩ with
    | none =>
      rw [collapse_of_resolve_none hr] at h
      rw [children_of_resolve_none hr] at hc
      exact exists_collapse_of_collapseLiteral h hc
    | some m =>
      obtain ⟨r, body, d⟩ := m
      obtain ⟨body', hn, hlit⟩ := (collapse_replaced_eq_ok_iff hr).mp h
      rw [children_of_resolve_some hr, ← placeholders_normalize hn] at hc
      exact exists_collapse_of_collapseLiteral hlit hc
  | call callee arguments =>
    obtain ⟨callee', hcallee, arguments', hargs, -⟩ := collapse_call_eq_ok_iff.mp h
    rcases List.mem_cons.mp hc with rfl | hc
    · exact ⟨callee', hcallee⟩
    · exact exists_collapse_of_mem hargs hc
  | member object property =>
    obtain ⟨object', hobject, -⟩ := collapse_member_eq_ok_iff.mp h
    rw [List.mem_singleton.mp hc]
    exact ⟨object', hobject⟩
  | array elements =>
    obtain ⟨elements', helems, -⟩ := collapse_array_eq_ok_iff.mp h
    exact exists_collapse_of_mem helems hc

theorem exists_collapse_of_visits {e e' n : Expr} (h : e.collapse = .ok e') (hn : Visits e n) :
    ∃ n', n.collapse = .ok n' := by
  induction hn generalizing e' with
  | here e => exact ⟨e', h⟩
  | child hc _ ih =>
    obtain ⟨c', hc'⟩ := exists_collapse_of_mem_children h hc
    exact ih hc'

/-- A pass that succeeds has normalized the body of every chain it came to. -/
theorem exists_normalize_of_visits {e e' : Expr} (h : e.collapse = .ok e') {n : Tagged} {m : Match}
    (hn : Visits e n.toExpr) (hm : n.resolve = some m) : ∃ l', m.literal.normalize = .ok l' := by
  obtain ⟨n', hcollapse⟩ := exists_collapse_of_visits h hn
  obtain ⟨l', hl', -⟩ := (collapse_replaced_eq_ok_iff hm).mp hcollapse
  exact ⟨l', hl'⟩

/-- A literal is refused for want of a line break exactly if its first segment has text that does
not start with one; without text there it is never refused.  So what follows the opening run of a
chain that a successful pass replaces is a line break exactly if the first segment of its body has
text. -/
theorem opening_break_required_unless_text_is_missing (l : Literal Expr) :
    (l.normalize = .error .missingLeadingNewline ↔
      l.first.raw ≠ "" ∧ l.first.raw.toList.head? ≠ some '\n') ∧
    (l.first.raw = "" → ∃ l', l.normalize = .ok l') ∧
    (∀ p q, Program.collapse p = .ok q → ∀ e ∈ p.body, ∀ n tag depth,
      Visits e (Tagged.toExpr n) → n.resolve = some ⟨tag, l, depth⟩ →
        n.toExpr.sourceChars =
          tag.elim [] Expr.sourceChars ++ List.replicate (2 * depth + 1) delimiter ++
            Expr.literalChars l ++ List.replicate (2 * depth + 1) delimiter ∧
        ((Expr.literalChars l).head? = some '\n' ↔ l.first.raw ≠ "")) := by
  refine ⟨normalize_eq_missing_iff l, exists_normalize_of_empty, ?_⟩
  intro p q h e he n tag depth hn hm
  obtain ⟨e', he'⟩ := exists_collapse_of_mem (program_collapse_eq_ok_iff.mp h) he
  obtain ⟨l', hl'⟩ := exists_normalize_of_visits he' hn hm
  refine ⟨sourceChars_of_resolve hm, ?_⟩
  rw [head?_literalChars]
  exact head?_of_normalize hl'

theorem tripled_opens_with_a_break :
    Program.collapse ⟨[tripled none]⟩ = .ok ⟨[.template (.ofText "g")]⟩ ∧
    (tripled none).sourceChars =
      List.replicate 3 delimiter ++ "\n  g\n".toList ++ List.replicate 3 delimiter ∧
    "\n  g\n".toList.head? = some '\n' := by
  have hcollapse : Program.collapse ⟨[tripled none]⟩ = .ok ⟨[.template (.ofText "g")]⟩ :=
    program_collapse_singleton (collapse_tripled none none rfl rfl)
  have hreplaced := (opening_break_required_unless_text_is_missing (.ofText "\n  g\n")).2.2 _ _
    hcollapse (tripled none) (List.mem_singleton.mpr rfl)
    ⟨.tagged (opening none 1) (.ofText "\n  g\n"), .trivial⟩ none 1 (.here _) rfl
  exact ⟨hcollapse, hreplaced.1, hreplaced.2.mpr (by decide)⟩

/-- A body that is one placeholder, right behind the opening delimiters. -/
def placeholderOnly : Literal Expr :=
  .hole (.ofText "") (.identifier "x") (.ofText "")

theorem placeholder_behind_the_opening_run_is_accepted :
    placeholderOnly.normalize = .ok placeholderOnly ∧
    placeholderOnly.first.raw.toList.head? ≠ some '\n' ∧
    (Expr.close 1 (.tagged (.template .trivial) placeholderOnly)).collapse =
      .ok (.template placeholderOnly) ∧
    (Expr.literalChars placeholderOnly).head? = some '$' := by
  have hn : placeholderOnly.normalize = .ok placeholderOnly := rfl
  have hr : Tagged.resolve ⟨.tagged (.template .trivial) placeholderOnly, .trivial⟩ =
      some ⟨none, placeholderOnly, 1⟩ := rfl
  have hname : placeholderOnly.placeholders.map Expr.collapse = [.ok (.identifier "x")] := by
    show [(Expr.identifier "x").collapse] = _
    rw [Expr.collapse]
  have hlit : collapseLiteral none placeholderOnly = .ok (.template placeholderOnly) :=
    collapseLiteral_eq_ok_iff.mpr ⟨none, [.identifier "x"], rfl, hname, rfl⟩
  refine ⟨hn, by decide, ?_, rfl⟩
  rw [Expr.close, Expr.close, collapse_of_resolve_some hr, hn]
  exact hlit

end OverDelimited
