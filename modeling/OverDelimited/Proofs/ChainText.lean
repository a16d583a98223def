import Mathlib.Algebra.Ring.Parity
import Mathlib.Data.List.Basic
import OverDelimited.Source
import OverDelimited.Proofs.BuiltChain

/-!
# Chains in source

A layer without text is written as two delimiters.  So a chain is written as its tag, a run of
delimiters, the text of its body and a run as long: the pairs on either side make two delimiters
each, and the body's own pair brings one more to either run (`sourceChars_of_sides`).  This is so of
the chains that resolve and of those that are built, where the tag may be any expression and the
body any literal.
-/

namespace OverDelimited

def delimiterRun (n : Nat) : String :=
  String.ofList (List.replicate n delimiter)

/-! ### The text of a literal -/

namespace Literal

/-- The raw text of the segments, with the placeholder in front of each later one. -/
def inlineText (l : Literal Expr) : String :=
  l.first.raw ++ String.join ((l.placeholders.zip l.segments.tail).map fun (p, s) =>
    "$\x7b" ++ p.source ++ "\x7d" ++ s.raw)

theorem segments_eq_cons {α : Type} (l : Literal α) : l.segments = l.first :: l.segments.tail := by
  cases l <;> rfl

theorem inlineText_hole (s : Segment) (p : Expr) (rest : Literal Expr) :
    inlineText (.hole s p rest) =
      s.raw ++ ("$\x7b" ++ p.source ++ "\x7d" ++ rest.inlineText) := by
  have hlater : (hole s p rest).segments.tail = rest.first :: rest.segments.tail :=
    rest.segments_eq_cons
  simp only [inlineText, hlater, first, placeholders, List.zip_cons_cons, List.map_cons,
    String.join_cons, String.append_assoc]

theorem inlineText_eq (l : Literal Expr) : l.inlineText = String.ofList (Expr.literalChars l) := by
  induction l with
  | text s => simp [inlineText, first, placeholders, Expr.literalChars]
  | hole s p rest ih =>
    apply String.toList_inj.mp
    rw [inlineText_hole, ih]
    simp [Expr.source, Expr.literalChars]

end Literal

/-! ### Layers -/

theorem literalChars_of_trivial {l : Literal Expr} (h : l.isTrivial = true) :
    Expr.literalChars l = [] := by
  cases l with
  | text s => simpa [Expr.literalChars, Literal.isTrivial] using h
  | hole s p rest => cases h

/-- Every layer adds a pair of delimiters behind an expression. -/
theorem sourceChars_of_closes {d : Nat} {x e : Expr} (h : Closes d x e) :
    e.sourceChars = x.sourceChars ++ List.replicate (2 * d) delimiter := by
  induction h with
  | refl x => simp
  | @layer d x e l h hl ih =>
    have hpairs : 2 * (d + 1) = 2 * d + 2 := by omega
    rw [Expr.sourceChars, literalChars_of_trivial hl, ih, hpairs, List.replicate_add]
    simp

theorem sourceChars_of_bare {bare : Expr} (h : bare.isTrivialLiteral = true) :
    bare.sourceChars = List.replicate 2 delimiter := by
  cases bare with
  | template l =>
    rw [Expr.sourceChars, literalChars_of_trivial h]
    rfl
  | _ => cases h

theorem sourceChars_of_bare_run {k : Nat} {bare u : Expr} (hbare : bare.isTrivialLiteral = true)
    (h : Closes k bare u) : u.sourceChars = List.replicate (2 * (k + 1)) delimiter := by
  have hpairs : 2 * (k + 1) = 2 + 2 * k := by omega
  rw [sourceChars_of_closes h, sourceChars_of_bare hbare, hpairs, List.replicate_add]

/-! ### Both sides -/

theorem sourceChars_of_sides {d : Nat} {u e : Expr} {l : Literal Expr} {front : List Char}
    (hopening : u.sourceChars = front ++ List.replicate (2 * d) delimiter)
    (hclosing : Closes d (.tagged u l) e) :
    e.sourceChars =
      front ++ List.replicate (2 * d + 1) delimiter ++ Expr.literalChars l ++
        List.replicate (2 * d + 1) delimiter := by
  -- the body's own pair comes last in the opening run and first in the closing one
  have hrun : delimiter :: List.replicate (2 * d) delimiter =
      List.replicate (2 * d) delimiter ++ [delimiter] := by
    rw [← List.replicate_succ, List.replicate_succ']
  rw [sourceChars_of_closes hclosing, Expr.sourceChars, hopening, List.replicate_succ']
  simp [hrun]

/-- A chain reads as its tag, a run of delimiters, the content of its body and a run as long. -/
theorem sourceChars_of_resolve {n : Tagged} {m : Match} (h : n.resolve = some m) :
    n.toExpr.sourceChars =
      m.tag.elim [] Expr.sourceChars ++ List.replicate (2 * m.depth + 1) delimiter ++
        Expr.literalChars m.literal ++ List.replicate (2 * m.depth + 1) delimiter := by
  obtain ⟨r, body, d⟩ := m
  obtain ⟨k, u, hd, -, hc, hbal⟩ := Tagged.resolve_eq_some_iff.mp h
  subst hd
  refine sourceChars_of_sides ?_ hc
  cases r with
  | none =>
    obtain ⟨bare, hbare, hu⟩ := balance_eq_bare_iff.mp hbal
    exact sourceChars_of_bare_run hbare hu
  | some t => exact sourceChars_of_closes (balance_eq_tag_iff.mp hbal).2

/-! ### Chains as they are built -/

theorem sourceChars_opening (tag : Option Expr) (further : Nat) :
    (opening tag (further + 1)).sourceChars =
      tag.elim [] Expr.sourceChars ++ List.replicate (2 * (further + 1)) delimiter := by
  cases tag with
  | none =>
    rw [opening_none]
    exact sourceChars_of_bare_run rfl (closes_close further _)
  | some t =>
    rw [opening_some]
    exact sourceChars_of_closes (closes_close (further + 1) t)

theorem source_close (extra : Nat) (e : Expr) :
    (Expr.close extra e).source = e.source ++ delimiterRun (2 * extra) := by
  rw [Expr.source, sourceChars_of_closes (closes_close extra e), String.ofList_append]
  rfl

theorem source_builtChain (tag : Option Expr) (further : Nat) (l : Literal Expr) :
    (builtChain tag (further + 1) l).source =
      tag.elim "" Expr.source ++ delimiterRun (2 * (further + 1) + 1) ++ l.inlineText ++
        delimiterRun (2 * (further + 1) + 1) := by
  have hsides := sourceChars_of_sides (sourceChars_opening tag further)
    (closes_close (further + 1) (.tagged (opening tag (further + 1)) l))
  have htag : String.ofList (tag.elim [] Expr.sourceChars) = tag.elim "" Expr.source := by
    cases tag <;> rfl
  rw [Expr.source, builtChain, hsides, String.ofList_append, String.ofList_append,
    String.ofList_append, htag, l.inlineText_eq]
  rfl

/-- For every odd number of delimiters from three on, every tag or none, and every literal there is
a chain, and it is written with just that many delimiters on either side of the literal's text.
Each pair that closes right against itself behind it adds two. -/
theorem built_chain_shows_its_delimiters (tag : Option Expr) (delimiters : Nat) (l : Literal Expr)
    (hlong : 3 ≤ delimiters) (hodd : Odd delimiters) :
    ∃ c, chain tag delimiters l = .ok c ∧
      c.source =
        tag.elim "" Expr.source ++ delimiterRun delimiters ++ l.inlineText ++
          delimiterRun delimiters ∧
      ∀ extra, (Expr.close extra c).source = c.source ++ delimiterRun (2 * extra) := by
  obtain ⟨pairs, rfl⟩ := hodd
  obtain ⟨further, rfl⟩ : ∃ further, pairs = further + 1 := ⟨pairs - 1, by omega⟩
  exact ⟨_, chain_of_pairs tag further l, source_builtChain tag further l,
    fun extra => source_close extra _⟩

/-- A body with a name in it. -/
def interpolated : Literal Expr :=
  .hole (.ofText "\n  a ") (.identifier "x") (.ofText " b\n")

theorem five_around_interpolated :
    3 ≤ 5 ∧ Odd 5 ∧ ∃ c, chain (some (.identifier "sql")) 5 interpolated = .ok c ∧
      c.source = "sql`````\n  a $\x7bx\x7d b\n`````" ∧
      (Expr.close 2 c).source = "sql`````\n  a $\x7bx\x7d b\n`````````" := by
  have hodd : Odd 5 := ⟨2, rfl⟩
  obtain ⟨c, hc, hsource, hextra⟩ := built_chain_shows_its_delimiters (some (.identifier "sql")) 5
    interpolated (by decide) hodd
  have htext : c.source = "sql`````\n  a $\x7bx\x7d b\n`````" := hsource.trans (by decide)
  refine ⟨by decide, hodd, c, hc, htext, ?_⟩
  rw [hextra, htext]
  decide

end OverDelimited
