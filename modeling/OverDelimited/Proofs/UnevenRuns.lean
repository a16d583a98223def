import OverDelimited.Proofs.BuiltChain
import OverDelimited.Proofs.SecondPass

/-!
# Runs that do not pair off

A chain resolves if the delimiter runs on its two sides are equally long.  Two shapes in which they
are not are followed through the walk here.

If more pairs open a literal than close it, nothing around the literal resolves and the walk comes
to the opening run on its own.  Behind a name the run stays as it is.  A bare run of three pairs or
more does not: its first six delimiters read as an empty literal between three and three, and the
run loses two pairs (`collapse_over_opened_bare`).

If several literals follow each other with three delimiters before, between and behind them, whether
a run opens or closes is decided from the left: the first, third, fifth literal are over-delimited,
and the others ordinary literals with a tag (`firstPair_adjacentRuns_succ`).
-/

namespace OverDelimited

/-! ### Layers left in place -/

theorem close_close (m n : Nat) (e : Expr) : Expr.close m (.close n e) = .close (m + n) e := by
  induction m with
  | zero =>
    rw [Nat.zero_add]
    rfl
  | succ m ih =>
    rw [Nat.succ_add, Expr.close, Expr.close, ih]

theorem collapse_text_behind {e e' : Expr} {l : Literal Expr} (h : e.collapse = .ok e')
    (hl : l.isTrivial = false) (htext : l.placeholders = []) :
    (Expr.tagged e l).collapse = .ok (.tagged e' l) := by
  have hr := Tagged.resolve_of_isBody (Tagged.isBody_of_text (u := e) hl)
  rw [collapse_of_resolve_none hr]
  exact collapseLiteral_of_text (some e) (some e') htext (congrArg some h)

theorem collapse_close {e e' : Expr} {layers : Nat} (h : e.collapse = .ok e')
    (hr : ∀ k < layers, (Expr.close (k + 1) e).resolves = false) :
    (Expr.close layers e).collapse = .ok (.close layers e') := by
  induction layers with
  | zero => exact h
  | succ layers ih =>
    have hbelow := ih fun k hk => hr k (by omega)
    have hnone : Tagged.resolve ⟨.close layers e, .trivial⟩ = none := by
      simpa [Expr.resolves, Expr.close] using hr layers (by omega)
    rw [Expr.close, collapse_of_resolve_none hnone]
    exact collapseLiteral_of_text (some _) (some _) rfl (congrArg some hbelow)

/-! ### Opening runs by themselves -/

theorem closing_close {e : Expr} (h : e.outline.closing = none) (k : Nat) :
    (Expr.close (k + 1) e).outline.closing = some (k, e.outline.ending) := by
  induction k with
  | zero =>
    show (e.outline.behind true).closing = _
    simp only [Outline.behind, h]
  | succ k ih =>
    show ((Expr.close (k + 1) e).outline.behind true).closing = _
    simp only [Outline.behind, ih]

theorem resolves_close_iff {e : Expr} (h : e.outline.closing = none) (k : Nat) :
    (Expr.close (k + 1) e).resolves = true ↔
      ∃ opened, k = opened + 1 ∧ e.outline.ending = .run opened := by
  rw [resolves_eq_isChain, Outline.isChain, closing_close h]
  cases k with
  | zero => simp
  | succ closed =>
    cases e.outline.ending with
    | run opened => simp [eq_comm (a := closed)]
    | tag => simp
    | blocked => simp

theorem collapse_opening_name (name : String) (further : Nat) :
    (opening (some (.identifier name)) (further + 1)).collapse =
      .ok (opening (some (.identifier name)) (further + 1)) := by
  rw [opening_some]
  apply collapse_close
  · rw [Expr.collapse]
  · intro k _
    rw [← Bool.not_eq_true, resolves_close_iff rfl]
    rintro ⟨opened, -, hending⟩
    cases hending

theorem resolves_close_bare_iff (k : Nat) :
    (Expr.close (k + 1) (.template .trivial)).resolves = true ↔ k = 1 := by
  rw [resolves_close_iff rfl]
  constructor
  · rintro ⟨opened, hk, hending⟩
    cases hending
    exact hk
  · intro hk
    exact ⟨0, hk, rfl⟩

theorem collapse_opening_two_pairs :
    (opening none 2).collapse = .ok (opening none 2) := by
  rw [opening_none]
  apply collapse_close
  · rw [collapse_template]
    exact collapseLiteral_of_text none none rfl rfl
  · intro k hk
    rw [← Bool.not_eq_true, resolves_close_bare_iff]
    omega

theorem collapse_opening_bare (further : Nat) :
    (opening none (further + 3)).collapse = .ok (opening none (further + 1)) := by
  rw [opening_none, opening_none, ← close_close]
  apply collapse_close collapse_three_pairs
  intro k _
  rw [close_close, ← Bool.not_eq_true, Nat.add_right_comm, resolves_close_bare_iff]
  omega

/-! ### More pairs open than close -/

/-- A literal with the given numbers of pairs in front of it and behind it.  If they are equal this
is `builtChain`. -/
def unevenChain (tag : Option Expr) (opened closed : Nat) (l : Literal Expr) : Expr :=
  .close closed (.tagged (opening tag opened) l)

section OverOpened

variable {l : Literal Expr} (hl : l.isTrivial = false) (htext : l.placeholders = [])

include hl htext

theorem collapse_over_opened {tag : Option Expr} {opened closed : Nat} {run : Expr}
    (ht : ∀ t ∈ tag, Admissible t) (h : closed < opened)
    (hrun : (opening tag opened).collapse = .ok run) :
    (unevenChain tag opened closed l).collapse = .ok (.close closed (.tagged run l)) := by
  apply collapse_close (collapse_text_behind hrun hl htext)
  intro k hk
  rw [← Bool.not_eq_true]
  intro hresolves
  have hr : Tagged.resolve ⟨.close k (.tagged (opening tag opened) l), .trivial⟩ ≠ none := by
    simpa [Expr.resolves, Expr.close, Option.isSome_iff_ne_none] using hresolves
  -- a layer resolves only if it closes as many pairs as open
  have hpairs := openingPairs_eq_of_resolve hl (closes_close (k + 1) _) hr
  obtain ⟨further, rfl⟩ : ∃ further, opened = further + 1 := ⟨opened - 1, by omega⟩
  rw [openingPairs_opening ht] at hpairs
  omega

theorem collapse_over_opened_name (name : String) {opened closed : Nat} (h : closed < opened) :
    (unevenChain (some (.identifier name)) opened closed l).collapse =
      .ok (unevenChain (some (.identifier name)) opened closed l) := by
  have ht : ∀ t ∈ some (Expr.identifier name), Admissible t := by
    intro t ht
    cases ht
    exact ⟨rfl, rfl, resolve_untagged (by simp) _⟩
  obtain ⟨further, rfl⟩ : ∃ further, opened = further + 1 := ⟨opened - 1, by omega⟩
  exact collapse_over_opened hl htext ht h (collapse_opening_name name further)

theorem collapse_over_opened_two_pairs {closed : Nat} (h : closed < 2) :
    (unevenChain none 2 closed l).collapse = .ok (unevenChain none 2 closed l) :=
  collapse_over_opened hl htext nofun h collapse_opening_two_pairs

theorem collapse_over_opened_bare {further closed : Nat} (h : closed < further + 3) :
    (unevenChain none (further + 3) closed l).collapse =
      .ok (unevenChain none (further + 1) closed l) :=
  collapse_over_opened hl htext nofun h (collapse_opening_bare further)

end OverOpened

theorem taggedCount_unevenChain (further closed : Nat) (l : Literal Expr) :
    (unevenChain none (further + 1) closed l).taggedCount =
      further + taggedCountLiteral l + 1 + closed := by
  have hopening := taggedCount_of_closes (closes_close further (.template .trivial))
  have hclosing := taggedCount_of_closes
    (closes_close closed (.tagged (opening none (further + 1)) l))
  rw [unevenChain, hclosing, opening_none, Expr.taggedCount, hopening]
  simp only [Expr.taggedCount, taggedCountLiteral, Literal.trivial, Literal.ofText]
  omega

theorem unevenChain_ne (further closed : Nat) (l : Literal Expr) :
    unevenChain none (further + 1) closed l ≠ unevenChain none (further + 3) closed l := by
  intro heq
  have hcount := congrArg Expr.taggedCount heq
  rw [taggedCount_unevenChain, taggedCount_unevenChain] at hcount
  omega

/-- A chain around text that opens with more pairs than it closes stays as it is exactly if a name
stands in front of it or two pairs open it.  Any other one loses two of its opening pairs. -/
theorem over_opened_chain_stays_iff (name : Option String) (opened closed : Nat) (l : Literal Expr)
    (hclosed : 1 ≤ closed) (hopened : closed < opened) (hl : l.isTrivial = false)
    (htext : l.placeholders = []) :
    ((unevenChain (name.map .identifier) opened closed l).collapse =
        .ok (unevenChain (name.map .identifier) opened closed l) ↔ name ≠ none ∨ opened = 2) ∧
    (name = none → opened ≠ 2 →
      (unevenChain (name.map .identifier) opened closed l).collapse =
        .ok (unevenChain none (opened - 2) closed l)) := by
  cases name with
  | some name =>
    have hstays := collapse_over_opened_name hl htext name hopened
    exact ⟨⟨fun _ => .inl nofun, fun _ => hstays⟩, nofun⟩
  | none =>
    by_cases htwo : opened = 2
    · subst htwo
      have hstays := collapse_over_opened_two_pairs hl htext hopened
      exact ⟨⟨fun _ => .inr rfl, fun _ => hstays⟩, fun _ h => absurd rfl h⟩
    · obtain ⟨further, rfl⟩ : ∃ further, opened = further + 3 := ⟨opened - 3, by omega⟩
      have hchanged := collapse_over_opened_bare hl htext hopened
      have hne := unevenChain_ne further closed l
      refine ⟨⟨fun h => ?_, fun h => ?_⟩, fun _ _ => hchanged⟩
      · rw [Option.map_none, hchanged] at h
        exact absurd (Except.ok.inj h) hne
      · rcases h with h | h
        · exact absurd rfl h
        · exact absurd h htwo

theorem five_against_three_stay :
    (unevenChain none 2 1 (.ofText "\n  x\n")).collapse =
      .ok (unevenChain none 2 1 (.ofText "\n  x\n")) ∧
    (unevenChain (some (.identifier "sql")) 4 2 (.ofText "\n  x\n")).collapse =
      .ok (unevenChain (some (.identifier "sql")) 4 2 (.ofText "\n  x\n")) ∧
    (unevenChain none 5 2 (.ofText "\n  x\n")).collapse =
      .ok (unevenChain none 3 2 (.ofText "\n  x\n")) := by
  have hfive := over_opened_chain_stays_iff none 2 1 (.ofText "\n  x\n") (by omega) (by omega) rfl
    rfl
  have hname := over_opened_chain_stays_iff (some "sql") 4 2 (.ofText "\n  x\n") (by omega)
    (by omega) rfl rfl
  have hbare := over_opened_chain_stays_iff none 5 2 (.ofText "\n  x\n") (by omega) (by omega) rfl
    rfl
  exact ⟨hfive.1.mpr (.inr rfl), hname.1.mpr (.inl nofun), hbare.2 rfl (by omega)⟩

theorem seven_against_five_change :
    (Literal.ofText "\n  x\n" : Literal Expr).isTrivial = false ∧
    (Literal.ofText "\n  x\n" : Literal Expr).placeholders = [] ∧
    (unevenChain none 3 2 (.ofText "\n  x\n")).collapse =
      .ok (unevenChain none 1 2 (.ofText "\n  x\n")) ∧
    (unevenChain none 3 2 (.ofText "\n  x\n")).collapse ≠
      .ok (unevenChain none 3 2 (.ofText "\n  x\n")) := by
  have hopened : 2 < 0 + 3 := by omega
  have hchanged := collapse_over_opened_bare (l := .ofText "\n  x\n") rfl rfl hopened
  refine ⟨rfl, rfl, hchanged, fun hstays => ?_⟩
  have heq := hchanged.symm.trans hstays
  exact unevenChain_ne 0 2 _ (Except.ok.inj heq)

/-! ### Literals next to each other -/

/-- The first literals of a row, numbered from 1, with three delimiters before, between and behind
them. -/
def adjacentRuns (a : Nat → Literal Expr) : Nat → Expr
  | 0 => .template .trivial
  | i + 1 => .tagged (.tagged (adjacentRuns a i) (a (i + 1))) .trivial

/-- The same literals as single ones, each the tag of the next, those with an odd number in the
second form given for them. -/
def pairedRuns (a a' : Nat → Literal Expr) : Nat → Expr
  | 0 | 1 => .template (a' 1)
  | i + 2 => .tagged (pairedRuns a a' (i + 1)) (if i % 2 = 0 then a (i + 2) else a' (i + 2))

theorem pairedRuns_even (a a' : Nat → Literal Expr) (k : Nat) :
    pairedRuns a a' (2 * k + 2) = .tagged (pairedRuns a a' (2 * k + 1)) (a (2 * k + 2)) := by
  have heven : 2 * k % 2 = 0 := by omega
  rw [pairedRuns, if_pos heven]

theorem pairedRuns_odd (a a' : Nat → Literal Expr) (k : Nat) :
    pairedRuns a a' (2 * k + 3) = .tagged (pairedRuns a a' (2 * k + 2)) (a' (2 * k + 3)) := by
  have hodd : ¬ (2 * k + 1) % 2 = 0 := by omega
  rw [pairedRuns, if_neg hodd]

section Adjacent

variable {a : Nat → Literal Expr}

theorem resolve_adjacentRuns {i : Nat} (h : (a (i + 1)).isTrivial = false) :
    Tagged.resolve ⟨.tagged (adjacentRuns a i) (a (i + 1)), .trivial⟩ =
      (firstPair (adjacentRuns a i)).map fun tag => ⟨tag, a (i + 1), 1⟩ := by
  have hbody : unwind (adjacentRuns a i) (a (i + 1)) = ([], ⟨adjacentRuns a i, a (i + 1)⟩) :=
    unwind_of_isBody (Tagged.isBody_of_text h)
  rw [Tagged.resolve_layer _ _ rfl, hbody]
  rfl

/-- Whether a run can open a chain alternates from one run to the next. -/
theorem firstPair_adjacentRuns_succ {i : Nat} (h : (a (i + 1)).isTrivial = false) :
    firstPair (adjacentRuns a (i + 1)) =
      if (firstPair (adjacentRuns a i)).isNone then
        some (some (.tagged (adjacentRuns a i) (a (i + 1))))
      else none := by
  rw [adjacentRuns, firstPair, h]
  rfl

variable {n : Nat} (hwritten : ∀ i, 1 ≤ i → i ≤ n → (a i).isTrivial = false)

include hwritten

theorem firstPair_even_run {k : Nat} (hk : 2 * k + 2 ≤ n)
    (hodd : firstPair (adjacentRuns a (2 * k + 1)) = none) :
    firstPair (adjacentRuns a (2 * k + 2)) =
      some (some (.tagged (adjacentRuns a (2 * k + 1)) (a (2 * k + 2)))) := by
  have htext := hwritten (2 * k + 2) (by omega) hk
  rw [firstPair_adjacentRuns_succ htext, hodd]
  rfl

theorem firstPair_odd_run {k : Nat} (hk : 2 * k + 1 ≤ n) :
    firstPair (adjacentRuns a (2 * k + 1)) = none := by
  induction k with
  | zero =>
    have htext := hwritten 1 (by omega) hk
    rw [firstPair_adjacentRuns_succ htext]
    rfl
  | succ k ih =>
    have htext := hwritten (2 * k + 3) (by omega) hk
    have heven := firstPair_even_run hwritten (k := k) (by omega) (ih (by omega))
    show firstPair (adjacentRuns a (2 * k + 2 + 1)) = none
    rw [firstPair_adjacentRuns_succ htext, heven]
    rfl

variable {a' : Nat → Literal Expr} (htext : ∀ i, 1 ≤ i → i ≤ n → (a i).placeholders = [])
  (hnormal : ∀ i, 1 ≤ i → i ≤ n → i % 2 = 1 → (a i).normalize = .ok (a' i))

include htext hnormal

theorem collapse_odd_run {k : Nat} (hk : 2 * k + 1 ≤ n) :
    (adjacentRuns a (2 * k + 1)).collapse = .ok (pairedRuns a a' (2 * k + 1)) := by
  have hplain : ∀ i, 1 ≤ i → i ≤ n → i % 2 = 1 → (a' i).placeholders = [] := by
    intro i hpos hle hodd
    rw [placeholders_normalize (hnormal i hpos hle hodd)]
    exact htext i hpos hle
  induction k with
  | zero =>
    have hr := resolve_adjacentRuns (hwritten 1 (by omega) hk)
    have hn := hnormal 1 (by omega) hk rfl
    rw [adjacentRuns, collapse_of_resolve_some hr, hn]
    exact collapseLiteral_of_text none none (hplain 1 (by omega) hk rfl) rfl
  | succ k ih =>
    have hbefore := ih (by omega)
    have hodd : (2 * k + 3) % 2 = 1 := by omega
    -- the run before the last body opens, with all that stands before it as its tag
    have hpair := firstPair_even_run hwritten (k := k) (by omega)
      (firstPair_odd_run hwritten (by omega))
    have hr := resolve_adjacentRuns (hwritten (2 * k + 3) (by omega) hk)
    rw [hpair] at hr
    have hn := hnormal (2 * k + 3) (by omega) hk hodd
    have htag := collapse_text_behind hbefore (hwritten (2 * k + 2) (by omega) (by omega))
      (htext (2 * k + 2) (by omega) (by omega))
    show (adjacentRuns a (2 * k + 2 + 1)).collapse = _
    rw [adjacentRuns, collapse_of_resolve_some hr, hn]
    rw [show 2 * (k + 1) + 1 = 2 * k + 3 from rfl, pairedRuns_odd, pairedRuns_even]
    exact collapseLiteral_of_text (some _) (some _) (hplain (2 * k + 3) (by omega) hk hodd)
      (congrArg some htag)

theorem collapse_even_run {k : Nat} (hk : 2 * k + 2 ≤ n) :
    (adjacentRuns a (2 * k + 2)).collapse =
      .ok (.tagged (pairedRuns a a' (2 * k + 2)) .trivial) := by
  have hbefore := collapse_odd_run hwritten htext hnormal (k := k) (by omega)
  have hlast := collapse_text_behind hbefore (hwritten (2 * k + 2) (by omega) hk)
    (htext (2 * k + 2) (by omega) hk)
  -- the run before the last body has closed the body before it, and opens nothing
  have hpair := firstPair_odd_run hwritten (k := k) (by omega)
  have hr := resolve_adjacentRuns (hwritten (2 * k + 2) (by omega) hk)
  rw [hpair] at hr
  rw [adjacentRuns, collapse_of_resolve_none hr, pairedRuns_even]
  exact collapseLiteral_of_text (some _) (some _) rfl (congrArg some hlast)

end Adjacent

/-- Of literals with three delimiters before, between and behind them, those with an odd number are
over-delimited and the others ordinary.  A last run that pairs with none is left behind them. -/
theorem adjacent_runs_pair_from_the_left (n : Nat) (a a' : Nat → Literal Expr) (hn : 1 ≤ n)
    (hwritten : ∀ i, 1 ≤ i → i ≤ n → (a i).isTrivial = false)
    (htext : ∀ i, 1 ≤ i → i ≤ n → (a i).placeholders = [])
    (hnormal : ∀ i, 1 ≤ i → i ≤ n → i % 2 = 1 → (a i).normalize = .ok (a' i)) :
    (adjacentRuns a n).collapse =
      .ok (if n % 2 = 1 then pairedRuns a a' n else .tagged (pairedRuns a a' n) .trivial) := by
  by_cases hodd : n % 2 = 1
  · obtain ⟨k, rfl⟩ : ∃ k, n = 2 * k + 1 := ⟨n / 2, by omega⟩
    rw [if_pos hodd]
    exact collapse_odd_run hwritten htext hnormal (Nat.le_refl _)
  · obtain ⟨k, rfl⟩ : ∃ k, n = 2 * k + 2 := ⟨n / 2 - 1, by omega⟩
    rw [if_neg hodd]
    exact collapse_even_run hwritten htext hnormal (Nat.le_refl _)

/-- Indented text on lines of its own. -/
def indentedRow (_ : Nat) : Literal Expr :=
  .ofText "\n  x\n"

theorem four_adjacent_bodies_pair :
    (adjacentRuns indentedRow 3).collapse =
      .ok (.tagged (.tagged (.template (.ofText "x")) (.ofText "\n  x\n")) (.ofText "x")) ∧
    (adjacentRuns indentedRow 4).collapse =
      .ok (.close 1 (.tagged (.tagged (.tagged (.template (.ofText "x")) (.ofText "\n  x\n"))
        (.ofText "x")) (.ofText "\n  x\n"))) := by
  have hnormal : (Literal.ofText "\n  x\n" : Literal Expr).normalize = .ok (.ofText "x") := rfl
  have pair := fun n hn => adjacent_runs_pair_from_the_left n indentedRow (fun _ => .ofText "x") hn
    (fun _ _ _ => rfl) (fun _ _ _ => rfl) fun _ _ _ _ => hnormal
  exact ⟨pair 3 (by omega), pair 4 (by omega)⟩

end OverDelimited
