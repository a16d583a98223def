import OverDelimited.Proofs.Layers

/-!
# The spine, one layer at a time

`Tagged.spine` looks at the opening side once and reads the outermost layer that resolves off the
deepest first pair.  Here that is shown to be what a walk does that resolves layer after layer: it
stops at once if the node resolves, passes over one layer if it does not, and ends at the body.
Counted over the layers of a node, it stops at the first of them that resolves, if there is one, and
at the last of them otherwise.
-/

namespace OverDelimited

/-! ### The deepest first pair -/

theorem deepestPair_layer (k : Nat) (t : Expr) {l : Literal Expr} (hl : l.isTrivial = true) :
    deepestPair (k + 1) (.tagged t l) =
      match deepestPair k t with
      | some (layers, tag) => some (layers + 1, tag)
      | none => (firstPair (.tagged t l)).map fun tag => (0, tag) := by
  show (match (if l.isTrivial = true then deepestPair k t else none) with
      | some (layers, tag) => some (layers + 1, tag)
      | none => (firstPair (.tagged t l)).map fun tag => (0, tag)) = _
  rw [if_pos hl]

/-- With one more layer on the closing side, either that many opening layers balance, or the search
is the one for fewer layers. -/
theorem deepestPair_succ (k : Nat) (e : Expr) :
    deepestPair (k + 1) e =
      match balance k e with
      | some tag => some (k, tag)
      | none => deepestPair k e := by
  induction k generalizing e with
  | zero =>
    have hbelow : deepestPair 1 e = (firstPair e).map fun tag => (0, tag) := by
      cases e with
      | tagged t l => cases hl : l.isTrivial <;> simp [deepestPair, hl]
      | _ => rfl
    rw [hbelow]
    cases h : firstPair e <;> simp [balance, deepestPair, h]
  | succ k ih =>
    cases e with
    | tagged t l =>
      cases hl : l.isTrivial with
      | true =>
        rw [deepestPair_layer (k + 1) t hl, deepestPair_layer k t hl, ih t]
        simp only [balance, hl, if_true]
        cases hb : balance k t with
        | some tag => rfl
        | none => rfl
      | false => simp [deepestPair, balance, hl]
    | _ => rfl

theorem deepestPair_lt {k layers : Nat} {e : Expr} {tag : Option Expr}
    (h : deepestPair k e = some (layers, tag)) : layers < k := by
  induction k with
  | zero => simp [deepestPair] at h
  | succ k ih =>
    rw [deepestPair_succ] at h
    cases hb : balance k e with
    | some t =>
      simp only [hb, Option.some.injEq, Prod.mk.injEq] at h
      omega
    | none =>
      simp only [hb] at h
      have := ih h
      omega

/-! ### Steps of the walk -/

namespace Tagged

/-- The stop as reached from one layer further out. -/
def Stop.push (l : Literal Expr) (s : Stop) : Stop :=
  ⟨l :: s.passed, s.node, s.resolution⟩

theorem spine_of_isBody {n : Tagged} (h : n.IsBody) : n.spine = ⟨[], n, none⟩ := by
  simp only [spine, unwind_of_isBody h, List.length_nil, deepestPair]

theorem spine_of_resolve {n : Tagged} {m : Match} (h : n.resolve = some m) :
    n.spine = ⟨[], n, some m⟩ := by
  simp only [resolve] at h
  split at h
  · cases h
  · next layer layers payload hu =>
    obtain ⟨tag, hb, rfl⟩ := Option.map_eq_some_iff.mp h
    have hd : deepestPair (layers.length + 1) payload.tag = some (layers.length, tag) := by
      rw [deepestPair_succ, hb]
    simp only [spine, hu, List.length_cons, hd, Nat.sub_self, List.take_zero]
    rfl

theorem spine_of_layer {tag : Expr} {inner l : Literal Expr} (hl : l.isTrivial = true)
    (h : resolve ⟨.tagged tag inner, l⟩ = none) :
    spine ⟨.tagged tag inner, l⟩ = (spine ⟨tag, inner⟩).push l := by
  rw [resolve_layer tag inner hl, Option.map_eq_none_iff] at h
  simp only [spine, unwind_layer tag inner hl, List.length_cons]
  rw [deepestPair_succ, h]
  cases hd : deepestPair (unwind tag inner).1.length (unwind tag inner).2.tag with
  | none => rfl
  | some found =>
    obtain ⟨layers, t⟩ := found
    have hlt := deepestPair_lt hd
    have hoff : (unwind tag inner).1.length + 1 - (layers + 1) =
        (unwind tag inner).1.length - (layers + 1) + 1 := by omega
    simp only [hoff, List.take_succ_cons, below]
    rfl

/-! ### Resolving every layer -/

/-- The closing layer right below a node. -/
def next? : Tagged → Option Tagged
  | ⟨.tagged tag inner, l⟩ => if l.isTrivial then some ⟨tag, inner⟩ else none
  | _ => none

/-- The layer of the given index below a node, which is itself the layer of index 0. -/
def layer (n : Tagged) : Nat → Option Tagged
  | 0 => some n
  | j + 1 => (n.layer j).bind next?

theorem next?_eq_none_iff {n : Tagged} : n.next? = none ↔ n.IsBody := by
  obtain ⟨tag, l⟩ := n
  cases tag with
  | tagged t m => cases hl : l.isTrivial <;> simp [next?, IsBody, hl]
  | _ => simp [next?, IsBody]

theorem eq_layer_of_next? {n below : Tagged} (h : n.next? = some below) :
    n = ⟨below.toExpr, n.literal⟩ ∧ n.literal.isTrivial = true := by
  obtain ⟨tag, l⟩ := n
  cases tag with
  | tagged t m =>
    cases hl : l.isTrivial with
    | true =>
      simp only [next?, hl, if_true, Option.some.injEq] at h
      subst h
      exact ⟨rfl, rfl⟩
    | false => simp [next?, hl] at h
  | _ => simp [next?] at h

theorem layer_succ (n : Tagged) (j : Nat) : n.layer (j + 1) = n.next?.bind fun m => m.layer j := by
  induction j with
  | zero =>
    show (some n).bind next? = n.next?.bind some
    rw [Option.bind_some, Option.bind_fun_some]
  | succ j ih =>
    show (n.layer (j + 1)).bind next? = _
    rw [ih, Option.bind_assoc]
    rfl

theorem layer_unwind (tag : Expr) (l : Literal Expr) :
    layer ⟨tag, l⟩ (unwind tag l).1.length = some (unwind tag l).2 := by
  fun_induction unwind tag l with
  | case1 tag inner l hl unwound ih =>
    have hnext : next? ⟨.tagged tag inner, l⟩ = some ⟨tag, inner⟩ := by simp [next?, hl]
    show layer ⟨.tagged tag inner, l⟩ (unwound.1.length + 1) = some unwound.2
    rw [layer_succ, hnext]
    exact ih
  | case2 tag inner l hl => rfl
  | case3 e l h => rfl

/-- A step of the walk: below a node that does not resolve it goes on as from the next layer. -/
theorem spine_of_next? {n below : Tagged} (h : n.next? = some below) (hr : n.resolve = none) :
    n.spine = below.spine.push n.literal := by
  obtain ⟨hn, hl⟩ := eq_layer_of_next? h
  rw [hn] at hr ⊢
  exact spine_of_layer hl hr

theorem spine_of_first_match {n m : Tagged} {j : Nat} (hm : n.layer j = some m)
    (hr : m.resolve ≠ none) (hfirst : ∀ i < j, ∀ k, n.layer i = some k → k.resolve = none) :
    n.spine.offset = j ∧ n.spine.node = m ∧ n.spine.resolution = m.resolve := by
  induction j generalizing n with
  | zero =>
    have hnm : n = m := Option.some.inj hm
    subst hnm
    obtain ⟨found, hfound⟩ := Option.ne_none_iff_exists'.mp hr
    rw [spine_of_resolve hfound, hfound]
    exact ⟨rfl, rfl, rfl⟩
  | succ j ih =>
    rw [layer_succ] at hm
    obtain ⟨below, hnext, hbelow⟩ := Option.bind_eq_some_iff.mp hm
    have hnone : n.resolve = none := hfirst 0 (Nat.succ_pos j) n rfl
    have hrest : ∀ i < j, ∀ k, below.layer i = some k → k.resolve = none := by
      intro i hi k hk
      refine hfirst (i + 1) (by omega) k ?_
      rw [layer_succ, hnext]
      exact hk
    obtain ⟨hoffset, hnode, hres⟩ := ih hbelow hrest
    rw [spine_of_next? hnext hnone]
    exact ⟨congrArg (· + 1) hoffset, hnode, hres⟩

theorem spine_of_no_match {n last : Tagged} {j : Nat} (hlast : n.layer j = some last)
    (hbody : last.next? = none) (hnone : ∀ i k, n.layer i = some k → k.resolve = none) :
    n.spine.offset = j ∧ n.spine.node = last ∧ n.spine.resolution = none := by
  induction j generalizing n with
  | zero =>
    have hn : n = last := Option.some.inj hlast
    subst hn
    rw [spine_of_isBody (next?_eq_none_iff.mp hbody)]
    exact ⟨rfl, rfl, rfl⟩
  | succ j ih =>
    rw [layer_succ] at hlast
    obtain ⟨below, hnext, hbelow⟩ := Option.bind_eq_some_iff.mp hlast
    have hrest : ∀ i k, below.layer i = some k → k.resolve = none := by
      intro i k hk
      refine hnone (i + 1) k ?_
      rw [layer_succ, hnext]
      exact hk
    obtain ⟨hoffset, hnode, hres⟩ := ih hbelow hrest
    rw [spine_of_next? hnext (hnone 0 n rfl)]
    exact ⟨congrArg (· + 1) hoffset, hnode, hres⟩

theorem offset_add_depth {n : Tagged} {found : Match} (h : n.spine.resolution = some found) :
    n.spine.offset + found.depth = (unwind n.tag n.literal).1.length := by
  cases hd : deepestPair (unwind n.tag n.literal).1.length (unwind n.tag n.literal).2.tag with
  | none => simp [spine, hd] at h
  | some pair =>
    obtain ⟨layers, tag⟩ := pair
    have hlt := deepestPair_lt hd
    simp only [spine, hd, Option.some.injEq] at h
    subst h
    simp only [spine, hd, Stop.offset, List.length_take]
    omega

/-- The spine stops where resolving layer after layer first succeeds, with the result it has there,
and else at the last layer.  The depth it finds is never more than the number of layers above the
body. -/
theorem spine_stops_at_outermost_match (n : Tagged) :
    (∀ j m, n.layer j = some m → m.resolve ≠ none →
      (∀ i < j, ∀ k, n.layer i = some k → k.resolve = none) →
      n.spine.offset = j ∧ n.spine.node = m ∧ n.spine.resolution = m.resolve) ∧
    ∃ last body, n.layer last = some body ∧ body.next? = none ∧
      ((∀ i k, n.layer i = some k → k.resolve = none) →
        n.spine.offset = last ∧ n.spine.node = body ∧ n.spine.resolution = none) ∧
      (∀ found, n.spine.resolution = some found →
        found.depth ≤ last ∧ n.spine.offset = last - found.depth) := by
  have hlast := layer_unwind n.tag n.literal
  have hbody := next?_eq_none_iff.mpr (isBody_unwind n.tag n.literal)
  refine ⟨fun j m hm hr hfirst => spine_of_first_match hm hr hfirst, _, _, hlast, hbody,
    spine_of_no_match hlast hbody, ?_⟩
  intro found hfound
  have hsum := offset_add_depth hfound
  constructor <;> omega

/-- A tripled literal with two closing layers too many. -/
def overclosed : Tagged :=
  ⟨Expr.close 2 (.tagged (.template .trivial) (.ofText "x")), .trivial⟩

/-- A literal behind a name with two closing layers. -/
def unopened : Tagged :=
  ⟨Expr.close 1 (.tagged (.identifier "sql") (.ofText "x")), .trivial⟩

theorem excess_layers_are_passed :
    overclosed.spine.offset = 2 ∧
    overclosed.spine.resolution = some ⟨none, .ofText "x", 1⟩ ∧
    unopened.spine.resolution = none ∧ unopened.spine.node.next? = none := by
  have hfirst : ∀ i < 2, ∀ k, overclosed.layer i = some k → k.resolve = none := by
    intro i hi k hk
    obtain rfl | rfl : i = 0 ∨ i = 1 := by omega
    · cases hk
      rfl
    · cases hk
      rfl
  have hnone : ∀ i k, unopened.layer i = some k → k.resolve = none := by
    intro i k hk
    rcases i with _ | _ | _ | i
    · cases hk
      rfl
    · cases hk
      rfl
    · cases hk
      rfl
    · simp [layer_succ, unopened, Expr.close, next?, Literal.isTrivial, Literal.trivial,
        Literal.ofText, Segment.ofText] at hk
  obtain ⟨hoffset, -, hres⟩ := (spine_stops_at_outermost_match overclosed).1 2
    ⟨.tagged (.template .trivial) (.ofText "x"), .trivial⟩ rfl nofun hfirst
  obtain ⟨-, last, body, -, hbody, hstop, -⟩ := spine_stops_at_outermost_match unopened
  obtain ⟨-, hnode, hunopened⟩ := hstop hnone
  exact ⟨hoffset, hres, hunopened, hnode ▸ hbody⟩

end Tagged

end OverDelimited
