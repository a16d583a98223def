import OverDelimited.Proofs.SecondPass

/-!
# Locations

`Expr.follow` leads from an expression to the node at the end of a path, one step from a node to a
node that stands directly in it.  Two results speak of locations.  Collapsing leaves a program as it
is exactly if no location holds a tagged literal that resolves.  And a diagnosed path counts a chain
as one node: the recovered tag and the placeholders of the body are one step away from the outermost
layer, though other layers lie between.  `Expr.fullPath` puts these layers back; the path in full
leads to the malformed literal, and it differs from the diagnosed one as soon as that one goes into
a chain.
-/

namespace OverDelimited

/-! ### Following a path -/

/-- The node that stands directly in an expression, under the given step. -/
def Expr.part : Step → Expr → Option Expr
  | .tag, .tagged tag _ => some tag
  | .placeholder i, .template l => l.placeholders[i]?
  | .placeholder i, .tagged _ l => l.placeholders[i]?
  | .callee, .call callee _ => some callee
  | .argument i, .call _ arguments => arguments[i]?
  | .object, .member object _ => some object
  | .element i, .array elements => elements[i]?
  | _, _ => none

def Expr.follow : Path → Expr → Option Expr
  | [], e => some e
  | s :: path, e => (e.part s).bind (follow path)

/-- A path into a program starts at one of the expressions of its body. -/
def Program.follow : Path → Program → Option Expr
  | .body i :: path, p => p.body[i]?.bind (Expr.follow path)
  | _, _ => none

theorem follow_append (path rest : Path) (e : Expr) :
    e.follow (path ++ rest) = (e.follow path).bind (Expr.follow rest) := by
  induction path generalizing e with
  | nil => rfl
  | cons s path ih =>
    simp only [List.cons_append, Expr.follow]
    cases hc : e.part s with
    | none => rfl
    | some c => exact ih c

theorem follow_of_closes {d : Nat} {x e : Expr} (h : Closes d x e) :
    e.follow (List.replicate d .tag) = some x := by
  induction h with
  | refl x => rfl
  | layer _ _ ih => exact ih

/-! ### Nothing to collapse -/

theorem mem_children_of_part {e c : Expr} {s : Step} (hr : e.resolves = false)
    (h : e.part s = some c) : c ∈ e.children := by
  cases e with
  | tagged tag l =>
    have hnone : Tagged.resolve ⟨tag, l⟩ = none := by simpa [Expr.resolves] using hr
    rw [children_of_resolve_none hnone]
    cases s with
    | tag =>
      cases h
      exact List.mem_cons_self ..
    | placeholder i => exact List.mem_cons_of_mem _ (List.mem_of_getElem? h)
    | _ => cases h
  | template l =>
    cases s with
    | placeholder i => exact List.mem_of_getElem? h
    | _ => cases h
  | call callee arguments =>
    cases s with
    | callee =>
      cases h
      exact List.mem_cons_self ..
    | argument i => exact List.mem_cons_of_mem _ (List.mem_of_getElem? h)
    | _ => cases h
  | member object property =>
    cases s with
    | object =>
      cases h
      exact List.mem_cons_self ..
    | _ => cases h
  | array elements =>
    cases s with
    | element i => exact List.mem_of_getElem? h
    | _ => cases h
  | _ => cases s <;> cases h

theorem exists_part_of_mem_children {e c : Expr} (hr : e.resolves = false)
    (h : c ∈ e.children) : ∃ s, e.part s = some c := by
  cases e with
  | tagged tag l =>
    have hnone : Tagged.resolve ⟨tag, l⟩ = none := by simpa [Expr.resolves] using hr
    rw [children_of_resolve_none hnone] at h
    rcases List.mem_cons.mp h with rfl | h
    · exact ⟨.tag, rfl⟩
    · obtain ⟨i, hi⟩ := List.mem_iff_getElem?.mp h
      exact ⟨.placeholder i, hi⟩
  | template l =>
    obtain ⟨i, hi⟩ := List.mem_iff_getElem?.mp h
    exact ⟨.placeholder i, hi⟩
  | call callee arguments =>
    rcases List.mem_cons.mp h with rfl | h
    · exact ⟨.callee, rfl⟩
    · obtain ⟨i, hi⟩ := List.mem_iff_getElem?.mp h
      exact ⟨.argument i, hi⟩
  | member object property =>
    rw [List.mem_singleton.mp h]
    exact ⟨.object, rfl⟩
  | array elements =>
    obtain ⟨i, hi⟩ := List.mem_iff_getElem?.mp h
    exact ⟨.element i, hi⟩
  | _ => cases h

theorem resolves_of_settled {e n : Expr} {path : Path} (he : e.Settled)
    (h : e.follow path = some n) : n.resolves = false := by
  induction path generalizing e with
  | nil =>
    cases h
    exact (settled_iff.mp he).1
  | cons s path ih =>
    obtain ⟨c, hc, hn⟩ := Option.bind_eq_some_iff.mp h
    have hmem := mem_children_of_part (settled_iff.mp he).1 hc
    exact ih ((settled_iff.mp he).2 c hmem) hn

theorem settled_of_follow {e : Expr}
    (h : ∀ path n, e.follow path = some n → n.resolves = false) : e.Settled := by
  intro n hn
  -- a visited node need not be at a location of its own; here it is, for no node above it resolves
  induction hn with
  | here e => exact h [] e rfl
  | child hc _ ih =>
    obtain ⟨s, hs⟩ := exists_part_of_mem_children (h [] _ rfl) hc
    refine ih fun path n hn => h (s :: path) n ?_
    simpa only [Expr.follow, hs, Option.bind_some] using hn

/-- The programs that collapsing leaves as they are hold no over-delimited literal, wherever one
looks, and these are all such programs. -/
theorem collapse_eq_self_iff_no_location_resolves (p : Program) :
    p.collapse = .ok p ↔
      ∀ path tag l, p.follow path = some (.tagged tag l) → Tagged.resolve ⟨tag, l⟩ = none := by
  rw [program_collapse_eq_self_iff]
  constructor
  · intro h path tag l hpath
    match path with
    | .body i :: path =>
      obtain ⟨e, he, hn⟩ := Option.bind_eq_some_iff.mp hpath
      have hres := resolves_of_settled (h e (List.mem_of_getElem? he)) hn
      simpa [Expr.resolves] using hres
  · intro h e he
    obtain ⟨i, hi⟩ := List.mem_iff_getElem?.mp he
    apply settled_of_follow
    intro path n hn
    cases n with
    | tagged tag l =>
      have hat : p.follow (.body i :: path) = some (.tagged tag l) := by
        simpa only [Program.follow, hi, Option.bind_some] using hn
      simp [Expr.resolves, h _ _ _ hat]
    | _ => rfl

/-! ### The layers that a diagnosed path leaves out -/

/-- The steps that one step of a diagnosed path stands for.  In a chain, the body lies below its
closing layers, and the recovered tag below these, the body and as many opening layers. -/
def Expr.detour (s : Step) : Expr → Path
  | .tagged tag l =>
    match Tagged.resolve ⟨tag, l⟩, s with
    | none, s => [s]
    | some m, .tag => List.replicate m.depth .tag ++ .tag :: List.replicate m.depth .tag
    | some m, s => List.replicate m.depth .tag ++ [s]
  | _ => [s]

/-- A diagnosed path with every step in full. -/
def Expr.fullPath : Path → Expr → Path
  | [], _ => []
  | s :: path, e =>
    e.detour s ++
      match e.follow (e.detour s) with
      | some c => c.fullPath path
      | none => path

def Program.fullPath : Path → Program → Path
  | .body i :: path, p =>
    .body i ::
      match p.body[i]? with
      | some e => e.fullPath path
      | none => path
  | path, _ => path

theorem detour_of_resolves {e : Expr} (h : e.resolves = false) (s : Step) : e.detour s = [s] := by
  cases e with
  | tagged tag l =>
    have hnone : Tagged.resolve ⟨tag, l⟩ = none := by simpa [Expr.resolves] using h
    simp only [Expr.detour, hnone]
  | _ => rfl

theorem follow_singleton (e : Expr) (s : Step) : e.follow [s] = e.part s := by
  show (e.part s).bind some = e.part s
  cases e.part s <;> rfl

/-- The chain that a match was recovered from, seen along its tags. -/
theorem follow_of_resolve {tag : Expr} {l body : Literal Expr} {r : Option Expr} {d : Nat}
    (h : Tagged.resolve ⟨tag, l⟩ = some ⟨r, body, d⟩) :
    ∃ u, (Expr.tagged tag l).follow (List.replicate d .tag) = some (.tagged u body) ∧
      ∀ t ∈ r, u.follow (List.replicate d .tag) = some t := by
  obtain ⟨k, u, rfl, -, hc, hbal⟩ := Tagged.resolve_eq_some_iff.mp h
  refine ⟨u, follow_of_closes hc, ?_⟩
  intro t ht
  cases ht
  exact follow_of_closes (balance_eq_tag_iff.mp hbal).2

theorem follow_detour_tag {tag t : Expr} {l body : Literal Expr} {d : Nat}
    (h : Tagged.resolve ⟨tag, l⟩ = some ⟨some t, body, d⟩) :
    (Expr.tagged tag l).follow ((Expr.tagged tag l).detour .tag) = some t := by
  obtain ⟨u, hbody, htag⟩ := follow_of_resolve h
  simp only [Expr.detour, h, follow_append, hbody, Option.bind_some]
  exact htag t rfl

theorem follow_detour_placeholder {tag c : Expr} {l body : Literal Expr} {r : Option Expr}
    {d i : Nat} (h : Tagged.resolve ⟨tag, l⟩ = some ⟨r, body, d⟩)
    (hc : body.placeholders[i]? = some c) :
    (Expr.tagged tag l).follow ((Expr.tagged tag l).detour (.placeholder i)) = some c := by
  obtain ⟨u, hbody, -⟩ := follow_of_resolve h
  simp only [Expr.detour, h, follow_append, hbody, Option.bind_some, follow_singleton]
  exact hc

/-! ### What diagnosing one node reports -/

/-- A chain whose body cannot be normalized, for the given cause. -/
def Expr.IsMalformed (cause : Malformed) (e : Expr) : Prop :=
  ∃ tag l m, e = .tagged tag l ∧ Tagged.resolve ⟨tag, l⟩ = some m ∧
    m.literal.normalize = .error cause

/-- A fault of an expression: its own, or one of a node that a step of the walk leads to. -/
def Expr.Reports (e : Expr) (f : Fault) : Prop :=
  (f.path = [] ∧ e.IsMalformed f.cause) ∨
    ∃ s c g, e.follow (e.detour s) = some c ∧ g ∈ c.diagnose ∧ f = g.under s

theorem mem_diagnoseAll {step : Nat → Step} {es : List Expr} {i : Nat} {f : Fault}
    (h : f ∈ diagnoseAll step i es) :
    ∃ (k : Nat) (c : Expr) (g : Fault),
      es[k]? = some c ∧ g ∈ c.diagnose ∧ f = g.under (step (i + k)) := by
  induction es generalizing i with
  | nil =>
    rw [diagnoseAll] at h
    cases h
  | cons e es ih =>
    rw [diagnoseAll] at h
    rcases List.mem_append.mp h with h | h
    · obtain ⟨g, hg, rfl⟩ := List.mem_map.mp h
      exact ⟨0, e, g, rfl, hg, rfl⟩
    · obtain ⟨k, c, g, hc, hg, rfl⟩ := ih h
      have hindex : i + 1 + k = i + (k + 1) := by omega
      exact ⟨k + 1, c, g, hc, hg, by rw [hindex]⟩

theorem reports_of_mem_diagnoseAll {e : Expr} {step : Nat → Step} {es : List Expr} {f : Fault}
    (h : f ∈ diagnoseAll step 0 es)
    (hstep : ∀ k c, es[k]? = some c → e.follow (e.detour (step k)) = some c) : e.Reports f := by
  obtain ⟨k, c, g, hc, hg, rfl⟩ := mem_diagnoseAll h
  rw [Nat.zero_add]
  exact Or.inr ⟨step k, c, g, hstep k c hc, hg, rfl⟩

theorem reports_of_mem_map {e c : Expr} {s : Step} {f : Fault}
    (h : f ∈ c.diagnose.map (Fault.under s)) (hc : e.follow (e.detour s) = some c) :
    e.Reports f := by
  obtain ⟨g, hg, rfl⟩ := List.mem_map.mp h
  exact Or.inr ⟨s, c, g, hc, hg, rfl⟩

theorem reports_of_mem_diagnoseLiteral {e : Expr} {tag : Option Expr} {l : Literal Expr} {f : Fault}
    (h : f ∈ diagnoseLiteral tag l)
    (htag : ∀ t ∈ tag, e.follow (e.detour .tag) = some t)
    (hps : ∀ k c, l.placeholders[k]? = some c → e.follow (e.detour (.placeholder k)) = some c) :
    e.Reports f := by
  rcases List.mem_append.mp h with h | h
  · cases tag with
    | none => cases h
    | some t => exact reports_of_mem_map h (htag t rfl)
  · exact reports_of_mem_diagnoseAll h hps

theorem reports_of_mem_diagnose {e : Expr} {f : Fault} (h : f ∈ e.diagnose) : e.Reports f := by
  cases e with
  | identifier name =>
    rw [Expr.diagnose] at h
    cases h
  | string value =>
    rw [Expr.diagnose] at h
    cases h
  | template l =>
    rw [diagnose_template] at h
    refine reports_of_mem_diagnoseLiteral h (fun t ht => absurd ht (Option.not_mem_none t)) ?_
    intro k c hc
    exact (follow_singleton _ _).trans hc
  | tagged tag l =>
    cases hr : Tagged.resolve ⟨tag, l⟩ with
    | none =>
      have hkept : (Expr.tagged tag l).resolves = false := by simp [Expr.resolves, hr]
      rw [diagnose_of_resolve_none hr] at h
      refine reports_of_mem_diagnoseLiteral h (fun t ht => ?_) fun k c hc => ?_
      · cases ht
        rw [detour_of_resolves hkept]
        rfl
      · rw [detour_of_resolves hkept, follow_singleton]
        exact hc
    | some m =>
      obtain ⟨r, body, d⟩ := m
      rw [diagnose_of_resolve_some hr] at h
      rcases List.mem_append.mp h with h | h
      · unfold bodyFaults at h
        cases hn : body.normalize with
        | ok body' =>
          rw [hn] at h
          cases h
        | error cause =>
          rw [hn] at h
          rw [List.mem_singleton.mp h]
          exact Or.inl ⟨rfl, tag, l, _, rfl, hr, hn⟩
      · refine reports_of_mem_diagnoseLiteral h (fun t ht => ?_) fun k c hc => ?_
        · cases ht
          exact follow_detour_tag hr
        · exact follow_detour_placeholder hr hc
  | call callee arguments =>
    rw [Expr.diagnose] at h
    rcases List.mem_append.mp h with h | h
    · exact reports_of_mem_map h rfl
    · exact reports_of_mem_diagnoseAll h fun k c hc => (follow_singleton _ _).trans hc
  | member object property =>
    rw [Expr.diagnose] at h
    exact reports_of_mem_map h rfl
  | array elements =>
    rw [Expr.diagnose] at h
    exact reports_of_mem_diagnoseAll h fun k c hc => (follow_singleton _ _).trans hc

theorem follow_fullPath_of_mem_diagnose {e : Expr} {f : Fault} (h : f ∈ e.diagnose) :
    ∃ n, e.follow (e.fullPath f.path) = some n ∧ n.IsMalformed f.cause := by
  obtain ⟨path, cause⟩ := f
  -- on the path: the fault of a node is a fault of the part that its first step stands for
  induction path generalizing e with
  | nil =>
    rcases reports_of_mem_diagnose h with ⟨-, hbad⟩ | ⟨s, c, g, -, -, hf⟩
    · exact ⟨e, rfl, hbad⟩
    · cases hf
  | cons s path ih =>
    rcases reports_of_mem_diagnose h with ⟨hnil, -⟩ | ⟨s', c, ⟨path', cause'⟩, hc, hg, hf⟩
    · cases hnil
    · cases hf
      obtain ⟨n, hn, hbad⟩ := ih hg
      refine ⟨n, ?_, hbad⟩
      simp only [Expr.fullPath, hc, follow_append, Option.bind_some, hn]

/-! ### Paths that go into a chain -/

/-- Some step of the path leads on from a node that resolves. -/
def EntersChain (follow : Path → Option Expr) (path : Path) : Prop :=
  ∃ outer s rest n, path = outer ++ s :: rest ∧ follow outer = some n ∧ n.resolves = true

theorem not_entersChain_nil (follow : Path → Option Expr) : ¬ EntersChain follow [] := by
  intro h
  obtain ⟨outer, s, rest, n, hpath, -, -⟩ := h
  cases outer <;> cases hpath

theorem entersChain_cons_iff {follow : Path → Option Expr} {s : Step} {path : Path} :
    EntersChain follow (s :: path) ↔
      (∃ n, follow [] = some n ∧ n.resolves = true) ∨
        EntersChain (fun inner => follow (s :: inner)) path := by
  constructor
  · intro h
    obtain ⟨outer, s', rest, n, hpath, hn, hres⟩ := h
    cases outer with
    | nil => exact Or.inl ⟨n, hn, hres⟩
    | cons first outer =>
      cases hpath
      exact Or.inr ⟨outer, s', rest, n, rfl, hn, hres⟩
  · intro h
    rcases h with ⟨n, hn, hres⟩ | ⟨outer, s', rest, n, rfl, hn, hres⟩
    · exact ⟨[], s, path, n, rfl, hn, hres⟩
    · exact ⟨s :: outer, s', rest, n, rfl, hn, hres⟩

theorem length_detour_of_resolves {e : Expr} (h : e.resolves = true) (s : Step) :
    2 ≤ (e.detour s).length := by
  cases e with
  | tagged tag l =>
    cases hr : Tagged.resolve ⟨tag, l⟩ with
    | none => simp [Expr.resolves, hr] at h
    | some m =>
      have hdepth : 1 ≤ m.depth := by
        obtain ⟨k, u, hd, -⟩ := Tagged.resolve_eq_some_iff.mp hr
        omega
      cases s <;> simp [Expr.detour, hr] <;> omega
  | _ => cases h

theorem length_le_fullPath (path : Path) (e : Expr) :
    path.length ≤ (e.fullPath path).length := by
  induction path generalizing e with
  | nil => exact Nat.zero_le _
  | cons s path ih =>
    have hdetour : 1 ≤ (e.detour s).length := by
      cases hr : e.resolves with
      | true => exact Nat.le_of_succ_le (length_detour_of_resolves hr s)
      | false => simp [detour_of_resolves hr]
    simp only [Expr.fullPath, List.length_append, List.length_cons]
    split
    · next c hc =>
      have hrest := ih c
      omega
    · omega

theorem fullPath_eq_self_iff (path : Path) (e : Expr) :
    e.fullPath path = path ↔ ¬ EntersChain (e.follow ·) path := by
  induction path generalizing e with
  | nil => exact iff_of_true rfl (not_entersChain_nil _)
  | cons s path ih =>
    rw [entersChain_cons_iff]
    cases hr : e.resolves with
    | true =>
      -- the layers left out make the path in full longer
      have hdetour := length_detour_of_resolves hr s
      refine iff_of_false (fun h => ?_) (fun h => h (Or.inl ⟨e, rfl, hr⟩))
      have hlen := congrArg List.length h
      simp only [Expr.fullPath, List.length_append, List.length_cons] at hlen
      split at hlen
      · next c hc =>
        have hrest := length_le_fullPath path c
        omega
      · omega
    | false =>
      simp only [Expr.fullPath, detour_of_resolves hr, follow_singleton, List.singleton_append,
        List.cons.injEq, true_and, Expr.follow, Option.some.injEq, exists_eq_left', hr,
        Bool.false_eq_true, false_or]
      cases hc : e.part s with
      | none =>
        refine iff_of_true rfl fun h => ?_
        obtain ⟨outer, s', rest, n, -, hn, -⟩ := h
        cases hn
      | some c => exact ih c

theorem program_fullPath_eq_self_iff {p : Program} {f : Fault} (h : f ∈ p.diagnose) :
    p.fullPath f.path = f.path ↔ ¬ EntersChain (p.follow ·) f.path := by
  obtain ⟨i, e, g, he, -, rfl⟩ := mem_diagnoseAll h
  have hroot : ¬ ∃ n, p.follow [] = some n ∧ n.resolves = true := nofun
  rw [Nat.zero_add, Fault.under, entersChain_cons_iff, or_iff_right hroot]
  simp only [Program.fullPath, Program.follow, he, Option.bind_some, List.cons.injEq, true_and]
  exact fullPath_eq_self_iff g.path e

/-- A diagnosed path with the layers of every chain it goes into put back leads to a chain whose
body fails to normalize for the diagnosed cause.  The layers make a difference exactly if the path
does go into a chain; one that does not leads to the malformed literal as it is. -/
theorem diagnosed_path_in_full_locates (p : Program) (f : Fault) (h : f ∈ p.diagnose) :
    (∃ n, p.follow (p.fullPath f.path) = some n ∧ n.IsMalformed f.cause) ∧
    (p.fullPath f.path = f.path ↔ ¬ EntersChain (p.follow ·) f.path) ∧
    (¬ EntersChain (p.follow ·) f.path →
      ∃ n, p.follow f.path = some n ∧ n.IsMalformed f.cause) := by
  have hfull := program_fullPath_eq_self_iff h
  have hlocates : ∃ n, p.follow (p.fullPath f.path) = some n ∧ n.IsMalformed f.cause := by
    obtain ⟨i, e, g, he, hg, rfl⟩ := mem_diagnoseAll h
    obtain ⟨n, hn, hbad⟩ := follow_fullPath_of_mem_diagnose hg
    refine ⟨n, ?_, hbad⟩
    rw [Nat.zero_add]
    simpa only [Fault.under, Program.fullPath, Program.follow, he, Option.bind_some] using hn
  refine ⟨hlocates, hfull, fun houter => ?_⟩
  rw [hfull.mpr houter] at hlocates
  exact hlocates

/-- Three delimiters on either side of a text that starts on the line of the opening ones. -/
def flush : Expr :=
  .close 1 (.tagged (.template .trivial) (.ofText "x"))

/-- Three delimiters on either side of a body with `flush` in its placeholder. -/
def flushInBody : Expr :=
  .close 1 (.tagged (.template .trivial) (.hole (.ofText "\n") flush (.ofText "")))

theorem diagnose_flush : flush.diagnose = [⟨[], .missingLeadingNewline⟩] := by
  have hr : Tagged.resolve ⟨.tagged (.template .trivial) (.ofText "x"), .trivial⟩ =
      some ⟨none, .ofText "x", 1⟩ := rfl
  have hps : diagnoseLiteral none (.ofText "x") = [] := by
    show diagnoseAll .placeholder 0 [] = []
    rw [diagnoseAll]
  rw [flush, Expr.close, Expr.close, diagnose_of_resolve_some hr, hps]
  rfl

theorem diagnose_flushInBody :
    flushInBody.diagnose = [⟨[.placeholder 0], .missingLeadingNewline⟩] := by
  have hr : Tagged.resolve
      ⟨.tagged (.template .trivial) (.hole (.ofText "\n") flush (.ofText "")), .trivial⟩ =
        some ⟨none, .hole (.ofText "\n") flush (.ofText ""), 1⟩ := rfl
  have hps : diagnoseLiteral none (.hole (.ofText "\n") flush (.ofText "")) =
      [⟨[.placeholder 0], .missingLeadingNewline⟩] := by
    show diagnoseAll .placeholder 0 [flush] = _
    rw [diagnoseAll, diagnoseAll, diagnose_flush]
    rfl
  rw [flushInBody, Expr.close, Expr.close, diagnose_of_resolve_some hr, hps]
  rfl

theorem program_diagnose_singleton (e : Expr) :
    Program.diagnose ⟨[e]⟩ = e.diagnose.map (Fault.under (.body 0)) := by
  rw [Program.diagnose, diagnoseAll, diagnoseAll, List.append_nil]

theorem flush_is_located_alone_and_in_a_body :
    (∃ n, Program.follow [.body 0] ⟨[flush]⟩ = some n ∧ n.IsMalformed .missingLeadingNewline) ∧
    (∃ n, Program.follow [.body 0, .tag, .placeholder 0] ⟨[flushInBody]⟩ = some n ∧
      n.IsMalformed .missingLeadingNewline) := by
  have halone : ⟨[.body 0], .missingLeadingNewline⟩ ∈ Program.diagnose ⟨[flush]⟩ := by
    rw [program_diagnose_singleton, diagnose_flush]
    exact List.mem_singleton.mpr rfl
  have hinside : ⟨[.body 0, .placeholder 0], .missingLeadingNewline⟩ ∈
      Program.diagnose ⟨[flushInBody]⟩ := by
    rw [program_diagnose_singleton, diagnose_flushInBody]
    exact List.mem_singleton.mpr rfl
  have houter : ¬ EntersChain (Program.follow · ⟨[flush]⟩) [.body 0] := by
    rw [entersChain_cons_iff]
    rintro (⟨n, hn, -⟩ | h)
    · cases hn
    · exact not_entersChain_nil _ h
  exact ⟨(diagnosed_path_in_full_locates _ _ halone).2.2 houter,
    (diagnosed_path_in_full_locates _ _ hinside).1⟩

theorem diagnosed_path_into_a_body_leads_nowhere :
    Program.diagnose ⟨[flushInBody]⟩ =
      [⟨[.body 0, .placeholder 0], .missingLeadingNewline⟩] ∧
    Program.follow [.body 0, .placeholder 0] ⟨[flushInBody]⟩ = none := by
  constructor
  · rw [program_diagnose_singleton, diagnose_flushInBody]
    rfl
  · rfl

end OverDelimited
