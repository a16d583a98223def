import OverDelimited.Program.Decode
import OverDelimited.Program.Encode

/-!
# Written programs as data

Every program is read back from the tree it is written as.  A record is read entry by entry:
`Slots.fill` is what one entry adds to the fields read before it, so a record of a node is read by
following its entries in the order they are written in.
-/

namespace OverDelimited

/-! ### One entry at a time -/

/-- The fields read so far with the value of one more role. -/
def Slots.fill (slots : Slots) : Role → Datum → Except DecodeError Slots
  | .text, .text s => .ok { slots with text := some s }
  | .cooked, .null => .ok { slots with cooked := some none }
  | .cooked, .text s => .ok { slots with cooked := some (some s) }
  | .expr, d => d.toExpr.map fun e => { slots with expr := some e }
  | .exprs, .list items => (Datum.toExprs items).map fun es => { slots with exprs := some es }
  | .segments, .list items =>
    (Datum.toSegments items).map fun ss => { slots with segments := some ss }
  | .literal, d => d.toLiteral.map fun l => { slots with literal := some l }
  | _, _ => .error .mismatch

theorem fillEntries_of_fill {fields : List Field} {slots slots' filled : Slots} {key : Key}
    {d : Datum} {rest : List (Key × Datum)} (field : Field)
    (hn : Field.named? fields key = .ok (some field)) (hh : slots.has field.role = false)
    (hf : slots.fill field.role d = .ok slots')
    (hrest : Datum.fillEntries fields slots' rest = .ok filled) :
    Datum.fillEntries fields slots ((key, d) :: rest) = .ok filled := by
  rw [Datum.fillEntries, hn, ← hrest]
  obtain ⟨name, role⟩ := field
  simp only [hh]
  revert hf
  cases role with
  | text | cooked => cases d <;> intro hf <;> cases hf <;> rfl
  | expr =>
    simp only [Slots.fill]
    cases d.toExpr <;> intro hf <;> cases hf
    rfl
  | literal =>
    simp only [Slots.fill]
    cases d.toLiteral <;> intro hf <;> cases hf
    rfl
  | exprs =>
    cases d with
    | list items =>
      simp only [Slots.fill]
      cases Datum.toExprs items <;> intro hf <;> cases hf
      rfl
    | _ => intro hf; cases hf
  | segments =>
    cases d with
    | list items =>
      simp only [Slots.fill]
      cases Datum.toSegments items <;> intro hf <;> cases hf
      rfl
    | _ => intro hf; cases hf

theorem fillEntries_of_unknown {fields : List Field} {key : Key}
    (hn : Field.named? fields key = .ok none) (slots : Slots) (d : Datum)
    (rest : List (Key × Datum)) :
    Datum.fillEntries fields slots ((key, d) :: rest) = Datum.fillEntries fields slots rest := by
  rw [Datum.fillEntries, hn]

/-- A record whose first entry names a kind, and no other, is read by that kind's fields. -/
theorem toExpr_record (kind : Kind) {name : String} {es : List (Key × Datum)} {slots : Slots}
    {e : Expr} (hname : kind.name = name) (h : Kind.entries es = [])
    (hf : Datum.fillEntries kind.fields {} es = .ok slots) (he : slots.toExpr kind = .ok e) :
    (Datum.record ((.text "type", .text name) :: es)).toExpr = .ok e := by
  subst hname
  have hkind : Kind.ofEntries ((.text "type", .text kind.name) :: es) = .ok kind := by
    have hone : Kind.entries ((.text "type", .text kind.name) :: es) = [.text kind.name] :=
      congrArg (Datum.text kind.name :: ·) h
    rw [Kind.ofEntries, hone]
    cases kind <;> rfl
  have hnone : Field.named? kind.fields (.text "type") = .ok none := by
    cases kind <;> rfl
  have hfill := fillEntries_of_unknown hnone {} (.text kind.name) es
  rw [hf] at hfill
  rw [Datum.toExpr, hkind]
  simp only [hfill, he]

/-! ### Segments and literals -/

theorem toSegment_toTree (s : Segment) : s.toTree.toDatum.toSegment = .ok s := by
  obtain ⟨raw, cooked⟩ := s
  have hcooked : ∀ slots : Slots, slots.fill .cooked (cooked.elim Tree.null Tree.text).toDatum =
      .ok { slots with cooked := some cooked } := by
    intro slots
    cases cooked <;> rfl
  have hfill : Datum.fillEntries Field.ofSegment {}
      (Tree.toEntries [("raw", .text raw), ("cooked", cooked.elim .null .text)]) =
        .ok { text := some raw, cooked := some cooked } :=
    fillEntries_of_fill ⟨"raw", .text⟩ rfl rfl rfl
      (fillEntries_of_fill ⟨"cooked", .cooked⟩ rfl rfl (hcooked _) rfl)
  rw [Segment.toTree, Tree.toDatum, Datum.toSegment, hfill]
  rfl

theorem toSegments_toTree (ss : List Segment) :
    Datum.toSegments (Tree.toData (ss.map Segment.toTree)) = .ok ss := by
  induction ss with
  | nil => rfl
  | cons s rest ih =>
    simp only [List.map_cons, Tree.toData, Datum.toSegments, toSegment_toTree, ih]
    rfl

theorem Slots.toLiteral_of_parts {l : Literal Expr} {s : Slots}
    (hs : s.segments = some l.segments) (he : s.exprs = some l.placeholders) :
    s.toLiteral = .ok l := by
  have hl := Literal.interleave_parts l
  simp only [Slots.toLiteral, hs, he, Slots.require, Literal.ofParts, Option.getD_some, bind,
    Except.bind, hl]
  rfl

theorem fill_segments (slots : Slots) (ss : List Segment) :
    slots.fill .segments (.list (Tree.toData (ss.map Segment.toTree))) =
      .ok { slots with segments := some ss } := by
  rw [Slots.fill, toSegments_toTree]
  rfl

theorem fill_exprs (slots : Slots) {items : List Datum} {es : List Expr}
    (h : Datum.toExprs items = .ok es) :
    slots.fill .exprs (.list items) = .ok { slots with exprs := some es } := by
  rw [Slots.fill, h]
  rfl

theorem fill_expr (slots : Slots) {d : Datum} {e : Expr} (h : d.toExpr = .ok e) :
    slots.fill .expr d = .ok { slots with expr := some e } := by
  rw [Slots.fill, h]
  rfl

theorem fill_literal (slots : Slots) {d : Datum} {l : Literal Expr} (h : d.toLiteral = .ok l) :
    slots.fill .literal d = .ok { slots with literal := some l } := by
  rw [Slots.fill, h]
  rfl

/-- The entries of a literal, alone or in the record of an expression that is one. -/
theorem fillEntries_literal {l : Literal Expr}
    (h : Datum.toExprs (Tree.toData (Expr.holeTrees l)) = .ok l.placeholders) :
    Datum.fillEntries Field.ofLiteral {} (Tree.toEntries
      [("segments", .list (l.segments.map Segment.toTree)),
        ("placeholders", .list (Expr.holeTrees l))]) =
      .ok { segments := some l.segments, exprs := some l.placeholders } :=
  fillEntries_of_fill ⟨"segments", .segments⟩ rfl rfl (fill_segments _ _)
    (fillEntries_of_fill ⟨"placeholders", .exprs⟩ rfl rfl (fill_exprs _ h) rfl)

/-! ### Expressions -/

mutual
theorem toExpr_toTree : ∀ e : Expr, e.toTree.toDatum.toExpr = .ok e
  | .identifier name =>
    toExpr_record .identifier rfl rfl (fillEntries_of_fill ⟨"name", .text⟩ rfl rfl rfl rfl) rfl
  | .string value =>
    toExpr_record .string rfl rfl (fillEntries_of_fill ⟨"value", .text⟩ rfl rfl rfl rfl) rfl
  | .template l => by
    have hl : Slots.toExpr { segments := some l.segments, exprs := some l.placeholders } .template =
        .ok (.template l) := by
      rw [Slots.toExpr, Slots.toLiteral_of_parts rfl rfl]
      rfl
    exact toExpr_record .template rfl rfl (fillEntries_literal (toExprs_holeTrees l)) hl
  | .tagged tag l => by
    have hl : (l.toTree).toDatum.toLiteral = .ok l := by
      rw [Literal.toTree, Tree.toDatum, Datum.toLiteral, fillEntries_literal (toExprs_holeTrees l)]
      exact Slots.toLiteral_of_parts rfl rfl
    exact toExpr_record .tagged rfl rfl
      (fillEntries_of_fill ⟨"tag", .expr⟩ rfl rfl (fill_expr _ (toExpr_toTree tag))
        (fillEntries_of_fill ⟨"literal", .literal⟩ rfl rfl (fill_literal _ hl) rfl)) rfl
  | .call callee arguments =>
    toExpr_record .call rfl rfl
      (fillEntries_of_fill ⟨"callee", .expr⟩ rfl rfl (fill_expr _ (toExpr_toTree callee))
        (fillEntries_of_fill ⟨"arguments", .exprs⟩ rfl rfl
          (fill_exprs _ (toExprs_toTrees arguments)) rfl)) rfl
  | .member object property =>
    toExpr_record .member rfl rfl
      (fillEntries_of_fill ⟨"object", .expr⟩ rfl rfl (fill_expr _ (toExpr_toTree object))
        (fillEntries_of_fill ⟨"property", .text⟩ rfl rfl rfl rfl)) rfl
  | .array elements =>
    toExpr_record .array rfl rfl
      (fillEntries_of_fill ⟨"elements", .exprs⟩ rfl rfl
        (fill_exprs _ (toExprs_toTrees elements)) rfl) rfl

theorem toExprs_holeTrees : ∀ l : Literal Expr,
    Datum.toExprs (Tree.toData (Expr.holeTrees l)) = .ok l.placeholders
  | .text _ => rfl
  | .hole _ p rest => by
    simp only [Expr.holeTrees, Tree.toData, Datum.toExprs, toExpr_toTree p, toExprs_holeTrees rest]
    rfl

theorem toExprs_toTrees : ∀ es : List Expr, Datum.toExprs (Tree.toData (Expr.toTrees es)) = .ok es
  | [] => rfl
  | e :: rest => by
    simp only [Expr.toTrees, Tree.toData, Datum.toExprs, toExpr_toTree e, toExprs_toTrees rest]
    rfl
end

/-! ### Programs -/

mutual
theorem isReadable_toDatum (limit : Nat) : ∀ t : Tree,
    t.toDatum.isReadable limit = true ↔ t.toDatum.depth ≤ limit
  | .null | .text _ => by cases limit <;> simp [Tree.toDatum, Datum.isReadable, Datum.depth]
  | .list items => by
    cases limit with
    | zero => simp [Tree.toDatum, Datum.isReadable, Datum.depth]
    | succ limit =>
      simp [Tree.toDatum, Datum.isReadable, Datum.depth, areReadable_toData limit items]
  | .record fields => by
    cases limit with
    | zero => simp [Tree.toDatum, Datum.isReadable, Datum.depth]
    | succ limit =>
      simp [Tree.toDatum, Datum.isReadable, Datum.depth, entriesReadable_toEntries limit fields]

theorem areReadable_toData (limit : Nat) : ∀ items : List Tree,
    Datum.areReadable limit (Tree.toData items) = true ↔
      Datum.depthList (Tree.toData items) ≤ limit
  | [] => by simp [Tree.toData, Datum.areReadable, Datum.depthList]
  | item :: rest => by
    rw [Tree.toData, Datum.areReadable, Datum.depthList, Bool.and_eq_true, Nat.max_le,
      isReadable_toDatum limit item, areReadable_toData limit rest]

theorem entriesReadable_toEntries (limit : Nat) : ∀ fields : List (String × Tree),
    Datum.entriesReadable limit (Tree.toEntries fields) = true ↔
      Datum.depthEntries (Tree.toEntries fields) ≤ limit
  | [] => by simp [Tree.toEntries, Datum.entriesReadable, Datum.depthEntries]
  | (name, item) :: rest => by
    have hkey : (Key.text name != .unreadable) = true := by simp
    rw [Tree.toEntries, Datum.entriesReadable, Datum.depthEntries, hkey, Bool.true_and,
      Bool.and_eq_true, Nat.max_le, isReadable_toDatum limit item,
      entriesReadable_toEntries limit rest]
end

theorem toOuterExpr_toTree (e : Expr) : e.toTree.toDatum.toOuterExpr = .ok e := by
  have h : e.toTree.toDatum.numbersKind = false := by cases e <;> rfl
  rw [Datum.toOuterExpr, h]
  exact toExpr_toTree e

theorem toBody_toTrees (es : List Expr) :
    Datum.toBody (Tree.toData (Expr.toTrees es)) = .ok es := by
  induction es with
  | nil => rfl
  | cons e rest ih =>
    simp only [Expr.toTrees, Tree.toData, Datum.toBody, toOuterExpr_toTree, ih]
    rfl

/-- A program is read back from what it is written as, exactly as far as the limit on nesting
goes. -/
theorem ofDatum_toTree (limit : Nat) (p : Program) :
    Program.ofDatum (limit + 1) p.toTree.toDatum =
      if p.toTree.toDatum.depth ≤ limit + 1 then .ok p else .error .mismatch := by
  have hread := isReadable_toDatum limit (.list (Expr.toTrees p.body))
  simp only [Tree.toDatum] at hread
  have hdepth : p.toTree.toDatum.depth =
      (Datum.list (Tree.toData (Expr.toTrees p.body))).depth + 1 := by
    simp [Program.toTree, Tree.toDatum, Tree.toEntries, Datum.depth, Datum.depthEntries]
  have hbody : Program.ofDatum (limit + 1) p.toTree.toDatum =
      (Datum.list (Tree.toData (Expr.toTrees p.body))).toProgram limit := rfl
  rw [hdepth, hbody, Datum.toProgram, toBody_toTrees]
  simp only [hread, Nat.add_le_add_iff_right]
  rfl

end OverDelimited
