import OverDelimited.Pipeline
import OverDelimited.Proofs.Decoding

/-!
# Nodes read field by field

What a datum is read as is decided by the place at which it stands.  `Place.parts` gives the parts
of a datum with their places, by key in a record and by position in a list.  A record is read by
entering its entries one after another (`toOption_fillEntries`), and entries may be entered in any
order (`foldlM_enter_perm`).  Which of several errors is met first is left aside here: two readings
are compared as options.
-/

namespace OverDelimited

/-! ### Places -/

/-- What a datum is read as. -/
inductive Place where
  | program
  | expr
  | exprs
  | literal
  | segments
  | segment
  /-- Text at most; a list or a record is not looked into. -/
  | other
deriving DecidableEq, Repr

namespace Place

/-- The place of a field's value. -/
def ofRole : Role → Place
  | .text | .cooked => other
  | .expr => expr
  | .exprs => exprs
  | .segments => segments
  | .literal => literal

/-- The fields of the node that a datum is read as. -/
def fields : Place → Datum → List Field
  | program, _ => [⟨"body", .exprs⟩]
  | expr, .record es => (Kind.ofEntries es).toOption.elim [] Kind.fields
  | expr, .list (first :: _) => (Kind.ofDatum first).toOption.elim [] Kind.fields
  | literal, _ => Field.ofLiteral
  | segment, _ => Field.ofSegment
  | _, _ => []

/-- The place of the value that stands under a key of a record. -/
def atKey (place : Place) (es : List (Key × Datum)) (key : Key) : Place :=
  match Field.named? (place.fields (.record es)) key with
  | .ok (some field) => ofRole field.role
  | _ => other

/-- The place of an item of a list. -/
def atIndex (place : Place) (items : List Datum) (i : Nat) : Place :=
  match place, i with
  | exprs, _ => expr
  | segments, _ => segment
  | expr, 0 => other
  | expr, i + 1 => ((expr.fields (.list items))[i]?).elim other fun field => ofRole field.role
  | place, i => ((place.fields (.list items))[i]?).elim other fun field => ofRole field.role

/-- The parts of a datum and the places at which they stand. -/
def parts (place : Place) : Datum → List (Place × Datum)
  | .record es => es.map fun (key, d) => (place.atKey es key, d)
  | .list items => items.zipIdx.map fun (d, i) => (place.atIndex items i, d)
  | _ => []

end Place

/-! ### Results without their errors -/

section Results

variable {α β ε ε' : Type}

theorem toOption_map (f : α → β) (x : Except ε α) : (x.map f).toOption = x.toOption.map f := by
  cases x <;> rfl

theorem toOption_mapError (f : ε → ε') (x : Except ε α) : (x.mapError f).toOption = x.toOption := by
  cases x <;> rfl

theorem toOption_eq_some_iff {x : Except ε α} {a : α} : x.toOption = some a ↔ x = .ok a := by
  cases x <;> simp [Except.toOption]

end Results

/-! ### Entering entries -/

namespace Slots

/-- The fields of the second on top of those of the first. -/
def merge (slots v : Slots) : Slots where
  text := v.text.or slots.text
  cooked := v.cooked.or slots.cooked
  expr := v.expr.or slots.expr
  exprs := v.exprs.or slots.exprs
  segments := v.segments.or slots.segments
  literal := v.literal.or slots.literal

theorem has_merge (slots v : Slots) (role : Role) :
    (slots.merge v).has role = (v.has role || slots.has role) := by
  cases role <;> simp [merge, has]

/-- The value of a field of the given role, alone. -/
def read (role : Role) (d : Datum) : Option Slots :=
  (Slots.fill {} role d).toOption

theorem toOption_fill (slots : Slots) (role : Role) (d : Datum) :
    (slots.fill role d).toOption = (read role d).map slots.merge := by
  cases role with
  | text | cooked => cases d <;> simp [read, fill, merge, Except.toOption]
  | expr | literal => simp [read, fill, toOption_map, Function.comp_def, merge]
  | exprs | segments =>
    cases d with
    | list items => simp [read, fill, toOption_map, Function.comp_def, merge]
    | _ => rfl

/-- Reading the value of a field fills this field and no other. -/
theorem has_of_read {role : Role} {d : Datum} {v : Slots} (h : read role d = some v) (r : Role) :
    v.has r = decide (r = role) := by
  rw [read, toOption_eq_some_iff] at h
  cases role with
  | text | cooked => cases d <;> cases h <;> cases r <;> rfl
  | expr =>
    rw [fill] at h
    cases hd : d.toExpr <;> rw [hd] at h <;> cases h
    cases r <;> rfl
  | literal =>
    rw [fill] at h
    cases hd : d.toLiteral <;> rw [hd] at h <;> cases h
    cases r <;> rfl
  | exprs =>
    cases d with
    | list items =>
      rw [fill] at h
      cases hd : Datum.toExprs items <;> rw [hd] at h <;> cases h
      cases r <;> rfl
    | _ => cases h
  | segments =>
    cases d with
    | list items =>
      rw [fill] at h
      cases hd : Datum.toSegments items <;> rw [hd] at h <;> cases h
      cases r <;> rfl
    | _ => cases h

theorem merge_comm (slots : Slots) {v w : Slots}
    (h : ∀ role, v.has role = false ∨ w.has role = false) :
    (slots.merge v).merge w = (slots.merge w).merge v := by
  have hor : ∀ {α : Type} {a b : Option α} (c : Option α), a.isSome = false ∨ b.isSome = false →
      b.or (a.or c) = a.or (b.or c) := by
    intro α a b c hab
    cases a <;> cases b <;> simp_all
  simp only [merge, Slots.mk.injEq]
  exact ⟨hor _ (h .text), hor _ (h .cooked), hor _ (h .expr), hor _ (h .exprs),
    hor _ (h .segments), hor _ (h .literal)⟩

/-- The fields read so far and the value of one more, which must be new. -/
def add (slots : Slots) (role : Role) (d : Datum) : Option Slots :=
  if slots.has role then none else (read role d).map slots.merge

theorem add_comm (slots : Slots) (f g : Role) (d d' : Datum) :
    (slots.add f d).bind (fun s => s.add g d') = (slots.add g d').bind fun s => s.add f d := by
  cases hf : read f d with
  | none => cases hg : read g d' <;> simp [add, hf, hg]
  | some v =>
    cases hg : read g d' with
    | none => simp [add, hf, hg]
    | some w =>
      have hv := has_of_read hf
      have hw := has_of_read hg
      by_cases hroles : f = g
      · -- the second value for a field is refused
        subst hroles
        by_cases hs : slots.has f = true <;> simp [add, hf, hg, has_merge, hv, hw, hs]
      · have hcomm : (slots.merge v).merge w = (slots.merge w).merge v := by
          refine merge_comm slots fun role => ?_
          simp only [hv, hw, decide_eq_false_iff_not]
          by_cases hr : role = f
          · exact .inr fun hg => hroles (hr.symm.trans hg)
          · exact .inl hr
        by_cases hsf : slots.has f = true <;> by_cases hsg : slots.has g = true <;>
          simp [add, hf, hg, has_merge, hv, hw, hsf, hsg, hcomm, hroles, Ne.symm hroles]

/-- The fields read so far and one more entry, unless the entry is refused. -/
def enter (fields : List Field) (slots : Slots) (entry : Key × Datum) : Option Slots :=
  match Field.named? fields entry.1 with
  | .error _ => none
  | .ok none => some slots
  | .ok (some field) => slots.add field.role entry.2

theorem enter_of_unknown {fields : List Field} {entry : Key × Datum}
    (h : Field.named? fields entry.1 = .ok none) (slots : Slots) :
    slots.enter fields entry = some slots := by
  rw [enter, h]

theorem enter_comm (fields : List Field) (slots : Slots) (a b : Key × Datum) :
    (slots.enter fields a).bind (fun s => s.enter fields b) =
      (slots.enter fields b).bind fun s => s.enter fields a := by
  simp only [enter]
  cases Field.named? fields a.1 with
  | error e => simp
  | ok f =>
    cases Field.named? fields b.1 with
    | error e => simp
    | ok g =>
      cases f with
      | none => cases g <;> simp
      | some f =>
        cases g with
        | none => simp
        | some g => exact add_comm slots f.role g.role a.2 b.2

theorem foldlM_enter_perm (fields : List Field) {es es' : List (Key × Datum)} (h : es.Perm es')
    (slots : Slots) : es.foldlM (enter fields) slots = es'.foldlM (enter fields) slots := by
  induction h generalizing slots with
  | nil => rfl
  | cons e _ ih =>
    rw [List.foldlM_cons, List.foldlM_cons]
    exact Option.bind_congr fun s _ => ih s
  | swap a b es =>
    simp only [List.foldlM_cons, Option.bind_eq_bind, ← Option.bind_assoc,
      enter_comm fields slots b a]
  | trans _ _ ih ih' => exact (ih slots).trans (ih' slots)

end Slots

/-! ### Records and lists of fields -/

theorem toOption_fillEntries_cons (fields : List Field) (slots : Slots) (key : Key) (d : Datum)
    (rest : List (Key × Datum)) :
    (Datum.fillEntries fields slots ((key, d) :: rest)).toOption =
      (slots.enter fields (key, d)).bind fun s => (Datum.fillEntries fields s rest).toOption := by
  rw [Datum.fillEntries, Slots.enter]
  cases Field.named? fields key with
  | error e => rfl
  | ok f =>
    cases f with
    | none => rfl
    | some f =>
      simp only [Slots.add]
      cases hs : slots.has f.role with
      | true => rfl
      | false =>
        simp only [Bool.false_eq_true, if_false, ← Slots.toOption_fill]
        obtain ⟨name, role⟩ := f
        cases role with
        | text | cooked => cases d <;> rfl
        | expr =>
          simp only [Slots.fill]
          cases d.toExpr <;> rfl
        | literal =>
          simp only [Slots.fill]
          cases d.toLiteral <;> rfl
        | exprs =>
          cases d with
          | list items =>
            simp only [Slots.fill]
            cases Datum.toExprs items <;> rfl
          | _ => rfl
        | segments =>
          cases d with
          | list items =>
            simp only [Slots.fill]
            cases Datum.toSegments items <;> rfl
          | _ => rfl

theorem toOption_fillEntries (fields : List Field) (slots : Slots) (es : List (Key × Datum)) :
    (Datum.fillEntries fields slots es).toOption = es.foldlM (Slots.enter fields) slots := by
  induction es generalizing slots with
  | nil =>
    rw [Datum.fillEntries]
    rfl
  | cons e rest ih =>
    rw [toOption_fillEntries_cons, List.foldlM_cons]
    exact Option.bind_congr fun s _ => ih s

theorem toOption_fillItems_cons (field : Field) (fields : List Field) (slots : Slots) (d : Datum)
    (rest : List Datum) :
    (Datum.fillItems (field :: fields) slots (d :: rest)).toOption =
      ((Slots.read field.role d).map slots.merge).bind fun s =>
        (Datum.fillItems fields s rest).toOption := by
  rw [← Slots.toOption_fill]
  obtain ⟨name, role⟩ := field
  cases role with
  | text | cooked => cases d <;> simp only [Datum.fillItems, Slots.fill] <;> rfl
  | expr =>
    simp only [Datum.fillItems, Slots.fill]
    cases d.toExpr <;> rfl
  | literal =>
    simp only [Datum.fillItems, Slots.fill]
    cases d.toLiteral <;> rfl
  | exprs =>
    cases d with
    | list items =>
      simp only [Datum.fillItems, Slots.fill]
      cases Datum.toExprs items <;> rfl
    | _ =>
      simp only [Datum.fillItems, Slots.fill]
      rfl
  | segments =>
    cases d with
    | list items =>
      simp only [Datum.fillItems, Slots.fill]
      cases Datum.toSegments items <;> rfl
    | _ =>
      simp only [Datum.fillItems, Slots.fill]
      rfl

/-! ### Nodes -/

theorem toOption_toExpr_record (es : List (Key × Datum)) :
    (Datum.record es).toExpr.toOption =
      (Kind.ofEntries es).toOption.bind fun kind =>
        (es.foldlM (Slots.enter kind.fields) {}).bind fun slots =>
          (slots.toExpr kind).toOption := by
  rw [Datum.toExpr]
  cases Kind.ofEntries es with
  | error e => rfl
  | ok kind =>
    simp only [← toOption_fillEntries]
    show _ = (Datum.fillEntries kind.fields {} es).toOption.bind fun slots =>
      (slots.toExpr kind).toOption
    cases Datum.fillEntries kind.fields {} es <;> rfl

theorem toOption_toExpr_list (first : Datum) (items : List Datum) :
    (Datum.list (first :: items)).toExpr.toOption =
      (Kind.ofDatum first).toOption.bind fun kind =>
        (Datum.fillItems kind.fields {} items).toOption.bind fun slots =>
          (slots.toExpr kind).toOption := by
  rw [Datum.toExpr]
  cases Kind.ofDatum first with
  | error e => rfl
  | ok kind =>
    dsimp only
    show _ = (Datum.fillItems kind.fields {} items).toOption.bind fun slots =>
      (slots.toExpr kind).toOption
    cases Datum.fillItems kind.fields {} items with
    | error e => rfl
    | ok slots => exact toOption_mapError _ _

theorem toOption_toLiteral_record (es : List (Key × Datum)) :
    (Datum.record es).toLiteral.toOption =
      (es.foldlM (Slots.enter Field.ofLiteral) {}).bind fun slots => slots.toLiteral.toOption := by
  rw [Datum.toLiteral, ← toOption_fillEntries]
  cases Datum.fillEntries Field.ofLiteral {} es <;> rfl

theorem toOption_toLiteral_list (items : List Datum) :
    (Datum.list items).toLiteral.toOption =
      (Datum.fillItems Field.ofLiteral {} items).toOption.bind fun slots =>
        slots.toLiteral.toOption := by
  rw [Datum.toLiteral]
  cases Datum.fillItems Field.ofLiteral {} items with
  | error e => rfl
  | ok slots => exact toOption_mapError _ _

theorem toOption_toSegment_record (es : List (Key × Datum)) :
    (Datum.record es).toSegment.toOption =
      (es.foldlM (Slots.enter Field.ofSegment) {}).bind fun slots => slots.toSegment.toOption := by
  rw [Datum.toSegment, ← toOption_fillEntries]
  cases Datum.fillEntries Field.ofSegment {} es <;> rfl

theorem toOption_toSegment_list (items : List Datum) :
    (Datum.list items).toSegment.toOption =
      (Datum.fillItems Field.ofSegment {} items).toOption.bind fun slots =>
        slots.toSegment.toOption := by
  rw [Datum.toSegment]
  cases Datum.fillItems Field.ofSegment {} items with
  | error e => rfl
  | ok slots => exact toOption_mapError _ _

/-! ### Lists of nodes -/

theorem toOption_toExprs (items : List Datum) :
    (Datum.toExprs items).toOption = items.mapM fun d => d.toExpr.toOption := by
  induction items with
  | nil => rfl
  | cons d rest ih =>
    rw [Datum.toExprs, List.mapM_cons, ← ih]
    cases d.toExpr with
    | error e => rfl
    | ok e => cases Datum.toExprs rest <;> rfl

theorem toOption_toSegments (items : List Datum) :
    (Datum.toSegments items).toOption = items.mapM fun d => d.toSegment.toOption := by
  induction items with
  | nil => rfl
  | cons d rest ih =>
    rw [Datum.toSegments, List.mapM_cons, ← ih]
    cases d.toSegment with
    | error e => rfl
    | ok s => cases Datum.toSegments rest <;> rfl

theorem toOption_toBody (items : List Datum) :
    (Datum.toBody items).toOption = items.mapM fun d => d.toOuterExpr.toOption := by
  induction items with
  | nil => rfl
  | cons d rest ih =>
    rw [Datum.toBody, List.mapM_cons, ← ih]
    cases d.toOuterExpr with
    | error e => rfl
    | ok e => cases Datum.toBody rest <;> rfl

/-! ### Programs -/

/-- What the one member of a list gives, or what is given for no member or for several. -/
def sole {α β : Type} (empty : β) (one : α → β) (several : β) : List α → β
  | [] => empty
  | [a] => one a
  | _ => several

section Sole

variable {α β : Type} {empty several : β} {one : α → β}

theorem sole_perm {xs ys : List α} (h : xs.Perm ys) :
    sole empty one several xs = sole empty one several ys := by
  match xs, ys with
  | [], [] => rfl
  | [x], [y] => rw [List.singleton_perm_singleton.mp h]
  | _ :: _ :: _, _ :: _ :: _ => rfl
  | [], _ :: _ | [_], [] | [_], _ :: _ :: _ | _ :: _ :: _, [] | _ :: _ :: _, [_] =>
    exact absurd h.length_eq (by simp)

theorem sole_congr {x y : α} (h : one x = one y) (before after : List α) :
    sole empty one several (before ++ x :: after) =
      sole empty one several (before ++ y :: after) := by
  match before, after with
  | [], [] => exact h
  | [], _ :: _ => rfl
  | [_], _ => rfl
  | _ :: _ :: _, _ => rfl

end Sole

theorem ofEntries_eq_sole (es : List (Key × Datum)) :
    Kind.ofEntries es =
      sole (.error (.missing "type")) Kind.ofDatum (.error (.duplicate "type"))
        (Kind.entries es) := by
  rw [Kind.ofEntries]
  rcases Kind.entries es with _ | ⟨d, _ | ⟨d', rest⟩⟩ <;> rfl

def Key.isText : Key → Bool
  | .text _ => true
  | _ => false

@[simp]
theorem Key.isText_text (name : String) : (Key.text name).isText = true := rfl

namespace Datum

/-- The expressions of a list that is the body of a program. -/
def outerExprs : Datum → Option (List Expr)
  | list items => items.mapM fun d => d.toOuterExpr.toOption
  | _ => none

/-- The values under the key of a program's body. -/
def bodyValues (es : List (Key × Datum)) : List Datum :=
  (es.filter fun e => e.1 == .text "body").map Prod.snd

/-- The body of a program, however deep it is nested. -/
def programBody : Datum → Option (List Expr)
  | record es =>
    if es.all fun e => e.1.isText then sole (some []) outerExprs none (bodyValues es) else none
  | list [] => some []
  | list [body] => body.outerExprs
  | _ => none

end Datum

theorem toOption_bodies (es : List (Key × Datum)) :
    (Program.bodies es).toOption =
      if es.all fun e => e.1.isText then some (Datum.bodyValues es) else none := by
  induction es with
  | nil => rfl
  | cons e rest ih =>
    obtain ⟨key, d⟩ := e
    cases key with
    | text name =>
      rw [Program.bodies]
      by_cases hname : name = "body"
      · rw [if_pos hname, toOption_map, ih]
        by_cases hall : rest.all fun e => e.1.isText <;> simp [Datum.bodyValues, hname, hall]
      · rw [if_neg hname, ih]
        by_cases hall : rest.all fun e => e.1.isText <;> simp [Datum.bodyValues, hname, hall]
    | _ => rfl

theorem toProgram_eq_ok_iff {limit : Nat} {body : Datum} {p : Program} :
    body.toProgram limit = .ok p ↔
      body.outerExprs = some p.body ∧ body.isReadable limit = true := by
  obtain ⟨exprs⟩ := p
  cases body with
  | list items =>
    rw [Datum.toProgram, Datum.outerExprs, ← toOption_toBody]
    by_cases hr : (Datum.list items).isReadable limit = true
    · cases hb : Datum.toBody items <;> simp [hr, Except.map, Except.toOption]
    · simp [hr]
  | _ => simp [Datum.toProgram, Datum.outerExprs]

theorem mem_bodyValues {es : List (Key × Datum)} {body : Datum} :
    body ∈ Datum.bodyValues es ↔ (.text "body", body) ∈ es := by
  simp [Datum.bodyValues]

theorem atKey_program (es : List (Key × Datum)) (name : String) :
    Place.program.atKey es (.text name) = if name = "body" then .exprs else .other := by
  by_cases h : name = "body"
  · subst h
    rfl
  · have hname : ("body" == name) = false := by simpa using Ne.symm h
    simp [Place.atKey, Place.fields, Field.named?, hname, h]

theorem mem_parts_program_iff {es : List (Key × Datum)} (h : es.all (fun e => e.1.isText) = true)
    {body : Datum} :
    (.exprs, body) ∈ Place.program.parts (.record es) ↔ body ∈ Datum.bodyValues es := by
  rw [mem_bodyValues, Place.parts, List.mem_map]
  constructor
  · intro hmem
    obtain ⟨⟨key, d⟩, he, heq⟩ := hmem
    obtain ⟨hplace, rfl⟩ := Prod.mk.inj heq
    have hkey := List.all_eq_true.mp h _ he
    cases key with
    | text name =>
      rw [atKey_program] at hplace
      split at hplace
      · next hname => exact hname ▸ he
      · cases hplace
    | _ => cases hkey
  · intro he
    exact ⟨(.text "body", body), he, rfl⟩

/-- A program is read exactly if its body is read and is not nested too deep. -/
theorem ofDatum_eq_ok_iff {limit : Nat} {d : Datum} {p : Program} :
    Program.ofDatum limit d = .ok p ↔
      d.programBody = some p.body ∧
        ∀ body, (.exprs, body) ∈ Place.program.parts d → body.isReadable (limit - 1) = true := by
  obtain ⟨exprs⟩ := p
  cases d with
  | record es =>
    have hbodies := toOption_bodies es
    rw [Program.ofDatum, Datum.programBody]
    by_cases hall : es.all (fun e => e.1.isText) = true
    · rw [if_pos hall] at hbodies ⊢
      rw [toOption_eq_some_iff.mp hbodies]
      simp only [mem_parts_program_iff hall]
      rcases Datum.bodyValues es with _ | ⟨body, _ | ⟨other, rest⟩⟩
      · simp [sole]
      · simpa [sole] using toProgram_eq_ok_iff
      · simp [sole]
    · rw [if_neg hall] at hbodies
      cases hb : Program.bodies es with
      | error e => simp [hall]
      | ok bodies =>
        rw [hb] at hbodies
        cases hbodies
  | list items =>
    rcases items with _ | ⟨body, _ | ⟨other, rest⟩⟩
    · simp [Program.ofDatum, Datum.programBody, Place.parts]
    · have hplace : Place.program.atIndex [body] 0 = .exprs := rfl
      simpa [Program.ofDatum, Datum.programBody, Place.parts, hplace] using toProgram_eq_ok_iff
    · simp [Program.ofDatum, Datum.programBody]
  | _ => simp [Program.ofDatum, Datum.programBody]

theorem parse_json_eq_ok_iff {text : String} {d : Datum} (hread : Json.read text.toList = some d)
    {p : Program} :
    Stage.parse .json text = .ok p ↔ Program.ofDatum Json.nestingLimit d = .ok p := by
  simp only [Stage.parse, Format.read, Json.readProgram, hread]
  cases Program.ofDatum Json.nestingLimit d with
  | error e => exact iff_of_false (fun h => by cases h) (fun h => by cases h)
  | ok q => exact ⟨fun h => by cases h; rfl, fun h => by cases h; rfl⟩

end OverDelimited
