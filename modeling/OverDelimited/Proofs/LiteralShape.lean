import Mathlib.Logic.Relation
import OverDelimited.Proofs.FixedPoint
import OverDelimited.Proofs.JsonText
import OverDelimited.Proofs.NodeFields
import OverDelimited.Source

/-!
# The shape of literals

A literal has one segment more than it has placeholders.  `Literal` cannot be built otherwise; this
module is about the places where the two are lists of their own: data, where a literal may be of any
shape and is read only if it is of this one, and code that goes through the parts by index.
-/

namespace OverDelimited

/-! ### Parts that are read -/

section Traversal

variable {α β : Type}

theorem isSome_mapM_iff {f : α → Option β} {xs : List α} :
    (xs.mapM f).isSome = true ↔ ∀ x ∈ xs, (f x).isSome = true := by
  induction xs with
  | nil => simp
  | cons x xs ih =>
    rw [List.mapM_cons, List.forall_mem_cons, ← ih]
    cases f x <;> cases xs.mapM f <;> simp

theorem exists_of_isSome_bind {x : Option α} {f : α → Option β} (h : (x.bind f).isSome = true) :
    ∃ a, x = some a ∧ (f a).isSome = true := by
  cases x with
  | none => cases h
  | some a => exact ⟨a, rfl, h⟩

theorem length_of_mapM {f : α → Option β} {xs : List α} {ys : List β} (h : xs.mapM f = some ys) :
    ys.length = xs.length := by
  induction xs generalizing ys with
  | nil =>
    cases h
    rfl
  | cons x xs ih =>
    rw [List.mapM_cons] at h
    obtain ⟨b, _, hrest⟩ := Option.bind_eq_some_iff.mp h
    obtain ⟨bs, hbs, hys⟩ := Option.bind_eq_some_iff.mp hrest
    cases hys
    rw [List.length_cons, List.length_cons, ih hbs]

end Traversal

/-- Whether a datum can be read at a place, however deep it is nested. -/
def Reads : Place → Datum → Prop
  | .program, d => d.programBody.isSome = true
  | .expr, d => d.toExpr.toOption.isSome = true
  | .exprs, d => (Slots.read .exprs d).isSome = true
  | .literal, d => d.toLiteral.toOption.isSome = true
  | .segments, d => (Slots.read .segments d).isSome = true
  | .segment, d => d.toSegment.toOption.isSome = true
  | .other, _ => True

theorem reads_of_read {role : Role} {d : Datum} (h : (Slots.read role d).isSome = true) :
    Reads (.ofRole role) d := by
  cases role with
  | text | cooked => trivial
  | expr | literal => simpa [Reads, Place.ofRole, Slots.read, Slots.fill, toOption_map] using h
  | exprs | segments => exact h

theorem isSome_read_of_entered {fields : List Field} {slots filled : Slots}
    {es : List (Key × Datum)} (h : es.foldlM (Slots.enter fields) slots = some filled) {key : Key}
    {d : Datum} (hmem : (key, d) ∈ es) {field : Field}
    (hfield : Field.named? fields key = .ok (some field)) :
    (Slots.read field.role d).isSome = true := by
  induction es generalizing slots with
  | nil => cases hmem
  | cons e es ih =>
    rw [List.foldlM_cons] at h
    obtain ⟨next, hnext, hrest⟩ := Option.bind_eq_some_iff.mp h
    rcases List.mem_cons.mp hmem with rfl | hmem
    · simp only [Slots.enter, hfield, Slots.add] at hnext
      split at hnext
      · cases hnext
      · obtain ⟨v, hv, _⟩ := Option.map_eq_some_iff.mp hnext
        rw [hv]
        rfl
    · exact ih hrest hmem

theorem isSome_read_of_item {fields : List Field} {slots filled : Slots} {items : List Datum}
    (h : (Datum.fillItems fields slots items).toOption = some filled) {i : Nat} {d : Datum}
    (hitem : items[i]? = some d) {field : Field} (hfield : fields[i]? = some field) :
    (Slots.read field.role d).isSome = true := by
  induction items generalizing fields slots i with
  | nil => cases hitem
  | cons item items ih =>
    cases fields with
    | nil => cases hfield
    | cons f fields =>
      rw [toOption_fillItems_cons] at h
      obtain ⟨next, hnext, hrest⟩ := Option.bind_eq_some_iff.mp h
      cases i with
      | zero =>
        cases hitem
        cases hfield
        obtain ⟨v, hv, _⟩ := Option.map_eq_some_iff.mp hnext
        rw [hv]
        rfl
      | succ i => exact ih hrest hitem hfield

theorem reads_of_entered {place : Place} {es : List (Key × Datum)} {fields : List Field}
    (hfields : place.fields (.record es) = fields) {slots filled : Slots}
    (h : es.foldlM (Slots.enter fields) slots = some filled) {key : Key} {d : Datum}
    (hmem : (key, d) ∈ es) : Reads (place.atKey es key) d := by
  rw [Place.atKey, hfields]
  split
  · next field hfield => exact reads_of_read (isSome_read_of_entered h hmem hfield)
  · trivial

theorem reads_of_item {fields : List Field} {slots filled : Slots} {items : List Datum}
    (h : (Datum.fillItems fields slots items).toOption = some filled) {i : Nat} {d : Datum}
    (hitem : items[i]? = some d) :
    Reads (fields[i]?.elim .other fun field => .ofRole field.role) d := by
  cases hfield : fields[i]? with
  | none => trivial
  | some field => exact reads_of_read (isSome_read_of_item h hitem hfield)

theorem reads_exprs_of_outerExprs {d : Datum} (h : d.outerExprs.isSome = true) :
    Reads .exprs d := by
  cases d with
  | list items =>
    have hitems := isSome_mapM_iff.mp h
    have hread : (items.mapM fun d : Datum => d.toExpr.toOption).isSome = true := by
      refine isSome_mapM_iff.mpr fun d hd => ?_
      have houter := hitems d hd
      rw [Datum.toOuterExpr] at houter
      split at houter
      · cases houter
      · exact houter
    simpa [Reads, Slots.read, Slots.fill, toOption_map, toOption_toExprs] using hread
  | _ => cases h

theorem reads_of_mem_bodyValues {es : List (Key × Datum)} {d : Datum}
    (h : (sole (some []) Datum.outerExprs none (Datum.bodyValues es)).isSome = true)
    (hmem : d ∈ Datum.bodyValues es) : Reads .exprs d := by
  revert h hmem
  match Datum.bodyValues es with
  | [] => exact fun _ hmem => by cases hmem
  | [body] =>
    intro h hmem
    rw [List.mem_singleton.mp hmem]
    exact reads_exprs_of_outerExprs h
  | _ :: _ :: _ => exact fun h _ => by cases h

/-- The entries of a record that is read are read at their places. -/
theorem reads_of_mem_record {place : Place} {es : List (Key × Datum)}
    (h : Reads place (.record es)) {key : Key} {d : Datum} (hmem : (key, d) ∈ es) :
    Reads (place.atKey es key) d := by
  cases place with
  | program =>
    have hbody : (Datum.record es).programBody.isSome = true := h
    rw [Datum.programBody] at hbody
    split at hbody
    · next hall =>
      have hkey := List.all_eq_true.mp hall _ hmem
      cases key with
      | text name =>
        rw [atKey_program]
        split
        · next hname =>
          subst hname
          exact reads_of_mem_bodyValues hbody (mem_bodyValues.mpr hmem)
        · trivial
      | _ => cases hkey
    · cases hbody
  | expr =>
    have hexpr : (Datum.record es).toExpr.toOption.isSome = true := h
    rw [toOption_toExpr_record] at hexpr
    obtain ⟨kind, hkind, hrest⟩ := exists_of_isSome_bind hexpr
    obtain ⟨slots, hslots, _⟩ := exists_of_isSome_bind hrest
    have hfields : Place.expr.fields (.record es) = kind.fields := by
      rw [Place.fields, hkind]
      rfl
    exact reads_of_entered hfields hslots hmem
  | literal =>
    have hliteral : (Datum.record es).toLiteral.toOption.isSome = true := h
    rw [toOption_toLiteral_record] at hliteral
    obtain ⟨slots, hslots, _⟩ := exists_of_isSome_bind hliteral
    exact reads_of_entered (rfl : Place.literal.fields _ = _) hslots hmem
  | segment =>
    have hsegment : (Datum.record es).toSegment.toOption.isSome = true := h
    rw [toOption_toSegment_record] at hsegment
    obtain ⟨slots, hslots, _⟩ := exists_of_isSome_bind hsegment
    exact reads_of_entered (rfl : Place.segment.fields _ = _) hslots hmem
  | exprs | segments => cases h
  | other =>
    have hplace : Place.other.atKey es key = .other := by
      cases key <;> rfl
    rw [hplace]
    trivial

/-- The items of a list that is read are read at their places. -/
theorem reads_of_mem_list {place : Place} {items : List Datum} (h : Reads place (.list items))
    {i : Nat} {d : Datum} (hitem : items[i]? = some d) : Reads (place.atIndex items i) d := by
  cases place with
  | program =>
    match items, i with
    | [body], 0 =>
      cases hitem
      exact reads_exprs_of_outerExprs h
    | [], _ | [_], _ + 1 => cases hitem
    | _ :: _ :: _, _ => cases h
  | expr =>
    match items, i with
    | [], _ => cases hitem
    | first :: items, 0 => trivial
    | first :: items, i + 1 =>
      have hexpr : (Datum.list (first :: items)).toExpr.toOption.isSome = true := h
      rw [toOption_toExpr_list] at hexpr
      obtain ⟨kind, hkind, hrest⟩ := exists_of_isSome_bind hexpr
      obtain ⟨slots, hslots, _⟩ := exists_of_isSome_bind hrest
      rw [Place.atIndex, Place.fields, hkind]
      exact reads_of_item hslots hitem
  | exprs =>
    have hexprs : (items.mapM fun d : Datum => d.toExpr.toOption).isSome = true := by
      simpa [Reads, Slots.read, Slots.fill, toOption_map, toOption_toExprs] using h
    exact isSome_mapM_iff.mp hexprs d (List.mem_of_getElem? hitem)
  | segments =>
    have hsegments : (items.mapM fun d : Datum => d.toSegment.toOption).isSome = true := by
      simpa [Reads, Slots.read, Slots.fill, toOption_map, toOption_toSegments] using h
    exact isSome_mapM_iff.mp hsegments d (List.mem_of_getElem? hitem)
  | literal =>
    have hliteral : (Datum.list items).toLiteral.toOption.isSome = true := h
    rw [toOption_toLiteral_list] at hliteral
    obtain ⟨slots, hslots, _⟩ := exists_of_isSome_bind hliteral
    exact reads_of_item hslots hitem
  | segment =>
    have hsegment : (Datum.list items).toSegment.toOption.isSome = true := h
    rw [toOption_toSegment_list] at hsegment
    obtain ⟨slots, hslots, _⟩ := exists_of_isSome_bind hsegment
    exact reads_of_item hslots hitem
  | other => trivial

theorem reads_of_mem_parts {a b : Place} {d v : Datum} (h : Reads a d)
    (hpart : (b, v) ∈ a.parts d) : Reads b v := by
  cases d with
  | record es =>
    obtain ⟨⟨key, d⟩, hmem, heq⟩ := List.mem_map.mp hpart
    cases heq
    exact reads_of_mem_record h hmem
  | list items =>
    obtain ⟨⟨d, i⟩, hmem, heq⟩ := List.mem_map.mp hpart
    cases heq
    exact reads_of_mem_list h (List.mem_zipIdx_iff_getElem?.mp hmem)
  | _ => cases hpart

/-- Whether the second datum stands in the first, at whatever depth, with the places of both. -/
def Occurs : Place × Datum → Place × Datum → Prop :=
  Relation.ReflTransGen fun whole part => part ∈ whole.1.parts whole.2

theorem reads_of_occurs {x y : Place × Datum} (h : Occurs x y) (hx : Reads x.1 x.2) :
    Reads y.1 y.2 := by
  induction h with
  | refl => exact hx
  | tail _ hpart ih => exact reads_of_mem_parts ih hpart

/-! ### Counts -/

section Parts

variable {α : Type} {ss : List Segment} {ps : List α} {l : Literal α}

theorem parts_of_interleave (h : Literal.interleave ss ps = some l) :
    l.segments = ss ∧ l.placeholders = ps := by
  induction ss generalizing ps l with
  | nil => cases h
  | cons s ss ih =>
    cases ps with
    | nil =>
      cases ss with
      | nil =>
        cases h
        exact ⟨rfl, rfl⟩
      | cons _ _ => cases h
    | cons p ps =>
      rw [Literal.interleave] at h
      obtain ⟨rest, hrest, rfl⟩ := Option.map_eq_some_iff.mp h
      obtain ⟨hss, hps⟩ := ih hrest
      exact ⟨congrArg (s :: ·) hss, congrArg (p :: ·) hps⟩

theorem length_of_interleave (h : Literal.interleave ss ps = some l) :
    ss.length = ps.length + 1 := by
  obtain ⟨rfl, rfl⟩ := parts_of_interleave h
  exact l.length_segments

theorem exists_interleave (h : ss.length = ps.length + 1) :
    ∃ l, Literal.interleave ss ps = some l := by
  induction ps generalizing ss with
  | nil =>
    obtain ⟨s, rfl⟩ := List.length_eq_one_iff.mp h
    exact ⟨.text s, rfl⟩
  | cons p ps ih =>
    cases ss with
    | nil => cases h
    | cons s ss =>
      obtain ⟨rest, hrest⟩ := ih (Nat.succ.inj h)
      exact ⟨.hole s p rest, by rw [Literal.interleave, hrest, Option.map_some]⟩

/-- Two lists make a literal exactly if they are its parts. -/
theorem ofParts_eq_ok_iff :
    Literal.ofParts ss ps = .ok l ↔ l.segments = ss ∧ l.placeholders = ps := by
  constructor
  · intro h
    cases hl : Literal.interleave ss ps with
    | none =>
      rw [Literal.ofParts, hl] at h
      cases h
    | some m =>
      rw [Literal.ofParts, hl] at h
      cases h
      exact parts_of_interleave hl
  · rintro ⟨rfl, rfl⟩
    rw [Literal.ofParts, Literal.interleave_parts]

/-- Two lists are refused, with their lengths, exactly if they are not of the shape. -/
theorem ofParts_eq_error_iff :
    Literal.ofParts ss ps = .error ⟨ss.length, ps.length⟩ ↔ ss.length ≠ ps.length + 1 := by
  constructor
  · intro h hlen
    obtain ⟨l, hl⟩ := exists_interleave hlen
    rw [Literal.ofParts, hl] at h
    cases h
  · intro hlen
    cases hl : Literal.interleave ss ps with
    | none => rw [Literal.ofParts, hl]
    | some l => exact absurd (length_of_interleave hl) hlen

end Parts

/-- The items of a list. -/
def Datum.items : Datum → List Datum
  | .list items => items
  | _ => []

/-- The items in those parts of a datum that stand at the second place. -/
def Place.items (a : Place) (d : Datum) (b : Place) : List Datum :=
  (a.parts d).flatMap fun part => if part.1 = b then part.2.items else []

/-- How many segments or expressions have been read. -/
def Slots.count (slots : Slots) : Role → Nat
  | .segments => slots.segments.elim 0 List.length
  | .exprs => slots.exprs.elim 0 List.length
  | _ => 0

theorem count_of_toLiteral {slots : Slots} (h : slots.toLiteral.toOption.isSome = true) :
    slots.count .segments = slots.count .exprs + 1 := by
  rw [Slots.toLiteral] at h
  cases hs : slots.segments with
  | none =>
    rw [hs] at h
    cases h
  | some ss =>
    have hparts : (Literal.ofParts ss (slots.exprs.getD [])).toOption.isSome = true := by
      rw [hs] at h
      exact (congrArg Option.isSome (toOption_mapError _ _)).symm.trans h
    cases hl : Literal.interleave ss (slots.exprs.getD []) with
    | none =>
      rw [Literal.ofParts, hl] at hparts
      cases hparts
    | some l =>
      have hlen := length_of_interleave hl
      cases he : slots.exprs <;> simpa [Slots.count, hs, he] using hlen

theorem count_of_not_has {slots : Slots} {r : Role} (h : slots.has r = false) :
    slots.count r = 0 := by
  cases r with
  | segments | exprs =>
    simp only [Slots.has, Option.isSome_eq_false_iff, Option.isNone_iff_eq_none] at h
    rw [Slots.count, h]
    rfl
  | _ => rfl

theorem count_empty (r : Role) : ({} : Slots).count r = 0 :=
  count_of_not_has (by cases r <;> rfl)

theorem count_merge {slots v : Slots} {r : Role} (h : slots.has r = false ∨ v.has r = false) :
    (slots.merge v).count r = slots.count r + v.count r := by
  have hor : ∀ {α : Type} {x y : Option (List α)}, x.isSome = false ∨ y.isSome = false →
      (y.or x).elim 0 List.length = x.elim 0 List.length + y.elim 0 List.length := by
    intro α x y hxy
    cases x <;> cases y <;> simp_all
  cases r with
  | segments => exact hor h
  | exprs => exact hor h
  | _ => rfl

section Counted

variable {r : Role} (hr : r = .segments ∨ r = .exprs)

include hr

theorem ofRole_eq_iff {role : Role} : Place.ofRole role = .ofRole r ↔ role = r := by
  rcases hr with rfl | rfl <;> cases role <;> decide

theorem other_ne_ofRole : Place.other ≠ .ofRole r := by
  rcases hr with rfl | rfl <;> decide

theorem count_of_read_self {d : Datum} {v : Slots} (h : Slots.read r d = some v) :
    v.count r = d.items.length := by
  rcases hr with rfl | rfl
  · cases d with
    | list items =>
      simp only [Slots.read, Slots.fill, toOption_map, toOption_toSegments] at h
      obtain ⟨ss, hss, rfl⟩ := Option.map_eq_some_iff.mp h
      exact length_of_mapM hss
    | _ => cases h
  · cases d with
    | list items =>
      simp only [Slots.read, Slots.fill, toOption_map, toOption_toExprs] at h
      obtain ⟨es, hes, rfl⟩ := Option.map_eq_some_iff.mp h
      exact length_of_mapM hes
    | _ => cases h

theorem count_merge_read {slots v : Slots} {role : Role} {d : Datum}
    (hnew : slots.has role = false) (h : Slots.read role d = some v) :
    (slots.merge v).count r =
      slots.count r + (if Place.ofRole role = .ofRole r then d.items else []).length := by
  have hhas := Slots.has_of_read h r
  by_cases hrole : role = r
  · subst hrole
    rw [count_merge (.inl hnew), if_pos rfl, count_of_read_self hr h]
  · rw [decide_eq_false (Ne.symm hrole)] at hhas
    have hplace : Place.ofRole role ≠ .ofRole r := fun heq => hrole ((ofRole_eq_iff hr).mp heq)
    rw [count_merge (.inr hhas), count_of_not_has hhas, if_neg hplace]
    rfl

theorem count_enter {place : Place} {es : List (Key × Datum)} {fields : List Field}
    (hfields : place.fields (.record es) = fields) {slots next : Slots} {key : Key} {d : Datum}
    (h : slots.enter fields (key, d) = some next) :
    next.count r =
      slots.count r + (if place.atKey es key = .ofRole r then d.items else []).length := by
  rw [Place.atKey, hfields]
  simp only [Slots.enter] at h
  cases hnamed : Field.named? fields key with
  | error e =>
    rw [hnamed] at h
    cases h
  | ok field =>
    rw [hnamed] at h
    cases field with
    | none =>
      cases h
      simp [other_ne_ofRole hr]
    | some field =>
      simp only [Slots.add] at h
      split at h
      · cases h
      · next hnew =>
        obtain ⟨v, hv, rfl⟩ := Option.map_eq_some_iff.mp h
        exact count_merge_read hr (by simpa using hnew) hv

theorem count_entered {place : Place} {es : List (Key × Datum)} {fields : List Field}
    (hfields : place.fields (.record es) = fields) {rest : List (Key × Datum)}
    {slots filled : Slots} (h : rest.foldlM (Slots.enter fields) slots = some filled) :
    filled.count r = slots.count r +
      (rest.flatMap fun e => if place.atKey es e.1 = .ofRole r then e.2.items else []).length := by
  induction rest generalizing slots with
  | nil =>
    cases h
    rfl
  | cons e rest ih =>
    rw [List.foldlM_cons] at h
    obtain ⟨next, hnext, hrest⟩ := Option.bind_eq_some_iff.mp h
    rw [ih hrest, count_enter hr hfields hnext, List.flatMap_cons, List.length_append,
      Nat.add_assoc]

theorem length_items_record {place : Place} {es : List (Key × Datum)} {fields : List Field}
    (hfields : place.fields (.record es) = fields) {slots : Slots}
    (h : es.foldlM (Slots.enter fields) {} = some slots) :
    (place.items (.record es) (.ofRole r)).length = slots.count r := by
  rw [count_entered hr hfields h, count_empty, Nat.zero_add, Place.items, Place.parts,
    List.flatMap_map]

theorem length_items_list {items : List Datum} {slots : Slots}
    (h : (Datum.fillItems Field.ofLiteral {} items).toOption = some slots) :
    (Place.literal.items (.list items) (.ofRole r)).length = slots.count r := by
  match items with
  | [] =>
    cases h
    exact (count_empty r).symm
  | [x] =>
    rw [Field.ofLiteral, toOption_fillItems_cons] at h
    obtain ⟨next, hnext, hrest⟩ := Option.bind_eq_some_iff.mp h
    obtain ⟨v, hv, rfl⟩ := Option.map_eq_some_iff.mp hnext
    cases hrest
    have hitems : Place.literal.items (.list [x]) (.ofRole r) =
        (if .segments = Place.ofRole r then x.items else []) ++ [] := rfl
    rw [count_merge_read hr rfl hv, count_empty, Nat.zero_add, hitems, List.append_nil]
    rfl
  | [x, y] =>
    rw [Field.ofLiteral, toOption_fillItems_cons] at h
    obtain ⟨next, hnext, hrest⟩ := Option.bind_eq_some_iff.mp h
    obtain ⟨v, hv, rfl⟩ := Option.map_eq_some_iff.mp hnext
    rw [toOption_fillItems_cons] at hrest
    obtain ⟨last, hlast, hend⟩ := Option.bind_eq_some_iff.mp hrest
    obtain ⟨w, hw, rfl⟩ := Option.map_eq_some_iff.mp hlast
    cases hend
    have hnew : (({} : Slots).merge v).has .exprs = false := by
      rw [Slots.has_merge, Slots.has_of_read hv]
      rfl
    have hitems : Place.literal.items (.list [x, y]) (.ofRole r) =
        (if .segments = Place.ofRole r then x.items else []) ++
          ((if .exprs = Place.ofRole r then y.items else []) ++ []) := rfl
    rw [count_merge_read hr hnew hw, count_merge_read hr rfl hv, count_empty, Nat.zero_add, hitems,
      List.append_nil, List.length_append]
    rfl
  | x :: y :: z :: rest =>
    rw [Field.ofLiteral, toOption_fillItems_cons] at h
    obtain ⟨next, _, hrest⟩ := Option.bind_eq_some_iff.mp h
    rw [toOption_fillItems_cons] at hrest
    obtain ⟨last, _, hend⟩ := Option.bind_eq_some_iff.mp hrest
    rw [Datum.fillItems] at hend
    cases hend

/-- A literal that names its kind first holds, behind it, what the literal alone would hold. -/
theorem items_behind_kind {first : Datum} {items : List Datum}
    (hfields : Place.expr.fields (.list (first :: items)) = Field.ofLiteral) :
    Place.expr.items (.list (first :: items)) (.ofRole r) =
      Place.literal.items (.list items) (.ofRole r) := by
  have hplace : ∀ i,
      Place.expr.atIndex (first :: items) (i + 1) = Place.literal.atIndex items i := by
    intro i
    rw [Place.atIndex, hfields]
    rfl
  have hfirst : Place.expr.atIndex (first :: items) 0 = .other := rfl
  simp only [Place.items, Place.parts, List.zipIdx_cons, List.zipIdx_succ, List.map_cons,
    List.map_map, List.flatMap_cons, hfirst, if_neg (other_ne_ofRole hr), List.nil_append]
  simp only [Function.comp_def, hplace]

end Counted

theorem template_of_fields {kind : Kind} (h : kind.fields = Field.ofLiteral) :
    kind = .template := by
  revert h
  cases kind <;> decide

theorem isSome_toLiteral_of_template {slots : Slots}
    (h : (slots.toExpr .template).toOption.isSome = true) :
    slots.toLiteral.toOption.isSome = true := by
  rw [Slots.toExpr] at h
  cases hl : slots.toLiteral with
  | error e =>
    rw [hl] at h
    cases h
  | ok l => rfl

theorem length_items_of_slots {place : Place} {d : Datum} {slots : Slots}
    (hcount : ∀ {r : Role}, r = .segments ∨ r = .exprs →
      (place.items d (.ofRole r)).length = slots.count r)
    (h : slots.toLiteral.toOption.isSome = true) :
    (place.items d .segments).length = (place.items d .exprs).length + 1 :=
  calc (place.items d .segments).length = slots.count .segments := hcount (.inl rfl)
    _ = slots.count .exprs + 1 := count_of_toLiteral h
    _ = (place.items d .exprs).length + 1 := by rw [← hcount (.inr rfl), Place.ofRole]

/-- A literal that is read has one segment more than it has placeholders. -/
theorem length_items_of_reads {place : Place} {d : Datum} (h : Reads place d)
    (hfields : place.fields d = Field.ofLiteral) :
    (place.items d .segments).length = (place.items d .exprs).length + 1 := by
  cases place with
  | literal =>
    have hliteral : d.toLiteral.toOption.isSome = true := h
    cases d with
    | record es =>
      rw [toOption_toLiteral_record] at hliteral
      obtain ⟨slots, hslots, hl⟩ := exists_of_isSome_bind hliteral
      exact length_items_of_slots (fun hr => length_items_record hr hfields hslots) hl
    | list items =>
      rw [toOption_toLiteral_list] at hliteral
      obtain ⟨slots, hslots, hl⟩ := exists_of_isSome_bind hliteral
      exact length_items_of_slots (fun hr => length_items_list hr hslots) hl
    | _ => cases hliteral
  | expr =>
    have hexpr : d.toExpr.toOption.isSome = true := h
    cases d with
    | record es =>
      rw [toOption_toExpr_record] at hexpr
      obtain ⟨kind, hkind, hrest⟩ := exists_of_isSome_bind hexpr
      obtain ⟨slots, hslots, he⟩ := exists_of_isSome_bind hrest
      have hk : kind.fields = Field.ofLiteral := by simpa [Place.fields, hkind] using hfields
      rw [hk] at hslots
      rw [template_of_fields hk] at he
      exact length_items_of_slots (fun hr => length_items_record hr hfields hslots)
        (isSome_toLiteral_of_template he)
    | list items =>
      cases items with
      | nil => cases hexpr
      | cons first items =>
        rw [toOption_toExpr_list] at hexpr
        obtain ⟨kind, hkind, hrest⟩ := exists_of_isSome_bind hexpr
        obtain ⟨slots, hslots, he⟩ := exists_of_isSome_bind hrest
        have hk : kind.fields = Field.ofLiteral := by simpa [Place.fields, hkind] using hfields
        rw [hk] at hslots
        rw [template_of_fields hk] at he
        refine length_items_of_slots (fun hr => ?_) (isSome_toLiteral_of_template he)
        rw [items_behind_kind hr hfields, length_items_list hr hslots]
    | _ => cases hexpr
  | program | exprs | segments | segment | other =>
    simp [Place.fields, Field.ofLiteral, Field.ofSegment] at hfields

/-! ### Data of programs -/

/-- Whether every literal in the data of a program, wherever one is read, has one segment more than
it has placeholders. -/
def Datum.LiteralsFit (d : Datum) : Prop :=
  ∀ place v, Occurs (.program, d) (place, v) → place.fields v = Field.ofLiteral →
    (place.items v .segments).length = (place.items v .exprs).length + 1

theorem literalsFit_of_reads {d : Datum} (h : Reads .program d) : d.LiteralsFit :=
  fun _ _ hoccurs hfields => length_items_of_reads (reads_of_occurs hoccurs h) hfields

theorem literalsFit_toTree (p : Program) : p.toTree.toDatum.LiteralsFit := by
  have hbody : p.toTree.toDatum.programBody = some p.body := by
    have hitems := toOption_toBody (Tree.toData (Expr.toTrees p.body))
    rw [toBody_toTrees] at hitems
    exact hitems.symm
  refine literalsFit_of_reads ?_
  rw [Reads, hbody]
  rfl

theorem parse_json_of_misfit {text : String} {d : Datum} (hread : Json.read text.toList = some d)
    (h : ¬ d.LiteralsFit) : ∃ e, Stage.parse .json text = .error e := by
  cases hparse : Stage.parse .json text with
  | error e => exact ⟨e, rfl⟩
  | ok p =>
    have hbody := (ofDatum_eq_ok_iff.mp ((parse_json_eq_ok_iff hread).mp hparse)).1
    refine absurd (literalsFit_of_reads ?_) h
    rw [Reads, hbody]
    rfl

/-! ### Parts by index -/

namespace Literal

/-- Whether the parts of a literal are one segment without source characters, if there is a first
segment at all. -/
def trivialByIndex {α : Type} (ss : List Segment) (ps : List α) : Option Bool :=
  ss[0]?.map fun first => ps.isEmpty && ss.length == 1 && decide (first.raw = "")

/-- A segment and the placeholder in front of it, which is looked up by the index of the segment. -/
def pieceByIndex (ps : List Expr) (s : Segment) (i : Nat) : Option (List Char) :=
  if i = 0 then some s.raw.toList
  else ps[i - 1]?.map fun p => '$' :: '\x7b' :: p.sourceChars ++ '\x7d' :: s.raw.toList

/-- What stands between the delimiters of the literal with the given parts, if every placeholder
that is looked up is there. -/
def charsByIndex (ss : List Segment) (ps : List Expr) : Option (List Char) :=
  (ss.zipIdx.mapM fun (s, i) => pieceByIndex ps s i).map List.flatten

theorem trivialByIndex_parts {α : Type} (l : Literal α) :
    trivialByIndex l.segments l.placeholders = some l.isTrivial := by
  cases l with
  | text s => simp [trivialByIndex, segments, placeholders, isTrivial]
  | hole s p rest => simp [trivialByIndex, segments, placeholders, isTrivial]

theorem pieceByIndex_later (before after : List Expr) (p : Expr) (s : Segment) :
    pieceByIndex (before ++ p :: after) s (before.length + 1) =
      some ('$' :: '\x7b' :: p.sourceChars ++ '\x7d' :: s.raw.toList) := by
  simp [pieceByIndex]

/-- What follows a placeholder, with the segments counted on from the placeholders before it. -/
theorem charsByIndex_later (before : List Expr) (p : Expr) (l : Literal Expr) :
    ((l.segments.zipIdx (before.length + 1)).mapM fun (s, i) =>
        pieceByIndex (before ++ p :: l.placeholders) s i).map List.flatten =
      some ('$' :: '\x7b' :: p.sourceChars ++ '\x7d' :: Expr.literalChars l) := by
  induction l generalizing before p with
  | text s =>
    simp [segments, placeholders, List.zipIdx_cons, pieceByIndex_later, Expr.literalChars]
  | hole s q rest ih =>
    have hrest := ih (before ++ [p]) q
    simp only [List.length_append, List.length_singleton, List.append_assoc,
      List.singleton_append] at hrest
    obtain ⟨pieces, hpieces, hflat⟩ := Option.map_eq_some_iff.mp hrest
    simp only [segments, placeholders, List.zipIdx_cons, List.mapM_cons, pieceByIndex_later,
      hpieces]
    simp [hflat, Expr.literalChars]

theorem charsByIndex_parts (l : Literal Expr) :
    charsByIndex l.segments l.placeholders = some (Expr.literalChars l) := by
  cases l with
  | text s => simp [charsByIndex, pieceByIndex, segments, placeholders, Expr.literalChars]
  | hole s p rest =>
    obtain ⟨pieces, hpieces, hflat⟩ := Option.map_eq_some_iff.mp (charsByIndex_later [] p rest)
    have hfirst : pieceByIndex (p :: rest.placeholders) s 0 = some s.raw.toList := rfl
    simp only [List.length_nil, List.nil_append] at hpieces
    simp only [charsByIndex, segments, placeholders, List.zipIdx_cons, List.mapM_cons, hfirst,
      hpieces]
    simp [hflat, Expr.literalChars]

end Literal

/-! ### Everywhere -/

theorem length_of_normalize {l m : Literal Expr} (h : l.normalize = .ok m) :
    m.segments.length = l.segments.length ∧ m.placeholders.length = l.placeholders.length := by
  rw [Literal.length_segments, Literal.length_segments, placeholders_normalize h]
  exact ⟨rfl, rfl⟩

theorem length_of_collapseLiteral {tag : Option Expr} {l : Literal Expr} {e : Expr}
    (h : collapseLiteral tag l = .ok e) :
    ∃ tag' m, e = Expr.ofLiteral tag' m ∧ m.segments.length = l.segments.length ∧
      m.placeholders.length = l.placeholders.length := by
  obtain ⟨tag', ps, _, hps, rfl⟩ := collapseLiteral_eq_ok_iff.mp h
  have hlen := length_eq_of_map_eq hps
  refine ⟨tag', l.withPlaceholders ps, rfl, ?_, ?_⟩
  · rw [Literal.segments_withPlaceholders]
  · rw [Literal.placeholders_withPlaceholders l ps hlen, hlen]

/-- The shape of literals holds everywhere.  Every literal has it, wherever it stands in a program
that was read, collapsed, or written and read again, so its first segment and the placeholder in
front of each later one are found by index; normalizing a literal and collapsing what stands in it
change neither number; the data that a program is written as has the shape at every depth; a JSON
text whose data lacks it, in a literal at any depth that is not under a foreign key, is refused; and
two lists of parts make the literal that has them as its parts, or are refused with their lengths if
there is none. -/
theorem literal_shape_holds_everywhere :
    (∀ l : Literal Expr, l.segments.length = l.placeholders.length + 1 ∧
      Literal.trivialByIndex l.segments l.placeholders = some l.isTrivial ∧
      Literal.charsByIndex l.segments l.placeholders = some (Expr.literalChars l)) ∧
    (∀ l m : Literal Expr, l.normalize = .ok m →
      m.segments.length = l.segments.length ∧ m.placeholders.length = l.placeholders.length) ∧
    (∀ (tag : Option Expr) (l : Literal Expr) (e : Expr), collapseLiteral tag l = .ok e →
      ∃ tag' m, e = Expr.ofLiteral tag' m ∧ m.segments.length = l.segments.length ∧
        m.placeholders.length = l.placeholders.length) ∧
    (∀ p : Program, p.toTree.toDatum.LiteralsFit) ∧
    (∀ (text : String) (d : Datum), Json.read text.toList = some d → ¬ d.LiteralsFit →
      ∃ e, Stage.parse .json text = .error e) ∧
    ∀ (ss : List Segment) (ps : List Expr),
      (∀ l, Literal.ofParts ss ps = .ok l ↔ l.segments = ss ∧ l.placeholders = ps) ∧
      (Literal.ofParts ss ps = .error ⟨ss.length, ps.length⟩ ↔ ss.length ≠ ps.length + 1) := by
  refine ⟨fun l => ?_, fun _ _ => length_of_normalize, fun _ _ _ => length_of_collapseLiteral,
    literalsFit_toTree, fun _ _ => parse_json_of_misfit,
    fun _ _ => ⟨fun _ => ofParts_eq_ok_iff, ofParts_eq_error_iff⟩⟩
  exact ⟨l.length_segments, l.trivialByIndex_parts, l.charsByIndex_parts⟩

/-- An array with a tagged literal of two segments and no placeholder in it. -/
def misshapen : Tree :=
  .record [("body", .list [.record [("type", .text "Array"), ("elements", .list [.record
    [("type", .text "TaggedTemplate"),
      ("tag", (Expr.identifier "t").toTree),
      ("literal", .record [("segments", .list
        [(Segment.ofText "").toTree, (Segment.ofText "").toTree])])]])]])]

theorem misshapen_is_refused :
    ¬ misshapen.toDatum.LiteralsFit ∧
      ∃ e, Stage.parse .json (String.ofList (Json.print false misshapen)) = .error e := by
  have hmisfit : ¬ misshapen.toDatum.LiteralsFit := by
    intro h
    have hoccurs : Occurs (.program, misshapen.toDatum) (.literal, (Tree.record [("segments", .list
        [(Segment.ofText "").toTree, (Segment.ofText "").toTree])]).toDatum) := by
      refine .head (b := (.exprs, _)) (.head _) ?_
      refine .head (b := (.expr, _)) (.head _) ?_
      refine .head (b := (.exprs, _)) (.tail _ (.head _)) ?_
      refine .head (b := (.expr, _)) (.head _) ?_
      exact .single (.tail _ (.tail _ (.head _)))
    exact absurd (h _ _ hoccurs rfl) (by decide)
  have hread := Json.read_print false misshapen (List.forall_mem_nil _)
  rw [List.append_nil] at hread
  refine ⟨hmisfit, literal_shape_holds_everywhere.2.2.2.2.1 _ misshapen.toDatum ?_ hmisfit⟩
  rw [String.toList_ofList, hread]

end OverDelimited
