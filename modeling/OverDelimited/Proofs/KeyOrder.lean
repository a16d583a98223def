import Mathlib.Logic.Relation
import OverDelimited.Proofs.JsonText
import OverDelimited.Proofs.NodeFields

/-!
# Key order and foreign keys

A datum may have the keys of its records put in another order, and be given keys that the node at
their place does not declare, at any depth, and is read as before.  One such change is a `Change`,
with the place at which it is made; a change made inside a part is a change of the whole.
-/

namespace OverDelimited

/-! ### Changes -/

/-- The keys that the node at a place declares. -/
def Place.declared (place : Place) (es : List (Key × Datum)) : List String :=
  (if place = .expr then ["type"] else []) ++ (place.fields (.record es)).map Field.name

/-- One change of the keys of a datum that is read at the given place. -/
inductive Change : Place → Datum → Datum → Prop where
  | reorder (place : Place) {es es' : List (Key × Datum)} (h : es.Perm es') :
      Change place (.record es) (.record es')
  | insert (place : Place) {es : List (Key × Datum)} (name : String) (d : Datum)
      (h : name ∉ place.declared es) :
      Change place (.record es) (.record ((.text name, d) :: es))
  | entry (place : Place) (before after : List (Key × Datum)) (key : Key) {d d' : Datum}
      (h : Change (place.atKey (before ++ (key, d) :: after) key) d d') :
      Change place (.record (before ++ (key, d) :: after)) (.record (before ++ (key, d') :: after))
  | item (place : Place) (before after : List Datum) {d d' : Datum}
      (h : Change (place.atIndex (before ++ d :: after) before.length) d d') :
      Change place (.list (before ++ d :: after)) (.list (before ++ d' :: after))

/-- Whether a datum has parts, or could have. -/
def Datum.isCompound : Datum → Bool
  | .list _ | .record _ => true
  | _ => false

theorem Change.isCompound {place : Place} {d d' : Datum} (h : Change place d d') :
    d.isCompound = true ∧ d'.isCompound = true := by
  cases h <;> exact ⟨rfl, rfl⟩

/-! ### Data read alike -/

/-- Whether two data are read alike at a place. -/
def Alike : Place → Datum → Datum → Prop
  | .program, d, d' => d.programBody = d'.programBody
  | .expr, d, d' => d.toExpr.toOption = d'.toExpr.toOption ∧ d.numbersKind = d'.numbersKind
  | .exprs, d, d' =>
    Slots.read .exprs d = Slots.read .exprs d' ∧ d.outerExprs = d'.outerExprs
  | .literal, d, d' => d.toLiteral.toOption = d'.toLiteral.toOption
  | .segments, d, d' => Slots.read .segments d = Slots.read .segments d'
  | .segment, d, d' => d.toSegment.toOption = d'.toSegment.toOption
  | .other, _, _ => True

theorem toOuterExpr_congr {d d' : Datum} (h : Alike .expr d d') :
    d.toOuterExpr.toOption = d'.toOuterExpr.toOption := by
  obtain ⟨hexpr, hkind⟩ := h
  rw [Datum.toOuterExpr, Datum.toOuterExpr, hkind]
  split
  · rfl
  · exact hexpr

theorem read_congr {role : Role} {d d' : Datum} (hd : d.isCompound = true)
    (hd' : d'.isCompound = true) (h : Alike (.ofRole role) d d') :
    Slots.read role d = Slots.read role d' := by
  have hleaf : ∀ {d : Datum}, d.isCompound = true →
      Slots.read .text d = none ∧ Slots.read .cooked d = none := by
    intro d hd
    cases d with
    | list _ | record _ => exact ⟨rfl, rfl⟩
    | _ => cases hd
  cases role with
  | text => rw [(hleaf hd).1, (hleaf hd').1]
  | cooked => rw [(hleaf hd).2, (hleaf hd').2]
  | expr => rw [Slots.read, Slots.read, Slots.fill, Slots.fill, toOption_map, toOption_map, h.1]
  | exprs => exact h.1
  | segments => exact h
  | literal =>
    have hliteral : d.toLiteral.toOption = d'.toLiteral.toOption := h
    rw [Slots.read, Slots.read, Slots.fill, Slots.fill, toOption_map, toOption_map, hliteral]

theorem ofDatum_of_isCompound {d : Datum} (h : d.isCompound = true) :
    Kind.ofDatum d = .error .mismatch := by
  cases d with
  | list _ | record _ => rfl
  | _ => cases h

/-! ### Entries in another order -/

theorem alike_of_perm (place : Place) {es es' : List (Key × Datum)} (h : es.Perm es') :
    Alike place (.record es) (.record es') := by
  cases place with
  | program =>
    have hbodies : (Datum.bodyValues es).Perm (Datum.bodyValues es') := (h.filter _).map _
    simp only [Alike, Datum.programBody, h.all_eq, sole_perm hbodies]
  | expr =>
    have hkinds : (Kind.entries es).Perm (Kind.entries es') := (h.filter _).map _
    have hkind : Kind.ofEntries es = Kind.ofEntries es' := by
      rw [ofEntries_eq_sole, ofEntries_eq_sole, sole_perm hkinds]
    constructor
    · simp only [toOption_toExpr_record, hkind, Slots.foldlM_enter_perm _ h]
    · exact hkinds.any_eq
  | literal => simp only [Alike, toOption_toLiteral_record, Slots.foldlM_enter_perm _ h]
  | segment => simp only [Alike, toOption_toSegment_record, Slots.foldlM_enter_perm _ h]
  | exprs => exact ⟨rfl, rfl⟩
  | segments => exact rfl
  | other => trivial

/-! ### Foreign keys -/

theorem named?_of_not_mem {fields : List Field} {name : String}
    (h : name ∉ fields.map Field.name) : Field.named? fields (.text name) = .ok none := by
  have hnone : fields.find? (fun f => f.name == name) = none := by
    refine List.find?_eq_none.mpr fun f hf hname => h ?_
    exact List.mem_map.mpr ⟨f, hf, eq_of_beq hname⟩
  rw [Field.named?, hnone]

theorem foldlM_enter_insert {fields : List Field} {name : String}
    (h : name ∉ fields.map Field.name) (d : Datum) (es : List (Key × Datum)) :
    ((.text name, d) :: es).foldlM (Slots.enter fields) {} = es.foldlM (Slots.enter fields) {} := by
  rw [List.foldlM_cons, Slots.enter_of_unknown (named?_of_not_mem h)]
  rfl

theorem alike_of_insert (place : Place) {es : List (Key × Datum)} {name : String} (d : Datum)
    (h : name ∉ place.declared es) :
    Alike place (.record es) (.record ((.text name, d) :: es)) := by
  cases place with
  | program =>
    have hname : name ≠ "body" := by simpa [Place.declared, Place.fields] using h
    have hbodies : Datum.bodyValues ((.text name, d) :: es) = Datum.bodyValues es := by
      simp [Datum.bodyValues, hname]
    simp only [Alike, Datum.programBody, hbodies, List.all_cons, Key.isText_text, Bool.true_and]
  | expr =>
    have hname : name ≠ "type" := fun hname => h (by simp [Place.declared, hname])
    have hkinds : Kind.entries ((.text name, d) :: es) = Kind.entries es := by
      simp [Kind.entries, hname]
    have hkind : Kind.ofEntries ((.text name, d) :: es) = Kind.ofEntries es := by
      rw [ofEntries_eq_sole, ofEntries_eq_sole, hkinds]
    refine ⟨?_, by simp only [Datum.numbersKind, hkinds]⟩
    rw [toOption_toExpr_record, toOption_toExpr_record, hkind]
    refine Option.bind_congr fun kind hk => ?_
    have hfields : name ∉ kind.fields.map Field.name := by
      intro hmem
      refine h (List.mem_append_right _ ?_)
      rw [Place.fields, hk]
      exact hmem
    rw [foldlM_enter_insert hfields]
  | literal =>
    have hfields : name ∉ Field.ofLiteral.map Field.name := by
      simpa [Place.declared, Place.fields] using h
    simp only [Alike, toOption_toLiteral_record, foldlM_enter_insert hfields]
  | segment =>
    have hfields : name ∉ Field.ofSegment.map Field.name := by
      simpa [Place.declared, Place.fields] using h
    simp only [Alike, toOption_toSegment_record, foldlM_enter_insert hfields]
  | exprs => exact ⟨rfl, rfl⟩
  | segments => exact rfl
  | other => trivial

/-! ### Changes inside a part -/

theorem mapM_congr {α : Type} (f : Datum → Option α) {d d' : Datum} (h : f d = f d')
    (before after : List Datum) :
    (before ++ d :: after).mapM f = (before ++ d' :: after).mapM f := by
  simp only [List.mapM_append, List.mapM_cons, h]

section Parts

variable {d d' : Datum} (hd : d.isCompound = true) (hd' : d'.isCompound = true)

include hd hd'

theorem enter_congr {fields : List Field} {key : Key}
    (h : ∀ field, Field.named? fields key = .ok (some field) → Alike (.ofRole field.role) d d')
    (slots : Slots) : slots.enter fields (key, d) = slots.enter fields (key, d') := by
  simp only [Slots.enter]
  cases hfield : Field.named? fields key with
  | error e => rfl
  | ok field =>
    cases field with
    | none => rfl
    | some field => simp only [Slots.add, read_congr hd hd' (h field hfield)]

theorem foldlM_enter_congr {fields : List Field} {key : Key}
    (h : ∀ field, Field.named? fields key = .ok (some field) → Alike (.ofRole field.role) d d')
    (before after : List (Key × Datum)) :
    (before ++ (key, d) :: after).foldlM (Slots.enter fields) {} =
      (before ++ (key, d') :: after).foldlM (Slots.enter fields) {} := by
  rw [List.foldlM_append, List.foldlM_append]
  simp only [List.foldlM_cons, enter_congr hd hd' h]

theorem alike_of_entry (place : Place) (before after : List (Key × Datum)) (key : Key)
    (h : Alike (place.atKey (before ++ (key, d) :: after) key) d d') :
    Alike place (.record (before ++ (key, d) :: after))
      (.record (before ++ (key, d') :: after)) := by
  have hfield : ∀ fields,
      place.fields (.record (before ++ (key, d) :: after)) = fields →
      ∀ field, Field.named? fields key = .ok (some field) → Alike (.ofRole field.role) d d' := by
    intro fields hfields field hnamed
    rwa [Place.atKey, hfields, hnamed] at h
  cases place with
  | program =>
    have hall : (before ++ (key, d) :: after).all (fun e => e.1.isText) =
        (before ++ (key, d') :: after).all fun e => e.1.isText := by simp
    have hbodies : sole (some []) Datum.outerExprs none
        (Datum.bodyValues (before ++ (key, d) :: after)) =
          sole (some []) Datum.outerExprs none
            (Datum.bodyValues (before ++ (key, d') :: after)) := by
      by_cases hkey : key = .text "body"
      · subst hkey
        have houter : d.outerExprs = d'.outerExprs := (hfield _ rfl ⟨"body", .exprs⟩ rfl).2
        simpa [Datum.bodyValues] using sole_congr houter _ _
      · simp [Datum.bodyValues, hkey]
    simp only [Alike, Datum.programBody, hall, hbodies]
  | expr =>
    have hkind : Kind.ofEntries (before ++ (key, d) :: after) =
        Kind.ofEntries (before ++ (key, d') :: after) := by
      rw [ofEntries_eq_sole, ofEntries_eq_sole]
      by_cases hkey : key = .text "type"
      · have hof : Kind.ofDatum d = Kind.ofDatum d' := by
          rw [ofDatum_of_isCompound hd, ofDatum_of_isCompound hd']
        simpa [Kind.entries, hkey] using sole_congr hof _ _
      · simp [Kind.entries, hkey]
    constructor
    · rw [toOption_toExpr_record, toOption_toExpr_record, ← hkind]
      refine Option.bind_congr fun kind hk => ?_
      have hfields : Place.expr.fields (.record (before ++ (key, d) :: after)) = kind.fields := by
        rw [Place.fields, hk]
        rfl
      rw [foldlM_enter_congr hd hd' (hfield _ hfields)]
    · cases d <;> cases hd <;> cases d' <;> cases hd' <;>
        by_cases hkey : key = .text "type" <;> simp [Datum.numbersKind, Kind.entries, hkey]
  | literal =>
    have hentries := foldlM_enter_congr hd hd' (hfield Field.ofLiteral rfl) before after
    simp only [Alike, toOption_toLiteral_record, hentries]
  | segment =>
    have hentries := foldlM_enter_congr hd hd' (hfield Field.ofSegment rfl) before after
    simp only [Alike, toOption_toSegment_record, hentries]
  | exprs => exact ⟨rfl, rfl⟩
  | segments => exact rfl
  | other => trivial

theorem fillItems_congr (fields : List Field) (slots : Slots) (before after : List Datum)
    (h : ∀ field, fields[before.length]? = some field → Alike (.ofRole field.role) d d') :
    (Datum.fillItems fields slots (before ++ d :: after)).toOption =
      (Datum.fillItems fields slots (before ++ d' :: after)).toOption := by
  induction before generalizing fields slots with
  | nil =>
    cases fields with
    | nil => simp only [List.nil_append, Datum.fillItems]
    | cons field fields =>
      simp only [List.nil_append, toOption_fillItems_cons, read_congr hd hd' (h field rfl)]
  | cons b before ih =>
    cases fields with
    | nil => simp only [List.cons_append, Datum.fillItems]
    | cons field fields =>
      rw [List.cons_append, List.cons_append, toOption_fillItems_cons, toOption_fillItems_cons]
      exact Option.bind_congr fun s _ => ih fields s h

theorem alike_of_item (place : Place) (before after : List Datum)
    (h : Alike (place.atIndex (before ++ d :: after) before.length) d d') :
    Alike place (.list (before ++ d :: after)) (.list (before ++ d' :: after)) := by
  cases place with
  | program =>
    match before, after with
    | [], [] => exact h.2
    | [], _ :: _ | [_], _ | _ :: _ :: _, _ => rfl
  | expr =>
    cases before with
    | nil =>
      -- the item names the kind of the expression, which no list or record does
      refine ⟨?_, ?_⟩
      · simp only [List.nil_append, toOption_toExpr_list, ofDatum_of_isCompound hd,
          ofDatum_of_isCompound hd']
      · cases d <;> cases hd <;> cases d' <;> cases hd' <;> rfl
    | cons first before =>
      refine ⟨?_, by cases first <;> rfl⟩
      rw [List.cons_append, List.cons_append, toOption_toExpr_list, toOption_toExpr_list]
      refine Option.bind_congr fun kind hk => ?_
      have hitems : (Datum.fillItems kind.fields {} (before ++ d :: after)).toOption =
          (Datum.fillItems kind.fields {} (before ++ d' :: after)).toOption := by
        refine fillItems_congr hd hd' _ _ before after fun field hfield => ?_
        simpa [Place.atIndex, Place.fields, hk, hfield] using h
      rw [hitems]
  | exprs =>
    have hexpr : Alike .expr d d' := h
    refine ⟨?_, mapM_congr _ (toOuterExpr_congr hexpr) before after⟩
    simp only [Slots.read, Slots.fill, toOption_map, toOption_toExprs,
      mapM_congr (fun d => d.toExpr.toOption) hexpr.1 before after]
  | segments =>
    have hsegment : d.toSegment.toOption = d'.toSegment.toOption := h
    simp only [Alike, Slots.read, Slots.fill, toOption_map, toOption_toSegments,
      mapM_congr (fun d => d.toSegment.toOption) hsegment before after]
  | literal =>
    have hitems := fillItems_congr hd hd' Field.ofLiteral {} before after fun field hfield => by
      simpa [Place.atIndex, Place.fields, hfield] using h
    simp only [Alike, toOption_toLiteral_list, hitems]
  | segment =>
    have hitems := fillItems_congr hd hd' Field.ofSegment {} before after fun field hfield => by
      simpa [Place.atIndex, Place.fields, hfield] using h
    simp only [Alike, toOption_toSegment_list, hitems]
  | other => trivial

end Parts

/-! ### Any number of changes -/

theorem Change.alike {place : Place} {d d' : Datum} (h : Change place d d') : Alike place d d' := by
  induction h with
  | reorder place h => exact alike_of_perm place h
  | insert place name d h => exact alike_of_insert place d h
  | entry place before after key h ih =>
    exact alike_of_entry h.isCompound.1 h.isCompound.2 place before after key ih
  | item place before after h ih =>
    exact alike_of_item h.isCompound.1 h.isCompound.2 place before after ih

/-- Any number of changes of the keys of a program's data. -/
def Rekeyed : Datum → Datum → Prop :=
  Relation.ReflTransGen (Change .program)

theorem Rekeyed.programBody_eq {d d' : Datum} (h : Rekeyed d d') :
    d.programBody = d'.programBody := by
  induction h with
  | refl => rfl
  | tail _ hstep ih => exact ih.trans hstep.alike

/-- Data that is a program is the same program once its records are reordered and given foreign
keys, as long as what is added in the body has a value and keeps to the limit on nesting. -/
theorem rekeyed_data_reads_as_the_same_program {d d' : Datum} {p : Program} (hkeys : Rekeyed d d')
    (hbody : ∀ body, (.exprs, body) ∈ Place.program.parts d' →
      body.isReadable (Json.nestingLimit - 1) = true)
    (h : Program.ofDatum Json.nestingLimit d = .ok p) :
    Program.ofDatum Json.nestingLimit d' = .ok p ∧
      ∀ text : String, Json.read text.toList = some d' → Stage.parse .json text = .ok p := by
  have hd' : Program.ofDatum Json.nestingLimit d' = .ok p := by
    refine ofDatum_eq_ok_iff.mpr ⟨?_, hbody⟩
    rw [← hkeys.programBody_eq]
    exact (ofDatum_eq_ok_iff.mp h).1
  exact ⟨hd', fun text hread => (parse_json_eq_ok_iff hread).mpr hd'⟩

/-- A name as the only expression of a program, with a note beside the body, the line of the name,
and its kind last. -/
def annotated : Tree :=
  .record [("note", .list [.null]), ("body", .list [.record
    [("line", .text "3"), ("name", .text "x"), ("type", .text "Identifier")]])]

theorem annotated_reads_as_its_program :
    Rekeyed (Program.mk [.identifier "x"]).toTree.toDatum annotated.toDatum ∧
      Stage.parse .json (String.ofList (Json.print false annotated)) =
        .ok ⟨[.identifier "x"]⟩ := by
  -- the change of a node, made in the only expression of the body
  have hinside : ∀ {es es' : List (Key × Datum)}, Change .expr (.record es) (.record es') →
      Change .program (.record [(.text "note", .list [.null]), (.text "body", .list [.record es])])
        (.record [(.text "note", .list [.null]), (.text "body", .list [.record es'])]) := by
    intro es es' h
    exact .entry .program [(.text "note", .list [.null])] [] (.text "body") (.item .exprs [] [] h)
  have hkeys : Rekeyed (Program.mk [.identifier "x"]).toTree.toDatum annotated.toDatum := by
    refine .head (.insert .program "note" (.list [.null]) (by decide)) ?_
    refine .head (hinside (.insert .expr "line" (.text "3") (by decide))) ?_
    exact .single (hinside (.reorder .expr (.cons _ (.swap _ _ _))))
  have hbody : ∀ body, (.exprs, body) ∈ Place.program.parts annotated.toDatum →
      body.isReadable (Json.nestingLimit - 1) = true := by
    intro body hmem
    rcases hmem with _ | ⟨_, _ | ⟨_, hmem⟩⟩
    · rfl
    · cases hmem
  have hread := Json.read_print false annotated (List.forall_mem_nil _)
  rw [List.append_nil] at hread
  refine ⟨hkeys, ?_⟩
  refine (rekeyed_data_reads_as_the_same_program hkeys hbody rfl).2 _ ?_
  rw [String.toList_ofList, hread]

end OverDelimited
