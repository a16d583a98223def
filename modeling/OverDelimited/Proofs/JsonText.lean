import OverDelimited.Pipeline
import OverDelimited.Proofs.Decoding

/-!
# JSON texts

A tree written as JSON is read back as its datum, in either layout and whatever white space follows.
Both layouts spell the same tokens (`written`), since a token that is written never depends on what
stands after it; the machine that reads tokens then builds the datum up again.  With the reading of
programs from data, a program is read back from its text as long as it is not nested too deeply.
-/

namespace OverDelimited

namespace Json

/-! ### Strings -/

/-- A piece that stands for one character, whatever follows it. -/
def StandsFor (piece : Piece) (c : Char) : Prop :=
  ∀ ps, join (piece :: ps) = (join ps).map (c :: ·)

theorem standsFor_char (c : Char) : StandsFor (.char c) c :=
  fun _ => rfl

theorem standsFor_unit {c : Char} (h : c.toNat < 0xd800) : StandsFor (.unit c.toNat) c := by
  intro ps
  have hhigh : isHighSurrogate c.toNat = false := by simp [isHighSurrogate]; omega
  have hlow : isLowSurrogate c.toNat = false := by simp [isLowSurrogate]; omega
  have hc : Char.ofNat c.toNat = c := Char.ofNat_toNat c
  cases ps with
  | nil => simp [join, hhigh, hlow]
  | cons p rest => cases p <;> simp [join, hhigh, hlow]

theorem digitValue_hexDigit : ∀ n < 16, Text.digitValue? (hexDigit n) = some n := by
  decide

theorem pieces_number {n : Nat} (h : n < 0x20) (rest : List Char) :
    pieces ('\\' :: 'u' :: '0' :: '0' :: hexDigit (n / 16) :: hexDigit (n % 16) :: rest) =
      (pieces rest).map fun (ps, after) => (.unit n :: ps, after) := by
  have hdigits : Text.digits? 16 ['0', '0', hexDigit (n / 16), hexDigit (n % 16)] = some n := by
    have h0 : Text.digitValue? '0' = some 0 := rfl
    have h1 := digitValue_hexDigit (n / 16) (by omega)
    have h2 := digitValue_hexDigit (n % 16) (by omega)
    simp only [Text.digits?, Text.digitsOnto?, h0, h1, h2]
    rw [if_pos (by omega), if_pos (by omega), if_pos (by omega), if_pos (by omega)]
    exact congrArg some (by omega)
  rw [pieces, hdigits]

theorem pieces_letter {c letter : Char} (hu : letter ≠ 'u') (h : escaped? letter = some c)
    (rest : List Char) :
    pieces ('\\' :: letter :: rest) =
      (pieces rest).map fun (ps, after) => (.char c :: ps, after) := by
  rw [pieces, h]
  simp [hu]

theorem pieces_plain {c : Char} (hq : c ≠ '"') (hb : c ≠ '\\') (hc : ¬c.toNat < 0x20)
    (rest : List Char) :
    pieces (c :: rest) = (pieces rest).map fun (ps, after) => (.char c :: ps, after) := by
  rw [pieces]
  · simp [hb, hc]
  all_goals simp_all

/-- A character is written as one piece that stands for it. -/
theorem pieces_escapeChar (c : Char) : ∃ piece, StandsFor piece c ∧
    ∀ rest, pieces (escapeChar c ++ rest) =
      (pieces rest).map fun (ps, after) => (piece :: ps, after) := by
  fun_cases escapeChar c with
  | case1 | case2 | case3 | case4 | case5 | case6 | case7 =>
    subst_vars
    exact ⟨.char _, standsFor_char _, pieces_letter (by decide) rfl⟩
  | case8 _ _ _ _ _ _ _ h => exact ⟨.unit c.toNat, standsFor_unit (by omega), pieces_number h⟩
  | case9 hq hb _ _ _ _ _ h => exact ⟨.char c, standsFor_char c, pieces_plain hq hb h⟩

theorem pieces_escaped (cs rest : List Char) :
    ∃ ps, pieces (cs.flatMap escapeChar ++ '"' :: rest) = some (ps, rest) ∧ join ps = some cs := by
  induction cs with
  | nil => exact ⟨[], by rw [List.flatMap_nil, List.nil_append, pieces], rfl⟩
  | cons c cs ih =>
    obtain ⟨ps, hps, hjoin⟩ := ih
    obtain ⟨piece, hpiece, hread⟩ := pieces_escapeChar c
    refine ⟨piece :: ps, ?_, by rw [hpiece, hjoin]; rfl⟩
    rw [List.flatMap_cons, List.append_assoc, hread, hps]
    rfl

/-! ### Tokens -/

theorem tokens_of_dropWhile {cs ds : List Char} (h : cs.dropWhile isSpace = ds.dropWhile isSpace) :
    tokens cs = tokens ds := by
  rw [tokens.eq_def cs, tokens.eq_def ds]
  generalize cs.dropWhile isSpace = ws at h
  subst h
  rfl

theorem tokens_of_token {c : Char} {cs rest : List Char} {t : Token} (hc : isSpace c = false)
    (h : token? (c :: cs) = some (t, rest)) : tokens (c :: cs) = (tokens rest).map (t :: ·) := by
  have hdrop : (c :: cs).dropWhile isSpace = c :: cs :=
    List.dropWhile_cons_of_neg (by simp [hc])
  rw [tokens.eq_def]
  split
  · next hnil => rw [hdrop] at hnil; cases hnil
  · next heq =>
    rw [hdrop] at heq
    cases heq
    split
    · next hnone => rw [h] at hnone; cases hnone
    · next hsome => rw [h] at hsome; cases hsome; rfl

/-- The characters spell the tokens, whatever follows them. -/
def Spells (cs : List Char) (ts : List Token) : Prop :=
  ∀ rest, tokens (cs ++ rest) = (tokens rest).map (ts ++ ·)

namespace Spells

theorem nil : Spells [] [] := by
  intro rest
  simp

theorem append {cs ds : List Char} {ts us : List Token} (h : Spells cs ts) (h' : Spells ds us) :
    Spells (cs ++ ds) (ts ++ us) := by
  intro rest
  rw [List.append_assoc, h, h', Option.map_map]
  simp [Function.comp_def]

theorem spaces {cs : List Char} (h : ∀ c ∈ cs, isSpace c = true) : Spells cs [] := by
  intro rest
  rw [tokens_of_dropWhile (List.dropWhile_append_of_pos h)]
  simp

theorem token {c : Char} {cs : List Char} {t : Token} (hc : isSpace c = false)
    (h : ∀ rest, token? (c :: (cs ++ rest)) = some (t, rest)) : Spells (c :: cs) [t] :=
  fun rest => tokens_of_token hc (h rest)

theorem append_spaces {cs ds : List Char} {ts : List Token} (h : Spells cs ts)
    (hds : Spells ds []) : Spells (cs ++ ds) ts := by
  have happ := h.append hds
  rwa [List.append_nil] at happ

end Spells

theorem spells_quote (cs : List Char) : Spells (quote cs) [.string (some (String.ofList cs))] := by
  apply Spells.token rfl
  intro rest
  obtain ⟨ps, hps, hjoin⟩ := pieces_escaped cs rest
  have hbody : cs.flatMap escapeChar ++ ['"'] ++ rest = cs.flatMap escapeChar ++ '"' :: rest := by
    simp
  show token? ('"' :: (cs.flatMap escapeChar ++ ['"'] ++ rest)) = _
  rw [hbody, token?, hps]
  simp [hjoin]

theorem spells_null : Spells ['n', 'u', 'l', 'l'] [.leaf .null] :=
  Spells.token rfl fun _ => rfl

theorem spells_space : Spells [' '] [] :=
  Spells.spaces (by simp [isSpace])

theorem spells_mark {c : Char} {t : Token} (hc : isSpace c = false)
    (h : ∀ rest, token? (c :: rest) = some (t, rest)) : Spells [c] [t] :=
  Spells.token hc h

theorem spells_newline (level : Nat) : Spells (newline level) [] := by
  apply Spells.spaces
  intro c hc
  simp only [newline, List.mem_cons, List.mem_replicate] at hc
  rcases hc with rfl | ⟨-, rfl⟩ <;> rfl

theorem spells_openList : Spells ['['] [.openList] := spells_mark rfl fun _ => rfl
theorem spells_closeList : Spells [']'] [.closeList] := spells_mark rfl fun _ => rfl
theorem spells_openRecord : Spells ['\x7b'] [.openRecord] := spells_mark rfl fun _ => rfl
theorem spells_closeRecord : Spells ['\x7d'] [.closeRecord] := spells_mark rfl fun _ => rfl
theorem spells_comma : Spells [','] [.comma] := spells_mark rfl fun _ => rfl
theorem spells_colon : Spells [':'] [.colon] := spells_mark rfl fun _ => rfl

/-! ### Both layouts -/

mutual
/-- The tokens of a tree. -/
def written : Tree → List Token
  | .null => [.leaf .null]
  | .text s => [.string (some s)]
  | .list items => .openList :: writtenItems items ++ [.closeList]
  | .record fields => .openRecord :: writtenFields fields ++ [.closeRecord]

/-- The tokens of items with commas between them. -/
def writtenItems : List Tree → List Token
  | [] => []
  | [item] => written item
  | item :: rest => written item ++ .comma :: writtenItems rest

/-- The tokens of fields with commas between them. -/
def writtenFields : List (String × Tree) → List Token
  | [] => []
  | [(name, item)] => .string (some name) :: .colon :: written item
  | (name, item) :: rest =>
    .string (some name) :: .colon :: written item ++ .comma :: writtenFields rest
end

theorem spells_name (name : String) : Spells (quote name.toList) [.string (some name)] := by
  have h := spells_quote name.toList
  rwa [String.ofList_toList] at h

mutual
theorem spells_compact : ∀ t : Tree, Spells (compact t) (written t)
  | .null => spells_null
  | .text s => spells_name s
  | .list items => (spells_openList.append (spells_compactItems items)).append spells_closeList
  | .record fields =>
    (spells_openRecord.append (spells_compactFields fields)).append spells_closeRecord

theorem spells_compactItems : ∀ items : List Tree,
    Spells (compactItems items) (writtenItems items)
  | [] => Spells.nil
  | [item] => by
    rw [compactItems, writtenItems]
    exact spells_compact item
  | item :: next :: rest => by
    rw [compactItems, writtenItems]
    exact (spells_compact item).append (spells_comma.append (spells_compactItems (next :: rest)))
    all_goals simp

theorem spells_compactFields : ∀ fields : List (String × Tree),
    Spells (compactFields fields) (writtenFields fields)
  | [] => Spells.nil
  | [(name, item)] => by
    rw [compactFields, writtenFields]
    exact (spells_name name).append (spells_colon.append (spells_compact item))
  | (name, item) :: next :: rest => by
    rw [compactFields, writtenFields]
    exact ((spells_name name).append (spells_colon.append (spells_compact item))).append
      (spells_comma.append (spells_compactFields (next :: rest)))
    all_goals simp
end

/-- A field on a line of its own. -/
theorem spells_prettyField {level : Nat} {name : String} {item : Tree}
    (h : Spells (pretty level item) (written item)) :
    Spells (newline level ++ quote name.toList ++ ':' :: ' ' :: pretty level item)
      (.string (some name) :: .colon :: written item) :=
  ((spells_newline level).append (spells_name name)).append
    ((spells_colon.append_spaces spells_space).append h)

mutual
theorem spells_pretty (level : Nat) : ∀ t : Tree, Spells (pretty level t) (written t)
  | .null => spells_null
  | .text s => spells_name s
  | .list [] => spells_openList.append spells_closeList
  | .list (item :: rest) =>
    ((spells_openList.append (spells_prettyItems (level + 1) (item :: rest))).append_spaces
      (spells_newline level)).append spells_closeList
  | .record [] => spells_openRecord.append spells_closeRecord
  | .record (field :: rest) =>
    ((spells_openRecord.append (spells_prettyFields (level + 1) (field :: rest))).append_spaces
      (spells_newline level)).append spells_closeRecord

theorem spells_prettyItems (level : Nat) : ∀ items : List Tree,
    Spells (prettyItems level items) (writtenItems items)
  | [] => Spells.nil
  | [item] => by
    rw [prettyItems, writtenItems]
    exact (spells_newline level).append (spells_pretty level item)
  | item :: next :: rest => by
    rw [prettyItems, writtenItems]
    exact ((spells_newline level).append (spells_pretty level item)).append
      (spells_comma.append (spells_prettyItems level (next :: rest)))
    all_goals simp

theorem spells_prettyFields (level : Nat) : ∀ fields : List (String × Tree),
    Spells (prettyFields level fields) (writtenFields fields)
  | [] => Spells.nil
  | [(name, item)] => by
    rw [prettyFields, writtenFields]
    exact spells_prettyField (spells_pretty level item)
  | (name, item) :: next :: rest => by
    rw [prettyFields, writtenFields]
    exact (spells_prettyField (spells_pretty level item)).append
      (spells_comma.append (spells_prettyFields level (next :: rest)))
    all_goals simp
end

theorem spells_print (spread : Bool) (t : Tree) : Spells (print spread t) (written t) := by
  cases spread with
  | false => exact spells_compact t
  | true => exact spells_pretty 0 t

/-! ### Data -/

/-- What follows the first item of a list. -/
def laterItems : List Tree → List Token
  | [] => []
  | item :: rest => .comma :: writtenItems (item :: rest)

/-- What follows the first field of a record. -/
def laterFields : List (String × Tree) → List Token
  | [] => []
  | field :: rest => .comma :: writtenFields (field :: rest)

theorem writtenItems_cons (item : Tree) (rest : List Tree) :
    writtenItems (item :: rest) = written item ++ laterItems rest := by
  cases rest <;> simp [writtenItems, laterItems]

theorem writtenFields_cons (name : String) (item : Tree) (rest : List (String × Tree)) :
    writtenFields ((name, item) :: rest) =
      .string (some name) :: .colon :: (written item ++ laterFields rest) := by
  cases rest <;> simp [writtenFields, laterFields]

theorem value_openList (stack : List Frame) (item : Tree) (rest : List Token) :
    value stack (.openList :: (written item ++ rest)) =
      value (.items [] :: stack) (written item ++ rest) := by
  cases item <;> simp [written, value]

mutual
theorem value_written (stack : List Frame) (rest : List Token) : ∀ t : Tree,
    value stack (written t ++ rest) = after stack t.toDatum rest
  | .null => rfl
  | .text s => rfl
  | .list [] => rfl
  | .list (item :: items) => by
    have hitems := after_laterItems stack rest items [] item.toDatum
    simp only [written, writtenItems_cons, List.cons_append, List.append_assoc, List.nil_append]
    rw [value_openList, value_written (.items [] :: stack) _ item, hitems]
    rfl
  | .record [] => rfl
  | .record ((name, item) :: fields) => by
    have hfields := after_laterFields stack rest fields [] (.text name) item.toDatum
    simp only [written, writtenFields_cons, List.cons_append, List.append_assoc, List.nil_append]
    rw [value, keyOf, value_written (.entries [] (.text name) :: stack) _ item, hfields]
    rfl

theorem after_laterItems (stack : List Frame) (rest : List Token) :
    ∀ (items : List Tree) (done : List Datum) (d : Datum),
      after (.items done :: stack) d (laterItems items ++ .closeList :: rest) =
        after stack (.list (done.reverse ++ d :: Tree.toData items)) rest
  | [], done, d => by simp [laterItems, after, Tree.toData]
  | item :: items, done, d => by
    have hitems := after_laterItems stack rest items (d :: done) item.toDatum
    rw [laterItems, writtenItems_cons, List.cons_append, List.append_assoc, after,
      value_written _ _ item, hitems]
    simp [Tree.toData]

theorem after_laterFields (stack : List Frame) (rest : List Token) :
    ∀ (fields : List (String × Tree)) (done : List (Key × Datum)) (key : Key) (d : Datum),
      after (.entries done key :: stack) d (laterFields fields ++ .closeRecord :: rest) =
        after stack (.record (done.reverse ++ (key, d) :: Tree.toEntries fields)) rest
  | [], done, key, d => by simp [laterFields, after, Tree.toEntries]
  | (name, item) :: fields, done, key, d => by
    have hfields :=
      after_laterFields stack rest fields ((key, d) :: done) (.text name) item.toDatum
    rw [laterFields, writtenFields_cons]
    simp only [List.cons_append, List.append_assoc]
    rw [after, keyOf, value_written _ _ item, hfields]
    simp [Tree.toEntries]
end

/-- A written tree is read as its datum, also if white space follows it. -/
theorem read_print (spread : Bool) (t : Tree) {spaces : List Char}
    (h : ∀ c ∈ spaces, isSpace c = true) : read (print spread t ++ spaces) = some t.toDatum := by
  have hspells := (spells_print spread t).append_spaces (Spells.spaces h) []
  have hend : tokens [] = some [] := by rw [tokens]; rfl
  rw [List.append_nil, hend, Option.map_some] at hspells
  rw [read, hspells, Option.bind_some]
  exact value_written [] [] t

theorem readProgram_print (spread : Bool) (p : Program) {spaces : List Char}
    (h : ∀ c ∈ spaces, isSpace c = true) :
    readProgram (print spread p.toTree ++ spaces) =
      if p.toTree.toDatum.depth ≤ nestingLimit then .ok p else .error (.invalid .mismatch) := by
  have hdatum : Program.ofDatum nestingLimit p.toTree.toDatum =
      if p.toTree.toDatum.depth ≤ nestingLimit then .ok p else .error .mismatch :=
    ofDatum_toTree 126 p
  simp only [readProgram, read_print spread p.toTree h, hdatum]
  split <;> rfl

end Json

/-- A program written as JSON, on one line or spread over lines, is read back as itself exactly if
it is not nested deeper than can be read. -/
theorem json_reads_back_iff (p : Program) (spread : Bool) :
    Stage.andThen (.serialize .json spread) (.parse .json) p = .ok p ↔
      p.toTree.toDatum.depth ≤ Json.nestingLimit := by
  have hread := Json.readProgram_print spread p (List.forall_mem_nil _)
  rw [List.append_nil] at hread
  have hstage : Stage.andThen (.serialize .json spread) (.parse .json) p =
      (Json.readProgram (Json.print spread p.toTree)).mapError .parse := by
    simp only [Stage.andThen, Stage.serialize, Stage.parse, Format.read, Format.print,
      String.toList_ofList]
  rw [hstage, hread]
  split
  · next hdepth => exact iff_of_true rfl hdepth
  · next hdepth => exact iff_of_false nofun hdepth

end OverDelimited
