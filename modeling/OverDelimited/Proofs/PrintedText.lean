import OverDelimited.CommandLine.Outcome
import OverDelimited.Proofs.JsonText

/-!
# Printed texts

A program is printed without the white space at the end of its text, on lines of its own.  A JSON
text ends in a brace, so nothing is lost.  A YAML text ends in the text that stands last in the
program, in the style it happens to have: quotes protect its end, but a plain text or a block loses
its last characters if they are white space.  Main statement: what is printed reads as what was
written in JSON always, and in YAML if the last text keeps its end, which is exactly if printing
leaves the written text as it is.
-/

namespace OverDelimited

/-! ### White space at the end -/

namespace Text

theorem trimEnd_concat (cs : List Char) (c : Char) :
    trimEnd (cs ++ [c]) = if isWhitespace c then trimEnd cs else cs ++ [c] := by
  simp only [trimEnd, List.reverse_append, List.reverse_cons, List.reverse_nil, List.nil_append,
    List.cons_append, List.dropWhile_cons]
  split
  · rfl
  · simp

theorem length_trimEnd_le (cs : List Char) : (trimEnd cs).length ≤ cs.length := by
  have h := (List.dropWhile_suffix (l := cs.reverse) isWhitespace).length_le
  simpa [trimEnd] using h

/-- Printing leaves the text as it is. -/
def Settled (cs : List Char) : Prop :=
  trimEnd cs ++ ['\n'] = cs

theorem settled_line_iff (cs : List Char) (c : Char) :
    Settled (cs ++ [c] ++ ['\n']) ↔ isWhitespace c = false := by
  have htrim : trimEnd (cs ++ [c] ++ ['\n']) = trimEnd (cs ++ [c]) := trimEnd_concat _ _
  rw [Settled, htrim, List.append_cancel_right_eq, trimEnd_concat]
  cases hc : isWhitespace c with
  | false => simp
  | true =>
    have hne : trimEnd cs ≠ cs ++ [c] := by
      intro h
      have hlength := length_trimEnd_le cs
      rw [h, List.length_append, List.length_singleton] at hlength
      omega
    simpa using hne

theorem settled_line (cs : List Char) {c : Char} (h : isWhitespace c = false) :
    Settled (cs ++ [c] ++ ['\n']) :=
  (settled_line_iff cs c).2 h

theorem not_settled_line (cs : List Char) {c : Char} (h : isWhitespace c = true) :
    ¬Settled (cs ++ [c] ++ ['\n']) := by
  rw [settled_line_iff, h]
  exact Bool.noConfusion

theorem eq_newline_of_settled {cs : List Char} {c : Char} (h : Settled (cs ++ [c])) :
    c = '\n' := by
  have hlast := congrArg List.getLast? h
  simp only [List.getLast?_concat, Option.some.injEq] at hlast
  exact hlast.symm

end Text

/-! ### The text that stands last -/

mutual
/-- The text that stands last in a tree, if it ends in one. -/
def Tree.lastText? : Tree → Option String
  | .null => none
  | .text s => some s
  | .list items => Tree.lastTextOfItems? items
  | .record fields => Tree.lastTextOfFields? fields

/-- The text that stands last in the last item. -/
def Tree.lastTextOfItems? : List Tree → Option String
  | [] => none
  | [item] => item.lastText?
  | _ :: rest => Tree.lastTextOfItems? rest

/-- The text that stands last in the last field. -/
def Tree.lastTextOfFields? : List (String × Tree) → Option String
  | [] => none
  | [(_, item)] => item.lastText?
  | _ :: rest => Tree.lastTextOfFields? rest
end

namespace Yaml

open Text

/-- The last character of a text, but for one line feed that ends it. -/
def lastInLine? (cs : List Char) : Option Char :=
  if cs.getLast? = some '\n' then cs.dropLast.getLast? else cs.getLast?

/-- Whether a text is written so that its end stays when white space behind it goes: in quotes, or
without white space of its own at the end. -/
def keepsEnd (cs : List Char) : Bool :=
  match styleOf cs with
  | .plain | .literal => (lastInLine? cs).any (!isWhitespace ·)
  | _ => true

/-! ### The end of a written text -/

theorem indentLines_concat_newline (indent : Nat) (cs : List Char) (fresh : Bool) :
    indentLines indent fresh (cs ++ ['\n']) = indentLines indent fresh cs ++ ['\n'] := by
  induction cs generalizing fresh with
  | nil => simp [indentLines, isBreak]
  | cons c cs ih =>
    simp only [List.cons_append, indentLines]
    split <;> simp [ih]

theorem indentLines_concat (indent : Nat) (cs : List Char) (c : Char) (fresh : Bool) :
    ∃ ds, indentLines indent fresh (cs ++ [c]) = ds ++ [c] := by
  induction cs generalizing fresh with
  | nil =>
    rw [List.nil_append, indentLines]
    split
    · exact ⟨[], rfl⟩
    · exact ⟨_, rfl⟩
  | cons d cs ih =>
    simp only [List.cons_append, indentLines]
    split
    · obtain ⟨ds, hds⟩ := ih true
      exact ⟨d :: ds, by rw [hds]; rfl⟩
    · obtain ⟨ds, hds⟩ := ih false
      exact ⟨_ ++ d :: ds, by rw [hds, List.append_assoc]; rfl⟩

theorem lastInLine?_newline (cs : List Char) : lastInLine? (cs ++ ['\n']) = cs.getLast? := by
  simp [lastInLine?]

theorem lastInLine?_concat {c : Char} (cs : List Char) (h : c ≠ '\n') :
    lastInLine? (cs ++ [c]) = some c := by
  simp [lastInLine?, h]

theorem isWhitespace_of_isBreak {c : Char} (h : isBreak c = true) : isWhitespace c = true := by
  simp only [isBreak, Bool.or_eq_true, decide_eq_true_eq] at h
  rcases h with (((rfl | rfl) | rfl) | rfl) | rfl <;> rfl

theorem settled_block_iff (before : List Char) (indent : Nat) (cs : List Char) :
    Settled (before ++ ['\n'] ++ indentLines indent true cs ++
        if cs.getLast?.any isBreak then [] else ['\n']) ↔
      (lastInLine? cs).any (!isWhitespace ·) = true := by
  have hblank := not_settled_line before (c := '\n') rfl
  -- the block ends as its text does, with a line feed added unless the text brings one
  obtain rfl | ⟨ds, c, rfl⟩ := List.eq_nil_or_concat cs
  · simpa [indentLines, lastInLine?] using hblank
  rw [List.concat_eq_append]
  by_cases hc : c = '\n'
  · subst hc
    rw [indentLines_concat_newline, lastInLine?_newline]
    obtain rfl | ⟨es, d, rfl⟩ := List.eq_nil_or_concat ds
    · simpa [indentLines, isBreak] using hblank
    · obtain ⟨fs, hfs⟩ := indentLines_concat indent es d true
      have hline := settled_line_iff (before ++ ['\n'] ++ fs) d
      simpa [hfs, isBreak] using hline
  · obtain ⟨fs, hfs⟩ := indentLines_concat indent ds c true
    rw [hfs, lastInLine?_concat ds hc, List.getLast?_concat, Option.any_some]
    cases hbreak : isBreak c with
    | true =>
      have hnot : ¬Settled (before ++ ['\n'] ++ fs ++ [c]) := fun h => hc (eq_newline_of_settled h)
      simpa [isWhitespace_of_isBreak hbreak] using hnot
    | false =>
      have hline := settled_line_iff (before ++ ['\n'] ++ fs) c
      simpa using hline

theorem contains_newline_of_plain {cs : List Char} (h : styleOf cs = .plain) :
    cs.contains '\n' = false := by
  cases hc : cs.contains '\n' with
  | false => rfl
  | true =>
    rw [styleOf, if_pos hc] at h
    split at h <;> cases h

theorem settled_plain_iff (before : List Char) {cs : List Char} (h : cs.contains '\n' = false) :
    Settled (before ++ ' ' :: cs ++ ['\n']) ↔ (lastInLine? cs).any (!isWhitespace ·) = true := by
  obtain rfl | ⟨ds, c, rfl⟩ := List.eq_nil_or_concat cs
  · have hblank := not_settled_line before (c := ' ') rfl
    simpa [lastInLine?] using hblank
  · have hc : c ≠ '\n' := by
      rintro rfl
      simp at h
    have hline := settled_line_iff (before ++ ' ' :: ds) c
    simpa [lastInLine?_concat ds hc] using hline

theorem settled_double (before cs : List Char) : Settled (before ++ double cs ++ ['\n']) := by
  rw [double, ← List.append_assoc]
  exact settled_line _ rfl

theorem settled_single (before : List Char) (indent : Nat) (cs : List Char) :
    Settled (before ++ single indent cs ++ ['\n']) := by
  rw [single, ← List.append_assoc]
  exact settled_line _ rfl

/-- A written text is settled exactly if it keeps its end. -/
theorem settled_scalar_iff (before : List Char) (indent : Nat) (cs : List Char) :
    Settled (before ++ ' ' :: scalar indent cs) ↔ keepsEnd cs = true := by
  cases hstyle : styleOf cs with
  | plain =>
    have hplain := settled_plain_iff before (contains_newline_of_plain hstyle)
    simpa [scalar, keepsEnd, hstyle] using hplain
  | literal =>
    have hblock := settled_block_iff (before ++ ' ' :: '|' :: blockHints cs) indent cs
    simpa [scalar, keepsEnd, hstyle] using hblock
  | single => simpa [scalar, keepsEnd, hstyle] using settled_single (before ++ [' ']) indent cs
  | double | folded => simpa [scalar, keepsEnd, hstyle] using settled_double (before ++ [' ']) cs

/-! ### The end of a written tree -/

theorem settled_null (before : List Char) : Settled (before ++ " null\n".toList) := by
  have hline := settled_line (before ++ [' ', 'n', 'u', 'l']) (c := 'l') rfl
  simpa using hline

theorem settled_emptyList (before : List Char) : Settled (before ++ " []\n".toList) := by
  have hline := settled_line (before ++ [' ', '[']) (c := ']') rfl
  simpa using hline

theorem settled_emptyRecord (before : List Char) :
    Settled (before ++ [' ', '\x7b', '\x7d', '\n']) := by
  have hline := settled_line (before ++ [' ', '\x7b']) (c := '\x7d') rfl
  simpa using hline

/-- The first of some items, behind the column they stand at. -/
theorem drop_blockItems (column : Nat) (item : Tree) (rest : List Tree) :
    (blockItems column (item :: rest)).drop column =
      '-' :: itemValue column item ++ blockItems column rest := by
  rw [blockItems, List.append_assoc, List.drop_left' List.length_replicate]

/-- The first of some fields, behind the column they stand at. -/
theorem drop_blockFields (column : Nat) (name : String) (item : Tree)
    (rest : List (String × Tree)) :
    (blockFields column ((name, item) :: rest)).drop column =
      fieldName column name.toList ++ ':' :: fieldValue column item ++ blockFields column rest := by
  rw [blockFields, List.append_assoc, List.append_assoc, List.drop_left' List.length_replicate,
    List.append_assoc]

/-- Whether the text that stands last, if there is one, is written so that it keeps its end. -/
def lastKeepsEnd (last : Option String) : Bool :=
  last.all fun s => keepsEnd s.toList

mutual
theorem settled_fieldValue (before : List Char) (column : Nat) : ∀ t : Tree,
    Settled (before ++ ':' :: fieldValue column t) ↔ lastKeepsEnd t.lastText? = true
  | .null => by
    simpa [fieldValue, Tree.lastText?, lastKeepsEnd] using settled_null (before ++ [':'])
  | .text s => by
    simpa [fieldValue, Tree.lastText?, lastKeepsEnd] using
      settled_scalar_iff (before ++ [':']) (column + 2) s.toList
  | .list [] => by
    simpa [fieldValue, Tree.lastText?, Tree.lastTextOfItems?, lastKeepsEnd] using
      settled_emptyList (before ++ [':'])
  | .list (item :: rest) => by
    have h := settled_items (before ++ ':' :: '\n' :: List.replicate column ' ') column
      (item :: rest) nofun
    simpa [fieldValue, blockItems, drop_blockItems, Tree.lastText?] using h
  | .record [] => by
    simpa [fieldValue, Tree.lastText?, Tree.lastTextOfFields?, lastKeepsEnd] using
      settled_emptyRecord (before ++ [':'])
  | .record ((name, item) :: rest) => by
    have h := settled_fields (before ++ ':' :: '\n' :: List.replicate (column + 2) ' ')
      (column + 2) ((name, item) :: rest) nofun
    simpa [fieldValue, blockFields, drop_blockFields, Tree.lastText?] using h

theorem settled_itemValue (before : List Char) (column : Nat) : ∀ t : Tree,
    Settled (before ++ '-' :: itemValue column t) ↔ lastKeepsEnd t.lastText? = true
  | .null => by
    simpa [itemValue, Tree.lastText?, lastKeepsEnd] using settled_null (before ++ ['-'])
  | .text s => by
    simpa [itemValue, Tree.lastText?, lastKeepsEnd] using
      settled_scalar_iff (before ++ ['-']) (column + 2) s.toList
  | .list [] => by
    simpa [itemValue, Tree.lastText?, Tree.lastTextOfItems?, lastKeepsEnd] using
      settled_emptyList (before ++ ['-'])
  | .list (item :: rest) => by
    have h := settled_items (before ++ ['-', ' ']) (column + 2) (item :: rest) nofun
    simpa [itemValue, Tree.lastText?] using h
  | .record [] => by
    simpa [itemValue, Tree.lastText?, Tree.lastTextOfFields?, lastKeepsEnd] using
      settled_emptyRecord (before ++ ['-'])
  | .record (field :: rest) => by
    have h := settled_fields (before ++ ['-', ' ']) (column + 2) (field :: rest) nofun
    simpa [itemValue, Tree.lastText?] using h

theorem settled_items (before : List Char) (column : Nat) : ∀ items : List Tree, items ≠ [] →
    (Settled (before ++ (blockItems column items).drop column) ↔
      lastKeepsEnd (Tree.lastTextOfItems? items) = true)
  | [item], _ => by
    have h := settled_itemValue before column item
    simpa [drop_blockItems, blockItems, Tree.lastTextOfItems?] using h
  | item :: next :: rest, _ => by
    have h := settled_items (before ++ '-' :: itemValue column item ++ List.replicate column ' ')
      column (next :: rest) nofun
    simpa [drop_blockItems, blockItems, Tree.lastTextOfItems?] using h

theorem settled_fields (before : List Char) (column : Nat) :
    ∀ fields : List (String × Tree), fields ≠ [] →
      (Settled (before ++ (blockFields column fields).drop column) ↔
        lastKeepsEnd (Tree.lastTextOfFields? fields) = true)
  | [(name, item)], _ => by
    have h := settled_fieldValue (before ++ fieldName column name.toList) column item
    simpa [drop_blockFields, blockFields, Tree.lastTextOfFields?] using h
  | (name, item) :: (next, value) :: rest, _ => by
    have h := settled_fields (before ++ fieldName column name.toList ++
      ':' :: fieldValue column item ++ List.replicate column ' ') column
      ((next, value) :: rest) nofun
    simpa [drop_blockFields, blockFields, Tree.lastTextOfFields?] using h
end

/-- The text of a program is settled exactly if its last text keeps its end. -/
theorem settled_print_iff (p : Program) :
    Settled (print p.toTree) ↔ lastKeepsEnd p.toTree.lastText? = true :=
  settled_fields [] 0 [("body", .list (Expr.toTrees p.body))] nofun

end Yaml

namespace Json

/-- A record ends in a brace, so that no white space is lost. -/
theorem trimEnd_print (spread : Bool) (p : Program) :
    Text.trimEnd (print spread p.toTree) = print spread p.toTree := by
  have hbrace : ∃ cs, print spread p.toTree = cs ++ ['\x7d'] := by
    cases spread with
    | false => exact ⟨_, rfl⟩
    | true => exact ⟨_, rfl⟩
  obtain ⟨cs, hcs⟩ := hbrace
  rw [hcs, Text.trimEnd_concat]
  rfl

end Json

namespace CommandLine

/-! ### Reading what is printed -/

theorem printed_eq_self_iff (text : String) : printed text = text ↔ Text.Settled text.toList := by
  rw [printed, Text.Settled, ← String.toList_inj, String.toList_append, String.toList_ofList]
  rfl

theorem read_printed_json (spread : Bool) (p : Program) :
    Format.json.read (printed (Format.json.print spread p)) =
      Format.json.read (Format.json.print spread p) := by
  have hspace : ∀ c ∈ ['\n'], Json.isSpace c = true := by simp [Json.isSpace]
  have hline := Json.readProgram_print spread p hspace
  have hbare := Json.readProgram_print spread p (List.forall_mem_nil _)
  rw [List.append_nil] at hbare
  simp only [Format.read, Format.print, printed, String.toList_append, String.toList_ofList,
    Json.trimEnd_print, hbare]
  exact hline

theorem printed_yaml_iff (spread : Bool) (p : Program) :
    printed (Format.yaml.print spread p) = Format.yaml.print spread p ↔
      Yaml.lastKeepsEnd p.toTree.lastText? = true := by
  rw [printed_eq_self_iff, Format.print, String.toList_ofList]
  exact Yaml.settled_print_iff p

/-- What is printed of a program reads as the text it is written as: in JSON always, and in YAML if
the text that stands last keeps its end, which is exactly if printing leaves the YAML text as it
is. -/
theorem printed_reads_as_written (p : Program) (spread : Bool) :
    (∀ f : Format, (f = .yaml → Yaml.lastKeepsEnd p.toTree.lastText? = true) →
      f.read (printed (f.print spread p)) = f.read (f.print spread p)) ∧
    (printed (Format.yaml.print spread p) = Format.yaml.print spread p ↔
      Yaml.lastKeepsEnd p.toTree.lastText? = true) := by
  refine ⟨fun f h => ?_, printed_yaml_iff spread p⟩
  cases f with
  | json => exact read_printed_json spread p
  | yaml => rw [(printed_yaml_iff spread p).2 (h rfl)]

/-- A block that ends in one line break is read back from what is printed. -/
theorem block_reads_as_written :
    Yaml.lastKeepsEnd (some "one\ntwo\n") = true ∧
      Format.yaml.read (printed (Format.yaml.print true ⟨[.string "one\ntwo\n"]⟩)) =
        Format.yaml.read (Format.yaml.print true ⟨[.string "one\ntwo\n"]⟩) := by
  have hends : Yaml.lastKeepsEnd (some "one\ntwo\n") = true := by decide +kernel
  exact ⟨hends, (printed_reads_as_written ⟨[.string "one\ntwo\n"]⟩ true).1 .yaml fun _ => hends⟩

/-- A plain name that ends in a no-break space loses it, and a block that ends in two line breaks
loses one of them. -/
theorem printed_text_loses_its_end :
    (Format.yaml.read (Format.yaml.print true ⟨[.identifier "a\u00a0"]⟩) =
        .ok ⟨[.identifier "a\u00a0"]⟩ ∧
      Format.yaml.read (printed (Format.yaml.print true ⟨[.identifier "a\u00a0"]⟩)) =
        .ok ⟨[.identifier "a"]⟩) ∧
    (Format.yaml.read (Format.yaml.print true ⟨[.string "a\n\n"]⟩) = .ok ⟨[.string "a\n\n"]⟩ ∧
      Format.yaml.read (printed (Format.yaml.print true ⟨[.string "a\n\n"]⟩)) =
        .ok ⟨[.string "a\n"]⟩) := by
  have hread {text : String} {p : Program} (h : Yaml.readProgram text.toList = some p) :
      Format.yaml.read text = .ok p := by
    simp only [Format.read, h]
  exact ⟨⟨hread (by decide +kernel), hread (by decide +kernel)⟩,
    ⟨hread (by decide +kernel), hread (by decide +kernel)⟩⟩

end CommandLine

end OverDelimited
