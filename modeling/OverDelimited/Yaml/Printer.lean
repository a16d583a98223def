import OverDelimited.Tree
import OverDelimited.Yaml.Scalar
import OverDelimited.Yaml.Schema

/-!
# YAML output

Collections are written as blocks, two columns further in a level, but a sequence stands at the
column of the mapping it belongs to.  A text with a line feed is a literal block where it can be
one.  Any other text is plain if it reads back as the same text, and quoted otherwise: in double
quotes if it holds a character that must be escaped, in single quotes if not.
-/

namespace OverDelimited.Yaml

/-! ### What a text holds -/

/-- Whether a character can be written as it is. -/
def isPrintable (c : Char) : Bool :=
  let n := c.toNat
  n = 0x0a || (0x20 ≤ n && n ≤ 0x7e) || (0xa0 ≤ n && n ≠ 0xfeff && n ≠ 0xfffe && n ≠ 0xffff)

/-- Whether the first of two characters in a row meets `p` and the second meets `q`. -/
def hasPair (p q : Char → Bool) : List Char → Bool
  | a :: b :: rest => (p a && q b) || hasPair p q (b :: rest)
  | _ => false

/-- Whether a space stands directly before a line break, or a character needs an escape. -/
def needsEscapes (cs : List Char) : Bool :=
  hasPair (· = ' ') isBreak cs || !cs.all isPrintable

/-- Whether a text can be a literal block. -/
def canBeBlock (cs : List Char) : Bool :=
  !needsEscapes cs && cs ≠ [] && cs.getLast? ≠ some ' '

/-- Whether a text can stand in single quotes. -/
def canBeSingle (cs : List Char) : Bool :=
  !needsEscapes cs && !hasPair isBreak (· = ' ') cs

/-! ### Plain texts -/

/-- Marks that no plain text starts with. -/
def leadingMarks : List Char :=
  "#,[]\x7b\x7d&*!|>'\"%@`".toList

/-- Whether a mark within a text would be read as structure; the text before it ends in spacing if
`spaced` holds. -/
def hasInnerMark (spaced : Bool) : List Char → Bool
  | [] => false
  | c :: rest =>
    (c = ':' && atSpacing rest) || (c = '#' && spaced) || hasInnerMark (isSpacing c) rest

/-- Whether the first character of a text would be read as structure. -/
def hasLeadingMark : List Char → Bool
  | [] => false
  | c :: rest =>
    leadingMarks.contains c || ((c = '?' || c = ':' || c = '-') && atSpacing rest)

/-- Whether a text starts like a document mark. -/
def startsDocument (cs : List Char) : Bool :=
  cs.take 3 = ['-', '-', '-'] || cs.take 3 = ['.', '.', '.']

/-- Whether a text can stand without quotes in a block. -/
def canBePlain (cs : List Char) : Bool :=
  !needsEscapes cs && !cs.any isBreak && cs.head? ≠ some ' ' && cs.getLast? ≠ some ' ' &&
    !startsDocument cs && !hasLeadingMark cs &&
    !hasInnerMark (cs.head?.any isSpacing) (cs.drop 1)

/-- Whether a text without quotes would be read as something else than text, or looks as if. -/
def isAmbiguous (cs : List Char) : Bool :=
  plainValue cs ≠ .text || isPadded cs

/-- The style a text is written in. -/
def styleOf (cs : List Char) : Style :=
  if cs.contains '\n' then (if canBeBlock cs then .literal else .double)
  else if !isAmbiguous cs && canBePlain cs then .plain
  else if canBeSingle cs then .single
  else .double

/-! ### Writing texts -/

/-- The letter of an escape. -/
def escapeLetter? (c : Char) : Option Char :=
  match c with
  | '\x00' => some '0'
  | '\x07' => some 'a'
  | '\x08' => some 'b'
  | '\t' => some 't'
  | '\n' => some 'n'
  | '\x0b' => some 'v'
  | '\x0c' => some 'f'
  | '\r' => some 'r'
  | '\x1b' => some 'e'
  | '"' => some '"'
  | '\\' => some '\\'
  | '\u0085' => some 'N'
  | '\u2028' => some 'L'
  | '\u2029' => some 'P'
  | _ => none

/-- A number in upper-case hexadecimal digits, filled up with zeros. -/
def hexadecimal (width n : Nat) : List Char :=
  let digits := (Nat.toDigits 16 n).map Char.toUpper
  List.replicate (width - digits.length) '0' ++ digits

/-- How one character is written between double quotes. -/
def escapeChar (c : Char) : List Char :=
  match escapeLetter? c with
  | some letter => ['\\', letter]
  | none =>
    if isPrintable c then [c]
    else if c.toNat ≤ 0xff then '\\' :: 'x' :: hexadecimal 2 c.toNat
    else if c.toNat ≤ 0xffff then '\\' :: 'u' :: hexadecimal 4 c.toNat
    else '\\' :: 'U' :: hexadecimal 8 c.toNat

/-- A text in double quotes. -/
def double (cs : List Char) : List Char :=
  '"' :: cs.flatMap escapeChar ++ ['"']

/-- A text with its lines indented, except those that are empty.  A line is under way unless
`fresh` holds. -/
def indentLines (indent : Nat) : Bool → List Char → List Char
  | _, [] => []
  | fresh, c :: rest =>
    if isBreak c then c :: indentLines indent true rest
    else (if fresh then List.replicate indent ' ' else []) ++ c :: indentLines indent false rest

/-- A text in single quotes, with quotes inside it doubled. -/
def single (indent : Nat) (cs : List Char) : List Char :=
  let doubled := cs.flatMap fun c => if c = '\x27' then ['\x27', '\x27'] else [c]
  let closing := if cs.getLast?.any isBreak then List.replicate indent ' ' else []
  '\x27' :: indentLines indent false doubled ++ closing ++ ['\x27']

/-- The header of a literal block: whether its indentation must be given, and what becomes of the
line breaks at its end. -/
def blockHints (cs : List Char) : List Char :=
  let indentation := if cs.head?.any (fun c => c = ' ' || isBreak c) then ['2'] else []
  let chomping := match cs.reverse with
    | last :: before =>
      if !isBreak last then ['-']
      else if before.head?.all isBreak then ['+']
      else []
    | [] => ['-']
  indentation ++ chomping

/-- A text in its style, on lines that end where it does; its lines stand at the given column.  A
literal block that ends in a line break needs no other. -/
def scalar (indent : Nat) (cs : List Char) : List Char :=
  match styleOf cs with
  | .plain => cs ++ ['\n']
  | .single => single indent cs ++ ['\n']
  | .literal =>
    '|' :: blockHints cs ++ '\n' :: indentLines indent true cs ++
      (if cs.getLast?.any isBreak then [] else ['\n'])
  | _ => double cs ++ ['\n']

/-- A name in front of a colon. -/
def fieldName (column : Nat) (cs : List Char) : List Char :=
  match styleOf cs with
  | .plain => cs
  | .single => single column cs
  | _ => double cs

/-! ### Writing trees -/

mutual
/-- What follows the colon of a field of a mapping at the given column. -/
def fieldValue (column : Nat) : Tree → List Char
  | .null => " null\n".toList
  | .text s => ' ' :: scalar (column + 2) s.toList
  | .list [] => " []\n".toList
  | .list items => '\n' :: blockItems column items
  | .record [] => [' ', '\x7b', '\x7d', '\n']
  | .record fields => '\n' :: blockFields (column + 2) fields

/-- What follows the dash of an item of a sequence at the given column. -/
def itemValue (column : Nat) : Tree → List Char
  | .null => " null\n".toList
  | .text s => ' ' :: scalar (column + 2) s.toList
  | .list [] => " []\n".toList
  | .list items => ' ' :: (blockItems (column + 2) items).drop (column + 2)
  | .record [] => [' ', '\x7b', '\x7d', '\n']
  | .record fields => ' ' :: (blockFields (column + 2) fields).drop (column + 2)

/-- The items of a sequence at the given column. -/
def blockItems (column : Nat) : List Tree → List Char
  | [] => []
  | item :: rest =>
    List.replicate column ' ' ++ '-' :: itemValue column item ++ blockItems column rest

/-- The fields of a mapping at the given column. -/
def blockFields (column : Nat) : List (String × Tree) → List Char
  | [] => []
  | (name, item) :: rest =>
    List.replicate column ' ' ++ fieldName column name.toList ++ ':' :: fieldValue column item ++
      blockFields column rest
end

/-- A tree as a YAML text. -/
def print : Tree → List Char
  | .null => "null\n".toList
  | .text s => scalar 2 s.toList
  | .list [] => "[]\n".toList
  | .list items => blockItems 0 items
  | .record [] => ['\x7b', '\x7d', '\n']
  | .record fields => blockFields 0 fields

end OverDelimited.Yaml
