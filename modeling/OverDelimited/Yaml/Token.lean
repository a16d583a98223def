import OverDelimited.Yaml.Scalar

/-!
# Tokens of a YAML text

Indentation shows in the token stream as block starts and block ends.  A mapping key is known to be
one only when its colon is met, so the place of each possible key is kept and the key token is put
in there afterwards.
-/

namespace OverDelimited.Yaml

/-- A token. -/
inductive Token where
  | versionDirective (major minor : Nat)
  | tagDirective (handle stem : List Char)
  | documentStart
  | documentEnd
  | sequenceStart
  | mappingStart
  | blockEnd
  | flowSequenceStart
  | flowSequenceEnd
  | flowMappingStart
  | flowMappingEnd
  | blockEntry
  | flowEntry
  | key
  | value
  | alias (name : List Char)
  | anchor (name : List Char)
  | tag (handle suffix : List Char)
  | scalar (style : Style) (text : List Char)
deriving DecidableEq, Repr

/-! ### The scanner's state -/

/-- A place where a key may start. -/
structure KeyPlace where
  /-- Whether the block ends in error unless a key does start here. -/
  required : Bool
  /-- How many tokens lie before the key. -/
  before : Nat
  index : Nat
  line : Nat
  column : Nat

/-- What is left to scan, and what has been scanned. -/
structure Scanner where
  cursor : Cursor
  /-- The tokens so far, the last one first. -/
  tokens : List Token := []
  /-- How many columns the current block is indented by, plus one; 0 outside of all blocks. -/
  least : Nat := 0
  /-- The same for the blocks around it. -/
  outer : List Nat := []
  /-- Whether a key may start at the next token. -/
  keyAllowed : Bool := true
  /-- The possible key of the current collection. -/
  place : Option KeyPlace := none
  /-- The possible keys of the collections around the current flow collection. -/
  places : List (Option KeyPlace) := []

namespace Scanner

/-- Whether the scanner is inside a flow collection. -/
def inFlow (s : Scanner) : Bool :=
  !s.places.isEmpty

/-- Adds a token. -/
def emit (t : Token) (s : Scanner) : Scanner :=
  { s with tokens := t :: s.tokens }

/-- Puts tokens in after the first `before` ones. -/
def insert (before : Nat) (ts : List Token) (s : Scanner) : Scanner :=
  let n := s.tokens.length - before
  { s with tokens := s.tokens.take n ++ ts.reverse ++ s.tokens.drop n }

/-- Moves over characters of the current line. -/
def skip (n : Nat) (s : Scanner) : Scanner :=
  { s with cursor := s.cursor.skip n }

/-! ### Indentation -/

/-- Opens a block at a column, if that is further in than the current block; `some` token starts
it. -/
def roll (column : Nat) (start : Token) (s : Scanner) : Option Token × Scanner :=
  if !s.inFlow && s.least < column + 1 then
    (some start, { s with least := column + 1, outer := s.least :: s.outer })
  else (none, s)

/-- Opens a block at the cursor. -/
def rollHere (start : Token) (s : Scanner) : Scanner :=
  match s.roll s.cursor.column start with
  | (some t, s) => s.emit t
  | (none, s) => s

/-- Closes the blocks that are indented by `least` columns or more. -/
def unrollTo (least : Nat) : List Nat → Scanner → Scanner
  | [], s => s
  | around :: outer, s =>
    if least < s.least then
      unrollTo least outer { s.emit .blockEnd with least := around, outer }
    else s

/-- Closes the blocks that are indented by `least` columns or more, outside of flow collections. -/
def unroll (least : Nat) (s : Scanner) : Scanner :=
  if s.inFlow then s else unrollTo least s.outer s

/-! ### Possible keys -/

/-- Gives up the possible key of the current collection. -/
def dropKey (s : Scanner) : Option Scanner :=
  if s.place.any (·.required) then none else some { s with place := none }

/-- Notes that a key may start at the cursor. -/
def noteKey (s : Scanner) : Option Scanner :=
  if s.keyAllowed then do
    let s ← s.dropKey
    let c := s.cursor
    some { s with place := some {
      required := !s.inFlow && s.least = c.column + 1
      before := s.tokens.length
      index := c.index
      line := c.line
      column := c.column } }
  else some s

/-- Whether a key that may start at a place can no longer reach the cursor: it ends on its line and
within 1024 characters. -/
def isStale (c : Cursor) (p : KeyPlace) : Bool :=
  p.line < c.line || p.index + 1024 < c.index

/-- A possible key, unless it is stale; a stale key that is required is an error. -/
def freshKey (c : Cursor) : Option KeyPlace → Option (Option KeyPlace)
  | none => some none
  | some p => if isStale c p then (if p.required then none else some none) else some (some p)

/-- Gives up all possible keys that are stale. -/
def dropStale (s : Scanner) : Option Scanner := do
  let place ← freshKey s.cursor s.place
  let places ← s.places.mapM (freshKey s.cursor)
  some { s with place, places }

/-! ### Between tokens -/

/-- Moves over spacing and comments, in at most `fuel` steps.  A tab is no indentation: it is passed
only where no key may start. -/
def toToken : Nat → Scanner → Scanner
  | 0, s => s
  | fuel + 1, s =>
    let c := s.cursor
    let c := if c.index = 0 && c.rest.head? = some '\ufeff' then c.skip 1 else c
    let passes (d : Char) : Bool := d = ' ' || ((s.inFlow || !s.keyAllowed) && d = '\t')
    let c := c.moveTo (c.rest.dropWhile passes)
    let c :=
      if c.rest.head? = some '#' then c.moveTo (c.rest.dropWhile fun d => !isBreak d) else c
    if c.rest.head?.any isBreak then
      toToken fuel { s with cursor := c.takeBreak.2, keyAllowed := s.keyAllowed || !s.inFlow }
    else { s with cursor := c }

/-! ### Marks -/

/-- Leaves all blocks for something that belongs to no block. -/
def leaveBlocks (s : Scanner) : Option Scanner := do
  let s ← (s.unroll 0).dropKey
  some { s with keyAllowed := false }

/-- The start of a flow collection. -/
def openFlow (t : Token) (s : Scanner) : Option Scanner := do
  let s ← s.noteKey
  some ({ s with places := s.place :: s.places, place := none, keyAllowed := true }
    |>.emit t |>.skip 1)

/-- The end of a flow collection. -/
def closeFlow (t : Token) (s : Scanner) : Option Scanner := do
  let s ← s.dropKey
  let s := match s.places with
    | [] => s
    | place :: places => { s with place, places }
  some ({ s with keyAllowed := false }.emit t |>.skip 1)

/-- The comma of a flow collection. -/
def flowComma (s : Scanner) : Option Scanner := do
  let s ← s.dropKey
  some ({ s with keyAllowed := true }.emit .flowEntry |>.skip 1)

/-- A mark that opens a block where a key could start. -/
def blockMark (start : Token) (s : Scanner) : Option Scanner :=
  if s.inFlow then some s
  else if s.keyAllowed then some (s.rollHere start)
  else none

/-- The dash of a block sequence. -/
def dash (s : Scanner) : Option Scanner := do
  let s ← s.blockMark .sequenceStart
  let s ← s.dropKey
  some ({ s with keyAllowed := true }.emit .blockEntry |>.skip 1)

/-- The question mark of an explicit key. -/
def question (s : Scanner) : Option Scanner := do
  let s ← s.blockMark .mappingStart
  let s ← s.dropKey
  some ({ s with keyAllowed := !s.inFlow }.emit .key |>.skip 1)

/-- The colon before a value.  If a key was possible, it has now been one. -/
def colon (s : Scanner) : Option Scanner :=
  match s.place with
  | some p =>
    let (start, s) := s.roll p.column .mappingStart
    let s := s.insert p.before (start.toList ++ [.key])
    some ({ s with place := none, keyAllowed := false }.emit .value |>.skip 1)
  | none => do
    let s ← s.blockMark .mappingStart
    some ({ s with keyAllowed := !s.inFlow }.emit .value |>.skip 1)

/-! ### Names and tags -/

/-- Whether what follows the name of an anchor or alias sets it off. -/
def endsName : List Char → Bool
  | [] => true
  | c :: _ => isSpacing c || "?:,]\x7d%@`".toList.contains c

/-- An anchor or an alias, after its mark. -/
def name (make : List Char → Token) (s : Scanner) : Option Scanner := do
  let s ← s.noteKey
  let s := s.skip 1
  let word := s.cursor.rest.takeWhile isWord
  let s := s.skip word.length
  if word = [] || !endsName s.cursor.rest then none
  some ({ s with keyAllowed := false }.emit (make word))

/-- The characters a tag may hold; a verbatim tag may also hold some flow marks. -/
def isTagChar (verbatim : Bool) (c : Char) : Bool :=
  isWord c || ";/?:@&=+$.!~*'()".toList.contains c || (verbatim && ",[]".toList.contains c)

/-- The bytes of escapes by number, as many as there are in a row. -/
def escapedBytes : List Char → Option (List UInt8 × List Char)
  | '%' :: a :: b :: rest => do
    let n ← Text.digits? 16 [a, b]
    let (bytes, rest) ← escapedBytes rest
    some (n.toUInt8 :: bytes, rest)
  | '%' :: _ => none
  | rest => some ([], rest)

/-- The text of a tag, in at most `fuel` steps. -/
def tagText (verbatim : Bool) : Nat → List Char → Option (List Char × List Char)
  | 0, _ => none
  | fuel + 1, cs =>
    match cs with
    | [] => some ([], [])
    | c :: rest =>
      if c = '%' then do
        let (bytes, rest) ← escapedBytes cs
        let decoded ← String.fromUTF8? ⟨bytes.toArray⟩
        let (text, rest) ← tagText verbatim fuel rest
        some (decoded.toList ++ text, rest)
      else if isTagChar verbatim c then
        (tagText verbatim fuel rest).map fun (text, rest) => (c :: text, rest)
      else some ([], cs)

/-- The handle of a tag with its exclamation marks, after the first of them. -/
def tagHandle (cs : List Char) : List Char × List Char :=
  let word := cs.takeWhile isWord
  match cs.dropWhile isWord with
  | '!' :: rest => ('!' :: word ++ ['!'], rest)
  | rest => ('!' :: word, rest)

/-- The handle and the suffix of a tag, and what follows it. -/
def tagParts (cs : List Char) : Option (List Char × List Char × List Char) :=
  match cs with
  | '!' :: '<' :: rest => do
    let (text, rest) ← tagText true (rest.length + 1) rest
    match text, rest with
    | _ :: _, '>' :: rest => some ([], text, rest)
    | _, _ => none
  | '!' :: rest => do
    let (handle, after) := tagHandle rest
    let (text, left) ← tagText false (after.length + 1) after
    if 1 < handle.length && handle.getLast? = some '!' then
      if text = [] then none else some (handle, text, left)
    else
      let suffix := handle.drop 1 ++ text
      if suffix = [] then some ([], ['!'], left) else some (['!'], suffix, left)
  | _ => none

/-- A tag. -/
def tag (s : Scanner) : Option Scanner := do
  let s ← s.noteKey
  let (handle, suffix, rest) ← tagParts s.cursor.rest
  if !atSpacing rest && !(s.inFlow && rest.head? = some ',') then none
  some ({ s with keyAllowed := false, cursor := s.cursor.moveTo rest }.emit (.tag handle suffix))

/-! ### Directives -/

/-- The numbers of a version. -/
def version (cs : List Char) : Option (Nat × Nat × List Char) := do
  let (major, rest) := Text.spanDigits cs
  let m ← Text.digits? 10 major
  match rest with
  | '.' :: rest =>
    let (minor, rest) := Text.spanDigits rest
    let n ← Text.digits? 10 minor
    if 9 < major.length || 9 < minor.length then none
    some (m, n, rest)
  | _ => none

/-- The handle a tag directive defines, and what it stands for. -/
def tagDefinition (cs : List Char) : Option (List Char × List Char × List Char) := do
  let (handle, rest) ← match cs with
    | '!' :: rest => some (tagHandle rest)
    | _ => none
  if handle.getLast? ≠ some '!' then none
  if !rest.head?.any Text.isBlank then none
  let (stem, rest) ← tagText true (rest.length + 1) (rest.dropWhile Text.isBlank)
  if stem = [] || !atSpacing rest then none
  some (handle, stem, rest)

/-- A directive, which takes the whole line. -/
def directive (s : Scanner) : Option Scanner := do
  let s ← s.leaveBlocks
  let rest := s.cursor.rest.drop 1
  let word := rest.takeWhile isWord
  let rest := rest.dropWhile isWord
  if word = [] || !atSpacing rest then none
  let blank := rest.dropWhile Text.isBlank
  let (token, rest) ←
    if word = "YAML".toList then
      (version blank).map fun (m, n, rest) => (Token.versionDirective m n, rest)
    else if word = "TAG".toList then
      (tagDefinition blank).map fun (handle, stem, rest) => (Token.tagDirective handle stem, rest)
    else none
  let c ← headerEnd (s.cursor.moveTo rest)
  some ({ s with cursor := c }.emit token)

/-! ### Scalars -/

/-- A block scalar, after its mark. -/
def blockScalar (style : Style) (s : Scanner) : Option Scanner := do
  let s ← s.dropKey
  let (text, c) ← block (style = .literal) s.least (s.cursor.skip 1)
  some ({ s with keyAllowed := true, cursor := c }.emit (.scalar style text))

/-- A quoted scalar. -/
def quotedScalar (style : Style) (s : Scanner) : Option Scanner := do
  let s ← s.noteKey
  let c := s.cursor.skip 1
  let (text, c) ← quoted (style = .single) (c.rest.length + 1) [] c
  some ({ s with keyAllowed := false, cursor := c }.emit (.scalar style text))

/-- A plain scalar. -/
def plainScalar (s : Scanner) : Option Scanner := do
  let s ← s.noteKey
  let (text, broken, c) ← plain s.inFlow s.least (s.cursor.rest.length + 1) [] {} s.cursor
  some ({ s with keyAllowed := broken, cursor := c }.emit (.scalar .plain text))

/-- Whether a plain scalar can start with a character, given what follows it. -/
def startsPlain (flow : Bool) (c : Char) (rest : List Char) : Bool :=
  if c = '-' then !rest.head?.any Text.isBlank
  else if c = '?' || c = ':' then !flow && !atSpacing rest
  else !isSpacing c && !",[]\x7b\x7d#&*!|>'\"%@`".toList.contains c

/-! ### All tokens -/

/-- Scans the token at the cursor, which is not at the end of the text. -/
def fetch (s : Scanner) : Option Scanner :=
  match s.cursor.rest with
  | [] => none
  | c :: rest =>
    if s.cursor.column = 0 && c = '%' then s.directive
    else if s.cursor.column = 0 && atDocumentMark '-' (c :: rest) then do
      some ((← s.leaveBlocks).emit .documentStart |>.skip 3)
    else if s.cursor.column = 0 && atDocumentMark '.' (c :: rest) then do
      some ((← s.leaveBlocks).emit .documentEnd |>.skip 3)
    else if c = '[' then s.openFlow .flowSequenceStart
    else if c = '\x7b' then s.openFlow .flowMappingStart
    else if c = ']' then s.closeFlow .flowSequenceEnd
    else if c = '\x7d' then s.closeFlow .flowMappingEnd
    else if c = ',' then s.flowComma
    else if c = '-' && atSpacing rest then s.dash
    else if c = '?' && (s.inFlow || atSpacing rest) then s.question
    else if c = ':' && (s.inFlow || atSpacing rest) then s.colon
    else if c = '*' then s.name .alias
    else if c = '&' then s.name .anchor
    else if c = '!' then s.tag
    else if c = '|' && !s.inFlow then s.blockScalar .literal
    else if c = '>' && !s.inFlow then s.blockScalar .folded
    else if c = '\x27' then s.quotedScalar .single
    else if c = '"' then s.quotedScalar .double
    else if startsPlain s.inFlow c rest then s.plainScalar
    else none

/-- Scans to the end of the text, in at most `fuel` steps. -/
def run : Nat → Scanner → Option Scanner
  | 0, _ => none
  | fuel + 1, s => do
    let s ← (s.toToken (s.cursor.rest.length + 1)).dropStale
    let s := s.unroll (s.cursor.column + 1)
    if s.cursor.rest = [] then (s.unroll 0).dropKey
    else
      let s ← s.fetch
      run fuel s

end Scanner

/-- The tokens of a text. -/
def tokens (text : List Char) : Option (List Token) :=
  if text.all isAllowed then
    (Scanner.run (text.length + 1) { cursor := .start text }).map fun s => s.tokens.reverse
  else none

end OverDelimited.Yaml
