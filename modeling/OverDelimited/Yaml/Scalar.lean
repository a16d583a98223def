import OverDelimited.Text.Decimal
import OverDelimited.Yaml.Cursor

/-!
# Scalars of a YAML text

The five ways to write a text: plain, in single or double quotes, and as a literal or folded block.
In the first three, spacing that holds a line break is folded: one break is a space, further breaks
stay.  In a literal block every break stays; in a folded block breaks between lines of text fold.
-/

namespace OverDelimited.Yaml

/-- How a scalar is written. -/
inductive Style where
  | plain
  | single
  | double
  | literal
  | folded
deriving DecidableEq, Repr

/-! ### Spacing inside a scalar -/

/-- Spacing between two parts of a scalar. -/
structure Gap where
  /-- Whether a line break has been met. -/
  broken : Bool := false
  /-- The blanks before the first break. -/
  blanks : List Char := []
  /-- The first break. -/
  first : List Char := []
  /-- The breaks after the first. -/
  later : List Char := []

/-- What spacing stands for. -/
def Gap.text (g : Gap) : List Char :=
  if g.broken then
    if g.first = ['\n'] then (if g.later = [] then [' '] else g.later) else g.first ++ g.later
  else g.blanks

/-- Takes spacing, in at most `fuel` steps.  With a least column given, a tab left of it on a line
after the first is refused. -/
def takeGap (least : Option Nat) : Nat → Gap → Cursor → Option (Gap × Cursor)
  | 0, g, c => some (g, c)
  | fuel + 1, g, c =>
    match c.rest with
    | [] => some (g, c)
    | b :: _ =>
      if Text.isBlank b then
        if g.broken && b = '\t' && least.any (c.column < ·) then none
        else if g.broken then takeGap least fuel g (c.skip 1)
        else takeGap least fuel { g with blanks := g.blanks ++ [b] } (c.skip 1)
      else if isBreak b then
        let (br, c) := c.takeBreak
        if g.broken then takeGap least fuel { g with later := g.later ++ br } c
        else takeGap least fuel { g with broken := true, blanks := [], first := br } c
      else some (g, c)

/-! ### Plain scalars -/

/-- The characters that structure flow collections. -/
def isFlowMark (c : Char) : Bool :=
  c = ',' || c = '[' || c = ']' || c = '\x7b' || c = '\x7d'

/-- A run of a plain scalar, up to spacing or a mark that ends the scalar.  In a flow collection a
colon may not stand directly before a mark. -/
def plainRun (flow : Bool) : List Char → Option (List Char × List Char)
  | [] => some ([], [])
  | c :: rest =>
    if isSpacing c then some ([], c :: rest)
    else if flow && c = ':' && rest.head?.any (fun d => isFlowMark d || d = '?') then none
    else if (c = ':' && atSpacing rest) || (flow && isFlowMark c) then some ([], c :: rest)
    else (plainRun flow rest).map fun (run, rest) => (c :: run, rest)

/-- A plain scalar in a block that is indented by less than `least` columns: its text, whether the
spacing after it holds a line break, and the place after that spacing. -/
def plain (flow : Bool) (least : Nat) :
    Nat → List Char → Gap → Cursor → Option (List Char × Bool × Cursor)
  | 0, _, _, _ => none
  | fuel + 1, text, gap, c => do
    if c.atDocumentEdge || c.rest.head? = some '#' then
      return (text, gap.broken, c)
    let (run, rest) ← plainRun flow c.rest
    if run = [] then
      return (text, gap.broken, c)
    let text := text ++ gap.text ++ run
    let c := c.moveTo rest
    if rest = [] || !atSpacing rest then
      return (text, false, c)
    let (gap, c) ← takeGap (some least) (c.rest.length + 1) {} c
    if !flow && c.column < least then
      return (text, gap.broken, c)
    plain flow least fuel text gap c

/-! ### Quoted scalars -/

/-- The character of an escape by letter. -/
def escaped? (c : Char) : Option Char :=
  match c with
  | '0' => some '\x00'
  | 'a' => some '\x07'
  | 'b' => some '\x08'
  | 't' | '\t' => some '\t'
  | 'n' => some '\n'
  | 'v' => some '\x0b'
  | 'f' => some '\x0c'
  | 'r' => some '\r'
  | 'e' => some '\x1b'
  | ' ' => some ' '
  | '"' => some '"'
  | '/' => some '/'
  | '\\' => some '\\'
  | 'N' => some '\u0085'
  | '_' => some '\u00a0'
  | 'L' => some '\u2028'
  | 'P' => some '\u2029'
  | _ => none

/-- How many digits an escape by number has. -/
def escapeDigits? (c : Char) : Option Nat :=
  match c with
  | 'x' => some 2
  | 'u' => some 4
  | 'U' => some 8
  | _ => none

/-- The character of a code point. -/
def char? (n : Nat) : Option Char :=
  if n < 0xd800 || (0xe000 ≤ n && n < 0x110000) then some (Char.ofNat n) else none

/-- A run of a single-quoted scalar, up to spacing or a quote that closes it. -/
def singleRun : List Char → List Char × List Char
  | '\x27' :: '\x27' :: rest =>
    let (run, rest) := singleRun rest
    ('\x27' :: run, rest)
  | c :: rest =>
    if c = '\x27' || isSpacing c then ([], c :: rest)
    else
      let (run, rest) := singleRun rest
      (c :: run, rest)
  | [] => ([], [])

/-- A run of a double-quoted scalar, up to spacing, an escaped line break or a quote, in at most
`fuel` steps. -/
def doubleRun : Nat → List Char → Option (List Char × List Char)
  | 0, _ => none
  | _ + 1, [] => some ([], [])
  | fuel + 1, '\\' :: e :: rest =>
    if isBreak e then some ([], '\\' :: e :: rest)
    else
      match escapeDigits? e with
      | some n => do
        let digits := rest.take n
        if digits.length < n then none
        let c ← (Text.digits? 16 digits).bind char?
        let (run, rest) ← doubleRun fuel (rest.drop n)
        some (c :: run, rest)
      | none => do
        let c ← escaped? e
        let (run, rest) ← doubleRun fuel rest
        some (c :: run, rest)
  | fuel + 1, c :: rest =>
    if c = '\\' then none
    else if c = '"' || isSpacing c then some ([], c :: rest)
    else (doubleRun fuel rest).map fun (run, rest) => (c :: run, rest)

/-- A run of a quoted scalar. -/
def quotedRun (single : Bool) (cs : List Char) : Option (List Char × List Char) :=
  if single then some (singleRun cs) else doubleRun (cs.length + 1) cs

/-- A quoted scalar after its opening quote, and the place after its closing quote. -/
def quoted (single : Bool) : Nat → List Char → Cursor → Option (List Char × Cursor)
  | 0, _, _ => none
  | fuel + 1, text, c => do
    if c.atDocumentEdge then none
    let (run, rest) ← quotedRun single c.rest
    let text := text ++ run
    let c := c.moveTo rest
    match rest with
    | [] => none
    | b :: _ =>
      if b = '\\' then
        let (gap, c) ← takeGap none (rest.length + 1) { broken := true } (c.skip 1).takeBreak.2
        quoted single fuel (text ++ gap.text) c
      else if isSpacing b then
        let (gap, c) ← takeGap none (rest.length + 1) {} c
        quoted single fuel (text ++ gap.text) c
      else some (text, c.skip 1)

/-! ### Block scalars -/

/-- What becomes of the line breaks a block ends with. -/
inductive Chomp where
  | strip
  | clip
  | keep
deriving DecidableEq, Repr

/-- The chomping a sign stands for. -/
def chomp? (c : Char) : Option Chomp :=
  if c = '+' then some .keep else if c = '-' then some .strip else none

/-- The chomping and the indentation a block's header asks for, and what follows them. -/
def blockHeader (cs : List Char) : Option (Chomp × Nat × List Char) :=
  let chompThen (cs : List Char) : Option Chomp × List Char :=
    match cs with
    | c :: rest => match chomp? c with
      | some k => (some k, rest)
      | none => (none, cs)
    | [] => (none, [])
  let digitThen (cs : List Char) : Option (Nat × List Char) :=
    match cs with
    | c :: rest =>
      if c = '0' then none
      else if c.isDigit then some (c.toNat - '0'.toNat, rest)
      else some (0, cs)
    | [] => some (0, [])
  match chompThen cs with
  | (some k, rest) => (digitThen rest).map fun (n, rest) => (k, n, rest)
  | (none, rest) => (digitThen rest).map fun (n, rest) =>
    if n = 0 then (.clip, 0, rest)
    else
      let (k, rest) := chompThen rest
      (k.getD .clip, n, rest)

/-- The end of the header's line: blanks, perhaps a comment, and the line break. -/
def headerEnd (c : Cursor) : Option Cursor :=
  let rest := c.rest.dropWhile Text.isBlank
  let rest := if rest.head? = some '#' then rest.dropWhile (fun d => !isBreak d) else rest
  if atLineEnd rest then some (c.moveTo rest).takeBreak.2 else none

/-- Takes empty lines of a block, in at most `fuel` steps.  While the indentation is not known it
is 0, and the furthest column met is kept. -/
def emptyLines (indent : Nat) : Nat → Nat → List Char → Cursor → Option (Nat × List Char × Cursor)
  | 0, _, _, _ => none
  | fuel + 1, furthest, breaks, c =>
    let spaces := (c.rest.takeWhile (· = ' ')).length
    let c := c.skip (if indent = 0 then spaces else min spaces (indent - c.column))
    let furthest := max furthest c.column
    match c.rest with
    | [] => some (furthest, breaks, c)
    | b :: _ =>
      if b = '\t' && (indent = 0 || c.column < indent) then none
      else if isBreak b then
        let (br, c) := c.takeBreak
        emptyLines indent fuel furthest (breaks ++ br) c
      else some (furthest, breaks, c)

/-- Takes the lines of a block that are indented by `indent` columns: the text, the break after its
last line, and the breaks of the empty lines after that. -/
def blockLines (keepBreaks : Bool) (indent : Nat) :
    Nat → List Char → Bool → List Char → List Char → Cursor →
      Option (List Char × List Char × List Char × Cursor)
  | 0, _, _, _, _, _ => none
  | fuel + 1, text, wasBlank, first, later, c => do
    if c.column ≠ indent || c.rest = [] then
      return (text, first, later, c)
    let blank := c.rest.head?.any Text.isBlank
    let joined :=
      if !keepBreaks && first = ['\n'] && !wasBlank && !blank then
        (if later = [] then [' '] else [])
      else first
    let line := c.rest.takeWhile (fun d => !isBreak d)
    let (br, c) := (c.skip line.length).takeBreak
    let (_, breaks, c) ← emptyLines indent (c.rest.length + 1) 0 [] c
    blockLines keepBreaks indent fuel (text ++ joined ++ later ++ line) blank br breaks c

/-- A block scalar after its mark, in a block that is indented by less than `least` columns. -/
def block (keepBreaks : Bool) (least : Nat) (c : Cursor) : Option (List Char × Cursor) := do
  let (chomp, increment, rest) ← blockHeader c.rest
  let c ← headerEnd (c.moveTo rest)
  let asked := if increment = 0 then 0 else (least - 1) + increment
  let (furthest, breaks, c) ← emptyLines asked (c.rest.length + 1) 0 [] c
  let indent := if asked = 0 then max (max furthest least) 1 else asked
  let (text, first, later, c) ←
    blockLines keepBreaks indent (c.rest.length + 1) [] false [] breaks c
  let text := match chomp with
    | .strip => text
    | .clip => text ++ first
    | .keep => text ++ first ++ later
  some (text, c)

end OverDelimited.Yaml
