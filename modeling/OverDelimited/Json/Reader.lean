import OverDelimited.Datum
import OverDelimited.Json.Number
import OverDelimited.Json.Text

/-!
# JSON input

A text is cut into tokens, and a machine with a stack of open lists and records makes a datum of
them.  The machine takes one step a token, so nesting is bounded only by what is asked of the datum
later (`Datum.isReadable`).
-/

namespace OverDelimited.Json

/-! ### Tokens -/

/-- A token.  A string is kept apart from other leaves because it may be a key. -/
inductive Token where
  | openList
  | closeList
  | openRecord
  | closeRecord
  | comma
  | colon
  /-- A string, with its text if it stands for one. -/
  | string (text : Option String)
  | leaf (value : Datum)

/-- The white space between tokens. -/
def isSpace (c : Char) : Bool :=
  c = ' ' || c = '\t' || c = '\n' || c = '\r'

/-- Whether a minus sign leads, and what follows the sign. -/
def minus : List Char → Bool × List Char
  | '-' :: rest => (true, rest)
  | rest => (false, rest)

/-- Whether a minus sign leads, and what follows a sign of either kind. -/
def sign : List Char → Bool × List Char
  | '+' :: rest => (false, rest)
  | rest => minus rest

/-- An optional exponent, absent if there is none, and what follows it. -/
def exponent? : List Char → Option (Option Int × List Char)
  | [] => some (none, [])
  | c :: rest =>
    if c = 'e' || c = 'E' then
      let signed := sign rest
      let span := Text.spanDigits signed.2
      (Text.digits? 10 span.1).map fun n =>
        (some (if signed.1 then -(n : Int) else (n : Int)), span.2)
    else some (none, c :: rest)

/-- An optional fraction, absent if there is none, and what follows it. -/
def fraction? : List Char → Option (Option (List Char) × List Char)
  | '.' :: rest =>
    let span := Text.spanDigits rest
    if span.1 = [] then none else some (some span.1, span.2)
  | rest => some (none, rest)

/-- The whole part of a number: one zero, or digits of which the first is no zero. -/
def whole? : List Char → Option (List Char × List Char)
  | '0' :: rest => some (['0'], rest)
  | rest =>
    let span := Text.spanDigits rest
    if span.1 = [] then none else some span

/-- The datum of a number by its parts; one whose float is infinite has no value. -/
def numberDatum (negative : Bool) (whole : List Char) (fraction : Option (List Char))
    (exponent : Option Int) (spelling : List Char) : Datum :=
  let decimal := Text.Decimal.ofParts whole (fraction.getD []) (exponent.getD 0)
  if negative = false ∧ fraction = none ∧ exponent = none ∧ Text.fits 64 decimal.mantissa then
    .natural decimal.mantissa
  else if hasFiniteFloat (leading whole (fraction.getD []) (exponent.getD 0)) then
    .number (String.ofList spelling)
  else .unreadable

/-- A number, and what follows it. -/
def number? (cs : List Char) : Option (Datum × List Char) := do
  let signed := minus cs
  let (whole, rest) ← whole? signed.2
  let (fraction, rest) ← fraction? rest
  let (exponent, rest) ← exponent? rest
  some (numberDatum signed.1 whole fraction exponent (cs.take (cs.length - rest.length)), rest)

/-- The token a text starts with, and what follows it. -/
def token? : List Char → Option (Token × List Char)
  | [] => none
  | '[' :: rest => some (.openList, rest)
  | ']' :: rest => some (.closeList, rest)
  | '\x7b' :: rest => some (.openRecord, rest)
  | '\x7d' :: rest => some (.closeRecord, rest)
  | ',' :: rest => some (.comma, rest)
  | ':' :: rest => some (.colon, rest)
  | '"' :: rest => (pieces rest).map fun (ps, rest) => (.string ((join ps).map String.ofList), rest)
  | 'n' :: 'u' :: 'l' :: 'l' :: rest => some (.leaf .null, rest)
  | 't' :: 'r' :: 'u' :: 'e' :: rest => some (.leaf (.bool true), rest)
  | 'f' :: 'a' :: 'l' :: 's' :: 'e' :: rest => some (.leaf (.bool false), rest)
  | cs => (number? cs).map fun (d, rest) => (.leaf d, rest)

/-! ### A token is not empty -/

theorem length_pieces {cs rest : List Char} {ps : List Piece} (h : pieces cs = some (ps, rest)) :
    rest.length < cs.length := by
  fun_induction pieces cs generalizing ps rest with
  | case1 => simp at h
  | case2 rest' =>
    simp only [Option.some.injEq, Prod.mk.injEq] at h
    simp [← h.2]
  | case3 | case5 => simp at h
  | case4 a b c d rest' n hn ih =>
    simp only [Option.map_eq_some_iff, Prod.exists, Prod.mk.injEq] at h
    obtain ⟨ps', after, hp, -, rfl⟩ := h
    have := ih hp
    simp only [List.length_cons]
    omega
  | case6 c rest' hne c' hc ih =>
    simp only [Option.map_eq_some_iff, Prod.exists, Prod.mk.injEq] at h
    obtain ⟨ps', after, hp, -, rfl⟩ := h
    have := ih hp
    simp only [List.length_cons]
    omega
  | case7 => simp at h
  | case8 c rest' h1 h2 h3 hc ih =>
    simp only [Option.map_eq_some_iff, Prod.exists, Prod.mk.injEq] at h
    obtain ⟨ps', after, hp, -, rfl⟩ := h
    have := ih hp
    simp only [List.length_cons]
    omega

theorem length_spanDigits (cs : List Char) : (Text.spanDigits cs).2.length ≤ cs.length :=
  (List.dropWhile_suffix _).length_le

theorem length_spanDigits_lt {cs : List Char} (h : (Text.spanDigits cs).1 ≠ []) :
    (Text.spanDigits cs).2.length < cs.length := by
  cases cs with
  | nil => simp [Text.spanDigits] at h
  | cons c rest =>
    by_cases hc : c.isDigit = true
    · have := (List.dropWhile_suffix (l := rest) Char.isDigit).length_le
      simp only [Text.spanDigits, List.dropWhile_cons, hc, ite_true, List.length_cons]
      omega
    · simp [Text.spanDigits, hc] at h

theorem length_minus (cs : List Char) : (minus cs).2.length ≤ cs.length := by
  unfold minus
  split <;> simp

theorem length_sign (cs : List Char) : (sign cs).2.length ≤ cs.length := by
  unfold sign
  split
  · simp
  · exact length_minus cs

theorem length_whole? {cs rest digits : List Char} (h : whole? cs = some (digits, rest)) :
    rest.length < cs.length := by
  unfold whole? at h
  split at h
  · simp only [Option.some.injEq, Prod.mk.injEq] at h
    simp [← h.2]
  · simp only [Option.ite_none_left_eq_some, Option.some.injEq] at h
    have := length_spanDigits_lt h.1
    rwa [h.2] at this

theorem length_fraction? {cs rest : List Char} {digits : Option (List Char)}
    (h : fraction? cs = some (digits, rest)) : rest.length ≤ cs.length := by
  unfold fraction? at h
  split at h
  · next after =>
    simp only [Option.ite_none_left_eq_some, Option.some.injEq, Prod.mk.injEq] at h
    have := length_spanDigits after
    rw [← h.2.2, List.length_cons]
    omega
  · simp only [Option.some.injEq, Prod.mk.injEq] at h
    simp [← h.2]

theorem length_exponent? {cs rest : List Char} {exponent : Option Int}
    (h : exponent? cs = some (exponent, rest)) : rest.length ≤ cs.length := by
  unfold exponent? at h
  split at h
  · simp only [Option.some.injEq, Prod.mk.injEq] at h
    simp [← h.2]
  · next c after =>
    split at h
    · simp only [Option.map_eq_some_iff, Prod.mk.injEq] at h
      obtain ⟨n, -, -, rfl⟩ := h
      have := length_spanDigits (sign after).2
      have := length_sign after
      rw [List.length_cons]
      omega
    · simp only [Option.some.injEq, Prod.mk.injEq] at h
      simp [← h.2]

theorem length_number? {cs rest : List Char} {d : Datum} (h : number? cs = some (d, rest)) :
    rest.length < cs.length := by
  simp only [number?, Option.bind_eq_bind, Option.bind_eq_some_iff, Prod.exists, Option.some.injEq,
    Prod.mk.injEq] at h
  obtain ⟨whole, r₁, h₁, fraction, r₂, h₂, exponent, r₃, h₃, -, rfl⟩ := h
  have := length_minus cs
  have := length_whole? h₁
  have := length_fraction? h₂
  have := length_exponent? h₃
  omega

theorem length_token? {cs rest : List Char} {t : Token} (h : token? cs = some (t, rest)) :
    rest.length < cs.length := by
  unfold token? at h
  split at h
  · simp at h
  all_goals first
    | simp only [Option.some.injEq, Prod.mk.injEq] at h
      simp only [← h.2, List.length_cons]
      omega
    | simp only [Option.map_eq_some_iff, Prod.exists, Prod.mk.injEq] at h
      obtain ⟨ps, after, hp, -, rfl⟩ := h
      first
        | have := length_pieces hp
          simp only [List.length_cons]
          omega
        | exact length_number? hp

/-! ### Cutting a text into tokens -/

/-- The tokens of a text, if it is made of tokens and white space only. -/
def tokens (cs : List Char) : Option (List Token) :=
  match _h : cs.dropWhile isSpace with
  | [] => some []
  | c :: rest =>
    match _ht : token? (c :: rest) with
    | none => none
    | some (t, after) => (tokens after).map (t :: ·)
termination_by cs.length
decreasing_by
  have hs := (List.dropWhile_suffix (l := cs) isSpace).length_le
  have := length_token? _ht
  rw [_h] at hs
  omega

/-! ### From tokens to data -/

/-- A list or a record that is not closed yet, its items in reverse. -/
inductive Frame where
  | items (done : List Datum)
  /-- A record that waits for the value of a key. -/
  | entries (done : List (Key × Datum)) (key : Key)

/-- The key a string is. -/
def keyOf : Option String → Key
  | some name => .text name
  | none => .unreadable

/-- The datum a string is. -/
def textOf : Option String → Datum
  | some s => .text s
  | none => .unreadable

mutual
/-- Takes the tokens of a value. -/
def value : List Frame → List Token → Option Datum
  | stack, .string s :: rest => after stack (textOf s) rest
  | stack, .leaf d :: rest => after stack d rest
  | stack, .openList :: .closeList :: rest => after stack (.list []) rest
  | stack, .openList :: rest => value (.items [] :: stack) rest
  | stack, .openRecord :: .closeRecord :: rest => after stack (.record []) rest
  | stack, .openRecord :: .string k :: .colon :: rest => value (.entries [] (keyOf k) :: stack) rest
  | _, _ => none

/-- Puts a value that is complete where it belongs, and takes what may follow it. -/
def after : List Frame → Datum → List Token → Option Datum
  | [], d, [] => some d
  | .items done :: stack, d, .comma :: rest => value (.items (d :: done) :: stack) rest
  | .items done :: stack, d, .closeList :: rest => after stack (.list (d :: done).reverse) rest
  | .entries done key :: stack, d, .comma :: .string k :: .colon :: rest =>
    value (.entries ((key, d) :: done) (keyOf k) :: stack) rest
  | .entries done key :: stack, d, .closeRecord :: rest =>
    after stack (.record ((key, d) :: done).reverse) rest
  | _, _, _ => none
end

/-- The datum of a JSON text. -/
def read (text : List Char) : Option Datum :=
  (tokens text).bind (value [])

end OverDelimited.Json
