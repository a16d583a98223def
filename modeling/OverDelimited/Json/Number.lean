import OverDelimited.Text.Decimal

/-!
# The size of JSON numbers

A JSON number that is no natural number of 64 bits is taken as a float, and it has no value if that
float is infinite.  The float is not always the one nearest to the number.  As many leading digits
as fit in 64 bits make a whole number, and its float is multiplied by the float of a power of ten,
so that two roundings go before the one of the product.
-/

namespace OverDelimited.Json

/-! ### Leading digits -/

/-- Reads digits onto a number as long as it fits in 64 bits, and leaves the others. -/
def fittingDigits : Nat → List Char → Nat × List Char
  | value, [] => (value, [])
  | value, c :: rest =>
    let next := value * 10 + (c.toNat - '0'.toNat)
    if Text.fits 64 next then fittingDigits next rest else (value, c :: rest)

/-- A number by its parts, with the digits that fit.  Digits of the whole part that are left over
still count as places; those of the fraction are dropped. -/
def leading (whole fraction : List Char) (exponent : Int) : Text.Decimal :=
  let (value, places) := fittingDigits 0 whole
  let (mantissa, dropped) := fittingDigits value fraction
  ⟨mantissa, exponent + places.length - (fraction.length - dropped.length : Nat)⟩

theorem fits_fittingDigits {value : Nat} (h : Text.fits 64 value = true) (cs : List Char) :
    Text.fits 64 (fittingDigits value cs).1 = true := by
  induction cs generalizing value with
  | nil => exact h
  | cons c rest ih =>
    rw [fittingDigits]
    split
    · next hnext => exact ih hnext
    · exact h

/-- What is kept of a number always fits in 64 bits. -/
theorem fits_leading (whole fraction : List Char) (exponent : Int) :
    Text.fits 64 (leading whole fraction exponent).mantissa = true :=
  fits_fittingDigits (fits_fittingDigits (by decide) whole) fraction

theorem le_foldl_digits (value : Nat) (cs : List Char) :
    value ≤ cs.foldl (fun n c => n * 10 + (c.toNat - '0'.toNat)) value := by
  induction cs generalizing value with
  | nil => exact Nat.le_refl value
  | cons c rest ih =>
    have hnext := ih (value * 10 + (c.toNat - '0'.toNat))
    rw [List.foldl_cons]
    omega

theorem fittingDigits_of_fits {value : Nat} {cs : List Char}
    (h : Text.fits 64 (cs.foldl (fun n c => n * 10 + (c.toNat - '0'.toNat)) value) = true) :
    fittingDigits value cs = (cs.foldl (fun n c => n * 10 + (c.toNat - '0'.toNat)) value, []) := by
  induction cs generalizing value with
  | nil => rfl
  | cons c rest ih =>
    have hnext : Text.fits 64 (value * 10 + (c.toNat - '0'.toNat)) = true :=
      decide_eq_true (Nat.lt_of_le_of_lt (le_foldl_digits _ rest) (of_decide_eq_true h))
    rw [fittingDigits, if_pos hnext, ih h, List.foldl_cons]

/-- A number whose digits all fit is kept whole. -/
theorem leading_of_fits {whole fraction : List Char} {exponent : Int}
    (h : Text.fits 64 (Text.Decimal.ofParts whole fraction exponent).mantissa = true) :
    leading whole fraction exponent = Text.Decimal.ofParts whole fraction exponent := by
  simp only [Text.Decimal.ofParts, List.foldl_append] at h
  have hwhole : Text.fits 64 (whole.foldl (fun n c => n * 10 + (c.toNat - '0'.toNat)) 0) = true :=
    decide_eq_true (Nat.lt_of_le_of_lt (le_foldl_digits _ fraction) (of_decide_eq_true h))
  simp only [leading, fittingDigits_of_fits hwhole, fittingDigits_of_fits h, Text.Decimal.ofParts,
    List.foldl_append, List.length_nil, Nat.sub_zero, Int.natCast_zero, Int.add_zero]

/-! ### Floats -/

/-- The float nearest to a natural number, as a number: 53 binary digits are kept, and a half goes
to the even one. -/
def nearestFloat (n : Nat) : Nat :=
  let unit := Nat.pow 2 (n.log2 + 1 - 53)
  let kept := n / unit
  let twice := n % unit * 2
  if unit < twice || twice = unit && kept % 2 = 1 then (kept + 1) * unit else kept * unit

/-- A number of at most 53 binary digits is its own float. -/
theorem nearestFloat_of_fits {n : Nat} (h : Text.fits 53 n = true) : nearestFloat n = n := by
  have hlog : n.log2 + 1 - 53 = 0 := by
    by_cases hn : n = 0
    · subst hn
      rfl
    · have := (Nat.log2_lt hn).mpr (of_decide_eq_true h)
      omega
  have hone : Nat.pow 2 0 = 1 := rfl
  simp only [nearestFloat, hlog, hone, Nat.mod_one, Nat.div_one, Nat.mul_one]
  rfl

/-- Whether a number is finite once its float is multiplied by the float of its power of ten. -/
def hasFiniteFloat (d : Text.Decimal) : Bool :=
  d.mantissa = 0 || d.exponent < 0 || d.exponent ≤ 308 &&
    nearestFloat d.mantissa * nearestFloat (Nat.pow 10 d.exponent.toNat) <
      Text.Decimal.overflowBound

theorem nearestFloat_le (n : Nat) : nearestFloat n ≤ 2 * n := by
  by_cases hn : n = 0
  · subst hn
    decide
  · have hunit : Nat.pow 2 (n.log2 + 1 - 53) ≤ n :=
      Nat.le_trans (Nat.pow_le_pow_right (by decide) (by omega)) (Nat.log2_self_le hn)
    have hkept : n / Nat.pow 2 (n.log2 + 1 - 53) * Nat.pow 2 (n.log2 + 1 - 53) ≤ n :=
      Nat.div_mul_le_self n _
    simp only [nearestFloat]
    split
    · rw [Nat.add_mul, Nat.one_mul]
      omega
    · omega

/-- A number is too large only if places stand behind the digits that fit, more than 288 of them. -/
theorem hasFiniteFloat_leading {whole fraction : List Char} {exponent : Int}
    (h : (leading whole fraction exponent).exponent ≤ 288) :
    hasFiniteFloat (leading whole fraction exponent) = true := by
  have hfits := of_decide_eq_true (fits_leading whole fraction exponent)
  generalize leading whole fraction exponent = d at h hfits
  have hbound : ∀ n, n < 289 →
      2 * Nat.pow 2 64 * (2 * Nat.pow 10 n) < Text.Decimal.overflowBound := by decide +kernel
  have hsignificand : nearestFloat d.mantissa ≤ 2 * Nat.pow 2 64 :=
    Nat.le_trans (nearestFloat_le _) (Nat.mul_le_mul_left 2 (Nat.le_of_lt hfits))
  have hproduct : nearestFloat d.mantissa * nearestFloat (Nat.pow 10 d.exponent.toNat) <
      Text.Decimal.overflowBound :=
    Nat.lt_of_le_of_lt (Nat.mul_le_mul hsignificand (nearestFloat_le _)) (hbound _ (by omega))
  simp only [hasFiniteFloat, Bool.or_eq_true, Bool.and_eq_true, decide_eq_true_eq]
  exact .inr ⟨by omega, hproduct⟩

/-- Beyond that the roundings count: this number is below the bound and has no finite float. -/
example : let d := leading ['1'] "7976931348623158".toList 308
    d.isFinite = true ∧ hasFiniteFloat d = false := by decide +kernel

end OverDelimited.Json
