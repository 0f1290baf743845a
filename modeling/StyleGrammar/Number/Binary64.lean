/-!
**Exact decimals, finite binary64 numbers, and reading one as the other.**

A number token writes an exact decimal. It is read as the finite binary64 number nearest to it,
a tie going to the even significand, and reading fails where the nearest is infinite. Writing a
number back is in `Number.Shortest`.
-/

/-! ### Exact decimals

A `Decimal` is `±digits · 10^exponent` with natural `digits` and integer `exponent`; it is the
exact value that a number token writes, before any rounding.

* `Decimal.digitCount`: the count of significant decimal digits of the significand.
-/

namespace StyleGrammar

/-- A signed decimal `±digits · 10^exponent`. -/
structure Decimal where
  negative : Bool
  digits : Nat
  exponent : Int
  deriving DecidableEq, Repr

namespace Decimal

/-- The count of decimal digits of a positive natural; `0` has none. -/
def digitCount (n : Nat) : Nat :=
  if n = 0 then 0 else (Nat.toDigits 10 n).length

end Decimal

/-! ### Finite binary64 numbers

A finite IEEE 754 binary64 number is a sign, an 11-bit biased exponent below `2047` and a 52-bit
fraction. Its value is `±significand · 2^scale`:

* `Binary64.significand`: the fraction with the hidden bit, unless the number is subnormal;
* `Binary64.scale`: the power of two of the last significand bit;
* `Binary64.sameValue`: numeric equality, under which the two zeros are equal;
* `Binary64.ofFields?`: the checked constructor.
-/

/-- The weight of the hidden significand bit, `2^52`; fractions lie below it. -/
def hiddenBit : Nat := Nat.pow 2 52

/-- A finite binary64 number by its fields. -/
structure Binary64 where
  negative : Bool
  biased : Nat
  fraction : Nat
  biased_lt : biased < 2047
  fraction_lt : fraction < hiddenBit
  deriving DecidableEq

namespace Binary64

/-- The zero of the given sign. -/
def zero (negative : Bool) : Binary64 :=
  ⟨negative, 0, 0, by decide, by decide⟩

/-- The number with the given fields, when they are in range. -/
def ofFields? (negative : Bool) (biased fraction : Nat) : Option Binary64 :=
  if h : biased < 2047 ∧ fraction < hiddenBit then some ⟨negative, biased, fraction, h.1, h.2⟩
  else none

/-- Both fields are zero. -/
def isZero (x : Binary64) : Bool :=
  x.biased == 0 && x.fraction == 0

/-- The significand: the fraction, with the hidden bit for a normal number. -/
def significand (x : Binary64) : Nat :=
  if x.biased = 0 then x.fraction else hiddenBit + x.fraction

/-- The power of two of the last significand bit; subnormals share the scale of the least
normal binade. -/
def scale (x : Binary64) : Int :=
  (if x.biased = 0 then 1 else (x.biased : Int)) - 1075

/-- Numeric equality: equal fields, or two zeros of any sign. -/
def sameValue (x y : Binary64) : Bool :=
  (x.isZero && y.isZero) || decide (x = y)

end Binary64

/-! ### Reading a decimal: the nearest binary64

A decimal is read as the binary64 number nearest to it, a tie going to the even significand.
A decimal beyond the largest finite number rounds to infinity, which is no finite number, so
reading fails there; one below half the least subnormal reads as a zero of its sign.

* `roundHalfEven`: a quotient of naturals rounded to nearest, ties to even;
* `floorLog2Ratio`: the binade of a positive ratio;
* `Binary64.nearestRatio?`: the nearest number to a positive ratio;
* `Decimal.toBinary64?`: the nearest number to a decimal, `none` when it overflows.
-/

/-- `a / b` rounded to the nearest natural, a tie going to the even one. -/
def roundHalfEven (a b : Nat) : Nat :=
  let q := a / b
  let r := a % b
  if 2 * r < b then q
  else if b < 2 * r then q + 1
  else if q % 2 = 0 then q else q + 1

/-- `2 ^ k ≤ a / b`, decided in natural arithmetic. -/
def pow2LeRatio (k : Int) (a b : Nat) : Bool :=
  if 0 ≤ k then b * Nat.pow 2 k.toNat ≤ a else b ≤ a * Nat.pow 2 (-k).toNat

/-- The exponent `k` with `2 ^ k ≤ a / b < 2 ^ (k + 1)`, for positive `a` and `b`. -/
def floorLog2Ratio (a b : Nat) : Int :=
  let k : Int := (Nat.log2 a : Int) - (Nat.log2 b : Int)
  if pow2LeRatio k a b then k else k - 1

/-- `a / b · 2 ^ (-q)` rounded to nearest, ties to even. -/
def roundAtScale (a b : Nat) (q : Int) : Nat :=
  if 0 ≤ q then roundHalfEven a (b * Nat.pow 2 q.toNat) else roundHalfEven (a * Nat.pow 2 (-q).toNat) b

namespace Binary64

/-- The number `±s · 2 ^ q` for a significand `s` already rounded at scale `q`: subnormal when
`s` is below `2 ^ 52`, infinite (so `none`) when the biased exponent reaches `2047`. -/
def ofScaled? (negative : Bool) (s : Nat) (q : Int) : Option Binary64 :=
  if s < hiddenBit then ofFields? negative 0 s
  else ofFields? negative (q + 1075).toNat (s - hiddenBit)

/-- The binary64 number nearest to `±a / b` for positive `a` and `b`, ties to even. -/
def nearestRatio? (negative : Bool) (a b : Nat) : Option Binary64 :=
  let q := max (floorLog2Ratio a b - 52) (-1074)
  let s := roundAtScale a b q
  if s = 2 * hiddenBit then ofScaled? negative hiddenBit (q + 1)
  else ofScaled? negative s q

end Binary64

namespace Decimal

/-- The binary64 number nearest to the decimal, ties to even; `none` when it rounds to
infinity. -/
def toBinary64? (d : Decimal) : Option Binary64 :=
  if d.digits = 0 then some (Binary64.zero d.negative)
  else
    let count : Int := digitCount d.digits
    if count + d.exponent ≤ -324 then some (Binary64.zero d.negative)
    else if 310 ≤ count + d.exponent then none
    else if 0 ≤ d.exponent then
      Binary64.nearestRatio? d.negative (d.digits * Nat.pow 10 d.exponent.toNat) 1
    else Binary64.nearestRatio? d.negative d.digits (Nat.pow 10 (-d.exponent).toNat)

end Decimal

end StyleGrammar
