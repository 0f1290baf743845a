import StyleGrammar.Number.Binary64
import Mathlib

/-!
**Whole numbers are read exactly.**

Reading a decimal rounds it to the nearest binary64 number. A whole number below `2^53` needs
no rounding: scaled into the binade of its highest bit it fills a 53-bit significand exactly,
so the number read has the decimal's value.

* `Decimal.toRat`, `Binary64.toRat`: the rational values of decimals and of finite binary64
  numbers, under which the two zeros are equal and are the only numbers of value zero;
* `floorLog2Ratio_whole`, `roundAtScale_whole`: the binade of a whole number, and its
  significand at the scale of that binade;
* `Binary64.nearestRatio?_whole`: the nearest number to a whole number below `2^53` has its
  value;
* `Decimal.toBinary64?_whole`: so a whole decimal below `2^53` reads as a number of its value.
-/

namespace StyleGrammar

/-- The value of a decimal, `±digits · 10^exponent`. -/
def Decimal.toRat (d : Decimal) : ℚ :=
  (if d.negative then -1 else 1) * d.digits * (10 : ℚ) ^ d.exponent

/-- The value of a finite binary64 number, `±significand · 2^scale`. -/
def Binary64.toRat (x : Binary64) : ℚ :=
  (if x.negative then -1 else 1) * x.significand * (2 : ℚ) ^ x.scale

@[simp] theorem Binary64.toRat_zero (negative : Bool) : (Binary64.zero negative).toRat = 0 := by
  simp [Binary64.toRat, Binary64.zero, Binary64.significand]

/-- Only the zeros have value zero: a normal number's significand holds the hidden bit. -/
theorem Binary64.toRat_eq_zero_iff (x : Binary64) : x.toRat = 0 ↔ x.isZero = true := by
  have empty : x.significand = 0 ↔ x.isZero = true := by
    unfold Binary64.significand Binary64.isZero
    by_cases subnormal : x.biased = 0
    · simp [subnormal]
    · have : 0 < hiddenBit := Nat.two_pow_pos 52
      simp [subnormal]
      omega
  have power : (2 : ℚ) ^ x.scale ≠ 0 := zpow_ne_zero _ (by norm_num)
  rw [← empty]
  cases sign : x.negative <;> simp [toRat, sign, power]

theorem roundHalfEven_one (a : Nat) : roundHalfEven a 1 = a := by
  simp [roundHalfEven, Nat.mod_one]

theorem log2_one : Nat.log2 1 = 0 := by
  have := (Nat.log2_lt (n := 1) (k := 1) (by decide)).2 (by decide)
  omega

/-- The binade of a whole number is its binary logarithm. -/
theorem floorLog2Ratio_whole {m : Nat} (positive : 0 < m) :
    floorLog2Ratio m 1 = Nat.log2 m := by
  have fits : 2 ^ Nat.log2 m ≤ m := Nat.log2_self_le (by omega)
  simp [floorLog2Ratio, pow2LeRatio, log2_one, fits]

/-- Scaled to the binade of its highest bit, a whole number below `2^53` is shifted left and
nothing is rounded off; when the highest bit is bit 52 the number is its own significand. -/
theorem roundAtScale_whole {m : Nat} (small : m < 2 ^ 53) :
    roundAtScale m 1 ((Nat.log2 m : Int) - 52) = m * 2 ^ (52 - Nat.log2 m) := by
  have top : Nat.log2 m ≤ 52 := by
    rcases Nat.eq_zero_or_pos m with rfl | positive
    · simp [Nat.log2_zero]
    · have := (Nat.log2_lt (by omega : m ≠ 0)).2 small
      omega
  unfold roundAtScale
  split
  · rename_i atTop
    have shift : ((Nat.log2 m : Int) - 52).toNat = 0 := by omega
    rw [shift, show 52 - Nat.log2 m = 0 by omega]
    simp [roundHalfEven_one]
  · rename_i below
    have shift : (-((Nat.log2 m : Int) - 52)).toNat = 52 - Nat.log2 m := by omega
    rw [shift, roundHalfEven_one, Nat.pow_eq]

/-- **A whole number below `2^53` is a binary64 number.** The nearest number to it is a normal
number whose significand is the whole number shifted into 53 bits, and its value is the whole
number, with the sign asked for: the shifted number `s` fills exactly the 53 bits of a normal
significand, and `s · 2^(top - 52)` undoes the shift by `52 - top`. -/
theorem Binary64.nearestRatio?_whole (negative : Bool) {m : Nat} (positive : 0 < m)
    (small : m < 2 ^ 53) :
    ∃ x, Binary64.nearestRatio? negative m 1 = some x ∧
      x.toRat = (if negative then -1 else 1) * m := by
  set top := Nat.log2 m with topDef
  have low : 2 ^ top ≤ m := Nat.log2_self_le (by omega)
  have high : m < 2 ^ (top + 1) := Nat.lt_log2_self
  have topLe : top ≤ 52 := by
    have := (Nat.log2_lt (by omega : m ≠ 0)).2 small
    omega
  set s := m * 2 ^ (52 - top) with sDef
  have sLow : hiddenBit ≤ s := by
    calc hiddenBit = 2 ^ top * 2 ^ (52 - top) := by
          rw [← Nat.pow_add, show top + (52 - top) = 52 by omega]; rfl
      _ ≤ s := Nat.mul_le_mul_right _ low
  have sHigh : s < 2 * hiddenBit := by
    calc s < 2 ^ (top + 1) * 2 ^ (52 - top) :=
          Nat.mul_lt_mul_of_pos_right high (Nat.two_pow_pos _)
      _ = 2 * hiddenBit := by
          rw [← Nat.pow_add, show top + 1 + (52 - top) = 53 by omega]; rfl
  have scale : max (floorLog2Ratio m 1 - 52) (-1074) = (top : Int) - 52 := by
    rw [floorLog2Ratio_whole positive]
    omega
  have fields : ((top : Int) - 52 + 1075).toNat < 2047 ∧ s - hiddenBit < hiddenBit := by
    constructor <;> omega
  refine ⟨⟨negative, ((top : Int) - 52 + 1075).toNat, s - hiddenBit, fields.1, fields.2⟩,
    ?_, ?_⟩
  · have round : roundAtScale m 1 ((top : Int) - 52) = s := roundAtScale_whole small
    simp only [nearestRatio?, scale, round]
    rw [if_neg (by omega), ofScaled?, if_neg (by omega), ofFields?, dif_pos fields]
  · have biased : ((top : Int) - 52 + 1075).toNat ≠ 0 := by omega
    have significand : hiddenBit + (s - hiddenBit) = s := by omega
    have exponent :
        ((((top : Int) - 52 + 1075).toNat : Nat) : Int) - 1075 = (top : Int) - 52 := by
      omega
    simp only [toRat, Binary64.significand, Binary64.scale, biased, if_false, significand,
      exponent]
    have undo : ((s : Nat) : ℚ) * (2 : ℚ) ^ ((top : Int) - 52) = m := by
      rw [sDef, Nat.cast_mul, Nat.cast_pow, Nat.cast_ofNat, mul_assoc, ← zpow_natCast,
        ← zpow_add₀ (by norm_num),
        show ((52 - top : Nat) : Int) + ((top : Int) - 52) = 0 by omega, zpow_zero, mul_one]
    rw [mul_assoc, undo]

/-- **A whole decimal below `2^53` is read exactly**: reading it gives a finite number of the
decimal's value. It has at most sixteen digits, so it is neither too small nor too large to be
read. -/
theorem Decimal.toBinary64?_whole (negative : Bool) {m : Nat} (small : m < 2 ^ 53) :
    ∃ x, (⟨negative, m, 0⟩ : Decimal).toBinary64? = some x ∧
      x.toRat = (⟨negative, m, 0⟩ : Decimal).toRat := by
  rcases Nat.eq_zero_or_pos m with rfl | positive
  · exact ⟨Binary64.zero negative, by simp [toBinary64?], by simp [toRat]⟩
  · have count : (Nat.toDigits 10 m).length ≤ 16 :=
      (Nat.length_toDigits_le_iff (by decide) (by decide)).2 (by omega)
    have digits : (digitCount m : Int) ≤ 16 := by
      simp only [digitCount, Nat.pos_iff_ne_zero.1 positive, if_false]
      omega
    obtain ⟨x, found, value⟩ := Binary64.nearestRatio?_whole negative positive small
    refine ⟨x, ?_, ?_⟩
    · simp only [toBinary64?, Nat.pos_iff_ne_zero.1 positive, if_false, Int.add_zero]
      rw [if_neg (by omega), if_neg (by omega), if_pos (Int.le_refl 0)]
      simpa using found
    · rw [value]
      simp [toRat]

end StyleGrammar
