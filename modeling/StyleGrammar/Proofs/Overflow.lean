import StyleGrammar.Proofs.ExactIntegers

/-!
**Reading a decimal fails only past the overflow threshold.**

A decimal is read as the binary64 number nearest to it, a tie going to the even significand.
The largest finite number is `(2^53 - 1) · 2^971`; half a unit above it, at
`2^1024 - 2^970`, the tie goes to the even significand `2^53`, whose exponent is out of range, so
from there on the nearest number is infinite. Reading fails only there.

* `roundHalfEven_near`: a quotient rounded to nearest is within half a unit of it;
* `pow2LeRatio_iff`, `floorLog2Ratio_bounds`: the binade test and the binade of a positive ratio;
* `roundAtScale_near`: a ratio rounded at a scale is within half a unit of that scale;
* `Binary64.nearestRatio?_eq_none`: no number is nearest to a ratio below the threshold;
* `Decimal.toBinary64?_eq_none`: reading a decimal fails only when its magnitude reaches the
  threshold.
-/

namespace StyleGrammar

/-- Half a unit past the largest finite binary64 number: from here on the nearest number, ties to
even, is infinite. -/
def Binary64.overflowThreshold : ℚ := 2 ^ 1024 - 2 ^ 970

/-! ### Rounding a quotient -/

/-- A quotient rounded to nearest is within half a unit of it. In whole numbers this is
`2 n b ≤ 2 a + b` and `2 a ≤ (2 n + 1) b`, checked for each way of rounding: down when less than
half a unit is left over, up when more is, and either way at exactly half. -/
theorem roundHalfEven_near (a b : Nat) (positive : 0 < b) :
    ((roundHalfEven a b : ℚ) - 1 / 2) * b ≤ a ∧
      (a : ℚ) ≤ ((roundHalfEven a b : ℚ) + 1 / 2) * b := by
  have split : b * (a / b) + a % b = a := Nat.div_add_mod a b
  have below : a % b < b := Nat.mod_lt a positive
  have whole : 2 * roundHalfEven a b * b ≤ 2 * a + b ∧ 2 * a ≤ (2 * roundHalfEven a b + 1) * b := by
    unfold roundHalfEven
    dsimp only
    generalize a / b = q at *
    generalize a % b = r at *
    subst split
    split
    · constructor <;> nlinarith
    · split
      · constructor <;> nlinarith
      · split <;> constructor <;> nlinarith
  obtain ⟨low, high⟩ := whole
  have low' : ((2 * roundHalfEven a b * b : Nat) : ℚ) ≤ ((2 * a + b : Nat) : ℚ) := by
    exact_mod_cast low
  have high' : ((2 * a : Nat) : ℚ) ≤ (((2 * roundHalfEven a b + 1) * b : Nat) : ℚ) := by
    exact_mod_cast high
  push_cast at low' high'
  constructor <;> linarith

/-- A power of two with an integer exponent, as a power with a natural one. -/
theorem two_zpow_of_nonneg {k : Int} (nonneg : 0 ≤ k) : (2 : ℚ) ^ k = 2 ^ k.toNat := by
  rw [← zpow_natCast, Int.toNat_of_nonneg nonneg]

theorem two_zpow_of_neg {k : Int} (negative : k < 0) : (2 : ℚ) ^ k = 1 / 2 ^ (-k).toNat := by
  rw [← zpow_natCast, Int.toNat_of_nonneg (by omega), zpow_neg, one_div, inv_inv]

/-! ### The binade of a ratio -/

section Ratio

variable {a b : Nat}

/-- The binade test decides `2 ^ k ≤ a / b`. -/
theorem pow2LeRatio_iff (k : Int) (positive : 0 < b) :
    pow2LeRatio k a b = true ↔ (2 : ℚ) ^ k ≤ a / b := by
  have den : (0 : ℚ) < b := by exact_mod_cast positive
  unfold pow2LeRatio
  split
  · rename_i nonneg
    rw [decide_eq_true_iff, two_zpow_of_nonneg nonneg, le_div_iff₀ den, mul_comm]
    exact_mod_cast Iff.rfl
  · rename_i negative
    have power : (0 : ℚ) < 2 ^ (-k).toNat := by positivity
    rw [decide_eq_true_iff, two_zpow_of_neg (by omega), div_le_div_iff₀ power den, one_mul]
    exact_mod_cast Iff.rfl

/-- Powers of two around a positive number: `2 ^ log2 n ≤ n < 2 ^ (log2 n + 1)`. -/
theorem log2_bounds {n : Nat} (positive : 0 < n) :
    (2 : ℚ) ^ Nat.log2 n ≤ n ∧ (n : ℚ) < 2 ^ (Nat.log2 n + 1) := by
  constructor
  · exact_mod_cast Nat.log2_self_le (by omega)
  · exact_mod_cast Nat.lt_log2_self

/-- The binade of a positive ratio: `2 ^ k ≤ a / b < 2 ^ (k + 1)`. The difference of the two
logarithms is that binade or the one above it, and `pow2LeRatio` tells which. -/
theorem floorLog2Ratio_bounds (hA : 0 < a) (hB : 0 < b) :
    (2 : ℚ) ^ floorLog2Ratio a b ≤ a / b ∧ (a / b : ℚ) < 2 ^ (floorLog2Ratio a b + 1) := by
  obtain ⟨aLow, aHigh⟩ := log2_bounds hA
  obtain ⟨bLow, bHigh⟩ := log2_bounds hB
  have num : (0 : ℚ) < a := by exact_mod_cast hA
  have den : (0 : ℚ) < b := by exact_mod_cast hB
  have two : (0 : ℚ) < 2 := by norm_num
  have quotient (i j : Nat) : (2 : ℚ) ^ ((i : Int) - j) = 2 ^ i / 2 ^ j := by
    rw [zpow_sub₀ two.ne', zpow_natCast, zpow_natCast]
  set k : Int := (Nat.log2 a : Int) - Nat.log2 b with kDef
  have above : (2 : ℚ) ^ (k - 1) < a / b := by
    calc (2 : ℚ) ^ (k - 1) = 2 ^ Nat.log2 a / 2 ^ (Nat.log2 b + 1) := by
          rw [← quotient]
          congr 1
          push_cast
          ring
      _ < 2 ^ Nat.log2 a / b := div_lt_div_of_pos_left (by positivity) den bHigh
      _ ≤ a / b := (div_le_div_iff_of_pos_right den).2 aLow
  have below : (a / b : ℚ) < 2 ^ (k + 1) := by
    calc (a / b : ℚ) < 2 ^ (Nat.log2 a + 1) / b := (div_lt_div_iff_of_pos_right den).2 aHigh
      _ ≤ 2 ^ (Nat.log2 a + 1) / 2 ^ Nat.log2 b :=
          div_le_div_of_nonneg_left (by positivity) (by positivity) bLow
      _ = 2 ^ (k + 1) := by
          rw [← quotient]
          congr 1
          push_cast
          ring
  unfold floorLog2Ratio
  dsimp only
  rw [← kDef]
  split
  · rename_i fits
    exact ⟨(pow2LeRatio_iff k hB).1 fits, below⟩
  · rename_i short
    rw [Bool.not_eq_true, ← Bool.not_eq_true, pow2LeRatio_iff k hB, not_le] at short
    exact ⟨above.le, by rwa [sub_add_cancel]⟩

/-- A ratio rounded at the scale `2 ^ q` is within half a unit of that scale: the quotient
rounded is `a / (b · 2^q)` for `0 ≤ q` and `a · 2^(-q) / b` below. -/
theorem roundAtScale_near (q : Int) (positive : 0 < b) :
    ((roundAtScale a b q : ℚ) - 1 / 2) * 2 ^ q ≤ a / b ∧
      (a / b : ℚ) ≤ ((roundAtScale a b q : ℚ) + 1 / 2) * 2 ^ q := by
  have den : (0 : ℚ) < b := by exact_mod_cast positive
  unfold roundAtScale
  split
  · rename_i nonneg
    have scaled : 0 < b * Nat.pow 2 q.toNat := Nat.mul_pos positive (Nat.two_pow_pos _)
    obtain ⟨low, high⟩ := roundHalfEven_near a _ scaled
    generalize roundHalfEven a (b * Nat.pow 2 q.toNat) = s at low high ⊢
    rw [Nat.pow_eq] at low high
    push_cast at low high
    rw [two_zpow_of_nonneg nonneg, le_div_iff₀ den, div_le_iff₀ den]
    constructor
    · calc ((s : ℚ) - 1 / 2) * 2 ^ q.toNat * b = ((s : ℚ) - 1 / 2) * (b * 2 ^ q.toNat) := by ring
        _ ≤ a := low
    · calc (a : ℚ) ≤ ((s : ℚ) + 1 / 2) * (b * 2 ^ q.toNat) := high
        _ = ((s : ℚ) + 1 / 2) * 2 ^ q.toNat * b := by ring
  · rename_i negative
    obtain ⟨low, high⟩ := roundHalfEven_near (a * Nat.pow 2 (-q).toNat) b positive
    generalize roundHalfEven (a * Nat.pow 2 (-q).toNat) b = s at low high ⊢
    rw [Nat.pow_eq] at low high
    push_cast at low high
    have power : (0 : ℚ) < 2 ^ (-q).toNat := by positivity
    rw [two_zpow_of_neg (by omega), mul_one_div, mul_one_div, div_le_div_iff₀ power den,
      div_le_div_iff₀ den power]
    exact ⟨low, high⟩

end Ratio

/-! ### Where no finite number is nearest -/

namespace Binary64

theorem ofFields?_eq_none_iff {negative : Bool} {biased fraction : Nat} :
    ofFields? negative biased fraction = none ↔ ¬ (biased < 2047 ∧ fraction < hiddenBit) := by
  unfold ofFields?
  split <;> simp_all

/-- The threshold is half a unit above the largest finite number `(2^53 - 1) · 2^971`. -/
theorem overflowThreshold_eq : overflowThreshold = (2 ^ 53 - 1 / 2) * 2 ^ 971 := by
  rw [overflowThreshold, show 1024 = 970 + 54 from rfl, show 971 = 970 + 1 from rfl, pow_add,
    pow_add]
  generalize (2 : ℚ) ^ 970 = unit
  ring

theorem overflowThreshold_le_two_pow : overflowThreshold ≤ 2 ^ 1024 := by
  rw [overflowThreshold]
  exact sub_le_self _ (by positivity)

theorem two_mul_hiddenBit_cast : ((2 * hiddenBit : Nat) : ℚ) = 2 ^ 53 := by
  rw [hiddenBit, Nat.pow_eq]
  push_cast
  ring

/-- At the scale its binade picks, a ratio's significand is at most `2^53`: the ratio lies below
`2^(k + 1) ≤ 2^(q + 53)`, for its binade `k` and scale `q`. -/
theorem roundAtScale_le_top {a b : Nat} (hA : 0 < a) (hB : 0 < b) :
    roundAtScale a b (max (floorLog2Ratio a b - 52) (-1074)) ≤ 2 * hiddenBit := by
  obtain ⟨-, binadeHigh⟩ := floorLog2Ratio_bounds hA hB
  set k := floorLog2Ratio a b
  set q := max (k - 52) (-1074)
  obtain ⟨roundLow, -⟩ := roundAtScale_near (a := a) q hB
  have two : (0 : ℚ) < 2 := by norm_num
  have under : ((roundAtScale a b q : ℚ) - 1 / 2) * 2 ^ q < 2 ^ 53 * 2 ^ q := by
    calc ((roundAtScale a b q : ℚ) - 1 / 2) * 2 ^ q ≤ a / b := roundLow
      _ < 2 ^ (k + 1) := binadeHigh
      _ ≤ 2 ^ (q + 53) := zpow_le_zpow_right₀ (by norm_num) (by omega)
      _ = 2 ^ 53 * 2 ^ q := by rw [zpow_add₀ two.ne', mul_comm, zpow_ofNat]
  have below : (roundAtScale a b q : ℚ) < 2 ^ 53 + 1 := by
    have := lt_of_mul_lt_mul_right under (zpow_pos two q).le
    linarith
  rw [← two_mul_hiddenBit_cast] at below
  exact_mod_cast Nat.lt_succ_iff.1 (by exact_mod_cast below)

/-- **No finite number is nearest to a ratio below the threshold.** A significand that rounds up
to `2^53` moves to the binade above, and the number is missing only when that binade is out of
range, which needs a ratio of at least `(2^53 - 1/2) · 2^971`; any other missing number has its
binade out of range, which needs at least `2^1024`. -/
theorem nearestRatio?_eq_none {negative : Bool} {a b : Nat} (hA : 0 < a) (hB : 0 < b)
    (missing : nearestRatio? negative a b = none) : overflowThreshold ≤ a / b := by
  simp only [nearestRatio?] at missing
  obtain ⟨binadeLow, -⟩ := floorLog2Ratio_bounds hA hB
  set k := floorLog2Ratio a b
  set q := max (k - 52) (-1074) with qDef
  obtain ⟨roundLow, -⟩ := roundAtScale_near (a := a) q hB
  have bounded := roundAtScale_le_top hA hB
  set s := roundAtScale a b q
  split at missing
  · rename_i carried
    simp only [ofScaled?, Nat.lt_irrefl, if_false, Nat.sub_self, ofFields?_eq_none_iff] at missing
    have high : 971 ≤ q := by
      have : 0 < hiddenBit := Nat.two_pow_pos 52
      omega
    have rounded : (s : ℚ) = 2 ^ 53 := by rw [carried, two_mul_hiddenBit_cast]
    calc overflowThreshold = (2 ^ 53 - 1 / 2) * 2 ^ (971 : Int) := by
          rw [overflowThreshold_eq, zpow_ofNat]
      _ ≤ (2 ^ 53 - 1 / 2) * 2 ^ q := by
          gcongr
          norm_num
      _ = ((s : ℚ) - 1 / 2) * 2 ^ q := by rw [rounded]
      _ ≤ a / b := roundLow
  · rename_i kept
    unfold ofScaled? at missing
    split at missing
    · rename_i subnormal
      rw [ofFields?_eq_none_iff] at missing
      exact absurd ⟨by decide, subnormal⟩ missing
    · rw [ofFields?_eq_none_iff] at missing
      have fraction : s - hiddenBit < hiddenBit := by omega
      have high : 972 ≤ q := by omega
      have binade : 1024 ≤ k := by omega
      calc overflowThreshold ≤ 2 ^ 1024 := overflowThreshold_le_two_pow
        _ = 2 ^ (1024 : Int) := (zpow_ofNat 2 1024).symm
        _ ≤ 2 ^ k := zpow_le_zpow_right₀ (by norm_num) binade
        _ ≤ a / b := binadeLow

end Binary64

/-! ### Reading a decimal -/

namespace Decimal

/-- The magnitude of a decimal is its digits scaled by its power of ten. -/
theorem abs_toRat (d : Decimal) : |d.toRat| = d.digits * (10 : ℚ) ^ d.exponent := by
  have nonneg : (0 : ℚ) ≤ d.digits * 10 ^ d.exponent := by positivity
  unfold toRat
  cases d.negative
  · simp only [Bool.false_eq_true, if_false, one_mul]
    exact abs_of_nonneg nonneg
  · simp only [if_true, neg_mul, one_mul, abs_neg]
    exact abs_of_nonneg nonneg

/-- A positive number has at least `10 ^ (count - 1)`, for its count of decimal digits. -/
theorem pow_digitCount_le {n : Nat} (positive : 0 < n) : 10 ^ (digitCount n - 1) ≤ n := by
  have count : digitCount n = (Nat.toDigits 10 n).length := by
    simp [digitCount, Nat.pos_iff_ne_zero.1 positive]
  rcases Nat.eq_zero_or_pos (digitCount n - 1) with none | some
  · rw [none, Nat.pow_zero]
    exact positive
  · refine Nat.le_of_not_lt fun small => ?_
    have short := (Nat.length_toDigits_le_iff (by decide) some).2 small
    omega

/-- A power of ten that no finite number reaches. -/
theorem overflowThreshold_le_ten_pow : Binary64.overflowThreshold ≤ 10 ^ 309 := by
  have powers : ((2 : ℚ) ^ 256) ^ 4 ≤ ((10 : ℚ) ^ 103) ^ 3 := by norm_num
  rw [← pow_mul, ← pow_mul] at powers
  exact Binary64.overflowThreshold_le_two_pow.trans powers

/-- **Reading a decimal fails only at or past the overflow threshold**: when no finite number is
read, the decimal's magnitude is at least `2^1024 - 2^970`, so the nearest number, ties to even,
is infinite. Reading fails early for a decimal with a digit at the 310th place before the point,
which is at least `10^309`; otherwise it reads a whole number as the ratio of its digits shifted
left to one, and a fraction as the ratio of its digits to a power of ten, and
`Binary64.nearestRatio?_eq_none` bounds both. -/
theorem toBinary64?_eq_none {d : Decimal} (missing : d.toBinary64? = none) :
    Binary64.overflowThreshold ≤ |d.toRat| := by
  rw [abs_toRat]
  unfold toBinary64? at missing
  split at missing
  · cases missing
  rename_i nonzero
  have positive : 0 < d.digits := Nat.pos_of_ne_zero nonzero
  dsimp only at missing
  split at missing
  · cases missing
  split at missing
  · rename_i large
    have least : ((10 ^ (digitCount d.digits - 1) : Nat) : ℚ) ≤ d.digits := by
      exact_mod_cast pow_digitCount_le positive
    push_cast at least
    have ten : (0 : ℚ) < 10 := by norm_num
    calc Binary64.overflowThreshold ≤ 10 ^ 309 := overflowThreshold_le_ten_pow
      _ = 10 ^ (309 : Int) := (zpow_ofNat 10 309).symm
      _ ≤ 10 ^ (((digitCount d.digits - 1 : Nat) : Int) + d.exponent) :=
          zpow_le_zpow_right₀ (by norm_num) (by omega)
      _ = 10 ^ (digitCount d.digits - 1) * 10 ^ d.exponent := by
          rw [zpow_add₀ ten.ne', zpow_natCast]
      _ ≤ d.digits * 10 ^ d.exponent := by gcongr
  split at missing
  · rename_i nonneg
    have scaled := Binary64.nearestRatio?_eq_none
      (Nat.mul_pos positive (by rw [Nat.pow_eq]; positivity)) Nat.one_pos missing
    rw [Nat.pow_eq] at scaled
    push_cast at scaled
    rwa [div_one, ← zpow_natCast, Int.toNat_of_nonneg nonneg] at scaled
  · rename_i negative
    have scaled := Binary64.nearestRatio?_eq_none positive (by rw [Nat.pow_eq]; positivity)
      missing
    rw [Nat.pow_eq] at scaled
    push_cast at scaled
    rwa [div_eq_mul_inv, ← zpow_natCast, ← zpow_neg, Int.toNat_of_nonneg (by omega),
      neg_neg] at scaled

end Decimal

end StyleGrammar
