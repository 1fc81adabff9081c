/-
# Decimals and the nearest number

What is done with a decimal is told by the number it stands for.

| function | told by |
| --- | --- |
| `Decimal.order` | `10 ^ order` is the largest power of ten that is at most the number (`Decimal.order_spec`) |
| `Format.ofDecimal` | the nearest number of the format, whatever the exponent (`Format.rounds_ofDecimal`) |
| `Decimal.nearest` | `count` digits, off by at most half a unit of the last one (`Decimal.nearest_spec`) |

A decimal may have an exponent of any size. Such a one is not computed with: far
enough out it is an infinity or a zero without being scaled, and it is shown
that this is what it would be rounded to.
-/

import Mathlib.Data.Nat.Digits.Lemmas
import Shank.Decimal
import Shank.Proofs.Ieee.Nearest

namespace Shank

/-! ## Powers of ten

A decimal is scaled by the power of ten of its first digit, which is found from
how many digits the parts of the quotient have.
-/

/-- A positive integer lies between the two powers of ten that its number of
digits tells. -/
theorem digitCount_spec {n : Nat} (hn : 0 < n) :
    (10 : Rat) ^ ((digitCount n : Int) - 1) ≤ n ∧ (n : Rat) < 10 ^ (digitCount n : Int) := by
  obtain ⟨k, hk⟩ : ∃ k, digitCount n = k + 1 :=
    Nat.exists_eq_succ_of_ne_zero (Nat.length_toDigits_pos (b := 10) (n := n)).ne'
  have hhigh : n < 10 ^ (k + 1) := (Nat.length_toDigits_le_iff (by decide) (by omega)).1 hk.le
  have hlow : 10 ^ k ≤ n := by
    rcases Nat.eq_zero_or_pos k with rfl | hk'
    · exact hn
    · by_contra h
      have := (Nat.length_toDigits_le_iff (by decide) hk').2 (Nat.lt_of_not_le h)
      rw [digitCount] at hk
      omega
  rw [hk, Nat.cast_succ, add_sub_cancel_right, zpow_natCast, ← Nat.cast_succ, zpow_natCast]
  exact ⟨by exact_mod_cast hlow, by exact_mod_cast hhigh⟩

/-- The denominator stays positive when a quotient is scaled, so that scaling
never divides by zero. -/
theorem scaleDownTen_pos {n d : Nat} (hd : 0 < d) (e : Int) : 0 < (scaleDownTen n d e).2 := by
  rw [scaleDownTen]
  split
  · exact Nat.mul_pos hd (Nat.pow_pos (by decide))
  · exact hd

/-- To scale a quotient divides it by the power of ten, be the exponent negative
or not. -/
theorem scaleDownTen_eq {n d : Nat} (e : Int) :
    ((scaleDownTen n d e).1 : Rat) / (scaleDownTen n d e).2 = (n / d : Rat) / 10 ^ e := by
  rw [scaleDownTen]
  split
  · rename_i h
    obtain ⟨k, rfl⟩ := Int.eq_ofNat_of_zero_le h
    simp [div_div]
  · rename_i h
    obtain ⟨k, rfl⟩ : ∃ k : Nat, e = -k := ⟨(-e).toNat, by omega⟩
    simp [mul_div_right_comm]

/-- **The order of a quotient is the exponent of its first digit**: `n / d` lies
between this power of ten and the next one. -/
theorem decimalOrder_spec {n d : Nat} (hn : 0 < n) (hd : 0 < d) :
    (10 : Rat) ^ decimalOrder n d ≤ n / d ∧ (n / d : Rat) < 10 ^ (decimalOrder n d + 1) := by
  have hd' : (0 : Rat) < d := by exact_mod_cast hd
  obtain ⟨hlow, hhigh⟩ := digitCount_spec hn
  obtain ⟨hlow', hhigh'⟩ := digitCount_spec hd
  refine zpow_order_spec (by norm_num) (scaleDownTen_pos hd _) (scaleDownTen_eq _) ?_ ?_
  · rw [le_div_iff₀ hd']
    calc (10 : Rat) ^ ((digitCount n : Int) - digitCount d - 1) * d
        ≤ 10 ^ ((digitCount n : Int) - digitCount d - 1) * 10 ^ (digitCount d : Int) := by gcongr
      _ = 10 ^ ((digitCount n : Int) - 1) := by
        rw [← zpow_add₀ (by norm_num)]
        congr 1
        ring
      _ ≤ n := hlow
  · rw [div_lt_iff₀ hd']
    calc (n : Rat) < 10 ^ (digitCount n : Int) := hhigh
      _ = 10 ^ ((digitCount n : Int) - digitCount d + 1) * 10 ^ ((digitCount d : Int) - 1) := by
        rw [← zpow_add₀ (by norm_num)]
        congr 1
        ring
      _ ≤ 10 ^ ((digitCount n : Int) - digitCount d + 1) * d := by gcongr

namespace Decimal

/-- The number of a decimal: its coefficient in units of the power of ten. The
model splits on the sign of the exponent; here the power is one of a field. -/
theorem value_eq (x : Decimal) : x.value = x.coefficient * 10 ^ x.exponent := by
  rw [value]
  split
  · rename_i h
    obtain ⟨k, hk⟩ := Int.eq_ofNat_of_zero_le h
    simp [hk]
  · rename_i h
    obtain ⟨k, hk⟩ : ∃ k : Nat, x.exponent = -k := ⟨(-x.exponent).toNat, by omega⟩
    rw [Rat.mkRat_eq_div, hk]
    simp [div_eq_mul_inv]

/-- A decimal has no sign of its own. -/
theorem value_nonneg (x : Decimal) : 0 ≤ x.value := by
  rw [value_eq]
  positivity

/-- **The order of a decimal tells its magnitude.** -/
theorem order_spec {x : Decimal} (hx : 0 < x.coefficient) :
    (10 : Rat) ^ x.order ≤ x.value ∧ x.value < 10 ^ (x.order + 1) := by
  obtain ⟨hlow, hhigh⟩ := digitCount_spec hx
  rw [value_eq, order, zpow_add₀ (by norm_num), add_right_comm, sub_add_cancel,
    zpow_add₀ (by norm_num)]
  constructor <;> gcongr

/-! ## The nearest decimal

What is rounded to a number of digits has this number of them, or one more where
all of them were nines. Either way it is a nearest multiple of its unit.
-/

/-- A decimal with a number of digits that is nearest to a number: it is in
units of `10 ^ exponent`, of which there are `count` digits. Rounding up to a
power of ten may give one digit more. -/
structure IsNearest (count : Nat) (q : Rat) (x : Decimal) : Prop where
  low : 10 ^ (x.exponent + count - 1) ≤ q
  high : q < 10 ^ (x.exponent + count)
  near : IsNearestInt (q / 10 ^ x.exponent) x.coefficient

/-- **The nearest decimal is one**: `Decimal.nearest` satisfies its
specification for every positive quotient and every number of digits. -/
theorem nearest_spec (count : Nat) {n d : Nat} (hn : 0 < n) (hd : 0 < d) :
    IsNearest count (n / d) (nearest count n d) := by
  obtain ⟨hlow, hhigh⟩ := decimalOrder_spec hn hd
  have hround := isNearestInt_roundDiv (scaleDownTen n d (decimalOrder n d - count + 1)).1
    (scaleDownTen_pos hd (n := n) (decimalOrder n d - count + 1))
  rw [scaleDownTen_eq] at hround
  refine ⟨?_, ?_, hround⟩
  · rwa [nearest, show decimalOrder n d - count + 1 + count - 1 = decimalOrder n d by ring]
  · rwa [nearest, show decimalOrder n d - count + 1 + count = decimalOrder n d + 1 by ring]

namespace IsNearest

variable {count : Nat} {q : Rat} {x : Decimal}

/-- What is rounded to a decimal is positive. -/
theorem pos (hx : IsNearest count q x) : 0 < q :=
  lt_of_lt_of_le (by positivity) hx.low

/-- A nearest decimal is off by half a unit of its last digit at most. -/
theorem abs_sub_le (hx : IsNearest count q x) : |q - x.value| ≤ 10 ^ x.exponent / 2 := by
  have hu : (0 : Rat) < 10 ^ x.exponent := by positivity
  have hnear := hx.near.near
  rw [Int.cast_natCast] at hnear
  calc |q - x.value| = |q / 10 ^ x.exponent - x.coefficient| * 10 ^ x.exponent := by
        rw [value_eq, abs_sub_mul_unit hu]
    _ ≤ 1 / 2 * 10 ^ x.exponent := by gcongr
    _ = 10 ^ x.exponent / 2 := by ring

/-- A number of units is its own nearest one. -/
theorem value_eq_of_int (hx : IsNearest count q x) {k : Int} (hk : q = k * 10 ^ x.exponent) :
    x.value = q := by
  have hu : (0 : Rat) < 10 ^ x.exponent := by positivity
  have hself : IsNearestInt (q / 10 ^ x.exponent) k := by
    rw [hk, mul_div_cancel_right₀ _ hu.ne']
    exact isNearestInt_of_lt (by simp)
  have hcoefficient := hx.near.unique hself
  rw [value_eq, hk, ← hcoefficient, Int.cast_natCast]

/-- The coefficient has as many digits as there should be. -/
theorem coefficient_bounds (hx : IsNearest (count + 1) q x) :
    10 ^ count ≤ x.coefficient ∧ x.coefficient ≤ 10 ^ (count + 1) := by
  have hu : (0 : Rat) < 10 ^ x.exponent := by positivity
  have hlow : (10 : Rat) ^ count ≤ q / 10 ^ x.exponent := by
    rw [le_div_iff₀ hu, ← zpow_natCast, ← zpow_add₀ (by norm_num)]
    have := hx.low
    rwa [show x.exponent + (count + 1 : Nat) - 1 = count + x.exponent by push_cast; ring] at this
  have hhigh : q / 10 ^ x.exponent < 10 ^ (count + 1) := by
    rw [div_lt_iff₀ hu, ← zpow_natCast, ← zpow_add₀ (by norm_num), add_comm]
    exact hx.high
  obtain ⟨h₁, h₂⟩ := abs_sub_le_iff.1 hx.near.near
  have hlow' : ((10 ^ count : Nat) : Rat) < (x.coefficient + 1 : Nat) := by
    push_cast at h₁ ⊢
    linarith
  have hhigh' : ((x.coefficient : Nat) : Rat) < (10 ^ (count + 1) + 1 : Nat) := by
    push_cast at h₂ ⊢
    linarith
  rw [Nat.cast_lt] at hlow' hhigh'
  omega

/-- With at least one digit the coefficient is not zero, however small the
number is. -/
theorem coefficient_pos (hx : IsNearest count q x) (hcount : 0 < count) : 0 < x.coefficient := by
  obtain ⟨k, rfl⟩ := Nat.exists_eq_add_of_lt hcount
  rw [Nat.zero_add] at hx
  exact lt_of_lt_of_le (by positivity) hx.coefficient_bounds.1

end IsNearest

end Decimal

/-! ## Rounding to a format

A decimal is rounded as the quotient that it is. Where its exponent is so large
or so small that this would take long, the result is known without it.
-/

namespace Format

variable {f : Format}

/-- Eight is two to the third, for any exponent. -/
theorem eight_zpow (k : Int) : (8 : Rat) ^ k = 2 ^ (3 * k) := by
  rw [zpow_mul]
  norm_num

/-- From one on, a power of ten is larger than the power of two of three times
the exponent. This bounds the decimals that are too large for every format. -/
theorem two_zpow_le_ten_zpow {e k : Int} (hk : 0 ≤ k) (he : e ≤ 3 * k) : (2 : Rat) ^ e ≤ 10 ^ k := by
  obtain ⟨n, rfl⟩ := Int.eq_ofNat_of_zero_le hk
  calc (2 : Rat) ^ e ≤ 2 ^ (3 * (n : Int)) := zpow_le_zpow_right₀ (by norm_num) he
    _ = 8 ^ (n : Int) := (eight_zpow _).symm
    _ ≤ 10 ^ (n : Int) := by
        rw [zpow_natCast, zpow_natCast]
        gcongr
        norm_num

/-- Below one, a power of ten is smaller than the power of two of three times
the exponent. This bounds the decimals that are too small for every format. -/
theorem ten_zpow_le_two_zpow {e k : Int} (hk : k ≤ 0) (he : 3 * k ≤ e) : (10 : Rat) ^ k ≤ 2 ^ e := by
  have h := inv_anti₀ (by positivity) (two_zpow_le_ten_zpow (e := -e) (k := -k) (by omega) (by omega))
  rwa [← zpow_neg, ← zpow_neg, Int.neg_neg, Int.neg_neg] at h

/-- What is too large is rounded to an infinity. -/
theorem rounds_infinity (hf : f.Proper) (negative : Bool) {q : Rat}
    (hq : 2 ^ (f.maxExponent + f.precision) ≤ q) : f.Rounds negative q (.infinity negative) := by
  obtain ⟨y, hy⟩ := exists_isNearest hf.two_le (le_trans (by positivity) hq)
  have hmin := hf.min_le_max
  have hy' := hy.ge_of_grid hf.two_le (grid_zpow hf.two_le (by omega)) (by positivity) hq
  refine ⟨y, hy, ?_⟩
  rw [ofMagnitude, if_neg (lt_of_lt_of_le (by positivity) hy').ne', if_pos hy']

/-- What is less than half of the smallest number is rounded to zero. -/
theorem rounds_zero (hf : f.Proper) (negative : Bool) {q : Rat} (hq : 0 ≤ q)
    (hlt : q < 2 ^ (f.minExponent - 1)) : f.Rounds negative q (.zero negative) := by
  have hunit : f.IsUnit q f.minExponent :=
    ⟨le_rfl, hlt.trans_le (zpow_le_zpow_right₀ (by norm_num) (by omega)), .inl rfl⟩
  have hhalf : q / 2 ^ f.minExponent < 1 / 2 := by
    rw [zpow_sub_one₀ (by norm_num)] at hlt
    rw [div_lt_iff₀ (by positivity)]
    linarith
  have hzero := hunit.isNearest_of_int hf.two_le hq (j := 0) (isNearestInt_of_lt (by
    rwa [Int.cast_zero, sub_zero, abs_of_nonneg (by positivity)]))
  exact ⟨_, hzero, by simp [ofMagnitude]⟩

/-- **A decimal is rounded to the nearest number of the format.** -/
theorem rounds_ofDecimal (hf : f.Proper) (negative : Bool) (x : Decimal) :
    f.Rounds negative x.value (f.ofDecimal negative x) := by
  rw [ofDecimal]
  split
  · rename_i hzero
    refine ⟨0, ?_, by rw [ofMagnitude, if_pos rfl]⟩
    rw [Decimal.value_eq, hzero, Nat.cast_zero, zero_mul]
    exact f.grid_zero.isNearest
  rename_i hne
  obtain ⟨hlow, hhigh⟩ := x.order_spec (Nat.pos_of_ne_zero hne)
  split
  · rename_i hlarge
    have htop := hf.top_nonneg
    exact rounds_infinity hf negative ((two_zpow_le_ten_zpow (by omega) hlarge).trans hlow)
  split
  · rename_i hsmall
    obtain ⟨hsmall, hneg⟩ := hsmall
    exact rounds_zero hf negative x.value_nonneg
      (hhigh.trans_le (ten_zpow_le_two_zpow (by omega) hsmall.le))
  · have hvalue := Decimal.value_eq x
    split
    · rename_i hexponent
      obtain ⟨k, hk⟩ := Int.eq_ofNat_of_zero_le hexponent
      have h := rounds_roundQuotient hf negative (n := x.coefficient * Nat.pow 10 x.exponent.toNat)
        (d := 1) (Nat.mul_pos (Nat.pos_of_ne_zero hne) (Nat.pow_pos (by decide))) Nat.one_pos
      rw [hvalue, hk]
      rw [hk] at h
      simpa using h
    · rename_i hexponent
      obtain ⟨k, hk⟩ : ∃ k : Nat, x.exponent = -k := ⟨(-x.exponent).toNat, by omega⟩
      have h := rounds_roundQuotient hf negative (Nat.pos_of_ne_zero hne)
        (d := Nat.pow 10 (-x.exponent).toNat) (Nat.pow_pos (by decide))
      rw [hvalue, hk]
      rw [hk] at h
      simpa [div_eq_mul_inv] using h

end Format
end Shank
