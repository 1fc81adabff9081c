/-
# The integer part of a real

A real becomes an integer by way of its text: the text is read as a double, and
its fraction is dropped. Nothing is lost in the double
(`Decimal.floor_eq_of_isNearest`), but the text is only as long as it takes to
be read back as the same real.

| size of the real | the integer |
| --- | --- |
| less than 33554448 | its integer part (`floor_value_eq_of_lt`) |
| from there on | the number its text stands for, which may be another one that is read back as the real |
-/

import Mathlib.Data.Rat.Floor
import Mathlib.Tactic.IntervalCases
import Shank.Proofs.Numeral.Shortest
import Shank.Store

namespace Shank

open Numeral

/-- The integer part of a number, toward zero. -/
def integerPart (q : Rat) : Int :=
  if q < 0 then -⌊-q⌋ else ⌊q⌋

/-- The number that a numeral stands for. -/
def Numeral.Written.value (w : Written) : Rat :=
  if w.negative then -w.magnitude else w.magnitude

/-- The integer part of a magnitude with a sign: that of the magnitude, with the
sign. -/
theorem integerPart_sign {negative : Bool} {t : Rat} (ht : 0 ≤ t) :
    integerPart (if negative then -t else t) = if negative then -⌊t⌋ else ⌊t⌋ := by
  rw [integerPart]
  cases negative with
  | false => simp [ht.not_gt]
  | true =>
    rcases ht.eq_or_lt with rfl | hpos
    · simp
    · simp [hpos]

/-- The integer part of a real is its quotient with the remainder dropped. -/
theorem Ieee.truncate?_finite (q : Rat) : (finite q).truncate? = some (integerPart q) := by
  rw [truncate?, rational?, Option.map_some, integerPart]
  congr 1
  split
  · rename_i hneg
    rw [Rat.floor_def', Rat.num_neg_eq_neg_num, Rat.den_neg_eq_den]
    have hnum : 0 ≤ -q.num := by
      have := Rat.num_neg.2 hneg
      omega
    rw [← Int.tdiv_eq_ediv_of_nonneg hnum, Int.neg_tdiv, Int.neg_neg]
  · rename_i hnonneg
    rw [Rat.floor_def', Int.tdiv_eq_ediv_of_nonneg (Rat.num_nonneg.2 (not_lt.1 hnonneg))]

namespace Format

variable {f : Format} {z : Rat}

/-- A number of a format that is not too large for it has its own integer part;
for zeros of either sign this is zero. -/
theorem truncate?_ofMagnitude (negative : Bool) (hz : 0 ≤ z)
    (hlt : z < 2 ^ (f.maxExponent + f.precision)) :
    (f.ofMagnitude negative z).truncate? = some (if negative then -⌊z⌋ else ⌊z⌋) := by
  rw [ofMagnitude, if_neg hlt.not_ge]
  split
  · rename_i hzero
    cases negative <;> simp [hzero, Ieee.zero, Ieee.truncate?, Ieee.rational?]
  · rw [Ieee.truncate?_finite, integerPart_sign hz]

/-- A format has all integers up to two to its precision. -/
theorem grid_int (hf : 2 ≤ f.precision) (hmin : f.minExponent ≤ 0) {n : Int}
    (hn : |n| ≤ 2 ^ f.precision) : f.Grid n := by
  simpa using (grid_of_le (e := 0) hf hmin hn).1

end Format

/-! ## Nothing is lost in the double

A text has nine digits at most. Without a fraction it stands for an integer that
a double holds exactly; with one, for a number far enough below the next
integer.
-/

/-- What is left of a product with a power of ten when the twos are taken out
fits in the precision of a double. With nine zeros or fewer there are few fives;
with ten or more, the twos that are taken out make up for them. -/
theorem mul_five_pow_le {c j : Nat} (hc : c ≤ 10 ^ 9) (hlt : c * 10 ^ j < 2 ^ 63) :
    c * 5 ^ j ≤ 2 ^ 53 := by
  rcases Nat.lt_or_ge j 10 with hj | hj
  · calc c * 5 ^ j ≤ 10 ^ 9 * 5 ^ 9 :=
          Nat.mul_le_mul hc (Nat.pow_le_pow_right (by decide) (Nat.le_of_lt_succ hj))
      _ ≤ 2 ^ 53 := by norm_num
  · have hten : c * 10 ^ j = c * 5 ^ j * 2 ^ j := by
      rw [Nat.mul_assoc, ← Nat.mul_pow]
    have hpow : c * 5 ^ j * 2 ^ 10 ≤ c * 5 ^ j * 2 ^ j :=
      Nat.mul_le_mul_left _ (Nat.pow_le_pow_right (by decide) hj)
    omega

namespace Decimal

variable {x : Decimal} (hc : x.coefficient ≤ 10 ^ 9) {z : Rat} (hz : Format.double.IsNearest x.value z)

include hc

/-- An integer of nine digits and zeros is a double. -/
theorem grid_value {j : Nat} (hj : x.exponent = j) (hlt : x.value < 2 ^ 63) : Format.double.Grid x.value := by
  have hvalue := x.value_eq
  rw [hj, zpow_natCast] at hvalue
  have hbound : x.coefficient * 5 ^ j ≤ 2 ^ 53 := by
    rw [hvalue] at hlt
    exact mul_five_pow_le hc (by exact_mod_cast hlt)
  have hgrid := (Format.grid_of_le (f := Format.double) (e := j) (j := (x.coefficient * 5 ^ j : Nat))
    (by decide) (by simp only [Format.double]; omega) (by rw [Nat.abs_cast]; exact_mod_cast hbound)).1
  have hsame : (((x.coefficient * 5 ^ j : Nat) : Int) : Rat) * 2 ^ (j : Int) = x.value := by
    rw [hvalue, zpow_natCast, show (10 : Rat) = 5 * 2 by norm_num, mul_pow]
    push_cast
    ring
  exact hsame ▸ hgrid

variable {k : Nat} (hk : x.exponent = -k)

include hk

omit hc in
/-- A decimal with digits after the point, in units of its last digit. -/
theorem value_mul_pow : x.value * 10 ^ k = x.coefficient := by
  rw [x.value_eq, hk, zpow_neg, zpow_natCast, inv_mul_cancel_right₀ (by positivity)]

/-- A coefficient of nine digits with some of them behind the point stands for
no more than `10^9`. -/
theorem value_le : x.value ≤ 10 ^ 9 := by
  have hc' : (x.coefficient : Rat) ≤ 10 ^ 9 := by exact_mod_cast hc
  calc x.value ≤ x.value * 10 ^ k := le_mul_of_one_le_right x.value_nonneg (one_le_pow₀ (by norm_num))
    _ = x.coefficient := value_mul_pow hk
    _ ≤ 10 ^ 9 := hc'

include hz

/-- The double of a fraction is not the next integer: this is too far away. -/
theorem ne_of_value_lt (hsmall : 2 ^ (-1022 : Int) ≤ x.value) {n : Int} (hlt : x.value < n) : z ≠ n := by
  intro heq
  have hc' : (x.coefficient : Rat) ≤ 10 ^ 9 := by exact_mod_cast hc
  have hmul := value_mul_pow hk
  -- in units of the last digit, the integer is at least one away
  have hstep : (x.coefficient + 1 : Rat) ≤ n * 10 ^ k := by
    have hless : (x.coefficient : Rat) < n * 10 ^ k := by
      rw [← hmul]
      gcongr
    have hless' : (x.coefficient : Int) < n * 10 ^ k := by exact_mod_cast hless
    exact_mod_cast hless'
  rw [show (-1022 : Int) = Format.double.precision - 1 + Format.double.minExponent from rfl] at hsmall
  have hnear := hz.abs_sub_mul_le (by decide) hsmall
  rw [heq, abs_of_neg (by linarith), show Format.double.precision = 53 from rfl] at hnear
  have hscaled : (n * 10 ^ k - x.coefficient) * 2 ^ 53 ≤ (x.coefficient : Rat) := by
    calc (n * 10 ^ k - x.coefficient) * 2 ^ 53
        = -(x.value - n) * 2 ^ 53 * 10 ^ k := by
          rw [← hmul]
          ring
      _ ≤ x.value * 10 ^ k := by gcongr
      _ = x.coefficient := hmul
  linarith

/-- **A decimal with digits after the point and its double have one integer
part**: the double is not off by enough to come to the next integer. -/
theorem floor_eq_of_fraction (hsmall : 2 ^ (-1022 : Int) ≤ x.value) : ⌊z⌋ = ⌊x.value⌋ := by
  have hlow := Int.floor_le x.value
  have hhigh := Int.lt_floor_add_one x.value
  have hnonneg : 0 ≤ ⌊x.value⌋ := Int.floor_nonneg.2 x.value_nonneg
  have hbound : ⌊x.value⌋ ≤ 10 ^ 9 := by exact_mod_cast hlow.trans (value_le hc hk)
  generalize ⌊x.value⌋ = n at *
  have hgrid {i : Int} (h₀ : 0 ≤ i) (h₁ : i ≤ 10 ^ 9 + 1) : Format.double.Grid i :=
    Format.grid_int (by decide) (by decide) (by
      rw [abs_of_nonneg h₀, show Format.double.precision = 53 from rfl]
      omega)
  have hnext : x.value < (n + 1 : Int) := by exact_mod_cast hhigh
  have hbelow : (n : Rat) ≤ z :=
    hz.ge_of_grid (by decide) (hgrid hnonneg (by omega)) (by exact_mod_cast hnonneg) hlow
  have habove : z ≤ (n + 1 : Int) :=
    hz.le_of_grid (by decide) x.value_nonneg (hgrid (by omega) (by omega)) hnext.le
  have hless := lt_of_le_of_ne habove (ne_of_value_lt hc hz hk hsmall hnext)
  exact Int.floor_eq_iff.2 ⟨hbelow, by exact_mod_cast hless⟩

omit hk

/-- **A decimal of nine digits and its double have one integer part.** -/
theorem floor_eq_of_isNearest (hlt : x.value < 2 ^ 63) (hsmall : 2 ^ (-1022 : Int) ≤ x.value) :
    ⌊z⌋ = ⌊x.value⌋ := by
  rcases le_or_gt 0 x.exponent with hexponent | hexponent
  · obtain ⟨j, hj⟩ := Int.eq_ofNat_of_zero_le hexponent
    rw [hz.eq_of_grid (grid_value hc hj hlt)]
  · exact floor_eq_of_fraction hc hz (k := (-x.exponent).toNat) (by omega) hsmall

end Decimal

/-! ## What a text can hide

The fewest digits need not be those of the integer part. Below 33554448 a text
that is read back has the same integer part as its real; from there on it may
stand for another integer.
-/

section Back

variable {t z v : Rat} (hz : Format.double.IsNearest t z) (hv : Format.single.IsNearest z v)

include hz hv

/-- What is read back keeps its place among the singles. -/
theorem back_le {g : Rat} (ht : 0 ≤ t) (hg : Format.single.Grid g) (h : t ≤ g) : v ≤ g :=
  hv.le_of_grid (by decide) (hz.nonneg (by decide) ht) hg (hz.le_of_grid (by decide) ht hg.double h)

/-- What is read back does not fall below a single that the text is not below. -/
theorem le_back {g : Rat} (hg : Format.single.Grid g) (hg0 : 0 ≤ g) (h : g ≤ t) : g ≤ v :=
  hv.ge_of_grid (by decide) hg hg0 (hz.ge_of_grid (by decide) hg.double hg0 h)

/-- A text that stands for a single is read back as this one. -/
theorem back_eq (ht : 0 ≤ t) (hg : Format.single.Grid t) : v = t :=
  le_antisymm (back_le hz hv ht hg le_rfl) (le_back hz hv hg ht le_rfl)

end Back

/-- A single that is not an integer is less than `2 ^ 24`. -/
theorem lt_of_grid_of_ne {v : Rat} (hv : Format.single.Grid v) (hne : ∀ n : Int, v ≠ n) : v < 2 ^ 24 := by
  obtain ⟨m, e, rfl, hm, -⟩ := hv
  have he : e < 0 := by
    by_contra hge
    obtain ⟨k, rfl⟩ := Int.eq_ofNat_of_zero_le (not_lt.1 hge)
    refine hne (m * 2 ^ k) ?_
    rw [zpow_natCast]
    push_cast
    rfl
  have hm' : (m : Rat) < 2 ^ 24 := by exact_mod_cast (le_abs_self m).trans_lt hm
  rcases le_or_gt (m : Rat) 0 with hneg | hpos
  · exact lt_of_le_of_lt (mul_nonpos_of_nonpos_of_nonneg hneg (by positivity)) (by norm_num)
  · exact (mul_le_of_le_one_right hpos.le (zpow_le_one_of_nonpos₀ (by norm_num) he.le)).trans_lt hm'

/-- Multiples of ten are singles up to 33554440. -/
theorem grid_ten_mul {k : Nat} (hk : k ≤ 3355444) : Format.single.Grid ((10 * k : Nat) : Rat) := by
  rcases Nat.lt_or_ge k 3355444 with hlt | hge
  · have h := (Format.grid_of_le (f := Format.single) (e := 1) (j := (5 * k : Nat)) (by decide)
      (by decide) (by rw [Nat.abs_cast, show Format.single.precision = 24 from rfl]; omega)).1
    rw [zpow_one] at h
    rw [show ((10 * k : Nat) : Rat) = ((5 * k : Nat) : Int) * 2 by push_cast; ring]
    exact h
  · obtain rfl : k = 3355444 := by omega
    exact ⟨8388610, 2, by norm_num, by decide, by decide⟩

/-- The fewest digits keep an integer less than 33554448. In digits of units or
less it is written out; in larger ones it is a multiple of ten, and these are
singles of their own up to there. -/
theorem value_eq_of_int {d : Nat} {x : Decimal} {n : Int} (hx : Decimal.IsNearest d n x) {z : Rat}
    (hz : Format.double.IsNearest x.value z) (hv : Format.single.IsNearest z n) (hlt : n < 33554448) :
    x.value = n := by
  -- the digits reach down to units, or they do not
  rcases le_or_gt x.exponent 0 with hexponent | hexponent
  · obtain ⟨k, hk⟩ : ∃ k : Nat, x.exponent = -k := ⟨(-x.exponent).toNat, by omega⟩
    rw [hx.value_eq_of_int (k := n * 10 ^ k)]
    rw [hk, zpow_neg, zpow_natCast]
    push_cast
    rw [mul_inv_cancel_right₀ (by positivity)]
  · obtain ⟨k, hk⟩ : ∃ k : Nat, x.exponent = (k + 1 : Nat) := ⟨(x.exponent - 1).toNat, by omega⟩
    have hten : x.value = (10 * (x.coefficient * 10 ^ k) : Nat) := by
      rw [x.value_eq, hk, zpow_natCast, pow_succ]
      push_cast
      ring
    rcases Nat.lt_or_ge 3355444 (x.coefficient * 10 ^ k) with hlarge | hsmall
    · -- it would be read back as a larger number
      have hfirst : Format.single.Grid 33554448 := ⟨8388612, 2, by norm_num, by decide, by decide⟩
      have hlarge' : (33554448 : Rat) ≤ x.value := by
        rw [hten]
        exact_mod_cast (by omega : 33554448 ≤ 10 * (x.coefficient * 10 ^ k))
      have hle : (33554448 : Rat) ≤ n := le_back hz hv hfirst (by norm_num) hlarge'
      exact absurd (by exact_mod_cast hle) hlt.not_ge
    · exact (back_eq hz hv x.value_nonneg (hten ▸ grid_ten_mul hsmall)).symm

/-- What is no integer lies between two integers that are singles. -/
theorem floor_eq_of_ne {v t z : Rat} (hgrid : Format.single.Grid v) (hv0 : 0 ≤ v) (ht : 0 ≤ t)
    (hz : Format.double.IsNearest t z) (hv : Format.single.IsNearest z v) (hne : ∀ n : Int, v ≠ n) :
    ⌊t⌋ = ⌊v⌋ := by
  have hlow := Int.floor_le v
  have hhigh := Int.lt_floor_add_one v
  have hnonneg : 0 ≤ ⌊v⌋ := Int.floor_nonneg.2 hv0
  have hbound : ⌊v⌋ < 2 ^ 24 := by exact_mod_cast hlow.trans_lt (lt_of_grid_of_ne hgrid hne)
  have hlow' := lt_of_le_of_ne hlow (hne _).symm
  generalize ⌊v⌋ = n at *
  -- integers up to there are singles, and rounding does not pass a single
  have hgrid' {i : Int} (h₀ : 0 ≤ i) (h₁ : i ≤ 2 ^ 24) : Format.single.Grid i :=
    Format.grid_int (by decide) (by decide) (by rwa [abs_of_nonneg h₀])
  rw [Int.floor_eq_iff]
  constructor
  · by_contra hbelow
    exact hlow'.not_ge (back_le hz hv ht (hgrid' hnonneg hbound.le) (not_le.1 hbelow).le)
  · by_contra habove
    have h := le_back hz hv (hgrid' (i := n + 1) (by omega) (by omega))
      (by exact_mod_cast (by omega : 0 ≤ n + 1)) (by push_cast; exact not_lt.1 habove)
    push_cast at h
    exact hhigh.not_ge h

/-- **The fewest digits keep the integer part** of a real that is less than
33554448. -/
theorem floor_value_eq_of_lt {v : Rat} {d : Nat} {x : Decimal} (hgrid : Format.single.Grid v)
    (hx : Decimal.IsNearest d v x) {z : Rat} (hz : Format.double.IsNearest x.value z)
    (hv : Format.single.IsNearest z v) (hlt : v < 33554448) : ⌊x.value⌋ = ⌊v⌋ := by
  by_cases hint : ∃ n : Int, v = n
  · obtain ⟨n, rfl⟩ := hint
    rw [value_eq_of_int hx hz hv (by exact_mod_cast hlt)]
  · exact floor_eq_of_ne hgrid hx.pos.le x.value_nonneg hz hv fun n hn => hint ⟨n, hn⟩

namespace Ieee.IsShortest

variable {q : Rat} {d : Nat} {x : Decimal}

/-- The decimal of a text is read by way of a double. -/
theorem exists_double (h : IsShortest q d x) (hx : (finite q).IsSingle) :
    ∃ z, Format.double.IsNearest x.value z ∧ Format.single.IsNearest z |q| := by
  obtain ⟨z, hz, y, hy, hback⟩ :=
    (Format.rounds_ofDecimal Format.proper_double (decide (q.num < 0)) x).round Format.proper_single
      (by decide) (by decide) x.value_nonneg
  have hsame : Format.single.ofMagnitude (q.num < 0) |q| = Format.single.ofMagnitude (q.num < 0) y :=
    (ofMagnitude_abs hx).trans (h.back.symm.trans hback)
  obtain rfl := ((Format.ofMagnitude_eq_iff _).1 hsame).resolve_right fun hlarge =>
    hx.grid.2.not_ge hlarge.1
  exact ⟨z, hz, hy⟩

/-- The decimal of a text has nine digits at most, or is the power of ten after
them. -/
theorem coefficient_le (h : IsShortest q d x) (hq : q ≠ 0) : x.coefficient ≤ 10 ^ 9 := by
  have hnearest := h.nearest hq
  obtain ⟨k, rfl⟩ := Nat.exists_eq_add_of_le' h.one_le
  exact hnearest.coefficient_bounds.2.trans (Nat.pow_le_pow_right (by decide) h.le_nine)

/-- The decimal is not much smaller than the real. -/
theorem le_value (h : IsShortest q d x) (hx : (finite q).IsSingle) (hq : q ≠ 0) :
    2 ^ (-1022 : Int) ≤ x.value := by
  have hsingle := hx.zpow_le_abs hq
  have hunit : (10 : Rat) ^ x.exponent ≤ |q| :=
    le_trans (zpow_le_zpow_right₀ (by norm_num) (by have := h.one_le; omega)) (h.nearest hq).low
  have hoff := (le_abs_self _).trans (h.nearest hq).abs_sub_le
  calc (2 : Rat) ^ (-1022 : Int) ≤ 2 ^ (-149 - 1 : Int) := zpow_le_zpow_right₀ (by norm_num) (by decide)
    _ = 2 ^ (-149 : Int) / 2 := by rw [zpow_sub_one₀ (by norm_num), div_eq_mul_inv]
    _ ≤ |q| / 2 := by gcongr
    _ ≤ x.value := by linarith

/-- The smallest integer of 64 bits is written with seven digits, as a larger
number. -/
theorem value_lt_of_smallest (h : IsShortest (-2 ^ 63) d x) : x.value < 2 ^ 63 := by
  have hseven : d ≤ 7 := by
    by_contra hlt
    exact h.fewest 7 (by decide) (not_le.1 hlt) (by decide +kernel)
  have hback := h.back
  have hpos := h.one_le
  rw [h.eq_nearest] at hback ⊢
  interval_cases d
  case «7» => decide +kernel
  all_goals exact absurd hback (by decide +kernel)

/-- The text of a real with an integer part of 64 bits stands for a number with
one. Were it larger, it would be read back as a larger single, or as the one
number that is off by itself. -/
theorem value_lt (h : IsShortest q d x) (hx : (finite q).IsSingle)
    (hlow : Scalar.minInteger ≤ integerPart q) (hhigh : integerPart q ≤ Scalar.maxInteger) :
    x.value < 2 ^ 63 := by
  have htop : Format.single.Grid (2 ^ 63) := ⟨1, 63, by norm_num, by decide, by decide⟩
  by_contra hlarge
  obtain ⟨z, hz, hv⟩ := h.exists_double hx
  have hle := le_back hz hv htop (by positivity) (not_lt.1 hlarge)
  rw [integerPart] at hlow hhigh
  unfold Scalar.minInteger at hlow
  unfold Scalar.maxInteger at hhigh
  split at hlow
  · rename_i hneg
    rw [abs_of_neg hneg] at hle
    have hnext : -q < 2 ^ 63 + 1 := by
      have hfloor : ⌊-q⌋ < 2 ^ 63 + 1 := by omega
      exact_mod_cast Int.floor_lt.1 hfloor
    -- the next single is much larger than that
    have hsame : (2 : Rat) ^ 63 = -q := by
      by_contra hne
      have hgap := htop.gap (abs_of_neg hneg ▸ hx.grid.1) hne
      rw [abs_of_pos (by positivity), abs_of_nonpos (by linarith),
        show Format.single.precision = 24 from rfl] at hgap
      linarith
    obtain rfl : q = -2 ^ 63 := by linarith
    exact hlarge h.value_lt_of_smallest
  · rename_i hnonneg
    rw [if_neg hnonneg] at hhigh
    rw [abs_of_nonneg (not_lt.1 hnonneg)] at hle
    have hfloor : 2 ^ 63 ≤ ⌊q⌋ := Int.le_floor.2 (by exact_mod_cast hle)
    omega

end Ieee.IsShortest

/-! ## The integer that is read

An integer variable that is given the text of a real reads it as a real, and
drops the fraction. What it is given is a numeral, so what it reads is known.
-/

/-- A text that is no integer numeral is read as the integer part of a real one. -/
theorem Scalar.ofText_integer {text : String} {r : Refusal} {y : Ieee} {n : Int}
    (hstripped : Text.stripped text = text) (hinteger : integer? text = .error r)
    (hreal : real? text = some y) (hpart : y.truncate? = some n) :
    ofText .integer text = .ok (integer n) := by
  unfold ofText
  dsimp only
  rw [hstripped, readInteger?, hinteger]
  dsimp only
  rw [hreal, Option.bind_some, hpart]

/-- A numeral with a fraction or a power, of a number that a double holds well
enough. It is stored as its integer part, if that has 64 bits. -/
theorem Numeral.Written.read_integer {w : Written} (htail : w.tail ≠ [])
    (hfloor : ∀ z, Format.double.IsNearest w.magnitude z → ⌊z⌋ = ⌊w.magnitude⌋)
    (hlt : w.magnitude < 2 ^ 63) :
    (ScalarType.integer none).read w.text = .ok (.integer (integerPart w.value)) := by
  have hnonneg := w.magnitude_nonneg
  obtain ⟨y, hy, z, hz, rfl⟩ := w.exists_rounds
  have htop : Format.double.Grid (2 ^ 63) := ⟨1, 63, by norm_num, by decide, by decide⟩
  have hz' : z < 2 ^ (Format.double.maxExponent + Format.double.precision) :=
    lt_of_le_of_lt (hz.le_of_grid (by decide) hnonneg htop hlt.le) (by
      rw [← zpow_natCast]
      exact zpow_lt_zpow_right₀ (by norm_num) (by decide))
  have hpart := Format.truncate?_ofMagnitude w.negative (hz.nonneg (by decide) hnonneg) hz'
  rw [hfloor z hz, ← integerPart_sign hnonneg] at hpart
  have htext := Scalar.ofText_integer w.stripped_text (w.integer?_text htail) hy hpart
  have hpos : 0 ≤ ⌊w.magnitude⌋ := Int.floor_nonneg.2 hnonneg
  have hsmall : ⌊w.magnitude⌋ < 2 ^ 63 := Int.floor_lt.2 (by exact_mod_cast hlt)
  -- so the check for 64 bits is passed
  have hbits : ¬(integerPart w.value < Scalar.minInteger ∨ Scalar.maxInteger < integerPart w.value) := by
    rw [value, integerPart_sign hnonneg]
    unfold Scalar.minInteger Scalar.maxInteger
    split <;> omega
  unfold ScalarType.read
  dsimp only [ScalarType.kind]
  rw [htext]
  exact if_neg hbits

/-- The integer part by the floor of the magnitude. -/
theorem integerPart_eq (q : Rat) : integerPart q = if q < 0 then -⌊|q|⌋ else ⌊|q|⌋ := by
  rw [integerPart]
  split
  · rename_i hneg
    rw [abs_of_neg hneg]
  · rename_i hnonneg
    rw [abs_of_nonneg (not_lt.1 hnonneg)]

namespace Ieee

/-- The text of a real `x` of the number `q` is the numeral `w`. An integer
variable reads its integer part from it, which for small numbers is that of `q`. -/
structure ReadsInteger (x : Ieee) (q : Rat) (w : Written) : Prop where
  text : w.text = x.singleText
  read : (ScalarType.integer none).read x.singleText = .ok (.integer (integerPart w.value))
  small : |q| < 33554448 → integerPart w.value = integerPart q

/-- The text of a zero is read as the integer zero, with or without a sign. -/
theorem exists_readsInteger_zero {x : Ieee} (sign : Option Bool)
    (htext : x.singleText = String.ofList (signText sign ++ ['0', '.', '0']))
    (hread : (ScalarType.integer none).read x.singleText = .ok (.integer 0)) : ∃ w, x.ReadsInteger 0 w := by
  let w : Written := { sign, whole := ['0'], fraction := some ['0'] }
  have hmagnitude : w.magnitude = 0 := by
    rw [w.magnitude_eq, show number (w.whole ++ w.decimals) = 0 from rfl, Nat.cast_zero, zero_mul]
  have hvalue : w.value = 0 := by
    rw [Written.value, hmagnitude, neg_zero, ite_self]
  have hpart : integerPart w.value = 0 := by rw [hvalue]; rfl
  exact ⟨w, htext.symm, hpart ▸ hread, fun _ => by rw [hvalue]⟩

/-- **The text of a finite real that is not zero is read as an integer**: the
integer part of the number that the text stands for. -/
theorem exists_readsInteger_finite {q : Rat} (hx : (finite q).IsSingle) (hq : q ≠ 0)
    (hlow : Scalar.minInteger ≤ integerPart q) (hhigh : integerPart q ≤ Scalar.maxInteger) :
    ∃ w, (finite q).ReadsInteger q w := by
  obtain ⟨d, h⟩ := exists_isShortest hx hq
  obtain ⟨c, hc, hmark⟩ := Decimal.exists_mem_text d (Decimal.nearest d q.num.natAbs q.den)
  obtain ⟨w, htext, hbody, hnegative, hmagnitude⟩ := h.exists_written hq
  generalize Decimal.nearest d q.num.natAbs q.den = t at h hc hbody hmagnitude
  have htail : w.tail ≠ [] := Written.tail_ne_nil (hbody ▸ hc) (by rcases hmark with rfl | rfl <;> decide)
  have hlt := h.value_lt hx hlow hhigh
  refine ⟨w, htext, ?_, fun hsmall => ?_⟩
  · rw [← htext]
    refine w.read_integer htail ?_ (hmagnitude ▸ hlt)
    rw [hmagnitude]
    exact fun z hz => Decimal.floor_eq_of_isNearest (h.coefficient_le hq) hz hlt (h.le_value hx hq)
  · obtain ⟨z, hz, hv⟩ := h.exists_double hx
    rw [Written.value, hmagnitude, hnegative, integerPart_sign t.value_nonneg, integerPart_eq q,
      floor_value_eq_of_lt hx.grid.1 (h.nearest hq) hz hv hsmall]
    simp

/-- The text of a finite real with an integer part of 64 bits is read as the
integer part of the number that it stands for. -/
theorem exists_readsInteger {x : Ieee} {q : Rat} (hx : x.IsSingle) (hq : x.rational? = some q)
    (hlow : Scalar.minInteger ≤ integerPart q) (hhigh : integerPart q ≤ Scalar.maxInteger) :
    ∃ w, x.ReadsInteger q w := by
  cases x with
  | nan | infinity => cases hq
  | negativeZero =>
    obtain rfl := Option.some.inj hq
    exact exists_readsInteger_zero (some true) (by decide) (by decide +kernel)
  | finite r =>
    obtain rfl := Option.some.inj hq
    rcases eq_or_ne r 0 with rfl | hne
    · exact exists_readsInteger_zero none (by decide) (by decide +kernel)
    · exact exists_readsInteger_finite hx hne hlow hhigh

end Ieee
end Shank
