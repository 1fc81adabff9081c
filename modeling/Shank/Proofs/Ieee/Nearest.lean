/-
# The nearest number of a format

What it is to round to the nearest number is told here without units and
remainders, and shown to be what `Format.roundQuotient` does.

| notion | meaning |
| --- | --- |
| `Grid` | `m · 2^e` with fewer bits than the precision and `minExponent ≤ e`, however large |
| `EvenGrid` | the same with an even `m` |
| `IsNearest` | nothing on the grid is nearer, and of two that are as near it is the even one |
| `Rounds` | the nearest one with a sign; from `2^(maxExponent + precision)` on it is an infinity |
| `RoundsTo` | the same for a datum: one that is no number, or a zero, stays what it is |

All of it rests on one unit for each number (`IsUnit`): in that unit the grid
looks like the integers around the number, so a nearest number is a nearest
integer of units (`IsUnit.int_of_isNearest`) and the other way round
(`IsUnit.isNearest_of_int`). The nearest number is the only one
(`IsNearest.unique`), it grows with what is rounded (`IsNearest.mono`), and two
numbers of the grid are not closer than their size divided by `2^precision`
(`Grid.gap`).
-/

import Mathlib.Algebra.Order.Ring.Abs
import Mathlib.Algebra.Ring.Int.Parity
import Mathlib.Tactic.GCongr
import Shank.Proofs.Ieee.Rounding

namespace Shank

/-! ## The nearest integer

To the even one of two that are as near: that makes it unique. A quotient of
natural numbers is rounded to it by its floor and the rest.
-/

/-- The integer nearest to a number; half-way between two it is the even one. -/
structure IsNearestInt (a : Rat) (j : Int) : Prop where
  near : |a - j| ≤ 1 / 2
  even : |a - j| = 1 / 2 → Even j

/-- An integer that is less than a half away is the nearest one, even or not. -/
theorem isNearestInt_of_lt {a : Rat} {j : Int} (h : |a - j| < 1 / 2) : IsNearestInt a j :=
  ⟨h.le, fun he => absurd he h.ne⟩

/-- No integer is nearer, and another one is as near half-way only. -/
theorem IsNearestInt.le_abs {a : Rat} {j : Int} (hj : IsNearestInt a j) (k : Int) :
    |a - j| ≤ |a - k| ∧ (k ≠ j → |a - k| = |a - j| → |a - j| = 1 / 2) := by
  rcases eq_or_ne k j with rfl | hne
  · exact ⟨le_rfl, fun h => absurd rfl h⟩
  have hstep : (1 : Rat) ≤ |(k : Rat) - j| := by
    exact_mod_cast Int.one_le_abs (sub_ne_zero.2 hne)
  have htriangle := abs_sub_le (k : Rat) a j
  rw [abs_sub_comm (k : Rat) a] at htriangle
  have := hj.near
  exact ⟨by linarith, fun _ h => by linarith⟩

/-- **There is only one nearest integer**: half-way between two neighbours only
one of them is even. -/
theorem IsNearestInt.unique {a : Rat} {j k : Int} (hj : IsNearestInt a j) (hk : IsNearestInt a k) :
    j = k := by
  by_contra hne
  have hsame : |a - k| = |a - j| := le_antisymm (hk.le_abs j).1 (hj.le_abs k).1
  have hhalf := (hj.le_abs k).2 (Ne.symm hne) hsame
  have heven := (hj.even hhalf).sub (hk.even (hsame.trans hhalf))
  -- both are half-way off, so one of two neighbours would not be even
  have hdistance : |j - k| ≤ 1 := by
    have htriangle := abs_sub_le (j : Rat) a k
    rw [abs_sub_comm (j : Rat) a, hsame, hhalf] at htriangle
    have : ((|j - k| : Int) : Rat) ≤ 1 := by
      push_cast
      linarith
    exact_mod_cast this
  obtain ⟨i, hi⟩ := heven
  rw [abs_le] at hdistance
  omega

/-- A quotient is rounded to the nearest integer. -/
theorem isNearestInt_roundDiv (n : Nat) {d : Nat} (hd : 0 < d) :
    IsNearestInt (n / d) (roundDiv n d : Nat) := by
  have hd' : (0 : Rat) < d := by exact_mod_cast hd
  have hrest : n % d < d := Nat.mod_lt n hd
  have hquotient : (n / d : Rat) = (n / d : Nat) + (n % d : Nat) / d := by
    have hsplit : (n : Rat) = d * (n / d : Nat) + (n % d : Nat) := by
      exact_mod_cast (Nat.div_add_mod n d).symm
    nth_rewrite 1 [hsplit]
    field_simp
  have hlow : (0 : Rat) ≤ (n % d : Nat) / d := by positivity
  rw [hquotient, roundDiv]
  generalize n / d = q at *
  generalize n % d = r at *
  split
  · rename_i hr
    have hr' : (r / d : Rat) < 1 / 2 := by
      rw [div_lt_iff₀ hd']
      have : (2 * r : Rat) < d := by exact_mod_cast hr
      linarith
    refine isNearestInt_of_lt ?_
    rwa [Int.cast_natCast, add_sub_cancel_left, abs_of_nonneg hlow]
  · split
    · rename_i hr
      have hr' : (1 / 2 : Rat) < r / d := by
        rw [lt_div_iff₀ hd']
        have : (d : Rat) < 2 * r := by exact_mod_cast hr
        linarith
      have hone : (r / d : Rat) < 1 := by
        rw [div_lt_one hd']
        exact_mod_cast hrest
      refine isNearestInt_of_lt ?_
      push_cast
      rw [abs_sub_lt_iff]
      constructor <;> linarith
    · -- half-way, and one of the two is even
      have hhalf : (r / d : Rat) = 1 / 2 := by
        have : (2 * r : Rat) = d := by
          have : 2 * r = d := by omega
          exact_mod_cast this
        rw [div_eq_iff hd'.ne']
        linarith
      rw [hhalf]
      rcases Nat.even_or_odd q with hq | hq
      · rw [Nat.even_iff.1 hq, add_zero]
        exact ⟨by simp [abs_of_pos], fun _ => by exact_mod_cast hq⟩
      · rw [Nat.odd_iff.1 hq]
        refine ⟨?_, fun _ => by exact_mod_cast hq.add_one⟩
        push_cast
        rw [abs_sub_comm, show (q + 1 - (q + 1 / 2) : Rat) = 1 / 2 by ring]
        simp [abs_of_pos]

/-- A number is, without its sign, the quotient of two natural numbers. -/
theorem natAbs_num_div_den (q : Rat) : (q.num.natAbs / q.den : Rat) = |q| := by
  rw [Nat.cast_natAbs, Int.cast_abs, ← abs_of_pos (show (0 : Rat) < q.den by exact_mod_cast q.den_pos),
    ← abs_div, Rat.num_div_den]

/-- There is a nearest integer: the floor, or the one above it. -/
theorem exists_isNearestInt {a : Rat} (ha : 0 ≤ a) : ∃ j, IsNearestInt a j := by
  have hround := isNearestInt_roundDiv a.num.natAbs a.den_pos
  rw [natAbs_num_div_den, abs_of_nonneg ha] at hround
  exact ⟨_, hround⟩

/-- Distances in units. -/
theorem abs_sub_mul_unit {u : Rat} (hu : 0 < u) (q j : Rat) : |q - j * u| = |q / u - j| * u := by
  rw [← abs_of_pos hu, ← abs_mul, abs_of_pos hu, sub_mul, div_mul_cancel₀ _ hu.ne']

namespace Format

variable {f : Format} {q y z : Rat} {e : Int}

/-! ## The grid of a format

A grid goes on without end, so a number has a nearest one on it however large it
is. That the format has an end is left to the data at the end of this module.
-/

/-- The numbers that a format would hold if its exponents had no upper bound. -/
def Grid (f : Format) (y : Rat) : Prop :=
  ∃ m e : Int, y = m * 2 ^ e ∧ |m| < 2 ^ f.precision ∧ f.minExponent ≤ e

/-- Those of them that are held with an even significand. -/
def EvenGrid (f : Format) (y : Rat) : Prop :=
  ∃ m e : Int, y = m * 2 ^ e ∧ |m| < 2 ^ f.precision ∧ f.minExponent ≤ e ∧ Even m

/-- The number of the grid nearest to `q`: none is nearer, and if another one is
as near it is the even one. -/
structure IsNearest (f : Format) (q y : Rat) : Prop where
  grid : f.Grid y
  nearest : ∀ z, f.Grid z → |q - y| ≤ |q - z|
  even : ∀ z, f.Grid z → z ≠ y → |q - z| = |q - y| → f.EvenGrid y

/-- A format with bits enough for a power of two and half of it to be even, and
with a range of exponents that reaches up to 1. -/
structure Proper (f : Format) : Prop where
  two_le : 2 ≤ f.precision
  min_le_max : f.minExponent ≤ f.maxExponent
  top_nonneg : 0 ≤ f.maxExponent + f.precision

/-- The format of single precision is proper. -/
theorem proper_single : single.Proper :=
  ⟨by decide, by decide, by decide⟩

/-- The format of double precision is proper. -/
theorem proper_double : double.Proper :=
  ⟨by decide, by decide, by decide⟩

/-- Zero is on every grid. -/
theorem grid_zero (f : Format) : f.Grid 0 :=
  ⟨0, f.minExponent, by simp, by simp, le_rfl⟩

/-- What one format holds, one with more bits and smaller exponents does too. -/
theorem Grid.widen {g : Format} (hy : f.Grid y) (hprecision : f.precision ≤ g.precision)
    (hmin : g.minExponent ≤ f.minExponent) : g.Grid y := by
  obtain ⟨m, e, rfl, hm, he⟩ := hy
  exact ⟨m, e, rfl, hm.trans_le (pow_le_pow_right₀ (by norm_num) hprecision), hmin.trans he⟩

/-- The grid of doubles has all singles on it. -/
theorem Grid.double (hy : single.Grid y) : double.Grid y :=
  hy.widen (by decide) (by decide)

/-- A number of a smaller unit than `2 ^ e` lies below all that is rounded in
units of `2 ^ e`; one of a larger unit is a multiple. -/
theorem multiple_or_lt {m : Int} (e' : Int) (hm : |m| < 2 ^ f.precision) (e : Int) :
    (∃ k : Nat, (m * 2 ^ e' : Rat) = (m * 2 ^ k : Int) * 2 ^ e) ∨
      e' < e ∧ (m * 2 ^ e' : Rat) < 2 ^ (f.precision - 1 + e) := by
  rcases le_or_gt e e' with hle | hlt
  · obtain ⟨k, rfl⟩ : ∃ k : Nat, e' = e + k := ⟨(e' - e).toNat, by omega⟩
    refine .inl ⟨k, ?_⟩
    rw [zpow_add₀ (by norm_num), zpow_natCast]
    push_cast
    ring
  · refine .inr ⟨hlt, ?_⟩
    have hm' : (m : Rat) < 2 ^ f.precision := by
      exact_mod_cast (le_abs_self m).trans_lt hm
    calc (m * 2 ^ e' : Rat) < 2 ^ f.precision * 2 ^ e' := by gcongr
      _ = 2 ^ (f.precision + e') := by rw [zpow_add₀ (by norm_num), zpow_natCast]
      _ ≤ 2 ^ (f.precision - 1 + e) := zpow_le_zpow_right₀ (by norm_num) (by omega)

/-- Multiples of a unit are on the grid, as far as the precision goes. -/
theorem grid_of_le {j : Int} (hf : 2 ≤ f.precision) (he : f.minExponent ≤ e)
    (hj : |j| ≤ 2 ^ f.precision) : f.Grid (j * 2 ^ e) ∧ (Even j → f.EvenGrid (j * 2 ^ e)) := by
  rcases hj.lt_or_eq with hlt | heq
  · exact ⟨⟨j, e, rfl, hlt, he⟩, fun hj => ⟨j, e, rfl, hlt, he, hj⟩⟩
  · -- the last multiple is half as many in the next unit
    obtain ⟨p, hp⟩ := Nat.exists_eq_add_of_le' hf
    obtain ⟨k, rfl, hk, heven⟩ : ∃ k : Int, j = k * 2 ∧ |k| = 2 ^ (p + 1) ∧ Even k := by
      rw [hp] at heq
      rcases (abs_eq (by positivity)).1 heq with rfl | rfl
      · exact ⟨2 ^ (p + 1), by ring, abs_of_pos (by positivity), 2 ^ p, by ring⟩
      · exact ⟨-2 ^ (p + 1), by ring, by rw [abs_neg]; exact abs_of_pos (by positivity), -2 ^ p,
          by ring⟩
    have hvalue : ((k * 2 : Int) : Rat) * 2 ^ e = k * 2 ^ (e + 1) := by
      rw [zpow_add_one₀ (by norm_num)]
      push_cast
      ring
    have hlt : |k| < 2 ^ f.precision := by
      rw [hk, hp]
      exact pow_lt_pow_right₀ (by norm_num) (by omega)
    exact ⟨⟨k, e + 1, hvalue, hlt, by omega⟩, fun _ => ⟨k, e + 1, hvalue, hlt, by omega, heven⟩⟩

/-- A power of two is on the grid. -/
theorem grid_zpow (hf : 2 ≤ f.precision) (he : f.minExponent ≤ e) : f.Grid (2 ^ e) := by
  have h := (grid_of_le (f := f) (j := 1) hf he (by rw [abs_one]; exact one_le_pow₀ (by norm_num))).1
  rwa [Int.cast_one, one_mul] at h

/-- A number of the grid that is not zero is not smaller than the smallest unit. -/
theorem Grid.zpow_le_abs (hy : f.Grid y) (hne : y ≠ 0) : 2 ^ f.minExponent ≤ |y| := by
  obtain ⟨m, e, rfl, -, he⟩ := hy
  have hone : (1 : Rat) ≤ |(m : Rat)| := by
    have hm : m ≠ 0 := by
      rintro rfl
      simp at hne
    exact_mod_cast Int.one_le_abs hm
  calc (2 : Rat) ^ f.minExponent ≤ 2 ^ e := zpow_le_zpow_right₀ (by norm_num) he
    _ ≤ |(m : Rat)| * 2 ^ e := le_mul_of_one_le_left (by positivity) hone
    _ = |(m * 2 ^ e : Rat)| := by rw [abs_mul, abs_of_pos (show (0 : Rat) < 2 ^ e by positivity)]

/-- **Two numbers of the grid are not closer** than the size of one divided by
`2 ^ precision`. -/
theorem Grid.gap (hy : f.Grid y) (hz : f.Grid z) (hne : y ≠ z) :
    |y| ≤ |y - z| * 2 ^ f.precision := by
  -- in a common unit both are integers, and one of them is less than `2 ^ precision`
  have hmultiples : ∃ (i j e : Int), y = i * 2 ^ e ∧ z = j * 2 ^ e ∧
      (|i| < 2 ^ f.precision ∨ |j| < 2 ^ f.precision) := by
    obtain ⟨m, e, rfl, hm, -⟩ := hy
    obtain ⟨n, e', rfl, hn, -⟩ := hz
    rcases le_total e e' with h | h
    · obtain ⟨k, rfl⟩ : ∃ k : Nat, e' = e + k := ⟨(e' - e).toNat, by omega⟩
      refine ⟨m, n * 2 ^ k, e, rfl, ?_, .inl hm⟩
      rw [zpow_add₀ (by norm_num), zpow_natCast]
      push_cast
      ring
    · obtain ⟨k, rfl⟩ : ∃ k : Nat, e = e' + k := ⟨(e - e').toNat, by omega⟩
      refine ⟨m * 2 ^ k, n, e', ?_, rfl, .inr hn⟩
      rw [zpow_add₀ (by norm_num), zpow_natCast]
      push_cast
      ring
  obtain ⟨i, j, e, rfl, rfl, hsmall⟩ := hmultiples
  have hu : (0 : Rat) < 2 ^ e := by positivity
  have hone : 1 ≤ |i - j| := Int.one_le_abs (sub_ne_zero.2 fun h => hne (by rw [h]))
  have htriangle : |i| ≤ |i - j| + |j| := by
    have := abs_add_le (i - j) j
    rwa [sub_add_cancel] at this
  have hint : |i| ≤ |i - j| * 2 ^ f.precision := by
    have hpower : (1 : Int) ≤ 2 ^ f.precision := one_le_pow₀ (by norm_num)
    generalize (2 : Int) ^ f.precision = p at *
    rcases hsmall with h | h <;> nlinarith
  rw [← sub_mul, abs_mul, abs_mul, abs_of_pos hu, mul_right_comm]
  gcongr
  exact_mod_cast hint

/-! ## Units

A number is rounded in units that depend on how large it is. In these units the
nearest number of the grid is the nearest integer, and this is how the model
finds it.
-/

/-- A number that is not negative is rounded in units of `2 ^ e`: they are the
smallest of which there are fewer than the precision allows. -/
structure IsUnit (f : Format) (q : Rat) (e : Int) : Prop where
  min_le : f.minExponent ≤ e
  lt : q < 2 ^ (f.precision + e)
  full : e = f.minExponent ∨ 2 ^ (f.precision - 1 + e) ≤ q

/-- The exponent that `Format.roundQuotient` scales a quotient by is a unit of
it. -/
theorem isUnit_unitExponent (f : Format) {n d : Nat} (hn : 0 < n) (hd : 0 < d) :
    f.IsUnit (n / d) (f.unitExponent n d) := by
  obtain ⟨hlow, hhigh⟩ := binaryOrder_spec hn hd
  refine ⟨le_max_left .., hhigh.trans_le (zpow_le_zpow_right₀ (by norm_num) ?_), ?_⟩
  · rw [unitExponent]
    omega
  · rcases le_total (binaryOrder n d - f.precision + 1) f.minExponent with h | h
    · exact .inl (max_eq_left h)
    · refine .inr (le_trans (zpow_le_zpow_right₀ (by norm_num) ?_) hlow)
      rw [unitExponent, max_eq_right h]
      omega

/-- **Every number that is not negative has a unit.** For zero it is the
smallest one. -/
theorem exists_isUnit (f : Format) (hq : 0 ≤ q) : ∃ e, f.IsUnit q e := by
  rcases hq.eq_or_lt with rfl | hpos
  · exact ⟨f.minExponent, le_rfl, by positivity, .inl rfl⟩
  · have hnum : 0 < q.num.natAbs := Int.natAbs_pos.2 (Rat.num_ne_zero.2 hpos.ne')
    have h := f.isUnit_unitExponent hnum q.den_pos
    rw [natAbs_num_div_den, abs_of_nonneg hq] at h
    exact ⟨_, h⟩

/-- Distances in units: how far a number is from so many units, over the unit,
is how far the quotient is from an integer. -/
theorem abs_sub_units (q : Rat) (j e : Int) : |q - j * 2 ^ e| = |q / 2 ^ e - j| * 2 ^ e :=
  abs_sub_mul_unit (by positivity) q j

namespace IsUnit

variable (hf : 2 ≤ f.precision) (hq : 0 ≤ q) (he : f.IsUnit q e)

include hf hq he in
/-- A number of units that is off by less than one is on the grid. -/
theorem grid {k : Int} (hk : |q / 2 ^ e - k| < 1) :
    f.Grid (k * 2 ^ e) ∧ (Even k → f.EvenGrid (k * 2 ^ e)) := by
  have hu : (0 : Rat) < 2 ^ e := by positivity
  have hlow : 0 ≤ q / 2 ^ e := by positivity
  have hhigh : q / 2 ^ e < 2 ^ f.precision := by
    rw [div_lt_iff₀ hu, ← zpow_natCast, ← zpow_add₀ (by norm_num)]
    exact he.lt
  obtain ⟨h₁, h₂⟩ := abs_sub_lt_iff.1 hk
  have hk₁ : (-1 : Rat) < k := by linarith
  have hk₂ : (k : Rat) < 2 ^ f.precision + 1 := by linarith
  have hk₁' : -1 < k := by exact_mod_cast hk₁
  have hk₂' : k < 2 ^ f.precision + 1 := by exact_mod_cast hk₂
  refine grid_of_le hf he.min_le ?_
  rw [abs_of_nonneg (by omega)]
  omega

include hf he in
/-- What lies below all that is rounded in units of `2 ^ e` is farther away than
the first of that. -/
theorem exists_nearer (hmin : f.minExponent < e) (hz : z < 2 ^ (f.precision - 1 + e)) :
    ∃ k : Int, f.Grid (k * 2 ^ e) ∧ |q - k * 2 ^ e| < |q - z| := by
  have hfirst := he.full.resolve_left hmin.ne'
  have hpow : ((2 ^ (f.precision - 1) : Int) : Rat) * 2 ^ e = 2 ^ (f.precision - 1 + e) := by
    obtain ⟨p, hp⟩ := Nat.exists_eq_add_of_le' hf
    rw [hp, show ((p + 2 : Nat) : Int) - 1 + e = ((p + 1 : Nat) : Int) + e by push_cast; ring,
      zpow_add₀ (by norm_num), zpow_natCast]
    norm_cast
  refine ⟨2 ^ (f.precision - 1), (grid_of_le hf he.min_le ?_).1, ?_⟩
  · rw [abs_of_pos (by positivity)]
    exact pow_le_pow_right₀ (by norm_num) (by omega)
  · rw [hpow, abs_of_nonneg (by linarith), abs_of_pos (by linarith)]
    linarith

include hf hq he in
/-- **So many units are nearest if their number is the nearest integer.** On the
grid, only whole numbers of units come into question above the power of two that
the unit belongs to; what lies below it is farther away than the power itself. -/
theorem isNearest_of_int {j : Int} (hj : IsNearestInt (q / 2 ^ e) j) : f.IsNearest q (j * 2 ^ e) := by
  have hu : (0 : Rat) < 2 ^ e := by positivity
  have hj' := he.grid hf hq (hj.near.trans_lt (by norm_num))
  have hunits (k : Int) : |q - j * 2 ^ e| ≤ |q - k * 2 ^ e| := by
    rw [abs_sub_units, abs_sub_units]
    exact mul_le_mul_of_nonneg_right (hj.le_abs k).1 hu.le
  -- a number with a smaller unit lies below the power of two, and this is nearer
  have hbelow {z : Rat} (hmin : f.minExponent < e) (hz : z < 2 ^ (f.precision - 1 + e)) :
      |q - j * 2 ^ e| < |q - z| := by
    obtain ⟨k, -, hk⟩ := he.exists_nearer hf hmin hz
    exact (hunits k).trans_lt hk
  refine ⟨hj'.1, fun z hz => ?_, fun z hz hne htie => ?_⟩
  · obtain ⟨m, e', rfl, hm, hmin⟩ := hz
    rcases multiple_or_lt e' hm e with ⟨k, hk⟩ | ⟨hlt, hsmall⟩
    · rw [hk]
      exact hunits _
    · exact (hbelow (by omega) hsmall).le
  · obtain ⟨m, e', rfl, hm, hmin⟩ := hz
    rcases multiple_or_lt e' hm e with ⟨k, hk⟩ | ⟨hlt, hsmall⟩
    · rw [hk, abs_sub_units, abs_sub_units] at htie
      rw [hk] at hne
      exact hj'.2 (hj.even ((hj.le_abs _).2 (fun h => hne (by rw [h])) (mul_right_cancel₀ hu.ne' htie)))
    · exact absurd htie (hbelow (by omega) hsmall).ne'

include hf hq he in
/-- **A nearest number is a nearest integer of units.** It is a whole number of
units, for below them something on the grid would be nearer; and half-way
between two it has an even significand on the grid, which makes the number of
units even. -/
theorem int_of_isNearest (hy : f.IsNearest q y) :
    ∃ j : Int, y = j * 2 ^ e ∧ IsNearestInt (q / 2 ^ e) j := by
  have hu : (0 : Rat) < 2 ^ e := by positivity
  have hbelow (hmin : f.minExponent < e) (hsmall : y < 2 ^ (f.precision - 1 + e)) : False := by
    obtain ⟨k, hk, hnearer⟩ := he.exists_nearer hf hmin hsmall
    exact absurd (hy.nearest _ hk) hnearer.not_ge
  obtain ⟨m, e', hm, hlt, hmin⟩ := hy.grid
  rcases multiple_or_lt e' hlt e with ⟨k, hk⟩ | ⟨hlt', hsmall⟩
  swap
  · exact (hbelow (by omega) (hm ▸ hsmall)).elim
  obtain ⟨j, hj⟩ : ∃ j : Int, y = j * 2 ^ e := ⟨_, hm.trans hk⟩
  obtain ⟨i, hi⟩ := exists_isNearestInt (a := q / 2 ^ e) (by positivity)
  refine ⟨j, hj, ?_, fun hhalf => ?_⟩
  · have hnearest := hy.nearest _ (he.grid hf hq (hi.near.trans_lt (by norm_num))).1
    rw [hj, abs_sub_units, abs_sub_units] at hnearest
    exact (le_of_mul_le_mul_right hnearest hu).trans hi.near
  · -- half-way there is another number as near, so this one is even
    obtain ⟨i, hne, htie⟩ : ∃ i : Int, i ≠ j ∧ |q / 2 ^ e - i| = 1 / 2 := by
      rcases (abs_eq (by norm_num)).1 hhalf with h | h
      · refine ⟨j + 1, by omega, ?_⟩
        push_cast
        rw [show q / 2 ^ e - (j + 1) = -(1 / 2) by linarith, abs_neg, abs_of_pos (by norm_num)]
      · refine ⟨j - 1, by omega, ?_⟩
        push_cast
        rw [show q / 2 ^ e - (j - 1) = 1 / 2 by linarith, abs_of_pos (by norm_num)]
    obtain ⟨m, e', hm, hlt, hmin, heven⟩ := hy.even (i * 2 ^ e)
      (he.grid hf hq (by rw [htie]; norm_num)).1
      (fun h => hne (by exact_mod_cast mul_right_cancel₀ hu.ne' (h.trans hj)))
      (by rw [hj, abs_sub_units, abs_sub_units, htie, hhalf])
    rcases multiple_or_lt e' hlt e with ⟨k, hk⟩ | ⟨hlt', hsmall⟩
    · obtain rfl : j = m * 2 ^ k := by
        exact_mod_cast mul_right_cancel₀ hu.ne' (hj.symm.trans (hm.trans hk))
      exact heven.mul_right _
    · exact (hbelow (by omega) (hm ▸ hsmall)).elim

end IsUnit

/-! ## The nearest number

From what is known of integers and units: there is a nearest number on the grid,
there is only one, and rounding keeps the order. Nothing below this looks into
how it is found.
-/

/-- There is a nearest number for every number that is not negative. -/
theorem exists_isNearest (hf : 2 ≤ f.precision) (hq : 0 ≤ q) : ∃ y, f.IsNearest q y := by
  obtain ⟨e, he⟩ := f.exists_isUnit hq
  obtain ⟨j, hj⟩ := exists_isNearestInt (a := q / 2 ^ e) (by positivity)
  exact ⟨_, he.isNearest_of_int hf hq hj⟩

/-- **There is only one nearest number.** -/
theorem IsNearest.unique (hf : 2 ≤ f.precision) (hq : 0 ≤ q) (hy : f.IsNearest q y)
    (hz : f.IsNearest q z) : y = z := by
  obtain ⟨e, he⟩ := f.exists_isUnit hq
  obtain ⟨j, rfl, hj⟩ := he.int_of_isNearest hf hq hy
  obtain ⟨k, rfl, hk⟩ := he.int_of_isNearest hf hq hz
  rw [hj.unique hk]

/-- A number of the grid is nearest to itself, and no other one is. -/
theorem Grid.isNearest (hy : f.Grid y) : f.IsNearest y y where
  grid := hy
  nearest z _ := by simp
  even z _ hne htie := by
    rw [sub_self, abs_zero, abs_eq_zero, sub_eq_zero] at htie
    exact absurd htie.symm hne

/-- What is on the grid is nearest to itself alone. -/
theorem IsNearest.eq_of_grid (hy : f.IsNearest q y) (hq : f.Grid q) : y = q := by
  have h := hy.nearest q hq
  rw [sub_self, abs_zero] at h
  exact (sub_eq_zero.1 (abs_nonpos_iff.1 h)).symm

/-- The smaller of two numbers is nearer to what is not above the middle. -/
theorem abs_sub_le_iff_of_lt {p y z : Rat} (h : y < z) : |p - y| ≤ |p - z| ↔ 2 * p ≤ y + z := by
  rw [← sq_le_sq]
  constructor
  · intro hle
    nlinarith
  · intro hle
    nlinarith

/-- The larger one is nearer to what is not below the middle. -/
theorem abs_sub_ge_iff_of_lt {p y z : Rat} (h : y < z) : |p - z| ≤ |p - y| ↔ y + z ≤ 2 * p := by
  rw [← sq_le_sq]
  constructor
  · intro hle
    nlinarith
  · intro hle
    nlinarith

/-- **Rounding is monotone.** -/
theorem IsNearest.mono (hf : 2 ≤ f.precision) {p : Rat} (hp : 0 ≤ p) (h : p ≤ q)
    (hy : f.IsNearest p y) (hz : f.IsNearest q z) : y ≤ z := by
  by_contra hlt
  have hlt := not_le.1 hlt
  have hq := (abs_sub_le_iff_of_lt hlt).1 (hz.nearest y hy.grid)
  have hp' : ¬2 * p < z + y := fun hless => by
    have h₁ := (abs_sub_le_iff_of_lt hlt).2 hless.le
    have h₂ := le_antisymm h₁ (hy.nearest z hz.grid)
    rw [abs_eq_abs] at h₂
    rcases h₂ with h₂ | h₂
    · exact hlt.ne (by linarith)
    · linarith
  -- both are half-way between the two, so they are the same number
  obtain rfl : p = q := by linarith
  exact hlt.ne' (hy.unique hf hp hz)

/-- Rounding does not go past a number of the grid from below. -/
theorem IsNearest.le_of_grid (hf : 2 ≤ f.precision) (hq : 0 ≤ q) (hy : f.IsNearest q y)
    (hz : f.Grid z) (h : q ≤ z) : y ≤ z :=
  hy.mono hf hq h hz.isNearest

/-- Rounding does not go past a number of the grid from above. -/
theorem IsNearest.ge_of_grid (hf : 2 ≤ f.precision) (hy : f.IsNearest q y) (hz : f.Grid z) (hz' : 0 ≤ z)
    (h : z ≤ q) : z ≤ y :=
  hz.isNearest.mono hf hz' h hy

/-- What is rounded in full precision is off by a part in `2 ^ (precision + 1)`
at most. -/
theorem IsNearest.abs_sub_mul_le (hf : 2 ≤ f.precision) (hq : 2 ^ (f.precision - 1 + f.minExponent) ≤ q)
    (hy : f.IsNearest q y) : |q - y| * 2 ^ f.precision ≤ q := by
  have hpos : 0 < q := lt_of_lt_of_le (by positivity) hq
  obtain ⟨e, he⟩ := f.exists_isUnit hpos.le
  obtain ⟨j, rfl, hj⟩ := he.int_of_isNearest hf hpos.le hy
  have hfull : (2 : Rat) ^ (f.precision - 1 + e) ≤ q := by
    rcases he.full with rfl | h
    · exact hq
    · exact h
  calc |q - j * 2 ^ e| * 2 ^ f.precision = |q / 2 ^ e - j| * 2 ^ e * 2 ^ f.precision := by
        rw [abs_sub_units]
    _ ≤ 1 / 2 * 2 ^ e * 2 ^ f.precision := by
        gcongr
        exact hj.near
    _ = 2 ^ (f.precision - 1 + e) := by
        rw [show (f.precision - 1 + e : Int) = e + f.precision - 1 by ring,
          zpow_sub_one₀ (by norm_num), zpow_add₀ (by norm_num), zpow_natCast]
        ring
    _ ≤ q := hfull

/-- What is not negative is not rounded to anything negative. -/
theorem IsNearest.nonneg (hf : 2 ≤ f.precision) (hq : 0 ≤ q) (hy : f.IsNearest q y) : 0 ≤ y :=
  hy.ge_of_grid hf f.grid_zero le_rfl hq

/-- What is nearer to `y` than half of every way from it to another number of
the grid is rounded to it. -/
theorem Grid.isNearest_of_lt (hy : f.Grid y) (h : 2 * 2 ^ f.precision * |q - y| < |y|) :
    f.IsNearest q y := by
  have hfar : ∀ z, f.Grid z → z ≠ y → |q - y| < |q - z| := by
    intro z hz hne
    have hgap := hy.gap hz hne.symm
    have htriangle := abs_sub_le y q z
    rw [abs_sub_comm y q] at htriangle
    have hpow : (0 : Rat) < 2 ^ f.precision := by positivity
    nlinarith
  refine ⟨hy, fun z hz => ?_, fun z hz hne htie => absurd htie (hfar z hz hne).ne'⟩
  rcases eq_or_ne z y with rfl | hne
  · exact le_rfl
  · exact (hfar z hz hne).le

/-! ## Data

A datum has a sign and may be an infinity. A number is rounded to one by its
magnitude, and to an infinity if the nearest number of the grid is none of the
format.
-/

/-- The datum of a format that a number of the grid stands for, with a sign;
numbers that are too large stand for an infinity. -/
def ofMagnitude (f : Format) (negative : Bool) (y : Rat) : Ieee :=
  if y = 0 then Ieee.zero negative
  else if 2 ^ (f.maxExponent + f.precision) ≤ y then .infinity negative
  else .finite (if negative then -y else y)

/-- The number `q`, which is not negative, with a sign is rounded to `x`: to the
nearest number of the format, to the even one of two, and to an infinity if it
is too large. -/
def Rounds (f : Format) (negative : Bool) (q : Rat) (x : Ieee) : Prop :=
  ∃ y, f.IsNearest q y ∧ x = f.ofMagnitude negative y

/-- The datum `x` is rounded to `y`. -/
def RoundsTo (f : Format) (x y : Ieee) : Prop :=
  match x with
  | .finite q => f.Rounds (q < 0) |q| y
  | x => y = x

/-- **There is one way to round**: the datum that a number with a sign is
rounded to is the only one. -/
theorem Rounds.unique {negative : Bool} {x x' : Ieee} (hf : f.Proper) (hq : 0 ≤ q)
    (h : f.Rounds negative q x) (h' : f.Rounds negative q x') : x = x' := by
  obtain ⟨y, hy, rfl⟩ := h
  obtain ⟨z, hz, rfl⟩ := h'
  rw [hy.unique hf.two_le hq hz]

/-- A datum tells the number that it stands for, unless it is too large. -/
theorem ofMagnitude_eq_iff (negative : Bool) :
    f.ofMagnitude negative y = f.ofMagnitude negative z ↔
      y = z ∨ 2 ^ (f.maxExponent + f.precision) ≤ y ∧ 2 ^ (f.maxExponent + f.precision) ≤ z := by
  have htop : (0 : Rat) < 2 ^ (f.maxExponent + f.precision) := by positivity
  simp only [ofMagnitude, Ieee.zero]
  constructor
  · intro h
    cases negative <;> split_ifs at h <;> simp_all
  · rintro (rfl | ⟨h₁, h₂⟩)
    · rfl
    · rw [if_neg (htop.trans_le h₁).ne', if_neg (htop.trans_le h₂).ne', if_pos h₁, if_pos h₂]

/-- A nearest number is too large if its unit is, or if the last unit is used
up. -/
theorem exceeds_iff (hf : f.Proper) {q : Rat} {e : Int} {m : Nat} (he : f.IsUnit q e)
    (hy : f.IsNearest q (m * 2 ^ e)) (hle : m ≤ 2 ^ f.precision) :
    2 ^ (f.maxExponent + f.precision) ≤ (m * 2 ^ e : Rat) ↔
      f.maxExponent < e ∨ e = f.maxExponent ∧ m = 2 ^ f.precision := by
  have hu : (0 : Rat) < 2 ^ e := by positivity
  have hsplit (i : Int) : (2 : Rat) ^ (i + f.precision) = 2 ^ f.precision * 2 ^ i := by
    rw [add_comm, zpow_add₀ (by norm_num), zpow_natCast]
  constructor
  · intro h
    have hm : (m : Rat) ≤ 2 ^ f.precision := by exact_mod_cast hle
    -- with fewer bits, a smaller unit would not reach as far
    have hmax : f.maxExponent ≤ e := by
      have h' : (2 : Rat) ^ (f.maxExponent + f.precision) ≤ 2 ^ (e + f.precision) := by
        rw [hsplit e]
        exact h.trans (by gcongr)
      have := (zpow_le_zpow_iff_right₀ (by norm_num : (1 : Rat) < 2)).1 h'
      omega
    rcases hmax.eq_or_lt with rfl | hlt
    · rw [hsplit] at h
      have : (2 ^ f.precision : Rat) ≤ m := le_of_mul_le_mul_right h hu
      exact .inr ⟨rfl, le_antisymm hle (by exact_mod_cast this)⟩
    · exact .inl hlt
  · rintro (h | ⟨rfl, rfl⟩)
    · have hmin := hf.min_le_max
      -- a larger unit is used only for numbers of full precision
      have hfirst := he.full.resolve_left (by omega)
      refine le_trans (zpow_le_zpow_right₀ (by norm_num) (by omega))
        (hy.ge_of_grid hf.two_le (grid_zpow hf.two_le ?_) (by positivity) hfirst)
      have := hf.two_le
      omega
    · rw [hsplit]
      push_cast
      exact le_rfl

/-- **A quotient is rounded to the nearest number of the format.** -/
theorem rounds_roundQuotient (hf : f.Proper) (negative : Bool) {n d : Nat} (hn : 0 < n) (hd : 0 < d) :
    f.Rounds negative (n / d) (f.roundQuotient negative n d) := by
  have he := f.isUnit_unitExponent hn hd
  have hle := roundDiv_le (scaleDown_lt f hn hd)
  have hround := isNearestInt_roundDiv (scaleDown n d (f.unitExponent n d)).1
    (scaleDown_pos hd (n := n) (f.unitExponent n d))
  rw [scaleDown_eq] at hround
  simp only [roundQuotient]
  generalize f.unitExponent n d = e at he hle hround ⊢
  generalize roundDiv (scaleDown n d e).1 (scaleDown n d e).2 = m at hle hround ⊢
  have hy := he.isNearest_of_int hf.two_le (by positivity) hround
  refine ⟨_, hy, ?_⟩
  rw [Int.cast_natCast] at hy ⊢
  -- a quotient that is rounded to zero keeps its sign, as other ones do
  rcases Nat.eq_zero_or_pos m with rfl | hm
  · simp [ofMagnitude]
  have hm' : (m * 2 ^ e : Rat) ≠ 0 := by positivity
  rw [ofMagnitude, if_neg hm.ne', if_neg hm']
  simp only [exceeds_iff hf he hy hle, Nat.pow_eq, dyadic_eq]
  congr 2
  cases negative <;> simp

/-- **To round a datum is to round it to the nearest number of the format.** -/
theorem roundsTo_round (hf : f.Proper) (x : Ieee) : f.RoundsTo x (f.round x) := by
  cases x with
  | finite q =>
    rcases eq_or_ne q 0 with rfl | hq
    · refine ⟨0, ?_, ?_⟩
      · rw [abs_zero]
        exact f.grid_zero.isNearest
      · simp [round, ofRat, ofMagnitude, Ieee.zero]
    · have hnum : 0 < q.num.natAbs := Int.natAbs_pos.2 (Rat.num_ne_zero.2 hq)
      have h := rounds_roundQuotient hf (q < 0) hnum q.den_pos
      rw [natAbs_num_div_den] at h
      simpa only [RoundsTo, round, ofRat, if_neg hq, Rat.num_neg] using h
  | nan | infinity | negativeZero => rfl

end Format
end Shank
