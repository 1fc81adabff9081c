/-
# What rounding leaves alone

Rounding to a format commutes with the sign, and a number that one format holds
is left alone by every format with at least its precision and range. Both are
seen from the exact value `n / d` that is rounded: it lies between two powers of
two (`binaryOrder_spec`), and the unit it is divided by is not larger than the
one it is a multiple of.

This is about the model's own steps, in which a quotient is scaled and divided.
That the result is the nearest number is shown in `Shank.Proofs.Ieee.Nearest`,
and what is shown here is what that needs: the order of a quotient, its sign,
and that numbers of the format stay what they are (`ofRat_exact`,
`round_round`).
-/

import Mathlib.Algebra.Order.Field.Power
import Mathlib.Algebra.Order.Field.Rat
import Mathlib.Data.Rat.Lemmas
import Mathlib.Tactic.FieldSimp
import Mathlib.Tactic.Linarith
import Mathlib.Tactic.NormNum
import Mathlib.Tactic.Positivity
import Mathlib.Tactic.Ring
import Shank.Ieee.Rounding

namespace Shank

/-! ## Powers of two

The order of a quotient is looked for by comparing it with powers of two. To
compare, one of its parts is multiplied, depending on the sign of the exponent,
so nothing is divided.
-/

/-- A dyadic number: its significand in units of the power of two. The model
splits on the sign of the exponent; here the power is one of a field. -/
theorem dyadic_eq (m e : Int) : dyadic m e = m * (2 : Rat) ^ e := by
  rw [dyadic]
  split
  · rename_i h
    obtain ⟨k, rfl⟩ := Int.eq_ofNat_of_zero_le h
    simp
  · rename_i h
    obtain ⟨k, rfl⟩ : ∃ k : Nat, e = -k := ⟨(-e).toNat, by omega⟩
    rw [Rat.mkRat_eq_div]
    simp [div_eq_mul_inv]

/-- The sign of a dyadic number is the sign of its significand. -/
theorem dyadic_neg (m e : Int) : dyadic (-m) e = -dyadic m e := by
  rw [dyadic_eq, dyadic_eq, Int.cast_neg, neg_mul]

/-- A dyadic number is zero for the significand zero only. -/
theorem dyadic_ne_zero {m : Int} (h : m ≠ 0) (e : Int) : dyadic m e ≠ 0 := by
  rw [dyadic_eq]
  have : (m : Rat) ≠ 0 := by exact_mod_cast h
  positivity

/-- The denominator stays positive when a quotient is scaled, so that scaling
never divides by zero. -/
theorem scaleDown_pos {n d : Nat} (hd : 0 < d) (e : Int) : 0 < (scaleDown n d e).2 := by
  rw [scaleDown]
  split
  · exact Nat.mul_pos hd (Nat.pow_pos (by decide))
  · exact hd

/-- To scale a quotient divides it by the power of two, be the exponent negative
or not. -/
theorem scaleDown_eq {n d : Nat} (e : Int) :
    ((scaleDown n d e).1 : Rat) / (scaleDown n d e).2 = (n / d : Rat) / 2 ^ e := by
  rw [scaleDown]
  split
  · rename_i h
    obtain ⟨k, rfl⟩ := Int.eq_ofNat_of_zero_le h
    simp [div_div]
  · rename_i h
    obtain ⟨k, rfl⟩ : ∃ k : Nat, e = -k := ⟨(-e).toNat, by omega⟩
    simp [mul_div_right_comm]

/-- A positive integer is not below the power of two of its highest bit. -/
theorem zpow_log2_le {n : Nat} (hn : 0 < n) : (2 : Rat) ^ (n.log2 : Int) ≤ n := by
  rw [zpow_natCast]
  exact_mod_cast Nat.log2_self_le hn.ne'

/-- An integer is below the power of two after its highest bit. -/
theorem lt_zpow_log2_succ (n : Nat) : (n : Rat) < 2 ^ ((n.log2 : Int) + 1) := by
  rw [← Nat.cast_succ, zpow_natCast]
  exact_mod_cast Nat.lt_log2_self

/-- A quotient is not less than the smallest one that the highest bits allow. -/
theorem zpow_log2_sub_le_div {n d : Nat} (hn : 0 < n) (hd : 0 < d) :
    (2 : Rat) ^ ((n.log2 : Int) - d.log2 - 1) ≤ n / d := by
  rw [le_div_iff₀ (by exact_mod_cast hd)]
  calc (2 : Rat) ^ ((n.log2 : Int) - d.log2 - 1) * d
      ≤ 2 ^ ((n.log2 : Int) - d.log2 - 1) * 2 ^ ((d.log2 : Int) + 1) := by
        gcongr
        exact (lt_zpow_log2_succ d).le
    _ = 2 ^ (n.log2 : Int) := by
      rw [← zpow_add₀ (by norm_num)]
      congr 1
      omega
    _ ≤ n := zpow_log2_le hn

/-- A quotient is less than the largest one that the highest bits allow. -/
theorem div_lt_zpow_log2_sub {n d : Nat} (hd : 0 < d) :
    (n / d : Rat) < 2 ^ ((n.log2 : Int) - d.log2 + 1) := by
  rw [div_lt_iff₀ (by exact_mod_cast hd)]
  calc (n : Rat) < 2 ^ ((n.log2 : Int) + 1) := lt_zpow_log2_succ n
    _ = 2 ^ ((n.log2 : Int) - d.log2 + 1) * 2 ^ (d.log2 : Int) := by
      rw [← zpow_add₀ (by norm_num)]
      congr 1
      omega
    _ ≤ 2 ^ ((n.log2 : Int) - d.log2 + 1) * d := by
      gcongr
      exact zpow_log2_le hd

/-- A number is known to a power of a base or two; to compare it with the power
in the middle tells it to one. -/
theorem zpow_order_spec {base q : Rat} (hbase : 0 < base) {a b : Nat} (hb : 0 < b) {k : Int}
    (hscale : (a / b : Rat) = q / base ^ k) (hlow : base ^ (k - 1) ≤ q) (hhigh : q < base ^ (k + 1)) :
    base ^ (if b ≤ a then k else k - 1) ≤ q ∧ q < base ^ ((if b ≤ a then k else k - 1) + 1) := by
  have hb' : (0 : Rat) < b := by exact_mod_cast hb
  have hpow : 0 < base ^ k := by positivity
  rw [eq_div_iff hpow.ne'] at hscale
  split
  · rename_i hab
    have hone : (1 : Rat) ≤ a / b := by
      rw [le_div_iff₀ hb', one_mul]
      exact_mod_cast hab
    exact ⟨hscale ▸ le_mul_of_one_le_left hpow.le hone, hhigh⟩
  · rename_i hab
    have hone : (a / b : Rat) < 1 := by
      rw [div_lt_one hb']
      exact_mod_cast Nat.lt_of_not_le hab
    refine ⟨hlow, ?_⟩
    rw [sub_add_cancel, ← hscale]
    exact mul_lt_of_lt_one_left hpow hone

/-- **The order of a quotient is the exponent of its highest bit**: `n / d` lies
between this power of two and the next one. The highest bits of both parts leave
two exponents, and one comparison decides between them. -/
theorem binaryOrder_spec {n d : Nat} (hn : 0 < n) (hd : 0 < d) :
    (2 : Rat) ^ binaryOrder n d ≤ n / d ∧ (n / d : Rat) < 2 ^ (binaryOrder n d + 1) :=
  zpow_order_spec (by norm_num) (scaleDown_pos hd _) (scaleDown_eq _) (zpow_log2_sub_le_div hn hd)
    (div_lt_zpow_log2_sub hd)

namespace Format

/-! ## Signs

What is rounded is the magnitude, and the sign is put back.
-/

/-- Rounding commutes with the sign: only the magnitude is rounded. -/
theorem roundQuotient_neg (f : Format) (negative : Bool) (n d : Nat) :
    f.roundQuotient (!negative) n d = (f.roundQuotient negative n d).neg := by
  simp only [roundQuotient]
  split
  · cases negative <;> rfl
  · split
    · rfl
    · rename_i hm _
      have hm' : (roundDiv (scaleDown n d (f.unitExponent n d)).1
          (scaleDown n d (f.unitExponent n d)).2 : Int) ≠ 0 := by exact_mod_cast hm
      cases negative
      · rw [Ieee.neg, if_neg (dyadic_ne_zero (by simpa using hm') _)]
        simp [dyadic_neg]
      · rw [Ieee.neg, if_neg (dyadic_ne_zero (by simpa using hm') _)]
        simp [dyadic_neg]

/-- Rounding does not depend on the sign. -/
theorem round_neg (f : Format) (x : Ieee) : f.round x.neg = (f.round x).neg := by
  cases x with
  | nan => rfl
  | infinity => rfl
  | negativeZero => simp [Ieee.neg, round, ofRat]
  | finite q =>
    by_cases hq : q = 0
    · subst hq
      simp [Ieee.neg, round, ofRat]
    · have hsign : decide ((-q).num < 0) = !decide (q.num < 0) := by
        have hnum : q.num ≠ 0 := Rat.num_ne_zero.2 hq
        rw [Rat.num_neg_eq_neg_num, ← decide_not]
        congr 1
        exact propext (by omega)
      simp only [Ieee.neg, if_neg hq, round, ofRat, neg_eq_zero]
      rw [hsign, Rat.num_neg_eq_neg_num, Rat.den_neg_eq_den, Int.natAbs_neg]
      exact roundQuotient_neg f _ _ _

/-! ## Exact values

A number that a format holds is so many of its units. It is rounded in the unit
of its own size, which is not larger; so it comes out as it went in.
-/

/-- What lies below an integer is not rounded past it. -/
theorem roundDiv_le {n d k : Nat} (h : n < k * d) : roundDiv n d ≤ k := by
  have hq : n / d < k := Nat.div_lt_of_lt_mul (by rwa [Nat.mul_comm])
  simp only [roundDiv]
  split
  · omega
  · split <;> omega

/-- The unit that a multiple of `2 ^ e` is divided by is not larger. -/
theorem unitExponent_le {f : Format} {n d m : Nat} {e : Int} (hn : 0 < n) (hd : 0 < d)
    (hvalue : (n / d : Rat) = m * 2 ^ e) (hprecision : m < 2 ^ f.precision)
    (hmin : f.minExponent ≤ e) : f.unitExponent n d ≤ e := by
  have hlow := (binaryOrder_spec hn hd).1
  have hhigh : (m * 2 ^ e : Rat) < 2 ^ ((f.precision : Int) + e) := by
    rw [zpow_add₀ (by norm_num), zpow_natCast]
    gcongr
    exact_mod_cast hprecision
  rw [hvalue] at hlow
  have horder : binaryOrder n d < f.precision + e :=
    (zpow_lt_zpow_iff_right₀ (by norm_num)).1 (hlow.trans_lt hhigh)
  rw [unitExponent]
  omega

/-- A number has no more units than there is precision for. -/
theorem scaleDown_lt (f : Format) {n d : Nat} (hn : 0 < n) (hd : 0 < d) :
    (scaleDown n d (f.unitExponent n d)).1 <
      2 ^ f.precision * (scaleDown n d (f.unitExponent n d)).2 := by
  have hb : (0 : Rat) < (scaleDown n d (f.unitExponent n d)).2 := by
    exact_mod_cast scaleDown_pos hd _
  have hunit : binaryOrder n d + 1 ≤ f.precision + f.unitExponent n d := by
    rw [unitExponent]
    omega
  have hlt := calc (n / d : Rat) < 2 ^ (binaryOrder n d + 1) := (binaryOrder_spec hn hd).2
    _ ≤ 2 ^ (f.precision + f.unitExponent n d) := zpow_le_zpow_right₀ (by norm_num) hunit
    _ = 2 ^ f.precision * 2 ^ f.unitExponent n d := by
      rw [zpow_add₀ (by norm_num), zpow_natCast]
  rw [← div_lt_iff₀ (by positivity), ← scaleDown_eq, div_lt_iff₀ hb] at hlt
  exact_mod_cast hlt

/-- A multiple of a unit of the format is held exactly. Its own unit may be
smaller than the one it is given by, and is never larger; so the quotient by
that is an integer, which rounding leaves alone. -/
theorem roundQuotient_exact {f : Format} {n d m : Nat} {e : Int} (negative : Bool) (hd : 0 < d)
    (hvalue : (n / d : Rat) = m * 2 ^ e) (hm : 0 < m) (hprecision : m < 2 ^ f.precision)
    (hmin : f.minExponent ≤ e) (hmax : e ≤ f.maxExponent) :
    f.roundQuotient negative n d = .finite (dyadic (if negative then -m else m) e) := by
  have hd' : (0 : Rat) < d := by exact_mod_cast hd
  have hn : 0 < n := by
    have : (0 : Rat) < n / d := by
      rw [hvalue]
      positivity
    rw [div_pos_iff_of_pos_right hd'] at this
    exact_mod_cast this
  have hunit := unitExponent_le hn hd hvalue hprecision hmin
  have hscale := scaleDown_eq (n := n) (d := d) (f.unitExponent n d)
  have hb := scaleDown_pos (n := n) hd (f.unitExponent n d)
  rw [roundQuotient]
  generalize f.unitExponent n d = u at hunit hscale hb
  generalize scaleDown n d u = ab at hscale hb
  obtain ⟨a, b⟩ := ab
  -- the unit it is given by is a power of two of its own one
  obtain ⟨j, hj⟩ : ∃ j : Nat, e = u + j := ⟨(e - u).toNat, by omega⟩
  have hpow : (2 : Rat) ^ e = 2 ^ j * 2 ^ u := by
    rw [hj, zpow_add₀ (by norm_num), zpow_natCast, mul_comm]
  have ha : a = m * 2 ^ j * b := by
    have hb' : (b : Rat) ≠ 0 := by exact_mod_cast hb.ne'
    rw [hvalue, hpow, ← mul_assoc, mul_div_assoc, div_self (by positivity), mul_one,
      div_eq_iff hb'] at hscale
    exact_mod_cast hscale
  have hround : roundDiv a b = m * 2 ^ j := by rw [ha, roundDiv_mul hb]
  have hne : m * 2 ^ j ≠ 0 := by positivity
  -- in the largest unit the number is given by few enough bits
  have hfinite : ¬(f.maxExponent < u ∨ u = f.maxExponent ∧ m * 2 ^ j = Nat.pow 2 f.precision) := by
    rintro (h | ⟨h, h'⟩)
    · omega
    · obtain rfl : j = 0 := by omega
      rw [pow_zero, mul_one] at h'
      exact hprecision.ne h'
  simp only [hround, if_neg hne, if_neg hfinite]
  congr 1
  rw [dyadic_eq, dyadic_eq, hpow]
  cases negative <;> simp <;> ring

/-- **Rounding gives a zero, an infinity, or a multiple of a unit of the
format** with few enough bits. -/
theorem roundQuotient_cases {f : Format} (hf : 0 < f.precision) {n d : Nat} (negative : Bool)
    (hn : 0 < n) (hd : 0 < d) :
    f.roundQuotient negative n d = Ieee.zero negative ∨
      f.roundQuotient negative n d = .infinity negative ∨
      ∃ (m : Nat) (e : Int),
        f.roundQuotient negative n d = .finite (dyadic (if negative then -m else m) e) ∧
        0 < m ∧ m < 2 ^ f.precision ∧ f.minExponent ≤ e ∧ e ≤ f.maxExponent := by
  have hmin : f.minExponent ≤ f.unitExponent n d := le_max_left ..
  have hle := roundDiv_le (scaleDown_lt f hn hd)
  rw [roundQuotient]
  generalize f.unitExponent n d = u at hmin hle
  generalize scaleDown n d u = ab at hle
  obtain ⟨a, b⟩ := ab
  dsimp only at hle ⊢
  by_cases hm : roundDiv a b = 0
  · exact .inl (by simp only [hm, if_true])
  by_cases hmax : f.maxExponent < u ∨ u = f.maxExponent ∧ roundDiv a b = Nat.pow 2 f.precision
  · exact .inr (.inl (by simp only [if_neg hm, if_pos hmax]))
  refine .inr (.inr ?_)
  simp only [if_neg hm, if_neg hmax]
  rcases hle.lt_or_eq with hlt | heq
  · exact ⟨roundDiv a b, u, rfl, Nat.pos_of_ne_zero hm, hlt, by omega,
      not_lt.1 fun h => hmax (.inl h)⟩
  · -- a quotient rounded up to a power of two is half of it in the next unit
    have hnext : u ≠ f.maxExponent := fun e => hmax (.inr ⟨e, heq⟩)
    have htwo : 2 ^ f.precision = 2 ^ (f.precision - 1) * 2 := by
      rw [← pow_succ]
      congr 1
      omega
    refine ⟨2 ^ (f.precision - 1), u + 1, ?_, by positivity,
      Nat.pow_lt_pow_right (by decide) (by omega), by omega,
      by have := not_lt.1 fun h => hmax (.inl h); omega⟩
    rw [heq, htwo, dyadic_eq, dyadic_eq, zpow_add_one₀ (by norm_num)]
    congr 1
    cases negative <;> simp only [Bool.false_eq_true, if_false, if_true] <;> push_cast <;> ring

/-- **A number of a format is left alone**: so many units, with fewer bits than
the precision and an exponent in range, are rounded to themselves. -/
theorem ofRat_exact {f : Format} {m : Nat} {e : Int} (hm : 0 < m) (hprecision : m < 2 ^ f.precision)
    (hmin : f.minExponent ≤ e) (hmax : e ≤ f.maxExponent) :
    f.ofRat (m * 2 ^ e) = .finite (m * 2 ^ e) := by
  have hpos : (0 : Rat) < m * 2 ^ e := by positivity
  have hvalue := Rat.num_div_den (m * 2 ^ e : Rat)
  generalize hq : (m * 2 ^ e : Rat) = q at hpos hvalue
  have hnum : 0 < q.num := Rat.num_pos.2 hpos
  have habs : ((q.num.natAbs : Nat) : Rat) = q.num := by
    rw [← Int.cast_natCast, Int.natAbs_of_nonneg hnum.le]
  rw [ofRat, if_neg hpos.ne', decide_eq_false (by omega),
    roundQuotient_exact false q.den_pos (by rw [habs, hvalue, hq]) hm hprecision hmin hmax, dyadic_eq,
    ← hq]
  simp

/-- **What is rounded to a format is held by the format.** Rounding is by the
magnitude, so this is shown of positive numbers and carried over by the sign. -/
theorem round_round {f : Format} (hf : 0 < f.precision) (x : Ieee) :
    f.round (f.round x) = f.round x := by
  have hpositive : ∀ q : Rat, 0 < q → f.round (f.round (.finite q)) = f.round (.finite q) := by
    intro q hq
    have hnum : 0 < q.num := Rat.num_pos.2 hq
    have hround : f.round (.finite q) = f.roundQuotient false q.num.natAbs q.den := by
      rw [round, ofRat, if_neg hq.ne', decide_eq_false (by omega)]
    have hn : 0 < q.num.natAbs := by omega
    rw [hround]
    rcases roundQuotient_cases hf false hn q.den_pos with h | h | ⟨m, e, h, hm⟩
    · rw [h]
      simp [Ieee.zero, round, ofRat]
    · rw [h]
      rfl
    · rw [h, dyadic_eq]
      simpa [round] using ofRat_exact hm.1 hm.2.1 hm.2.2.1 hm.2.2.2
  cases x with
  | finite q =>
    rcases lt_trichotomy q 0 with hq | rfl | hq
    · have hneg : Ieee.finite q = (Ieee.finite (-q)).neg := by
        rw [Ieee.neg, if_neg (by simpa using hq.ne), neg_neg]
      rw [hneg, round_neg, round_neg, hpositive (-q) (by simpa using hq)]
    · simp [round, ofRat]
    · exact hpositive q hq
  | _ => rfl

/-- A positive number of single precision is a multiple of a unit. -/
theorem exists_of_single {q : Rat} (hq : 0 < q) (h : single.ofRat q = .finite q) :
    ∃ (m : Nat) (e : Int), q = m * 2 ^ e ∧ 0 < m ∧ m < 2 ^ 24 ∧ -149 ≤ e ∧ e ≤ 104 := by
  have hnum : 0 < q.num := Rat.num_pos.2 hq
  rw [ofRat, if_neg hq.ne', decide_eq_false (by omega)] at h
  have hn : 0 < q.num.natAbs := by omega
  rcases roundQuotient_cases (f := single) (by decide) false hn q.den_pos with h' | h' | ⟨m, e, h', hm⟩
  · rw [h] at h'
    cases h'
    exact absurd hq (lt_irrefl _)
  · rw [h] at h'
    cases h'
  · rw [h] at h'
    cases h'
    exact ⟨m, e, dyadic_eq _ _, hm⟩

end Format
end Shank
