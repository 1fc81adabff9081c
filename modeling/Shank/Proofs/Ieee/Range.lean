/-
# Where arithmetic has no value

Two operations on reals give nothing: the remainder of an infinity, and a double
for an integer that is too large for one. Here is told exactly when.

| operation | has no value |
| --- | --- |
| `Ieee.remainder?` by a number that is not zero | of an infinity, unless by NaN |
| `Format.double.ofInt` | from `2 ^ 1024 - 2 ^ 970` on, half-way past the largest double |

Either of these would end a run without a fault, so each is told in both
directions. For the double it is a matter of rounding: an integer that is longer
than the largest double is too large, a shorter one is not, and one that is as
long is told by whether it is rounded up to the next power of two
(`roundQuotient_one_eq_infinity`).
-/

import Shank.Ieee.Arithmetic
import Shank.Proofs.Ieee.Rounding

namespace Shank

namespace Ieee

/-- An infinity of either sign. -/
def IsInfinite (x : Ieee) : Prop :=
  ∃ negative, x = infinity negative

/-- A zero of either sign. -/
def IsZero (x : Ieee) : Prop :=
  x = negativeZero ∨ x = finite 0

/-- Exactly the two zeros are equal to zero. -/
theorem eq_zero_iff (x : Ieee) : x.eq (finite 0) = true ↔ x.IsZero := by
  cases x with
  | nan => simp [eq, compare?, IsZero]
  | infinity negative => cases negative <;> simp [eq, compare?, IsZero]
  | negativeZero => simp [eq, compare?, IsZero]
  | finite q =>
    by_cases hlt : q < 0
    · simp [eq, compare?, IsZero, hlt, hlt.ne]
    · simp [eq, compare?, IsZero, hlt]

/-- **The remainder by a number that is not zero** is missing of an infinity
only. A NaN has one, which is NaN. -/
theorem remainder?_eq_none {x y : Ieee} (hy : ¬y.IsZero) :
    remainder? x y = none ↔ x.IsInfinite ∧ y ≠ nan := by
  -- the divisor is not zero, so its rational number is not either
  have hrational {q : Rat} (h : y.rational? = some q) : q ≠ 0 := by
    rintro rfl
    cases y with
    | negativeZero => exact hy (.inl rfl)
    | finite q =>
      cases h
      exact hy (.inr rfl)
    | nan | infinity => cases h
  cases x with
  | nan => simp [remainder?, IsInfinite]
  | infinity negative => cases y <;> simp [remainder?, IsInfinite]
  | negativeZero =>
    cases y with
    | nan | infinity => simp [remainder?, IsInfinite]
    | negativeZero => exact absurd rfl (hrational rfl)
    | finite q => simp [remainder?, IsInfinite, rational?, hrational rfl]
  | finite p =>
    cases y with
    | nan | infinity => simp [remainder?, IsInfinite]
    | negativeZero => exact absurd rfl (hrational rfl)
    | finite q => simp [remainder?, IsInfinite, rational?, hrational rfl]

end Ieee

namespace Format

/-- The order of an integer is that of its highest bit. -/
theorem binaryOrder_one {n : Nat} (hn : 0 < n) : binaryOrder n 1 = n.log2 := by
  have hle : 2 ^ n.log2 ≤ n := Nat.log2_self_le hn.ne'
  have hone : Nat.log2 1 = 0 := by decide
  simp only [binaryOrder, hone, Nat.cast_zero, sub_zero, scaleDown]
  rw [if_pos (Int.natCast_nonneg _)]
  simp only [Int.toNat_natCast, Nat.one_mul]
  exact if_pos hle

/-- To round a quotient gives at least its floor. -/
theorem le_roundDiv (n d : Nat) : n / d ≤ roundDiv n d := by
  simp only [roundDiv]
  split
  · exact le_rfl
  · split <;> omega

/-- An even number is what is rounded to from half a unit below it on. Half-way
between two numbers the even one is taken, so the limit itself belongs to it. -/
theorem roundDiv_eq_even {n h k : Nat} (hh : 0 < h) (hn : n < 2 * k * (2 * h)) :
    roundDiv n (2 * h) = 2 * k ↔ 2 * k * (2 * h) ≤ n + h := by
  have hd : 0 < 2 * h := by omega
  have hsplit := Nat.div_add_mod n (2 * h)
  have hrest := Nat.mod_lt n hd
  have hq : n / (2 * h) < 2 * k := Nat.div_lt_of_lt_mul (by rwa [Nat.mul_comm])
  simp only [roundDiv]
  generalize n / (2 * h) = q at *
  generalize n % (2 * h) = r at *
  rcases Nat.lt_or_ge (q + 1) (2 * k) with hlow | htop
  · -- more than a unit below
    have hbelow : (q + 2) * (2 * h) ≤ 2 * k * (2 * h) := Nat.mul_le_mul_right _ hlow
    have hexpand : (q + 2) * (2 * h) = 2 * h * q + 4 * h := by ring
    have hround : (if 2 * r < 2 * h then q else if 2 * h < 2 * r then q + 1 else q + q % 2) ≠
        2 * k := by
      split
      · omega
      · split <;> omega
    constructor
    · exact fun he => absurd he hround
    · intro hle
      omega
  -- within the last unit, where the rest decides
  · obtain rfl : q = 2 * k - 1 := by omega
    have hexpand : 2 * k * (2 * h) = 2 * h * (2 * k - 1) + 2 * h := by
      obtain ⟨j, rfl⟩ := Nat.exists_eq_add_of_lt (show 0 < k by omega)
      rw [show 2 * (0 + j + 1) - 1 = 2 * j + 1 by omega]
      ring
    rw [hexpand]
    split
    · omega
    · split <;> omega

/-- A quotient is rounded to an infinity if its unit is too large, or the
largest one and used up. This is the definition with its two tests put together. -/
theorem roundQuotient_eq_infinity (f : Format) (negative : Bool) (n d : Nat) :
    (∃ sign, f.roundQuotient negative n d = .infinity sign) ↔
      let e := f.unitExponent n d
      let m := roundDiv (scaleDown n d e).1 (scaleDown n d e).2
      m ≠ 0 ∧ (f.maxExponent < e ∨ (e = f.maxExponent ∧ m = 2 ^ f.precision)) := by
  dsimp only [roundQuotient]
  generalize roundDiv _ _ = m
  generalize f.unitExponent n d = e
  rw [show Nat.pow 2 f.precision = 2 ^ f.precision from rfl]
  split
  · rename_i hm
    constructor
    · rintro ⟨sign, h⟩
      cases negative <;> cases h
    · rintro ⟨hne, -⟩
      exact absurd hm hne
  · rename_i hm
    split
    · rename_i hlarge
      exact ⟨fun _ => ⟨hm, hlarge⟩, fun _ => ⟨negative, rfl⟩⟩
    · rename_i hsmall
      constructor
      · rintro ⟨sign, h⟩
        cases h
      · rintro ⟨-, hlarge⟩
        exact absurd hlarge hsmall

section Integer

variable {f : Format} {p k : Nat} (hprecision : f.precision = p + 1) (hmax : f.maxExponent = k + 1)
  (hmin : f.minExponent ≤ -p)

include hprecision hmin in
/-- The unit of an integer leaves as many bits as the precision has. -/
theorem unitExponent_one {a : Nat} (ha : 0 < a) : f.unitExponent a 1 = (a.log2 : Int) - p := by
  rw [unitExponent, binaryOrder_one ha, hprecision]
  omega

include hprecision hmax hmin in
/-- An integer is too large for a format from half-way past its largest number
on. Longer integers than that number are, and shorter ones are not; those as
long as it are told by rounding. -/
theorem roundQuotient_one_eq_infinity {a : Nat} (ha : 0 < a) (negative : Bool) :
    (∃ sign, f.roundQuotient negative a 1 = .infinity sign) ↔
      2 * 2 ^ p * (2 * 2 ^ k) ≤ a + 2 ^ k := by
  have hlow : 2 ^ a.log2 ≤ a := Nat.log2_self_le ha.ne'
  have hhigh : a < 2 ^ (a.log2 + 1) := Nat.lt_log2_self
  have htop : 2 * 2 ^ p * (2 * 2 ^ k) = 2 ^ (k + p + 2) := by ring
  have hhalf : 2 ^ (k + p + 2) = 2 * 2 ^ (k + p + 1) := pow_succ' 2 _
  have hpos : 0 < 2 ^ k := Nat.pow_pos (by decide)
  rw [roundQuotient_eq_infinity, unitExponent_one hprecision hmin ha, hmax, hprecision]
  -- shorter than the largest number, or at least as long
  rcases Nat.lt_or_ge a.log2 (k + p + 1) with hshort | hlong
  · have hbelow : a < 2 ^ (k + p + 1) :=
      hhigh.trans_le (Nat.pow_le_pow_right (by decide) hshort)
    have hle : 2 ^ k ≤ 2 ^ (k + p + 1) := Nat.pow_le_pow_right (by decide) (by omega)
    constructor
    · rintro ⟨-, hlarge | ⟨hlarge, -⟩⟩
      · omega
      · omega
    · intro h
      omega
  · -- from here on the unit is a power of two
    obtain ⟨e, he⟩ := Nat.exists_eq_add_of_le hlong
    have hunit : (a.log2 : Int) - p = (k + 1 + e : Nat) := by omega
    have hscale : scaleDown a 1 (k + 1 + e : Nat) = (a, 2 ^ (k + 1 + e)) := by
      rw [scaleDown, if_pos (Int.natCast_nonneg _), Int.toNat_natCast, Nat.one_mul]
      rfl
    rw [hunit]
    dsimp only
    rw [hscale]
    have hone : roundDiv a (2 ^ (k + 1 + e)) ≠ 0 := by
      have hquotient : 1 ≤ a / 2 ^ (k + 1 + e) := by
        rw [Nat.one_le_div_iff (Nat.pow_pos (by decide))]
        exact (Nat.pow_le_pow_right (by decide) (by omega)).trans hlow
      have := le_roundDiv a (2 ^ (k + 1 + e))
      omega
    -- as long as the largest number, or longer
    rcases Nat.eq_zero_or_pos e with rfl | hpast
    · have hbelow : a < 2 * 2 ^ p * (2 * 2 ^ k) := by
        rw [htop]
        exact hhigh.trans_le (Nat.pow_le_pow_right (by decide) (by omega))
      rw [← roundDiv_eq_even hpos hbelow, show 2 ^ (k + 1 + 0) = 2 * 2 ^ k by ring,
        show 2 ^ (p + 1) = 2 * 2 ^ p by ring]
      constructor
      · rintro ⟨-, hlarge | ⟨-, hfull⟩⟩
        · omega
        · exact hfull
      · intro hfull
        refine ⟨?_, .inr ⟨by omega, hfull⟩⟩
        rw [hfull]
        positivity
    · have habove : 2 ^ (k + p + 2) ≤ a :=
        (Nat.pow_le_pow_right (by decide) (by omega)).trans hlow
      constructor
      · intro _
        omega
      · intro _
        exact ⟨hone, .inl (by omega)⟩

end Integer

/-- **An integer is too large for a double** from half-way past the largest one
on, which is `2^1024 - 2^971`. -/
theorem double_ofInt_eq_infinity (n : Int) :
    (∃ negative, double.ofInt n = .infinity negative) ↔ 2 ^ 1024 ≤ n.natAbs + 2 ^ 970 := by
  have htop : 2 ^ 1024 = 2 * 2 ^ 52 * (2 * 2 ^ 970) := by
    rw [← pow_succ', ← pow_succ', ← pow_add]
  have hnone (p k : Nat) : ¬2 * 2 ^ p * (2 * 2 ^ k) ≤ 0 + 2 ^ k := by
    have hfactor : 0 < 2 ^ p * 2 ^ k := by positivity
    have hexpand : 2 * 2 ^ p * (2 * 2 ^ k) = 4 * (2 ^ p * 2 ^ k) := by ring
    have hle : 2 ^ k ≤ 2 ^ p * 2 ^ k := Nat.le_mul_of_pos_left _ (by positivity)
    omega
  rw [htop]
  by_cases hzero : n = 0
  · subst hzero
    constructor
    · rintro ⟨_, h⟩
      cases h
    · intro h
      rw [Int.natAbs_zero] at h
      exact absurd h (hnone 52 970)
  · have hround : double.ofInt n = double.roundQuotient (n < 0) n.natAbs 1 := by
      have hrat : (n : Rat) ≠ 0 := by exact_mod_cast hzero
      rw [ofInt, ofRat, if_neg hrat]
      rfl
    rw [hround]
    exact roundQuotient_one_eq_infinity rfl rfl (by decide) (Int.natAbs_pos.2 hzero) _

end Format
end Shank
