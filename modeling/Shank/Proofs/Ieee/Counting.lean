/-
# Counting in double precision

To count is to add one and to round (`Ieee.next`). From `2^53` on the doubles
are two apart or more, so there one is too little to leave a number:

| the number `c` | the next one |
| --- | --- |
| from `-2^53` to `2^53` | at least `c + 1/2`, or `2^53`; not above `2^53` (`Ieee.exists_next`) |
| a single below `-2^53`, or `2^53` or more | `c` again (`Ieee.next_eq_self`) |

So counting goes past `high` if it starts above it, or if it starts at `-2^53`
or later and `high` is below `2^53` (`Ieee.exists_passes`). If it starts with a
single, it goes past `high` in no other case (`Ieee.iterate_next_le`).
-/

import Mathlib.Algebra.Order.Archimedean.Basic
import Shank.Ieee.Arithmetic
import Shank.Proofs.Numeral.Shortest

namespace Shank

/-! ## Rounding near `2^53`

Below `2^53` the doubles include the middles between integers or are the
integers themselves; from there on they are two apart or more. Half a unit is
what the sum may be off.
-/

namespace Format

variable {q y z : Rat}

/-- Integers up to `2^53` are doubles, so no number up to there is off by more
than a half. -/
theorem IsNearest.abs_sub_le_half (hy : double.IsNearest q y) (hq : 0 ≤ q) (hlarge : q ≤ 2 ^ 53) :
    |q - y| ≤ 1 / 2 := by
  obtain ⟨j, hj⟩ := exists_isNearestInt hq
  obtain ⟨hlow, hhigh⟩ := abs_le.1 hj.near
  have hj₀ : (-1 : Rat) < j := by linarith
  have hj₁ : (j : Rat) < 2 ^ 53 + 1 := by linarith
  have hj₀' : -1 < j := by exact_mod_cast hj₀
  have hj₁' : j < 2 ^ 53 + 1 := by exact_mod_cast hj₁
  have hgrid : double.Grid (j * 2 ^ (0 : Int)) :=
    (grid_of_le (f := double) (by decide) (by decide)
      (abs_le.2 ⟨(neg_nonpos.2 (by positivity)).trans (by omega), Int.lt_add_one_iff.1 hj₁'⟩)).1
  rw [zpow_zero, mul_one] at hgrid
  exact (hy.nearest _ hgrid).trans hj.near

/-- What is a little above `2^53` is rounded down to it: half-way to the next
double, it is the even one. -/
theorem IsNearest.le_two_pow (hy : double.IsNearest q y) (hq : 0 ≤ q) (hlarge : q ≤ 2 ^ 53 + 1) :
    y ≤ 2 ^ 53 := by
  have hunit : double.IsUnit (2 ^ 53 + 1) 1 := ⟨by decide, by norm_num [double], .inr (by norm_num [double])⟩
  have hhalf : IsNearestInt ((2 ^ 53 + 1 : Rat) / 2 ^ (1 : Int)) (2 ^ 52) := by
    constructor
    · norm_num
    · exact fun _ => ⟨2 ^ 51, by norm_num⟩
  have hmiddle := hunit.isNearest_of_int (by decide) (by norm_num) hhalf
  have hle := hy.mono (by decide) hq hlarge hmiddle
  norm_num at hle ⊢
  exact hle

/-- A single from `2^53` on is a multiple of `2^30`, in particular an even
number, and it is a double with an even significand. -/
theorem Grid.even_of_le (hy : single.Grid y) (hlarge : 2 ^ 53 ≤ y) :
    (∃ k : Int, y = 2 * k) ∧ Format.double.EvenGrid y := by
  obtain ⟨m, e, rfl, hm, he⟩ := hy
  have hm' : (m : Rat) < 2 ^ 24 := by exact_mod_cast (le_abs_self m).trans_lt hm
  -- with 24 bits, a smaller unit would give a smaller number
  have hexponent : 30 ≤ e := by
    by_contra hlt
    have hpow : (2 : Rat) ^ e ≤ 2 ^ (29 : Int) := zpow_le_zpow_right₀ (by norm_num) (by omega)
    have hpos : (0 : Rat) < 2 ^ e := by positivity
    have hless : (m : Rat) * 2 ^ e < 2 ^ 24 * 2 ^ e := by gcongr
    norm_num at hpow hlarge
    linarith
  obtain ⟨k, rfl⟩ : ∃ k : Nat, e = k + 1 := ⟨(e - 1).toNat, by omega⟩
  refine ⟨⟨m * 2 ^ k, ?_⟩, 2 * m, k, ?_, ?_, ?_, even_two_mul m⟩
  · rw [zpow_add_one₀ (by norm_num), zpow_natCast]
    push_cast
    ring
  · rw [zpow_add_one₀ (by norm_num)]
    push_cast
    ring
  · rw [abs_mul]
    have : |m| < 2 ^ 24 := hm
    norm_num [Format.double]
    omega
  · exact (show Format.double.minExponent ≤ 0 by decide).trans (Int.natCast_nonneg k)

/-- **One is too little to leave a single from `2^53` on**, upward; and downward
if there are doubles that far below it. -/
theorem Grid.isNearest_of_le (hy : single.Grid y) (hlarge : 2 ^ 53 ≤ y) (hq : |q - y| ≤ 1)
    (hside : y ≤ q ∨ 2 ^ 53 < y) : Format.double.IsNearest q y := by
  obtain ⟨⟨k, hk⟩, heven⟩ := hy.even_of_le hlarge
  -- another double is two off or more, or it is behind `y` as seen from `q`
  have hfar : ∀ z, Format.double.Grid z → z ≠ y → 2 ≤ |z - y| ∨ (z < y ∧ y ≤ q) := by
    rintro z ⟨n, e, rfl, hn, -⟩ hne
    rcases multiple_or_lt e hn 1 with ⟨j, hj⟩ | ⟨-, hless⟩
    · left
      rw [zpow_one] at hj
      have hdistance : (n * 2 ^ e : Rat) - y = ((n * 2 ^ j - k : Int) : Rat) * 2 := by
        rw [hj, hk]
        push_cast
        ring
      have hone : (1 : Rat) ≤ |((n * 2 ^ j - k : Int) : Rat)| := by
        have hne' : n * 2 ^ j - k ≠ 0 := by
          intro h
          rw [h, Int.cast_zero, zero_mul, sub_eq_zero] at hdistance
          exact hne hdistance
        exact_mod_cast Int.one_le_abs hne'
      rw [hdistance, abs_mul, abs_of_pos (show (0 : Rat) < 2 by norm_num)]
      linarith
    · have hless' : (n * 2 ^ e : Rat) < 2 ^ 53 := by
        refine hless.trans_eq ?_
        norm_num [Format.double]
      rcases hside with hside | hside
      · exact .inr ⟨hless'.trans_le hlarge, hside⟩
      · left
        have hk' : (2 ^ 53 : Int) < 2 * k := by
          rw [hk] at hside
          exact_mod_cast hside
        have hk₂ : (2 ^ 53 + 2 : Int) ≤ 2 * k := by omega
        have hk₂' : (2 ^ 53 + 2 : Rat) ≤ 2 * k := by exact_mod_cast hk₂
        rw [abs_sub_comm, le_abs]
        left
        rw [hk]
        linarith
  refine ⟨hy.double, fun z hz => ?_, fun _ _ _ _ => heven⟩
  rcases eq_or_ne z y with rfl | hne
  · exact le_rfl
  -- two off is farther than one, and what is behind `y` is farther than `y`
  · rcases hfar z hz hne with htwo | ⟨hless, hle⟩
    · have htriangle := abs_sub_le z q y
      rw [abs_sub_comm z q] at htriangle
      linarith
    · rw [abs_of_nonneg (by linarith), abs_of_nonneg (by linarith)]
      linarith

/-- What a number is rounded to that is not too large. -/
theorem exists_rational?_ofRat (hq : |q| ≤ 2 ^ 60) : ∃ y, double.IsNearest |q| y ∧
    (double.ofRat q).rational? = some (if q < 0 then -y else y) := by
  obtain ⟨y, hy, hround⟩ := roundsTo_round proper_double (.finite q)
  have hround' : double.ofRat q = double.ofMagnitude (q < 0) y := hround
  have hlarge : y < 2 ^ (double.maxExponent + double.precision) := by
    have hgrid : double.Grid (2 ^ (60 : Int)) := grid_zpow (by decide) (by decide)
    refine (hy.le_of_grid (by decide) (abs_nonneg q) hgrid (by exact_mod_cast hq)).trans_lt ?_
    exact zpow_lt_zpow_right₀ (by norm_num) (by decide)
  refine ⟨y, hy, ?_⟩
  rw [hround', ofMagnitude]
  split
  · rename_i hzero
    rw [hzero, Ieee.zero]
    split <;> simp [Ieee.rational?]
  · rw [if_neg hlarge.not_ge]
    simp only [Ieee.rational?, decide_eq_true_eq]

end Format

/-! ## Counting

The rounds of a loop are steps of `Ieee.next`. Whether the loop ends is whether
some step of it passes the upper bound.
-/

namespace Ieee

variable {x y : Ieee} {p q c high : Rat}

/-- The number that counting comes to after another one. -/
def next (x : Ieee) : Ieee :=
  Format.double.add x (finite 1)

/-- Numbers are compared as the rationals that they stand for. -/
theorem le_iff (hx : x.rational? = some p) (hy : y.rational? = some q) : x.le y = true ↔ p ≤ q := by
  have hfinite (p q : Rat) : (finite p).le (finite q) = true ↔ p ≤ q := by
    rcases lt_trichotomy p q with h | rfl | h
    · simp [le, lt, eq, compare?, h, h.le]
    · simp [le, lt, eq, compare?]
    · simp [le, lt, eq, compare?, h.not_gt, h.ne', h.not_ge]
  cases x <;> cases y <;> cases hx <;> cases hy
  · simp [le, lt, eq, compare?]
  · simpa [le, lt, eq, compare?, eq_comm (a := (0 : Rat))] using hfinite 0 q
  · simpa [le, lt, eq, compare?] using hfinite p 0
  · exact hfinite p q

/-- After a number that is not NaN and no infinity counting comes to the double
of one more. -/
theorem next_eq (hx : x.rational? = some c) : x.next = Format.double.ofRat (c + 1) := by
  cases x <;> cases hx
  · rw [zero_add]
    rfl
  · rfl

/-- **Up to `2^53` counting makes progress.** The sum is at most half a unit of
the doubles below `2^53` off, so at least half of what was added is left of it. -/
theorem exists_next (hx : x.rational? = some c) (hlow : -2 ^ 53 ≤ c) (hhigh : c ≤ 2 ^ 53) :
    ∃ c', x.next.rational? = some c' ∧ c' ≤ 2 ^ 53 ∧ (c + 1 / 2 ≤ c' ∨ c' = 2 ^ 53) := by
  have hbound : |c + 1| ≤ 2 ^ 60 := by
    norm_num at hlow hhigh ⊢
    rw [abs_le]
    constructor <;> linarith
  obtain ⟨y, hy, hnext⟩ := Format.exists_rational?_ofRat hbound
  rw [next_eq hx]
  refine ⟨_, hnext, ?_⟩
  split
  · rename_i hneg
    rw [abs_of_neg hneg] at hy
    have hnonneg := hy.nonneg (by decide) (by linarith)
    obtain ⟨h, -⟩ := abs_le.1 (hy.abs_sub_le_half (by linarith) (by linarith))
    exact ⟨by linarith, .inl (by linarith)⟩
  · rename_i hneg
    have hnonneg := not_lt.1 hneg
    rw [abs_of_nonneg hnonneg] at hy
    have hle := hy.le_two_pow hnonneg (by linarith)
    refine ⟨hle, ?_⟩
    -- a sum past the limit is rounded back to it
    rcases le_or_gt (c + 1) (2 ^ 53) with hsmall | hlarge
    · obtain ⟨-, h⟩ := abs_le.1 (hy.abs_sub_le_half hnonneg hsmall)
      exact .inl (by linarith)
    · have hgrid : Format.double.Grid (2 ^ (53 : Int)) := Format.grid_zpow (by decide) (by decide)
      have hge := hy.ge_of_grid (by decide) hgrid (by positivity) (by exact_mod_cast hlarge.le)
      exact .inr (le_antisymm hle (by exact_mod_cast hge))

/-- **Beyond `2^53` counting makes none.** The sum is one off, and the single is
the nearest double to it. -/
theorem next_eq_self (hx : x.IsSingle) (hc : x.rational? = some c) (hlarge : c < -2 ^ 53 ∨ 2 ^ 53 ≤ c) :
    x.next = x := by
  have hne : c ≠ 0 := by
    rintro rfl
    norm_num at hlarge
  have hxc : x = finite c := by
    cases x <;> cases hc
    · exact absurd rfl hne
    · rfl
  subst hxc
  have habs : 2 ^ 53 ≤ |c| := by
    rcases hlarge with h | h
    · rw [abs_of_neg (by linarith)]
      linarith
    · exact h.trans (le_abs_self c)
  -- the sum has the sign of the number, as one is too little to change it
  have hsign : (c + 1 < 0) ↔ c < 0 := by
    rcases hlarge with h | h <;> constructor <;> intro <;> linarith
  have hnearest : Format.double.IsNearest |c + 1| |c| := by
    refine hx.grid.1.isNearest_of_le habs ?_ ?_
    · have := abs_abs_sub_abs_le (c + 1) c
      rwa [add_sub_cancel_left, abs_one] at this
    · rcases hlarge with h | h
      · right
        rw [abs_of_neg (by linarith)]
        linarith
      · left
        rw [abs_of_nonneg (by linarith), abs_of_nonneg (by linarith)]
        linarith
  have hround := (Format.roundsTo_round Format.proper_double (finite (c + 1))).unique
    Format.proper_double (abs_nonneg _) ⟨_, hnearest, rfl⟩
  have hsmall : |c| < 2 ^ (Format.double.maxExponent + Format.double.precision) :=
    hx.grid.2.trans (zpow_lt_zpow_right₀ (by norm_num) (by decide))
  rw [next_eq hc]
  refine hround.trans ?_
  rw [Format.ofMagnitude, if_neg (abs_ne_zero.2 hne), if_neg hsmall.not_ge]
  simp only [hsign, decide_eq_true_eq]
  split
  · rename_i hneg
    rw [abs_of_neg hneg, Rat.neg_neg]
  · rename_i hneg
    rw [abs_of_nonneg (not_lt.1 hneg)]

/-- Counting passes a number after so many that are not above it. -/
def Passes (x y : Ieee) (n : Nat) : Prop :=
  (∀ k < n, (next^[k] x).le y = true) ∧ (next^[n] x).le y = false

/-- **Counting that passes a number from the next one on passes it in one step
more**, provided that the first one is not above it. -/
theorem Passes.succ {n : Nat} (hle : x.le y = true) (h : Passes x.next y n) : Passes x y (n + 1) := by
  refine ⟨fun k hk => ?_, h.2⟩
  cases k with
  | zero => exact hle
  | succ k => exact h.1 k (by omega)

/-- **Counting passes a number below `2^53`** if it does not start below
`-2^53`: every two rounds take it further by one, and `2^53` is far enough. -/
theorem exists_passes (hx : x.rational? = some c) (hy : y.rational? = some high) (hlow : -2 ^ 53 ≤ c)
    (hhigh : high < 2 ^ 53) : ∃ n, Passes x y n := by
  obtain ⟨N, hN⟩ := exists_nat_ge (2 * (2 ^ 53 - c))
  induction N generalizing x c with
  | zero =>
    have habove : high < c := by
      rw [Nat.cast_zero] at hN
      linarith
    exact ⟨0, nofun, Bool.not_eq_true _ ▸ fun h => habove.not_ge ((le_iff hx hy).1 h)⟩
  | succ N ih =>
    rcases lt_or_ge high c with habove | hle
    · exact ⟨0, nofun, Bool.not_eq_true _ ▸ fun h => habove.not_ge ((le_iff hx hy).1 h)⟩
    · obtain ⟨c', hc', -, hprogress⟩ := exists_next hx hlow (by linarith)
      push_cast at hN
      obtain ⟨n, hn⟩ := ih hc' (by rcases hprogress with h | h <;> linarith)
        (by rcases hprogress with h | h <;> [skip; rw [h]] <;> linarith)
      exact ⟨n + 1, hn.succ ((le_iff hx hy).2 hle)⟩

/-- Counting from a number above another one passes it at once. -/
theorem Passes.eq_zero {n : Nat} (h : Passes x y n) (hx : x.rational? = some c)
    (hy : y.rational? = some high) (habove : high < c) : n = 0 := by
  by_contra hn
  exact habove.not_ge ((le_iff hx hy).1 (h.1 0 (Nat.pos_of_ne_zero hn)))

/-- Counting from a number passes it after that number. -/
theorem Passes.eq_one {n : Nat} (h : Passes x y n) (hx : x.rational? = some c)
    (hy : y.rational? = some c) (hlow : -2 ^ 53 ≤ c) (hhigh : c < 2 ^ 53) : n = 1 := by
  obtain ⟨c', hc', -, hprogress⟩ := exists_next hx hlow hhigh.le
  have hfirst : n ≠ 0 := by
    rintro rfl
    have hle := (le_iff hx hy).2 le_rfl
    rw [show x.le y = false from h.2] at hle
    cases hle
  have hsecond : ¬1 < n := fun hlt => by
    have hle := (le_iff hc' hy).1 (h.1 1 hlt)
    rcases hprogress with h | h <;> linarith
  omega

/-- **Counting from a single passes no other number**: it stays at the single,
or at `2^53`. -/
theorem iterate_next_le (hx : x.IsSingle) (hc : x.rational? = some c) (hy : y.rational? = some high)
    (hle : c ≤ high) (hout : ¬(-2 ^ 53 ≤ c ∧ high < 2 ^ 53)) (k : Nat) :
    (next^[k] x).le y = true := by
  rcases em (c < -2 ^ 53 ∨ 2 ^ 53 ≤ c) with hlarge | hinside
  · rw [Function.iterate_fixed (next_eq_self hx hc hlarge)]
    exact (le_iff hc hy).2 hle
  · obtain ⟨hlow, hhigh⟩ := not_or.1 hinside
    have hout' : 2 ^ 53 ≤ high := not_lt.1 fun h => hout ⟨not_lt.1 hlow, h⟩
    have hreached : ∃ c', (next^[k] x).rational? = some c' ∧ -2 ^ 53 ≤ c' ∧ c' ≤ 2 ^ 53 := by
      induction k with
      | zero => exact ⟨c, hc, not_lt.1 hlow, (not_le.1 hhigh).le⟩
      | succ k ih =>
        obtain ⟨c₁, hc₁, hlow₁, hhigh₁⟩ := ih
        obtain ⟨c₂, hc₂, hhigh₂, hprogress⟩ := exists_next hc₁ hlow₁ hhigh₁
        rw [Function.iterate_succ_apply']
        refine ⟨c₂, hc₂, ?_, hhigh₂⟩
        rcases hprogress with h | h <;> linarith
    obtain ⟨c', hc', -, hhigh'⟩ := hreached
    exact (le_iff hc' hy).2 (hhigh'.trans hout')

end Ieee
end Shank
