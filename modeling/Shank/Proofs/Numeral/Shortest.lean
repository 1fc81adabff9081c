/-
# Nine digits tell a single

The text of a real is the usual rendering to the fewest digits that are read
back, completed with `.0` where nothing shows that it is a real. Nine digits are
always enough: the decimal is off by less than half a unit of the ninth digit,
the double it is read as by much less than that, and no other single is as near
(`singleOfDecimal_nearest_nine`).

That the text is the first rendering that is read back is how it is found. So a
text of fewer digits would not have been read back, and of as many digits only
the nearest decimal was tried.
-/

import Shank.Proofs.Ieee.Twice
import Shank.Proofs.Numeral.Printed

namespace Shank

open Numeral

namespace Ieee

/-- The single that a text is read as, if it is a numeral of a real. -/
def readSingle? (s : String) : Option Ieee :=
  (Numeral.real? s).map Format.single.round

/-- The minus of a number. -/
def minus (negative : Bool) : List Char :=
  if negative then ['-'] else []

/-- A real rendered to `count` significant digits, in the usual way. -/
def general (count : Nat) : Ieee → List Char
  | nan => ['n', 'a', 'n']
  | infinity negative => minus negative ++ ['i', 'n', 'f']
  | negativeZero => ['-', '0']
  | finite q =>
    if q = 0 then ['0']
    else minus (q.num < 0) ++ (Decimal.nearest count q.num.natAbs q.den).general count

/-- A minus does not show that a text is a real. -/
theorem showsReal_of_mem_minus (negative : Bool) : ∀ c ∈ minus negative, showsReal c = false := by
  cases negative <;> simp [minus, showsReal]

/-! ## What is read

A rendering is read as the single nearest to the double nearest to its decimal.
Nine digits leave the decimal near enough to the single for both steps to lead
back to it.
-/

/-- A numeral of a decimal is read as the single that the decimal is rounded to. -/
theorem readSingle?_of_writes {cs : List Char} {x : Decimal} (h : Writes cs x.value) (negative : Bool) :
    readSingle? (String.ofList (minus negative ++ cs)) = some (singleOfDecimal negative x) := by
  obtain ⟨w, hsign, hbody, hmagnitude⟩ := h (if negative then some true else none)
  have htext : w.text = String.ofList (minus negative ++ cs) := by
    rw [Written.text, hsign, hbody]
    cases negative <;> rfl
  have hnegative : w.negative = negative := by
    rw [Written.negative, hsign]
    cases negative <;> rfl
  obtain ⟨y, hy, hrounds⟩ := w.exists_rounds
  rw [hmagnitude, hnegative] at hrounds
  rw [← htext, readSingle?, hy, Option.map_some, singleOfDecimal,
    hrounds.unique Format.proper_double x.value_nonneg (Format.rounds_ofDecimal Format.proper_double _ _)]

/-- **A number of single precision is on the grid**, and not too large. It is
what it is rounded to, and that is. -/
theorem IsSingle.grid {q : Rat} (h : (finite q).IsSingle) :
    Format.single.Grid |q| ∧ |q| < 2 ^ (Format.single.maxExponent + Format.single.precision) := by
  have hround := Format.roundsTo_round Format.proper_single (finite q)
  rw [h.single] at hround
  obtain ⟨y, hy, hq⟩ := hround
  rw [Format.ofMagnitude] at hq
  split at hq
  · rename_i hzero
    rw [zero] at hq
    split at hq
    · cases hq
    · obtain rfl := finite.inj hq
      rw [abs_zero]
      exact ⟨Format.grid_zero _, by positivity⟩
  · split at hq
    · cases hq
    -- neither zero nor an infinity, so the magnitude is the number rounded to
    · rename_i hne hlt
      have habs : |q| = y := by
        have hy0 := hy.nonneg (by decide) (abs_nonneg q)
        rw [finite.inj hq]
        split
        · rw [abs_neg, abs_of_nonneg hy0]
        · exact abs_of_nonneg hy0
      rw [habs]
      exact ⟨hy.grid, not_le.1 hlt⟩

/-- No single but zero is smaller than `2^-149`. -/
theorem IsSingle.zpow_le_abs {q : Rat} (h : (finite q).IsSingle) (hq : q ≠ 0) :
    (2 : Rat) ^ (-149 : Int) ≤ |q| := by
  have := h.grid.1.zpow_le_abs (abs_ne_zero.2 hq)
  rwa [abs_abs] at this

/-- A single is told by its sign and its magnitude. -/
theorem ofMagnitude_abs {q : Rat} (h : (finite q).IsSingle) :
    Format.single.ofMagnitude (q.num < 0) |q| = finite q := by
  have hlt := h.grid.2
  rw [Format.ofMagnitude, if_neg hlt.not_ge]
  split
  · rename_i hzero
    rw [abs_eq_zero.1 hzero]
    rfl
  · simp only [Rat.num_neg, decide_eq_true_eq]
    split
    · rename_i hneg
      rw [abs_of_neg hneg, Rat.neg_neg]
    · rename_i hnonneg
      rw [abs_of_nonneg (not_lt.1 hnonneg)]

/-- A decimal is read as a single if it is not off by more than a part in 2 ·
10⁸. The double is nearer to the decimal than that, and so the single is still
the nearest to the double. -/
theorem singleOfDecimal_of_near {q : Rat} (h : (finite q).IsSingle) (hq : q ≠ 0) {x : Decimal}
    (hx : |(|q| - x.value)| * (2 * 10 ^ 8) ≤ |q|) : singleOfDecimal (q.num < 0) x = finite q := by
  obtain ⟨z, hz, hrounds⟩ :=
    (Format.rounds_ofDecimal Format.proper_double (decide (q.num < 0)) x).round Format.proper_single
      (by decide) (by decide) x.value_nonneg
  have hpos : 0 < |q| := abs_pos.2 hq
  have hsmall := h.zpow_le_abs hq
  -- the double is as near to the decimal as its precision allows
  have hdouble : |x.value - z| * 2 ^ 53 ≤ x.value := by
    refine hz.abs_sub_mul_le (by decide) (le_trans (b := 2 ^ (-150 : Int))
      (zpow_le_zpow_right₀ (by norm_num) (by decide)) ?_)
    rw [show (-150 : Int) = -149 - 1 from rfl, zpow_sub_one₀ (by norm_num)]
    generalize (2 : Rat) ^ (-149 : Int) = u at hsmall
    have := le_abs_self (|q| - x.value)
    linarith
  -- the two distances together are less than half a unit of singles
  have hnear : Format.single.IsNearest z |q| := by
    refine h.grid.1.isNearest_of_lt ?_
    have htriangle := abs_sub_le z x.value |q|
    rw [abs_sub_comm z x.value, abs_sub_comm x.value |q|] at htriangle
    have := neg_abs_le (|q| - x.value)
    rw [abs_abs, show Format.single.precision = 24 from rfl]
    linarith
  rw [singleOfDecimal, ← ofMagnitude_abs h]
  exact hrounds.unique Format.proper_single (hz.nonneg (by decide) x.value_nonneg) ⟨_, hnear, rfl⟩

/-- The decimal of a rendering is the nearest one to the magnitude of the real. -/
theorem isNearest_nearest {q : Rat} (hq : q ≠ 0) (count : Nat) :
    Decimal.IsNearest count |q| (Decimal.nearest count q.num.natAbs q.den) := by
  have h := Decimal.nearest_spec count (Int.natAbs_pos.2 (Rat.num_ne_zero.2 hq)) q.den_pos
  rwa [natAbs_num_div_den] at h

/-- **Nine digits are read back.** -/
theorem singleOfDecimal_nearest_nine {q : Rat} (h : (finite q).IsSingle) (hq : q ≠ 0) :
    singleOfDecimal (q.num < 0) (Decimal.nearest 9 q.num.natAbs q.den) = finite q := by
  have hnearest := isNearest_nearest hq 9
  refine singleOfDecimal_of_near h hq ?_
  generalize Decimal.nearest 9 q.num.natAbs q.den = x at hnearest ⊢
  have hoff := hnearest.abs_sub_le
  have hlow := hnearest.low
  rw [show x.exponent + (9 : Nat) - 1 = x.exponent + (8 : Nat) by push_cast; ring,
    zpow_add₀ (by norm_num), zpow_natCast] at hlow
  linarith

/-! ## The fewest digits

The renderings are tried from one digit on, and the first that is read back is
taken. The nearest decimal of so many digits is the only one that is tried.
-/

/-- What is found is the first candidate that will do, or the last one. -/
theorem firstCandidate_spec (candidate : Nat → Decimal) (ok : Decimal → Bool) (more count : Nat) :
    ∃ d, firstCandidate candidate ok more count = (d, candidate d) ∧ count ≤ d ∧ d ≤ count + more ∧
      (∀ d', count ≤ d' → d' < d → ok (candidate d') = false) ∧
        (ok (candidate d) = true ∨ d = count + more) := by
  induction more generalizing count with
  | zero => exact ⟨count, rfl, le_rfl, le_rfl, fun d' h h' => absurd h' (by omega), .inr rfl⟩
  | succ more ih =>
    by_cases hok : ok (candidate count) = true
    · refine ⟨count, ?_, le_rfl, by omega, fun d' h h' => absurd h' (by omega), .inl hok⟩
      rw [firstCandidate]
      exact if_pos hok
    · obtain ⟨d, hfound, hle, hle', hnone, hlast⟩ := ih (count + 1)
      refine ⟨d, ?_, by omega, by omega, fun d' h h' => ?_, ?_⟩
      · rw [firstCandidate]
        exact (if_neg hok).trans hfound
      · rcases h.eq_or_lt with rfl | h
        · simpa using hok
        · exact hnone d' h h'
      · rwa [Nat.add_right_comm, Nat.add_assoc] at hlast

/-- The decimal of the text of a single: the first one that is read back. -/
structure IsShortest (q : Rat) (d : Nat) (x : Decimal) : Prop where
  one_le : 1 ≤ d
  le_nine : d ≤ 9
  eq_nearest : x = Decimal.nearest d q.num.natAbs q.den
  back : singleOfDecimal (q.num < 0) x = finite q
  text : (finite q).singleText = String.ofList (minus (q.num < 0) ++ x.text d)
  fewest : ∀ d', 1 ≤ d' → d' < d →
    singleOfDecimal (q.num < 0) (Decimal.nearest d' q.num.natAbs q.den) ≠ finite q

/-- The decimal of a text is the nearest one of its number of digits. Another
one of as many digits may be read back where this one is not; then the text has
a digit more. -/
theorem IsShortest.nearest {q : Rat} {d : Nat} {x : Decimal} (h : IsShortest q d x) (hq : q ≠ 0) :
    Decimal.IsNearest d |q| x :=
  h.eq_nearest ▸ isNearest_nearest hq d

/-- The decimal of a text is not zero unless the real is. -/
theorem IsShortest.coefficient_pos {q : Rat} {d : Nat} {x : Decimal} (h : IsShortest q d x)
    (hq : q ≠ 0) : 0 < x.coefficient :=
  (h.nearest hq).coefficient_pos h.one_le

/-- The text is a numeral of the decimal. -/
theorem IsShortest.exists_written {q : Rat} {d : Nat} {x : Decimal} (h : IsShortest q d x) (hq : q ≠ 0) :
    ∃ w : Written, w.text = (finite q).singleText ∧ w.body = x.text d ∧ w.negative = decide (q < 0) ∧
      w.magnitude = x.value := by
  obtain ⟨w, hsign, hbody, hmagnitude⟩ :=
    Decimal.writes_text (h.coefficient_pos hq) d (if q.num < 0 then some true else none)
  refine ⟨w, ?_, hbody, ?_, hmagnitude⟩
  · rw [h.text, Written.text, hsign, hbody]
    by_cases hneg : q.num < 0 <;> simp [minus, signText, hneg]
  · rw [Written.negative, hsign]
    by_cases hneg : q < 0 <;> simp [isMinus, hneg]

/-- **Every single has a shortest decimal**, for nine digits are always read
back. -/
theorem exists_isShortest {q : Rat} (h : (finite q).IsSingle) (hq : q ≠ 0) :
    ∃ d, IsShortest q d (Decimal.nearest d q.num.natAbs q.den) := by
  obtain ⟨d, hfound, hle, hle', hnone, hlast⟩ :=
    firstCandidate_spec (fun count => Decimal.nearest count q.num.natAbs q.den)
      (fun x => singleOfDecimal (q.num < 0) x == finite q) 8 1
  refine ⟨d, hle, hle', rfl, ?_, ?_, fun d' h₁ h₂ => ?_⟩
  · rcases hlast with hok | rfl
    · exact beq_iff_eq.1 hok
    · exact singleOfDecimal_nearest_nine h hq
  · simp only [singleText, if_neg hq, hfound]
    rfl
  · simpa using hnone d' h₁ h₂

section Finite

variable {q : Rat} (hq : q ≠ 0)

include hq

/-- A rendering to `d` digits is read as the single that its decimal is rounded
to. -/
theorem readSingle?_general {d : Nat} (hd : 1 ≤ d) :
    readSingle? (String.ofList ((finite q).general d)) =
      some (singleOfDecimal (q.num < 0) (Decimal.nearest d q.num.natAbs q.den)) := by
  rw [general, if_neg hq]
  exact readSingle?_of_writes
    (Decimal.writes_general ((isNearest_nearest hq d).coefficient_pos hd) d) _

/-- A rendering to `d` digits, completed, is the text of its decimal with the
sign in front. -/
theorem completed_general {d : Nat} (hd : 1 ≤ d) :
    completed ((finite q).general d) =
      minus (q.num < 0) ++ (Decimal.nearest d q.num.natAbs q.den).text d := by
  rw [general, if_neg hq]
  exact Decimal.completed_general (showsReal_of_mem_minus _)
    ((isNearest_nearest hq d).coefficient_pos hd) d

end Finite

/-- A real is rendered to `d` digits so that it is read back, and to no fewer;
completed, that is its text. -/
structure IsRendered (x : Ieee) (d : Nat) : Prop where
  one_le : 1 ≤ d
  le_nine : d ≤ 9
  text : x.singleText = String.ofList (completed (x.general d))
  back : readSingle? (String.ofList (x.general d)) = some x
  fewest : ∀ d', 1 ≤ d' → d' < d → readSingle? (String.ofList (x.general d')) ≠ some x

/-- **The text of a real is read back**, and it is the rendering to the fewest
digits that are. -/
theorem exists_isRendered {x : Ieee} (hx : x.IsSingle) :
    (∃ d, x.IsRendered d) ∧ readSingle? x.singleText = some x := by
  -- what is no number of its own has one rendering
  have hone (htext : x.singleText = String.ofList (completed (x.general 1)))
      (hback : readSingle? (String.ofList (x.general 1)) = some x) : ∃ d, x.IsRendered d :=
    ⟨1, le_rfl, by decide, htext, hback, fun d' h h' => absurd h' (by omega)⟩
  cases x with
  | nan => exact absurd rfl hx.number
  | infinity negative => cases negative <;> exact ⟨hone (by decide) (by decide +kernel), by decide +kernel⟩
  | negativeZero => exact ⟨hone (by decide) (by decide +kernel), by decide +kernel⟩
  | finite q =>
    -- zero has its one rendering too, and other numbers have a shortest decimal
    by_cases hq : q = 0
    · subst hq
      exact ⟨hone (by decide) (by decide +kernel), by decide +kernel⟩
    · obtain ⟨d, h⟩ := exists_isShortest hx hq
      refine ⟨⟨d, h.one_le, h.le_nine, ?_, ?_, fun d' h₁ h₂ => ?_⟩, ?_⟩
      · rw [h.text, completed_general hq h.one_le]
      · rw [readSingle?_general hq h.one_le, h.back]
      · rw [readSingle?_general hq h₁]
        exact fun he => h.fewest d' h₁ h₂ (Option.some.inj he)
      · rw [h.text, readSingle?_of_writes
          (Decimal.writes_text (h.coefficient_pos hq) _), h.back]

end Ieee
end Shank
