/-
# Which single a numeral is read as

A numeral is rounded twice: to the nearest double, and then to the nearest
single. So the real that is stored for it is the single nearest to the number
that is written, unless the double lies half-way between two neighbouring
singles and the even one of these is not on the side of the number. That happens
(`Written.aboveHalfway_read_as_one`), for numerals of many digits only.

The same holds of a literal in the program text.
-/

import Shank.Proofs.Ieee.Twice
import Shank.Proofs.Numeral.Written
import Shank.Store

namespace Shank
namespace Numeral

/-- The numeral of an integer: a minus if it is negative, and digits. -/
def Written.ofInt (n : Int) : Written where
  sign := if n < 0 then some true else none
  whole := Nat.toDigits 10 n.natAbs
  isDecimal c hc := by
    rw [Option.getD_none, List.append_nil] at hc
    exact Text.isDecimal_of_isDigit (Nat.isDigit_of_mem_toDigits (by decide) (by decide) hc)
  ne_nil := by simp

/-- The numeral of an integer is written as the text of the integer, so what is
shown of numerals holds of integers that are read as reals. -/
theorem Written.text_ofInt (n : Int) : (Written.ofInt n).text = integerText n := by
  rw [integerText]
  split <;> simp [text, ofInt, body, tail, signText, *]

/-- The numeral of an integer stands for its magnitude. -/
theorem Written.magnitude_ofInt (n : Int) : (Written.ofInt n).magnitude = n.natAbs := by
  rw [magnitude_eq]
  simp [ofInt, decimals, exponent, number_toDigits]

/-- The numeral of an integer has a minus if the integer is negative. -/
theorem Written.negative_ofInt (n : Int) : (Written.ofInt n).negative = decide (n < 0) := by
  by_cases h : n < 0 <;> simp [negative, ofInt, isMinus, h]

variable (w : Written)

/-- A numeral is rounded to a double, and that to a single. -/
theorem Written.round_real? : ∃ z x, Format.double.IsNearest w.magnitude z ∧
    Format.single.Rounds w.negative z x ∧ (real? w.text).map Format.single.round = some x := by
  obtain ⟨y, hy, hdouble⟩ := w.exists_rounds
  obtain ⟨z, hz, hsingle⟩ :=
    hdouble.round Format.proper_single (by decide) (by decide) w.magnitude_nonneg
  exact ⟨z, _, hz, hsingle, by rw [hy, Option.map_some]⟩

/-- A text that is a numeral of a real is read for a real variable as the double
of it, rounded once more. -/
theorem ofText_real {text : String} {y : Ieee} (h : real? (Text.stripped text) = some y) :
    Scalar.ofText .real text = .ok (.real (Format.single.round y)) := by
  unfold Scalar.ofText
  dsimp only
  rw [h]

/-- The single that is read is the one that is stored, if it is in range. -/
theorem Written.reading_of_round {x : Ieee} (hx : (real? w.text).map Format.single.round = some x)
    {s : Store} {q : Place} {range : Option RealInterval} (hq : s.typeAt? q = some (.real range)) :
    s.reading q w.text = (ScalarType.real range).check (.real x) := by
  obtain ⟨y, hy, rfl⟩ := Option.map_eq_some_iff.1 hx
  rw [← w.stripped_text] at hy
  rw [Store.reading, hq]
  change (do ScalarType.check _ (← Scalar.ofText .real w.text)) = _
  rw [ofText_real hy]
  rfl

/-- **A numeral is read as the nearest single**, but for a double half-way
between two singles.

Let `z` be the double nearest to the number that is written. Then the single
nearest to `z` is stored in every real variable and slot whose range it is in,
from wherever the text comes; and if the numeral has a point, it is what it
means in the program text. It is also the single nearest to the number itself,
with ties to the even one and infinities for what is too large; unless `z` lies
half-way between two neighbouring singles, and the even one of them is below `z`
and the number above, or the other way round. The text of an integer is a
numeral as well. -/
theorem Written.read_as_single :
    (∀ w : Written, ∃ z x, Format.double.IsNearest w.magnitude z ∧ Format.single.Rounds w.negative z x ∧
      (∀ s : Store, ∀ q range, s.typeAt? q = some (.real range) →
        s.reading q w.text = (ScalarType.real range).check (.real x)) ∧
      (∀ t : Token, t.text = w.text → w.fraction.isSome = true → Parse.number t = pure (.real x)) ∧
      (Format.single.Rounds w.negative w.magnitude x ↔
        ¬∃ a b, Format.single.Halfway a b z ∧ a < 2 ^ 128 ∧
          (z < w.magnitude ∧ Format.single.EvenGrid a ∨
            w.magnitude < z ∧ Format.single.EvenGrid b))) ∧
    ∀ n : Int, ∃ w : Written, w.text = (Scalar.integer n).text ∧ w.magnitude = n.natAbs ∧
      w.negative = decide (n < 0) := by
  refine ⟨fun w => ?_, fun n => ⟨ofInt n, text_ofInt n, magnitude_ofInt n, negative_ofInt n⟩⟩
  obtain ⟨z, x, hz, hx, hread⟩ := w.round_real?
  refine ⟨z, x, hz, hx, fun s q range hq => w.reading_of_round hread hq,
    fun t ht hfraction => ?_, ?_⟩
  -- the parser takes a numeral for a real by its point
  · have hpoint : '.' ∈ w.text.toList := by
      obtain ⟨ds, hds⟩ := Option.isSome_iff_exists.1 hfraction
      simp [text, body, tail, hds]
    obtain ⟨y, hy, rfl⟩ := Option.map_eq_some_iff.1 hread
    rw [Parse.number, ht, if_pos hpoint, hy]
  · exact Format.rounds_iff_of_isNearest (by decide) (by decide) (by decide) (by decide)
      w.magnitude_nonneg hz hx

/-- The hypotheses of `Written.read_as_single` are satisfiable: for `0.1` in a
real variable and in the program text. -/
theorem Written.read_as_single_tenth :
    let s : Store := { cells := #[.scalar (.real none) (.real (.finite 0))] }
    let tenth : Ieee := .finite (13421773 / 134217728)
    ∃ z, Format.double.IsNearest (1 / 10) z ∧ Format.single.Rounds false z tenth ∧
      s.reading ⟨0, none⟩ "0.1" = .ok (.real tenth) ∧
        Parse.number ⟨.number, "0.1", 1, 1⟩ = pure (.real tenth) := by
  intro s tenth
  let w : Written := { whole := ['0'], fraction := some ['1'] }
  have hmagnitude : w.magnitude = 1 / 10 := by
    rw [magnitude_eq]
    rfl
  obtain ⟨z, x, hz, hx, hread, hliteral, -⟩ := read_as_single.1 w
  have hstored : s.reading ⟨0, none⟩ w.text = .ok (.real x) := hread s ⟨0, none⟩ none rfl
  have htenth : s.reading ⟨0, none⟩ w.text = .ok (.real tenth) := by decide +kernel
  obtain rfl : x = tenth := Scalar.real.inj (Except.ok.inj (hstored.symm.trans htenth))
  exact ⟨z, hmagnitude ▸ hz, hx, hstored, hliteral ⟨.number, "0.1", 1, 1⟩ rfl rfl⟩

/-- A numeral a little above the middle between 1 and the next single. The
double nearest to it is that middle. -/
def Written.aboveHalfway : Written where
  whole := ['1']
  fraction := some "000000059604644775390626".toList
  isDecimal := List.all_eq_true.1 (by decide +kernel)

/-- The number that this numeral stands for, as a quotient. -/
theorem Written.magnitude_aboveHalfway :
    aboveHalfway.magnitude = 1000000059604644775390626 / 10 ^ 24 := by
  have hnumber : number (aboveHalfway.whole ++ aboveHalfway.decimals) = 1000000059604644775390626 := by
    decide +kernel
  rw [magnitude_eq, hnumber, show aboveHalfway.exponent - aboveHalfway.decimals.length = -24 from rfl]
  norm_num

/-- Not every numeral is read as the nearest single: this one is nearer to the
single after 1, but the middle goes to 1, which is even. -/
theorem Written.aboveHalfway_read_as_one :
    let s : Store := { cells := #[.scalar (.real none) (.real (.finite 0))] }
    let text := "1.000000059604644775390626"
    ¬∀ w : Written, ∀ x, w.text = text →
      (s.reading ⟨0, none⟩ text = .ok (.real x) ∨
        Parse.number ⟨.number, text, 1, 1⟩ = pure (.real x)) →
      Format.single.Rounds w.negative w.magnitude x := by
  intro s text hall
  have hread : s.reading ⟨0, none⟩ text = .ok (.real (.finite 1)) := by decide +kernel
  obtain ⟨y, hy, hone⟩ := hall aboveHalfway (.finite 1) (by decide +kernel) (.inl hread)
  rw [magnitude_aboveHalfway] at hy
  have htop : ¬(2 : Rat) ^ (Format.single.maxExponent + Format.single.precision) ≤ 1 := by
    simp only [Format.single]
    norm_num
  have hmagnitude : Format.single.ofMagnitude false 1 = .finite 1 := by
    rw [Format.ofMagnitude, if_neg one_ne_zero, if_neg htop]
    rfl
  obtain rfl := ((Format.ofMagnitude_eq_iff false).1 (hmagnitude.trans hone)).resolve_right
    fun hlarge => htop hlarge.1
  have hnext : Format.single.Grid (8388609 * 2 ^ (-23 : Int)) :=
    ⟨8388609, -23, by norm_num, by decide, by decide⟩
  have hless : (1 : Rat) < 8388609 * 2 ^ (-23 : Int) := by norm_num
  -- the number would have to be as near to 1 as to the single after it
  have hmiddle := (Format.abs_sub_le_iff_of_lt hless).1 (hy.nearest _ hnext)
  norm_num at hmiddle

end Numeral
end Shank
