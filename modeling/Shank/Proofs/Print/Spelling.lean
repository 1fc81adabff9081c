/-
# Reals in decimal digits

A real of single precision is a multiple of a power of two, so it has finitely
many decimal digits; written with all of them it is read back exactly
(`Ieee.isSpelling_exactText`). An infinity is written as a number that is larger
than every double.

So the way in which reals are written may be left open: there is one
(`Ieee.exactText`), and every other that is read back will do as well.
-/

import Mathlib.Data.Nat.Prime.Basic
import Shank.Proofs.Numeral.Written
import Shank.Proofs.Print.Readable

namespace Shank

/-- Decimal digits of `c / 10^k` with the point in front of the last `k` of
them. -/
def pointedText (c k : Nat) : String :=
  let fraction := Nat.toDigits 10 (c % Nat.pow 10 k)
  String.ofList (Nat.toDigits 10 (c / Nat.pow 10 k) ++
    '.' :: (List.replicate (k - fraction.length) '0' ++ fraction))

/-- All decimal digits of a number of single precision without a minus. -/
def Ieee.exactText : Ieee → String
  | finite q =>
    let k := max 1 q.den.log2
    pointedText (q.num.natAbs * (Nat.pow 10 k / q.den)) k
  | infinity _ => pointedText (Nat.pow 10 200 * Nat.pow 10 200) 1
  | _ => ""

/-! ## Digits with a point

A decimal is written as digits with a point among them, which is what a real
needs in a program text to be told from an integer.
-/

section Pointed

variable {whole fraction : List Char} (hwhole : ∀ c ∈ whole, c.isDigit = true)
  (hfraction : ∀ c ∈ fraction, c.isDigit = true)

include hwhole hfraction

/-- Digits with a point behind the first of them have the form of a number. -/
theorem isNumber_pointed (hne : whole ≠ []) : Token.isNumber (whole ++ '.' :: fraction) = true := by
  have hdecimal : ∀ {cs : List Char}, (∀ c ∈ cs, c.isDigit = true) →
      ∀ c ∈ cs, Text.isDecimal c = true := fun h c hc => by
    rw [Text.isDecimal, Text.digit?_of_isDigit (h c hc)]
    rfl
  have hpoint : Text.isDecimal '.' = false := by decide
  have htake : (whole ++ '.' :: fraction).takeWhile Text.isDecimal = whole := by
    rw [List.takeWhile_append_of_pos (hdecimal hwhole), List.takeWhile_cons_of_neg (by simp [hpoint]),
      List.append_nil]
  have hdrop : (whole ++ '.' :: fraction).dropWhile Text.isDecimal = '.' :: fraction := by
    rw [List.dropWhile_append_of_pos (hdecimal hwhole), List.dropWhile_cons_of_neg (by simp [hpoint])]
  rw [Token.isNumber, htake, hdrop]
  cases whole with
  | nil => exact absurd rfl hne
  | cons c cs => simpa using fun c hc => hdecimal hfraction c hc

/-- Digits with a point among them are read as the decimal of all of them, in
units of the last one. -/
theorem real?_pointed (hne : whole ≠ []) :
    Numeral.real? (String.ofList (whole ++ '.' :: fraction)) =
      some (Format.double.ofDecimal false
        ⟨Nat.ofDigitChars 10 (whole ++ fraction) 0, -(fraction.length : Int)⟩) := by
  have hdigits : ∀ c ∈ whole ++ fraction, c.isDigit = true := fun c hc =>
    (List.mem_append.1 hc).elim (hwhole c) (hfraction c)
  let w : Numeral.Written :=
    { whole, fraction := some fraction,
      isDecimal := fun c hc => Text.isDecimal_of_isDigit (hdigits c hc)
      ne_nil := by simp [hne] }
  have htext : w.text = String.ofList (whole ++ '.' :: fraction) := by
    simp [w, Numeral.Written.text, Numeral.Written.body, Numeral.Written.tail, Numeral.signText]
  have hdecimal : w.decimal = ⟨Numeral.number (whole ++ fraction), -(fraction.length : Int)⟩ := by
    simp [w, Numeral.Written.decimal, Numeral.Written.decimals, Numeral.Written.exponent]
  rw [← htext, w.real?_text, hdecimal, Numeral.number_eq_ofDigitChars hdigits]
  rfl

end Pointed

/-- The digits behind the point are digits, filled up with zeros or not. -/
theorem isDigit_fraction {c k : Nat} :
    ∀ d ∈ List.replicate (k - (Nat.toDigits 10 c).length) '0' ++ Nat.toDigits 10 c,
      d.isDigit = true := by
  intro d hd
  rcases List.mem_append.1 hd with hd | hd
  · rw [List.eq_of_mem_replicate hd]
    decide
  · exact Nat.isDigit_of_mem_toDigits (by decide) (by decide) hd

/-- **A text with a point is read as the decimal it was written for.** The
fraction is filled up with zeros to its length, so the digits are those of the
coefficient, and the point stands before the last `k` of them. -/
theorem real?_pointedText {k : Nat} (hk : 0 < k) (c : Nat) :
    Numeral.real? (pointedText c k) =
      some (Format.double.ofDecimal false ⟨c, -(k : Int)⟩) := by
  have hlength : (Nat.toDigits 10 (c % 10 ^ k)).length ≤ k :=
    (Nat.length_toDigits_le_iff (by decide) hk).2 (Nat.mod_lt _ (by positivity))
  have hfill : (List.replicate (k - (Nat.toDigits 10 (c % 10 ^ k)).length) '0' ++
      Nat.toDigits 10 (c % 10 ^ k)).length = k := by
    rw [List.length_append, List.length_replicate]
    omega
  -- the digits before and behind the point are quotient and rest of the coefficient
  have hvalue : Nat.ofDigitChars 10 (Nat.toDigits 10 (c / 10 ^ k) ++
      (List.replicate (k - (Nat.toDigits 10 (c % 10 ^ k)).length) '0' ++
        Nat.toDigits 10 (c % 10 ^ k))) 0 = c := by
    rw [Nat.ofDigitChars_append, Nat.ofDigitChars_eq_ofDigitChars_zero, hfill,
      Nat.ofDigitChars_ten_toDigits, Nat.ofDigitChars_append, Nat.ofDigitChars_replicate_zero,
      Nat.mul_zero, Nat.ofDigitChars_ten_toDigits, Nat.div_add_mod]
  have hreal := real?_pointed
    (fun _ hc => Nat.isDigit_of_mem_toDigits (by decide) (by decide) hc)
    (isDigit_fraction (c := c % 10 ^ k) (k := k)) (Nat.toDigits_ne_nil (n := c / 10 ^ k) (b := 10))
  rw [hvalue, hfill] at hreal
  exact hreal

/-- Digits with a point spell the real that the double of their decimal is
rounded to. -/
theorem spells_pointedText {k : Nat} (hk : 0 < k) {c : Nat} {x y : Ieee}
    (hx : Format.double.ofDecimal false ⟨c, -(k : Int)⟩ = x) (hy : Format.single.round x = y) :
    Numeral.Spells (pointedText c k) y where
  isNumber := by
    rw [pointedText, String.toList_ofList]
    exact isNumber_pointed
      (fun _ hc => Nat.isDigit_of_mem_toDigits (by decide) (by decide) hc) isDigit_fraction
      Nat.toDigits_ne_nil
  point := by simp [pointedText]
  value := by rw [real?_pointedText hk, hx, Option.map_some, hy]

/-! ## Decimals that are rounded exactly

A single is a double, so a decimal that is equal to one is rounded to it in both
steps.
-/

/-- A decimal that is a number of single precision is read as this number. -/
theorem ofDecimal_of_single {q : Rat} (hq : 0 < q) (h : Format.single.ofRat q = .finite q)
    {c k : Nat} (hvalue : (c / 10 ^ k : Rat) = q) :
    Format.double.ofDecimal false ⟨c, -(k : Int)⟩ = .finite q := by
  obtain ⟨m, e, rfl, -, hm, he, he'⟩ := Format.exists_of_single hq h
  have hgrid : Format.double.Grid (m * 2 ^ e) :=
    ⟨m, e, by norm_cast, by
      rw [Nat.abs_cast]
      exact_mod_cast hm.trans (by decide), by simp only [Format.double]; omega⟩
  have hlarge : (m * 2 ^ e : Rat) < 2 ^ (Format.double.maxExponent + Format.double.precision) := by
    calc (m * 2 ^ e : Rat) < 2 ^ 24 * 2 ^ e := by
          gcongr
          exact_mod_cast hm
      _ = 2 ^ (24 + e : Int) := by rw [zpow_add₀ (by norm_num)]; norm_cast
      _ ≤ _ := zpow_le_zpow_right₀ (by norm_num) (by simp only [Format.double]; omega)
  have hrounds := Format.rounds_ofDecimal Format.proper_double false ⟨c, -(k : Int)⟩
  rw [Decimal.value_eq, zpow_neg, zpow_natCast, ← div_eq_mul_inv, hvalue] at hrounds
  rw [hrounds.unique Format.proper_double hq.le ⟨_, hgrid.isNearest, rfl⟩, Format.ofMagnitude,
    if_neg hq.ne', if_neg hlarge.not_ge]
  rfl

/-! ## Every number of single precision

The denominator of a single is a power of two, and divides a power of ten. So
the single is a decimal, and can be written with all of its digits.
-/

/-- The denominator of a number of single precision divides a power of ten with
as many zeros as the number has binary digits after the point. -/
theorem den_dvd_of_single {q : Rat} (hq : 0 < q) (h : Format.single.ofRat q = .finite q) :
    q.den ∣ 10 ^ max 1 q.den.log2 := by
  obtain ⟨m, e, rfl, -, -, he, -⟩ := Format.exists_of_single hq h
  obtain ⟨j, rfl⟩ : ∃ j : Nat, e = (j : Int) - (149 : Nat) := ⟨(e + 149).toNat, by omega⟩
  have hquotient : (m * 2 ^ ((j : Int) - (149 : Nat)) : Rat) =
      Rat.divInt ((m * 2 ^ j : Nat) : Int) ((2 ^ 149 : Nat) : Int) := by
    rw [Rat.divInt_eq_div, zpow_sub₀ (by norm_num), zpow_natCast, zpow_natCast]
    push_cast
    ring
  have hden : (m * 2 ^ ((j : Int) - (149 : Nat)) : Rat).den ∣ 2 ^ 149 := by
    have := Rat.den_dvd ((m * 2 ^ j : Nat) : Int) ((2 ^ 149 : Nat) : Int)
    rw [← hquotient] at this
    exact_mod_cast this
  obtain ⟨n, -, hn⟩ := (Nat.dvd_prime_pow Nat.prime_two).1 hden
  rw [hn, Nat.log2_two_pow]
  exact (pow_dvd_pow 2 (le_max_right 1 n)).trans (pow_dvd_pow_of_dvd (by decide) _)

/-- A number larger than every double is read as an infinity; this one has 401
digits. -/
theorem ofDecimal_infinity :
    Format.double.ofDecimal false ⟨Nat.pow 10 200 * Nat.pow 10 200, -((1 : Nat) : Int)⟩ =
      .infinity false := by
  have hc : 0 < Nat.pow 10 200 * Nat.pow 10 200 := by decide
  have horder : (344 : Int) <
      (⟨Nat.pow 10 200 * Nat.pow 10 200, -((1 : Nat) : Int)⟩ : Decimal).order + 1 := by
    refine (zpow_lt_zpow_iff_right₀ (by norm_num : (1 : Rat) < 10)).1
      (lt_of_le_of_lt ?_ (Decimal.order_spec hc).2)
    calc (10 : Rat) ^ (344 : Int) = 10 ^ (172 : Int) * 10 ^ (172 : Int) := by
          rw [← zpow_add₀ (by norm_num)]
          rfl
      _ ≤ 10 ^ 200 * 10 ^ 200 / 10 ^ 1 := by norm_num
      _ = _ := by
          rw [Decimal.value_eq, zpow_neg, zpow_natCast, ← div_eq_mul_inv, Nat.cast_mul, Nat.pow_eq,
            Nat.cast_pow, Nat.cast_ofNat]
  rw [Format.ofDecimal, if_neg hc.ne', if_pos]
  simp only [Format.double]
  omega

/-- **Every real of single precision can be written so that it is read back.** A
single has a power of two for its denominator, so enough digits behind the point
give it exactly; an infinity is written as a number that is too large. -/
theorem Ieee.isSpelling_exactText : IsSpelling exactText := by
  intro x hx hnegative
  cases x with
  | nan => exact absurd rfl hx.number
  | negativeZero => cases hnegative
  | infinity negative =>
    obtain rfl : negative = false := hnegative
    exact spells_pointedText (by decide) ofDecimal_infinity rfl
  | finite q =>
    have hk : 0 < max 1 q.den.log2 := by omega
    have hnum : 0 ≤ q.num := by simpa [isNegative] using hnegative
    rcases (Rat.num_nonneg.1 hnum).eq_or_lt with rfl | hq
    · exact spells_pointedText (by decide) rfl rfl
    · refine spells_pointedText hk (ofDecimal_of_single hq hx.single ?_) hx.single
      obtain ⟨r, hr⟩ := den_dvd_of_single hq hx.single
      have hden : (q.den : Rat) ≠ 0 := by exact_mod_cast q.den_nz
      -- the power of ten is a multiple of the denominator
      have hquotient : Nat.pow 10 (max 1 q.den.log2) / q.den = r := by
        rw [Nat.pow_eq, hr, Nat.mul_div_cancel_left _ q.den_pos]
      have hpow : (10 : Rat) ^ max 1 q.den.log2 = q.den * r := by exact_mod_cast hr
      have hr' : (r : Rat) ≠ 0 := by
        rintro h
        rw [h, mul_zero] at hpow
        exact absurd hpow (by positivity)
      have hnum' : ((q.num.natAbs : Nat) : Rat) = q.num := by
        rw [← Int.cast_natCast, Int.natAbs_of_nonneg hnum]
      rw [hquotient, hpow, Nat.cast_mul, hnum', mul_div_mul_right _ _ hr', Rat.num_div_den]

/-- Numerals stand for the reals of single precision, and for no other ones. -/
theorem Ieee.isSingle_iff {x : Ieee} (hnumber : x ≠ nan) (hnegative : x.isNegative = false) :
    x.IsSingle ↔ ∃ s, Numeral.Spells s x := by
  constructor
  · exact fun h => ⟨exactText x, isSpelling_exactText x h hnegative⟩
  · rintro ⟨s, hs⟩
    obtain ⟨y, -, rfl⟩ := Option.map_eq_some_iff.1 hs.value
    exact ⟨hnumber, Format.round_round (by decide) y⟩

end Shank
