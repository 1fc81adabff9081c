/-
# The written form of a decimal

A decimal is written without the zeros at its end, positional or scientific, and
with a point or a power in any case (`Decimal.text`). The usual rendering to
some number of digits is the same without `.0` (`Decimal.general`);
`Ieee.completed` puts that in again. Both are numerals of the number that the
decimal stands for (`writes_text`, `writes_general`).

The digits are the coefficient of the decimal, and where the point comes to
stand is told by its exponent. Each form is shown to be a numeral in the sense
of `Numeral.Written`, so all that is known of reading numerals applies to it.
-/

import Mathlib.Data.List.TakeWhile
import Shank.Ieee.Text
import Shank.Proofs.Numeral.Written

namespace Shank

open Numeral

/-- The text is a numeral of the number `q`, with any sign in front. -/
def Numeral.Writes (cs : List Char) (q : Rat) : Prop :=
  ∀ sign, ∃ w : Written, w.sign = sign ∧ w.body = cs ∧ w.magnitude = q

/-- A numeral with a character that is no digit is no integer. -/
theorem Numeral.Written.tail_ne_nil {w : Written} {c : Char} (hc : c ∈ w.body)
    (h : Text.isDecimal c = false) : w.tail ≠ [] := by
  intro hnil
  rw [Written.body, hnil, List.append_nil] at hc
  rw [w.isDecimal c (List.mem_append_left _ hc)] at h
  cases h

/-- What is dropped at the end. -/
theorem Text.exists_trimEnd_append (p : Char → Bool) (cs : List Char) :
    ∃ rest, cs = trimEnd p cs ++ rest ∧ ∀ c ∈ rest, p c = true := by
  refine ⟨(cs.reverse.takeWhile p).reverse, ?_, fun c hc => ?_⟩
  · rw [trimEnd, ← List.reverse_append, List.takeWhile_append_dropWhile, List.reverse_reverse]
  · exact List.mem_takeWhile_imp (List.mem_reverse.1 hc)

/-- Zeros in front of digits are digits. -/
theorem isDigit_zeros_append {ds : List Char} (hds : ∀ c ∈ ds, c.isDigit = true) (k : Nat) :
    ∀ c ∈ List.replicate k '0' ++ ds, c.isDigit = true := by
  intro c hc
  rcases List.mem_append.1 hc with hc | hc
  · rw [List.eq_of_mem_replicate hc]
    decide
  · exact hds c hc

namespace Decimal

/-! ## Digits

The digits of a decimal are its coefficient without the zeros at its end. They
and the exponent of the first of them are all that the layout needs.
-/

section Digits

variable {x : Decimal} (hx : 0 < x.coefficient)

include hx

/-- The digits of a coefficient are those that are written, and zeros. -/
theorem exists_digits_append :
    ∃ k, Nat.toDigits 10 x.coefficient = x.digits ++ List.replicate k '0' ∧ x.digits ≠ [] := by
  obtain ⟨rest, hsplit, hrest⟩ :=
    Text.exists_trimEnd_append (· == '0') (Nat.toDigits 10 x.coefficient)
  have hzeros : rest = List.replicate rest.length '0' :=
    List.eq_replicate_of_mem fun c hc => by simpa using hrest c hc
  rw [digits]
  split
  · rename_i hnil
    rw [hnil, List.nil_append, hzeros] at hsplit
    have hnumber := number_toDigits x.coefficient
    rw [hsplit, number_zeros] at hnumber
    omega
  · rename_i ds hne
    exact ⟨rest.length, by rwa [← hzeros], fun h => hne (by rw [h])⟩

/-- At least one digit is written. -/
theorem digits_ne_nil : x.digits ≠ [] := by
  obtain ⟨-, -, h⟩ := exists_digits_append hx
  exact h

/-- What is written of a coefficient are digits. -/
theorem isDigit_of_mem_digits {c : Char} (hc : c ∈ x.digits) : c.isDigit = true := by
  obtain ⟨k, h, -⟩ := exists_digits_append hx
  exact Nat.isDigit_of_mem_toDigits (by decide) (by decide) (h ▸ List.mem_append_left _ hc)

/-- **The digits and the order tell the number.** -/
theorem value_eq_digits : x.value = number x.digits * 10 ^ (x.order + 1 - x.digits.length) := by
  obtain ⟨k, h, -⟩ := exists_digits_append hx
  have hcoefficient : x.coefficient = number x.digits * 10 ^ k := by
    rw [← number_toDigits x.coefficient, h, number_append, number_zeros, List.length_replicate,
      add_zero]
  have hcount : digitCount x.coefficient = x.digits.length + k := by
    rw [digitCount, h, List.length_append, List.length_replicate]
  have horder : x.order + 1 - x.digits.length = k + x.exponent := by
    rw [order, hcount]
    push_cast
    ring
  rw [value_eq, horder, zpow_add₀ (by norm_num), zpow_natCast]
  nth_rewrite 1 [hcoefficient]
  push_cast
  ring

end Digits

/-! ## Forms

A decimal is written with a point among its digits, or behind zeros, or with an
exponent. Each of these is a numeral of the same number, and which one is chosen
depends on the exponent only.
-/

/-- Digits with the point after the first `whole` of them, filled up with zeros;
without a point if there is nothing after it. -/
def bare (whole : Nat) (ds : List Char) : List Char :=
  let left := ds.take whole
  let right := ds.drop whole
  left ++ List.replicate (whole - left.length) '0' ++ (if right.isEmpty then [] else '.' :: right)

/-- A decimal in positional form as `form` has it, if the exponent of the first
digit is not less than -4 and less than `limit`; else in scientific form. -/
def layout (form : Nat → List Char → List Char) (limit : Int) (x : Decimal) : List Char :=
  let k := x.order
  let ds := x.digits
  if k < -4 ∨ limit ≤ k then scientific k ds
  else if k < 0 then form 1 (List.replicate (-k).toNat '0' ++ ds)
  else form (k.toNat + 1) ds

/-- The text of a decimal is the layout in which the positional form has a point
in any case. -/
theorem text_eq_layout (limit : Int) (x : Decimal) : x.text limit = x.layout positional limit :=
  rfl

/-- The usual rendering of a decimal that was rounded to `count` digits: without
zeros at the end, and without a point if there is nothing after it. -/
def general (count : Nat) (x : Decimal) : List Char :=
  x.layout bare count

section Forms

variable {ds : List Char} (hds : ∀ c ∈ ds, c.isDigit = true)

include hds

/-- Digits of the Latin script are decimal ones, so a numeral may be written
with them. -/
theorem isDecimal_of_digits : ∀ c ∈ ds, Text.isDecimal c = true :=
  fun c hc => Text.isDecimal_of_isDigit (hds c hc)

/-- **The scientific form is a numeral**: a digit, the others after a point if
there are any, and the exponent of the first one. -/
theorem writes_scientific (hne : ds ≠ []) (k : Int) :
    Writes (scientific k ds) (number ds * 10 ^ (k + 1 - ds.length)) := by
  intro sign
  obtain ⟨d, es, rfl⟩ := List.exists_cons_of_ne_nil hne
  have hdecimal := isDecimal_of_digits hds
  -- the exponent, in two digits at least
  let p : Power :=
    { sign := some (decide (k < 0))
      digits := List.replicate (2 - (Nat.toDigits 10 k.natAbs).length) '0' ++ Nat.toDigits 10 k.natAbs
      isDecimal := isDecimal_of_digits (isDigit_zeros_append (fun c hc =>
        Nat.isDigit_of_mem_toDigits (by decide) (by decide) hc) _)
      ne_nil := by simp }
  have htext : p.text = exponentText k := by
    by_cases hk : k < 0 <;> simp [p, Power.text, exponentText, signText, hk]
  have hexponent : p.exponent = k := by
    have hnumber : number p.digits = k.natAbs := by
      rw [number_append, number_zeros, number_toDigits, Nat.zero_mul, Nat.zero_add]
    rw [Power.exponent, hnumber]
    by_cases hk : k < 0
    · simp only [p, isMinus, hk, decide_true, beq_self_eq_true, if_true]
      omega
    · simp only [p, isMinus, hk, decide_false]
      rw [if_neg (by decide)]
      omega
  -- the digits are counted from behind the point, so their number comes off the
  -- exponent
  have hmagnitude (w : Written) (hw : w.whole ++ w.decimals = d :: es) (hp : w.power = some p) :
      w.decimals.length = es.length →
      w.magnitude = number (d :: es) * 10 ^ (k + 1 - (d :: es).length) := by
    intro hlength
    rw [w.magnitude_eq, hw, hlength, Written.exponent, hp, Option.map_some, Option.getD_some, hexponent,
      List.length_cons]
    push_cast
    congr 2
    ring
  cases es with
  | nil =>
    let w : Written :=
      { sign, whole := [d], fraction := none, power := some p, isDecimal := hdecimal, ne_nil := by simp }
    exact ⟨w, rfl, by simp [w, Written.body, Written.tail, scientific, htext], hmagnitude w rfl rfl rfl⟩
  | cons e es =>
    let w : Written :=
      { sign, whole := [d], fraction := some (e :: es), power := some p, isDecimal := hdecimal,
        ne_nil := by simp }
    exact ⟨w, rfl, by simp [w, Written.body, Written.tail, scientific, htext], hmagnitude w rfl rfl rfl⟩

/-- More digits than stand before the point. -/
theorem writes_split {whole : Nat} (hlt : whole < ds.length) :
    Writes (ds.take whole ++ '.' :: ds.drop whole) (number ds * 10 ^ ((whole : Int) - ds.length)) := by
  intro sign
  let w : Written :=
    { sign, whole := ds.take whole, fraction := some (ds.drop whole),
      isDecimal := by
        rw [Option.getD_some, List.take_append_drop]
        exact isDecimal_of_digits hds
      ne_nil := by
        rw [Option.getD_some, List.take_append_drop]
        exact List.ne_nil_of_length_pos (by omega) }
  refine ⟨w, rfl, by simp [w, Written.body, Written.tail], ?_⟩
  have hall : w.whole ++ w.decimals = ds := List.take_append_drop _ _
  have hlength : w.decimals.length = ds.length - whole := List.length_drop
  rw [w.magnitude_eq, hall, hlength, show w.exponent = 0 from rfl]
  congr 2
  omega

/-- No more digits than stand before the point: there are zeros, and a zero or
nothing after the point. The zeros multiply by as many tens, and what is after
the point adds nothing. -/
theorem writes_filled {whole : Nat} (hle : ds.length ≤ whole) (hpos : 0 < whole)
    (fraction : Option (List Char)) (hfraction : fraction = none ∨ fraction = some ['0']) :
    Writes (ds ++ List.replicate (whole - ds.length) '0' ++ fraction.elim [] ('.' :: ·))
      (number ds * 10 ^ ((whole : Int) - ds.length)) := by
  intro sign
  obtain ⟨k, rfl⟩ := Nat.exists_eq_add_of_le hle
  rw [Nat.add_sub_cancel_left]
  let w : Written :=
    { sign, whole := ds ++ List.replicate k '0', fraction,
      isDecimal := fun c hc => by
        rcases List.mem_append.1 hc with hc | hc
        · rcases List.mem_append.1 hc with hc | hc
          · exact isDecimal_of_digits hds c hc
          · rw [List.eq_of_mem_replicate hc]
            decide
        · rcases hfraction with rfl | rfl
          · cases hc
          · rw [List.mem_singleton.1 hc]
            decide
      ne_nil := List.append_ne_nil_of_left_ne_nil (List.ne_nil_of_length_pos (by simpa using hpos)) _ }
  refine ⟨w, rfl, by simp [w, Written.body, Written.tail], ?_⟩
  have hwhole : number w.whole = number ds * 10 ^ k := by
    rw [number_append, number_zeros, List.length_replicate, add_zero]
  have hdecimals : number w.decimals = 0 := by
    rcases hfraction with rfl | rfl <;> rfl
  rw [Written.magnitude, hwhole, hdecimals, show w.exponent = 0 from rfl,
    show ((ds.length + k : Nat) : Int) - ds.length = k by omega, zpow_natCast]
  push_cast
  ring

/-- The positional form without a point at the end is a numeral. -/
theorem writes_bare {whole : Nat} (hpos : 0 < whole) :
    Writes (bare whole ds) (number ds * 10 ^ ((whole : Int) - ds.length)) := by
  rw [bare]
  rcases Nat.lt_or_ge whole ds.length with hlt | hle
  · simpa [hlt.not_ge, Nat.min_eq_left hlt.le] using writes_split hds hlt
  · simpa [hle, List.take_of_length_le hle] using writes_filled hds hle hpos none (.inl rfl)

/-- The positional form with a point in any case is a numeral of the same
number. -/
theorem writes_positional {whole : Nat} (hpos : 0 < whole) :
    Writes (positional whole ds) (number ds * 10 ^ ((whole : Int) - ds.length)) := by
  rw [positional]
  rcases Nat.lt_or_ge whole ds.length with hlt | hle
  · simpa [hlt.not_ge, Nat.min_eq_left hlt.le] using writes_split hds hlt
  · simpa [hle, List.take_of_length_le hle] using writes_filled hds hle hpos (some ['0']) (.inr rfl)

end Forms

section Value

variable {x : Decimal} (hx : 0 < x.coefficient)

include hx

/-- **A written decimal is a numeral of its number**, if the positional form is
one of the digits. -/
theorem writes_layout {form : Nat → List Char → List Char}
    (hform : ∀ {ds : List Char}, (∀ c ∈ ds, c.isDigit = true) → ∀ {whole : Nat}, 0 < whole →
      Writes (form whole ds) (number ds * 10 ^ ((whole : Int) - ds.length))) (limit : Int) :
    Writes (x.layout form limit) x.value := by
  have hdigits := fun c => isDigit_of_mem_digits hx (c := c)
  rw [value_eq_digits hx, layout]
  split
  · exact writes_scientific hdigits (digits_ne_nil hx) _
  split
  · rename_i hneg
    have h := hform (isDigit_zeros_append hdigits (-x.order).toNat) Nat.one_pos
    rw [number_append, number_zeros, Nat.zero_mul, Nat.zero_add, List.length_append,
      List.length_replicate] at h
    rwa [show x.order + 1 - x.digits.length =
      ((1 : Nat) : Int) - ((-x.order).toNat + x.digits.length : Nat) by omega]
  · have h := hform hdigits (Nat.succ_pos x.order.toNat)
    rwa [show x.order + 1 - x.digits.length = ((x.order.toNat + 1 : Nat) : Int) - x.digits.length by
      omega]

/-- **The text of a decimal is a numeral of its number**, from whatever exponent
on it is scientific. -/
theorem writes_text (limit : Int) : Writes (x.text limit) x.value :=
  writes_layout hx writes_positional limit

/-- **The usual rendering of a decimal is a numeral of its number.** -/
theorem writes_general (count : Nat) : Writes (x.general count) x.value :=
  writes_layout hx writes_bare count

end Value

end Decimal

/-! ## Completion

A text that could be an integer gets `.0` behind it. The form that the model
writes has the point from the start, and is shown to be the usual rendering with
that put behind.
-/

/-- Does a character show that a text is no integer: as a point, an exponent, or
part of the name of what is not finite? -/
def Ieee.showsReal (c : Char) : Bool :=
  c == '.' || c == 'e' || c == 'i' || c == 'n'

/-- A text of a real with `.0` at the end if nothing else shows that it is one. -/
def Ieee.completed (cs : List Char) : List Char :=
  if cs.any showsReal then cs else cs ++ ['.', '0']

/-- A text that shows by itself that it is a real is complete. -/
theorem Ieee.completed_of_mem {cs : List Char} {c : Char} (hc : c ∈ cs) (h : showsReal c = true) :
    completed cs = cs :=
  if_pos (List.any_eq_true.2 ⟨c, hc, h⟩)

/-- A digit does not show that a text is a real. -/
theorem Ieee.showsReal_of_isDigit {c : Char} (h : c.isDigit = true) : showsReal c = false := by
  obtain ⟨hlow, hhigh⟩ := Char.isDigit_iff_toNat.1 h
  simp only [showsReal, Bool.or_eq_false_iff, beq_eq_false_iff_ne]
  refine ⟨⟨⟨?_, ?_⟩, ?_⟩, ?_⟩ <;> rintro rfl <;> revert hlow hhigh <;> decide

namespace Decimal

/-- The scientific form shows by its `e` that it is a real. -/
theorem e_mem_scientific (k : Int) (ds : List Char) : 'e' ∈ scientific k ds := by
  rcases ds with _ | ⟨d, _ | ⟨e, es⟩⟩ <;> simp [scientific, exponentText]

/-- The text has a point or an exponent. -/
theorem exists_mem_text (limit : Int) (x : Decimal) : ∃ c ∈ x.text limit, c = '.' ∨ c = 'e' := by
  rw [text_eq_layout, layout]
  split
  · exact ⟨'e', e_mem_scientific _ _, .inr rfl⟩
  split <;> exact ⟨'.', by simp [positional], .inl rfl⟩

section Completed

variable {sign : List Char} (hsign : ∀ c ∈ sign, Ieee.showsReal c = false)

include hsign

/-- Digits are completed with a point and a zero, if there is no point yet. A
sign does not count as one, nor does a digit. -/
theorem completed_bare {ds : List Char} (hds : ∀ c ∈ ds, c.isDigit = true) (whole : Nat) :
    Ieee.completed (sign ++ bare whole ds) = sign ++ positional whole ds := by
  rw [bare, positional]
  cases hright : ds.drop whole with
  | cons c cs => exact Ieee.completed_of_mem (c := '.') (by simp) (by decide)
  | nil =>
    have hnone : ∀ c ∈ sign ++
        (ds.take whole ++ List.replicate (whole - (ds.take whole).length) '0'),
        Ieee.showsReal c = false := by
      intro c hc
      rw [List.mem_append, List.mem_append] at hc
      rcases hc with hc | hc | hc
      · exact hsign c hc
      · exact Ieee.showsReal_of_isDigit (hds c (List.mem_of_mem_take hc))
      · rw [List.eq_of_mem_replicate hc]
        decide
    rw [List.isEmpty_nil, if_pos rfl, if_pos rfl, List.append_nil, Ieee.completed, if_neg]
    · simp
    · intro hany
      obtain ⟨c, hc, hshows⟩ := List.any_eq_true.1 hany
      rw [hnone c hc] at hshows
      cases hshows

/-- **The text of a decimal is the usual rendering, completed.** -/
theorem completed_general {x : Decimal} (hx : 0 < x.coefficient) (count : Nat) :
    Ieee.completed (sign ++ x.general count) = sign ++ x.text count := by
  have hdigits := fun c => isDigit_of_mem_digits hx (c := c)
  rw [text_eq_layout, general, layout, layout]
  split
  · exact Ieee.completed_of_mem (List.mem_append_right _ (e_mem_scientific _ _)) (by decide)
  split
  · exact completed_bare hsign (isDigit_zeros_append hdigits _) 1
  · exact completed_bare hsign hdigits _

end Completed

end Decimal
end Shank
