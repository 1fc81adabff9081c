/-
# Decimal numerals

A decimal is a coefficient times a power of ten. Three things are done with one:
it is rounded to a binary format, it is found near a given number, and it is
written down.

| written form | when, with `k` the exponent of the first digit | example |
| --- | --- | --- |
| positional, at least one digit after the point | `-4 ≤ k < limit` | `12.0`, `0.00025` |
| scientific, at least two digits of exponent | otherwise | `1e+16`, `2.5e-05` |

Zeros at the end of the coefficient are not written.
-/

import Shank.Ieee.Rounding
import Shank.Text.Blank

namespace Shank

/-- The number `coefficient · 10^exponent`. -/
structure Decimal where
  coefficient : Nat
  exponent : Int
  deriving DecidableEq, Repr

/-- `n / d` divided by `10^e`, as a numerator and a denominator. -/
def scaleDownTen (n d : Nat) (e : Int) : Nat × Nat :=
  if 0 ≤ e then (n, d * Nat.pow 10 e.toNat) else (n * Nat.pow 10 (-e).toNat, d)

/-- The number of decimal digits of a number; 0 has one. -/
def digitCount (n : Nat) : Nat :=
  (Nat.toDigits 10 n).length

/-- The exponent of the largest power of ten that is at most `n / d`. -/
def decimalOrder (n d : Nat) : Int :=
  let k : Int := (digitCount n : Int) - digitCount d
  let (a, b) := scaleDownTen n d k
  if b ≤ a then k else k - 1

namespace Decimal

/-- The exponent of the first digit. -/
def order (x : Decimal) : Int :=
  (digitCount x.coefficient : Int) - 1 + x.exponent

/-- The number meant. -/
def value (x : Decimal) : Rat :=
  if 0 ≤ x.exponent then ((x.coefficient * Nat.pow 10 x.exponent.toNat : Nat) : Rat)
  else mkRat x.coefficient (Nat.pow 10 (-x.exponent).toNat)

/-- The decimals with `count` digits just below (or at) and just above `n / d`. -/
def neighbours (count n d : Nat) : Decimal × Decimal :=
  let e := decimalOrder n d - count + 1
  let (a, b) := scaleDownTen n d e
  (⟨a / b, e⟩, ⟨a / b + 1, e⟩)

/-- The decimal with `count` digits nearest to `n / d`; half-way between two it
is the even one. -/
def nearest (count n d : Nat) : Decimal :=
  let e := decimalOrder n d - count + 1
  let (a, b) := scaleDownTen n d e
  ⟨roundDiv a b, e⟩

/-- The digits to be written: those of the coefficient without the zeros at the
end. -/
def digits (x : Decimal) : List Char :=
  match Text.trimEnd (· == '0') (Nat.toDigits 10 x.coefficient) with
  | [] => ['0']
  | ds => ds

/-- Digits with the point after the first `whole` of them, filled up with zeros. -/
def positional (whole : Nat) (ds : List Char) : List Char :=
  let left := ds.take whole
  let right := ds.drop whole
  left ++ List.replicate (whole - left.length) '0' ++ '.' :: (if right.isEmpty then ['0'] else right)

/-- The exponent of a scientific form: its sign and at least two digits. -/
def exponentText (k : Int) : List Char :=
  let ds := Nat.toDigits 10 k.natAbs
  'e' :: (if k < 0 then '-' else '+') :: (List.replicate (2 - ds.length) '0' ++ ds)

/-- Digits in scientific form: a point after the first if there are more. -/
def scientific (k : Int) : List Char → List Char
  | [] => exponentText k
  | [d] => d :: exponentText k
  | d :: ds => d :: '.' :: (ds ++ exponentText k)

/-- The written form of a decimal. -/
def text (limit : Int) (x : Decimal) : List Char :=
  let k := x.order
  let ds := x.digits
  if k < -4 ∨ limit ≤ k then scientific k ds
  else if k < 0 then positional 1 (List.replicate (-k).toNat '0' ++ ds)
  else positional (k.toNat + 1) ds

end Decimal

namespace Format

/-- The number of a format nearest to a decimal with a sign. Decimals far
outside of the format are told by their order alone, so that no power of ten
grows larger than the format asks for: past the largest number since
`2^(3k) ≤ 10^k`, below half of the smallest since `10^k ≤ 2^(3k)` for `k ≤ 0`. -/
def ofDecimal (f : Format) (negative : Bool) (x : Decimal) : Ieee :=
  if x.coefficient = 0 then Ieee.zero negative
  else if f.maxExponent + f.precision ≤ 3 * x.order then .infinity negative
  else if 3 * (x.order + 1) < f.minExponent - 1 ∧ x.order + 1 ≤ 0 then Ieee.zero negative
  else if 0 ≤ x.exponent then f.roundQuotient negative (x.coefficient * Nat.pow 10 x.exponent.toNat) 1
  else f.roundQuotient negative x.coefficient (Nat.pow 10 (-x.exponent).toNat)

end Format
end Shank
