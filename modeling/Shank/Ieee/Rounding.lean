/-
# Rounding to a format

A binary format holds the numbers `± m · 2^e` with `m < 2^precision` and
`minExponent ≤ e ≤ maxExponent`. A rational number is rounded in one step from
its exact value: the unit `2^e` is the smallest that leaves at most `precision`
bits, the quotient by it is rounded to the nearest integer, and a quotient
half-way between two integers goes to the even one. What grows past the largest
number becomes an infinity, what shrinks to nothing a zero, both with the sign
kept.

| format | precision | minExponent | maxExponent |
| --- | ---: | ---: | ---: |
| `single` | 24 | -149 | 104 |
| `double` | 53 | -1074 | 971 |
-/

import Shank.Ieee

namespace Shank

/-- A binary floating-point format. -/
structure Format where
  precision : Nat
  minExponent : Int
  maxExponent : Int
  deriving DecidableEq, Repr

/-- The integer nearest to `n / d`; half-way between two it is the even one. -/
def roundDiv (n d : Nat) : Nat :=
  let q := n / d
  let r := n % d
  if 2 * r < d then q
  else if d < 2 * r then q + 1
  else q + q % 2

/-- A quotient that is whole is not rounded. -/
theorem roundDiv_mul {d : Nat} (h : 0 < d) (q : Nat) : roundDiv (q * d) d = q := by
  simp [roundDiv, Nat.mul_div_cancel _ h, h]

/-- `n / d` divided by `2^e`, as a numerator and a denominator. -/
def scaleDown (n d : Nat) (e : Int) : Nat × Nat :=
  if 0 ≤ e then (n, d * Nat.pow 2 e.toNat) else (n * Nat.pow 2 (-e).toNat, d)

/-- The exponent of the largest power of two that is at most `n / d`. -/
def binaryOrder (n d : Nat) : Int :=
  let k : Int := (n.log2 : Int) - d.log2
  let (a, b) := scaleDown n d k
  if b ≤ a then k else k - 1

/-- `m · 2^e` as a rational. -/
def dyadic (m : Int) (e : Int) : Rat :=
  if 0 ≤ e then ((m * Nat.pow 2 e.toNat : Int) : Rat) else mkRat m (Nat.pow 2 (-e).toNat)

namespace Format

/-- Single precision. -/
def single : Format := ⟨24, -149, 104⟩

/-- Double precision. -/
def double : Format := ⟨53, -1074, 971⟩

/-- The exponent of the unit in which `n / d` is rounded. -/
def unitExponent (f : Format) (n d : Nat) : Int :=
  max f.minExponent (binaryOrder n d - f.precision + 1)

/-- The number of the format nearest to `n / d`, with the sign given. -/
def roundQuotient (f : Format) (negative : Bool) (n d : Nat) : Ieee :=
  let e := f.unitExponent n d
  let (a, b) := scaleDown n d e
  let m := roundDiv a b
  if m = 0 then Ieee.zero negative
  else if f.maxExponent < e ∨ (e = f.maxExponent ∧ m = Nat.pow 2 f.precision) then .infinity negative
  else .finite (dyadic (if negative then -m else m) e)

/-- The number of the format nearest to a rational. -/
def ofRat (f : Format) (q : Rat) : Ieee :=
  if q = 0 then .finite 0 else f.roundQuotient (q.num < 0) q.num.natAbs q.den

/-- The number of the format nearest to an integer. -/
def ofInt (f : Format) (n : Int) : Ieee :=
  f.ofRat n

/-- The number of the format nearest to another one. -/
def round (f : Format) : Ieee → Ieee
  | .finite q => f.ofRat q
  | x => x

/-- The pattern of bits that holds a number of the format: the sign, the
exponent with its offset, and the significand without its leading one. An
infinity has the exponent past the largest; NaN has no pattern of its own. -/
def bits? (f : Format) (x : Ieee) : Option Nat :=
  let hidden := Nat.pow 2 (f.precision - 1)
  let past := (f.maxExponent - f.minExponent + 2).toNat
  let sign (negative : Bool) := if negative then (past + 1) * hidden else 0
  match x with
  | .nan => none
  | .infinity negative => some (sign negative + past * hidden)
  | .negativeZero => some (sign true)
  | .finite q =>
    let n := q.num.natAbs
    let e := f.unitExponent n q.den
    let (a, b) := scaleDown n q.den e
    let m := a / b
    let body := if m < hidden then m else (e - f.minExponent).toNat * hidden + m
    some (sign (q.num < 0) + body)

end Format
end Shank
