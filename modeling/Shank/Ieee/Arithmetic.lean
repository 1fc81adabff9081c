/-
# Arithmetic of a format

Every operation is computed on the exact rationals and rounded once to the
format. The cases without a rational follow the usual rules: an infinity absorbs
numbers, opposite infinities cancel to NaN, and a sum that vanishes is `+0`
unless both terms are `-0`. A remainder needs no rounding; it has the sign of
the dividend, and an infinite dividend has none.
-/

import Shank.Ieee.Rounding

namespace Shank
namespace Format

/-- The sum, rounded. -/
def add (f : Format) (x y : Ieee) : Ieee :=
  match x, y with
  | .nan, _ => .nan
  | _, .nan => .nan
  | .infinity a, .infinity b => if a = b then .infinity a else .nan
  | .infinity a, _ => .infinity a
  | _, .infinity b => .infinity b
  | .negativeZero, .negativeZero => .negativeZero
  | .negativeZero, .finite q => f.ofRat q
  | .finite p, .negativeZero => f.ofRat p
  | .finite p, .finite q => f.ofRat (p + q)

/-- The difference, rounded. -/
def sub (f : Format) (x y : Ieee) : Ieee :=
  f.add x y.neg

/-- The product, rounded. -/
def mul (f : Format) (x y : Ieee) : Ieee :=
  let negative := x.isNegative != y.isNegative
  match x.rational?, y.rational? with
  | some p, some q =>
    if p = 0 ∨ q = 0 then Ieee.zero negative
    else
      let r := p * q
      f.roundQuotient negative r.num.natAbs r.den
  | some p, none => if y.isNaN || p = 0 then .nan else .infinity negative
  | none, some q => if x.isNaN || q = 0 then .nan else .infinity negative
  | none, none => if x.isNaN || y.isNaN then .nan else .infinity negative

/-- The quotient, rounded. -/
def div (f : Format) (x y : Ieee) : Ieee :=
  let negative := x.isNegative != y.isNegative
  match x.rational?, y.rational? with
  | some p, some q =>
    if q = 0 then (if p = 0 then .nan else .infinity negative)
    else if p = 0 then Ieee.zero negative
    else
      let r := p / q
      f.roundQuotient negative r.num.natAbs r.den
  | some _, none => if y.isNaN then .nan else Ieee.zero negative
  | none, some _ => if x.isNaN then .nan else .infinity negative
  | none, none => .nan

/-- The root of `n / d` cut off after enough bits for the format, and whether
anything was cut off: `(r, exact, s)` means `r / 2^s` at or just below the root. -/
def rootBits (f : Format) (n d : Nat) : Nat × Bool × Nat :=
  let s := f.precision + 2 + (d.log2 + 1) / 2
  let a := n * Nat.pow 4 s
  let r := Nat.sqrt (a / d)
  (r, r * r * d == a, s)

/-- The square root, rounded; a negative number has none, a zero keeps its sign. -/
def sqrt (f : Format) (x : Ieee) : Ieee :=
  match x with
  | .nan => .nan
  | .infinity negative => if negative then .nan else x
  | .negativeZero => x
  | .finite q =>
    if q = 0 then x
    else if q < 0 then .nan
    else
      let (r, exact, s) := f.rootBits q.num.natAbs q.den
      -- one more bit tells a root that was cut off from one that was not
      f.roundQuotient false (2 * r + if exact then 0 else 1) (Nat.pow 2 (s + 1))

end Format

namespace Ieee

/-- The remainder of a division toward zero. An infinite dividend and a zero
divisor have none. -/
def remainder? (x y : Ieee) : Option Ieee :=
  match x, y with
  | nan, _ => some nan
  | _, nan => some nan
  | infinity _, _ => none
  | x, infinity _ => some x
  | x, y =>
    match x.rational?, y.rational? with
    | some p, some q =>
      if q = 0 then none
      else
        let t := p / q
        let r := p - q * (Int.tdiv t.num t.den : Int)
        some (if r = 0 then zero x.isNegative else finite r)
    | _, _ => none

end Ieee
end Shank
