/-
# Binary floating-point data

A datum is NaN, an infinity, a zero with a sign or a nonzero rational number:

| datum | written |
| --- | --- |
| NaN (there is one) | `nan` |
| `±∞` | `infinity negative` |
| `-0` | `negativeZero` |
| any other number, `+0` included | `finite q` |

The rationals a format can hold are those that its rounding leaves alone; this
module knows nothing of formats. Order and equality are those of the numbers
meant: both zeros are equal, and NaN is neither equal to nor comparable with
anything.
-/

namespace Shank

/-- A floating-point datum. -/
inductive Ieee
  | nan
  | infinity (negative : Bool)
  | negativeZero
  | finite (value : Rat)
  deriving DecidableEq, Repr

namespace Ieee

/-- The zero of a sign. -/
def zero (negative : Bool) : Ieee :=
  if negative then negativeZero else finite 0

/-- The sign of a number that is not NaN. -/
def isNegative : Ieee → Bool
  | nan => false
  | infinity negative => negative
  | negativeZero => true
  | finite q => q.num < 0

/-- Is a datum NaN? -/
def isNaN : Ieee → Bool
  | nan => true
  | _ => false

/-- The rational a finite number stands for; both zeros stand for 0. -/
def rational? : Ieee → Option Rat
  | negativeZero => some 0
  | finite q => some q
  | _ => none

/-- The datum with the same magnitude and the other sign; a zero becomes the
other zero. -/
def neg : Ieee → Ieee
  | nan => nan
  | infinity negative => infinity (!negative)
  | negativeZero => finite 0
  | finite q => if q = 0 then negativeZero else finite (-q)

/-- How two data compare as numbers; `none` when one of them is NaN. -/
def compare? (x y : Ieee) : Option Ordering :=
  match x, y with
  | nan, _ => none
  | _, nan => none
  | infinity a, infinity b => some (if a = b then .eq else if a then .lt else .gt)
  | infinity a, _ => some (if a then .lt else .gt)
  | _, infinity b => some (if b then .gt else .lt)
  | negativeZero, negativeZero => some .eq
  | negativeZero, finite q => some (if (0 : Rat) < q then .lt else if q = 0 then .eq else .gt)
  | finite p, negativeZero => some (if p < 0 then .lt else if p = 0 then .eq else .gt)
  | finite p, finite q => some (if p < q then .lt else if p = q then .eq else .gt)

/-- Equality of numbers. -/
def eq (x y : Ieee) : Bool := x.compare? y == some .eq

/-- Strict order of numbers. -/
def lt (x y : Ieee) : Bool := x.compare? y == some .lt

/-- Order of numbers. -/
def le (x y : Ieee) : Bool := x.lt y || x.eq y

/-- The number without its fraction; only finite numbers have one. -/
def truncate? (x : Ieee) : Option Int :=
  x.rational?.map fun q => Int.tdiv q.num q.den

/-- To negate twice changes nothing, zeros included. -/
theorem neg_neg (x : Ieee) : x.neg.neg = x := by
  cases x with
  | finite q =>
    by_cases h : q = 0
    · simp [neg, h]
    · have : -q ≠ 0 := fun e => h (by rw [← Rat.neg_neg q, e]; rfl)
      simp only [neg, h, this, if_false, Rat.neg_neg]
  | _ => simp [neg]

/-- Everything but NaN equals itself. -/
theorem eq_self_iff (x : Ieee) : x.eq x = true ↔ x ≠ nan := by
  cases x with
  | finite q => simp only [eq, compare?, Rat.lt_irrefl, if_false, if_true]; simp
  | _ => simp [eq, compare?]

end Ieee
end Shank
