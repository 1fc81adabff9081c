/-
# Declared types and ranges

A declaration gives a scalar kind, with a range if the kind can have one, or an
array with its bounds and the kind of its elements.

| kind | what a range limits | bounds |
| --- | --- | --- |
| integer | the value | integers |
| real | the value | integers or reals |
| string | the length | integers |
| character, boolean | no range | |

Array elements have no range. A bound of a real range keeps the form it was
written in, which shows when it is reported; a comparison is exact, whatever the
forms.
-/

import Shank.Scalar

namespace Shank

/-- Inclusive integer bounds. -/
structure Interval where
  low : Int
  high : Int
  deriving DecidableEq, Repr

/-- A number as it is written in a range. -/
inductive Bound
  | whole (value : Int)
  | real (value : Ieee)
  deriving DecidableEq, Repr

/-- Inclusive bounds of a real range. -/
structure RealInterval where
  low : Bound
  high : Bound
  deriving DecidableEq, Repr

/-- The type of a scalar variable. -/
inductive ScalarType
  | integer (range : Option Interval)
  | real (range : Option RealInterval)
  | string (lengths : Option Interval)
  | character
  | boolean
  deriving DecidableEq, Repr

/-- The type of a variable. -/
inductive DeclaredType
  | scalar (type : ScalarType)
  | array (bounds : Interval) (element : Kind)
  deriving DecidableEq, Repr

namespace Interval

/-- Is a number within the bounds? -/
def contains (r : Interval) (n : Int) : Bool :=
  r.low ≤ n && n ≤ r.high

/-- The number of integers within the bounds. -/
def size (r : Interval) : Nat :=
  (r.high - r.low + 1).toNat

/-- Bounds as they are told in a report: both integers in decimal digits, the
lower one first. -/
def text (r : Interval) : String :=
  s!"{Numeral.integerText r.low} to {Numeral.integerText r.high}"

/-- The lower bound if zero is below it, else the upper one if zero is above it,
else zero. -/
def clampZero (r : Interval) : Int :=
  min (max 0 r.low) r.high

end Interval

namespace Bound

/-- The number meant. -/
def number : Bound → Ieee
  | whole n => .finite n
  | real x => x

/-- A bound as it is told in a report. It keeps the form it was written in: an
integer shows its digits, a real the text of the double it was read as. -/
def text : Bound → String
  | whole n => Numeral.integerText n
  | real x => x.doubleText

/-- Order of the numbers meant. -/
def lt (a b : Bound) : Bool := a.number.lt b.number

/-- Equality of the numbers meant. -/
def eq (a b : Bound) : Bool := a.number.eq b.number

end Bound

namespace RealInterval

/-- Is a number within the bounds? NaN is not. -/
def contains (r : RealInterval) (x : Ieee) : Bool :=
  r.low.number.le x && x.le r.high.number

/-- Real bounds as they are told in a report, each in its own form. -/
def text (r : RealInterval) : String :=
  s!"{r.low.text} to {r.high.text}"

/-- The lower bound if zero is below it, else the upper one if zero is above it,
else zero. -/
def clampZero (r : RealInterval) : Bound :=
  let zero := Bound.real (.finite 0)
  let raised := if zero.lt r.low then r.low else zero
  if r.high.lt raised then r.high else raised

end RealInterval

namespace ScalarType

/-- The kind that values of a type have. Ranges do not count. -/
def kind : ScalarType → Kind
  | integer _ => .integer
  | real _ => .real
  | string _ => .string
  | character => .character
  | boolean => .boolean

/-- The type of a kind without a range. -/
def ofKind : Kind → ScalarType
  | .integer => integer none
  | .real => real none
  | .string => string none
  | .character => character
  | .boolean => boolean

/-- The type of a kind has that kind. -/
theorem kind_ofKind (k : Kind) : (ofKind k).kind = k := by
  cases k <;> rfl

end ScalarType

/-- What a variable of a declared type is: a scalar of its kind, or an array,
whatever its bounds and elements are. -/
def DeclaredType.tag : DeclaredType → Tag
  | scalar type => .scalar type.kind
  | array _ _ => .array

end Shank
