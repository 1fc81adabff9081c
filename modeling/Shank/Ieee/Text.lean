/-
# Texts of floating-point numbers

Two written forms are in use.

| form | digits | positional below |
| --- | --- | --- |
| `singleText` | the fewest, at most 9, for which the nearest decimal reads back as the same single | `10^digits` |
| `doubleText` | the fewest, at most 17, for which a neighbouring decimal reads back as the same double | `10^16` |

The single form takes, for each number of digits, the decimal nearest to the
number, also where another one of as many digits would read back and this one
does not; the double form looks at both neighbours and takes the nearer of those
that read back. A numeral is always read as a double first, and then rounded to
a single.
-/

import Shank.Decimal

namespace Shank
namespace Ieee

/-- A single from a double: what a decimal means as a real value. -/
def singleOfDecimal (negative : Bool) (d : Decimal) : Ieee :=
  Format.single.round (Format.double.ofDecimal negative d)

/-- The first candidate from `count` digits on that satisfies `ok`, with its
number of digits; the one tried last when none does. -/
def firstCandidate (candidate : Nat → Decimal) (ok : Decimal → Bool) :
    Nat → Nat → Nat × Decimal
  | 0, count => (count, candidate count)
  | more + 1, count =>
    let d := candidate count
    if ok d then (count, d) else firstCandidate candidate ok more (count + 1)

/-- The text of a number that is not finite, or zero. -/
def specialText (x : Ieee) : List Char :=
  match x with
  | nan => ['n', 'a', 'n']
  | infinity negative => if negative then ['-', 'i', 'n', 'f'] else ['i', 'n', 'f']
  | negativeZero => ['-', '0', '.', '0']
  | finite _ => ['0', '.', '0']

/-- The text of a real value: the first of the roundings to 1, 2, …, 9 digits
that reads back. -/
def singleText (x : Ieee) : String :=
  String.ofList <|
    match x with
    | finite q =>
      if q = 0 then specialText x
      else
        let negative : Bool := q.num < 0
        let (count, d) :=
          firstCandidate (fun count => Decimal.nearest count q.num.natAbs q.den)
            (fun d => singleOfDecimal negative d == x) 8 1
        (if negative then ['-'] else []) ++ d.text count
    | x => specialText x

/-- The decimal with a given number of digits that reads back as a double and is
nearest to it; of two equally near ones the even one. -/
def readsBack? (negative : Bool) (n d count : Nat) : Option Decimal :=
  let (low, high) := Decimal.neighbours count n d
  let target := Format.double.roundQuotient negative n d
  let back (x : Decimal) : Bool := Format.double.ofDecimal negative x == target
  if back low then
    if back high && Decimal.nearest count n d == high then some high else some low
  else if back high then some high
  else none

/-- The first number of digits, from `count` on, at which a decimal reads back. -/
def shortest (negative : Bool) (n d : Nat) : Nat → Nat → Decimal
  | 0, count => Decimal.nearest count n d
  | more + 1, count =>
    match readsBack? negative n d count with
    | some x => x
    | none => shortest negative n d more (count + 1)

/-- The text of a double: the fewest digits that read back as the same double. -/
def doubleText (x : Ieee) : String :=
  String.ofList <|
    match x with
    | finite q =>
      if q = 0 then specialText x
      else
        let negative : Bool := q.num < 0
        (if negative then ['-'] else []) ++
          (shortest negative q.num.natAbs q.den 16 1).text 16
    | x => specialText x

end Ieee
end Shank
