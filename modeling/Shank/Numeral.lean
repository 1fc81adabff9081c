/-
# Reading numerals

The digits of a numeral are decimal digits of any script, with single low lines
between them if one likes: `1_000`. White space may stand around it, and a sign
in front.

| numeral | form |
| --- | --- |
| integer | digits, at most `longestInteger` of them |
| real | digits with a point somewhere or nowhere, then perhaps `e`, a sign and digits |
| real | `inf`, `infinity` or `nan` in any case |

A real numeral stands for the double nearest to it.
-/

import Shank.Decimal
import Shank.Text.Digit

namespace Shank
namespace Numeral

/-- Why a text is no integer numeral. -/
inductive Refusal
  | malformed
  | tooLong (digits : Nat)
  deriving DecidableEq, Repr

/-- The largest number of digits an integer numeral may have. -/
def longestInteger : Nat := 4300

/-- The digits a text starts with, single low lines between them left out, and
what follows. -/
def digitRun : List Char → List Nat × List Char
  | [] => ([], [])
  | c :: cs =>
    match Text.digit? c with
    | none => ([], c :: cs)
    | some d =>
      match cs with
      | '_' :: c' :: cs' =>
        if Text.isDecimal c' then
          let (ds, rest) := digitRun (c' :: cs')
          (d :: ds, rest)
        else ([d], '_' :: c' :: cs')
      | cs =>
        let (ds, rest) := digitRun cs
        (d :: ds, rest)

/-- The number that digits stand for. -/
def ofDigits (ds : List Nat) : Nat :=
  ds.foldl (fun n d => 10 * n + d) 0

/-- The sign in front of a numeral (is it a minus?), and what follows. -/
def sign : List Char → Bool × List Char
  | '-' :: cs => (true, cs)
  | '+' :: cs => (false, cs)
  | cs => (false, cs)

/-- The integer a text stands for. -/
def integer? (s : String) : Except Refusal Int :=
  let (negative, cs) := sign (Text.trim Text.isPadding s.toList)
  match digitRun cs with
  | ([], _) => .error .malformed
  | (ds, []) =>
    if longestInteger < ds.length then .error (.tooLong ds.length)
    else .ok (if negative then -(ofDigits ds : Int) else ofDigits ds)
  | _ => .error .malformed

/-- The exponent at the end of a numeral; there may be none. -/
def exponent? : List Char → Option Int
  | [] => some 0
  | c :: cs =>
    if c = 'e' ∨ c = 'E' then
      let (negative, cs) := sign cs
      match digitRun cs with
      | ([], _) => none
      | (ds, []) => some (if negative then -(ofDigits ds : Int) else ofDigits ds)
      | _ => none
    else none

/-- The decimal that an unsigned numeral stands for. -/
def decimal? (cs : List Char) : Option Decimal :=
  let (whole, cs) := digitRun cs
  let (fraction, cs) :=
    match cs with
    | '.' :: cs => digitRun cs
    | cs => ([], cs)
  if whole.isEmpty && fraction.isEmpty then none
  else (exponent? cs).map fun e => ⟨ofDigits (whole ++ fraction), e - fraction.length⟩

/-- The real number a text stands for, as a double. -/
def real? (s : String) : Option Ieee :=
  let (negative, cs) := sign (Text.trim Text.isPadding s.toList)
  let word := String.ofList (cs.map Char.toLower)
  if word = "inf" ∨ word = "infinity" then some (.infinity negative)
  else if word = "nan" then some .nan
  else (decimal? cs).map (Format.double.ofDecimal negative)

/-- The text of an integer. -/
def integerText (n : Int) : String :=
  if n < 0 then String.ofList ('-' :: Nat.toDigits 10 n.natAbs)
  else String.ofList (Nat.toDigits 10 n.natAbs)

end Numeral
end Shank
