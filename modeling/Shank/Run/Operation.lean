/-
# Operations on values

| operands | arithmetic | order |
| --- | --- | --- |
| one of them a string | the texts joined, whatever the operator | none |
| integers | exact, within 64 bits; division toward zero | of integers |
| reals | in double precision, kept in single | of numbers |
| any others | none | none |

The remainder has the sign of the dividend. Division by a zero of either kind is
a fault; the remainder of an infinity is not even a fault, but stops the run.
Values of one kind can be tested for equality, whatever the kind.
-/

import Shank.Store
import Shank.Ieee.Arithmetic

namespace Shank

/-- The quotient cut off toward zero; there is none by zero. -/
def truncatedDivide? (a b : Int) : Option Int :=
  if b = 0 then none else some (Int.tdiv a b)

namespace Operand

/-- A zero divisor is a fault. -/
def zeroDivisor : ArithOp → Cause
  | .div => .divisionByZero
  | _ => .modulusByZero

/-- Arithmetic on integers. -/
def integerArithmetic (op : ArithOp) (a b : Int) : Except Halt Scalar :=
  let exact : Except Cause Int :=
    match op with
    | .add => .ok (a + b)
    | .sub => .ok (a - b)
    | .mul => .ok (a * b)
    | .div =>
      match truncatedDivide? a b with
      | some q => .ok q
      | none => .error (zeroDivisor op)
    | .mod =>
      match truncatedDivide? a b with
      | some q => .ok (a - b * q)
      | none => .error (zeroDivisor op)
  match exact.bind fun n => (ScalarType.integer none).check (.integer n) with
  | .ok v => .ok v
  | .error c => .error (Halt.of c)

/-- Arithmetic on reals. -/
def realArithmetic (op : ArithOp) (x y : Ieee) : Except Halt Scalar :=
  let single (z : Ieee) : Except Halt Scalar := .ok (.real (Format.single.round z))
  let isZero := y.eq (.finite 0)
  match op with
  | .add => single (Format.double.add x y)
  | .sub => single (Format.double.sub x y)
  | .mul => single (Format.double.mul x y)
  | .div =>
    if isZero then .error (Halt.of (zeroDivisor op)) else single (Format.double.div x y)
  | .mod =>
    if isZero then .error (Halt.of (zeroDivisor op))
    else
      match Ieee.remainder? x y with
      | some z => single z
      | none => .error .remainderUndefined

/-- Is an operand a string? -/
def isString : Operand → Bool
  | scalar (.string _) => true
  | _ => false

/-- The value of an operator on two operands. -/
def arithmetic (s : Store) (op : ArithOp) (left right : Operand) : Except Halt Scalar :=
  if left.isString || right.isString then .ok (.string (s.text left ++ s.text right))
  else
    match left, right with
    | scalar (.integer a), scalar (.integer b) => integerArithmetic op a b
    | scalar (.real x), scalar (.real y) => realArithmetic op x y
    | _, _ => .error (Halt.of (.arithmeticKinds op (Store.tag left) (Store.tag right)))

/-- Does an order of integers hold? -/
def integerOrder (op : CompareOp) (a b : Int) : Bool :=
  match op with
  | .lt => a < b
  | .gt => b < a
  | .le => a ≤ b
  | .ge => b ≤ a
  | .eq => a = b
  | .ne => a ≠ b

/-- Does an order of reals hold? -/
def realOrder (op : CompareOp) (x y : Ieee) : Bool :=
  match op with
  | .lt => x.lt y
  | .gt => y.lt x
  | .le => x.le y
  | .ge => y.le x
  | .eq => x.eq y
  | .ne => !x.eq y

/-- Does a comparison hold? -/
def compare (s : Store) (op : CompareOp) (left right : Operand) : Except Halt Bool :=
  if Store.tag left ≠ Store.tag right then
    .error (Halt.of (.comparisonKinds (Store.tag left) (Store.tag right)))
  else
    match op with
    | .eq => .ok (s.same left right)
    | .ne => .ok (!s.same left right)
    | op =>
      match left, right with
      | scalar (.integer a), scalar (.integer b) => .ok (integerOrder op a b)
      | scalar (.real x), scalar (.real y) => .ok (realOrder op x y)
      | left, _ => .error (Halt.of (.orderingKind op (Store.tag left)))

end Operand
end Shank
