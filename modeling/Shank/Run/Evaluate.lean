/-
# Evaluation

An expression has a value in a frame. Evaluation changes nothing: an expression
calls no function. A variable that holds an array stands for the array itself,
not for a copy.

The name is looked up before the index is evaluated, and the left operand is
evaluated before the right one; the first fault counts.
-/

import Shank.Run.Operation
import Shank.Frame
import Shank.Syntax

namespace Shank

namespace Store

/-- The slot of an array that an index stands for. -/
def slot (s : Store) (i : Nat) (index : Operand) : Except Halt Place :=
  match s.element i index with
  | .ok p => .ok p
  | .error c => .error (Halt.of c)

end Store

/-- The value of a literal; an integer must fit into 64 bits. -/
def Scalar.evaluate (v : Scalar) : Except Halt Scalar :=
  match (ScalarType.ofKind v.kind).check v with
  | .ok v => .ok v
  | .error c => .error (Halt.of c)

/-- The value of an expression. -/
def Expr.evaluate (s : Store) (f : Frame) : Expr → Except Halt Operand
  | literal _ v => Operand.scalar <$> v.evaluate
  | var _ name => s.get <$> f.place name
  | element _ name index => do
    let i ← f.arrayCell s name
    let k ← index.evaluate s f
    s.get <$> s.slot i k
  | arithmetic _ op left right => do
    let a ← left.evaluate s f
    let b ← right.evaluate s f
    Operand.scalar <$> Operand.arithmetic s op a b
  | comparison _ op left right => do
    let a ← left.evaluate s f
    let b ← right.evaluate s f
    (fun holds => Operand.scalar (.boolean holds)) <$> Operand.compare s op a b

/-- The place that the left side of an assignment stands for. -/
def Target.locate (s : Store) (f : Frame) (t : Target) : Except Halt Place :=
  match t.index with
  | none => f.place t.name
  | some index => do
    let i ← f.arrayCell s t.name
    let k ← index.evaluate s f
    s.slot i k

/-- The truth of a condition. -/
def Expr.holds (s : Store) (f : Frame) (e : Expr) : Except Halt Bool := do
  match ← e.evaluate s f with
  | .scalar (.boolean b) => .ok b
  | v => .error (Halt.of (.conditionKind (Store.tag v)))

end Shank
