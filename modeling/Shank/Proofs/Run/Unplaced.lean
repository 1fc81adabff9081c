/-
# Faults whose place is not known yet

What can go wrong within an expression, a conversion or a declaration is told
without a place: neither a line nor functions are known there, and it is no
fault of the calls themselves. The place is added further out, by the statement
and the functions around it.

So a fault that has a place got it from a handler, and `Shank.Proofs.Run.Faults`
can tell the place from the handlers on the way.
-/

import Shank.Run.Evaluate
import Shank.Proofs.Sequencing

namespace Shank

/-- A fault of what a statement does itself, not of how deep calls are nested. -/
def Cause.IsLocal : Cause → Prop
  | callDepth _ => False
  | roomExhausted => False
  | _ => True

/-- A halt that is a local fault without a place, if it is a fault at all. -/
def Halt.IsUnplaced (h : Halt) : Prop :=
  ∀ e, h = .fault e → e.line = none ∧ e.frames = [] ∧ e.cause.IsLocal

/-- A local cause makes a fault without a place. -/
theorem Halt.isUnplaced_of {c : Cause} (h : c.IsLocal) : (Halt.of c).IsUnplaced := by
  rintro _ ⟨⟩
  exact ⟨rfl, rfl, h⟩

/-- A computation all of whose faults are unplaced. -/
def Unplaced {α : Type} (x : Except Halt α) : Prop :=
  ∀ h, x = .error h → h.IsUnplaced

/-- A computation all of whose causes of a fault are local. -/
def AllLocal {α : Type} (x : Except Cause α) : Prop :=
  ∀ c, x = .error c → c.IsLocal

section

variable {α β : Type}

/-- A value has no faults. -/
theorem unplaced_ok (a : α) : Unplaced (.ok a : Except Halt α) :=
  fun _ h => nomatch h

/-- A fault with a local cause has no place. -/
theorem unplaced_of {c : Cause} (h : c.IsLocal) : Unplaced (.error (Halt.of c) : Except Halt α) := by
  rintro _ ⟨⟩
  exact Halt.isUnplaced_of h

/-- What follows a computation adds no place to its faults. -/
theorem Unplaced.bind {x : Except Halt α} {f : α → Except Halt β} (hx : Unplaced x)
    (hf : ∀ a, Unplaced (f a)) : Unplaced (x >>= f) := by
  cases x with
  | ok a => exact hf a
  | error h =>
    rintro _ ⟨⟩
    exact hx h rfl

/-- What is made of the value of a computation adds no place to its faults. -/
theorem Unplaced.map {x : Except Halt α} (hx : Unplaced x) (g : α → β) : Unplaced (g <$> x) := by
  cases x with
  | ok a => exact unplaced_ok _
  | error h =>
    rintro _ ⟨⟩
    exact hx h rfl

/-- A value has no causes. -/
theorem allLocal_ok (a : α) : AllLocal (.ok a : Except Cause α) :=
  fun _ h => nomatch h

/-- A local cause is one. -/
theorem allLocal_error {c : Cause} (h : c.IsLocal) : AllLocal (.error c : Except Cause α) := by
  rintro _ ⟨⟩
  exact h

/-- Computations in a row have local causes if each of them has. -/
theorem AllLocal.bind {x : Except Cause α} {f : α → Except Cause β} (hx : AllLocal x)
    (hf : ∀ a, AllLocal (f a)) : AllLocal (x >>= f) := by
  cases x with
  | ok a => exact hf a
  | error c =>
    rintro _ ⟨⟩
    exact hx c rfl

end

/-! ## Conversions

A text that does not convert, or a number out of its range, is told as a cause,
without any place.
-/

/-- That a value is out of range is a local cause. -/
theorem ScalarType.allLocal_check (type : ScalarType) (v : Scalar) : AllLocal (type.check v) := by
  unfold check
  split
  · split
    · exact allLocal_error trivial
    · split
      · split
        · exact allLocal_ok _
        · exact allLocal_error trivial
      · exact allLocal_ok _
  · split
    · exact allLocal_ok _
    · exact allLocal_error trivial
  · split
    · exact allLocal_ok _
    · exact allLocal_error trivial
  · exact allLocal_ok _

/-- That a text stands for nothing of its kind is a local cause. -/
theorem Scalar.allLocal_ofText (kind : Kind) (text : String) : AllLocal (ofText kind text) := by
  unfold ofText
  split
  · dsimp only
    split
    · exact allLocal_ok _
    · exact allLocal_error trivial
  · split
    · exact allLocal_ok _
    · exact allLocal_error trivial
  · exact allLocal_ok _
  · split
    · exact allLocal_ok _
    · exact allLocal_error trivial
  · split
    · exact allLocal_ok _
    · exact allLocal_error trivial

/-- Whatever goes wrong when a type reads a text is a local cause. -/
theorem ScalarType.allLocal_read (type : ScalarType) (text : String) : AllLocal (type.read text) :=
  (Scalar.allLocal_ofText _ _).bind fun _ => type.allLocal_check _

/-- Whatever goes wrong when a text is converted for a place is a local cause. -/
theorem Store.allLocal_reading (s : Store) (q : Place) (text : String) :
    AllLocal (s.reading q text) := by
  unfold reading
  split
  · exact ScalarType.allLocal_read _ _
  · exact allLocal_error trivial

/-- A start that a scalar type does not have makes a fault without a place. -/
theorem ScalarType.unplaced_initial (type : ScalarType) : Unplaced type.initial := by
  unfold initial
  dsimp only
  split
  · split
    · exact unplaced_ok _
    · exact unplaced_of (type.allLocal_check _ _ ‹_›)
  · rename_i h hstart
    rintro _ ⟨⟩ e rfl
    -- what a variable starts with cannot be too large by a fault
    split at hstart
    · cases hstart
    · split at hstart
      · split at hstart <;> cases hstart
      · cases hstart
    · cases hstart
    · cases hstart

/-- A start that a declared type does not have makes a fault without a place. -/
theorem Cell.unplaced_initial (type : DeclaredType) : Unplaced (Cell.initial type) := by
  cases type with
  | scalar type =>
    have := type.unplaced_initial.map (Cell.scalar type)
    exact this
  | array bounds element => exact unplaced_ok _

/-- A literal out of range makes a fault without a place. -/
theorem Scalar.unplaced_evaluate (v : Scalar) : Unplaced v.evaluate := by
  unfold evaluate
  split
  · exact unplaced_ok _
  · exact unplaced_of (ScalarType.allLocal_check _ v _ ‹_›)

/-! ## Expressions

What goes wrong in an expression is told as a cause as well. The place is added
by the statement.
-/

/-- A name that is not known makes a fault without a place. -/
theorem Frame.unplaced_place (f : Frame) (name : String) : Unplaced (f.place name) := by
  unfold place
  split
  · exact unplaced_ok _
  · exact unplaced_of trivial

/-- A name that stands for no array makes a fault without a place. -/
theorem Frame.unplaced_arrayCell (s : Store) (f : Frame) (name : String) :
    Unplaced (f.arrayCell s name) := by
  refine (f.unplaced_place name).bind fun q => ?_
  split
  · exact unplaced_ok _
  · exact unplaced_of trivial

/-- That an index is no integer, or out of bounds, is a local cause. -/
theorem Store.allLocal_element (s : Store) (i : Nat) (index : Operand) :
    AllLocal (s.element i index) := by
  unfold element
  split
  · dsimp only
    split
    · exact allLocal_ok _
    · exact allLocal_error trivial
  · exact allLocal_error trivial

/-- A slot that is not there makes a fault without a place. -/
theorem Store.unplaced_slot (s : Store) (i : Nat) (index : Operand) : Unplaced (s.slot i index) := by
  unfold slot
  split
  · exact unplaced_ok _
  · exact unplaced_of (s.allLocal_element i index _ ‹_›)

/-- Division by zero is a local cause. -/
theorem Operand.isLocal_zeroDivisor (op : ArithOp) : (zeroDivisor op).IsLocal := by
  cases op <;> trivial

/-- Arithmetic on integers makes faults without a place. -/
theorem Operand.unplaced_integerArithmetic (op : ArithOp) (a b : Int) :
    Unplaced (integerArithmetic op a b) := by
  unfold integerArithmetic
  dsimp only
  split
  · exact unplaced_ok _
  · rename_i hexact
    refine unplaced_of (AllLocal.bind ?_ (fun n => ScalarType.allLocal_check _ _) _ hexact)
    split
    iterate 3 exact allLocal_ok _
    all_goals
      split
      · exact allLocal_ok _
      · exact allLocal_error (isLocal_zeroDivisor _)

/-- Arithmetic on reals makes faults without a place. -/
theorem Operand.unplaced_realArithmetic (op : ArithOp) (x y : Ieee) :
    Unplaced (realArithmetic op x y) := by
  unfold realArithmetic
  dsimp only
  split
  iterate 3 exact unplaced_ok _
  · split
    · exact unplaced_of (isLocal_zeroDivisor _)
    · exact unplaced_ok _
  · split
    · exact unplaced_of (isLocal_zeroDivisor _)
    · split
      · exact unplaced_ok _
      · rintro _ ⟨⟩ e ⟨⟩

/-- An operator makes faults without a place, also on operands it is not made
for. -/
theorem Operand.unplaced_arithmetic (s : Store) (op : ArithOp) (a b : Operand) :
    Unplaced (arithmetic s op a b) := by
  unfold arithmetic
  split
  · exact unplaced_ok _
  · split
    · exact unplaced_integerArithmetic op _ _
    · exact unplaced_realArithmetic op _ _
    · exact unplaced_of trivial

/-- Operands that cannot be compared make a fault without a place. -/
theorem Operand.unplaced_compare (s : Store) (op : CompareOp) (a b : Operand) :
    Unplaced (compare s op a b) := by
  unfold compare
  split
  · exact unplaced_of trivial
  · split
    · exact unplaced_ok _
    · exact unplaced_ok _
    · split
      · exact unplaced_ok _
      · exact unplaced_ok _
      · exact unplaced_of trivial

/-- **No fault of an expression has a place.** This is by induction on the
expression. -/
theorem Expr.unplaced_evaluate (s : Store) (f : Frame) (e : Expr) : Unplaced (e.evaluate s f) := by
  induction e with
  | literal _ v => exact v.unplaced_evaluate.map _
  | var _ name => exact (f.unplaced_place name).map _
  | element _ name index ih =>
    exact (f.unplaced_arrayCell s name).bind fun i => ih.bind fun k => (s.unplaced_slot i k).map _
  | arithmetic _ op left right ihl ihr =>
    exact ihl.bind fun a => ihr.bind fun b => (Operand.unplaced_arithmetic s op a b).map _
  | comparison _ op left right ihl ihr =>
    exact ihl.bind fun a => ihr.bind fun b => (Operand.unplaced_compare s op a b).map _

/-- **No fault of a condition has a place**, also if it is no truth value. -/
theorem Expr.unplaced_holds (s : Store) (f : Frame) (e : Expr) : Unplaced (e.holds s f) := by
  refine (e.unplaced_evaluate s f).bind fun v => ?_
  split
  · exact unplaced_ok _
  · exact unplaced_of trivial

/-- **No fault of a target has a place.** -/
theorem Target.unplaced_locate (s : Store) (f : Frame) (t : Target) : Unplaced (t.locate s f) := by
  unfold locate
  split
  · exact f.unplaced_place _
  · exact (f.unplaced_arrayCell s _).bind fun i => (Expr.unplaced_evaluate s f _).bind fun k =>
      s.unplaced_slot i k

end Shank
