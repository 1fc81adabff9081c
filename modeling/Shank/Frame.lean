/-
# Frames

A frame binds the names of an activation to places of the store. Two names may
stand for one place, also names of different frames. A name that was declared
constant is remembered as such, whatever it is bound to later.
-/

import Shank.Store

namespace Shank

/-- The names of an activation: what they are bound to, the latest binding
first, and which of them were declared constant. -/
structure Frame where
  bindings : List (String × Place) := []
  constants : List String := []
  deriving DecidableEq, Repr

namespace Frame

/-- The place a name is bound to. -/
def find? (f : Frame) (name : String) : Option Place :=
  f.bindings.lookup name

/-- Binds a name. -/
def bind (f : Frame) (name : String) (p : Place) : Frame :=
  { f with bindings := (name, p) :: f.bindings }

/-- Binds a constant. A name declared constant once stays so. -/
def bindConstant (f : Frame) (name : String) (p : Place) : Frame :=
  { bindings := (name, p) :: f.bindings, constants := name :: f.constants }

/-- Was a name declared constant? -/
def isConstant (f : Frame) (name : String) : Bool :=
  f.constants.contains name

/-- The place of a name, which must be bound. -/
def place (f : Frame) (name : String) : Except Halt Place :=
  match f.find? name with
  | some p => .ok p
  | none => .error (Halt.of (.unknownVariable name))

/-- The cell of the array that a name stands for. -/
def arrayCell (s : Store) (f : Frame) (name : String) : Except Halt Nat := do
  match s.get (← f.place name) with
  | .array i => .ok i
  | .scalar _ => .error (Halt.of (.notAnArray name))

end Frame

end Shank
