/-
# The store

The store holds what can be written: scalar variables and arrays, one to a cell.
A `Place` names what a name of the program stands for: a cell, or one slot of an
array. Two names may stand for the same place, and then each sees what is
written by way of the other; the slots of an array are held in its own cell, so
two slots are never the same place. Cells are only ever added, and the type of a
cell stays what it was.

Everything is written by way of a text, which is converted to the kind of the
place and checked against its range; a text that does not pass changes nothing.
-/

import Shank.Fault

namespace Shank

/-- Contents of the store. -/
inductive Cell
  | scalar (type : ScalarType) (value : Scalar)
  | array (bounds : Interval) (element : Kind) (items : Array Scalar)
  deriving DecidableEq, Repr

/-- A place in the store: a cell, or a slot of the array in it. -/
structure Place where
  cell : Nat
  slot : Option Nat := none
  deriving DecidableEq, Repr

/-- What an expression stands for: a scalar, or the whole array in a cell. -/
inductive Operand
  | scalar (value : Scalar)
  | array (cell : Nat)
  deriving DecidableEq, Repr

/-- All the cells there are, numbered from 0 on. A cell is added by each
declaration that is met and each value that is bound, and none is ever taken
away. -/
structure Store where
  cells : Array Cell := #[]
  deriving Repr

/-! ## Conversion and checks

Whatever comes into a variable is checked against its type, be it read from a
text or made as its start.
-/

namespace ScalarType

/-- Does a scalar fit into a variable of this type? Integers have 64 bits
besides their range. -/
def check (type : ScalarType) (v : Scalar) : Except Cause Scalar :=
  match type, v with
  | integer range, .integer n =>
    if n < Scalar.minInteger ∨ Scalar.maxInteger < n then .error (.integerOverflow n)
    else match range with
      | some r => if r.contains n then .ok v else .error (.integerOutside n r)
      | none => .ok v
  | real (some r), .real x => if r.contains x then .ok v else .error (.realOutside x r)
  | string (some r), .string s =>
    if r.contains s.length then .ok v else .error (.lengthOutside s.length r)
  | _, _ => .ok v

end ScalarType

namespace Scalar

/-- The scalar of a kind that a text stands for. White space around a number or
a boolean does not count; a character is a text of length one. -/
def ofText (kind : Kind) (text : String) : Except Cause Scalar :=
  match kind with
  | .integer =>
    let body := Text.stripped text
    match readInteger? body with
    | some n => .ok (integer n)
    | none => .error (.notConvertible body .integer)
  | .real =>
    match Numeral.real? (Text.stripped text) with
    | some x => .ok (real (Format.single.round x))
    | none => .error (.notConvertible text .real)
  | .string => .ok (string text)
  | .character =>
    match text.toList with
    | [c] => .ok (character c)
    | _ => .error (.notOneCharacter text)
  | .boolean =>
    match readBoolean? text with
    | some b => .ok (boolean b)
    | none => .error (.notConvertible text .boolean)

end Scalar

namespace ScalarType

/-- The scalar that a text stands for in a variable of this type. -/
def read (type : ScalarType) (text : String) : Except Cause Scalar := do
  type.check (← Scalar.ofText type.kind text)

/-- What a variable of this type starts with: the value nearest to zero within
its range, or the shortest text of blanks. A real that would start at an integer
bound beyond all doubles cannot. -/
def initial (type : ScalarType) : Except Halt Scalar :=
  let start : Except Halt Scalar :=
    match type with
    | integer (some r) => .ok (.integer r.clampZero)
    | real (some r) =>
      match r.clampZero with
      | .whole n =>
        match Format.double.ofInt n with
        | .infinity _ => .error .boundTooLarge
        | x => .ok (.real (Format.single.round x))
      | .real x => .ok (.real (Format.single.round x))
    | string (some r) => .ok (.string (String.ofList (List.replicate r.low.toNat ' ')))
    | type => .ok (Scalar.initial type.kind)
  match start with
  | .ok v =>
    match type.check v with
    | .ok v => .ok v
    | .error c => .error (Halt.of c)
  | .error h => .error h

end ScalarType

/-! ## Cells

A cell has the type of what was declared. An array holds its items in one cell,
each in a slot of its own.
-/

namespace Cell

/-- The cell of a declared variable before anything is stored in it. -/
def initial : DeclaredType → Except Halt Cell
  | .scalar type => type.initial.map (scalar type)
  | .array bounds element =>
    .ok (array bounds element (Array.replicate bounds.size (Scalar.initial element)))

/-- The cell of a scalar that has no range. -/
def plain (v : Scalar) : Cell :=
  scalar (ScalarType.ofKind v.kind) v

/-- Stores a scalar in a scalar cell or in a slot of an array. -/
def put (c : Cell) (slot : Option Nat) (v : Scalar) : Cell :=
  match c, slot with
  | scalar type _, none => scalar type v
  | array bounds element items, some k => array bounds element (items.setIfInBounds k v)
  | c, _ => c

end Cell

/-! ## The store

Cells are only ever added. A place is a cell or a slot in one, and keeps its
meaning for as long as the store lasts.
-/

namespace Store

/-- The contents of a cell. -/
def cell (s : Store) (i : Nat) : Cell :=
  s.cells.getD i (.plain (.boolean false))

/-- Adds a cell. -/
def add (s : Store) (c : Cell) : Store × Place :=
  ({ cells := s.cells.push c }, { cell := s.cells.size })

/-- Stores a scalar at a place. -/
def put (s : Store) (p : Place) (v : Scalar) : Store :=
  { cells := s.cells.modify p.cell fun c => c.put p.slot v }

/-- What is at a place. -/
def get (s : Store) (p : Place) : Operand :=
  match s.cell p.cell, p.slot with
  | .scalar _ v, _ => .scalar v
  | .array _ element items, some k => .scalar (items.getD k (Scalar.initial element))
  | .array _ _ _, none => .array p.cell

/-- The type of what can be stored at a place; a whole array cannot be stored. -/
def typeAt? (s : Store) (p : Place) : Option ScalarType :=
  match s.cell p.cell, p.slot with
  | .scalar type _, _ => some type
  | .array _ element _, some _ => some (.ofKind element)
  | .array _ _ _, none => none

/-- The items of the array in a cell. -/
def items (s : Store) (i : Nat) : Array Scalar :=
  match s.cell i with
  | .array _ _ items => items
  | .scalar _ _ => #[]

/-- The bounds of the array in a cell. -/
def bounds (s : Store) (i : Nat) : Interval :=
  match s.cell i with
  | .array bounds _ _ => bounds
  | .scalar _ _ => ⟨1, 0⟩

/-- The kind of an operand. -/
def tag : Operand → Tag
  | .scalar v => .scalar v.kind
  | .array _ => .array

/-- The text of an operand: that of the scalar, or those of the items with
blanks between them. -/
def text (s : Store) : Operand → String
  | .scalar v => v.text
  | .array i => " ".intercalate ((s.items i).toList.map Scalar.text)

/-- What storing a text at a place would store. -/
def reading (s : Store) (p : Place) (text : String) : Except Cause Scalar :=
  match s.typeAt? p with
  | some type => type.read text
  | none => .error .wholeArray

/-- Stores a text at a place. -/
def write (s : Store) (p : Place) (text : String) : Except Cause Store :=
  (s.reading p text).map (s.put p)

/-- The slot of an array that an index stands for. -/
def element (s : Store) (i : Nat) (index : Operand) : Except Cause Place :=
  match index with
  | .scalar (.integer n) =>
    let bounds := s.bounds i
    if bounds.contains n then .ok { cell := i, slot := some (n - bounds.low).toNat }
    else .error (.indexOutside n bounds)
  | index => .error (.indexKind (tag index))

/-- A new cell with the contents of a place: a variable keeps its type, a slot
has no range. -/
def copyAt (s : Store) (p : Place) : Cell :=
  match s.cell p.cell, p.slot with
  | .array _ element items, some k => .plain (items.getD k (Scalar.initial element))
  | c, _ => c

/-- Equality of values. Arrays are equal when their items are, one by one; an
array is equal to itself, whatever it holds. -/
def same (s : Store) : Operand → Operand → Bool
  | .scalar a, .scalar b => a.same b
  | .array i, .array j =>
    i == j ||
      ((s.items i).size == (s.items j).size &&
        ((s.items i).toList.zip (s.items j).toList).all fun p => p.1.same p.2)
  | _, _ => false

end Store
end Shank
