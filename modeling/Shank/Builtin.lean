/-
# Built-in functions

Eleven functions are there without being declared.

| function | effect |
| --- | --- |
| `read` | a line of input into each of its variables |
| `write` | a line of output with the texts of its arguments, blanks between them |
| `left`, `right`, `substring` | part of a string |
| `squareRoot` | of a real that is not negative |
| `getRandom` | a number from the range of its variable |
| `integerToReal`, `realToInteger` | a number converted |
| `start`, `end` | the bounds of an array |

A built-in that is misused does nothing to the program: a wrong number or kind
of arguments, a missing `var`, or a text that does not fit is reported in one
line, and the run goes on.
-/

import Shank.Machine
import Shank.Ieee.Arithmetic

namespace Shank

/-- The built-in functions. -/
inductive Builtin
  | read | write | left | right | substring | squareRoot | getRandom
  | integerToReal | realToInteger | start | end_
  deriving DecidableEq, Repr

/-- An argument at run time: a value, or a place of the caller. -/
inductive Actual
  | value (operand : Operand)
  | reference (place : Place)
  deriving DecidableEq, Repr

namespace Actual

/-- What an argument stands for. -/
def operand (s : Store) : Actual → Operand
  | value v => v
  | reference p => s.get p

/-- Was the argument handed over with `var`? -/
def isReference : Actual → Bool
  | value _ => false
  | reference _ => true

end Actual

/-- A parameter of a built-in: the kind it takes, if not any, and whether it is
written to. -/
structure Builtin.Parameter where
  tag : Option Tag
  isWritten : Bool
  deriving DecidableEq, Repr

/-- How a built-in can be misused. -/
inductive Builtin.Problem
  | argumentCount (expected given : Nat)
  | argumentKind (position : Nat) (expected given : Tag)
  | argumentNotVar (position : Nat)
  | negativeLength (length : Int)
  | negativeSlice (start length : Int)
  | negativeRoot (x : Ieee)
  | fault (cause : Cause)
  deriving DecidableEq, Repr

/-- What is told of a refused call, behind the signature of the built-in. -/
def Builtin.Problem.message : Builtin.Problem → String
  | argumentCount expected given => s!"expected {expected} arguments, got {given}"
  | argumentKind i expected given => s!"argument {i} must be {expected.name}, got {given.name}"
  | argumentNotVar i => s!"argument {i} must be passed with var"
  | negativeLength n => s!"length must not be negative, got {Numeral.integerText n}"
  | negativeSlice i n =>
    let start := Numeral.integerText i
    s!"start and length must not be negative, got {start} and {Numeral.integerText n}"
  | negativeRoot x => s!"cannot take the square root of {x.singleText}"
  | fault c => c.message

namespace Builtin

/-- All built-in functions. -/
def all : List Builtin :=
  [read, write, left, right, substring, squareRoot, getRandom, integerToReal, realToInteger, start,
   end_]

/-- The name that a program calls a built-in by. -/
def name : Builtin → String
  | read => "read"
  | write => "write"
  | left => "left"
  | right => "right"
  | substring => "substring"
  | squareRoot => "squareRoot"
  | getRandom => "getRandom"
  | integerToReal => "integerToReal"
  | realToInteger => "realToInteger"
  | start => "start"
  | end_ => "end"

/-- The built-in function of a name. -/
def ofName? (s : String) : Option Builtin :=
  all.find? fun b => b.name == s

/-- **The names of the built-ins are distinct**: each finds its built-in. -/
theorem ofName?_name (b : Builtin) : ofName? b.name = some b := by
  cases b <;> decide

namespace Parameter

/-- A parameter that is read. -/
def input (kind : Kind) : Parameter := ⟨some (.scalar kind), false⟩

/-- A parameter that is written to. -/
def output (kind : Kind) : Parameter := ⟨some (.scalar kind), true⟩

/-- The way a parameter shows in a signature. -/
def text (p : Parameter) : String :=
  let kind := match p.tag with
    | some tag => tag.name
    | none => "any"
  if p.isWritten then s!"var {kind}" else kind

end Parameter

open Parameter in
/-- The parameters of a built-in; `read` and `write` have one that stands for
any number. -/
def parameters : Builtin → List Parameter
  | read => [⟨none, true⟩]
  | write => [⟨none, false⟩]
  | left => [input .string, input .integer, output .string]
  | right => [input .string, input .integer, output .string]
  | substring => [input .string, input .integer, input .integer, output .string]
  | squareRoot => [input .real, output .real]
  | getRandom => [output .integer]
  | integerToReal => [output .real, input .integer]
  | realToInteger => [output .integer, input .real]
  | start => [⟨some .array, false⟩, output .integer]
  | end_ => [⟨some .array, false⟩, output .integer]

/-- Does a built-in take any number of arguments? -/
def isVariadic : Builtin → Bool
  | read => true
  | write => true
  | _ => false

/-- The way a call of a built-in looks. -/
def signature (b : Builtin) : String :=
  let texts := b.parameters.map Parameter.text
  let inside := ", ".intercalate texts
  if b.isVariadic then s!"{b.name}({inside}...)" else s!"{b.name}({inside})"

/-- What is wrong with an argument at a position. -/
def checkArgument (s : Store) (position : Nat) (p : Parameter) (a : Actual) : Option Problem :=
  let given := Store.tag (a.operand s)
  match p.tag with
  | some expected =>
    if given ≠ expected then some (.argumentKind position expected given)
    else if p.isWritten && !a.isReference then some (.argumentNotVar position)
    else none
  | none => if p.isWritten && !a.isReference then some (.argumentNotVar position) else none

/-- What is wrong with the first of the arguments that does not suit its
parameter. -/
def checkArguments (s : Store) (position : Nat) : List Parameter → List Actual → Option Problem
  | p :: ps, a :: as =>
    match checkArgument s position p a with
    | some problem => some problem
    | none => checkArguments s (position + 1) ps as
  | _, _ => none

/-- What is wrong with the arguments of a call. -/
def check (b : Builtin) (s : Store) (args : List Actual) : Option Problem :=
  if b.isVariadic then
    checkArguments s 1 (args.flatMap fun _ => b.parameters) args
  else if args.length ≠ b.parameters.length then
    some (.argumentCount b.parameters.length args.length)
  else checkArguments s 1 b.parameters args

/-! ## Results

The texts that built-in functions compute, and what a call does with them: it
stores its result, or it is refused with one line of report.
-/

/-- The first characters of a text. -/
def leftText (s : String) (n : Int) : Except Problem String :=
  if n < 0 then .error (.negativeLength n)
  else .ok (String.ofList (s.toList.take n.toNat))

/-- The last characters of a text. -/
def rightText (s : String) (n : Int) : Except Problem String :=
  if n < 0 then .error (.negativeLength n)
  else
    let cs := s.toList
    .ok (String.ofList (cs.drop (cs.length - n.toNat)))

/-- The characters of a text from an offset on. -/
def sliceText (s : String) (i n : Int) : Except Problem String :=
  if i < 0 ∨ n < 0 then .error (.negativeSlice i n)
  else .ok (String.ofList ((s.toList.drop i.toNat).take n.toNat))

/-- The text of a square root. -/
def rootText (x : Ieee) : Except Problem String :=
  if x.lt (.finite 0) then .error (.negativeRoot x)
  else .ok (Format.double.sqrt x).doubleText

/-- What a built-in that computes one text computes from what it is given to
read. -/
def result (b : Builtin) (s : Store) (operands : List Operand) : Except Problem String :=
  match b, operands with
  | left, [.scalar (.string t), .scalar (.integer n)] => leftText t n
  | right, [.scalar (.string t), .scalar (.integer n)] => rightText t n
  | substring, [.scalar (.string t), .scalar (.integer i), .scalar (.integer n)] => sliceText t i n
  | squareRoot, [.scalar (.real x)] => rootText x
  | integerToReal, [v] => .ok (s.text v)
  | realToInteger, [v] => .ok (s.text v)
  | start, [.array i] => .ok (Numeral.integerText (s.bounds i).low)
  | end_, [.array i] => .ok (Numeral.integerText (s.bounds i).high)
  | _, _ => .ok ""

/-- The range of the numbers drawn for a variable; without one of its own, the
integers of 32 bits. -/
def drawRange (s : Store) (p : Place) : Interval :=
  match s.typeAt? p with
  | some (.integer (some r)) => r
  | _ => ⟨-2147483648, 2147483647⟩

/-- Stores a result, and tells what is wrong with it. -/
def storeResult (p : Place) : Except Problem String → Run (Option Problem)
  | .error problem => pure (some problem)
  | .ok text => do return (← Run.tryWrite p text).map Problem.fault

/-- Reads a line of input into each of some places, up to the first that does
not convert. -/
def readInto : List Place → Run (Option Problem)
  | [] => pure none
  | p :: rest => do
    match ← Run.tryWrite p (← Run.readLine) with
    | none => readInto rest
    | some c => pure (some (.fault c))

/-- The places among some arguments. -/
def places (args : List Actual) : List Place :=
  args.filterMap fun
    | .reference p => some p
    | .value _ => none

/-- The arguments of a call that are read, and the place that is written to. -/
def divide (b : Builtin) (s : Store) (args : List Actual) : List Operand × Option Place :=
  let pairs := b.parameters.zip args
  let inputs := pairs.filterMap fun (p, a) => if p.isWritten then none else some (a.operand s)
  let outputs := pairs.filterMap fun (p, a) => if p.isWritten then some a else none
  (inputs, (places outputs).head?)

/-- Does what a built-in does, and tells what is wrong. -/
def perform (b : Builtin) (args : List Actual) : Run (Option Problem) := do
  let s ← Run.store
  match b with
  | read => readInto (places args)
  | write =>
    let texts := args.map fun a => s.text (a.operand s)
    Run.record (.printed (" ".intercalate texts))
    pure none
  | getRandom =>
    match (b.divide s args).2 with
    | some p =>
      let r := drawRange s p
      let n ← Run.draw r.low r.high
      storeResult p (.ok (Numeral.integerText n))
    | none => pure none
  | b =>
    match b.divide s args with
    | (operands, some p) => storeResult p (b.result s operands)
    | (_, none) => pure none

/-- Reports a misuse. -/
def refuse (b : Builtin) (problem : Problem) : Run Unit := do
  Run.record (.noticed (.builtinRefused b.name problem.message))
  Run.record (.reported s!"{b.signature}: {problem.message}")

/-- Calls a built-in function. -/
def invoke (b : Builtin) (args : List Actual) : Run Unit := do
  let s ← Run.store
  match b.check s args with
  | some problem => b.refuse problem
  | none =>
    match ← b.perform args with
    | some problem => b.refuse problem
    | none => pure ()

end Builtin
end Shank
