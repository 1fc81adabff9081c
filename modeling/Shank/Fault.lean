/-
# Faults

What can go wrong while a program runs. A `Cause` is a fault of the program
itself; it is told by one sentence, the line of the statement it happened in,
and the functions that were active, the innermost first. A run can be cut short
in other ways too (`Halt`):

| halt | why |
| --- | --- |
| `remainderUndefined` | the remainder of an infinity was asked for |
| `boundTooLarge` | a real variable had to start at an integer bound beyond all doubles |
| `tooDeep` | calls and blocks were nested past what the machine is given room for |
| `unfinished` | the run took more steps than it is given |
-/

import Shank.Type
import Shank.Operator

namespace Shank

/-- The faults of a program. -/
inductive Cause
  -- values
  | integerOverflow (n : Int)
  | integerOutside (n : Int) (range : Interval)
  | realOutside (x : Ieee) (range : RealInterval)
  | lengthOutside (length : Nat) (range : Interval)
  | notConvertible (text : String) (kind : Kind)
  | notOneCharacter (text : String)
  | wholeArray
  -- variables
  | unknownVariable (name : String)
  | notAnArray (name : String)
  | indexKind (tag : Tag)
  | indexOutside (index : Int) (bounds : Interval)
  -- expressions
  | divisionByZero
  | modulusByZero
  | arithmeticKinds (op : ArithOp) (left right : Tag)
  | comparisonKinds (left right : Tag)
  | orderingKind (op : CompareOp) (tag : Tag)
  -- statements
  | conditionKind (tag : Tag)
  | constantAssigned (name : String)
  | constantPassed (name : String)
  | constantCounted (name : String)
  | loopBounds (start stop : Tag)
  -- calls
  | noEntry (name : String)
  | unknownFunction (name : String)
  | argumentCount (function : String) (expected given : Nat)
  | argumentKind (parameter function : String) (expected given : Tag)
  | argumentNotVar (parameter function : String)
  | callDepth (limit : Int)
  | roomExhausted
  deriving DecidableEq, Repr

/-- The sentence that tells a fault. -/
def Cause.message : Cause → String
  | integerOverflow n => s!"integer overflow: {Numeral.integerText n}"
  | integerOutside n r => s!"integer {Numeral.integerText n} outside declared range {r.text}"
  | realOutside x r => s!"real {x.doubleText} outside declared range {r.text}"
  | lengthOutside n r => s!"string length {n} outside declared range {r.text}"
  | notConvertible text kind => s!"cannot convert '{text}' to {kind.name}"
  | notOneCharacter text => s!"character value must be exactly one character, got '{text}'"
  | wholeArray => "cannot assign to a whole array, assign its elements instead"
  | unknownVariable name => s!"Variable '{name}' does not exist or wasn't declared"
  | notAnArray name => s!"'{name}' is not an array"
  | indexKind tag => s!"array index must be an integer, got {tag.name}"
  | indexOutside i b => s!"array index {Numeral.integerText i} out of bounds {b.text}"
  | divisionByZero => "Division by zero"
  | modulusByZero => "Modulus by zero"
  | arithmeticKinds op l r => s!"cannot apply '{op.text}' to {l.name} and {r.name}"
  | comparisonKinds l r => s!"cannot compare {l.name} with {r.name}"
  | orderingKind op tag =>
    s!"'{op.text}' comparison can only be done on integers or reals, got {tag.name}"
  | conditionKind tag => s!"condition must be boolean, got {tag.name}"
  | constantAssigned name => s!"cannot assign to constant '{name}'"
  | constantPassed name => s!"constant '{name}' cannot be passed with var"
  | constantCounted name => s!"cannot use constant '{name}' as a loop variable"
  | loopBounds a b =>
    s!"for loop bounds must both be integer or both be real, got {a.name} and {b.name}"
  | noEntry name => s!"No function named '{name}' to run"
  | unknownFunction name => s!"Undefined function: {name}"
  | argumentCount f expected given => s!"{f} expects {expected} arguments, got {given}"
  | argumentKind p f expected given =>
    s!"argument '{p}' of {f} must be {expected.name}, got {given.name}"
  | argumentNotVar p f => s!"argument '{p}' of {f} must be passed with var"
  | callDepth limit => s!"maximum call depth exceeded ({Numeral.integerText limit})"
  | roomExhausted => "host call stack exhausted (recursion too deep)"

/-- A fault with the place it happened at, as far as that is known. -/
structure Fault where
  cause : Cause
  line : Option Nat := none
  frames : List String := []
  deriving DecidableEq, Repr

/-- The report of a fault: the message, the line, and a line for each active
function. -/
def Fault.report (f : Fault) (margin : String) : String :=
  let headline := s!"{margin}Runtime error: {f.cause.message}"
  let place := match f.line with
    | some n => [s!"{margin}  line {n}"]
    | none => []
  let calls := f.frames.map fun name => s!"{margin}  in function {name}"
  "\n".intercalate (headline :: place ++ calls)

/-- Why a run stops before its end. -/
inductive Halt
  | fault (fault : Fault)
  | remainderUndefined
  | boundTooLarge
  | tooDeep
  | unfinished
  deriving DecidableEq, Repr

namespace Halt

/-- A fault whose place is not known yet. -/
def of (cause : Cause) : Halt :=
  fault { cause }

/-- A fault without a line gets this one. -/
def atLine (line : Nat) : Halt → Halt
  | fault f => fault (match f.line with | none => { f with line := some line } | some _ => f)
  | h => h

/-- A fault without active functions gets these. -/
def inFrames (frames : List String) : Halt → Halt
  | fault f => fault (if f.frames.isEmpty then { f with frames } else f)
  | h => h

end Halt
end Shank
