/-
# The machine

A program runs on a machine: the store, the lines of input not read yet, a
record of all that happened, in order, and the activations begun so far. What
was written to the output, what was reported, and the notices are three views of
that one record. Whatever stops a run leaves the machine as it is at that
moment.

The machine also holds the number of steps it may still take. Every statement is
a step, and so is every change of the store and every round of a loop that need
not end; a machine without steps left stops in front of the next one. So the
machine a run leaves behind when it is given `n` steps is the one it has reached
after `n` steps when it is given more.
-/

import Shank.Frame
import Shank.Syntax
import Shank.Notice
import Shank.Random
import Shank.Text.Lines

namespace Shank

/-- What happens in a run: a line of output, a line of report, a notice. -/
inductive Event
  | printed (line : String)
  | reported (line : String)
  | noticed (notice : Notice)
  deriving DecidableEq, Repr

/-- A function that is entered, and the frame its body runs in. -/
structure Activation where
  function : Function
  frame : Frame

/-- A machine. The latest of its activations comes first; those that have ended
stay. -/
structure Machine where
  store : Store := {}
  input : List String := []
  events : Array Event := #[]
  activations : List Activation := []
  random : Random := {}
  steps : Nat := Nat.pow 2 62

/-- A step of a run: it changes the machine, and gives something or stops. -/
abbrev Run := EStateM Halt Machine

/-! ## Views of the record

What happened is recorded in one list, in order. The outputs of a run are parts
of it.
-/

/-- The line of output in an event. -/
def Event.output? : Event → Option String
  | printed line => some line
  | _ => none

/-- The line of report in an event. -/
def Event.report? : Event → Option String
  | reported line => some line
  | _ => none

/-- Lines with an end to each of them. -/
def unlines (lines : List String) : String :=
  String.join (lines.map (· ++ "\n"))

/-- The output among some events. -/
def outputOf (events : List Event) : String :=
  unlines (events.filterMap Event.output?)

/-- The reports among some events. -/
def reportsOf (events : List Event) : String :=
  unlines (events.filterMap Event.report?)

/-! ## Steps

The primitives of a run. A run that fails keeps what it has changed, so the
machine at the end tells what was done before a fault.
-/

namespace Run

/-- Stops with a fault whose place is not known yet. -/
def fail {α : Type} (cause : Cause) : Run α :=
  throw (Halt.of cause)

/-- The outcome of a computation on the store. -/
def ofExcept {α : Type} : Except Halt α → Run α
  | .ok a => pure a
  | .error h => throw h

/-- A fault of a computation on the store, or its outcome. -/
def ofCause {α : Type} : Except Cause α → Run α
  | .ok a => pure a
  | .error c => fail c

/-- The store as it is. -/
def store : Run Store :=
  fun m => .ok m.store m

/-- Takes a step, if there is one left. -/
def tick : Run Unit :=
  fun m =>
    match m.steps with
    | 0 => .error .unfinished m
    | steps + 1 => .ok () { m with steps }

/-- The number of steps left. -/
def stepsLeft : Run Nat :=
  fun m => .ok m.steps m

/-- Adds a cell to the store. -/
def allocate (c : Cell) : Run Place := do
  tick
  modifyGet fun m =>
    let (store, place) := m.store.add c
    (place, { m with store })

/-- Stores a text at a place, if it converts. -/
def tryWrite (p : Place) (text : String) : Run (Option Cause) := do
  tick
  modifyGet fun m =>
    match m.store.reading p text with
    | .ok v => (none, { m with store := m.store.put p v })
    | .error c => (some c, m)

/-- Stores a text at a place. -/
def write (p : Place) (text : String) : Run Unit := do
  match ← tryWrite p text with
  | none => pure ()
  | some c => fail c

/-- Records an event. -/
def record (e : Event) : Run Unit :=
  fun m => .ok () { m with events := m.events.push e }

/-- Begins an activation. -/
def begin_ (a : Activation) : Run Unit :=
  fun m => .ok () { m with activations := a :: m.activations }

/-- Takes a line of input without its line ends; past the last one it is empty. -/
def readLine : Run String :=
  fun m =>
    match m.input with
    | [] => .ok "" m
    | line :: rest => .ok (Text.chomped line) { m with input := rest }

/-- Draws a random number. -/
def draw (low high : Int) : Run Int :=
  fun m =>
    let (n, random) := m.random.between low high
    .ok n { m with random }

end Run
end Shank
