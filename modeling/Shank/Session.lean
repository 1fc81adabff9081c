/-
# Sessions

A session works on values by name, one step after the other, outside of any
program text: it makes variables, writes and shows them, applies operators, and
calls functions. The names stand for places of one store, so what a call writes
shows under every name of the place. A step that fails is answered, and the
session goes on.
-/

import Shank.Run.Execute
import Shank.Text.Quoted

namespace Shank

/-- A session: what it goes by, its machine, and its names, the latest binding
first. -/
structure Session where
  setting : Setting
  machine : Machine
  names : List (String × Place) := []

namespace Session

/-- A declaration by texts: the kind or `array`, the bounds of a range, the kind
of elements. -/
structure Declaration where
  type : String
  range : Option (String × String) := none
  element : Option String := none

/-- An argument of a call: the name of a value, handed over with `var` or not. -/
structure Given where
  name : String
  byReference : Bool

/-- A step of a session. -/
inductive Step
  | new (name : String) (decl : Declaration) (text : Option String) (items : List String)
  | set (name text : String)
  | get (name : String)
  | copy (name target : String)
  | element (name index target : String)
  | eq (left right : String)
  | compare (op left right : String)
  | arith (op left right : String) (target : Option String)
  | signature (function : String)
  | check (function : String) (args : List Given)
  | call (function : String) (args : List Given)

/-- A value as it is shown. -/
structure Shown where
  tag : Tag
  text : String
  deriving DecidableEq, Repr

/-- The answer to a step. -/
inductive Answer
  | shown (value : Shown)
  | detail (value : Shown) (form : String)
  | truth (value : Bool)
  | words (value : Option String)
  | called (output reports : String) (args : List Shown) (halt : Option Halt)
  | halted (halt : Halt)
  | refused
  deriving Repr

/-- Why a step has no regular answer: the run stopped, or the step itself makes
no sense. -/
inductive Failure
  | halted (halt : Halt)
  | refused

/-- What a failed step is answered. -/
def Failure.answer : Failure → Answer
  | halted h => .halted h
  | refused => .refused

/-- A step at work on a session. What it has done so far stays when it fails. -/
abbrev Work := EStateM Failure Session

/-! ## Texts

The steps of a session are given as texts, and values are shown as texts.
-/

/-- The bound a text stands for: real if it has a point, else an integer. -/
def boundOf? (text : String) : Option Bound :=
  if '.' ∈ text.toList then
    (Numeral.real? text).map fun x => .real (Format.single.round x)
  else
    match Numeral.integer? text with
    | .ok n => some (.whole n)
    | .error _ => none

/-- The interval between two bounds, if they are integers. -/
def interval? : Bound × Bound → Option Interval
  | (.whole low, .whole high) => some ⟨low, high⟩
  | _ => none

/-- The type that a declaration stands for. A range is of no effect where a kind
has none. -/
def Declaration.resolve? (d : Declaration) : Option DeclaredType := do
  let range ← match d.range with
    | some (low, high) => some <$> do return (← boundOf? low, ← boundOf? high)
    | none => pure none
  if d.type = Tag.array.name then
    return .array (← interval? (← range)) (← Kind.ofName? (← d.element))
  else
    match ← Kind.ofName? d.type with
    | .integer => return .scalar (.integer (← range.mapM interval?))
    | .real => return .scalar (.real (range.map fun (low, high) => ⟨low, high⟩))
    | .string => return .scalar (.string (← range.mapM interval?))
    | .character => return .scalar .character
    | .boolean => return .scalar .boolean

/-- The name of the values of a kind. -/
def formName : Tag → String
  | .scalar .integer => "IntegerValue"
  | .scalar .real => "RealValue"
  | .scalar .string => "StringValue"
  | .scalar .character => "CharacterValue"
  | .scalar .boolean => "BooleanValue"
  | .array => "ArrayValue"

/-- A value with its kind and its text in quotes. -/
def Shown.form (v : Shown) : String :=
  let text := Text.quoted v.text
  s!"{formName v.tag}({text})"

/-! ## Steps

A step is done on the machine of the session by the operations that a run has,
so what is seen of it is what a program would see.
-/

/-- The store of the session. -/
def store : Work Store := do
  return (← get).machine.store

/-- Fails for good. -/
def refuse {α : Type} : Work α :=
  throw .refused

/-- The outcome of a computation on the store. -/
def ofExcept {α : Type} : Except Halt α → Work α
  | .ok a => pure a
  | .error h => throw (.halted h)

/-- The outcome of a computation that makes no sense of some texts. -/
def ofOption {α : Type} : Option α → Work α
  | some a => pure a
  | none => refuse

/-- Runs a step of a run on the machine of the session. -/
def run {α : Type} (step : Run α) : Work α :=
  fun s =>
    match step s.machine with
    | .ok a machine => .ok a { s with machine }
    | .error h machine => .error (.halted h) { s with machine }

/-- The place of a name. -/
def place (name : String) : Work Place := do
  ofOption ((← get).names.lookup name)

/-- Binds a name. -/
def bind (name : String) (p : Place) : Work Unit :=
  modify fun s => { s with names := (name, p) :: s.names }

/-- What a name stands for. -/
def operand (name : String) : Work Operand := do
  let p ← place name
  return (← store).get p

/-- A place as it is shown. -/
def shownAt (s : Store) (p : Place) : Shown :=
  let v := s.get p
  { tag := Store.tag v, text := s.text v }

/-- Shows a place. -/
def shown (p : Place) : Work Answer := do
  return .shown (shownAt (← store) p)

/-- Stores texts in the slots of an array, one after the other. -/
def writeItems (cell : Nat) : Nat → List String → Run Unit
  | _, [] => pure ()
  | k, text :: rest => do
    Run.write { cell, slot := some k } text
    writeItems cell (k + 1) rest

/-- Makes a variable. Items past the slots of its array are left out. The name
is bound only if every text converts. -/
def declare (name : String) (d : Declaration) (text : Option String) (items : List String) :
    Work Answer := do
  let type ← ofOption d.resolve?
  let p ← run (do Run.allocate (← Run.ofExcept (Cell.initial type)))
  match text with
  | some text => run (Run.write p text)
  | none => pure ()
  let slots := ((← store).items p.cell).size
  run (writeItems p.cell 0 (items.take slots))
  bind name p
  shown p

/-- The arguments of a call. -/
def actuals (args : List Given) : Work (List Actual) :=
  args.mapM fun g => do
    if g.byReference then return .reference (← place g.name)
    else return .value (← operand g.name)

/-- Calls a built-in function, or else a function of the program. -/
def invoke (function : String) (args : List Given) : Work Answer := do
  let s ← get
  let actuals ← actuals args
  let places ← args.mapM fun g => place g.name
  let step : Run Unit ←
    match Builtin.ofName? function with
    | some b => pure (b.invoke actuals)
    | none =>
      match s.setting.program.find? function with
      | some f => pure (Run.function s.setting f actuals)
      | none => refuse
  let o := Outcome.of step { s.machine with events := #[] }
  set { s with machine := o.machine }
  return .called o.output o.reports (places.map (shownAt o.machine.store)) o.halt

/-- Does a step. -/
def perform : Step → Work Answer
  | .new name decl text items => declare name decl text items
  | .set name text => do
    let p ← place name
    run (Run.write p text)
    shown p
  | .get name => do
    let v := shownAt (← store) (← place name)
    return .detail v v.form
  | .copy name target => do
    let c := (← store).copyAt (← place name)
    let p ← run (Run.allocate c)
    bind target p
    shown p
  | .element name index target => do
    let s ← store
    let p ← place name
    let k ← operand index
    match s.get p with
    | .array i =>
      let p ← ofExcept (s.slot i k)
      bind target p
      shown p
    | .scalar _ => refuse
  | .eq left right => do
    return .truth ((← store).same (← operand left) (← operand right))
  | .compare op left right => do
    let op ← ofOption (CompareOp.ofText? op)
    return .truth (← ofExcept (Operand.compare (← store) op (← operand left) (← operand right)))
  | .arith op left right target => do
    let op ← ofOption (ArithOp.ofText? op)
    let v ← ofExcept (Operand.arithmetic (← store) op (← operand left) (← operand right))
    let p ← run (Run.allocate (.plain v))
    match target with
    | some name => bind name p
    | none => pure ()
    shown p
  | .signature function => return .words ((Builtin.ofName? function).map Builtin.signature)
  | .check function args => do
    let actuals ← actuals args
    let b ← ofOption (Builtin.ofName? function)
    return .words ((b.check (← store) actuals).map Builtin.Problem.message)
  | .call function args => invoke function args

/-- The answers to steps, one after the other. -/
def answers (s : Session) : List Step → List Answer
  | [] => []
  | step :: rest =>
    match perform step s with
    | .ok a s => a :: answers s rest
    | .error f s => f.answer :: answers s rest

/-- A session on a program, some input and limits. -/
def start (program : Program) (input : String) (limits : Limits) : Session :=
  { setting := { program, limits }, machine := { input := Text.textLines input } }

end Session
end Shank
