/-
# Execution

Statements run in a frame, one after the other. A call makes a new frame: its
parameters are bound to copies of the arguments, or to the caller's own places
where they are declared `var`; then the locals are declared, and the body runs.

| when it fails | what is known of the place |
| --- | --- |
| in a statement | the line of the innermost statement |
| in a body | the functions active there, the innermost first |
| while parameters are bound or locals declared | what the caller's statement and body add |

Three limits keep a run in bounds. The number of active functions is the
program's own limit, and a fault when exceeded. The machine takes as many steps
as it is given. And there is room for so much nesting; beyond either of these a
run stops without a fault.

| nested inside a statement | room it takes |
| --- | --- |
| the body of a called function | 5 |
| a branch of an if chain, the body of a `for` loop | 3 |
| the body of a `while` or `repeat` loop | 2 |
| an expression | its depth |

The innermost statement takes 5 as well.
-/

import Shank.Builtin
import Shank.Run.Evaluate

namespace Shank

/-- The limits of a run that are not those of the machine: how many functions
may be active, and the room for nesting. -/
structure Limits where
  calls : Int := 500
  room : Nat := 19980

/-- What a run goes by: the program and the limits. -/
structure Setting where
  program : Program
  limits : Limits := {}

namespace Run

/-- Gives faults of a step a line, if they have none. -/
def atLine (line : Nat) (step : Run Unit) : Run Unit :=
  tryCatch step fun h => throw (h.atLine line)

/-- Gives faults of a step the active functions, if they have none. -/
def inFrames (frames : List String) (step : Run Unit) : Run Unit :=
  tryCatch step fun h => throw (h.inFrames frames)

/-- Runs statements one after the other, each of them a step. -/
def block (statement : Stmt → Run Unit) : List Stmt → Run Unit
  | [] => pure ()
  | s :: rest => do
    tick
    atLine s.line (statement s)
    block statement rest

/-! ## Expressions

Expressions are evaluated on the store, and change nothing.
-/

/-- The value of an expression. -/
def evaluate (f : Frame) (e : Expr) : Run Operand := do
  ofExcept (e.evaluate (← store) f)

/-- The truth of a condition. -/
def holds (f : Frame) (e : Expr) : Run Bool := do
  ofExcept (e.holds (← store) f)

/-! ## Calls

Arguments are looked up or evaluated, then the parameters are bound to them and
the locals declared, and then the body is run in the frame that comes of it.
-/

/-- The argument of a call at run time. -/
def actual (f : Frame) : Argument → Run Actual
  | .value _ e => return .value (← evaluate f e)
  | .reference _ name _ =>
    if f.isConstant name then fail (.constantPassed name)
    else return .reference (← ofExcept (f.place name))

/-- The arguments of a call at run time. -/
def actuals (f : Frame) : List Argument → Run (List Actual)
  | [] => pure []
  | a :: rest => do
    let first ← actual f a
    return first :: (← actuals f rest)

/-- A variable of its own for a parameter: an array is copied, a scalar is read
from its text. -/
def copyArgument (type : DeclaredType) (v : Operand) : Run Place := do
  match type, v with
  | _, .array i => allocate ((← store).cell i)
  | .scalar type, .scalar v =>
    let _ ← ofExcept type.initial
    allocate (.scalar type (← ofCause (type.read v.text)))
  | .array bounds element, _ => allocate (← ofExcept (Cell.initial (.array bounds element)))

/-- Binds a parameter to an argument. -/
def bindParameter (function : String) (f : Frame) (p : Variable) (a : Actual) : Run Frame := do
  let v := a.operand (← store)
  if Store.tag v ≠ p.type.tag then
    fail (.argumentKind p.name function p.type.tag (Store.tag v))
  else if p.isVar then
    match a with
    | .reference place => pure (f.bind p.name place)
    | .value _ => fail (.argumentNotVar p.name function)
  else return f.bind p.name (← copyArgument p.type v)

/-- Binds parameters to arguments, one after the other. -/
def bindParameters (function : String) : Frame → List Variable → List Actual → Run Frame
  | f, p :: ps, a :: as => do bindParameters function (← bindParameter function f p a) ps as
  | f, _, _ => pure f

/-- Declares a local constant or variable. -/
def declareLocal (f : Frame) : Local → Run Frame
  | .constant c => do
    let v ← ofExcept c.value.evaluate
    return f.bindConstant c.name (← allocate (.plain v))
  | .var d => do
    let c ← ofExcept (Cell.initial d.type)
    return f.bind d.name (← allocate c)

/-- Declares locals in order. -/
def declareLocals : Frame → List Local → Run Frame
  | f, [] => pure f
  | f, d :: rest => do declareLocals (← declareLocal f d) rest

/-- The frame of a call. -/
def enter (function : Function) (args : List Actual) : Run Frame := do
  if args.length ≠ function.parameters.length then
    fail (.argumentCount function.name function.parameters.length args.length)
  else
    let f ← bindParameters function.name {} function.parameters args
    declareLocals f function.locals

/-- Runs a function, given how to run a body. `stack` holds the active
functions, the innermost first. -/
def activate (limit : Int) (body : List String → Frame → List Stmt → Run Unit)
    (stack : List String) (function : Function) (args : List Actual) : Run Unit := do
  if limit ≤ stack.length then fail (.callDepth limit)
  else
    let frame ← enter function args
    begin_ { function, frame }
    let stack := function.name :: stack
    record (.noticed (.functionEntered function.name stack.length))
    inFrames stack (body stack frame function.body)

/-- Runs a call: a built-in function if the name is that of one, else a function
of the program. -/
def call (setting : Setting) (body : List String → Frame → List Stmt → Run Unit)
    (stack : List String) (f : Frame) (name : String) (args : List Argument) : Run Unit := do
  let args ← actuals f args
  match Builtin.ofName? name with
  | some b =>
    record (.noticed (.builtinCalled name args.length))
    b.invoke args
  | none =>
    match setting.program.find? name with
    | some function => activate setting.limits.calls body stack function args
    | none => fail (.unknownFunction name)

/-! ## Other statements

Loops are given as many rounds as there are steps left, so a run is a function
of its machine, and one that would not end stops when the steps are used up.
-/

/-- Runs an assignment. -/
def assign (f : Frame) (t : Target) (e : Expr) : Run Unit := do
  if f.isConstant t.name then fail (.constantAssigned t.name)
  else
    let s ← store
    let p ← ofExcept (t.locate s f)
    let v ← ofExcept (e.evaluate s f)
    write p (s.text v)

/-- Runs the first branch whose condition holds. -/
def ifChain (f : Frame) (body : List Stmt → Run Unit) : List Branch → Run Unit
  | [] => pure ()
  | .mk _ none statements :: _ => body statements
  | .mk _ (some condition) statements :: rest => do
    if ← holds f condition then body statements else ifChain f body rest

/-- Goes round as long as `round` answers yes. Each time takes a step, so the
steps left, and one for the time there is none, bound the number of times. -/
def loopFrom (round : Run Bool) : Nat → Run Unit
  | 0 => throw .unfinished
  | bound + 1 => do
    tick
    if ← round then loopFrom round bound

/-- Goes round as long as `round` answers yes. -/
def loop (round : Run Bool) : Run Unit := do
  loopFrom round ((← stepsLeft) + 1)

/-- Runs a `while` loop: the condition comes first. -/
def whileLoop (f : Frame) (condition : Expr) (body : Run Unit) : Run Unit :=
  loop (do if ← holds f condition then body; pure true else pure false)

/-- Runs a `repeat` loop: the body comes first, and the loop ends when the
condition holds. -/
def repeatLoop (f : Frame) (condition : Expr) (body : Run Unit) : Run Unit :=
  loop (do body; return !(← holds f condition))

/-- Counts integers from `counter` on, as many as told. -/
def countIntegers (round : Int → Run Unit) : Nat → Int → Run Unit
  | 0, _ => pure ()
  | count + 1, counter => do
    round counter
    countIntegers round count (counter + 1)

/-- Counts reals from `counter` on, one more each time, as long as they are not
above `high`. A large number stays the same when one is added, so this need not
end; each time takes a step. -/
def countRealsFrom (round : Ieee → Run Unit) (high : Ieee) : Nat → Ieee → Run Unit
  | 0, _ => throw .unfinished
  | bound + 1, counter => do
    if counter.le high then
      tick
      round counter
      countRealsFrom round high bound (Format.double.add counter (.finite 1))

/-- Counts reals from `low` on, as long as they are not above `high`. -/
def countReals (round : Ieee → Run Unit) (low high : Ieee) : Run Unit := do
  countRealsFrom round high ((← stepsLeft) + 1) low

/-- Runs a `for` loop. Its bounds are evaluated once, and so is the place of its
variable; each round stores the text of the counter in it. -/
def forLoop (f : Frame) (name : String) (start stop : Expr) (body : Run Unit) : Run Unit := do
  let low ← evaluate f start
  let high ← evaluate f stop
  let constant : Run Unit := if f.isConstant name then fail (.constantCounted name) else pure ()
  match low, high with
  | .scalar (.integer a), .scalar (.integer b) =>
    constant
    let p ← ofExcept (f.place name)
    countIntegers (fun n => do write p (Scalar.integer n).text; body) (Interval.size ⟨a, b⟩) a
  | .scalar (.real a), .scalar (.real b) =>
    constant
    let p ← ofExcept (f.place name)
    countReals (fun x => do write p (Scalar.real (Format.single.round x)).text; body) a b
  | low, high => fail (.loopBounds (Store.tag low) (Store.tag high))

/-- Runs a statement, if there is room for it and for the expressions in its
head. -/
def statement (setting : Setting) : Nat → List String → Frame → Stmt → Run Unit
  | room + 5, stack, f, s =>
    if room < s.headDepth then throw .tooDeep
    else
      match s with
      | .assign _ target value => assign f target value
      | .ifChain _ branches => ifChain f (block (statement setting (room + 2) stack f)) branches
      | .whileLoop _ condition body =>
        whileLoop f condition (block (statement setting (room + 3) stack f) body)
      | .repeatLoop _ condition body =>
        repeatLoop f condition (block (statement setting (room + 3) stack f) body)
      | .forLoop _ name _ start stop body =>
        forLoop f name start stop (block (statement setting (room + 2) stack f) body)
      | .call _ name args =>
        call setting (fun stack f => block (statement setting room stack f)) stack f name args
  | _, _, _, _ => throw .tooDeep

/-- Runs a function from outside of any other. A run that is nested too deep
ends as a fault of that function. -/
def function (setting : Setting) (function : Function) (args : List Actual) : Run Unit :=
  tryCatch
    (activate setting.limits.calls
      (fun stack f => block (statement setting setting.limits.room stack f)) [] function args)
    fun
      | .tooDeep => throw (.fault { cause := .roomExhausted, frames := [function.name] })
      | h => throw h

/-- Runs the function of a name. -/
def entry (setting : Setting) (name : String) : Run Unit :=
  match setting.program.find? name with
  | some f => function setting f []
  | none => fail (.noEntry name)

end Run

/-- How a run came out: the machine at its end, and why it stopped, if not at
the end of the program. -/
structure Outcome where
  machine : Machine
  halt : Option Halt

namespace Outcome

/-- The outcome of a run that starts on a machine. -/
def of (run : Run Unit) (m : Machine) : Outcome :=
  match run m with
  | .ok _ m => ⟨m, none⟩
  | .error h m => ⟨m, some h⟩

/-- All that happened. -/
def events (o : Outcome) : List Event :=
  o.machine.events.toList

/-- What a run printed, one part after the other. -/
def output (o : Outcome) : String :=
  outputOf o.events

/-- What a run reported of refused calls, in the order of the calls. -/
def reports (o : Outcome) : String :=
  reportsOf o.events

end Outcome

/-- Runs a program from a function of it, on some machine. -/
def Program.runOn (p : Program) (entry : String) (limits : Limits) (m : Machine) : Outcome :=
  Outcome.of (Run.entry { program := p, limits } entry) m

/-- Runs a program from a function of it, on some input. -/
def Program.run (p : Program) (entry : String) (input : String) (limits : Limits := {})
    (random : Random := {}) : Outcome :=
  p.runOn entry limits { input := Text.textLines input, random }

end Shank
