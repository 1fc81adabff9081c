/-
# What a run meets

Two things in a run may have no value: the remainder of two reals, and the
number that a real variable with a range starts with. Each of them is a
`Hazard`. Here is told which hazards a run meets on its way, harmless ones as
well: those of the expressions it evaluates and of the variables it declares,
each on the machine that the run has come to by then.

| | meets |
| --- | --- |
| an expression | the remainders in it, its parts being evaluated from left to right |
| a parameter that is not `var`, a local variable | its start, if it is a real one with a range |
| a sequence | what its first part meets, then what is met from the machine that part leaves behind |

A part that stops a run leaves nothing to be met behind it. How far a run gets
is told by the run itself; only where it looks for hazards is told here, in one
definition for each piece of `Shank.Run.Execute`.
-/

import Shank.Proofs.Ieee.Range
import Shank.Proofs.Run.Congruence

namespace Shank

/-- What may have no value in a run. -/
inductive Hazard
  /-- The remainder of a real by another one. -/
  | remainder (x y : Ieee)
  /-- The number that a real variable with this range starts with. -/
  | start (range : RealInterval)

/-- The halt that a hazard ends a run with. A remainder is missing of an
infinity by a number that is not zero; a start is missing if it would be an
integer bound that is too large for a double. -/
def Hazard.Raises : Hazard → Halt → Prop
  | remainder x y, .remainderUndefined => x.IsInfinite ∧ ¬y.IsZero ∧ y ≠ .nan
  | start range, .boundTooLarge =>
    ∃ n, range.clampZero = .whole n ∧ 2 ^ 1024 ≤ n.natAbs + 2 ^ 970
  | _, _ => False

/-- The hazards that the value of an expression meets. -/
inductive Expr.Meets (s : Store) (f : Frame) : Expr → Hazard → Prop
  | index {line : Nat} {name : String} {e : Expr} {i : Nat} {z : Hazard} :
    f.arrayCell s name = .ok i → Meets s f e z → Meets s f (.element line name e) z
  | left {line : Nat} {op : ArithOp} {left right : Expr} {z : Hazard} :
    Meets s f left z → Meets s f (.arithmetic line op left right) z
  | right {line : Nat} {op : ArithOp} {left right : Expr} {a : Operand} {z : Hazard} :
    left.evaluate s f = .ok a → Meets s f right z → Meets s f (.arithmetic line op left right) z
  | remainder {line : Nat} {left right : Expr} {x y : Ieee} :
    left.evaluate s f = .ok (.scalar (.real x)) → right.evaluate s f = .ok (.scalar (.real y)) →
      Meets s f (.arithmetic line .mod left right) (.remainder x y)
  | compareLeft {line : Nat} {op : CompareOp} {left right : Expr} {z : Hazard} :
    Meets s f left z → Meets s f (.comparison line op left right) z
  | compareRight {line : Nat} {op : CompareOp} {left right : Expr} {a : Operand} {z : Hazard} :
    left.evaluate s f = .ok a → Meets s f right z → Meets s f (.comparison line op left right) z

/-- The hazards that a computation meets, started on a machine. -/
abbrev Meeting := Machine → Hazard → Prop

namespace Meeting

variable {α : Type}

/-- What meets no hazards. -/
def nothing : Meeting :=
  fun _ _ => False

/-- What is met behind a computation that gives something. -/
def behind (x : Run α) (next : α → Meeting) : Meeting :=
  fun m z => ∃ a m', x m = .ok a m' ∧ next a m' z

/-- What a computation meets, or what is met behind it. -/
def andThen (x : Run α) (first : Meeting) (next : α → Meeting) : Meeting :=
  fun m z => first m z ∨ behind x next m z

/-! ## Expressions and declarations

What an expression meets is a relation on its form, in the order in which it is
evaluated. A declaration meets the one hazard that its type may have.
-/

/-- What the value of an expression meets, in the store as it is then. -/
def value (f : Frame) (e : Expr) : Meeting :=
  fun m z => e.Meets m.store f z

/-- The index of a target is evaluated once its array is found. -/
def target (f : Frame) (t : Target) : Meeting :=
  match t.index with
  | none => nothing
  | some e => fun m z => (∃ i, f.arrayCell m.store t.name = .ok i) ∧ e.Meets m.store f z

/-- What a variable of a type meets as it is given its start. Only a real one
with a range has a start to compute. -/
def declared : DeclaredType → Meeting
  | .scalar (.real (some range)) => fun _ z => z = .start range
  | _ => nothing

/-! ## Calls

Arguments, parameters, locals, and then the body. Each is met on the machine
that the ones before it leave, if they come so far.
-/

/-- What an argument meets. One that is passed with `var` is looked up and not
evaluated. -/
def actual (f : Frame) : Argument → Meeting
  | .value _ e => value f e
  | .reference _ _ _ => nothing

/-- What arguments meet, one after the other. -/
def actuals (f : Frame) : List Argument → Meeting
  | [] => nothing
  | a :: rest => andThen (Run.actual f a) (actual f a) fun _ => actuals f rest

/-- A parameter that is not `var` is declared once its argument is known to be
of its kind. -/
def parameter (v : Variable) (a : Actual) : Meeting :=
  fun m z => Store.tag (a.operand m.store) = v.type.tag ∧ v.isVar = false ∧ declared v.type m z

/-- What parameters meet, each bound in the frame that those before it give. -/
def parameters (function : String) : Frame → List Variable → List Actual → Meeting
  | f, v :: vs, a :: as =>
    andThen (Run.bindParameter function f v a) (parameter v a) fun f => parameters function f vs as
  | _, _, _ => nothing

/-- What a local declaration meets. A constant has its value from a literal. -/
def declaredLocal : Local → Meeting
  | .constant _ => nothing
  | .var v => declared v.type

/-- What local declarations meet, one after the other. -/
def locals : Frame → List Local → Meeting
  | _, [] => nothing
  | f, d :: rest => andThen (Run.declareLocal f d) (declaredLocal d) fun f => locals f rest

/-- What entering a function meets: first its parameters, then its locals. With
the wrong number of arguments it is not entered. -/
def enter (function : Function) (args : List Actual) : Meeting :=
  if args.length ≠ function.parameters.length then nothing
  else
    andThen (Run.bindParameters function.name {} function.parameters args)
      (parameters function.name {} function.parameters args) fun f => locals f function.locals

/-- What a function meets, given what bodies meet. -/
def activate (limit : Int) (body : List String → Frame → List Stmt → Meeting)
    (stack : List String) (function : Function) (args : List Actual) : Meeting :=
  if limit ≤ stack.length then nothing
  else
    andThen (Run.enter function args) (enter function args) fun f m =>
      body (function.name :: stack) f function.body (m.entered ⟨function, f⟩ (stack.length + 1))

/-- What a call meets: its arguments, then the function, given what functions
meet. Built-in functions meet nothing. -/
def call (p : Program) (activate : Function → List Actual → Meeting) (f : Frame) (name : String)
    (args : List Argument) : Meeting :=
  andThen (Run.actuals f args) (actuals f args) fun args =>
    match Builtin.ofName? name, p.find? name with
    | none, some function => activate function args
    | _, _ => nothing

/-! ## Other statements

For each form of statement, what it meets in terms of what its blocks meet. The
definitions follow those of the run.
-/

/-- The value is evaluated once the place for it is found. -/
def assign (f : Frame) (t : Target) (e : Expr) : Meeting :=
  if f.isConstant t.name then nothing
  else fun m z => target f t m z ∨ (∃ q, t.locate m.store f = .ok q) ∧ value f e m z

/-- What a chain of branches meets: its conditions up to the first that holds,
then the block of that one. -/
def ifChain (f : Frame) (body : List Stmt → Meeting) : List Branch → Meeting
  | [] => nothing
  | .mk _ none statements :: _ => body statements
  | .mk _ (some condition) statements :: rest =>
    andThen (Run.holds f condition) (value f condition) fun holds =>
      if holds then body statements else ifChain f body rest

/-- What a loop meets in its rounds, at most as many as told. -/
def loopFrom (round : Run Bool) (met : Meeting) : Nat → Meeting
  | 0 => nothing
  | bound + 1 =>
    behind Run.tick fun _ => andThen round met fun again =>
      if again then loopFrom round met bound else nothing

/-- What a loop meets. Its bound is that of the loop itself, one more than the
steps that are left. -/
def loop (round : Run Bool) (met : Meeting) : Meeting :=
  fun m => loopFrom round met (m.steps + 1) m

/-- What a `while` loop meets, given what its body meets. -/
def whileLoop (f : Frame) (condition : Expr) (body : Run Unit) (met : Meeting) : Meeting :=
  loop (do if ← Run.holds f condition then body; pure true else pure false)
    (andThen (Run.holds f condition) (value f condition) fun holds => if holds then met else nothing)

/-- What a `repeat` loop meets, given what its body meets. -/
def repeatLoop (f : Frame) (condition : Expr) (body : Run Unit) (met : Meeting) : Meeting :=
  loop (do body; return !(← Run.holds f condition)) (andThen body met fun _ => value f condition)

/-- What a counting loop over integers meets in its rounds. -/
def countIntegers (round : Int → Run Unit) (met : Int → Meeting) : Nat → Int → Meeting
  | 0, _ => nothing
  | count + 1, counter =>
    andThen (round counter) (met counter) fun _ => countIntegers round met count (counter + 1)

/-- What a counting loop over reals meets in its rounds, at most as many as
told. -/
def countRealsFrom (round : Ieee → Run Unit) (met : Ieee → Meeting) (high : Ieee) :
    Nat → Ieee → Meeting
  | 0, _ => nothing
  | bound + 1, counter =>
    if counter.le high then
      behind Run.tick fun _ => andThen (round counter) (met counter) fun _ =>
        countRealsFrom round met high bound (Format.double.add counter (.finite 1))
    else nothing

/-- What a `for` loop meets, given what its body meets. -/
def forLoop (f : Frame) (name : String) (start stop : Expr) (body : Run Unit) (met : Meeting) :
    Meeting :=
  andThen (Run.evaluate f start) (value f start) fun low =>
  andThen (Run.evaluate f stop) (value f stop) fun high =>
    if f.isConstant name then nothing
    else
      match low, high, f.place name with
      | .scalar (.integer a), .scalar (.integer b), .ok q =>
        countIntegers (fun n => do Run.write q (Scalar.integer n).text; body)
          (fun n => behind (Run.write q (Scalar.integer n).text) fun _ => met)
          (Interval.size ⟨a, b⟩) a
      | .scalar (.real a), .scalar (.real b), .ok q => fun m =>
        countRealsFrom (fun x => do Run.write q (Scalar.real (Format.single.round x)).text; body)
          (fun x => behind (Run.write q (Scalar.real (Format.single.round x)).text) fun _ => met)
          b (m.steps + 1) a m
      | _, _, _ => nothing

/-- What statements one after the other meet, given what each of them meets. -/
def block (run : Stmt → Run Unit) (met : Stmt → Meeting) : List Stmt → Meeting
  | [] => nothing
  | s :: rest =>
    behind Run.tick fun _ => andThen (Run.atLine s.line (run s)) (met s) fun _ => block run met rest

/-! ## Statements and whole runs

The knot is tied as in the run itself, by the room for nesting.
-/

/-- What a statement meets, given what the blocks in it and the functions it
calls meet. -/
def level (p : Program) (inner : List Stmt → Run Unit) (innerMet : List Stmt → Meeting)
    (looped : List Stmt → Run Unit) (loopedMet : List Stmt → Meeting)
    (activate : Function → List Actual → Meeting) (room : Nat) (f : Frame) (s : Stmt) : Meeting :=
  if room < s.headDepth then nothing
  else
    match s with
    | .assign _ t value => assign f t value
    | .ifChain _ branches => ifChain f innerMet branches
    | .whileLoop _ condition body => whileLoop f condition (looped body) (loopedMet body)
    | .repeatLoop _ condition body => repeatLoop f condition (looped body) (loopedMet body)
    | .forLoop _ name _ start stop body => forLoop f name start stop (inner body) (innerMet body)
    | .call _ name args => call p activate f name args

/-- What a statement meets. The room for nesting is spent as in
`Shank.Run.statement`, and where it runs out nothing is met. -/
def statement (setting : Setting) : Nat → List String → Frame → Stmt → Meeting
  | room + 5, stack, f, s =>
    level setting.program
      (Run.block (Run.statement setting (room + 2) stack f))
      (block (Run.statement setting (room + 2) stack f) (statement setting (room + 2) stack f))
      (Run.block (Run.statement setting (room + 3) stack f))
      (block (Run.statement setting (room + 3) stack f) (statement setting (room + 3) stack f))
      (activate setting.limits.calls
        (fun stack f => block (Run.statement setting room stack f) (statement setting room stack f))
        stack)
      room f s
  | _, _, _, _ => nothing

/-- What a run from an entry function meets. -/
def entry (setting : Setting) (name : String) : Meeting :=
  match setting.program.find? name with
  | some function =>
    activate setting.limits.calls
      (fun stack f => block (Run.statement setting setting.limits.room stack f)
        (statement setting setting.limits.room stack f))
      [] function []
  | none => nothing

end Meeting

/-- A run of a program from one of its functions meets a hazard. -/
def Program.Meets (p : Program) (entry : String) (limits : Limits) (m : Machine) (z : Hazard) : Prop :=
  Meeting.entry ⟨p, limits⟩ entry m z

end Shank
