/-
# Relations that runs keep

Whatever a statement does, it does by a few pieces: looking at the store, adding
a cell, storing a text at a place of its frame, input and output, steps, and
faults whose place is not known yet. The rest is sequencing. So a relation
between runs that holds of these pieces and is kept by sequencing holds of the
heads of statements, of built-in functions and of entering a function, and is
kept by blocks, branches and loops (`Congruence`).

A property of single runs is such a relation that does not look at the second
run. That whatever is left behind has a property, if what was started on has it
(`Preserves`), comes to how the store may change (`congruence_preserves`).

A statement is one `level` of nesting: it is given how to run the blocks in it,
and how to activate a function. What such a relation says of these it says of
the statement (`Congruence.level`).
-/

import Shank.Proofs.Run.Statements
import Shank.Proofs.Run.Unplaced

namespace Shank

/-- A frame reaches the places of its variables, constants left out, and all
parts of them. -/
def Frame.Reaches (f : Frame) (q : Place) : Prop :=
  ∃ g, f.Grants g ∧ g.covers q

/-- What a frame grants it reaches. -/
theorem Frame.Grants.reaches {f : Frame} {q : Place} (h : f.Grants q) : f.Reaches q :=
  ⟨q, h, rfl, .inr rfl⟩

/-- The blocks in a statement. -/
def Stmt.blocks : Stmt → List (List Stmt)
  | assign _ _ _ => []
  | ifChain _ branches => branches.map Branch.body
  | whileLoop _ _ body => [body]
  | repeatLoop _ _ body => [body]
  | forLoop _ _ _ _ _ body => [body]
  | call _ _ _ => []

/-- An event that tells of a function that is entered. -/
def Event.IsEntry : Event → Prop
  | noticed (.functionEntered _ _) => True
  | _ => False

/-- The machine on which the body of a function starts, as the one of this
depth. -/
def Machine.entered (m : Machine) (a : Activation) (depth : Nat) : Machine :=
  { m with
    activations := a :: m.activations
    events := m.events.push (.noticed (.functionEntered a.function.name depth)) }

namespace Run

/-- A handler that rethrows what is caught. -/
theorem rethrow_apply {α : Type} (x : Run α) (t : Halt → Halt) (m : Machine) :
    (tryCatch x fun h => throw (t h) : Run α) m = match x m with
      | .ok a m' => .ok a m'
      | .error h m' => .error (t h) m' := by
  cases h : x m <;> simp only [tryCatch, tryCatchThe, MonadExceptOf.tryCatch, EStateM.tryCatch, h]
  rfl

/-- A function is entered, and then its body is run on the machine that has it
for its latest activation. -/
theorem activate_apply (limit : Int) (body : List String → Frame → List Stmt → Run Unit)
    (stack : List String) (function : Function) (args : List Actual) (m : Machine) :
    activate limit body stack function args m =
      if limit ≤ stack.length then .error (.of (.callDepth limit)) m
      else match enter function args m with
        | .ok frame m' =>
          inFrames (function.name :: stack) (body (function.name :: stack) frame function.body)
            (m'.entered ⟨function, frame⟩ (stack.length + 1))
        | .error h m' => .error h m' := by
  unfold activate
  split
  · rfl
  · rw [bind_apply]
    cases enter function args m <;> rfl

end Run

/-- What a halt comes to outside of the function that was run: one nested too
deep is a fault. -/
def Halt.outside (name : String) : Halt → Halt
  | tooDeep => fault { cause := .roomExhausted, frames := [name] }
  | h => h

/-- A fault outside of a function is one from inside, or tells that the program
is nested too deep. -/
theorem Halt.outside_eq_fault {name : String} {h : Halt} {e : Fault} (he : h.outside name = .fault e) :
    h = .fault e ∨ e.cause = .roomExhausted ∧ e.line = none := by
  cases h with
  | tooDeep =>
    cases he
    exact .inr ⟨rfl, rfl⟩
  | fault | remainderUndefined | boundTooLarge | unfinished => exact .inl he

namespace Run

/-- A run of a function is an activation of it, with what a halt comes to
outside. -/
theorem function_eq (setting : Setting) (f : Function) (args : List Actual) :
    function setting f args =
      tryCatch (activate setting.limits.calls
        (fun stack f => block (statement setting setting.limits.room stack f)) [] f args)
        fun h => throw (h.outside f.name) := by
  unfold function
  congr 1
  funext h
  cases h <;> rfl

/-- Runs a call, given how to activate a function. -/
def callWith (p : Program) (activate : Function → List Actual → Run Unit) (f : Frame) (name : String)
    (args : List Argument) : Run Unit := do
  let args ← actuals f args
  match Builtin.ofName? name with
  | some b =>
    record (.noticed (.builtinCalled name args.length))
    b.invoke args
  | none =>
    match p.find? name with
    | some function => activate function args
    | none => fail (.unknownFunction name)

/-- Runs a statement: `inner` runs a branch of it or the body of a `for` loop,
`looped` that of a `while` or `repeat` loop, and `activate` a function that it
calls. -/
def level (p : Program) (inner looped : List Stmt → Run Unit)
    (activate : Function → List Actual → Run Unit) (room : Nat) (f : Frame) (s : Stmt) : Run Unit :=
  if room < s.headDepth then throw .tooDeep
  else
    match s with
    | .assign _ target value => assign f target value
    | .ifChain _ branches => ifChain f inner branches
    | .whileLoop _ condition body => whileLoop f condition (looped body)
    | .repeatLoop _ condition body => repeatLoop f condition (looped body)
    | .forLoop _ name _ start stop body => forLoop f name start stop (inner body)
    | .call _ name args => callWith p activate f name args

/-- **A statement is one level of nesting.** Of the five levels of room that it
takes, its branches and the bodies of `for` loops get two back, the bodies of
other loops three, and what it calls none. -/
theorem statement_eq (setting : Setting) (room : Nat) (stack : List String) (f : Frame) (s : Stmt) :
    statement setting (room + 5) stack f s =
      level setting.program (block (statement setting (room + 2) stack f))
        (block (statement setting (room + 3) stack f))
        (activate setting.limits.calls (fun stack f => block (statement setting room stack f)) stack)
        room f s := by
  unfold statement level
  split
  · rfl
  · cases s <;> rfl

/-- Without room for it a statement is not run. -/
theorem statement_of_lt {setting : Setting} {room : Nat} (h : room < 5) (stack : List String)
    (f : Frame) (s : Stmt) : statement setting room stack f s = throw .tooDeep := by
  rcases room with _ | _ | _ | _ | _ | room
  iterate 5 rfl
  omega

/-- A relation between runs, for statements of a frame, that holds of the pieces
they are made of and is kept by sequencing. -/
structure Congruence (f : Frame) (Φ : ∀ α : Type, Run α → Run α → Prop) : Prop where
  pure {α : Type} (a : α) : Φ α (pure a) (pure a)
  throw {α : Type} {h : Halt} (hh : h.IsUnplaced) : Φ α (throw h) (throw h)
  /-- What follows on a run is only asked about outcomes that the run can have. -/
  bind {α β : Type} {x x' : Run α} {k k' : α → Run β} (hx : Φ α x x')
    (hk : ∀ a m m', x m = .ok a m' → Φ β (k a) (k' a)) : Φ β (x >>= k) (x' >>= k')
  store : Φ Store store store
  tick : Φ Unit tick tick
  stepsLeft : Φ Nat stepsLeft stepsLeft
  allocate (c : Cell) : Φ Place (allocate c) (allocate c)
  tryWrite {q : Place} (hq : f.Reaches q) (text : String) :
    Φ (Option Cause) (tryWrite q text) (tryWrite q text)
  record {e : Event} (he : ¬e.IsEntry) : Φ Unit (record e) (record e)
  readLine : Φ String readLine readLine
  draw (low high : Int) : Φ Int (draw low high) (draw low high)

namespace Congruence

variable {f : Frame} {Φ : ∀ α : Type, Run α → Run α → Prop} {α β : Type}

section

variable (h : Congruence f Φ)
include h

/-! ## Computations on the store

The smallest pieces. They are the same on both sides of a relation, so what is
asked is that they are related to themselves.
-/

/-- A fault whose place is not known yet is related to itself. -/
theorem fail {c : Cause} (hc : c.IsLocal) : Φ α (fail c) (fail c) :=
  h.throw (Halt.isUnplaced_of hc)

/-- A check outside the machine is related to itself, if it does not place its
faults. -/
theorem ofExcept {e : Except Halt α} (he : Unplaced e) : Φ α (ofExcept e) (ofExcept e) := by
  cases e with
  | ok a => exact h.pure a
  | error e => exact h.throw (he e rfl)

/-- What follows such a check needs to be related for the values that the check
can give. -/
theorem ofExcept_bind {e : Except Halt α} {k k' : α → Run β} (he : Unplaced e)
    (hk : ∀ a, e = .ok a → Φ β (k a) (k' a)) :
    Φ β (Run.ofExcept e >>= k) (Run.ofExcept e >>= k') :=
  h.bind (h.ofExcept he) fun a _ _ ha => hk a (ofExcept_ok ha).1

/-- A check that fails with a cause is related to itself, if the cause tells of
no place. -/
theorem ofCause {e : Except Cause α} (he : AllLocal e) : Φ α (ofCause e) (ofCause e) := by
  cases e with
  | ok a => exact h.pure a
  | error c => exact h.fail (he c rfl)

/-- Evaluating an expression is related to itself, in any frame. -/
theorem evaluate (g : Frame) (e : Expr) : Φ Operand (evaluate g e) (evaluate g e) :=
  h.bind h.store fun s _ _ _ => h.ofExcept (e.unplaced_evaluate s g)

/-- Testing a condition is related to itself. -/
theorem holds (g : Frame) (e : Expr) : Φ Bool (holds g e) (holds g e) :=
  h.bind h.store fun s _ _ _ => h.ofExcept (e.unplaced_holds s g)

/-- Storing a text at a place that the frame reaches is related to itself. -/
theorem write {q : Place} (hq : f.Reaches q) (text : String) :
    Φ Unit (write q text) (write q text) := by
  -- a text that is stored or refused: what is wrong with it has to do with conversion only
  refine h.bind (h.tryWrite hq text) fun o m m' ho => ?_
  cases o with
  | none => exact h.pure ()
  | some c =>
    refine h.fail ?_
    obtain ⟨_, m₁, _, hwrite⟩ := bind_ok ho
    rw [modifyGet_apply] at hwrite
    cases hreading : m₁.store.reading q text with
    | ok v =>
      simp only [hreading] at hwrite
      cases hwrite
    | error c' =>
      simp only [hreading] at hwrite
      cases hwrite
      exact Store.allLocal_reading _ _ _ _ hreading

/-! ## Arguments and built-in functions

A built-in function stores only at the places passed to it, which the frame of
the caller reaches.
-/

/-- Evaluating arguments is related to itself. -/
theorem actuals (g : Frame) (args : List Argument) : Φ (List Actual) (actuals g args) (actuals g args) := by
  induction args with
  | nil => exact h.pure []
  | cons a rest ih =>
    refine h.bind ?_ fun _ _ _ _ => h.bind ih fun _ _ _ _ => h.pure _
    cases a with
    | value _ e => exact h.bind (h.evaluate g e) fun _ _ _ _ => h.pure _
    | reference _ name _ =>
      by_cases hc : g.isConstant name = true
      · rw [actual, if_pos hc]
        exact h.fail trivial
      · rw [actual, if_neg hc]
        exact h.ofExcept_bind (g.unplaced_place name) fun _ _ => h.pure _

/-- Reading lines into places that the frame reaches is related to itself. -/
theorem readInto {qs : List Place} (hq : ∀ q ∈ qs, f.Reaches q) :
    Φ (Option Builtin.Problem) (Builtin.readInto qs) (Builtin.readInto qs) := by
  induction qs with
  | nil => exact h.pure none
  | cons q rest ih =>
    refine h.bind h.readLine fun line _ _ _ =>
      h.bind (h.tryWrite (hq q (List.mem_cons_self ..)) line) fun o _ _ _ => ?_
    cases o with
    | none => exact ih fun r hr => hq r (List.mem_cons_of_mem _ hr)
    | some c => exact h.pure _

/-- Storing the result of a built-in function is related to itself, at a place
that the frame reaches. -/
theorem storeResult {q : Place} (hq : f.Reaches q) (r : Except Builtin.Problem String) :
    Φ (Option Builtin.Problem) (Builtin.storeResult q r) (Builtin.storeResult q r) := by
  cases r with
  | error problem => exact h.pure _
  | ok text => exact h.bind (h.tryWrite hq text) fun _ _ _ _ => h.pure _

variable {args : List Actual} (hargs : ∀ q, .reference q ∈ args → f.Reaches q)
include hargs

/-- **A built-in function is related to itself** if the frame reaches what is
passed to it with `var`. -/
theorem perform (b : Builtin) : Φ (Option Builtin.Problem) (b.perform args) (b.perform args) := by
  refine h.bind h.store fun s _ _ _ => ?_
  split
  · exact h.readInto fun q hq => hargs q (Builtin.mem_places.1 hq)
  · exact h.bind (h.record not_false) fun _ _ _ _ => h.pure none
  · split
    · exact h.bind (h.draw _ _) fun n _ _ _ =>
        h.storeResult (hargs _ (Builtin.mem_of_divide ‹_›)) _
    · exact h.pure none
  · split
    · rename_i hd
      exact h.storeResult (hargs _ (Builtin.mem_of_divide (congrArg Prod.snd hd))) _
    · exact h.pure none

/-- **A call of a built-in function is related to itself**, with the report of
what went wrong in it. -/
theorem invoke (b : Builtin) : Φ Unit (b.invoke args) (b.invoke args) := by
  have refuse (problem : Builtin.Problem) : Φ Unit (b.refuse problem) (b.refuse problem) :=
    h.bind (h.record not_false) fun _ _ _ _ => h.record not_false
  refine h.bind h.store fun s _ _ _ => ?_
  split
  · exact refuse _
  · refine h.bind (h.perform hargs b) fun o _ _ _ => ?_
    cases o with
    | some problem => exact refuse problem
    | none => exact h.pure ()

end

/-! ## Entering a function

Cells are added for parameters and locals, each with what its type starts with
or with a copy of an argument.
-/

section

variable (h : Congruence f Φ)
include h

/-- Passing by value adds a cell and is related to itself. -/
theorem copyArgument (type : DeclaredType) (v : Operand) :
    Φ Place (copyArgument type v) (copyArgument type v) := by
  unfold Run.copyArgument
  split
  · exact h.bind h.store fun s _ _ _ => h.allocate _
  · exact h.bind (h.ofExcept (ScalarType.unplaced_initial _)) fun _ _ _ _ =>
      h.bind (h.ofCause (ScalarType.allLocal_read _ _)) fun _ _ _ _ => h.allocate _
  · exact h.bind (h.ofExcept (Cell.unplaced_initial _)) fun _ _ _ _ => h.allocate _

/-- Binding a parameter is related to itself. -/
theorem bindParameter (function : String) (g : Frame) (v : Variable) (a : Actual) :
    Φ Frame (bindParameter function g v a) (bindParameter function g v a) := by
  refine h.bind h.store fun s _ _ _ => ?_
  dsimp only
  split
  · exact h.fail trivial
  · split
    · cases a with
      | reference q => exact h.pure _
      | value _ => exact h.fail trivial
    · exact h.bind (h.copyArgument _ _) fun _ _ _ _ => h.pure _

/-- Binding all parameters is related to itself. -/
theorem bindParameters (function : String) (g : Frame) (ps : List Variable) (as : List Actual) :
    Φ Frame (bindParameters function g ps as) (bindParameters function g ps as) := by
  induction ps generalizing g as with
  | nil => exact h.pure g
  | cons v ps ih =>
    cases as with
    | nil => exact h.pure g
    | cons a as => exact h.bind (h.bindParameter function g v a) fun g _ _ _ => ih g as

/-- Declaring a local is related to itself. -/
theorem declareLocal (g : Frame) (d : Local) : Φ Frame (declareLocal g d) (declareLocal g d) := by
  cases d with
  | constant c =>
    exact h.bind (h.ofExcept c.value.unplaced_evaluate) fun _ _ _ _ =>
      h.bind (h.allocate _) fun _ _ _ _ => h.pure _
  | var v =>
    exact h.bind (h.ofExcept (Cell.unplaced_initial _)) fun _ _ _ _ =>
      h.bind (h.allocate _) fun _ _ _ _ => h.pure _

/-- Declaring all locals is related to itself. -/
theorem declareLocals (g : Frame) (ds : List Local) :
    Φ Frame (declareLocals g ds) (declareLocals g ds) := by
  induction ds generalizing g with
  | nil => exact h.pure g
  | cons d ds ih => exact h.bind (h.declareLocal g d) fun g _ _ _ => ih g

/-- **Entering a function is related to itself.** It adds cells and stores at no
place of the frame it comes from. -/
theorem enter (function : Function) (args : List Actual) :
    Φ Frame (enter function args) (enter function args) := by
  unfold Run.enter
  split
  · exact h.fail trivial
  · exact h.bind (h.bindParameters ..) fun g _ _ _ => h.declareLocals g _

/-! ## Heads of statements

What a statement does before its blocks, and how an if chain finds the block to
run.
-/

/-- An assignment is related to itself. -/
theorem assign (t : Target) (e : Expr) : Φ Unit (assign f t e) (assign f t e) := by
  by_cases hc : f.isConstant t.name = true
  · rw [Run.assign, if_pos hc]
    exact h.fail trivial
  · rw [Run.assign, if_neg hc]
    refine h.bind h.store fun s _ _ _ => h.ofExcept_bind (t.unplaced_locate s f) fun q hq =>
      h.bind (h.ofExcept (e.unplaced_evaluate s f)) fun v _ _ _ => h.write ?_ _
    obtain ⟨g, hg, hcovers⟩ := Target.locate_covers hq
    exact ⟨g, ⟨t.name, by simpa using hc, hg⟩, hcovers⟩

/-- Chains of branches are related if their blocks are. -/
theorem ifChain {body body' : List Stmt → Run Unit} (branches : List Branch)
    (hbody : ∀ b ∈ branches, Φ Unit (body b.body) (body' b.body)) :
    Φ Unit (ifChain f body branches) (ifChain f body' branches) := by
  induction branches with
  | nil => exact h.pure ()
  | cons b rest ih =>
    have hfirst := hbody b (List.mem_cons_self ..)
    have hrest := ih fun c hc => hbody c (List.mem_cons_of_mem _ hc)
    obtain ⟨_, _ | condition, statements⟩ := b
    · exact hfirst
    · refine h.bind (h.holds f condition) fun holds _ _ _ => ?_
      cases holds with
      | true => exact hfirst
      | false => exact hrest

/-! ## Blocks and loops

A loop has a bound that is read off the steps left. Its rounds are related, so
the loops are, whatever that bound comes to.
-/

/-- **Blocks are related if their statements are**, each with its line added to
a fault. -/
theorem block {run run' : Stmt → Run Unit} (ss : List Stmt)
    (hs : ∀ s ∈ ss, Φ Unit (atLine s.line (run s)) (atLine s.line (run' s))) :
    Φ Unit (block run ss) (block run' ss) := by
  induction ss with
  | nil => exact h.pure ()
  | cons s rest ih =>
    exact h.bind h.tick fun _ _ _ _ => h.bind (hs s (List.mem_cons_self ..)) fun _ _ _ _ =>
      ih fun t ht => hs t (List.mem_cons_of_mem _ ht)

/-- Loops up to a bound are related if their rounds are. -/
theorem loopFrom {round round' : Run Bool} (hround : Φ Bool round round') (bound : Nat) :
    Φ Unit (loopFrom round bound) (loopFrom round' bound) := by
  induction bound with
  | zero => exact h.throw fun _ he => nomatch he
  | succ bound ih =>
    refine h.bind h.tick fun _ _ _ _ => h.bind hround fun goes _ _ _ => ?_
    cases goes with
    | true => exact ih
    | false => exact h.pure ()

/-- Loops are related if their rounds are, since reading off the steps that are
left, their bound, is. -/
theorem loop {round round' : Run Bool} (hround : Φ Bool round round') :
    Φ Unit (loop round) (loop round') :=
  h.bind h.stepsLeft fun _ _ _ _ => h.loopFrom hround _

/-- Loops with `while` are related if their bodies are. -/
theorem whileLoop {body body' : Run Unit} (condition : Expr) (hbody : Φ Unit body body') :
    Φ Unit (whileLoop f condition body) (whileLoop f condition body') := by
  refine h.loop (h.bind (h.holds f condition) fun holds _ _ _ => ?_)
  cases holds with
  | true => exact h.bind hbody fun _ _ _ _ => h.pure true
  | false => exact h.pure false

/-- Loops with `repeat` are related if their bodies are. -/
theorem repeatLoop {body body' : Run Unit} (condition : Expr) (hbody : Φ Unit body body') :
    Φ Unit (repeatLoop f condition body) (repeatLoop f condition body') :=
  h.loop (h.bind hbody fun _ _ _ _ => h.bind (h.holds f condition) fun _ _ _ _ => h.pure _)

/-- Counting loops over integers are related if their rounds are. -/
theorem countIntegers {round round' : Int → Run Unit}
    (hround : ∀ n, Φ Unit (round n) (round' n)) (count : Nat) (counter : Int) :
    Φ Unit (countIntegers round count counter) (countIntegers round' count counter) := by
  induction count generalizing counter with
  | zero => exact h.pure ()
  | succ count ih => exact h.bind (hround counter) fun _ _ _ _ => ih (counter + 1)

/-- Counting loops over reals are related if their rounds are. -/
theorem countReals {round round' : Ieee → Run Unit} (hround : ∀ x, Φ Unit (round x) (round' x))
    (low high : Ieee) : Φ Unit (countReals round low high) (countReals round' low high) := by
  have hfrom : ∀ bound counter, Φ Unit (countRealsFrom round high bound counter)
      (countRealsFrom round' high bound counter) := by
    intro bound
    induction bound with
    | zero => exact fun _ => h.throw fun _ he => nomatch he
    | succ bound ih =>
      intro counter
      simp only [countRealsFrom]
      split
      · exact h.bind h.tick fun _ _ _ _ => h.bind (hround counter) fun _ _ _ _ => ih _
      · exact h.pure ()
  exact h.bind h.stepsLeft fun _ _ _ _ => hfrom _ low

/-- Loops with `for` are related if their bodies are. -/
theorem forLoop {body body' : Run Unit} (name : String) (start stop : Expr)
    (hbody : Φ Unit body body') :
    Φ Unit (forLoop f name start stop body) (forLoop f name start stop body') := by
  refine h.bind (h.evaluate f start) fun low _ _ _ => h.bind (h.evaluate f stop) fun high _ _ _ => ?_
  by_cases hc : f.isConstant name = true
  · simp only [hc, if_true]
    split
    · exact h.fail trivial
    · exact h.fail trivial
    · exact h.fail trivial
  · have hq {q : Place} (hplace : f.place name = .ok q) : f.Reaches q :=
      Frame.Grants.reaches ⟨name, by simpa using hc, Frame.place_ok hplace⟩
    simp only [hc]
    split
    · exact h.bind (h.pure ()) fun _ _ _ _ => h.ofExcept_bind (f.unplaced_place name) fun q hplace =>
        h.countIntegers (fun n => h.bind (h.write (hq hplace) _) fun _ _ _ _ => hbody) _ _
    · exact h.bind (h.pure ()) fun _ _ _ _ => h.ofExcept_bind (f.unplaced_place name) fun q hplace =>
        h.countReals (fun x => h.bind (h.write (hq hplace) _) fun _ _ _ _ => hbody) _ _
    · exact h.fail trivial

/-! ## Statements

From the pieces to all statements, once and for all. A relation that is a
congruence, that adding lines to a fault does not disturb, and that function
calls keep, holds of every statement; the induction on the room is made here
only.
-/

/-- **What is kept by the blocks in a statement, and by the function it calls,
is kept by the statement.** -/
theorem level {p : Program} {inner inner' looped looped' : List Stmt → Run Unit}
    {activate activate' : Function → List Actual → Run Unit} {room : Nat} (s : Stmt)
    (hinner : ∀ body ∈ s.blocks, Φ Unit (inner body) (inner' body))
    (hlooped : ∀ body ∈ s.blocks, Φ Unit (looped body) (looped' body))
    (hactivate : ∀ line name args function as, s = .call line name args →
      p.find? name = some function → (∀ q, .reference q ∈ as → f.Passes args q) →
      Φ Unit (activate function as) (activate' function as)) :
    Φ Unit (level p inner looped activate room f s) (level p inner' looped' activate' room f s) := by
  unfold Run.level
  split
  · exact h.throw fun _ he => nomatch he
  · cases s with
    | assign _ target value => exact h.assign target value
    | ifChain _ branches =>
      exact h.ifChain branches fun b hb => hinner _ (List.mem_map_of_mem hb)
    | whileLoop _ condition body =>
      exact h.whileLoop condition (hlooped _ (List.mem_singleton_self body))
    | repeatLoop _ condition body =>
      exact h.repeatLoop condition (hlooped _ (List.mem_singleton_self body))
    | forLoop _ name _ start stop body =>
      exact h.forLoop name start stop (hinner _ (List.mem_singleton_self body))
    | call line name args =>
      refine h.bind (h.actuals f args) fun as m m' has => ?_
      have hpasses := (actuals_ok has).2.1
      split
      · exact h.bind (h.record not_false) fun _ _ _ _ =>
          h.invoke (fun q hq => (hpasses q hq).grants.reaches) _
      · split
        · exact hactivate line name args _ as rfl ‹_› hpasses
        · exact h.fail trivial

end

/-- A property of single runs that composes holds of a block when it holds of
each of its statements. -/
theorem block_self {P : ∀ α : Type, Run α → Prop} (h : Congruence f fun α x _ => P α x)
    {run : Stmt → Run Unit} (ss : List Stmt) (hs : ∀ s ∈ ss, P Unit (atLine s.line (run s))) :
    P Unit (Run.block run ss) :=
  @block f _ h run run ss hs

/-- A property of single runs that composes holds of a statement when it holds
of the bodies in it and of the function it calls. -/
theorem level_self {P : ∀ α : Type, Run α → Prop} (h : Congruence f fun α x _ => P α x) {p : Program}
    {inner looped : List Stmt → Run Unit} {activate : Function → List Actual → Run Unit} {room : Nat}
    (s : Stmt) (hinner : ∀ body ∈ s.blocks, P Unit (inner body))
    (hlooped : ∀ body ∈ s.blocks, P Unit (looped body))
    (hactivate : ∀ line name args function as, s = .call line name args →
      p.find? name = some function → (∀ q, .reference q ∈ as → f.Passes args q) →
      P Unit (activate function as)) : P Unit (Run.level p inner looped activate room f s) :=
  @level f _ h p inner inner looped looped activate activate room s hinner hlooped hactivate

/-- Relations of a family that are all of this kind make up one of this kind. -/
theorem all {f : Frame} {ι : Type} {Φ : ι → ∀ α : Type, Run α → Run α → Prop}
    (h : ∀ i, Congruence f (Φ i)) : Congruence f fun α x x' => ∀ i, Φ i α x x' where
  pure a i := (h i).pure a
  throw hh i := (h i).throw hh
  bind hx hk i := (h i).bind (hx i) fun a m m' ha => hk a m m' ha i
  store i := (h i).store
  tick i := (h i).tick
  stepsLeft i := (h i).stepsLeft
  allocate c i := (h i).allocate c
  tryWrite hq text i := (h i).tryWrite hq text
  record he i := (h i).record he
  readLine i := (h i).readLine
  draw low high i := (h i).draw low high

end Congruence

/-- **What relates the pieces of statements** relates the statements of two
settings with the same program, if it is not disturbed by telling lines, and if
it relates what activates a function once it relates the bodies. -/
theorem statements_of_pieces {setting setting' : Setting} (hprogram : setting'.program = setting.program)
    {Φ : Frame → ∀ α : Type, Run α → Run α → Prop} (hpieces : ∀ f, Congruence f (Φ f))
    (hline : ∀ f line x x', Φ f Unit x x' → Φ f Unit (atLine line x) (atLine line x'))
    (hactivate : ∀ body body', (∀ stack f ss, Φ f Unit (body stack f ss) (body' stack f ss)) →
      ∀ stack f args function as, (∀ q, .reference q ∈ as → f.Passes args q) →
      Φ f Unit (activate setting.limits.calls body stack function as)
        (activate setting'.limits.calls body' stack function as))
    (room : Nat) (stack : List String) (f : Frame) (s : Stmt) :
    Φ f Unit (statement setting room stack f s) (statement setting' room stack f s) := by
  induction room using Nat.strong_induction_on generalizing stack f s with
  | _ room ih =>
    have hblock (r : Nat) (hr : r < room) (stack : List String) (f : Frame) (ss : List Stmt) :
        Φ f Unit (block (statement setting r stack f) ss) (block (statement setting' r stack f) ss) :=
      (hpieces f).block ss fun s _ => hline f s.line _ _ (ih r hr stack f s)
    rcases Nat.lt_or_ge room 5 with hroom | hroom
    · rw [statement_of_lt hroom, statement_of_lt hroom]
      exact (hpieces f).throw fun _ he => nomatch he
    · obtain ⟨room, rfl⟩ := Nat.exists_eq_add_of_le' hroom
      rw [statement_eq, statement_eq, hprogram]
      exact (hpieces f).level s (fun body _ => hblock _ (by omega) stack f body)
        (fun body _ => hblock _ (by omega) stack f body) fun _ _ args function as _ _ has =>
          hactivate _ _ (hblock room (by omega)) stack f args function as has

/-- **What the pieces of statements have** all statements have, if it is not
disturbed by telling lines, and if whatever activates a function has it once the
bodies have. -/
theorem statement_of_pieces {setting : Setting} {P : Frame → ∀ α : Type, Run α → Prop}
    (hpieces : ∀ f, Congruence f fun α x _ => P f α x)
    (hline : ∀ f line x, P f Unit x → P f Unit (atLine line x))
    (hactivate : ∀ body, (∀ stack f ss, P f Unit (body stack f ss)) → ∀ stack f args function as,
      (∀ q, .reference q ∈ as → f.Passes args q) →
      P f Unit (activate setting.limits.calls body stack function as))
    (room : Nat) (stack : List String) (f : Frame) (s : Stmt) :
    P f Unit (statement setting room stack f s) :=
  statements_of_pieces (rfl : setting.program = setting.program) hpieces
    (fun f line x _ => hline f line x) (fun body _ => hactivate body) room stack f s

/-! ## What machines keep

The first relations of this kind: that a run keeps a property of the machine.
They are about one run, so the second one is left out.
-/

/-- What is left behind has a property, if what it starts on has it; however it
ends. -/
def Preserves {α : Type} (P : Machine → Prop) (x : Run α) : Prop :=
  ∀ m, P m → P (after x m)

section

variable {P : Machine → Prop} {α β : Type}

/-- Sequencing keeps what its pieces keep. The second has to only for values
that the first can give. -/
theorem Preserves.bind {x : Run α} {k : α → Run β} (hx : Preserves P x)
    (hk : ∀ a m m', x m = .ok a m' → Preserves P (k a)) : Preserves P (x >>= k) := by
  intro m hm
  have hfirst := hx m hm
  rw [after] at hfirst ⊢
  rw [bind_apply]
  cases hr : x m with
  | ok a m' =>
    rw [hr] at hfirst
    exact hk a m m' hr m' hfirst
  | error h m' =>
    rw [hr] at hfirst
    exact hfirst

/-- What always succeeds keeps a property that its change of the machine keeps. -/
theorem preserves_of_ok {x : Run α} (g : Machine → α) (next : Machine → Machine)
    (hx : ∀ m, x m = .ok (g m) (next m)) (hnext : ∀ m, P m → P (next m)) : Preserves P x := by
  intro m hm
  rw [after, hx]
  exact hnext m hm

/-- Halting keeps everything. -/
theorem preserves_throw (h : Halt) : Preserves P (throw h : Run α) :=
  fun _ hm => hm

/-- A handler that only changes the fault keeps what the piece under it keeps. -/
theorem Preserves.rethrow {x : Run α} {t : Halt → Halt} (hx : Preserves P x) :
    Preserves P (tryCatch x fun h => throw (t h)) := by
  intro m hm
  have h := hx m hm
  rw [after] at h ⊢
  rw [rethrow_apply]
  cases hr : x m <;> rwa [hr] at h

/-- **The pieces of statements keep a property** that does not depend on input,
steps and events, and is kept as cells are added and as scalars are stored at
places that the frame reaches. -/
theorem congruence_preserves {f : Frame}
    (idle : ∀ m input random steps, P m → P { m with input, random, steps })
    (recorded : ∀ m e, ¬e.IsEntry → P m → P { m with events := m.events.push e })
    (added : ∀ m c, P m → P { m with store := (m.store.add c).1 })
    (stored : ∀ m q v, f.Reaches q → P m → P { m with store := m.store.put q v }) :
    Congruence f fun _ x _ => Preserves P x := by
  have hsame {α : Type} (g : Machine → α) : Preserves P fun m => .ok (g m) m :=
    preserves_of_ok g id (fun _ => rfl) fun _ hm => hm
  have htick : Preserves P tick := by
    intro m hm
    rw [after, tick]
    split
    · exact hm
    · exact idle m m.input m.random _ hm
  exact {
    pure a := hsame fun _ => a
    throw _ := preserves_throw _
    bind hx hk := hx.bind hk
    store := hsame _
    tick := htick
    stepsLeft := hsame _
    allocate c := htick.bind fun _ _ _ _ => preserves_of_ok (fun m => (m.store.add c).2)
      (fun m => { m with store := (m.store.add c).1 }) (fun _ => rfl) fun m hm => added m c hm
    tryWrite {q} hq text := by
      refine htick.bind fun _ _ _ _ m hm => ?_
      rw [after, modifyGet_apply]
      cases m.store.reading q text with
      | ok v => exact stored m q v hq hm
      | error c => exact hm
    record {e} he := preserves_of_ok (fun _ => ()) (fun m => { m with events := m.events.push e })
      (fun _ => rfl) fun m hm => recorded m e he hm
    readLine := by
      intro m hm
      rw [after, readLine]
      split
      · exact hm
      · exact idle m _ m.random m.steps hm
    draw low high := preserves_of_ok (fun m => (m.random.between low high).1)
      (fun m => { m with random := (m.random.between low high).2 }) (fun _ => rfl)
      fun m hm => idle m m.input _ m.steps hm }

end

/-- The pieces of statements leave the activations alone. -/
theorem congruence_activations (as : List Activation) (f : Frame) :
    Congruence f fun _ x _ => Preserves (fun m => m.activations = as) x :=
  congruence_preserves (fun _ _ _ _ h => h) (fun _ _ _ h => h) (fun _ _ h => h) fun _ _ _ _ h => h

end Run
end Shank
