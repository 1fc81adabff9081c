/-
# Runs do not see lines

A line of a program is only told with a fault; nothing that a run does depends
on it. So a program and the same one without its lines (`Program.bare`) run
alike: what differs is the line of a fault, and the functions that the
activations remember, which are those of either program.

The pieces of statements do not meet lines at all, and are the same on both
sides; what is left of a statement is how its heads and blocks are made of those
of the bare one (`level_bare`).
-/

import Shank.Proofs.Definitions
import Shank.Proofs.Print.Bare
import Shank.Proofs.Run.Congruence

namespace Shank

/-! ## What is left without lines

Lines show in two places of a run: in a fault, and in the activations, which
remember their functions. What is left of an outcome without them is what a run
is compared by.
-/

/-- A halt without the line it is told with. -/
def Halt.unlined : Halt → Halt
  | fault f => fault { f with line := none }
  | h => h

/-- An activation that remembers its function without lines. -/
def Activation.bare (a : Activation) : Activation :=
  { a with function := a.function.bare }

/-- A machine whose activations have forgotten the lines of their functions. -/
def Machine.bare (m : Machine) : Machine :=
  { m with activations := m.activations.map Activation.bare }

/-- An outcome without lines, in its machine and in its fault. -/
def Outcome.bare (o : Outcome) : Outcome :=
  ⟨o.machine.bare, o.halt.map Halt.unlined⟩

/-- What happened is told without lines anyway. -/
@[simp] theorem Outcome.events_bare (o : Outcome) : o.bare.events = o.events :=
  rfl

/-- A line that is added is not seen. -/
theorem Halt.unlined_atLine (line : Nat) (h : Halt) : (h.atLine line).unlined = h.unlined := by
  cases h with
  | fault f =>
    simp only [atLine]
    cases f.line <;> rfl
  | remainderUndefined | boundTooLarge | tooDeep | unfinished => rfl

/-- Functions are added to a fault alike, whether it has a line or not. -/
theorem Halt.unlined_inFrames {h h' : Halt} (hh : h.unlined = h'.unlined) (frames : List String) :
    (h.inFrames frames).unlined = (h'.inFrames frames).unlined := by
  have hframes (h : Halt) : (h.inFrames frames).unlined = h.unlined.inFrames frames := by
    cases h with
    | fault f =>
      simp only [inFrames, unlined]
      split <;> rfl
    | remainderUndefined | boundTooLarge | tooDeep | unfinished => rfl
  rw [hframes, hframes, hh]

/-- What a halt comes to outside of a function does not go by its line. -/
theorem Halt.unlined_outside {h h' : Halt} (hh : h.unlined = h'.unlined) (name : String) :
    (h.outside name).unlined = (h'.outside name).unlined := by
  have houtside (h : Halt) : (h.outside name).unlined = (h.unlined.outside name).unlined := by
    cases h <;> rfl
  rw [houtside, hh, ← houtside]

/-- Machines are bare alike, if they differ in their activations only, and these
are bare alike. -/
theorem Machine.bare_eq_iff {m m' : Machine} : m.bare = m'.bare ↔
    m' = { m with activations := m'.activations } ∧
      m.activations.map Activation.bare = m'.activations.map Activation.bare := by
  obtain ⟨store, input, events, activations, random, steps⟩ := m
  obtain ⟨store', input', events', activations', random', steps'⟩ := m'
  simp only [bare, mk.injEq, true_and]
  constructor
  · rintro ⟨rfl, rfl, rfl, h, rfl, rfl⟩
    exact ⟨⟨rfl, rfl, rfl, rfl, rfl⟩, h⟩
  · rintro ⟨⟨rfl, rfl, rfl, rfl, rfl⟩, h⟩
    exact ⟨rfl, rfl, rfl, h, rfl, rfl⟩

/-! ## Bare trees stay as they are

A tree that lost its lines has none to lose again. So both sides of a comparison
may be put into their bare forms.
-/

/-- A bare expression has no lines to lose. -/
@[simp] theorem Expr.bare_bare (e : Expr) : e.bare.bare = e.bare := by
  induction e <;> simp_all [bare]

/-- A bare target has no lines to lose. -/
@[simp] theorem Target.bare_bare (t : Target) : t.bare.bare = t.bare := by
  obtain ⟨line, name, index⟩ := t
  cases index <;> simp [bare]

/-- A bare argument has no lines to lose. -/
@[simp] theorem Argument.bare_bare (a : Argument) : a.bare.bare = a.bare := by
  cases a <;> simp [bare]

mutual

/-- A bare statement has no lines to lose. This recurs with blocks, branches and
chains. -/
theorem Stmt.bare_bare (s : Stmt) : s.bare.bare = s.bare := by
  cases s with
  | assign | call => simp [Stmt.bare]
  | ifChain _ branches => rw [Stmt.bare, Stmt.bare, Branch.bareChain_bareChain branches]
  | whileLoop _ _ body | repeatLoop _ _ body | forLoop _ _ _ _ _ body =>
    simp only [Stmt.bare, Stmt.bareBlock_bareBlock body, Expr.bare_bare]

/-- A block of bare statements has no lines to lose. -/
theorem Stmt.bareBlock_bareBlock (ss : List Stmt) :
    Stmt.bareBlock (Stmt.bareBlock ss) = Stmt.bareBlock ss := by
  cases ss with
  | nil => rfl
  | cons s rest =>
    rw [Stmt.bareBlock, Stmt.bareBlock, Stmt.bare_bare s, Stmt.bareBlock_bareBlock rest]

/-- A bare branch has no lines to lose. -/
theorem Branch.bare_bare (b : Branch) : b.bare.bare = b.bare := by
  obtain ⟨line, condition, body⟩ := b
  cases condition <;> simp [Branch.bare, Stmt.bareBlock_bareBlock body]

/-- A chain of bare branches has no lines to lose. -/
theorem Branch.bareChain_bareChain (bs : List Branch) :
    Branch.bareChain (Branch.bareChain bs) = Branch.bareChain bs := by
  cases bs with
  | nil => rfl
  | cons b rest =>
    rw [Branch.bareChain, Branch.bareChain, Branch.bare_bare b, Branch.bareChain_bareChain rest]

end

/-- A bare function has no lines to lose. -/
theorem Function.bare_bare (f : Function) : f.bare.bare = f.bare := by
  have hlocal (d : Local) : d.bare.bare = d.bare := by cases d <;> rfl
  simp [bare, hlocal, Variable.bare, Stmt.bareBlock_bareBlock, Function.comp_def]

/-! ## Expressions

Nothing is computed from a line: values, places and depths are those of the bare
expression.
-/

/-- **The value of an expression does not go by its lines.** -/
@[simp] theorem Expr.evaluate_bare (s : Store) (f : Frame) (e : Expr) :
    e.bare.evaluate s f = e.evaluate s f := by
  induction e <;> simp_all [bare, evaluate]

/-- Whether a condition holds does not go by its lines. -/
@[simp] theorem Expr.holds_bare (s : Store) (f : Frame) (e : Expr) : e.bare.holds s f = e.holds s f := by
  rw [holds, evaluate_bare, holds]

/-- An expression is as deep without its lines. -/
@[simp] theorem Expr.depth_bare (e : Expr) : e.bare.depth = e.depth := by
  induction e <;> simp_all [bare, depth]

/-- The place of a target does not go by its lines. -/
@[simp] theorem Target.locate_bare (s : Store) (f : Frame) (t : Target) :
    t.bare.locate s f = t.locate s f := by
  obtain ⟨line, name, index⟩ := t
  cases index <;> simp [bare, locate]

/-- A target is as deep without its lines. -/
@[simp] theorem Target.depth_bare (t : Target) : t.bare.depth = t.depth := by
  obtain ⟨line, name, index⟩ := t
  cases index <;> simp [bare, depth]

/-- An argument is as deep without its lines. -/
@[simp] theorem Argument.depth_bare (a : Argument) : a.bare.depth = a.depth := by
  cases a <;> simp [bare, depth]

/-- A chain is bare branch by branch. -/
theorem Branch.bareChain_eq_map (branches : List Branch) : bareChain branches = branches.map bare := by
  induction branches with
  | nil => rfl
  | cons b rest ih => rw [bareChain, ih, List.map_cons]

/-- A branch is as deep without its lines. -/
@[simp] theorem Branch.depth_bare (b : Branch) : b.bare.depth = b.depth := by
  obtain ⟨line, condition, body⟩ := b
  cases condition <;> simp [bare, depth]

/-- The head of a statement is as deep without its lines, so there is room for
both or for neither. -/
theorem Stmt.headDepth_bare (s : Stmt) : s.bare.headDepth = s.headDepth := by
  cases s <;> simp [bare, headDepth, Branch.bareChain_eq_map, List.foldl_map]

/-- A function is found under the same name. -/
theorem Program.find?_bare (p : Program) (name : String) :
    p.bare.find? name = (p.find? name).map Function.bare := by
  rw [find?, bare, List.find?_map]
  rfl

namespace Run

/-! ## Statements without their lines

The pieces of a statement go by its parts only. The line comes in when it is
added to a fault, and that is what the next section compares up to.
-/

/-- Evaluating an expression goes the same way. -/
theorem evaluate_bare (f : Frame) (e : Expr) : evaluate f e.bare = evaluate f e := by
  simp only [evaluate, Expr.evaluate_bare]

/-- Testing a condition goes the same way. -/
theorem holds_bare (f : Frame) (e : Expr) : holds f e.bare = holds f e := by
  simp only [holds, Expr.holds_bare]

/-- Evaluating arguments goes the same way. -/
theorem actuals_bare (f : Frame) (args : List Argument) :
    actuals f (args.map Argument.bare) = actuals f args := by
  induction args with
  | nil => rfl
  | cons a rest ih =>
    have hfirst : actual f a.bare = actual f a := by
      cases a <;> simp only [Argument.bare, actual, evaluate_bare]
    rw [List.map_cons, actuals, actuals, hfirst, ih]

/-- A bare chain runs its blocks without their lines. -/
theorem ifChain_bare (f : Frame) (body : List Stmt → Run Unit) (branches : List Branch) :
    ifChain f body (Branch.bareChain branches) =
      ifChain f (fun ss => body (Stmt.bareBlock ss)) branches := by
  induction branches with
  | nil => rfl
  | cons b rest ih =>
    obtain ⟨line, condition, statements⟩ := b
    cases condition with
    | none => rfl
    | some condition =>
      rw [Branch.bareChain, Branch.bare, Option.map_some, ifChain, ifChain, holds_bare, ih]

/-- A bare call activates a function without its lines. -/
theorem callWith_bare (p : Program) (activate : Function → List Actual → Run Unit) (f : Frame)
    (name : String) (args : List Argument) :
    callWith p.bare activate f name (args.map Argument.bare) =
      callWith p (fun function => activate function.bare) f name args := by
  unfold callWith
  rw [actuals_bare]
  simp only [Program.find?_bare]
  cases p.find? name <;> rfl

/-- **A bare statement** is run like the one that it is made of, with the bare
blocks of this one. -/
theorem level_bare (p : Program) (inner looped : List Stmt → Run Unit)
    (activate : Function → List Actual → Run Unit) (room : Nat) (f : Frame) (s : Stmt) :
    level p.bare inner looped activate room f s.bare =
      level p (fun ss => inner (Stmt.bareBlock ss)) (fun ss => looped (Stmt.bareBlock ss))
        (fun function => activate function.bare) room f s := by
  unfold level
  rw [Stmt.headDepth_bare]
  cases s with
  | assign line target value =>
    have hname : target.bare.name = target.name := rfl
    have hassign : assign f target.bare value.bare = assign f target value := by
      simp only [assign, hname, Target.locate_bare, Expr.evaluate_bare]
    simp only [Stmt.bare, hassign]
  | ifChain line branches => simp only [Stmt.bare, ifChain_bare]
  | whileLoop line condition body => simp only [Stmt.bare, whileLoop, holds_bare]
  | repeatLoop line condition body => simp only [Stmt.bare, repeatLoop, holds_bare]
  | forLoop line name nameLine start stop body => simp only [Stmt.bare, forLoop, evaluate_bare]
  | call line name args => simp only [Stmt.bare, callWith_bare]

/-- A bare function is entered in the same way. -/
theorem enter_bare (function : Function) (args : List Actual) :
    enter function.bare args = enter function args := by
  have hparameters (g : Frame) (ps : List Variable) (as : List Actual) :
      bindParameters function.name g (ps.map Variable.bare) as = bindParameters function.name g ps as := by
    induction ps generalizing g as with
    | nil => rfl
    | cons v ps ih =>
      cases as with
      | nil => rfl
      | cons a as => exact bind_congr fun g => ih g as
  have hlocals (g : Frame) (ds : List Local) :
      declareLocals g (ds.map Local.bare) = declareLocals g ds := by
    induction ds generalizing g with
    | nil => rfl
    | cons d ds ih =>
      have hfirst : declareLocal g d.bare = declareLocal g d := by cases d <;> rfl
      rw [List.map_cons, declareLocals, declareLocals, hfirst]
      exact bind_congr fun g => ih g
  simp only [enter, Function.bare, List.length_map, hparameters, hlocals]

/-! ## Runs that are the same up to lines

The relation between the runs of a program and of the bare one is a congruence
for the pieces of statements, so it holds of all statements by induction on the
room.
-/

/-- Results that are the same up to lines. -/
inductive Matches {α : Type} : EStateM.Result Halt Machine α → EStateM.Result Halt Machine α → Prop
  | ok {a : α} {m m' : Machine} (hm : m.bare = m'.bare) : Matches (.ok a m) (.ok a m')
  | error {h h' : Halt} {m m' : Machine} (hh : h.unlined = h'.unlined) (hm : m.bare = m'.bare) :
      Matches (.error h m) (.error h' m')

/-- On machines that are the same up to lines, two runs come to the same up to
lines. -/
def SameBare {α : Type} (x x' : Run α) : Prop :=
  ∀ m m', m.bare = m'.bare → Matches (x m) (x' m')

/-- What goes by the machine without its activations, and leaves these as they
are. -/
theorem sameBare_of_result {α : Type} {x : Run α} (result : Machine → EStateM.Result Halt Machine α)
    (hx : ∀ m as, x { m with activations := as } = match result m with
      | .ok a m' => .ok a { m' with activations := as }
      | .error h m' => .error h { m' with activations := as }) : SameBare x x := by
  intro m m' hm
  obtain ⟨hm', has⟩ := Machine.bare_eq_iff.1 hm
  have hleft := hx m m.activations
  have hright := hx m m'.activations
  rw [← hm'] at hright
  rw [show ({ m with activations := m.activations } : Machine) = m from rfl] at hleft
  rw [hleft, hright]
  cases result m with
  | ok a m₁ => exact .ok (Machine.bare_eq_iff.2 ⟨rfl, has⟩)
  | error h m₁ => exact .error rfl (Machine.bare_eq_iff.2 ⟨rfl, has⟩)

/-- What follows runs the same up to lines too. -/
theorem SameBare.bind {α β : Type} {x x' : Run α} {k k' : α → Run β} (hx : SameBare x x')
    (hk : ∀ a m m', x m = .ok a m' → SameBare (k a) (k' a)) : SameBare (x >>= k) (x' >>= k') := by
  intro m m' hm
  have hfirst := hx m m' hm
  rw [bind_apply, bind_apply]
  cases hr : x m with
  | ok a m₁ =>
    rw [hr] at hfirst
    generalize x' m' = r' at hfirst
    cases hfirst with
    | ok hm₁ => exact hk a m m₁ hr _ _ hm₁
  | error h m₁ =>
    rw [hr] at hfirst
    generalize x' m' = r' at hfirst
    cases hfirst with
    | error hh hm₁ => exact .error hh hm₁

/-- Faults that are told with whatever lines. -/
theorem SameBare.rethrow {α : Type} {x x' : Run α} (hx : SameBare x x') {t t' : Halt → Halt}
    (ht : ∀ h h' : Halt, h.unlined = h'.unlined → (t h).unlined = (t' h').unlined) :
    SameBare (tryCatch x fun h => throw (t h)) (tryCatch x' fun h => throw (t' h)) := by
  intro m m' hm
  have hfirst := hx m m' hm
  rw [rethrow_apply, rethrow_apply]
  generalize x m = r at hfirst
  generalize x' m' = r' at hfirst
  cases hfirst with
  | ok hm₁ => exact .ok hm₁
  | error hh hm₁ => exact .error (ht _ _ hh) hm₁

/-- The pieces of statements do the same up to lines. -/
theorem congruence_bare (f : Frame) : Congruence f fun _ => SameBare where
  pure a _ _ hm := .ok hm
  throw _ _ _ hm := .error rfl hm
  bind := SameBare.bind
  store := sameBare_of_result (fun m => .ok m.store m) fun _ _ => rfl
  tick := sameBare_of_result tick fun m as => by cases h : m.steps <;> simp [tick, h]
  stepsLeft := sameBare_of_result (fun m => .ok m.steps m) fun _ _ => rfl
  allocate c := sameBare_of_result (allocate c) fun m as => by
    cases h : m.steps <;> simp [allocate, bind_apply, modifyGet_apply, tick, h]
  tryWrite {q} _ text := sameBare_of_result (tryWrite q text) fun m as => by
    cases h : m.steps with
    | zero => simp [tryWrite, bind_apply, tick, h]
    | succ => cases hr : m.store.reading q text <;> simp [tryWrite, bind_apply, modifyGet_apply, tick, h, hr]
  record {e} _ := sameBare_of_result (record e) fun _ _ => rfl
  readLine := sameBare_of_result readLine fun m as => by cases h : m.input <;> simp [readLine, h]
  draw low high := sameBare_of_result (draw low high) fun _ _ => rfl

/-- Blocks do the same up to lines, if their statements do. -/
theorem sameBare_block {run run' : Stmt → Run Unit} (hs : ∀ s, SameBare (run s) (run' s.bare))
    (ss : List Stmt) : SameBare (block run ss) (block run' (Stmt.bareBlock ss)) := by
  have hpieces := congruence_bare {}
  induction ss with
  | nil => exact hpieces.pure ()
  | cons s rest ih =>
    refine hpieces.tick.bind fun _ _ _ _ => SameBare.bind ?_ fun _ _ _ _ => ih
    exact (hs s).rethrow fun h h' hh => by rw [Halt.unlined_atLine, Halt.unlined_atLine, hh]

/-- **Activating a function without its lines goes the same way** if bodies do. -/
theorem sameBare_activate (limit : Int) {body body' : List String → Frame → List Stmt → Run Unit}
    (hbody : ∀ stack f ss, SameBare (body stack f ss) (body' stack f (Stmt.bareBlock ss)))
    (stack : List String) (function : Function) (args : List Actual) :
    SameBare (activate limit body stack function args)
      (activate limit body' stack function.bare args) := by
  intro m m' hm
  have henter := (congruence_bare {}).enter function args m m' hm
  rw [activate_apply, activate_apply, enter_bare]
  split
  · exact .error rfl hm
  · generalize enter function args m = r at henter
    generalize enter function args m' = r' at henter
    cases henter with
    | error hh hm₁ => exact .error hh hm₁
    | @ok frame m₁ m₁' hm₁ =>
      have hbody' : SameBare
          (inFrames (function.name :: stack) (body (function.name :: stack) frame function.body))
          (inFrames (function.name :: stack)
            (body' (function.name :: stack) frame function.bare.body)) :=
        (hbody _ frame function.body).rethrow fun _ _ hh => Halt.unlined_inFrames hh _
      refine hbody' _ _ ?_
      obtain ⟨hm', has⟩ := Machine.bare_eq_iff.1 hm₁
      rw [hm', Machine.entered, Machine.entered, Machine.bare_eq_iff]
      exact ⟨rfl, by simp only [List.map_cons, Activation.bare, Function.bare_bare, has]⟩

/-- **A statement and the bare one do the same up to lines.** By induction on
the room. -/
theorem sameBare_statement (p : Program) (limits : Limits) (room : Nat) (stack : List String)
    (f : Frame) (s : Stmt) :
    SameBare (statement ⟨p, limits⟩ room stack f s) (statement ⟨p.bare, limits⟩ room stack f s.bare) := by
  induction room using Nat.strong_induction_on generalizing stack f s with
  | _ room ih =>
    have hblock (r : Nat) (hr : r < room) (stack : List String) (f : Frame) (ss : List Stmt) :
        SameBare (block (statement ⟨p, limits⟩ r stack f) ss)
          (block (statement ⟨p.bare, limits⟩ r stack f) (Stmt.bareBlock ss)) :=
      sameBare_block (ih r hr stack f) ss
    rcases Nat.lt_or_ge room 5 with hroom | hroom
    · rw [statement_of_lt hroom, statement_of_lt hroom]
      exact fun _ _ hm => .error rfl hm
    · obtain ⟨room, rfl⟩ := Nat.exists_eq_add_of_le' hroom
      rw [statement_eq, statement_eq, level_bare]
      exact (congruence_bare f).level s (fun body _ => hblock _ (by omega) stack f body)
        (fun body _ => hblock _ (by omega) stack f body) fun _ _ _ function as _ _ _ =>
          sameBare_activate _ (hblock room (by omega)) stack function as

/-- **A run from an entry function goes the same way without lines.** -/
theorem sameBare_entry (p : Program) (limits : Limits) (name : String) :
    SameBare (entry ⟨p, limits⟩ name) (entry ⟨p.bare, limits⟩ name) := by
  unfold entry
  dsimp only
  rw [Program.find?_bare]
  cases p.find? name with
  | none => exact fun _ _ hm => .error rfl hm
  | some f =>
    dsimp only [Option.map_some]
    rw [function_eq, function_eq]
    exact (sameBare_activate _ (fun stack g ss => sameBare_block
      (sameBare_statement p limits limits.room stack g) ss) [] f []).rethrow
        fun _ _ hh => Halt.unlined_outside hh f.name

end Run

/-- **A program runs like the same one without its lines.** -/
theorem Program.runOn_bare (p : Program) (entry : String) (limits : Limits) (m : Machine) :
    (p.bare.runOn entry limits m).bare = (p.runOn entry limits m).bare := by
  have hentry := Run.sameBare_entry p limits entry m m rfl
  unfold runOn Outcome.of
  generalize Run.entry ⟨p, limits⟩ entry m = r at hentry
  generalize Run.entry ⟨p.bare, limits⟩ entry m = r' at hentry
  cases hentry with
  | ok hm => simp only [Outcome.bare, hm]
  | error hh hm => simp only [Outcome.bare, hm, Option.map_some, hh]

/-- Programs that are the same but for their lines run alike. -/
theorem Program.runOn_eq_of_bare {p q : Program} (h : p.bare = q.bare) (entry : String) (limits : Limits)
    (m : Machine) : (p.runOn entry limits m).bare = (q.runOn entry limits m).bare := by
  rw [← p.runOn_bare, h, q.runOn_bare]

end Shank
