/-
# The call stack

A run hands the active functions on from each body to the calls in it. Here they
are kept in the machine instead, where all of a run shares them: a function is
put on the stack when its body starts, and taken off whatever ends the body. The
depth of a call is that of the stack, and a fault is given the functions that
are on the stack when it leaves a body.

| | functions handed on | functions on the stack |
| --- | --- | --- |
| activating a function | `activate` | `activateStacked` |
| a statement | `statement` | `statementStacked` |
| a run from an entry function | `entry` | `entryStacked` |

The two run alike (`tracks_entry`), and on the way the stack is seen to be kept
in order: it never holds more functions than may be active, and what ended has
left it as it was. A body that is empty takes no step, so a function may be on
the stack between two moments; but then it was entered at some depth, and that
is recorded (`shallow_entry`). Together with the places of faults this is what
is to be known of the calls of a run (`Program.run_keeps_callStack`).
-/

import Shank.Proofs.Run.Faults
import Shank.Proofs.Run.Invariant

namespace Shank

namespace Machine

/-- The machine with other activations. -/
def on (m : Machine) (as : List Activation) : Machine :=
  { m with activations := as }

/-- The functions of the activations, the innermost first. -/
def callStack (m : Machine) : List String :=
  m.activations.map fun a => a.function.name

/-- No function was entered at a greater depth than this. -/
def Shallow (limit : Nat) (m : Machine) : Prop :=
  ∀ name depth, .noticed (.functionEntered name depth) ∈ m.events → depth ≤ limit

/-- The machine without its latest activation. -/
def leave (m : Machine) : Machine :=
  m.on m.activations.tail

end Machine

namespace Run

/-! ## Runs that keep the stack in the machine

The same run, told in another way: functions are pushed on a stack in the
machine as they are entered, and taken off when they are left. What is proved of
the stack is proved of this run.
-/

/-- The functions on the stack. -/
def callStack : Run (List String) :=
  fun m => .ok m.callStack m

/-- Runs the body of the function on top of the stack, and takes that off
whatever ends the body. A fault is given the functions on the stack. A run that
is not finished is still in the body. -/
def leaving (body : Run Unit) : Run Unit :=
  fun m =>
    match body m with
    | .ok a m' => .ok a m'.leave
    | .error .unfinished m' => .error .unfinished m'
    | .error h m' => .error (h.inFrames m'.callStack) m'.leave

/-- Runs a function, given how to run a body. -/
def activateStacked (limit : Int) (body : Frame → List Stmt → Run Unit) (function : Function)
    (args : List Actual) : Run Unit := do
  if limit ≤ (← callStack).length then fail (.callDepth limit)
  else
    let frame ← enter function args
    begin_ { function, frame }
    record (.noticed (.functionEntered function.name (← callStack).length))
    leaving (body frame function.body)

/-- Runs a statement. -/
def statementStacked (setting : Setting) : Nat → Frame → Stmt → Run Unit
  | room + 5, f, s =>
    level setting.program (block (statementStacked setting (room + 2) f))
      (block (statementStacked setting (room + 3) f))
      (activateStacked setting.limits.calls fun f => block (statementStacked setting room f)) room f s
  | _, _, _ => throw .tooDeep

/-- Runs a function from outside of any other. -/
def functionStacked (setting : Setting) (function : Function) (args : List Actual) : Run Unit :=
  tryCatch
    (activateStacked setting.limits.calls
      (fun f => block (statementStacked setting setting.limits.room f)) function args)
    fun h => throw (h.outside function.name)

/-- Runs the function of a name. -/
def entryStacked (setting : Setting) (name : String) : Run Unit :=
  match setting.program.find? name with
  | some f => functionStacked setting f []
  | none => fail (.noEntry name)

/-! ## Two runs alike

The two runs are compared piece by piece. Up to the activations they are at the
same machine, and the stack is longer only while a function has not been left.
-/

variable {α β : Type} {limit : Nat} {as : List Activation} {stack : List String}

/-- Two outcomes that differ in the activations only. The second one has those
of before again, unless it is not finished; then it has more, but not too many. -/
inductive Tracked (limit : Nat) (as : List Activation) :
    EStateM.Result Halt Machine α → EStateM.Result Halt Machine α → Prop
  | ok (a : α) (m : Machine) : Tracked limit as (.ok a m) (.ok a (m.on as))
  | error (m : Machine) {h : Halt} (hh : h ≠ .unfinished) :
      Tracked limit as (.error h m) (.error h (m.on as))
  | unfinished (m : Machine) {as' : List Activation} (more : as <:+ as')
      (length_le : as'.length ≤ limit) :
      Tracked limit as (.error .unfinished m) (.error .unfinished (m.on as'))

/-- On a machine that has the functions `stack` on its stack, the second run
goes as the first one. -/
def Tracks (limit : Nat) (stack : List String) (x x' : Run α) : Prop :=
  ∀ m as, as.map (fun a => a.function.name) = stack → as.length ≤ limit →
    Tracked limit as (x m) (x' (m.on as))

/-- A halt leaves the stack as it is, which is in order whether the run is
finished or not. -/
theorem tracked_throw (h : Halt) (m : Machine) (has : as.length ≤ limit) :
    Tracked limit as (.error h m : EStateM.Result Halt Machine α) (.error h (m.on as)) := by
  by_cases hh : h = .unfinished
  · subst hh
    exact .unfinished m List.suffix_rfl has
  · exact .error m hh

/-- What follows runs alike too, from where the first part ended. -/
theorem Tracked.bind {x x' : Run α} {k k' : α → Run β} {m m' : Machine}
    (hx : Tracked limit as (x m) (x' m'))
    (hk : ∀ a m₁, x m = .ok a m₁ → Tracked limit as (k a m₁) (k' a (m₁.on as))) :
    Tracked limit as ((x >>= k) m) ((x' >>= k') m') := by
  rw [bind_apply, bind_apply]
  generalize hr : x m = r at hx
  generalize hr' : x' m' = r' at hx
  cases hx with
  | ok a m₁ => exact hk a m₁ hr
  | error m₁ hh => exact .error m₁ hh
  | unfinished m₁ more length_le => exact .unfinished m₁ more length_le

/-- A run that ends, and does not look at the activations. -/
theorem tracks_of_ok {x : Run α} (g : Machine → α) (next : Machine → Machine)
    (hx : ∀ m, x m = .ok (g m) (next m)) (hg : ∀ m as, g (m.on as) = g m)
    (hnext : ∀ m as, next (m.on as) = (next m).on as) : Tracks limit stack x x := by
  intro m as _ _
  rw [hx, hx, hg, hnext]
  exact .ok _ _

/-- Taking a step runs alike. Where there is none left, the run is not finished,
and the stack is that of before. -/
theorem tracks_tick : Tracks limit stack tick tick := by
  intro m as _ has
  unfold tick
  cases hm : m.steps with
  | zero =>
    have hm' : (m.on as).steps = 0 := hm
    simp only [hm']
    exact .unfinished m List.suffix_rfl has
  | succ k =>
    have hm' : (m.on as).steps = k + 1 := hm
    simp only [hm']
    exact .ok () _

/-- Runs that are alike may be followed by runs that are. -/
theorem Tracks.bind {x x' : Run α} {k k' : α → Run β} (hx : Tracks limit stack x x')
    (hk : ∀ a m m', x m = .ok a m' → Tracks limit stack (k a) (k' a)) :
    Tracks limit stack (x >>= k) (x' >>= k') :=
  fun m as hstack has => (hx m as hstack has).bind fun a m₁ ha => hk a m m₁ ha m₁ as hstack has

/-- **The pieces of statements do not look at the activations**, so on both
sides they do the same and leave the stack alone. -/
theorem congruence_tracks (limit : Nat) (stack : List String) (f : Frame) :
    Congruence f fun _ => Tracks limit stack where
  pure a := tracks_of_ok (fun _ => a) id (fun _ => rfl) (fun _ _ => rfl) fun _ _ => rfl
  throw hh := fun m as _ has => tracked_throw _ m has
  bind hx hk := hx.bind hk
  store := tracks_of_ok (fun m => m.store) id (fun _ => rfl) (fun _ _ => rfl) fun _ _ => rfl
  tick := tracks_tick
  stepsLeft := tracks_of_ok (fun m => m.steps) id (fun _ => rfl) (fun _ _ => rfl) fun _ _ => rfl
  allocate c := tracks_tick.bind fun _ _ _ _ =>
    tracks_of_ok (fun m => (m.store.add c).2) (fun m => { m with store := (m.store.add c).1 })
      (fun _ => rfl) (fun _ _ => rfl) fun _ _ => rfl
  -- a text converts or not by the store alone
  tryWrite {q} _ text := by
    refine tracks_tick.bind fun _ _ _ _ m as _ _ => ?_
    cases hv : m.store.reading q text with
    | ok v =>
      have hv' : (m.on as).store.reading q text = .ok v := hv
      simp only [modifyGet_apply, hv, hv']
      exact .ok _ _
    | error c =>
      have hv' : (m.on as).store.reading q text = .error c := hv
      simp only [modifyGet_apply, hv, hv']
      exact .ok _ _
  record {e} _ := tracks_of_ok (fun _ => ()) (fun m => { m with events := m.events.push e })
    (fun _ => rfl) (fun _ _ => rfl) fun _ _ => rfl
  readLine := by
    intro m as _ _
    unfold readLine
    cases hi : m.input with
    | nil =>
      have hi' : (m.on as).input = [] := hi
      simp only [hi']
      exact .ok _ _
    | cons line rest =>
      have hi' : (m.on as).input = line :: rest := hi
      simp only [hi']
      exact .ok _ _
  draw low high := tracks_of_ok (fun m => (m.random.between low high).1)
    (fun m => { m with random := (m.random.between low high).2 }) (fun _ => rfl) (fun _ _ => rfl)
    fun _ _ => rfl

/-- Handlers that rethrow, and keep a run unfinished that is. -/
theorem Tracks.rethrow {x x' : Run α} {t : Halt → Halt} (hx : Tracks limit stack x x')
    (ht : ∀ h, t h = .unfinished ↔ h = .unfinished) :
    Tracks limit stack (tryCatch x fun h => throw (t h)) (tryCatch x' fun h => throw (t h)) := by
  intro m as hstack has
  have h := hx m as hstack has
  rw [rethrow_apply, rethrow_apply]
  generalize x m = r at h
  generalize x' (m.on as) = r' at h
  cases h with
  | ok a m₁ => exact .ok a m₁
  | error m₁ hh => exact .error m₁ fun e => hh ((ht _).1 e)
  | unfinished m₁ more length_le =>
    dsimp only
    rw [(ht _).2 rfl]
    exact .unfinished m₁ more length_le

/-- Adding a line to a halt makes no run finished or unfinished. -/
theorem atLine_eq_unfinished (line : Nat) (h : Halt) :
    h.atLine line = .unfinished ↔ h = .unfinished := by
  cases h <;> simp [Halt.atLine]

/-- Adding functions to a halt makes no run finished or unfinished. -/
theorem inFrames_eq_unfinished (frames : List String) (h : Halt) :
    h.inFrames frames = .unfinished ↔ h = .unfinished := by
  cases h <;> simp [Halt.inFrames]

/-! ## Calls

A call is the only place where the two runs are written differently. The one
hands the list of active functions on, and the other one reads it off the
machine.
-/

/-- A body that is run with its function on the stack leaves the stack as it was
before that. Its fault is given the functions on the stack, which are those that
the other run hands on. -/
theorem tracked_leaving {x x' : Run Unit} {a : Activation} {m : Machine}
    (has : as.map (fun a => a.function.name) = stack)
    (hx : Tracked limit (a :: as) (x m) (x' (m.on (a :: as)))) :
    Tracked limit as (inFrames (a.function.name :: stack) x m) (leaving x' (m.on (a :: as))) := by
  unfold inFrames leaving
  rw [rethrow_apply]
  generalize x m = r at hx
  generalize x' (m.on (a :: as)) = r' at hx
  cases hx with
  | ok u m₁ => exact .ok u m₁
  | @error m₁ h hh =>
    -- a body that has ended has its own function on top again
    have hstack : (m₁.on (a :: as)).callStack = a.function.name :: stack := by
      rw [← has]
      rfl
    cases h with
    | unfinished => exact absurd rfl hh
    | fault | remainderUndefined | boundTooLarge | tooDeep =>
      simp only [hstack]
      exact .error m₁ fun e => hh ((inFrames_eq_unfinished _ _).1 e)
  | unfinished m₁ more length_le =>
    exact .unfinished m₁ ((List.suffix_cons a as).trans more) length_le

/-- Activating a function with the stack in the machine, written out as
`activate_apply` does for the other run. -/
theorem activateStacked_apply (limit : Int) (body : Frame → List Stmt → Run Unit)
    (function : Function) (args : List Actual) (m : Machine) :
    activateStacked limit body function args m =
      if limit ≤ m.callStack.length then .error (.of (.callDepth limit)) m
      else match enter function args m with
        | .ok frame m' =>
          leaving (body frame function.body)
            (m'.entered ⟨function, frame⟩ (m'.entered ⟨function, frame⟩ 0).callStack.length)
        | .error h m' => .error h m' := by
  unfold activateStacked
  rw [bind_eq (x := callStack) rfl]
  split
  · rfl
  · rw [bind_apply]
    cases enter function args m <;> rfl

/-- **Calls run alike if bodies do.** The stack is as long as the list that is
handed on, so the limit is hit by both or by neither, and the depth that is
noticed is the same. -/
theorem tracks_activate {body : List String → Frame → List Stmt → Run Unit}
    {body' : Frame → List Stmt → Run Unit}
    (hbody : ∀ stack f ss, Tracks limit stack (body stack f ss) (body' f ss)) (function : Function)
    (args : List Actual) :
    Tracks limit stack (activate limit body stack function args)
      (activateStacked limit body' function args) := by
  intro m as hstack has
  have hlength : as.length = stack.length := by rw [← hstack, List.length_map]
  have hdepth : (m.on as).callStack.length = stack.length := by
    rw [← hlength]
    exact List.length_map _
  rw [activate_apply, activateStacked_apply, hdepth]
  split
  · exact tracked_throw _ m has
  -- entering a function runs alike, and leaves the stack as it was
  · have henter := (congruence_tracks limit stack {}).enter function args m as hstack has
    generalize enter function args m = r at henter
    generalize enter function args (m.on as) = r' at henter
    cases henter with
    | error m₁ hh => exact .error m₁ hh
    | unfinished m₁ more length_le => exact .unfinished m₁ more length_le
    | ok frame m₁ =>
      have hentered : ((m₁.on as).entered ⟨function, frame⟩ 0).callStack.length =
          stack.length + 1 := by
        rw [← hlength]
        exact List.length_map _
      dsimp only
      rw [hentered]
      refine tracked_leaving (a := ⟨function, frame⟩) hstack
        (m := m₁.entered ⟨function, frame⟩ (stack.length + 1)) ?_
      exact hbody _ _ _ _ _ (by rw [List.map_cons, hstack]) (by rw [List.length_cons]; omega)

/-! ## Statements and whole runs

With calls compared, the induction on the room carries the comparison to
statements, and from these to a whole run, which starts on an empty stack.
-/

/-- **Statements run alike.** This is by strong induction on the room for
nesting: a block in a statement is given less of it, and so is the body of a
function that is called. -/
theorem tracks_statement {setting : Setting} (hlimit : setting.limits.calls = limit) (room : Nat)
    (stack : List String) (f : Frame) (s : Stmt) :
    Tracks limit stack (statement setting room stack f s) (statementStacked setting room f s) := by
  induction room using Nat.strong_induction_on generalizing stack f s with
  | _ room ih =>
    have hblock (r : Nat) (hr : r < room) (stack : List String) (f : Frame) (ss : List Stmt) :
        Tracks limit stack (block (statement setting r stack f) ss)
          (block (statementStacked setting r f) ss) :=
      (congruence_tracks limit stack f).block ss fun s _ =>
        (ih r hr stack f s).rethrow (atLine_eq_unfinished s.line)
    rcases Nat.lt_or_ge room 5 with hroom | hroom
    -- without room both are nested too deep
    · have hstacked : statementStacked setting room f s = throw .tooDeep := by
        rcases room with _ | _ | _ | _ | _ | room
        iterate 5 rfl
        omega
      rw [statement_of_lt hroom, hstacked]
      exact fun m as _ has => tracked_throw _ m has
    · obtain ⟨room, rfl⟩ := Nat.exists_eq_add_of_le' hroom
      rw [statement_eq, statementStacked]
      refine (congruence_tracks limit stack f).level s (fun body _ => hblock _ (by omega) stack f body)
        (fun body _ => hblock _ (by omega) stack f body) fun _ _ _ function as _ _ _ => ?_
      rw [hlimit]
      exact tracks_activate (hblock room (by omega)) function as

/-- **A run goes the same way with the stack in the machine**, which starts out
empty. -/
theorem tracks_entry {setting : Setting} (hlimit : setting.limits.calls = limit) (name : String) :
    Tracks limit [] (entry setting name) (entryStacked setting name) := by
  unfold entry entryStacked
  cases setting.program.find? name with
  | none => exact fun m as _ has => tracked_throw _ m has
  | some f =>
    have houtside (h : Halt) : h.outside f.name = .unfinished ↔ h = .unfinished := by
      cases h <;> simp [Halt.outside]
    dsimp only
    rw [function_eq, functionStacked, hlimit]
    refine (tracks_activate (fun stack g ss => ?_) f []).rethrow houtside
    exact (congruence_tracks limit stack g).block ss fun s _ =>
      (tracks_statement hlimit _ stack g s).rethrow (atLine_eq_unfinished s.line)

/-! ## How deep functions are entered

A function that would be the one too many is refused before it is entered, so no
depth over the limit is ever noticed.
-/

/-- The pieces of statements enter no functions. -/
theorem congruence_shallow (limit : Nat) (f : Frame) :
    Congruence f fun _ x _ => Preserves (Machine.Shallow limit) x :=
  congruence_preserves (fun _ _ _ _ h => h) (fun m e he h name depth hmem => by
      rcases Array.mem_push.1 hmem with hmem | rfl
      · exact h name depth hmem
      · exact absurd trivial he)
    (fun _ _ h => h) fun _ _ _ _ h => h

/-- Activating a function notices no depth over the limit, as it does not enter
it there. -/
theorem shallow_activate {body : List String → Frame → List Stmt → Run Unit}
    (hbody : ∀ stack f ss, Preserves (Machine.Shallow limit) (body stack f ss)) (stack : List String)
    (function : Function) (args : List Actual) :
    Preserves (Machine.Shallow limit) (activate limit body stack function args) := by
  intro m hm
  rw [after, activate_apply]
  split
  · exact hm
  · have henter := (congruence_shallow limit {}).enter function args m hm
    rw [after] at henter
    cases hr : enter function args m with
    | error h m' => rwa [hr] at henter
    | ok frame m' =>
      rw [hr] at henter
      refine (hbody _ frame function.body).rethrow _ fun name depth hmem => ?_
      rcases Array.mem_push.1 hmem with hmem | hentered
      · exact henter name depth hmem
      · cases hentered
        omega

/-- **No run enters a function deeper than the limit.** -/
theorem shallow_entry {setting : Setting} (hlimit : setting.limits.calls = limit) (name : String) :
    Preserves (Machine.Shallow limit) (entry setting name) := by
  have hstatement := @statement_of_pieces setting _ (congruence_shallow limit)
    (fun _ _ _ h => h.rethrow) fun body hbody stack _ _ function as _ => by
      rw [hlimit]
      exact shallow_activate hbody stack function as
  unfold entry
  cases setting.program.find? name with
  | none => exact preserves_throw _
  | some f =>
    dsimp only
    rw [function_eq, hlimit]
    exact (shallow_activate (fun stack g ss => (congruence_shallow limit g).block_self ss
      fun s _ => (hstatement _ stack g s).rethrow) [] f []).rethrow

end Run

/-! ## Runs of a program

What was shown of the two runs, and what is known of the place of a fault, put
together for the run of a program.
-/

/-- What two outcomes have to do with each other that are tracked from an empty
stack on. -/
theorem Outcome.of_tracked {limit : Nat} {x x' : Run Unit} {m : Machine}
    (h : Run.Tracked limit [] (x m) (x' m)) :
    ((of x' m).halt = (of x m).halt ∧
      (of x' m).machine = (of x m).machine.on (of x' m).machine.activations) ∧
    (of x' m).machine.callStack.length ≤ limit ∧
    ((of x' m).halt ≠ some .unfinished → (of x' m).machine.callStack = []) := by
  unfold of
  generalize x m = r at h
  generalize x' m = r' at h
  cases h with
  | ok a m₁ => exact ⟨⟨rfl, rfl⟩, Nat.zero_le limit, fun _ => rfl⟩
  | error m₁ hh => exact ⟨⟨rfl, rfl⟩, Nat.zero_le limit, fun _ => rfl⟩
  | unfinished m₁ more length_le =>
    exact ⟨⟨rfl, rfl⟩, (List.length_map _).trans_le length_le, fun h => absurd rfl h⟩

/-- An outcome with a halt comes of a run that stopped for it. -/
theorem Outcome.error_of_halt {x : Run Unit} {m : Machine} {h : Halt} (hh : (of x m).halt = some h) :
    x m = .error h (of x m).machine := by
  unfold of at hh ⊢
  cases hx : x m with
  | ok a m' =>
    rw [hx] at hh
    cases hh
  | error h' m' =>
    rw [hx] at hh
    cases hh
    rfl

/-- **The call stack is kept in order, and faults are told with the calls they
happened in.** A run of a program goes the same way with the functions on a
stack. However many steps it is given, so at every moment, there are at most as
many functions on the stack as may be active; and once it has ended, in whatever
way, the stack is empty again.

A fault that a run ends with, other than one for want of room, is told with its
place (`Fault.Located`), unless it is from before the body of the entry
function, when nothing was entered yet. -/
theorem Program.run_keeps_callStack (p : Program) (entry input : String) (random : Random)
    (limit room steps : Nat) :
    let m : Machine := { input := Text.textLines input, random, steps }
    let o := p.runOn entry { calls := limit, room } m
    let stacked := Outcome.of (Run.entryStacked ⟨p, { calls := limit, room }⟩ entry) m
    (stacked.halt = o.halt ∧ stacked.machine = o.machine.on stacked.machine.activations) ∧
    (stacked.machine.callStack.length ≤ limit ∧
      ∀ name depth, .noticed (.functionEntered name depth) ∈ stacked.events → depth ≤ limit) ∧
    (stacked.halt ≠ some .unfinished → stacked.machine.callStack = []) ∧
    ∀ e, o.halt = some (.fault e) → e.cause ≠ .roomExhausted →
      (e.Located p limit entry ∨
        e.frames = [] ∧ e.line = none ∧ o.machine.activations = []) ∧
      ∀ k, e.cause = .callDepth k → k = limit ∧ (1 ≤ limit → e.frames.length = limit) := by
  intro m o stacked
  let setting : Setting := ⟨p, { calls := limit, room }⟩
  have hlimit : setting.limits.calls = limit := rfl
  obtain ⟨⟨hhalt, hmachine⟩, hlength, hempty⟩ :=
    Outcome.of_tracked (Run.tracks_entry hlimit entry m [] rfl (Nat.zero_le limit))
  have hshallow : o.machine.Shallow limit := by
    have h := Run.shallow_entry hlimit entry m fun _ _ h => nomatch h
    rwa [← machine_of] at h
  refine ⟨⟨hhalt, hmachine⟩, ⟨hlength, fun name depth hmem => hshallow name depth ?_⟩, hempty,
    fun e he hroom => ?_⟩
  · rw [Outcome.events, hmachine] at hmem
    exact Array.mem_toList_iff.1 hmem
  -- which of the three it is decides what the fault is told with
  · rcases Run.raises_entry hlimit (Outcome.error_of_halt he) with
      hexhausted | hlocated | ⟨hframes, hline, hstill, hdepth⟩
    · exact absurd hexhausted hroom
    · refine ⟨.inl hlocated, fun k hk => ?_⟩
      obtain ⟨hk, hfull⟩ := hlocated.depth k hk
      exact ⟨hk, fun _ => hfull⟩
    · refine ⟨.inr ⟨hframes, hline, hstill⟩, fun k hk => ?_⟩
      obtain ⟨hk, hnone⟩ := hdepth k hk
      exact ⟨hk, fun hpos => by omega⟩

/-- A function that calls itself in its second line. -/
def Program.recursive : Program :=
  { functions := [⟨1, "main", [], [], [.call 2 "main" []]⟩] }

/-- The hypotheses of `run_keeps_callStack` are satisfiable: where two functions
may be active, the fault names the two that are. -/
theorem Program.run_keeps_callStack_recursive :
    let e : Fault := ⟨.callDepth 2, some 2, ["main", "main"]⟩
    (recursive.runOn "main" { calls := 2, room := 40 } { steps := 9 }).halt = some (.fault e) ∧
      e.Located recursive 2 "main" := by
  intro e
  have hhalt : (recursive.runOn "main" { calls := 2, room := 40 }
      { input := Text.textLines "", steps := 9 }).halt = some (.fault e) := by decide +kernel
  obtain ⟨hplace, -⟩ :=
    (recursive.run_keeps_callStack "main" "" {} 2 40 9).2.2.2 e hhalt (by decide)
  refine ⟨by decide +kernel, ?_⟩
  rcases hplace with hlocated | ⟨hframes, -⟩
  · exact hlocated
  · cases hframes

end Shank
