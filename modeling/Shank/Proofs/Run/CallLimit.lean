/-
# More functions active at once

The limit for calls shows only where it is hit: the call that would exceed it is
refused by a fault. So of two runs within different limits the one with the
lower limit is refused first, or they are the same. For that the fault has to
get out of the run, and nothing keeps it in.

| the fault passes | what becomes of it |
| --- | --- |
| a sequence, a branch, a loop | what would follow is not run |
| a statement, a body | it is given a line, and functions, and keeps its cause |
| a built-in function | nothing, as these call no function |
-/

import Shank.Proofs.Run.Congruence

namespace Shank

/-- A halt because of this limit for calls, wherever it is told to have
happened. -/
def Halt.Exceeds (limit : Int) : Halt → Prop
  | fault e => e.cause = .callDepth limit
  | _ => False

/-- A line that is added to a fault does not change what it is about. -/
theorem Halt.exceeds_atLine {limit : Int} {h : Halt} (line : Nat) :
    (h.atLine line).Exceeds limit ↔ h.Exceeds limit := by
  cases h with
  | fault e => cases he : e.line <;> simp [atLine, Exceeds, he]
  | remainderUndefined | boundTooLarge | tooDeep | unfinished => rfl

/-- Functions that are added to a fault do not change what it is about. -/
theorem Halt.exceeds_inFrames {limit : Int} {h : Halt} (frames : List String) :
    (h.inFrames frames).Exceeds limit ↔ h.Exceeds limit := by
  cases h with
  | fault e => cases he : e.frames.isEmpty <;> simp [inFrames, Exceeds, he]
  | remainderUndefined | boundTooLarge | tooDeep | unfinished => rfl

/-- The limit is told of outside of the entry function too. -/
theorem Halt.exceeds_outside {limit : Int} {h : Halt} (name : String) (hh : h.Exceeds limit) :
    (h.outside name).Exceeds limit := by
  cases h with
  | fault e => exact hh
  | remainderUndefined | boundTooLarge | tooDeep | unfinished => exact hh.elim

namespace Run

variable {α β : Type} {limit limit' : Int}

/-- The limit for calls is hit. -/
def Exceeds (limit : Int) : EStateM.Result Halt Machine α → Prop
  | .ok _ _ => False
  | .error h _ => h.Exceeds limit

/-- The second run goes as the first one, unless that one hits the limit. -/
def SameWithin (limit : Int) (x x' : Run α) : Prop :=
  ∀ m, ¬Exceeds limit (x m) → x' m = x m

/-- A piece that does not go by the limit is the same within it. -/
theorem sameWithin_self (x : Run α) : SameWithin limit x x :=
  fun _ _ => rfl

/-- The fault of a first part gets out of a sequence. -/
theorem SameWithin.bind {x x' : Run α} {k k' : α → Run β} (hx : SameWithin limit x x')
    (hk : ∀ a m m', x m = .ok a m' → SameWithin limit (k a) (k' a)) :
    SameWithin limit (x >>= k) (x' >>= k') := by
  intro m hm
  rw [bind_apply] at hm
  cases hr : x m with
  | ok a m' =>
    have hfirst : x' m = .ok a m' := by rw [hx m (by rw [hr]; exact not_false), hr]
    rw [hr] at hm
    rw [bind_eq hr, bind_eq hfirst]
    exact hk a m m' hr m' hm
  | error h m' =>
    rw [hr] at hm
    rw [bind_apply, bind_apply, hx m (by rw [hr]; exact hm), hr]

/-- The fault gets past a handler that lets it be the fault that it is. -/
theorem SameWithin.rethrow {x x' : Run α} {t : Halt → Halt} (hx : SameWithin limit x x')
    (ht : ∀ h : Halt, h.Exceeds limit → (t h).Exceeds limit) :
    SameWithin limit (tryCatch x fun h => throw (t h)) (tryCatch x' fun h => throw (t h)) := by
  intro m hm
  rw [rethrow_apply] at hm
  rw [rethrow_apply, rethrow_apply, hx m fun hexceeds => hm ?_]
  cases hr : x m with
  | ok a m' =>
    rw [hr] at hexceeds
    exact hexceeds
  | error h m' =>
    rw [hr] at hexceeds
    exact ht h hexceeds

/-- The pieces of statements do not go by the limit. -/
theorem congruence_sameWithin (limit : Int) (f : Frame) : Congruence f fun _ => SameWithin limit where
  pure _ := sameWithin_self _
  throw _ := sameWithin_self _
  bind := SameWithin.bind
  store := sameWithin_self _
  tick := sameWithin_self _
  stepsLeft := sameWithin_self _
  allocate _ := sameWithin_self _
  tryWrite _ _ := sameWithin_self _
  record _ := sameWithin_self _
  readLine := sameWithin_self _
  draw _ _ := sameWithin_self _

/-- **A function that may be called within the lower limit** may be called
within the higher one, and is entered alike. -/
theorem sameWithin_activate (hle : limit ≤ limit')
    {body body' : List String → Frame → List Stmt → Run Unit}
    (hbody : ∀ stack f ss, SameWithin limit (body stack f ss) (body' stack f ss)) (stack : List String)
    (function : Function) (args : List Actual) :
    SameWithin limit (activate limit body stack function args)
      (activate limit' body' stack function args) := by
  intro m hm
  rw [activate_apply] at hm
  rw [activate_apply, activate_apply]
  by_cases hlimit : limit ≤ stack.length
  · rw [if_pos hlimit] at hm
    exact absurd rfl hm
  · have hlimit' : ¬limit' ≤ stack.length := fun h => hlimit (Int.le_trans hle h)
    rw [if_neg hlimit] at hm
    rw [if_neg hlimit, if_neg hlimit']
    cases henter : enter function args m with
    | error h m' => rfl
    | ok frame m' =>
      rw [henter] at hm
      exact ((hbody _ frame function.body).rethrow fun h => (Halt.exceeds_inFrames _).2) _ hm

/-- Statements that go the same way do so with their line added to a fault. -/
theorem sameWithin_atLine {x x' : Run Unit} (hx : SameWithin limit x x') (line : Nat) :
    SameWithin limit (atLine line x) (atLine line x') :=
  hx.rethrow fun _ => (Halt.exceeds_atLine line).2

/-- **A statement goes the same way within both limits**, unless the lower one
is hit in it. -/
theorem sameWithin_statement (p : Program) (hle : limit ≤ limit') (limits : Limits) (room : Nat)
    (stack : List String) (f : Frame) (s : Stmt) :
    SameWithin limit (statement ⟨p, { limits with calls := limit }⟩ room stack f s)
      (statement ⟨p, { limits with calls := limit' }⟩ room stack f s) := by
  refine statements_of_pieces ?_ (congruence_sameWithin limit)
    (fun _ line _ _ hx => sameWithin_atLine hx line)
    (fun _ _ hbody stack _ _ function args _ => ?_) room stack f s
  · rfl
  · exact sameWithin_activate hle hbody stack function args

/-- **An entry function goes the same way within a higher limit**, unless it
hits the lower one. -/
theorem sameWithin_entry (p : Program) (hle : limit ≤ limit') (limits : Limits) (name : String) :
    SameWithin limit (entry ⟨p, { limits with calls := limit }⟩ name)
      (entry ⟨p, { limits with calls := limit' }⟩ name) := by
  unfold entry
  cases p.find? name with
  | none => exact sameWithin_self _
  | some f =>
    dsimp only
    rw [function_eq, function_eq]
    refine (sameWithin_activate hle (fun stack g ss => ?_) [] f []).rethrow
      fun h => Halt.exceeds_outside f.name
    exact (congruence_sameWithin limit g).block ss fun s _ =>
      sameWithin_atLine (sameWithin_statement p hle limits limits.room stack g s) s.line

end Run

namespace Program

/-- **A higher limit for calls changes no run that did not hit the lower one.**
A run of a program, on any input and after however many steps, that has not
ended by a call beyond its limit, is the same within any higher limit: with the
same output and reports, the same end, be it a fault with its line and
functions, and the same machine left behind. -/
theorem runOn_eq_of_limit_le (p : Program) (entry : String) (limits : Limits) {limit limit' : Int}
    (hle : limit ≤ limit') (m : Machine)
    (h : ∀ e, (p.runOn entry { limits with calls := limit } m).halt = some (.fault e) →
      e.cause ≠ .callDepth limit) :
    p.runOn entry { limits with calls := limit' } m =
      p.runOn entry { limits with calls := limit } m := by
  have hentry := Run.sameWithin_entry p hle limits entry m
  unfold runOn Outcome.of at h ⊢
  rw [hentry fun hexceeds => ?_]
  cases hr : Run.entry ⟨p, { limits with calls := limit }⟩ entry m with
  | ok a m' =>
    rw [hr] at hexceeds
    exact hexceeds
  | error halt m' =>
    rw [hr] at h hexceeds
    cases halt with
    | fault e => exact h e rfl hexceeds
    | remainderUndefined | boundTooLarge | tooDeep | unfinished => exact hexceeds

/-- A function that writes, and calls one that divides by zero. -/
def dividingProgram : Program :=
  let literal (line : Nat) (n : Int) : Expr := .literal line (.integer n)
  let half : Expr := .arithmetic 5 .div (literal 5 1) (literal 5 0)
  { functions :=
      [⟨1, "main", [], [], [.call 2 "write" [.value 2 (literal 2 7)], .call 3 "half" []]⟩,
        ⟨4, "half", [], [], [.call 5 "write" [.value 5 half]]⟩] }

/-- The hypotheses of `runOn_eq_of_limit_le` are satisfiable: two functions are
active when the fault occurs, so it is the same within all limits from two on,
and is not met within a lower one. -/
theorem runOn_eq_of_limit_le_dividing :
    let start : Machine := { steps := 9 }
    let o := dividingProgram.runOn "main" { calls := 2, room := 40 } start
    o.halt = some (.fault ⟨.divisionByZero, some 5, ["half", "main"]⟩) ∧ o.output = "7\n" ∧
      dividingProgram.runOn "main" { calls := 500, room := 40 } start = o ∧
      (dividingProgram.runOn "main" { calls := 1, room := 40 } start).halt =
        some (.fault ⟨.callDepth 1, some 3, ["main"]⟩) := by
  intro start o
  have hhalt : o.halt = some (.fault ⟨.divisionByZero, some 5, ["half", "main"]⟩) := by
    decide +kernel
  refine ⟨hhalt, by decide +kernel, ?_, by decide +kernel⟩
  refine runOn_eq_of_limit_le dividingProgram "main" { room := 40 } (by decide) start fun e he => ?_
  obtain rfl := Halt.fault.inj (Option.some.inj (hhalt.symm.trans he))
  decide

end Program
end Shank
