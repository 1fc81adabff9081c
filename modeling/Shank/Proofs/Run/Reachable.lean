/-
# Functions that a run can reach

A function that is called is found by its name at that moment, so a run goes by
the functions whose names it can come to: that of the entry, and those called in
the functions come to already. The name of a built-in function does not lead on,
as that function is called instead (`Program.Reaches`).

Programs that agree on these names run alike, and in all respects: what is read
and written, each notice, each fault with its place, and the machine that is
left behind, after however many steps. Neither the order of functions nor those
that are never reached have to do with it.
-/

import Shank.Proofs.Definitions
import Shank.Proofs.Parse.Ranges
import Shank.Proofs.Run.Faults

namespace Shank

/-- The names that a run from an entry can come to. -/
inductive Program.Reaches (p : Program) (entry : String) : String → Prop
  | entry : p.Reaches entry entry
  /-- A name that is called, but not that of a built-in function. -/
  | call {caller callee : String} (h : p.Reaches entry caller) (hcalls : p.Calls caller callee)
      (hname : Builtin.ofName? callee = none) : p.Reaches entry callee

/-- The one program has the functions of the other one for all names that a run
of it can come to, or likewise none. -/
def Program.AgreesFrom (p q : Program) (entry : String) : Prop :=
  ∀ name, p.Reaches entry name → p.find? name = q.find? name

namespace Run

/-- What pieces of statements come to depends on the runs they are made of only
by what these do. -/
theorem congruence_eq (f : Frame) : Congruence f fun _ x x' => x = x' where
  pure _ := rfl
  throw _ := rfl
  bind {α β x x' k k'} hx hk := by
    subst hx
    funext m
    rw [bind_apply, bind_apply]
    cases hr : x m with
    | ok a m' => exact congrFun (hk a m m' hr) m'
    | error h m' => rfl
  store := rfl
  tick := rfl
  stepsLeft := rfl
  allocate _ := rfl
  tryWrite _ _ := rfl
  record _ := rfl
  readLine := rfl
  draw _ _ := rfl

variable {p q : Program} {entry : String} {limits : Limits}

/-- A call comes to the same, if the function of its name does. -/
theorem callWith_congr {act act' : Function → List Actual → Run Unit} {f : Frame} {name : String}
    {args : List Argument} (hfind : Builtin.ofName? name = none → p.find? name = q.find? name)
    (hact : ∀ function, Builtin.ofName? name = none → p.find? name = some function →
      act function = act' function) :
    callWith p act f name args = callWith q act' f name args := by
  unfold callWith
  cases hname : Builtin.ofName? name with
  | some b => rfl
  | none =>
    rw [← hfind hname]
    cases hfunction : p.find? name with
    | some function => simp only [hact function hname hfunction]
    | none => rfl

/-- A statement comes to the same, if the blocks in it and the call do. -/
theorem level_congr {inner inner' looped looped' : List Stmt → Run Unit}
    {act act' : Function → List Actual → Run Unit} {room : Nat} {f : Frame} (s : Stmt)
    (hinner : ∀ body ∈ s.blocks, inner body = inner' body)
    (hlooped : ∀ body ∈ s.blocks, looped body = looped' body)
    (hcall : ∀ line name args, s = .call line name args →
      callWith p act f name args = callWith q act' f name args) :
    level p inner looped act room f s = level q inner' looped' act' room f s := by
  cases s with
  | call line name args => simp only [level, hcall line name args rfl]
  | _ =>
    exact @Congruence.level f _ (congruence_eq f) p inner inner' looped looped' act act' room _ hinner
      hlooped fun _ _ _ _ _ hcall => (nomatch hcall)

/-- An activation comes to the same, if the body of the function does. -/
theorem activate_congr {limit : Int} {body body' : List String → Frame → List Stmt → Run Unit}
    {stack : List String} {function : Function} (hbody : ∀ frame,
      body (function.name :: stack) frame function.body =
        body' (function.name :: stack) frame function.body) :
    activate limit body stack function = activate limit body' stack function := by
  funext args m
  simp only [activate_apply, hbody]

/-- **A statement of a function that can be reached** runs alike in programs
that agree. By induction on the room: the blocks in it are those of the same
function, and what it calls can be reached as well. -/
theorem statement_agree (h : p.AgreesFrom q entry) (room : Nat) {g : Function} {s : Stmt} {d : Nat}
    (hg : p.Reaches entry g.name) (hfind : p.find? g.name = some g) (hs : Within g d [s])
    (stack : List String) (f : Frame) :
    statement ⟨p, limits⟩ room stack f s = statement ⟨q, limits⟩ room stack f s := by
  induction room using Nat.strong_induction_on generalizing g s d stack f with
  | _ room ih =>
    have hblock (r : Nat) (hr : r < room) {g : Function} {d : Nat} {ss : List Stmt}
        (hg : p.Reaches entry g.name) (hfind : p.find? g.name = some g) (hss : Within g d ss)
        (stack : List String) (f : Frame) :
        block (statement ⟨p, limits⟩ r stack f) ss = block (statement ⟨q, limits⟩ r stack f) ss :=
      (congruence_eq f).block ss fun s hs => by rw [ih r hr hg hfind (hss.stmt hs)]
    rcases Nat.lt_or_ge room 5 with hroom | hroom
    · rw [statement_of_lt hroom, statement_of_lt hroom]
    · obtain ⟨room, rfl⟩ := Nat.exists_eq_add_of_le' hroom
      rw [statement_eq, statement_eq]
      refine level_congr s (fun body hbody => hblock _ (by omega) hg hfind (hs.inner hbody) stack f)
        (fun body hbody => hblock _ (by omega) hg hfind (hs.inner hbody) stack f) ?_
      rintro line name args rfl
      have hreaches (hname : Builtin.ofName? name = none) : p.Reaches entry name :=
        .call hg ⟨g, hfind, d, line, args, hs.mem⟩ hname
      refine callWith_congr (fun hname => h name (hreaches hname)) fun function hname hfunction => ?_
      obtain rfl := Program.find?_name hfunction
      exact activate_congr fun frame =>
        hblock room (by omega) (hreaches hname) hfunction (fun _ hn => hn) _ frame

/-- **Entry functions of programs that agree run alike**, on every machine. -/
theorem entry_agree (h : p.AgreesFrom q entry) :
    Run.entry ⟨p, limits⟩ entry = Run.entry ⟨q, limits⟩ entry := by
  unfold Run.entry
  dsimp only
  rw [← h entry .entry]
  cases hfind : p.find? entry with
  | none => rfl
  | some f =>
    obtain rfl := Program.find?_name hfind
    have hactivate : activate limits.calls
          (fun stack f => block (statement ⟨p, limits⟩ limits.room stack f)) [] f =
        activate limits.calls
          (fun stack f => block (statement ⟨q, limits⟩ limits.room stack f)) [] f :=
      activate_congr fun frame => (congruence_eq frame).block f.body fun s hs => by
        rw [statement_agree h limits.room .entry hfind
          (Within.stmt (g := f) (d := 1) (fun _ hn => hn) hs)]
    simp only [function_eq, hactivate]

end Run

namespace Program

variable {p q : Program} {entry : String}

/-- Programs that have the same functions among those that can be reached agree
on their names. -/
theorem agreesFrom_of_mem (hp : p.names.Nodup) (hq : q.names.Nodup)
    (h : ∀ f : Function, p.Reaches entry f.name → (f ∈ p.functions ↔ f ∈ q.functions)) :
    p.AgreesFrom q entry := by
  intro name hname
  refine Option.ext fun f => ?_
  rw [find?_iff hp, find?_iff hq]
  constructor
  · rintro ⟨hf, rfl⟩
    exact ⟨(h f hname).1 hf, rfl⟩
  · rintro ⟨hf, rfl⟩
    exact ⟨(h f hname).2 hf, rfl⟩

/-- **A run goes by the functions that it can reach.** On any machine, with
whatever input, random numbers and steps, and within any limits, programs that
agree on the names that can be reached from an entry run alike: with the same
record of events, the same end, and the same machine left behind. So do parsed
programs that have the same functions among those that can be reached, in
whatever order and with whatever others. -/
theorem runOn_eq_of_agreesFrom :
    (∀ (p q : Program) (entry : String), p.AgreesFrom q entry →
      ∀ limits m, p.runOn entry limits m = q.runOn entry limits m) ∧
    ∀ (ts us : List Token) (room : Nat) (p q : Program) (entry : String),
      (Parsing.ofTokens ts room).program = .ok p → (Parsing.ofTokens us room).program = .ok q →
      (∀ f : Function, p.Reaches entry f.name → (f ∈ p.functions ↔ f ∈ q.functions)) →
      ∀ limits m, p.runOn entry limits m = q.runOn entry limits m := by
  have hagree (p q : Program) (entry : String) (h : p.AgreesFrom q entry) (limits : Limits)
      (m : Machine) : p.runOn entry limits m = q.runOn entry limits m := by
    rw [runOn, Run.entry_agree h, ← runOn]
  exact ⟨hagree, fun ts us room p q entry hp hq h =>
    hagree p q entry (agreesFrom_of_mem (nodup_of_parsing hp) (nodup_of_parsing hq) h)⟩

/-- The tokens of a function without parameters that calls functions without
arguments. -/
def callerTokens (name : String) (callees : List String) : List Token :=
  [⟨.define, "", 1, 1⟩, ⟨.identifier, name, 1, 1⟩, ⟨.openParen, "", 1, 1⟩, ⟨.closeParen, "", 1, 1⟩,
    ⟨.endOfLine, "", 1, 1⟩, ⟨.indent, "", 1, 1⟩] ++
  callees.flatMap (fun callee => [⟨.identifier, callee, 1, 1⟩, ⟨.endOfLine, "", 1, 1⟩]) ++
  [⟨.dedent, "", 1, 1⟩]

/-- The function that these tokens stand for. -/
def callerFunction (name : String) (callees : List String) : Function :=
  ⟨1, name, [], [], callees.map fun callee => .call 1 callee []⟩

/-- A function that calls one that is built in and another one, and a third one
that nothing calls. -/
def callerProgram : Program :=
  ⟨[callerFunction "a" ["write", "b"], callerFunction "b" [], callerFunction "c" ["a"]]⟩

/-- From `a`, of the functions declared here only `a` and `b` can be come to. -/
theorem reaches_callerProgram {name : String} (h : callerProgram.Reaches "a" name) :
    name = "a" ∨ name = "b" := by
  induction h with
  | entry => exact .inl rfl
  | call _ hcalls hname ih =>
    obtain ⟨g, hg, d, line, args, hmem⟩ := hcalls
    rcases ih with rfl | rfl
    · cases hg
      simp [callerFunction, Function.nodes, Stmt.nodesOfBlock, Stmt.nested] at hmem
      rcases hmem with ⟨-, -, rfl, -⟩ | ⟨-, -, rfl, -⟩
      · cases hname
      · exact .inr rfl
    · cases hg
      simp [callerFunction, Function.nodes, Stmt.nodesOfBlock] at hmem

/-- The hypotheses of `runOn_eq_of_agreesFrom` are satisfiable: the third
function may be left out, and the other two come in another order. -/
theorem runOn_eq_of_agreesFrom_caller :
    let q : Program := ⟨[callerFunction "b" [], callerFunction "a" ["write", "b"]]⟩
    let ts := callerTokens "a" ["write", "b"] ++ callerTokens "b" [] ++ callerTokens "c" ["a"]
    let us := callerTokens "b" [] ++ callerTokens "a" ["write", "b"]
    callerProgram.AgreesFrom q "a" ∧
      (∀ limits m, callerProgram.runOn "a" limits m = q.runOn "a" limits m) ∧
      parse ts = .ok callerProgram ∧ parse us = .ok q ∧
      ∀ input, callerProgram.run "a" input = q.run "a" input := by
  intro q ts us
  have hagree : callerProgram.AgreesFrom q "a" := by
    intro name hname
    rcases reaches_callerProgram hname with rfl | rfl <;> rfl
  have hmem (f : Function) (hf : callerProgram.Reaches "a" f.name) :
      f ∈ callerProgram.functions ↔ f ∈ q.functions := by
    constructor
    · intro h
      rcases List.mem_cons.1 h with rfl | h
      · exact List.mem_cons_of_mem _ (List.mem_singleton_self _)
      · rcases List.mem_cons.1 h with rfl | h
        · exact List.mem_cons_self ..
        · -- the third one cannot be reached
          obtain rfl := List.mem_singleton.1 h
          rcases reaches_callerProgram hf with hname | hname <;> exact absurd hname (by decide)
    · intro h
      rcases List.mem_cons.1 h with rfl | h
      · exact List.mem_cons_of_mem _ (List.mem_cons_self ..)
      · obtain rfl := List.mem_singleton.1 h
        exact List.mem_cons_self ..
  have hp : parse ts = .ok callerProgram := rfl
  have hq : parse us = .ok q := rfl
  exact ⟨hagree, runOn_eq_of_agreesFrom.1 _ _ _ hagree, hp, hq, fun input =>
    runOn_eq_of_agreesFrom.2 ts us _ _ _ _ hp hq hmem {} _⟩

end Program
end Shank
