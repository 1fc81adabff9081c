/-
# Where a fault is told to have happened

A fault comes up from the piece of a statement that it happened in, without a
place. On its way out it is given a line by the first statement it passes, and
the active functions by the first body it passes.

| the fault passes | what is known of it then |
| --- | --- |
| a statement of `g`, below the active functions `stack` | `Pending`: it has no functions yet, and its line, if it has one, is one of `g` |
| a body | `Fault.Located`: its functions call each other, and its line is one of the innermost |

A call that is refused because of its depth happens in the caller, so it is the
caller's functions that it is told with, and they are as many as may be active
at all.
-/

import Shank.Proofs.Parse.Nesting
import Shank.Proofs.Run.Congruence

namespace Shank

/-- A line of a statement of the function, at whatever depth. -/
def Function.HasLine (g : Function) (line : Nat) : Prop :=
  ∃ d s, (d, s) ∈ g.nodes ∧ s.line = line

/-- The function of one name has a call of the other one, at whatever depth. -/
def Program.Calls (p : Program) (caller callee : String) : Prop :=
  ∃ g, p.find? caller = some g ∧ ∃ d line args, (d, Stmt.call line callee args) ∈ g.nodes

/-- What is known of a fault that is told with its place: its functions, the
innermost first. -/
structure Fault.Located (p : Program) (limit : Nat) (entry : String) (e : Fault) : Prop where
  /-- The outermost function is the one that was run. -/
  last : e.frames.getLast? = some entry
  length_le : e.frames.length ≤ limit
  /-- Each function is called in the next one. -/
  calls : e.frames.IsChain fun callee caller => p.Calls caller callee
  /-- The line is that of a statement of the innermost function. -/
  line : ∃ name g line, e.frames.head? = some name ∧ p.find? name = some g ∧ e.line = some line ∧
    g.HasLine line
  /-- Where calls are nested too deep, all functions that may be active are. -/
  depth : ∀ k, e.cause = .callDepth k → k = limit ∧ e.frames.length = limit

namespace Run

/-- The active functions in a body of `g`, the innermost first. -/
structure Standing (p : Program) (limit : Nat) (entry : String) (stack : List String)
    (g : Function) : Prop where
  find : p.find? g.name = some g
  head : stack.head? = some g.name
  last : stack.getLast? = some entry
  length_le : stack.length ≤ limit
  calls : stack.IsChain fun callee caller => p.Calls caller callee

/-- What is known of a fault that comes out of a statement of `g`. -/
def Pending (p : Program) (limit : Nat) (entry : String) (stack : List String) (g : Function)
    (h : Halt) : Prop :=
  ∀ e, h = .fault e → e.Located p limit entry ∨
    e.frames = [] ∧ (∀ line ∈ e.line, g.HasLine line) ∧
      ∀ k, e.cause = .callDepth k → k = limit ∧ stack.length = limit

/-- What is known of a fault that comes out of a block of `g`: it has a line as
well. -/
def Lined (p : Program) (limit : Nat) (entry : String) (stack : List String) (g : Function)
    (h : Halt) : Prop :=
  Pending p limit entry stack g h ∧ ∀ e, h = .fault e → e.line ≠ none

variable {α β : Type} {p : Program} {limit : Nat} {entry : String} {stack : List String}
  {g : Function}

/-! ## What a run raises

A property of halts that holds of whatever a run stops with. It is kept by
sequences, and changed by handlers as these change halts.
-/

/-- Whatever machine it starts on, if a run stops, it stops with a halt of this
kind. -/
def Raises (E : Halt → Prop) (x : Run α) : Prop :=
  ∀ m h m', x m = .error h m' → E h

variable {E E' : Halt → Prop}

/-- What raises halts of one kind raises those of a wider one. -/
theorem Raises.mono {x : Run α} (h : Raises E x) (hE : ∀ h, E h → E' h) : Raises E' x :=
  fun m e m' hx => hE e (h m e m' hx)

/-- Giving a value raises nothing. -/
theorem raises_pure (a : α) : Raises E (pure a : Run α) :=
  fun _ _ _ h => nomatch h

/-- A halt raises itself. -/
theorem raises_throw {h : Halt} (hh : E h) : Raises E (throw h : Run α) := by
  rintro m _ _ ⟨⟩
  exact hh

/-- A sequence raises what its parts do. -/
theorem Raises.bind {x : Run α} {f : α → Run β} (hx : Raises E x)
    (hf : ∀ a m m', x m = .ok a m' → Raises E (f a)) : Raises E (x >>= f) := by
  intro m h m' he
  rw [bind_apply] at he
  cases hr : x m with
  | ok a m₁ =>
    rw [hr] at he
    exact hf a m m₁ hr m₁ h m' he
  | error h' m₁ =>
    rw [hr] at he
    cases he
    exact hx m h m' hr

/-- Taking a step raises that the run is unfinished, and nothing else. -/
theorem raises_tick (hE : E .unfinished) : Raises E tick := by
  intro m h m' he
  unfold tick at he
  split at he
  · cases he
    exact hE
  · cases he

/-- A handler that rethrows. -/
theorem Raises.rethrow {x : Run α} {t : Halt → Halt} (hx : Raises E x) (ht : ∀ h, E h → E' (t h)) :
    Raises E' (tryCatch x fun h => throw (t h)) := by
  intro m h m' he
  rw [rethrow_apply] at he
  cases hr : x m with
  | ok a m₁ =>
    rw [hr] at he
    cases he
  | error h' m₁ =>
    rw [hr] at he
    cases he
    exact ht h' (hx m h' _ hr)

/-- What all pieces of statements raise is unplaced. -/
theorem congruence_raises (hE : ∀ h : Halt, h.IsUnplaced → E h) (f : Frame) :
    Congruence f fun _ x _ => Raises E x where
  pure a := raises_pure a
  throw hh := raises_throw (hE _ hh)
  bind hx hk := hx.bind hk
  store := fun _ _ _ h => nomatch h
  tick := raises_tick (hE _ fun _ h => nomatch h)
  stepsLeft := fun _ _ _ h => nomatch h
  allocate _ := (raises_tick (hE _ fun _ h => nomatch h)).bind fun _ _ _ _ _ _ _ h => nomatch h
  tryWrite _ _ := (raises_tick (hE _ fun _ h => nomatch h)).bind fun _ _ _ _ _ _ _ h => nomatch h
  record _ := fun _ _ _ h => nomatch h
  readLine := by
    intro m h m' he
    unfold readLine at he
    split at he <;> cases he
  draw _ _ := fun _ _ _ h => nomatch h

/-- **A block raises what its statements do**, each with its line added. -/
theorem raises_block {run : Stmt → Run Unit} (hE : E .unfinished) {ss : List Stmt}
    (hs : ∀ s ∈ ss, Raises E (atLine s.line (run s))) : Raises E (block run ss) := by
  induction ss with
  | nil => exact raises_pure ()
  | cons s rest ih =>
    exact (raises_tick hE).bind fun _ _ _ _ => (hs s (List.mem_cons_self ..)).bind fun _ _ _ _ =>
      ih fun t ht => hs t (List.mem_cons_of_mem _ ht)

/-! ## On the way out

A fault starts without a place. The statement that it comes out of adds its
line, and the body around it adds the active functions.
-/

/-- A fault without a place is pending in every function. -/
theorem pending_of_isUnplaced {h : Halt} (hh : h.IsUnplaced) : Pending p limit entry stack g h := by
  intro e he
  obtain ⟨hline, hframes, hcause⟩ := hh e he
  refine .inr ⟨hframes, by simp [hline], fun k hk => ?_⟩
  rw [hk] at hcause
  exact hcause.elim

/-- A function that is called in the innermost one becomes that itself. -/
theorem Standing.enter {function : Function} (h : Standing p limit entry stack g)
    (hfind : p.find? function.name = some function) (hcalls : p.Calls g.name function.name)
    (hlt : stack.length < limit) :
    Standing p limit entry (function.name :: stack) function := by
  obtain ⟨_, hhead, hlast, _, hchain⟩ := h
  cases stack with
  | nil => cases hhead
  | cons name rest =>
    cases hhead
    exact ⟨hfind, rfl, hlast, hlt, .cons_cons hcalls hchain⟩

/-- **A statement gives its line** to a fault that has none. One that has a line
already has its functions too, so it comes from a body further in. -/
theorem lined_atLine {h : Halt} {line : Nat} (hline : g.HasLine line)
    (hh : Pending p limit entry stack g h) : Lined p limit entry stack g (h.atLine line) := by
  cases h with
  | fault e =>
    cases he : e.line with
    | some l =>
      have hsame : (Halt.fault e).atLine line = .fault e := by simp [Halt.atLine, he]
      rw [hsame]
      refine ⟨hh, ?_⟩
      rintro _ ⟨⟩
      simp [he]
    | none =>
      have hnew : (Halt.fault e).atLine line = .fault { e with line := some line } := by
        simp [Halt.atLine, he]
      rw [hnew]
      refine ⟨?_, by rintro _ ⟨⟩; simp⟩
      rintro _ ⟨⟩
      rcases hh e rfl with hlocated | ⟨hframes, -, hdepth⟩
      -- a fault with a place would have its line
      · obtain ⟨_, _, l, _, _, hl, _⟩ := hlocated.line
        rw [he] at hl
        cases hl
      · exact .inr ⟨hframes, by rintro _ ⟨⟩; exact hline, hdepth⟩
  | remainderUndefined | boundTooLarge | tooDeep | unfinished =>
    exact ⟨fun _ h => (nomatch h), fun _ h => (nomatch h)⟩

/-- **A body gives the active functions** to a fault that has none, which then
has its place. -/
theorem located_inFrames (hstack : Standing p limit entry stack g) {h : Halt}
    (hh : Lined p limit entry stack g h) :
    ∀ e, h.inFrames stack = .fault e → e.Located p limit entry := by
  intro e he
  cases h with
  | fault e₀ =>
    obtain ⟨hpending, hline⟩ := hh
    have hstackne : stack ≠ [] := by
      rintro rfl
      cases hstack.head
    rcases hpending e₀ rfl with hlocated | ⟨hframes, hlines, hdepth⟩
    -- a fault with a place has functions, so it is not given others
    · have hne : e₀.frames.isEmpty = false := by
        obtain ⟨_, _, _, hhead, -⟩ := hlocated.line
        cases hf : e₀.frames with
        | nil =>
          rw [hf] at hhead
          cases hhead
        | cons => rfl
      simp only [Halt.inFrames, hne] at he
      cases he
      exact hlocated
    · simp only [Halt.inFrames, hframes, List.isEmpty_nil, if_true] at he
      cases he
      obtain ⟨l, hl⟩ := Option.ne_none_iff_exists'.1 (hline e₀ rfl)
      exact {
        last := hstack.last
        length_le := hstack.length_le
        calls := hstack.calls
        line := ⟨g.name, g, l, hstack.head, hstack.find, hl, hlines l hl⟩
        depth := hdepth }
  | remainderUndefined | boundTooLarge | tooDeep | unfinished => cases he

/-! ## Statements of a function

A line is one of a function if it is that of some statement in it, at whatever
depth; so the blocks of a statement are followed down into the function.
-/

/-- All statements of a block, at all depths, are statements of the function. -/
def Within (g : Function) (d : Nat) (ss : List Stmt) : Prop :=
  ∀ n ∈ Stmt.nodesOfBlock d ss, n ∈ g.nodes

variable {d : Nat} {s t : Stmt} {ss : List Stmt}

/-- A statement of a function is one of its nodes. -/
theorem Within.mem (h : Within g d [s]) : (d, s) ∈ g.nodes :=
  h _ (by simp [Stmt.nodesOfBlock])

/-- The line of a statement within a function is one of the function. -/
theorem Within.hasLine (h : Within g d [s]) : g.HasLine s.line :=
  ⟨d, s, h.mem, rfl⟩

/-- A statement of a block in a function is a statement of the function. -/
theorem Within.stmt (h : Within g d ss) (ht : t ∈ ss) : Within g d [t] := by
  induction ss with
  | nil => cases ht
  | cons s rest ih =>
    rcases List.mem_cons.1 ht with rfl | ht
    · refine fun n hn => h n ?_
      rw [Stmt.nodesOfBlock, Stmt.nodesOfBlock, List.append_nil] at hn
      rw [Stmt.nodesOfBlock, ← List.cons_append]
      exact List.mem_append_left _ hn
    · exact ih (fun n hn => h n (by simp [Stmt.nodesOfBlock, hn])) ht

/-- What is nested in a branch is nested in its chain. -/
theorem mem_nestedInChain {branches : List Branch} {b : Branch} (hb : b ∈ branches) {n : Nat × Stmt}
    (hn : n ∈ Branch.nested d b) : n ∈ Branch.nestedInChain d branches := by
  induction branches with
  | nil => cases hb
  | cons c rest ih =>
    rw [Branch.nestedInChain, List.mem_append]
    rcases List.mem_cons.1 hb with rfl | hb
    · exact .inl hn
    · exact .inr (ih hb)

/-- A block in a statement is one level deeper, and within the same function. -/
theorem Within.inner {body : List Stmt} (h : Within g d [s]) (hbody : body ∈ s.blocks) :
    Within g (d + 1) body := by
  intro n hn
  refine h n ?_
  rw [Stmt.nodesOfBlock, Stmt.nodesOfBlock, List.append_nil]
  refine List.mem_cons_of_mem _ ?_
  cases s with
  | assign | call => cases hbody
  | ifChain _ branches =>
    obtain ⟨b, hb, rfl⟩ := List.mem_map.1 hbody
    exact mem_nestedInChain hb (by cases b; exact hn)
  | whileLoop | repeatLoop | forLoop =>
    obtain rfl := List.mem_singleton.1 hbody
    exact hn

/-! ## Runs

The active functions are carried along as the list that the run itself hands on,
so what is added to a fault is what was active where it happened.
-/

/-- What runs a body of a function with the functions that are active in it. -/
def RaisesLined (p : Program) (limit : Nat) (entry : String)
    (body : List String → Frame → List Stmt → Run Unit) : Prop :=
  ∀ stack f g d ss, Standing p limit entry stack g → Within g d ss →
    Raises (Lined p limit entry stack g) (body stack f ss)

/-- Statements give their lines. -/
theorem raisesLined_block {run : List String → Frame → Stmt → Run Unit}
    (hrun : ∀ {stack g}, Standing p limit entry stack g → ∀ f d s, Within g d [s] →
      Raises (Pending p limit entry stack g) (run stack f s)) :
    RaisesLined p limit entry fun stack f => block (run stack f) := by
  intro stack f g d ss hstack hss
  refine raises_block ⟨fun _ h => (nomatch h), fun _ h => (nomatch h)⟩ fun t ht => ?_
  exact (hrun hstack f d t (hss.stmt ht)).rethrow fun _ hh => lined_atLine (hss.stmt ht).hasLine hh

/-- A body of a function that was entered tells its faults with their place. -/
theorem raises_inFrames {body : List String → Frame → List Stmt → Run Unit}
    (hbody : RaisesLined p limit entry body) (hstack : Standing p limit entry stack g) (f : Frame) :
    Raises (fun h => ∀ e, h = .fault e → e.Located p limit entry)
      (inFrames stack (body stack f g.body)) :=
  (hbody stack f g 1 g.body hstack fun _ h => h).rethrow fun _ hh => located_inFrames hstack hh

/-- **What activating a function raises**: the limit for calls; or what entering
it raises, with no activation begun yet; or faults of its body, which are told
with their place. -/
theorem activate_error {body : List String → Frame → List Stmt → Run Unit}
    (hbody : RaisesLined p limit entry body) {function : Function} {args : List Actual}
    (hstack : stack.length < limit → Standing p limit entry (function.name :: stack) function)
    {m m' : Machine} {h : Halt} (he : activate limit body stack function args m = .error h m') :
    limit ≤ stack.length ∧ h = .of (.callDepth limit) ∧ m' = m ∨
      h.IsUnplaced ∧ m'.activations = m.activations ∨
      ∀ e, h = .fault e → e.Located p limit entry := by
  rw [activate_apply] at he
  split at he
  · cases he
    exact .inl ⟨by omega, rfl, rfl⟩
  · cases hr : enter function args m with
    | error h₁ m₁ =>
      rw [hr] at he
      cases he
      have hunplaced := (congruence_raises (fun _ h => h) {}).enter function args m h m' hr
      have hstill := (congruence_activations m.activations {}).enter function args m rfl
      rw [after, hr] at hstill
      exact .inr (.inl ⟨hunplaced, hstill⟩)
    | ok frame m₁ =>
      rw [hr] at he
      exact .inr (.inr (raises_inFrames hbody (hstack (by omega)) frame _ h m' he))

/-- **What comes out of a statement** of `g`, below the active functions
`stack`, is pending. The induction is on the room for nesting; a call puts its
function on top of the active ones. -/
theorem raises_statement {setting : Setting} (hlimit : setting.limits.calls = limit) (room : Nat)
    (hstack : Standing setting.program limit entry stack g) (f : Frame) (hs : Within g d [s]) :
    Raises (Pending setting.program limit entry stack g) (statement setting room stack f s) := by
  induction room using Nat.strong_induction_on generalizing stack g f d s with
  | _ room ih =>
    have hblock (r : Nat) (hr : r < room) :
        RaisesLined setting.program limit entry fun stack f => block (statement setting r stack f) :=
      raisesLined_block fun hstack f _ _ hs => ih r hr hstack f hs
    rcases Nat.lt_or_ge room 5 with hroom | hroom
    · rw [statement_of_lt hroom]
      exact raises_throw fun _ h => nomatch h
    · obtain ⟨room, rfl⟩ := Nat.exists_eq_add_of_le' hroom
      rw [statement_eq]
      have hinner (r : Nat) (hr : r < room + 5) (body : List Stmt) (hbody : body ∈ s.blocks) :
          Raises (Pending setting.program limit entry stack g)
            (block (statement setting r stack f) body) :=
        (hblock r hr stack f g _ body hstack (hs.inner hbody)).mono fun _ hh => hh.1
      refine (congruence_raises (fun _ => pending_of_isUnplaced) f).level_self s
        (hinner _ (by omega)) (hinner _ (by omega)) fun line name args function as hcall hfind _ => ?_
      have hname : function.name = name := by simpa using List.find?_some hfind
      subst hcall hname
      rw [hlimit]
      intro m h m' he
      -- the call is refused, fails before the body, or fails in it
      rcases activate_error (hblock room (by omega)) (fun hlt =>
        hstack.enter hfind ⟨g, hstack.find, d, line, args, hs.mem⟩ hlt) he with
        ⟨hle, rfl, -⟩ | ⟨hunplaced, -⟩ | hlocated
      · rintro _ ⟨⟩
        refine .inr ⟨rfl, by simp, fun k hk => ?_⟩
        cases hk
        exact ⟨rfl, Nat.le_antisymm hstack.length_le hle⟩
      · exact pending_of_isUnplaced hunplaced
      · exact fun e he => .inl (hlocated e he)

/-- **What comes out of a run**: a fault with its place; or one without, from
before the body of the entry function; or one for want of room, which has no
line. -/
theorem entry_error {setting : Setting} (hlimit : setting.limits.calls = limit) {name : String}
    {m m' : Machine} {e : Fault} (h : Run.entry setting name m = .error (.fault e) m') :
    (e.cause = .roomExhausted ∧ e.line = none) ∨ e.Located setting.program limit name ∨
      e.frames = [] ∧ e.line = none ∧ m'.activations = m.activations ∧
        ∀ k, e.cause = .callDepth k → k = limit ∧ limit = 0 := by
  unfold Run.entry at h
  cases hfind : setting.program.find? name with
  | none =>
    rw [hfind] at h
    cases h
    exact .inr (.inr ⟨rfl, rfl, rfl, fun _ hk => nomatch hk⟩)
  | some f =>
    have hname : f.name = name := by simpa using List.find?_some hfind
    subst hname
    rw [hfind] at h
    dsimp only at h
    rw [function_eq, rethrow_apply, hlimit] at h
    have hbody : RaisesLined setting.program limit f.name
        fun stack f => block (statement setting setting.limits.room stack f) :=
      raisesLined_block fun hstack f _ _ hs => raises_statement hlimit _ hstack f hs
    split at h
    · cases h
    · rename_i h₁ m₁ hactivate
      obtain ⟨houtside, rfl⟩ := EStateM.Result.error.inj h
      rcases Halt.outside_eq_fault houtside with rfl | hroom
      · rcases activate_error hbody (fun hlt =>
          ⟨hfind, rfl, rfl, hlt, List.IsChain.singleton _⟩) hactivate with
          ⟨hle, hcause, rfl⟩ | ⟨hunplaced, hstill⟩ | hlocated
        · -- no function may be active at all
          cases hcause
          refine .inr (.inr ⟨rfl, rfl, rfl, fun k hk => ?_⟩)
          cases hk
          exact ⟨rfl, Nat.le_zero.1 hle⟩
        · obtain ⟨hline, hframes, hcause⟩ := hunplaced e rfl
          refine .inr (.inr ⟨hframes, hline, hstill, fun k hk => ?_⟩)
          rw [hk] at hcause
          exact hcause.elim
        · exact .inr (.inl (hlocated e rfl))
      · exact .inl hroom

/-- **Where a fault of a whole run is told to have happened**: nowhere if the
program is nested too deep, in some activation (`Fault.Located`), or before any
function was entered. -/
theorem raises_entry {setting : Setting} (hlimit : setting.limits.calls = limit) {name : String}
    {m m' : Machine} {e : Fault} (h : Run.entry setting name m = .error (.fault e) m') :
    e.cause = .roomExhausted ∨ e.Located setting.program limit name ∨
      e.frames = [] ∧ e.line = none ∧ m'.activations = m.activations ∧
        ∀ k, e.cause = .callDepth k → k = limit ∧ limit = 0 :=
  (entry_error hlimit h).imp_left And.left

/-- **A fault that has a line is told with its place.** -/
theorem located_of_line {setting : Setting} {name : String} {m m' : Machine} {e : Fault} {line : Nat}
    (h : Run.entry setting name m = .error (.fault e) m') (hline : e.line = some line) :
    ∃ limit, e.Located setting.program limit name := by
  have hnone {P : Prop} (hn : e.line = none) : P := by
    rw [hline] at hn
    cases hn
  rcases Int.lt_or_le setting.limits.calls 0 with hneg | hpos
  · -- a limit below zero refuses the first function already
    unfold Run.entry at h
    cases hfind : setting.program.find? name with
    | none =>
      rw [hfind] at h
      cases h
      cases hline
    | some f =>
      rw [hfind] at h
      dsimp only at h
      rw [function_eq, rethrow_apply, activate_apply, if_pos (by simpa using Int.le_of_lt hneg)] at h
      cases h
      cases hline
  · obtain ⟨limit, hlimit⟩ := Int.eq_ofNat_of_zero_le hpos
    rcases entry_error hlimit h with ⟨-, hn⟩ | hlocated | ⟨-, hn, -⟩
    · exact hnone hn
    · exact ⟨limit, hlocated⟩
    · exact hnone hn

end Run
end Shank
