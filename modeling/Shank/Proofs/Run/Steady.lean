/-
# Runs that go by steps

A piece of a run is `Steady` when two things hold, whatever machine it starts
on:

* what it does to the machine is a sequence of steps (`Machine.Leads`), also if it fails;
* given `d` steps more, it does the same and then goes on. If it ended, it ends in the same way with
  `d` steps more left; if it ran out of steps, it goes on by steps from where it stopped
  (`Run.Continues`).

So the machines that a run leaves behind with fewer steps are those it goes
through with more. Steadiness is kept by sequencing, by handlers that only add
to a fault, and by the loops of `Shank.Run.Execute`; the last need the number of
steps left, which bounds their rounds.

Some pieces are steady only on the machines they are used on, hence `SteadyAt`.
-/

import Shank.Run.Execute
import Shank.Proofs.Machine.Step
import Shank.Proofs.Sequencing

namespace Shank

/-- A machine with more steps left. -/
def Machine.more (m : Machine) (d : Nat) : Machine :=
  { m with steps := m.steps + d }

/-- Steps handed out twice are handed out at once. -/
theorem Machine.more_more (m : Machine) (d e : Nat) : (m.more d).more e = m.more (d + e) := by
  simp only [more, Nat.add_assoc]

namespace Run

open Machine

variable {α β : Type} {p : Program} {base : Nat} {given : Place → Prop}

/-- The machine at the end of a piece of a run. -/
def final : EStateM.Result Halt Machine α → Machine
  | .ok _ m => m
  | .error _ m => m

/-- The machine that a piece of a run leaves behind. -/
def after (x : Run α) (m : Machine) : Machine :=
  final (x m)

/-- How a piece of a run ends with `d` steps more than another time. -/
inductive Continues (p : Program) (base : Nat) (given : Place → Prop) (d : Nat) :
    EStateM.Result Halt Machine α → EStateM.Result Halt Machine α → Prop
  | ok (a : α) (m : Machine) : Continues p base given d (.ok a m) (.ok a (m.more d))
  | error (h : Halt) (m : Machine) : Continues p base given d (.error h m) (.error h (m.more d))
  | unfinished {m : Machine} {r : EStateM.Result Halt Machine α}
      (leads : Leads p base given (m.more d) (final r)) :
      Continues p base given d (.error .unfinished m) r

/-- Whatever the first time came to, the second one gets to its end from there. -/
theorem Continues.leads {d : Nat} {r r' : EStateM.Result Halt Machine α}
    (h : Continues p base given d r r') : Leads p base given ((final r).more d) (final r') := by
  cases h with
  | ok a m => exact .refl _
  | error e m => exact .refl _
  | unfinished hn => exact hn

/-- A piece of a run that goes by steps on this machine. -/
structure SteadyAt (p : Program) (base : Nat) (given : Place → Prop) (x : Run α) (m : Machine) :
    Prop where
  leads : Leads p base given m (after x m)
  continues : ∀ d, Continues p base given d (x m) (x (m.more d))

/-- What a piece has come to with fewer steps it comes to with more. -/
theorem SteadyAt.ok_more {x : Run α} {m m' : Machine} {a : α} (hx : SteadyAt p base given x m)
    (h : x m = .ok a m') (d : Nat) : x (m.more d) = .ok a (m'.more d) := by
  have hcontinues := hx.continues d
  rw [h] at hcontinues
  generalize x (m.more d) = r at hcontinues
  cases hcontinues
  rfl

/-- A piece of a run that goes by steps wherever it finds `base` cells in the
store. -/
def Steady (p : Program) (base : Nat) (given : Place → Prop) (x : Run α) : Prop :=
  ∀ m, base ≤ m.store.cells.size → SteadyAt p base given x m

/-! ## Sequencing

The second of two pieces starts where the first one ends, with however many
steps are left. So steadiness is about the store and about what more steps
change, and both are kept.
-/

/-- If one piece goes by steps, and so does whatever follows it where it ends,
then so does their sequence. -/
theorem leads_bind {x : Run α} {f : α → Run β} {m n : Machine}
    (hx : Leads p base given n (after x m))
    (hf : ∀ a m', x m = .ok a m' → Leads p base given m' (after (f a) m')) :
    Leads p base given n (after (x >>= f) m) := by
  rw [after] at hx ⊢
  rw [bind_apply]
  cases h : x m with
  | ok a m' =>
    rw [h] at hx
    exact hx.trans (hf a m' h)
  | error e m' =>
    rw [h] at hx
    exact hx

/-- Two pieces that begin alike and go on alike, the second one with more steps. -/
theorem continues_bind {x : Run α} {f f' : α → Run β} {m : Machine} {d : Nat}
    (hx : SteadyAt p base given x m)
    (hf : ∀ a m', x m = .ok a m' → Continues p base given d (f a m') (f' a (m'.more d)))
    (hl : ∀ a m', x (m.more d) = .ok a m' → Leads p base given m' (after (f' a) m')) :
    Continues p base given d ((x >>= f) m) ((x >>= f') (m.more d)) := by
  have hc := hx.continues d
  rw [bind_apply]
  generalize hr : x m = r at hc
  generalize hr' : x (m.more d) = r' at hc
  cases hc with
  | ok a m' =>
    rw [bind_apply, hr']
    exact hf a m' hr
  | error h m' =>
    rw [bind_apply, hr']
    exact .error h m'
  | unfinished hn =>
    refine .unfinished (leads_bind (f := f') ?_ hl)
    rwa [after, hr']

/-- **Steady pieces in a row.** The second one need only be steady on the
machines that the first one gives it, be it with more steps. -/
theorem SteadyAt.bind {x : Run α} {f : α → Run β} {m : Machine} (hx : SteadyAt p base given x m)
    (hf : ∀ d a m', x (m.more d) = .ok a m' → SteadyAt p base given (f a) m') :
    SteadyAt p base given (x >>= f) m :=
  ⟨leads_bind hx.leads fun a m' h => (hf 0 a m' h).leads,
    fun d => continues_bind hx (fun a m' h => (hf 0 a m' h).continues d)
      fun a m' h => (hf d a m' h).leads⟩

/-- A steady piece drops none of the `base` cells, so the next one finds them as
well. -/
theorem SteadyAt.size_le {x : Run α} {m m' : Machine} {d : Nat} {a : α}
    (hx : Steady p base given x) (hm : base ≤ m.store.cells.size) (h : x (m.more d) = .ok a m') :
    base ≤ m'.store.cells.size := by
  have hl := (hx (m.more d) hm).leads.grows.size_le
  rw [after, h] at hl
  exact hm.trans hl

/-- **Steadiness is kept by sequencing.** -/
theorem Steady.bind {x : Run α} {f : α → Run β} (hx : Steady p base given x)
    (hf : ∀ a, Steady p base given (f a)) : Steady p base given (x >>= f) :=
  fun m hm => (hx m hm).bind fun _ a m' h => hf a m' (SteadyAt.size_le hx hm h)

/-- **Handing places on** (`Machine.Leads.hand_on`): a piece that is steady with
the cells and places it is handed is steady for whoever hands them on. -/
theorem SteadyAt.hand_on {given' : Place → Prop} {base' : Nat} {x : Run α} {m : Machine}
    (h : SteadyAt p base' given x m) (hm : base' ≤ m.store.cells.size) (hb : base ≤ base')
    (hg : ∀ q, given q → base ≤ q.cell ∧ q.cell < base' ∨ given' q) :
    SteadyAt p base given' x m := by
  refine ⟨h.leads.hand_on hm hb hg, fun d => ?_⟩
  have hsize := hm.trans h.leads.grows.size_le
  rw [after] at hsize
  have hc := h.continues d
  generalize x m = r at hc hsize
  generalize x (m.more d) = r' at hc
  cases hc with
  | ok a m' => exact .ok a m'
  | error e m' => exact .error e m'
  | unfinished hn => exact .unfinished (hn.hand_on hsize hb hg)

/-! ## Pieces that leave the store alone

To look at the store, to take a step, to take a line or to draw a number: none
of them adds or changes a cell.
-/

/-- What depends on the store only, and changes nothing, is steady. -/
theorem steady_of_reads {x : Run α} (g : Store → Except Halt α)
    (h : ∀ m, x m = match g m.store with
      | .ok a => .ok a m
      | .error e => .error e m) : Steady p base given x := by
  intro m _
  refine ⟨?_, fun d => ?_⟩
  · rw [after, h]
    cases g m.store <;> exact .refl m
  · rw [h, h, show (m.more d).store = m.store from rfl]
    cases g m.store with
    | ok a => exact .ok a m
    | error e => exact .error e m

/-- Giving a value is steady. -/
theorem steady_pure (a : α) : Steady p base given (pure a : Run α) :=
  steady_of_reads (fun _ => .ok a) fun _ => rfl

/-- Halting is steady: more steps do not turn a halt into anything else. -/
theorem steady_throw (h : Halt) : Steady p base given (throw h : Run α) :=
  steady_of_reads (fun _ => .error h) fun _ => rfl

/-- Failing with a cause is steady. -/
theorem steady_fail (c : Cause) : Steady p base given (fail c : Run α) :=
  steady_throw _

/-- A check outside the machine is steady. -/
theorem steady_ofExcept (e : Except Halt α) : Steady p base given (ofExcept e) := by
  cases e with
  | ok a => exact steady_pure a
  | error h => exact steady_throw h

/-- A check that passes gives its value and leaves the machine as it was. -/
theorem ofExcept_ok {e : Except Halt α} {a : α} {m m' : Machine} (h : ofExcept e m = .ok a m') :
    e = .ok a ∧ m' = m := by
  cases e with
  | ok b => cases h; exact ⟨rfl, rfl⟩
  | error e => cases h

/-- A check with causes that passes gives its value and leaves the machine as it
was. -/
theorem ofCause_ok {e : Except Cause α} {a : α} {m m' : Machine} (h : ofCause e m = .ok a m') :
    e = .ok a ∧ m' = m := by
  cases e with
  | ok b => cases h; exact ⟨rfl, rfl⟩
  | error e => cases h

/-- A check that fails with a cause is steady. -/
theorem steady_ofCause (e : Except Cause α) : Steady p base given (ofCause e) := by
  cases e with
  | ok a => exact steady_pure a
  | error c => exact steady_fail c

/-- What follows on a computation may rely on its outcome. -/
theorem Steady.ofExcept_bind {e : Except Halt α} {f : α → Run β}
    (hf : ∀ a, e = .ok a → Steady p base given (f a)) :
    Steady p base given (ofExcept e >>= f) := by
  refine fun m hm => (steady_ofExcept e m hm).bind fun d a m' h => ?_
  obtain ⟨ha, rfl⟩ := ofExcept_ok h
  exact hf a ha _ hm

/-- What follows a check needs to be steady for the values that the check can
give, and for no others. -/
theorem Steady.ofCause_bind {e : Except Cause α} {f : α → Run β}
    (hf : ∀ a, e = .ok a → Steady p base given (f a)) :
    Steady p base given (ofCause e >>= f) := by
  refine fun m hm => (steady_ofCause e m hm).bind fun d a m' h => ?_
  obtain ⟨ha, rfl⟩ := ofCause_ok h
  exact hf a ha _ hm

/-- Looking at the store is steady. -/
theorem steady_store : Steady p base given store :=
  steady_of_reads .ok fun _ => rfl

/-- Only the steps left tell two machines apart on which a step can be taken or
not. -/
theorem steady_tick : Steady p base given tick := by
  intro m _
  have spend {n : Machine} {k : Nat} (hk : n.steps = k + 1) :
      tick n = .ok () { n with steps := k } := by
    simp only [tick, hk]
  have halt {n : Machine} (hn : n.steps = 0) : tick n = .error .unfinished n := by
    simp only [tick, hn]
  have leads (n : Machine) : Leads p base given n (after tick n) := by
    cases hn : n.steps with
    | zero => rw [after, halt hn]; exact .refl n
    | succ k => rw [after, spend hn]; exact (Step.idle n n.input n.random (by omega)).leads
  refine ⟨leads m, fun d => ?_⟩
  cases hm : m.steps with
  | zero => rw [halt hm]; exact .unfinished (leads _)
  | succ k =>
    have hmd : (m.more d).steps = k + d + 1 := by simp only [Machine.more]; omega
    rw [spend hm, spend hmd]
    exact .ok () _

/-- A step taken leaves the store alone and one step fewer to take. -/
theorem tick_ok {m m' : Machine} {a : Unit} (h : tick m = .ok a m') :
    m'.store = m.store ∧ m'.steps + 1 = m.steps := by
  simp only [tick] at h
  split at h
  · cases h
  · cases h
    exact ⟨rfl, Eq.symm ‹_›⟩

/-- What changes the machine by one step, and gives back something that does not
depend on the steps left, is steady. -/
theorem steadyAt_of_step {x : Run α} {m : Machine} (g : α) (next : Machine → Machine)
    (hx : ∀ d, x (m.more d) = .ok g ((next m).more d)) (hs : Step p base given m (next m)) :
    SteadyAt p base given x m := by
  have h0 : x m = .ok g (next m) := hx 0
  refine ⟨?_, fun d => ?_⟩
  · rw [after, h0]
    exact hs.leads
  · rw [h0, hx]
    exact .ok g _

/-- Recording an event is steady. -/
theorem steady_record (e : Event) : Steady p base given (record e) :=
  fun m _ => steadyAt_of_step () (fun m => { m with events := m.events.push e }) (fun _ => rfl)
    (.record m e)

/-- Taking a line of input is steady. -/
theorem steady_readLine : Steady p base given readLine := by
  intro m _
  cases hi : m.input with
  | nil =>
    refine steadyAt_of_step "" id (fun d => ?_) (.idle m m.input m.random le_rfl)
    simp [readLine, Machine.more, hi]
  | cons line rest =>
    refine steadyAt_of_step (Text.chomped line) (fun m => { m with input := rest })
      (fun d => ?_) (.idle m rest m.random le_rfl)
    simp [readLine, Machine.more, hi]

/-- Drawing a random number is steady. -/
theorem steady_draw (low high : Int) : Steady p base given (draw low high) :=
  fun m _ => steadyAt_of_step (m.random.between low high).1
    (fun m => { m with random := (m.random.between low high).2 }) (fun _ => rfl)
    (.idle m m.input _ le_rfl)

/-- Entering an activation is steady on machines whose store has its cells, if
each of its names is placed in the store or at a place handed to it. -/
theorem steadyAt_begin {a : Activation} {m : Machine}
    (typed : (∀ q, given q → q.cell < base) → a.Typed m.store)
    (inside : ∀ name q, a.frame.find? name = some q → q.cell < m.store.cells.size ∨ given q) :
    SteadyAt p base given (begin_ a) m :=
  steadyAt_of_step () (fun m => { m with activations := a :: m.activations }) (fun _ => rfl)
    (.enter m typed inside)

/-! ## Pieces that change the store

There are two ways to change the store, adding a cell and storing a text. The
first needs a cell that fits, and the second a place that may be written.
-/

/-- A step is taken in front of what follows. -/
theorem SteadyAt.tick {x : Run α} {m : Machine} (hm : base ≤ m.store.cells.size)
    (hx : ∀ m' : Machine, m'.store = m.store → SteadyAt p base given x m') :
    SteadyAt p base given (Run.tick >>= fun _ => x) m :=
  (steady_tick m hm).bind fun _ _ m' h => hx m' (tick_ok h).1

/-- A new cell is the last one of the store, and its place is the whole of it. -/
theorem allocate_ok {c : Cell} {q : Place} {m m' : Machine} (h : allocate c m = .ok q m') :
    q = ⟨m.store.cells.size, none⟩ ∧ m'.store = (m.store.add c).1 := by
  obtain ⟨_, m₁, ht, h⟩ := bind_ok h
  rw [← (tick_ok ht).1]
  cases h
  exact ⟨rfl, rfl⟩

/-- Adding a cell is steady if the cell fits and the program declares its type. -/
theorem steady_allocate {c : Cell} (fits : c.Fits) (declared : p.Declares c.type) :
    Steady p base given (allocate c) :=
  fun _ hm => .tick hm fun m' _ =>
    steadyAt_of_step ⟨m'.store.cells.size, none⟩ (fun m => { m with store := (m.store.add c).1 })
      (fun _ => rfl) (.declare m' fits declared)

/-- Copying a cell is steady, where every cell fits already: this is how an
argument is passed by value. -/
theorem steadyAt_copy {m : Machine} (hm : base ≤ m.store.cells.size) (i : Nat) :
    SteadyAt p base given (allocate (m.store.cell i)) m :=
  .tick hm fun m' hs => hs ▸
    steadyAt_of_step ⟨m'.store.cells.size, none⟩
      (fun n => { n with store := (n.store.add (m'.store.cell i)).1 }) (fun _ => rfl) (.copy m' i)

/-- What a change of the machine does, written out. -/
theorem modifyGet_apply (g : Machine → α × Machine) (m : Machine) :
    (modifyGet g : Run α) m = .ok (g m).1 (g m).2 :=
  rfl

/-- **Storing at a place that may be written is steady**, also when the text
does not convert. -/
theorem steady_tryWrite {q : Place} (hq : Writable base given q) (text : String) :
    Steady p base given (tryWrite q text) := by
  refine fun _ hm => .tick hm fun m' _ => ?_
  cases hv : m'.store.reading q text with
  | ok v =>
    refine steadyAt_of_step none (fun n => { n with store := n.store.put q v }) (fun d => ?_)
      (.write m' hq hv)
    have hd : (m'.more d).store.reading q text = .ok v := hv
    rw [modifyGet_apply]
    simp only [hd]
    rfl
  | error c =>
    refine steadyAt_of_step (some c) id (fun d => ?_) (.idle m' m'.input m'.random le_rfl)
    have hd : (m'.more d).store.reading q text = .error c := hv
    rw [modifyGet_apply]
    simp only [hd]
    rfl

/-- Storing at a place that may be written is steady where a text that does not
convert is a fault. -/
theorem steady_write {q : Place} (hq : Writable base given q) (text : String) :
    Steady p base given (write q text) := by
  refine (steady_tryWrite hq text).bind fun
    | none => steady_pure ()
    | some c => steady_fail c

/-! ## Handlers

A handler looks at what a run ended with. It must let a run that is out of steps
be so, or more steps could not take it further.
-/

/-- Steadiness is about what a piece does, not how it is written. -/
theorem Steady.congr {x y : Run α} (hx : Steady p base given x) (h : ∀ m, y m = x m) :
    Steady p base given y :=
  funext h ▸ hx

/-- A handler that changes what a halt tells, but not whether the run is
unfinished, keeps a piece steady. -/
theorem Steady.rethrow {x : Run α} {g : Halt → Halt} (hg : g .unfinished = .unfinished)
    (hx : Steady p base given x) : Steady p base given (tryCatch x fun h => throw (g h)) := by
  intro m hm
  have step (n : Machine) : (tryCatch x fun h => throw (g h) : Run α) n = match x n with
      | .ok a m' => .ok a m'
      | .error h m' => .error (g h) m' := by
    cases h : x n <;> simp only [tryCatch, tryCatchThe, MonadExceptOf.tryCatch, EStateM.tryCatch, h]
    rfl
  have final_eq (n : Machine) : after (tryCatch x fun h => throw (g h)) n = after x n := by
    rw [after, after, step]
    cases x n <;> rfl
  refine ⟨final_eq m ▸ (hx m hm).leads, fun d => ?_⟩
  rw [step m]
  have hc := (hx m hm).continues d
  generalize hr : x m = r at hc
  generalize hr' : x (m.more d) = r' at hc
  cases hc with
  | ok a m' => rw [step, hr']; exact .ok a m'
  | error h m' => rw [step, hr']; exact .error (g h) m'
  | unfinished hn =>
    dsimp only
    rw [hg]
    refine .unfinished ?_
    rwa [← after, final_eq, after, hr']

/-- Adding the line to a fault keeps a piece steady. -/
theorem Steady.atLine {x : Run Unit} (hx : Steady p base given x) (line : Nat) :
    Steady p base given (Run.atLine line x) :=
  hx.rethrow rfl

/-- Adding the frames to a fault keeps a piece steady. -/
theorem Steady.inFrames {x : Run Unit} (hx : Steady p base given x) (frames : List String) :
    Steady p base given (Run.inFrames frames x) :=
  hx.rethrow rfl

/-! ## Blocks and loops

A loop has as many rounds as there are steps left, or fewer. With more steps it
has a larger bound, which makes no difference to the rounds that it had before.
-/

/-- A block is steady if its statements are. -/
theorem Steady.block {statement : Stmt → Run Unit}
    (h : ∀ s, Steady p base given (statement s)) (ss : List Stmt) :
    Steady p base given (Run.block statement ss) := by
  induction ss with
  | nil => exact steady_pure ()
  | cons s rest ih => exact steady_tick.bind fun _ => ((h s).atLine _).bind fun _ => ih

/-- A counting loop over integers is steady if its rounds are. This is by
induction on the number of rounds, which is settled before the first of them. -/
theorem Steady.countIntegers {round : Int → Run Unit} (h : ∀ n, Steady p base given (round n))
    (count : Nat) (counter : Int) : Steady p base given (Run.countIntegers round count counter) := by
  induction count generalizing counter with
  | zero => exact steady_pure ()
  | succ count ih => exact (h counter).bind fun _ => ih (counter + 1)

section Loop

variable {round : Run Bool} (h : Steady p base given round)
include h

/-- A loop of steady rounds goes by steps, whatever its bound. -/
theorem leads_loopFrom (bound : Nat) {m : Machine} (hm : base ≤ m.store.cells.size) :
    Leads p base given m (after (loopFrom round bound) m) := by
  induction bound generalizing m with
  | zero => exact .refl m
  | succ bound ih =>
    refine leads_bind (steady_tick m hm).leads fun _ m₁ h₁ => ?_
    have hm₁ : base ≤ m₁.store.cells.size := (tick_ok h₁).1 ▸ hm
    refine leads_bind (h m₁ hm₁).leads fun goes m₂ h₂ => ?_
    cases goes with
    | true => exact ih (SteadyAt.size_le (d := 0) h hm₁ h₂)
    | false => exact .refl m₂

/-- Bounds that the steps left cannot reach do not matter. -/
theorem continues_loopFrom (bound : Nat) {bound' d : Nat} {m : Machine}
    (hm : base ≤ m.store.cells.size) (hb : m.steps < bound) (hb' : m.steps + d < bound') :
    Continues p base given d (loopFrom round bound m) (loopFrom round bound' (m.more d)) := by
  induction bound generalizing bound' m with
  | zero => omega
  | succ bound ih =>
    obtain ⟨bound', rfl⟩ : ∃ k, bound' = k + 1 := ⟨bound' - 1, by omega⟩
    have leads_round (k : Nat) {m₁ : Machine} (hm₁ : base ≤ m₁.store.cells.size) :
        Leads p base given m₁
          (after (round >>= fun goes => if goes = true then loopFrom round k else pure ()) m₁) := by
      refine leads_bind (h m₁ hm₁).leads fun goes m₂ h₂ => ?_
      cases goes with
      | true => exact leads_loopFrom h k (SteadyAt.size_le (d := 0) h hm₁ h₂)
      | false => exact .refl m₂
    refine continues_bind (steady_tick m hm) (fun _ m₁ h₁ => ?_) fun _ m₁ h₁ => ?_
    · obtain ⟨hstore, hsteps⟩ := tick_ok h₁
      have hm₁ : base ≤ m₁.store.cells.size := hstore ▸ hm
      refine continues_bind (h m₁ hm₁) (fun goes m₂ h₂ => ?_) fun goes m₂ h₂ => ?_
      · have hle : m₂.steps ≤ m₁.steps := by
          have := (h m₁ hm₁).leads.steps_le
          rwa [after, h₂] at this
        cases goes with
        | true => exact ih (SteadyAt.size_le (d := 0) h hm₁ h₂) (by omega) (by omega)
        | false => exact .ok () m₂
      · cases goes with
        | true => exact leads_loopFrom h bound' (SteadyAt.size_le (d := d) h hm₁ h₂)
        | false => exact .refl m₂
    · refine leads_round bound' ?_
      rw [(tick_ok h₁).1]
      exact hm

/-- **A loop of steady rounds is steady.** -/
theorem Steady.loop : Steady p base given (Run.loop round) :=
  fun _ hm => ⟨leads_loopFrom h _ hm,
    fun _ => continues_loopFrom h _ hm (Nat.lt_succ_self _) (Nat.lt_succ_self _)⟩

end Loop

section CountReals

variable {round : Ieee → Run Unit} (h : ∀ x, Steady p base given (round x)) (high : Ieee)
include h

/-- A counting loop over reals goes by steps, whatever its bound. -/
theorem leads_countRealsFrom (bound : Nat) (counter : Ieee) {m : Machine}
    (hm : base ≤ m.store.cells.size) :
    Leads p base given m (after (countRealsFrom round high bound counter) m) := by
  induction bound generalizing counter m with
  | zero => exact .refl m
  | succ bound ih =>
    simp only [countRealsFrom]
    split
    · refine leads_bind (steady_tick m hm).leads fun _ m₁ h₁ => ?_
      have hm₁ : base ≤ m₁.store.cells.size := (tick_ok h₁).1 ▸ hm
      exact leads_bind (h counter m₁ hm₁).leads fun _ m₂ h₂ =>
        ih _ (SteadyAt.size_le (d := 0) (h counter) hm₁ h₂)
    · exact .refl m

/-- With more steps and a bound to match, a counting loop over reals goes on
where it stopped. Each round takes a step, so neither bound is reached before
the steps are. -/
theorem continues_countRealsFrom (bound : Nat) {bound' d : Nat} (counter : Ieee) {m : Machine}
    (hm : base ≤ m.store.cells.size) (hb : m.steps < bound) (hb' : m.steps + d < bound') :
    Continues p base given d (countRealsFrom round high bound counter m)
      (countRealsFrom round high bound' counter (m.more d)) := by
  induction bound generalizing bound' counter m with
  | zero => omega
  | succ bound ih =>
    obtain ⟨bound', rfl⟩ : ∃ k, bound' = k + 1 := ⟨bound' - 1, by omega⟩
    simp only [countRealsFrom]
    split
    · refine continues_bind (steady_tick m hm) (fun _ m₁ h₁ => ?_) fun _ m₁ h₁ => ?_
      · obtain ⟨hstore, hsteps⟩ := tick_ok h₁
        have hm₁ : base ≤ m₁.store.cells.size := hstore ▸ hm
        refine continues_bind (h counter m₁ hm₁) (fun _ m₂ h₂ => ?_) fun _ m₂ h₂ => ?_
        · have hle : m₂.steps ≤ m₁.steps := by
            have := (h counter m₁ hm₁).leads.steps_le
            rwa [after, h₂] at this
          exact ih _ (SteadyAt.size_le (d := 0) (h counter) hm₁ h₂) (by omega) (by omega)
        · exact leads_countRealsFrom h high bound' _ (SteadyAt.size_le (d := d) (h counter) hm₁ h₂)
      · have hm₁ : base ≤ m₁.store.cells.size := by
          rw [(tick_ok h₁).1]
          exact hm
        exact leads_bind (h counter m₁ hm₁).leads fun _ m₂ h₂ =>
          leads_countRealsFrom h high bound' _ (SteadyAt.size_le (d := 0) (h counter) hm₁ h₂)
    · exact .ok () m

/-- **A counting loop over reals is steady.** Its bound is the number of steps
left, so it grows with them. -/
theorem Steady.countReals (low : Ieee) : Steady p base given (Run.countReals round low high) :=
  fun _ hm => ⟨leads_countRealsFrom h high _ _ hm,
    fun _ => continues_countRealsFrom h high _ _ hm (Nat.lt_succ_self _) (Nat.lt_succ_self _)⟩

end CountReals

end Run
end Shank
