/-
# A run escapes just by the hazards it meets

That a piece of a run escapes just if it meets a hazard that raises that halt
(`StopsBy`) is kept by sequencing, for what is met in a sequence is what its
parts meet up to where it stops. So it is shown of each piece of
`Shank.Run.Execute` from the pieces it is made of, and of statements by
induction on the room they have.
-/

import Shank.Proofs.Run.Escapes

namespace Shank

namespace Run

variable {α β : Type}

/-- A piece of a run that escapes just by the hazards it meets. -/
def StopsBy (x : Run α) (V : Meeting) : Prop :=
  ∀ (m : Machine) (h : Halt), h.Escapes → ((∃ m', x m = .error h m') ↔ ∃ z, V m z ∧ z.Raises h)

/-- A piece of a run that does not escape. -/
def Quiet (x : Run α) : Prop :=
  Raises (fun h => ¬h.Escapes) x

/-! ## Sequencing

What a run meets is told by what its pieces meet, each on the machine on which
it is started. A piece that does not escape meets nothing, whatever follows.
-/

section

variable {x : Run α} {V : Meeting}

/-- What never escapes is stopped by nothing. -/
theorem Quiet.stopsBy (hx : Quiet x) : StopsBy x Meeting.nothing := by
  intro m h hh
  constructor
  · rintro ⟨m', hm'⟩
    exact (hx m h m' hm' hh).elim
  · rintro ⟨_, ⟨⟩, _⟩

/-- Giving a value is quiet. -/
theorem quiet_pure (a : α) : Quiet (pure a : Run α) :=
  raises_pure a

/-- Failing with a cause is quiet. -/
theorem quiet_fail (c : Cause) : Quiet (fail c : Run α) :=
  raises_throw (Halt.not_escapes_of c)

/-- Quiet pieces in a row are quiet. -/
theorem Quiet.bind {f : α → Run β} (hx : Quiet x) (hf : ∀ a, Quiet (f a)) : Quiet (x >>= f) :=
  Raises.bind hx fun a _ _ _ => hf a

/-- What always succeeds is quiet. -/
theorem quiet_of_ok {g : Machine → α} {next : Machine → Machine}
    (hx : ∀ m, x m = .ok (g m) (next m)) : Quiet x := by
  intro m h m' he
  rw [hx] at he
  cases he

/-- Only which hazards are met on which machine counts, not how that is put. -/
theorem StopsBy.congr {W : Meeting} (hx : StopsBy x V) (h : ∀ m z, V m z ↔ W m z) : StopsBy x W := by
  intro m e he
  rw [hx m e he]
  simp only [h]

/-- **What a sequence meets.** -/
theorem StopsBy.bind {f : α → Run β} {W : α → Meeting} (hx : StopsBy x V)
    (hf : ∀ a m m', x m = .ok a m' → StopsBy (f a) (W a)) :
    StopsBy (x >>= f) (Meeting.andThen x V W) := by
  intro m h hh
  rw [bind_apply]
  cases hr : x m with
  | ok a m₁ =>
    -- the first part meets nothing that would have stopped it
    have hfirst : ¬∃ z, V m z ∧ z.Raises h := by
      intro hz
      obtain ⟨m', hm'⟩ := (hx m h hh).2 hz
      rw [hr] at hm'
      cases hm'
    dsimp only
    rw [hf a m m₁ hr m₁ h hh]
    constructor
    · rintro ⟨z, hz, hraises⟩
      exact ⟨z, .inr ⟨a, m₁, hr, hz⟩, hraises⟩
    · rintro ⟨z, hz | ⟨a', m', hr', hz⟩, hraises⟩
      · exact (hfirst ⟨z, hz, hraises⟩).elim
      · rw [hr] at hr'
        cases hr'
        exact ⟨z, hz, hraises⟩
  | error e m₁ =>
    have hfirst := hx m h hh
    rw [hr] at hfirst
    have hsame : (∃ m', (EStateM.Result.error e m₁ : EStateM.Result Halt Machine α) = .error h m') ↔
        ∃ m', (EStateM.Result.error e m₁ : EStateM.Result Halt Machine β) = .error h m' := by
      constructor <;> rintro ⟨_, ⟨⟩⟩ <;> exact ⟨_, rfl⟩
    dsimp only
    rw [← hsame, hfirst]
    constructor
    · rintro ⟨z, hz, hraises⟩
      exact ⟨z, .inl hz, hraises⟩
    · rintro ⟨z, hz | ⟨a', m', hr', _⟩, hraises⟩
      · exact ⟨z, hz, hraises⟩
      · rw [hr] at hr'
        cases hr'

/-- What is met behind a part that does not escape. -/
theorem StopsBy.behind {f : α → Run β} {W : α → Meeting} (hx : Quiet x)
    (hf : ∀ a m m', x m = .ok a m' → StopsBy (f a) (W a)) : StopsBy (x >>= f) (Meeting.behind x W) :=
  (hx.stopsBy.bind hf).congr fun _ _ => by rw [Meeting.andThen, Meeting.nothing, false_or]

/-- What is met before a part that does not escape. -/
theorem StopsBy.before {f : α → Run β} (hx : StopsBy x V) (hf : ∀ a, Quiet (f a)) :
    StopsBy (x >>= f) V :=
  (hx.bind fun a _ _ _ => (hf a).stopsBy).congr fun _ _ => by
    simp only [Meeting.andThen, Meeting.behind, Meeting.nothing, and_false, exists_false, or_false]

/-- A check halts for what it fails with. -/
theorem ofExcept_error_iff {e : Except Halt α} {m : Machine} {h : Halt} :
    (∃ m', ofExcept e m = .error h m') ↔ e = .error h := by
  cases e with
  | ok a => exact ⟨fun ⟨_, h⟩ => (nomatch h), fun h => (nomatch h)⟩
  | error e =>
    constructor
    · rintro ⟨_, ⟨⟩⟩
      rfl
    · rintro ⟨⟩
      exact ⟨m, rfl⟩

/-- A check is stopped by what it meets. -/
theorem stopsBy_ofExcept {e : Except Halt α} (he : ∀ m, FailsBy e (V m)) : StopsBy (ofExcept e) V :=
  fun m h hh => ofExcept_error_iff.trans (he m h hh)

/-- What a computation meets that looks at the store. -/
theorem stopsBy_reads {g : Store → Except Halt α} (hg : ∀ m, FailsBy (g m.store) (V m)) :
    StopsBy (store >>= fun s => ofExcept (g s)) V :=
  fun m h hh => ofExcept_error_iff.trans (hg m h hh)

/-- A check that meets nothing is quiet. -/
theorem quiet_ofExcept {e : Except Halt α} (he : FailsBy e fun _ => False) : Quiet (ofExcept e) := by
  intro m h m' hm' hh
  obtain ⟨_, ⟨⟩, _⟩ := (he h hh).1 (ofExcept_error_iff.1 ⟨m', hm'⟩)

/-- A handler that leaves the halts alone that escape. -/
theorem StopsBy.rethrow {t : Halt → Halt} (hx : StopsBy x V)
    (ht : ∀ h e, e.Escapes → (t h = e ↔ h = e)) :
    StopsBy (tryCatch x fun h => throw (t h)) V := by
  intro m h hh
  rw [← hx m h hh, rethrow_apply]
  cases x m with
  | ok a m' => exact ⟨fun ⟨_, h⟩ => (nomatch h), fun ⟨_, h⟩ => (nomatch h)⟩
  | error e m' =>
    simp only [EStateM.Result.error.injEq, ht e h hh, exists_and_left]

end

/-! ## Pieces that do not escape

Whatever only looks something up, takes a step, adds a cell or stores a text
ends with a value, with a fault, or for want of steps.
-/

/-- Looking at the store is quiet. -/
theorem quiet_store : Quiet store :=
  quiet_of_ok fun _ => rfl

/-- Taking a step is quiet: a run that is out of steps has not escaped. -/
theorem quiet_tick : Quiet tick :=
  raises_tick Halt.not_escapes_unfinished

/-- Adding a cell is quiet. -/
theorem quiet_allocate (c : Cell) : Quiet (allocate c) :=
  quiet_tick.bind fun _ => quiet_of_ok fun _ => rfl

/-- A check that fails with a cause is quiet. -/
theorem quiet_ofCause (e : Except Cause α) : Quiet (ofCause e) := by
  cases e with
  | ok a => exact quiet_pure a
  | error c => exact quiet_fail c

/-- Storing a text is quiet. -/
theorem quiet_write (q : Place) (text : String) : Quiet (write q text) := by
  refine Quiet.bind (quiet_tick.bind fun _ => quiet_of_ok fun _ => rfl) fun o => ?_
  cases o with
  | none => exact quiet_pure ()
  | some c => exact quiet_fail c

/-- **Built-in functions are quiet.** -/
theorem quiet_invoke (b : Builtin) (args : List Actual) : Quiet (b.invoke args) := by
  intro m h m' he
  rcases b.invoke_ends args m with ⟨m₁, hok⟩ | ⟨-, m₁, hstuck⟩
  · rw [hok] at he
    cases he
  · rw [hstuck] at he
    cases he
    exact Halt.not_escapes_unfinished

/-! ## Expressions and arguments

An expression escapes as its value does; an argument that is passed with `var`
is looked up and not evaluated.
-/

/-- An expression is stopped by what its value meets. -/
theorem stopsBy_evaluate (f : Frame) (e : Expr) : StopsBy (evaluate f e) (Meeting.value f e) :=
  stopsBy_reads fun _ => e.failsBy_evaluate

/-- A condition is stopped by what its value meets. -/
theorem stopsBy_holds (f : Frame) (e : Expr) : StopsBy (holds f e) (Meeting.value f e) :=
  stopsBy_reads fun _ => e.failsBy_holds

/-- An argument is stopped by what it meets. -/
theorem stopsBy_actual (f : Frame) (a : Argument) : StopsBy (actual f a) (Meeting.actual f a) := by
  cases a with
  | value _ e => exact (stopsBy_evaluate f e).before fun _ => quiet_pure _
  | reference _ name _ =>
    refine Quiet.stopsBy ?_
    rw [actual]
    split
    · exact quiet_fail _
    · exact (quiet_ofExcept (f.failsBy_place name)).bind fun _ => quiet_pure _

/-- Arguments are stopped by what they meet, one after the other. -/
theorem stopsBy_actuals (f : Frame) (args : List Argument) :
    StopsBy (actuals f args) (Meeting.actuals f args) := by
  induction args with
  | nil => exact (quiet_pure []).stopsBy
  | cons a rest ih =>
    exact (stopsBy_actual f a).bind fun _ _ _ _ => ih.before fun _ => quiet_pure _

/-! ## Entering a function

What a variable starts with is computed when it is declared, also where the
value of an argument takes its place.
-/

/-- Passing by value is stopped by the start of the parameter's type, which is
computed though it is not used. -/
theorem stopsBy_copyArgument {type : DeclaredType} {v : Operand} (h : Store.tag v = type.tag) :
    StopsBy (copyArgument type v) (Meeting.declared type) := by
  unfold copyArgument
  split
  · -- an array is copied as it is
    cases type with
    | scalar type => cases h
    | array bounds element => exact Quiet.stopsBy (quiet_store.bind fun _ => quiet_allocate _)
  · rename_i type v
    exact (stopsBy_ofExcept fun m => type.failsBy_initial m).before fun _ =>
      (quiet_ofCause _).bind fun _ => quiet_allocate _
  · exact Quiet.stopsBy ((quiet_ofExcept (failsBy_ok _)).bind fun _ => quiet_allocate _)

/-- A parameter is stopped by what it meets. Nothing is computed for one that is
`var`. -/
theorem stopsBy_bindParameter (function : String) (f : Frame) (v : Variable) (a : Actual) :
    StopsBy (bindParameter function f v a) (Meeting.parameter v a) := by
  intro m h hh
  have hquiet {x : Run Frame} (hx : Quiet x)
      (hV : ¬(Store.tag (a.operand m.store) = v.type.tag ∧ v.isVar = false)) :
      (∃ m', x m = .error h m') ↔ ∃ z, Meeting.parameter v a m z ∧ z.Raises h := by
    rw [hx.stopsBy m h hh]
    constructor
    · rintro ⟨_, ⟨⟩, _⟩
    · rintro ⟨_, ⟨htag, hvar, _⟩, _⟩
      exact (hV ⟨htag, hvar⟩).elim
  unfold bindParameter
  rw [bind_eq (x := store) rfl]
  split
  · exact hquiet (quiet_fail _) fun ⟨htag, _⟩ => absurd htag ‹_›
  · have htag := not_not.1 ‹_›
    split
    · have hvar : v.isVar = true := ‹_›
      refine hquiet ?_ fun ⟨_, hnot⟩ => by rw [hvar] at hnot; cases hnot
      cases a with
      | reference q => exact quiet_pure _
      | value _ => exact quiet_fail _
    · have hvar : v.isVar = false := Bool.eq_false_iff.2 ‹_›
      have hcopy := (stopsBy_copyArgument htag).before fun q => quiet_pure (f.bind v.name q)
      refine (hcopy m h hh).trans ?_
      simp only [Meeting.parameter, htag, hvar, true_and]

/-- Parameters are stopped by what they meet, one after the other. -/
theorem stopsBy_bindParameters (function : String) (f : Frame) (vs : List Variable)
    (as : List Actual) :
    StopsBy (bindParameters function f vs as) (Meeting.parameters function f vs as) := by
  induction vs generalizing f as with
  | nil => exact (quiet_pure f).stopsBy
  | cons v vs ih =>
    cases as with
    | nil => exact (quiet_pure f).stopsBy
    | cons a as => exact (stopsBy_bindParameter function f v a).bind fun f _ _ _ => ih f as

/-- A local declaration is stopped by what it meets. -/
theorem stopsBy_declareLocal (f : Frame) (d : Local) :
    StopsBy (declareLocal f d) (Meeting.declaredLocal d) := by
  cases d with
  | constant c =>
    exact Quiet.stopsBy ((quiet_ofExcept c.value.failsBy_evaluate).bind fun _ =>
      (quiet_allocate _).bind fun _ => quiet_pure _)
  | var v =>
    exact (stopsBy_ofExcept (Cell.failsBy_initial v.type)).before fun _ =>
      (quiet_allocate _).bind fun _ => quiet_pure _

/-- Local declarations are stopped by what they meet, one after the other. -/
theorem stopsBy_declareLocals (f : Frame) (ds : List Local) :
    StopsBy (declareLocals f ds) (Meeting.locals f ds) := by
  induction ds generalizing f with
  | nil => exact (quiet_pure f).stopsBy
  | cons d ds ih => exact (stopsBy_declareLocal f d).bind fun f _ _ _ => ih f

/-- **Entering a function is stopped by its parameters and its locals.** -/
theorem stopsBy_enter (function : Function) (args : List Actual) :
    StopsBy (enter function args) (Meeting.enter function args) := by
  unfold enter Meeting.enter
  split
  · exact (quiet_fail _).stopsBy
  · exact (stopsBy_bindParameters _ _ _ _).bind fun f _ _ _ => stopsBy_declareLocals f _

/-! ## Handlers

Lines and functions are added to faults, and what escapes is no fault. So
nothing changes on the way out.
-/

/-- A line that is added to a fault does not make it escape, and nothing that
escapes is changed. -/
theorem StopsBy.atLine {x : Run Unit} {V : Meeting} (hx : StopsBy x V) (line : Nat) :
    StopsBy (Run.atLine line x) V := by
  refine hx.rethrow fun h e he => ?_
  rcases he with rfl | rfl <;> cases h <;> simp [Halt.atLine]

/-- Functions that are added to a fault do not make it escape, and nothing that
escapes is changed. -/
theorem StopsBy.inFrames {x : Run Unit} {V : Meeting} (hx : StopsBy x V) (frames : List String) :
    StopsBy (Run.inFrames frames x) V := by
  refine hx.rethrow fun h e he => ?_
  rcases he with rfl | rfl <;> cases h <;> simp [Halt.inFrames]

/-! ## Calls

A call that is refused for its depth, or for its number of arguments, meets
nothing behind that.
-/

/-- **A function escapes just by what its declarations and its body meet.** -/
theorem stopsBy_activate (limit : Int) {body : List String → Frame → List Stmt → Run Unit}
    {met : List String → Frame → List Stmt → Meeting}
    (hbody : ∀ stack f ss, StopsBy (body stack f ss) (met stack f ss)) (stack : List String)
    (function : Function) (args : List Actual) :
    StopsBy (activate limit body stack function args)
      (Meeting.activate limit met stack function args) := by
  unfold activate Meeting.activate
  split
  · exact (quiet_fail _).stopsBy
  · refine (stopsBy_enter function args).bind fun f _ _ _ m => ?_
    -- the body starts on the machine that has the function for its latest activation
    exact (hbody _ f _).inFrames _ (m.entered ⟨function, f⟩ (stack.length + 1))

/-- A call is stopped by its arguments, or by the function if it is stopped by
what that meets. -/
theorem stopsBy_call (p : Program) {activate : Function → List Actual → Run Unit}
    {met : Function → List Actual → Meeting}
    (hactivate : ∀ function args, StopsBy (activate function args) (met function args)) (f : Frame)
    (name : String) (args : List Argument) :
    StopsBy (callWith p activate f name args) (Meeting.call p met f name args) := by
  refine (stopsBy_actuals f args).bind fun as _ _ _ => ?_
  cases Builtin.ofName? name with
  | some b => exact Quiet.stopsBy ((quiet_of_ok fun _ => rfl).bind fun _ => quiet_invoke b as)
  | none =>
    cases p.find? name with
    | some function => exact hactivate function as
    | none => exact (quiet_fail _).stopsBy

/-! ## Other statements

The parts of a statement are evaluated in the order in which they are met.
-/

/-- An assignment is stopped by its target or its value. -/
theorem stopsBy_assign (f : Frame) (t : Target) (e : Expr) :
    StopsBy (assign f t e) (Meeting.assign f t e) := by
  unfold assign Meeting.assign
  split
  · exact (quiet_fail _).stopsBy
  · intro m h hh
    rw [bind_eq (x := store) rfl]
    have htarget : StopsBy (ofExcept (t.locate m.store f)) fun _ => Meeting.target f t m :=
      stopsBy_ofExcept fun _ => t.failsBy_locate m
    have hvalue : StopsBy (ofExcept (e.evaluate m.store f)) fun _ => Meeting.value f e m :=
      stopsBy_ofExcept fun _ => e.failsBy_evaluate
    refine (htarget.bind (fun q _ _ _ => hvalue.before fun v => quiet_write q _) m h hh).trans ?_
    refine exists_congr fun z => and_congr_left fun _ => or_congr_right ?_
    constructor
    · rintro ⟨q, m', hq, hz⟩
      exact ⟨⟨q, (ofExcept_ok hq).1⟩, hz⟩
    · rintro ⟨⟨q, hq⟩, hz⟩
      exact ⟨q, m, by rw [hq]; rfl, hz⟩

/-- A chain of branches is stopped by its conditions, or by the block of the
first that holds. -/
theorem stopsBy_ifChain (f : Frame) {body : List Stmt → Run Unit} {met : List Stmt → Meeting}
    (hbody : ∀ ss, StopsBy (body ss) (met ss)) (branches : List Branch) :
    StopsBy (ifChain f body branches) (Meeting.ifChain f met branches) := by
  induction branches with
  | nil => exact (quiet_pure ()).stopsBy
  | cons b rest ih =>
    obtain ⟨_, _ | condition, statements⟩ := b
    · exact hbody statements
    · refine (stopsBy_holds f condition).bind fun holds _ _ _ => ?_
      cases holds with
      | true => exact hbody statements
      | false => exact ih

/-! ## Blocks and loops

A loop meets what its rounds meet, and its bound is the number of steps left. A
run that comes to the bound is out of steps, and has not escaped.
-/

/-- A block is stopped by its statements, one after the other. -/
theorem stopsBy_block {run : Stmt → Run Unit} {met : Stmt → Meeting}
    (hrun : ∀ s, StopsBy (run s) (met s)) (ss : List Stmt) :
    StopsBy (block run ss) (Meeting.block run met ss) := by
  induction ss with
  | nil => exact (quiet_pure ()).stopsBy
  | cons s rest ih =>
    exact .behind quiet_tick fun _ _ _ _ => ((hrun s).atLine s.line).bind fun _ _ _ _ => ih

/-- A run that is cut short is quiet. -/
theorem quiet_unfinished : Quiet (throw .unfinished : Run Unit) :=
  raises_throw Halt.not_escapes_unfinished

section

variable {round : Run Bool} {met : Meeting} (hround : StopsBy round met)
include hround

/-- A loop up to a bound is stopped by its rounds. -/
theorem stopsBy_loopFrom (bound : Nat) :
    StopsBy (loopFrom round bound) (Meeting.loopFrom round met bound) := by
  induction bound with
  | zero => exact quiet_unfinished.stopsBy
  | succ bound ih =>
    refine .behind quiet_tick fun _ _ _ _ => hround.bind fun again _ _ _ => ?_
    cases again with
    | true => exact ih
    | false => exact (quiet_pure ()).stopsBy

/-- A loop is stopped by its rounds, as many as the steps that are left allow
for. -/
theorem stopsBy_loop : StopsBy (loop round) (Meeting.loop round met) :=
  fun m => stopsBy_loopFrom hround (m.steps + 1) m

end

section

variable {f : Frame} {body : Run Unit} {met : Meeting} (hbody : StopsBy body met)
include hbody

/-- A `while` loop is stopped by its condition or its body. -/
theorem stopsBy_whileLoop (condition : Expr) :
    StopsBy (whileLoop f condition body) (Meeting.whileLoop f condition body met) := by
  refine stopsBy_loop ((stopsBy_holds f condition).bind fun holds _ _ _ => ?_)
  cases holds with
  | true => exact hbody.before fun _ => quiet_pure true
  | false => exact (quiet_pure false).stopsBy

/-- A `repeat` loop is stopped by its body or its condition. -/
theorem stopsBy_repeatLoop (condition : Expr) :
    StopsBy (repeatLoop f condition body) (Meeting.repeatLoop f condition body met) :=
  stopsBy_loop (hbody.bind fun _ _ _ _ => (stopsBy_holds f condition).before fun _ => quiet_pure _)

end

/-- A counting loop over integers is stopped by its rounds. -/
theorem stopsBy_countIntegers {round : Int → Run Unit} {met : Int → Meeting}
    (hround : ∀ n, StopsBy (round n) (met n)) (count : Nat) (counter : Int) :
    StopsBy (countIntegers round count counter)
      (Meeting.countIntegers round met count counter) := by
  induction count generalizing counter with
  | zero => exact (quiet_pure ()).stopsBy
  | succ count ih => exact (hround counter).bind fun _ _ _ _ => ih (counter + 1)

/-- A counting loop over reals with a bound is stopped by its rounds up to
there. -/
theorem stopsBy_countRealsFrom {round : Ieee → Run Unit} {met : Ieee → Meeting}
    (hround : ∀ x, StopsBy (round x) (met x)) (high : Ieee) (bound : Nat) (counter : Ieee) :
    StopsBy (countRealsFrom round high bound counter)
      (Meeting.countRealsFrom round met high bound counter) := by
  induction bound generalizing counter with
  | zero => exact quiet_unfinished.stopsBy
  | succ bound ih =>
    unfold countRealsFrom Meeting.countRealsFrom
    split
    · exact .behind quiet_tick fun _ _ _ _ => (hround counter).bind fun _ _ _ _ => ih _
    · exact (quiet_pure ()).stopsBy

/-- A counting loop over reals is stopped by its rounds, as many as the steps
that are left allow for. -/
theorem stopsBy_countReals {round : Ieee → Run Unit} {met : Ieee → Meeting}
    (hround : ∀ x, StopsBy (round x) (met x)) (low high : Ieee) :
    StopsBy (countReals round low high)
      fun m => Meeting.countRealsFrom round met high (m.steps + 1) low m :=
  fun m => stopsBy_countRealsFrom hround high (m.steps + 1) low m

/-- A `for` loop is stopped by its bounds or its rounds. -/
theorem stopsBy_forLoop (f : Frame) (name : String) (start stop : Expr) {body : Run Unit}
    {met : Meeting} (hbody : StopsBy body met) :
    StopsBy (forLoop f name start stop body) (Meeting.forLoop f name start stop body met) := by
  refine (stopsBy_evaluate f start).bind fun low _ _ _ =>
    (stopsBy_evaluate f stop).bind fun high _ _ _ => ?_
  have hmissing {h : Halt} (hplace : f.place name = .error h) :
      StopsBy (throw h : Run Unit) Meeting.nothing := by
    refine Quiet.stopsBy (raises_throw fun hh => ?_)
    obtain ⟨_, ⟨⟩, _⟩ := (f.failsBy_place name h hh).1 hplace
  have hround (q : Place) (text : String) :
      StopsBy (do write q text; body) (Meeting.behind (write q text) fun _ => met) :=
    .behind (quiet_write q _) fun _ _ _ _ => hbody
  by_cases hc : f.isConstant name = true
  · simp only [hc, if_true]
    split
    iterate 3 exact (quiet_fail _).stopsBy
  · simp only [hc, Bool.false_eq_true, if_false, pure_bind]
    split
    · cases hplace : f.place name with
      | ok q =>
        simp only [ofExcept, pure_bind]
        exact stopsBy_countIntegers (fun _ => hround q _) _ _
      | error h => exact hmissing hplace
    · cases hplace : f.place name with
      | ok q =>
        simp only [ofExcept, pure_bind]
        exact stopsBy_countReals (fun _ => hround q _) _ _
      | error h => exact hmissing hplace
    · -- bounds that are not numbers of one kind
      rename_i hinteger hreal
      split
      · exact (hinteger _ _ rfl rfl).elim
      · exact (hreal _ _ rfl rfl).elim
      · exact (quiet_fail _).stopsBy

/-! ## Statements

One level of nesting at a time: the blocks of a statement and the function that
it calls have less room.
-/

/-- A run that is nested too deep is quiet. -/
theorem quiet_tooDeep : Quiet (throw .tooDeep : Run Unit) :=
  raises_throw Halt.not_escapes_tooDeep

/-- A statement that there is no room for meets nothing. -/
theorem meets_statement_of_lt {setting : Setting} {room : Nat} (h : room < 5)
    (stack : List String) (f : Frame) (s : Stmt) :
    Meeting.statement setting room stack f s = Meeting.nothing := by
  rcases room with _ | _ | _ | _ | _ | room
  iterate 5 rfl
  omega

/-- **One level of a statement is stopped by what it meets**, if its blocks and
the functions it calls are. -/
theorem stopsBy_level (p : Program) {inner looped : List Stmt → Run Unit}
    {innerMet loopedMet : List Stmt → Meeting} {activate : Function → List Actual → Run Unit}
    {met : Function → List Actual → Meeting} (hinner : ∀ ss, StopsBy (inner ss) (innerMet ss))
    (hlooped : ∀ ss, StopsBy (looped ss) (loopedMet ss))
    (hactivate : ∀ function args, StopsBy (activate function args) (met function args)) (room : Nat)
    (f : Frame) (s : Stmt) :
    StopsBy (level p inner looped activate room f s)
      (Meeting.level p inner innerMet looped loopedMet met room f s) := by
  unfold level Meeting.level
  split
  · exact quiet_tooDeep.stopsBy
  · cases s with
    | assign _ target value => exact stopsBy_assign f target value
    | ifChain _ branches => exact stopsBy_ifChain f hinner branches
    | whileLoop _ condition body => exact stopsBy_whileLoop (hlooped body) condition
    | repeatLoop _ condition body => exact stopsBy_repeatLoop (hlooped body) condition
    | forLoop _ name _ start stop body => exact stopsBy_forLoop f name start stop (hinner body)
    | call _ name args => exact stopsBy_call p hactivate f name args

/-- **A statement escapes just by the hazards it meets.** -/
theorem stopsBy_statement (setting : Setting) (room : Nat) (stack : List String) (f : Frame)
    (s : Stmt) : StopsBy (statement setting room stack f s) (Meeting.statement setting room stack f s) := by
  induction room using Nat.strong_induction_on generalizing stack f s with
  | _ room ih =>
    have hblock (r : Nat) (hr : r < room) (stack : List String) (f : Frame) (ss : List Stmt) :
        StopsBy (block (statement setting r stack f) ss)
          (Meeting.block (statement setting r stack f) (Meeting.statement setting r stack f) ss) :=
      stopsBy_block (ih r hr stack f) ss
    rcases Nat.lt_or_ge room 5 with hroom | hroom
    · rw [statement_of_lt hroom, meets_statement_of_lt hroom]
      exact quiet_tooDeep.stopsBy
    · obtain ⟨room, rfl⟩ := Nat.exists_eq_add_of_le' hroom
      rw [statement_eq]
      exact stopsBy_level _ (hblock _ (by omega) stack f) (hblock _ (by omega) stack f)
        (stopsBy_activate _ (hblock room (by omega)) stack) room f s

/-! ## Whole runs

Outside of the entry function a run that is nested too deep is a fault, and all
else stays as it is.
-/

/-- What escapes is the same outside of a function. -/
theorem outside_escapes (name : String) (h e : Halt) (he : e.Escapes) : h.outside name = e ↔ h = e := by
  rcases he with rfl | rfl <;> cases h <;> simp [Halt.outside]

/-- **A run escapes just by the hazards it meets.** -/
theorem stopsBy_entry (setting : Setting) (name : String) :
    StopsBy (entry setting name) (Meeting.entry setting name) := by
  unfold entry Meeting.entry
  cases setting.program.find? name with
  | some function =>
    dsimp only
    rw [function_eq]
    exact (stopsBy_activate _ (fun stack f => stopsBy_block (stopsBy_statement setting _ stack f)) []
      function []).rethrow (outside_escapes function.name)
  | none => exact (quiet_fail _).stopsBy

end Run
end Shank
