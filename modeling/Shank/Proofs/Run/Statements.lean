/-
# Statements go by steps

Every statement is steady, given the places that its frame grants: those of its
variables, constants left out (`steady_statement`). The induction is on the room
for nesting, as that of the statement's own definition; a call is where it
matters.

A call hands on no more than what it passes with `var` (`steady_call`). The
frame of the callee binds these places and cells that were added while it was
entered, so what the callee may store at is again a cell that is new to the
caller, or passed by him (`Machine.Leads.hand_on`).
-/

import Shank.Proofs.Run.Entering
import Shank.Proofs.Run.Values

namespace Shank

open Machine

/-- A frame grants the places of its variables. -/
def Frame.Grants (f : Frame) (q : Place) : Prop :=
  ∃ name, f.isConstant name = false ∧ f.find? name = some q

/-- The places that the arguments of a call pass with `var`. -/
def Frame.Passes (f : Frame) (args : List Argument) (q : Place) : Prop :=
  ∃ line name nameLine, Argument.reference line name nameLine ∈ args ∧
    f.isConstant name = false ∧ f.find? name = some q

/-- What is passed with `var` is granted: a constant cannot be passed so. -/
theorem Frame.Passes.grants {f : Frame} {args : List Argument} {q : Place}
    (h : f.Passes args q) : f.Grants q := by
  obtain ⟨_, name, _, _, hc, hq⟩ := h
  exact ⟨name, hc, hq⟩

/-- The place of a name is the one that the frame binds it to. -/
theorem Frame.place_ok {f : Frame} {name : String} {q : Place} (h : f.place name = .ok q) :
    f.find? name = some q := by
  unfold place at h
  split at h
  · cases h
    assumption
  · cases h

/-! ## Expressions

What is found by name is in the frame, and what the frame grants may be stored
at. Evaluating an expression changes nothing.
-/

/-- An expression that stands for a whole array stands for one that is there. A
name may stand for one; literals and operators are scalars. -/
theorem Expr.evaluate_array {s : Store} {f : Frame} {e : Expr} {i : Nat}
    (h : e.evaluate s f = .ok (.array i)) : (s.cell i).type.tag = .array := by
  cases e with
  | literal _ v =>
    obtain ⟨_, _, h⟩ := Except.map_ok h
    cases h
  | var _ name =>
    obtain ⟨q, _, h⟩ := Except.map_ok h
    exact (Store.get_eq_array h).2
  | element _ name index =>
    obtain ⟨_, _, h⟩ := Except.bind_ok h
    obtain ⟨_, _, h⟩ := Except.bind_ok h
    obtain ⟨q, _, h⟩ := Except.map_ok h
    exact (Store.get_eq_array h).2
  | arithmetic _ op left right =>
    obtain ⟨_, _, h⟩ := Except.bind_ok h
    obtain ⟨_, _, h⟩ := Except.bind_ok h
    obtain ⟨_, _, h⟩ := Except.map_ok h
    cases h
  | comparison _ op left right =>
    obtain ⟨_, _, h⟩ := Except.bind_ok h
    obtain ⟨_, _, h⟩ := Except.bind_ok h
    obtain ⟨_, _, h⟩ := Except.map_ok h
    cases h

/-- The left side of an assignment stands for the place of its name, or for a
part of it. -/
theorem Target.locate_covers {s : Store} {f : Frame} {t : Target} {q : Place}
    (h : t.locate s f = .ok q) : ∃ g, f.find? t.name = some g ∧ g.covers q := by
  unfold locate at h
  split at h
  · exact ⟨q, Frame.place_ok h, rfl, .inr rfl⟩
  · obtain ⟨i, hi, hrest⟩ := Except.bind_ok h
    obtain ⟨k, _, hslot⟩ := Except.bind_ok hrest
    obtain ⟨g, hg, harray⟩ := Except.bind_ok hi
    refine ⟨g, Frame.place_ok hg, ?_⟩
    -- an item is in the cell of its array
    have hcell : q.cell = i := by
      simp only [Store.slot, Store.element] at hslot
      split at hslot
      · rename_i hq
        cases hslot
        split at hq
        · split at hq <;> cases hq
          rfl
        · cases hq
      · cases hslot
    split at harray
    · cases harray
      obtain ⟨rfl, -⟩ := Store.get_eq_array ‹_›
      exact ⟨hcell.symm, .inl rfl⟩
    · cases harray

namespace Run

variable {p : Program} {base : Nat} {given : Place → Prop} {m m' : Machine} {f : Frame}

/-- An expression is evaluated on the store of the machine, which stays as it
is. -/
theorem evaluate_apply (f : Frame) (e : Expr) (m : Machine) :
    evaluate f e m = match e.evaluate m.store f with
      | .ok v => .ok v m
      | .error h => .error h m := by
  unfold evaluate
  rw [bind_eq (x := store) rfl]
  cases e.evaluate m.store f <;> rfl

/-- An expression with a value gives it and leaves the machine alone. -/
theorem evaluate_of_ok {e : Expr} {v : Operand} (h : e.evaluate m.store f = .ok v) :
    evaluate f e m = .ok v m := by
  rw [evaluate_apply, h]

/-- Evaluating an expression is steady. -/
theorem steady_evaluate (f : Frame) (e : Expr) : Steady p base given (evaluate f e) :=
  steady_store.bind fun _ => steady_ofExcept _

/-- Testing a condition is steady. -/
theorem steady_holds (f : Frame) (e : Expr) : Steady p base given (holds f e) :=
  steady_store.bind fun _ => steady_ofExcept _

/-- A place of which all parts are given. -/
theorem writable_of_given {q : Place} (h : given q) : Writable base given q :=
  .inr ⟨q, h, rfl, .inr rfl⟩

/-! ## Arguments

An argument that is passed with `var` gives a place that the frame of the caller
grants, and any other one gives a value.
-/

/-- Evaluating the arguments of a call is steady. -/
theorem steady_actuals (f : Frame) (args : List Argument) :
    Steady p base given (actuals f args) := by
  induction args with
  | nil => exact steady_pure []
  | cons a rest ih =>
    refine Steady.bind ?_ fun _ => ih.bind fun _ => steady_pure _
    cases a with
    | value _ e => exact (steady_evaluate f e).bind fun _ => steady_pure _
    | reference _ name _ =>
      by_cases hc : f.isConstant name = true
      · rw [actual, if_pos hc]
        exact steady_fail _
      · rw [actual, if_neg hc]
        exact (steady_ofExcept _).bind fun _ => steady_pure _

/-- **What arguments come to**: the places of variables where they are passed
with `var`, and arrays that are there. -/
theorem actuals_ok {args : List Argument} {as : List Actual} (h : actuals f args m = .ok as m') :
    m' = m ∧ (∀ q, .reference q ∈ as → f.Passes args q) ∧ Actual.Genuine m.store as := by
  induction args generalizing as with
  | nil =>
    cases h
    exact ⟨rfl, fun _ h => (nomatch h), fun _ h => (nomatch h)⟩
  | cons a rest ih =>
    obtain ⟨x, m₁, hx, hrest⟩ := bind_ok h
    obtain ⟨xs, m₂, hxs, hpure⟩ := bind_ok hrest
    cases hpure
    -- the first argument by itself
    have hfirst : m₁ = m ∧ (∀ q, x = .reference q → f.Passes (a :: rest) q) ∧
        ∀ i, x = .value (.array i) → (m.store.cell i).type.tag = .array := by
      cases a with
      | value _ e =>
        obtain ⟨v, m₃, hv, hpure⟩ := bind_ok hx
        obtain ⟨s, m₄, hs, he⟩ := bind_ok hv
        cases hs
        cases hpure
        obtain ⟨he, rfl⟩ := ofExcept_ok he
        exact ⟨rfl, fun _ h => (nomatch h), fun i h => by cases h; exact Expr.evaluate_array he⟩
      | reference line name nameLine =>
        by_cases hc : f.isConstant name = true
        · rw [actual, if_pos hc] at hx
          cases hx
        · rw [actual, if_neg hc] at hx
          obtain ⟨q, m₃, hq, hpure⟩ := bind_ok hx
          cases hpure
          obtain ⟨hplace, rfl⟩ := ofExcept_ok hq
          refine ⟨rfl, fun r h => ?_, fun _ h => (nomatch h)⟩
          cases h
          exact ⟨line, name, nameLine, List.mem_cons_self .., by simpa using hc,
            Frame.place_ok hplace⟩
    obtain ⟨rfl, hplace, harray⟩ := hfirst
    obtain ⟨rfl, hplaces, harrays⟩ := ih hxs
    refine ⟨rfl, fun q hq => ?_, fun i hi => ?_⟩
    · rcases List.mem_cons.1 hq with hq | hq
      · exact hplace q hq.symm
      · obtain ⟨line, name, nameLine, hmem, hrest⟩ := hplaces q hq
        exact ⟨line, name, nameLine, List.mem_cons_of_mem _ hmem, hrest⟩
    · rcases List.mem_cons.1 hi with hi | hi
      · exact harray i hi.symm
      · exact harrays i hi

end Run

/-! ## Built-in functions

The places that a built-in function stores at are among those that were passed
to it.
-/

namespace Builtin

open Run

variable {p : Program} {base : Nat} {given : Place → Prop}

/-- The places of the arguments are those that were passed with `var`. -/
theorem mem_places {args : List Actual} {q : Place} :
    q ∈ places args ↔ .reference q ∈ args := by
  simp only [places, List.mem_filterMap]
  constructor
  · rintro ⟨a, ha, h⟩
    cases a with
    | value _ => cases h
    | reference r => cases h; exact ha
  · exact fun h => ⟨_, h, rfl⟩

/-- The place that a built-in writes to was passed to it. -/
theorem mem_of_divide {b : Builtin} {s : Store} {args : List Actual} {q : Place}
    (h : (b.divide s args).2 = some q) : .reference q ∈ args := by
  have hq := mem_places.1 (List.mem_of_head? h)
  simp only [List.mem_filterMap] at hq
  obtain ⟨⟨w, a⟩, hmem, h⟩ := hq
  split at h
  · cases h
    exact (List.of_mem_zip hmem).2
  · cases h

/-- Reading lines into places is steady if all of them may be written, however
many of the lines convert. -/
theorem steady_readInto {qs : List Place} (h : ∀ q ∈ qs, Writable base given q) :
    Steady p base given (readInto qs) := by
  induction qs with
  | nil => exact steady_pure none
  | cons q rest ih =>
    refine steady_readLine.bind fun line =>
      (steady_tryWrite (h q (List.mem_cons_self ..)) line).bind fun
        | none => ih fun r hr => h r (List.mem_cons_of_mem _ hr)
        | some c => steady_pure _

/-- Storing the result of a built-in function is steady if its place may be
written. -/
theorem steady_storeResult {q : Place} (h : Writable base given q) (r : Except Problem String) :
    Steady p base given (storeResult q r) := by
  cases r with
  | error problem => exact steady_pure _
  | ok text => exact (steady_tryWrite h text).bind fun _ => steady_pure _

/-- **A built-in function is steady**: it stores only at places that were passed
to it. -/
theorem steady_perform (b : Builtin) {args : List Actual} (h : ∀ q, .reference q ∈ args → given q) :
    Steady p base given (b.perform args) := by
  refine steady_store.bind fun s => ?_
  have hw {q : Place} (hq : .reference q ∈ args) : Writable base given q :=
    writable_of_given (h q hq)
  split
  · exact steady_readInto fun q hq => hw (mem_places.1 hq)
  · exact (steady_record _).bind fun _ => steady_pure _
  · split
    · exact (steady_draw _ _).bind fun n => steady_storeResult (hw (mem_of_divide ‹_›)) _
    · exact steady_pure _
  · split
    · rename_i hd
      exact steady_storeResult (hw (mem_of_divide (congrArg Prod.snd hd))) _
    · exact steady_pure _

/-- **A built-in function is steady**, given what is passed to it with `var`. -/
theorem steady_invoke (b : Builtin) {args : List Actual} (h : ∀ q, .reference q ∈ args → given q) :
    Steady p base given (b.invoke args) := by
  have refuse (problem : Problem) : Steady p base given (b.refuse problem) :=
    (steady_record _).bind fun _ => steady_record _
  refine steady_store.bind fun s => ?_
  split
  · exact refuse _
  · exact (steady_perform b h).bind fun
      | some problem => refuse problem
      | none => steady_pure ()

end Builtin

namespace Run

variable {base : Nat} {given : Place → Prop} {f : Frame} {setting : Setting}

/-! ## Calls

The body of the function is steady, given what its own frame grants. These
places are new or were passed, so the caller is steady, given what he passes.
-/

/-- What runs a body: steady, given what the frame grants. -/
def BodySteady (p : Program) (body : List String → Frame → List Stmt → Run Unit) : Prop :=
  ∀ base stack f ss, Steady p base f.Grants (body stack f ss)

/-- **Activating a function is steady if its body is.** Entering it only adds
cells. What its frame grants was then added since, or was passed with `var`, so
the steps of the body are steps of the caller as well. -/
theorem steady_activate {p : Program} {body : List String → Frame → List Stmt → Run Unit}
    (hbody : BodySteady p body) {function : Function} (hf : function ∈ p.functions) (limit : Int)
    (stack : List String) {args : List Actual} (hargs : ∀ q, .reference q ∈ args → given q)
    {m : Machine} (hm : base ≤ m.store.cells.size) (hgenuine : Actual.Genuine m.store args) :
    SteadyAt p base given (activate limit body stack function args) m := by
  unfold activate
  split
  · exact steady_fail _ m hm
  · refine (steady_enter hf args m hm).bind fun d frame m₁ h₁ => ?_
    obtain ⟨hbound, hw⟩ := bound_enter h₁ hgenuine
    -- what the frame binds is new, or was passed
    have hin (name q) (hq : frame.find? name = some q) :
        base ≤ q.cell ∧ q.cell < m₁.store.cells.size ∨ given q :=
      (hbound.inside name q hq).imp (fun h => ⟨hm.trans h.1, h.2⟩) (hargs q)
    have hm₁ : base ≤ m₁.store.cells.size := hm.trans hw.size_le
    refine (steadyAt_begin (fun hgiven => ?_) fun name q hq => ?_).bind fun e _ m₂ h₂ => ?_
    · exact hbound.typed fun q hq => (hgiven q (hargs q hq)).trans_le hm
    · exact (hin name q hq).imp_left And.right
    -- the body starts on the machine that was entered, and its steps are handed on
    · cases h₂
      refine SteadyAt.bind (steady_record _ _ hm₁) fun e _ m₃ h₃ => ?_
      cases h₃
      exact SteadyAt.hand_on ((hbody _ _ frame function.body).inFrames _ _ le_rfl) le_rfl hm₁
        fun q ⟨name, _, hq⟩ => hin name q hq

/-- **A call is steady**, given what it passes with `var`. -/
theorem steady_call {body : List String → Frame → List Stmt → Run Unit}
    (hbody : BodySteady setting.program body) (stack : List String) (f : Frame) (name : String)
    (args : List Argument) :
    Steady setting.program base (f.Passes args) (call setting body stack f name args) := by
  refine fun m hm => (steady_actuals f args m hm).bind fun d as m' h => ?_
  obtain ⟨rfl, hplaces, hgenuine⟩ := actuals_ok h
  split
  · exact (steady_record _).bind (fun _ => Builtin.steady_invoke _ hplaces) _ hm
  · split
    · have hmem := List.mem_of_find?_eq_some ‹setting.program.find? name = _›
      exact steady_activate hbody hmem _ stack hplaces hm hgenuine
    · exact steady_fail _ _ hm

/-! ## Statements

Each form of statement is steady if its blocks are.
-/

/-- A piece that is steady with some places given is steady with more. -/
theorem Steady.mono {α : Type} {p : Program} {given' : Place → Prop} {x : Run α}
    (h : Steady p base given x) (hg : ∀ q, given q → given' q) : Steady p base given' x :=
  fun m hm => (h m hm).hand_on hm le_rfl fun q hq => .inr (hg q hq)

variable {p : Program}

/-- An assignment is steady: its target is a place that the frame grants, or an
item of one. -/
theorem steady_assign (f : Frame) (t : Target) (e : Expr) :
    Steady p base f.Grants (assign f t e) := by
  by_cases hc : f.isConstant t.name = true
  · rw [assign, if_pos hc]
    exact steady_fail _
  · rw [assign, if_neg hc]
    refine steady_store.bind fun s => Steady.ofExcept_bind fun q hq =>
      (steady_ofExcept _).bind fun v => steady_write ?_ _
    obtain ⟨g, hg, hcovers⟩ := Target.locate_covers hq
    exact .inr ⟨g, ⟨t.name, by simpa using hc, hg⟩, hcovers⟩

/-- A chain of branches is steady if its blocks are. -/
theorem steady_ifChain (f : Frame) {body : List Stmt → Run Unit}
    (hbody : ∀ ss, Steady p base given (body ss)) (branches : List Branch) :
    Steady p base given (ifChain f body branches) := by
  induction branches with
  | nil => exact steady_pure ()
  | cons b rest ih =>
    obtain ⟨_, _ | condition, statements⟩ := b
    · exact hbody statements
    · refine (steady_holds f condition).bind fun holds => ?_
      cases holds with
      | true => exact hbody statements
      | false => exact ih

/-- A `while` loop is steady if its body is. -/
theorem steady_whileLoop (f : Frame) (condition : Expr) {body : Run Unit}
    (hbody : Steady p base given body) :
    Steady p base given (whileLoop f condition body) := by
  refine Steady.loop ((steady_holds f condition).bind fun holds => ?_)
  cases holds with
  | true => exact hbody.bind fun _ => steady_pure true
  | false => exact steady_pure false

/-- A `repeat` loop is steady if its body is. -/
theorem steady_repeatLoop (f : Frame) (condition : Expr) {body : Run Unit}
    (hbody : Steady p base given body) :
    Steady p base given (repeatLoop f condition body) :=
  Steady.loop (hbody.bind fun _ => (steady_holds f condition).bind fun _ => steady_pure _)

/-- A `for` loop is steady if its body is. It stores its counter, which the
frame grants, before every round. -/
theorem steady_forLoop (f : Frame) (name : String) (start stop : Expr) {body : Run Unit}
    (hbody : Steady p base f.Grants body) :
    Steady p base f.Grants (forLoop f name start stop body) := by
  refine (steady_evaluate f start).bind fun low => (steady_evaluate f stop).bind fun high => ?_
  by_cases hc : f.isConstant name = true
  · simp only [hc, if_true]
    split
    · exact steady_throw _
    · exact steady_throw _
    · exact steady_fail _
  · have hq {q : Place} (h : f.place name = .ok q) : Writable base f.Grants q :=
      writable_of_given ⟨name, by simpa using hc, Frame.place_ok h⟩
    simp only [hc]
    split
    · exact (steady_pure ()).bind fun _ => Steady.ofExcept_bind fun q h =>
        .countIntegers (fun n => (steady_write (hq h) _).bind fun _ => hbody) _ _
    · exact (steady_pure ()).bind fun _ => Steady.ofExcept_bind fun q h =>
        .countReals (fun x => (steady_write (hq h) _).bind fun _ => hbody) _ _
    · exact steady_fail _

/-- **A statement is steady**, given what its frame grants. The induction is on
the room for nesting; a call takes all of it that is left to the function. -/
theorem steady_statement (setting : Setting) (room : Nat) (base : Nat) (stack : List String)
    (f : Frame) (s : Stmt) :
    Steady setting.program base f.Grants (statement setting room stack f s) := by
  induction room using Nat.strong_induction_on generalizing base stack f s with
  | _ room ih =>
    rcases room with _ | _ | _ | _ | _ | room
    iterate 5 exact steady_throw _
    have hblock {k : Nat} (hk : k < room + 5) (ss : List Stmt) :
        Steady setting.program base f.Grants (block (statement setting k stack f) ss) :=
      .block (ih k hk base stack f) ss
    unfold statement
    split
    · exact steady_throw _
    · cases s with
      | assign _ target value => exact steady_assign f target value
      | ifChain _ branches => exact steady_ifChain f (hblock (by omega)) branches
      | whileLoop _ condition body => exact steady_whileLoop f condition (hblock (by omega) body)
      | repeatLoop _ condition body => exact steady_repeatLoop f condition (hblock (by omega) body)
      | forLoop _ name _ start stop body =>
        exact steady_forLoop f name start stop (hblock (by omega) body)
      | call _ name args =>
        refine (steady_call (fun base stack f ss => ?_) stack f name args).mono
          fun _ => Frame.Passes.grants
        exact .block (ih room (by omega) base stack f) ss

/-! ## Whole runs

The entry function is called from outside, with nothing given to it.
-/

/-- **A run from an entry function is steady**, given nothing: a run that is
nested too deep ends as a fault, and goes the same way up to there. -/
theorem steady_entry (setting : Setting) (name : String) :
    Steady setting.program base (fun _ => False) (entry setting name) := by
  unfold entry
  split
  · rename_i f hf
    have hactivate : Steady setting.program base (fun _ => False)
        (activate setting.limits.calls
          (fun stack f => block (statement setting setting.limits.room stack f)) [] f []) :=
      fun m hm => steady_activate
        (fun base stack f ss => .block (steady_statement setting _ base stack f) ss)
        (List.mem_of_find?_eq_some hf) _ [] (fun _ h => (nomatch h)) hm fun _ h => (nomatch h)
    refine (hactivate.rethrow (g := fun h =>
      if h = .tooDeep then .fault { cause := .roomExhausted, frames := [f.name] } else h)
      rfl).congr fun m => ?_
    refine congrArg (fun handler => (tryCatch _ handler : Run Unit) m) (funext fun h => ?_)
    cases h <;> rfl
  · exact steady_fail _

end Run
end Shank
