/-
# What is looked up is there

Some things a run asks for need not be there as far as their kinds go: a cell of
the store, an item of an array, an operand of a built-in function, a number from
a range. At every moment of a run they are.

| asked for | there, because |
| --- | --- |
| the variable of a name | a frame binds places of whole variables, in the store |
| the array that an expression stands for | it was found in the store |
| an item of an array | an index is checked, and an array is as long as its bounds ask for |
| a number from a range | a range that is parsed is not empty |
| what a built-in function reads, a place for its result | its arguments are checked |
-/

import Shank.Proofs.Run.Constants
import Mathlib.Data.List.Forall2

namespace Shank

/-! ## Built-in functions

The check of the arguments of a built-in function lets through only what it can
read. So the cases that its body leaves out do not come up.
-/

namespace Builtin

variable {s : Store} {b : Builtin} {args : List Actual}

/-- What a built-in function can be given to read, other than `read` and
`write`. -/
inductive Suits : Builtin → List Operand → Prop
  | left (t : String) (n : Int) : Suits left [.scalar (.string t), .scalar (.integer n)]
  | right (t : String) (n : Int) : Suits right [.scalar (.string t), .scalar (.integer n)]
  | substring (t : String) (i n : Int) :
    Suits substring [.scalar (.string t), .scalar (.integer i), .scalar (.integer n)]
  | squareRoot (x : Ieee) : Suits squareRoot [.scalar (.real x)]
  | getRandom : Suits getRandom []
  | integerToReal (n : Int) : Suits integerToReal [.scalar (.integer n)]
  | realToInteger (x : Ieee) : Suits realToInteger [.scalar (.real x)]
  | start (i : Nat) : Suits start [.array i]
  | end_ (i : Nat) : Suits end_ [.array i]

/-- An argument suits a parameter. -/
def Parameter.Suits (s : Store) (p : Parameter) (a : Actual) : Prop :=
  (∀ t, p.tag = some t → Store.tag (a.operand s) = t) ∧
    (p.isWritten = true → ∃ q, a = .reference q)

/-- An argument that passes the check suits its parameter. -/
theorem suits_of_checkArgument {i : Nat} {p : Parameter} {a : Actual}
    (h : checkArgument s i p a = none) : p.Suits s a := by
  -- that it can be written to is tested last, whether the kind was or not
  have hwritten (h : (if p.isWritten && !a.isReference then some (.argumentNotVar i) else none :
      Option Problem) = none) : p.isWritten = true → ∃ q, a = .reference q := by
    intro hp
    cases a with
    | reference q => exact ⟨q, rfl⟩
    | value v =>
      rw [hp] at h
      cases h
  unfold checkArgument at h
  dsimp only at h
  cases htag : p.tag with
  | none =>
    rw [htag] at h
    exact ⟨fun t ht => (by rw [htag] at ht; cases ht), hwritten h⟩
  | some expected =>
    rw [htag] at h
    dsimp only at h
    split at h
    · cases h
    · rename_i hne
      refine ⟨fun t ht => ?_, hwritten h⟩
      rw [htag] at ht
      cases ht
      exact not_not.1 hne

/-- Arguments that pass the check, and are as many as the parameters, suit them
one by one. -/
theorem suits_of_checkArguments {i : Nat} {ps : List Parameter} {as : List Actual}
    (hlength : as.length = ps.length) (h : checkArguments s i ps as = none) :
    List.Forall₂ (Parameter.Suits s) ps as := by
  induction ps generalizing i as with
  | nil =>
    obtain rfl := List.length_eq_zero_iff.1 hlength
    exact .nil
  | cons p ps ih =>
    cases as with
    | nil => cases hlength
    | cons a as =>
      unfold checkArguments at h
      split at h
      · cases h
      · exact .cons (suits_of_checkArgument ‹_›) (ih (Nat.succ.inj hlength) h)

/-- What is tagged as a string is one. -/
theorem string_of_tag {v : Operand} (h : Store.tag v = .scalar .string) :
    ∃ t, v = .scalar (.string t) := by
  cases v with
  | scalar v => cases v <;> cases h; exact ⟨_, rfl⟩
  | array i => cases h

/-- What is tagged as an array is one. -/
theorem array_of_tag {v : Operand} (h : Store.tag v = .array) : ∃ i, v = .array i := by
  cases v with
  | scalar v => cases h
  | array i => exact ⟨i, rfl⟩

open Run in
/-- **Arguments that pass the check are what the built-in function can read**,
and there is a place for its result among them. Each of these functions has its
own list of parameters, so the arguments are taken apart one function at a time. -/
theorem suits_of_check (hb : b.isVariadic = false) (h : b.check s args = none) :
    ∃ operands q, b.divide s args = (operands, some q) ∧ b.Suits operands := by
  have hargs : List.Forall₂ (Parameter.Suits s) b.parameters args := by
    unfold check at h
    rw [if_neg (by rw [hb]; exact Bool.false_ne_true)] at h
    split at h
    · cases h
    · exact suits_of_checkArguments (not_not.1 ‹_›) h
  -- one parameter after the other is read off the check
  cases b with
  | read => cases hb
  | write => cases hb
  | left | right =>
    obtain _ | ⟨ht, _ | ⟨hn, _ | ⟨hq, ⟨⟩⟩⟩⟩ := hargs
    obtain ⟨t, ht⟩ := string_of_tag (ht.1 _ rfl)
    obtain ⟨n, hn⟩ := integer_of_tag (hn.1 _ rfl)
    obtain ⟨q, rfl⟩ := hq.2 rfl
    refine ⟨_, q, rfl, ?_⟩
    show Suits _ [_, _]
    rw [ht, hn]
    constructor
  | substring =>
    obtain _ | ⟨ht, _ | ⟨hi, _ | ⟨hn, _ | ⟨hq, ⟨⟩⟩⟩⟩⟩ := hargs
    obtain ⟨t, ht⟩ := string_of_tag (ht.1 _ rfl)
    obtain ⟨i, hi⟩ := integer_of_tag (hi.1 _ rfl)
    obtain ⟨n, hn⟩ := integer_of_tag (hn.1 _ rfl)
    obtain ⟨q, rfl⟩ := hq.2 rfl
    refine ⟨_, q, rfl, ?_⟩
    show Suits _ [_, _, _]
    rw [ht, hi, hn]
    exact .substring t i n
  | squareRoot =>
    obtain _ | ⟨hx, _ | ⟨hq, ⟨⟩⟩⟩ := hargs
    obtain ⟨x, hx⟩ := real_of_tag (hx.1 _ rfl)
    obtain ⟨q, rfl⟩ := hq.2 rfl
    refine ⟨_, q, rfl, ?_⟩
    show Suits _ [_]
    rw [hx]
    exact .squareRoot x
  | getRandom =>
    obtain _ | ⟨hq, ⟨⟩⟩ := hargs
    obtain ⟨q, rfl⟩ := hq.2 rfl
    exact ⟨_, q, rfl, .getRandom⟩
  | integerToReal =>
    obtain _ | ⟨hq, _ | ⟨hn, ⟨⟩⟩⟩ := hargs
    obtain ⟨n, hn⟩ := integer_of_tag (hn.1 _ rfl)
    obtain ⟨q, rfl⟩ := hq.2 rfl
    refine ⟨_, q, rfl, ?_⟩
    show Suits _ [_]
    rw [hn]
    exact .integerToReal n
  | realToInteger =>
    obtain _ | ⟨hq, _ | ⟨hx, ⟨⟩⟩⟩ := hargs
    obtain ⟨x, hx⟩ := real_of_tag (hx.1 _ rfl)
    obtain ⟨q, rfl⟩ := hq.2 rfl
    refine ⟨_, q, rfl, ?_⟩
    show Suits _ [_]
    rw [hx]
    exact .realToInteger x
  | start | end_ =>
    obtain _ | ⟨hi, _ | ⟨hq, ⟨⟩⟩⟩ := hargs
    obtain ⟨i, hi⟩ := array_of_tag (hi.1 _ rfl)
    obtain ⟨q, rfl⟩ := hq.2 rfl
    refine ⟨_, q, rfl, ?_⟩
    show Suits _ [_]
    rw [hi]
    constructor

/-- Arguments that `read` accepts are all places. -/
theorem references_of_check (h : read.check s args = none) : ∀ a ∈ args, ∃ q, a = .reference q := by
  have hall (i : Nat) (as : List Actual)
      (h : checkArguments s i (as.flatMap fun _ => read.parameters) as = none) :
      ∀ a ∈ as, ∃ q, a = .reference q := by
    induction as generalizing i with
    | nil => exact fun _ ha => nomatch ha
    | cons a rest ih =>
      rw [List.flatMap_cons] at h
      unfold checkArguments at h
      dsimp only [parameters, List.cons_append, List.nil_append] at h
      split at h
      · cases h
      · have hfirst := (suits_of_checkArgument ‹_›).2 rfl
        exact List.forall_mem_cons.2 ⟨hfirst, ih _ h⟩
  exact hall 1 args h

end Builtin

/-! ## The places of a frame

Names are bound to whole variables, by parameters and by locals alike. A slot of
an array only comes up where an index is looked up in one.
-/

/-- All names of a frame stand for whole variables. -/
def Frame.Whole (f : Frame) : Prop :=
  ∀ name q, f.find? name = some q → q.slot = none

/-- The empty frame has no names at all. -/
theorem Frame.whole_empty : Frame.Whole {} :=
  fun _ _ h => nomatch h

/-- A frame with one more name, for a whole variable, is one of whole variables. -/
theorem Frame.Whole.bound {f f' : Frame} (h : f.Whole) {name : String} {q : Place}
    (hf : ∀ n, f'.find? n = if n == name then some q else f.find? n) (hq : q.slot = none) :
    f'.Whole := by
  intro n r hr
  rw [hf] at hr
  split at hr
  · cases hr
    exact hq
  · exact h n r hr

/-- All activations have frames of whole variables. -/
def Machine.Whole (m : Machine) : Prop :=
  ∀ a ∈ m.activations, a.frame.Whole

namespace Run

variable {m m' : Machine} {f f' : Frame}

/-- Binding parameters adds whole variables only: copies, and what is passed
with `var`. -/
theorem whole_bindParameters {function : String} {vs : List Variable} {as : List Actual}
    (h : bindParameters function f vs as m = .ok f' m') (hf : f.Whole)
    (has : ∀ q, .reference q ∈ as → q.slot = none) : f'.Whole := by
  induction vs generalizing f as m with
  | nil =>
    cases h
    exact hf
  | cons v vs ih =>
    cases as with
    | nil =>
      cases h
      exact hf
    | cons a as =>
      obtain ⟨f₁, m₁, h₁, hrest⟩ := bind_ok h
      refine ih hrest ?_ fun q hq => has q (List.mem_cons_of_mem _ hq)
      obtain ⟨q, rfl, -, ⟨rfl, -⟩ | hcopy⟩ := bindParameter_ok h₁
      · exact hf.bound (f.find?_bind v.name q) (has q (List.mem_cons_self ..))
      · obtain ⟨c, rfl, -⟩ := copyArgument_ok hcopy
        exact hf.bound (f.find?_bind v.name _) rfl

/-- Declaring locals adds whole variables only. -/
theorem whole_declareLocals {ds : List Local} (h : declareLocals f ds m = .ok f' m') (hf : f.Whole) :
    f'.Whole := by
  induction ds generalizing f m with
  | nil =>
    cases h
    exact hf
  | cons d ds ih =>
    obtain ⟨f₁, m₁, h₁, hrest⟩ := bind_ok h
    obtain ⟨c, hfind, -⟩ := declareLocal_ok h₁
    exact ih hrest (hf.bound hfind rfl)

/-- A function that is passed whole variables has a frame of whole variables. -/
theorem whole_enter {function : Function} {args : List Actual}
    (h : enter function args m = .ok f m') (hargs : ∀ q, .reference q ∈ args → q.slot = none) :
    f.Whole := by
  unfold enter at h
  split at h
  · cases h
  · obtain ⟨f₁, m₁, h₁, hrest⟩ := bind_ok h
    exact whole_declareLocals hrest (whole_bindParameters h₁ Frame.whole_empty hargs)

/-- A run in a frame of whole variables keeps all frames so. -/
def KeepsWhole (f : Frame) (α : Type) (x : Run α) : Prop :=
  Preserves (fun m => f.Whole → m.Whole) x

/-- Pieces of statements touch no frame. -/
theorem congruence_whole (f : Frame) : Congruence f fun α x _ => KeepsWhole f α x :=
  congruence_preserves (fun _ _ _ _ h => h) (fun _ _ _ h => h) (fun _ _ h => h) fun _ _ _ _ h => h

/-- Activating a function keeps all frames so if its body does: the new one is
of whole variables as well. -/
theorem whole_activate {limit : Int} {body : List String → Frame → List Stmt → Run Unit}
    (hbody : ∀ stack f ss, KeepsWhole f Unit (body stack f ss)) (stack : List String)
    (function : Function) (args : List Actual) (hargs : ∀ q, .reference q ∈ args → q.slot = none) :
    Preserves Machine.Whole (activate limit body stack function args) := by
  intro m hm
  rw [after, activate_apply]
  split
  · exact hm
  · cases hr : enter function args m with
    | error h m' =>
      have hentered := (congruence_whole {}).enter function args m (fun _ => hm)
      rw [after, hr] at hentered
      exact hentered Frame.whole_empty
    | ok frame m' =>
      have hwhole : frame.Whole := whole_enter hr hargs
      have hrun := (hbody (function.name :: stack) frame function.body).rethrow
        (t := Halt.inFrames (function.name :: stack))
      refine hrun (m'.entered ⟨function, frame⟩ (stack.length + 1)) (fun _ a ha => ?_) hwhole
      -- the new activation comes before those there were
      rcases List.mem_cons.1 ha with rfl | ha
      · exact hwhole
      · rw [activations_enter hr] at ha
        exact hm a ha

/-- **A run keeps all frames to whole variables.** -/
theorem whole_entry (setting : Setting) (name : String) :
    Preserves Machine.Whole (entry setting name) := by
  unfold entry
  cases setting.program.find? name with
  | none => exact preserves_throw _
  | some f =>
    dsimp only
    rw [function_eq]
    refine (whole_activate (fun stack g ss => ?_) [] f [] fun _ h => nomatch h).rethrow
    refine (congruence_whole g).block_self ss fun s _ => Preserves.rethrow ?_
    exact statement_of_pieces congruence_whole (fun _ _ _ h => h.rethrow)
      (fun _ hbody stack _ _ function args hargs m hm hf =>
        whole_activate hbody stack function args (fun q hq => by
          obtain ⟨_, name, _, _, _, hq⟩ := hargs q hq
          exact hf name q hq) m (hm hf)) _ stack g s

end Run

/-! ## Places that are found

An index that was checked is one of the array, since an array is as long as the
bounds of its type.
-/

namespace Store

/-- An index that is accepted is that of an item, as an array is as long as its
bounds ask for. -/
theorem slot_ok {s : Store} (hs : s.Fits) {i : Nat} {index : Operand} {q : Place}
    (h : s.slot i index = .ok q) :
    ∃ bounds element items k, s.cell i = .array bounds element items ∧ q = ⟨i, some k⟩ ∧
      k < items.size := by
  unfold slot element at h
  cases index with
  | array j => cases h
  | scalar v =>
    cases v with
    | integer n =>
      dsimp only at h
      -- an accepted index is between the bounds, and the array has an item for each
      -- such number
      by_cases hn : (s.bounds i).contains n = true
      · rw [if_pos hn] at h
        cases h
        unfold Store.bounds at hn ⊢
        have hc := hs i
        cases hcell : s.cell i with
        | scalar type v =>
          rw [hcell] at hn
          simp only [Interval.contains, Bool.and_eq_true, decide_eq_true_eq] at hn
          omega
        | array bounds element items =>
          rw [hcell] at hn hc
          obtain ⟨hsize, -⟩ := hc
          simp only [Interval.contains, Bool.and_eq_true, decide_eq_true_eq] at hn
          refine ⟨bounds, element, items, _, rfl, rfl, ?_⟩
          rw [hsize, Interval.size]
          dsimp only at hn ⊢
          omega
      · rw [if_neg hn] at h
        cases h
    | real | string | character | boolean => cases h

/-- A range of integers that a place has is that of its cell. -/
theorem type_of_typeAt? {s : Store} {q : Place} {r : Interval}
    (h : s.typeAt? q = some (.integer (some r))) :
    (s.cell q.cell).type = .scalar (.integer (some r)) := by
  unfold typeAt? at h
  cases hcell : s.cell q.cell with
  | scalar type v =>
    rw [hcell] at h
    cases h
    rfl
  | array bounds element items =>
    -- the items of an array have no range
    rw [hcell] at h
    cases hslot : q.slot with
    | none =>
      rw [hslot] at h
      cases h
    | some k =>
      rw [hslot] at h
      cases element <;> cases h

end Store

/-! ## Every moment of a run

The frames are of whole variables throughout the run, and the store fits
throughout. From these two all that is asked for is there.
-/

/-- Whatever is looked up on a machine is there. -/
structure Machine.Complete (m : Machine) : Prop where
  /-- A name stands for a whole variable, which is in the store. -/
  name : ∀ a ∈ m.activations, ∀ name q, a.frame.find? name = some q →
    q.slot = none ∧ q.cell < m.store.cells.size
  /-- An array that an expression stands for is in the store. -/
  array : ∀ f (e : Expr) i, e.evaluate m.store f = .ok (.array i) →
    ∃ bounds element items, m.store.cell i = .array bounds element items
  /-- An index that is accepted is that of an item. -/
  slot : ∀ i index q, m.store.slot i index = .ok q →
    ∃ bounds element items k, m.store.cell i = .array bounds element items ∧ q = ⟨i, some k⟩ ∧
      k < items.size
  /-- What a random number is drawn from is not empty. -/
  range : ∀ q, (Builtin.drawRange m.store q).low ≤ (Builtin.drawRange m.store q).high
  /-- What `read` accepts are places to read into. -/
  read : ∀ args, Builtin.read.check m.store args = none → ∀ a ∈ args, ∃ q, a = .reference q
  /-- Any other built-in function can read the arguments that it accepts, and
  has a place for its result. -/
  builtin : ∀ (b : Builtin) args, b.isVariadic = false → b.check m.store args = none →
    ∃ operands q, b.divide m.store args = (operands, some q) ∧ b.Suits operands

namespace Program

variable {p : Program}

/-- **At every moment of a run all frames are of whole variables.** -/
theorem whole_reached (p : Program) (entry input : String) (limits : Limits) (random : Random)
    (n : Nat) : (p.reached entry input limits random n).Whole := by
  rw [reached, runOn, machine_of]
  exact Run.whole_entry ⟨p, limits⟩ entry { input := Text.textLines input, random, steps := n }
    fun _ h => (List.not_mem_nil h).elim

/-- **Whatever is looked up in a run of a parsed program is there**, at every
moment. -/
theorem complete_reached {tokens : List Token} (h : parse tokens = .ok p) (entry input : String)
    (limits : Limits) (random : Random) (n : Nat) :
    (p.reached entry input limits random n).Complete := by
  have hleads := leads_reached (p := p) entry input limits random n
  have hfits := hleads.fits fun _ => trivial
  have hdeclared := hleads.declared fun _ => .inl ⟨.boolean, rfl⟩
  have hsealed := p.sealed_reached entry input limits random n
  have hwhole := p.whole_reached entry input limits random n
  generalize p.reached entry input limits random n = m at *
  -- the type of a cell tells whether it is an array
  have harray {i : Nat} (hi : (m.store.cell i).type.tag = .array) :
      ∃ bounds element items, m.store.cell i = .array bounds element items := by
    cases hc : m.store.cell i with
    | scalar type v =>
      rw [hc] at hi
      cases hi
    | array bounds element items => exact ⟨bounds, element, items, rfl⟩
  constructor
  · exact fun a ha name q hq => ⟨hwhole a ha name q hq, hsealed.inside a ha name q hq⟩
  · exact fun f e i he => harray (Expr.evaluate_array he)
  · exact fun i index q hq => Store.slot_ok hfits hq
  · intro q
    -- a range was refused by the parser unless it is in order, and the built-in one is
    unfold Builtin.drawRange
    split
    · rename_i r htype
      have hdeclares := hdeclared q.cell
      rw [Store.type_of_typeAt? htype] at hdeclares
      exact ordered_of_parse h hdeclares r rfl
    · decide
  · exact fun args hcheck => Builtin.references_of_check hcheck
  · exact fun b args hb hcheck => Builtin.suits_of_check hb hcheck

end Program
end Shank
