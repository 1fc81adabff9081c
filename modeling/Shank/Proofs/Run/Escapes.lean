/-
# What escapes from an expression or a declaration

A run may end in ways that are no fault of the program: for want of a remainder,
or of a number that a variable could start with. Such a halt escapes. It comes
out of a computation on the store just if that meets a hazard that raises it
(`FailsBy`).

| computation | meets |
| --- | --- |
| looking up a name or an index, comparing, arithmetic on integers | nothing |
| `mod` on reals, the start of a real variable with a range | its own hazard |
| an expression | what its parts meet, in the order of evaluation |
-/

import Shank.Proofs.Run.Meets
import Shank.Proofs.Run.Misuse

namespace Shank

/-- A halt that is no fault, nor for want of room or steps. -/
def Halt.Escapes (h : Halt) : Prop :=
  h = .remainderUndefined ∨ h = .boundTooLarge

/-- A fault does not escape. -/
theorem Halt.not_escapes_of (c : Cause) : ¬(of c).Escapes := by
  rintro (h | h) <;> cases h

/-- A run that is out of steps does not escape: it goes on with more of them. -/
theorem Halt.not_escapes_unfinished : ¬Escapes .unfinished := by
  rintro (h | h) <;> cases h

/-- A run that is nested too deep does not escape: outside of the entry function
it is a fault. -/
theorem Halt.not_escapes_tooDeep : ¬Escapes .tooDeep := by
  rintro (h | h) <;> cases h

/-! ## Computations on the store

Which hazards a computation meets is told in both directions: it escapes if it
meets one, and if it escapes it has met one. So two computations in a row are
told exactly by what their parts meet.
-/

/-- A computation that escapes just by the hazards it meets. -/
def FailsBy {α : Type} (x : Except Halt α) (V : Hazard → Prop) : Prop :=
  ∀ h : Halt, h.Escapes → (x = .error h ↔ ∃ z, V z ∧ z.Raises h)

section

variable {α β : Type} {x : Except Halt α} {V W : Hazard → Prop}

/-- Only which hazards are met counts, not how that is put. -/
theorem FailsBy.congr (hx : FailsBy x V) (h : ∀ z, V z ↔ W z) : FailsBy x W :=
  funext (fun z => propext (h z)) ▸ hx

/-- What never escapes does not need to meet anything. -/
theorem failsBy_nothing (hx : ∀ h, x = .error h → ¬h.Escapes) : FailsBy x fun _ => False := by
  intro h hh
  constructor
  · intro he
    exact (hx h he hh).elim
  · rintro ⟨_, ⟨⟩, _⟩

/-- A value meets nothing. -/
theorem failsBy_ok (a : α) : FailsBy (.ok a) fun _ => False :=
  failsBy_nothing fun _ h => nomatch h

/-- A fault meets nothing. -/
theorem failsBy_fault (c : Cause) : FailsBy (.error (.of c) : Except Halt α) fun _ => False := by
  refine failsBy_nothing ?_
  rintro _ ⟨⟩
  exact Halt.not_escapes_of c

/-- **What a sequence meets**: what its first part meets, or what its second one
does where the first one gives a value. -/
theorem FailsBy.bind {f : α → Except Halt β} {W : α → Hazard → Prop} (hx : FailsBy x V)
    (hf : ∀ a, x = .ok a → FailsBy (f a) (W a)) :
    FailsBy (x >>= f) fun z => V z ∨ ∃ a, x = .ok a ∧ W a z := by
  intro h hh
  cases hxr : x with
  | ok a =>
    -- the first part meets nothing that would have stopped it
    have hfirst : ¬∃ z, V z ∧ z.Raises h := by
      intro hz
      have := (hx h hh).2 hz
      rw [hxr] at this
      cases this
    show f a = .error h ↔ _
    rw [hf a hxr h hh]
    constructor
    · rintro ⟨z, hz, hr⟩
      exact ⟨z, .inr ⟨a, rfl, hz⟩, hr⟩
    · rintro ⟨z, hz | ⟨_, ⟨⟩, hz⟩, hr⟩
      · exact (hfirst ⟨z, hz, hr⟩).elim
      · exact ⟨z, hz, hr⟩
  | error e =>
    show (Except.error e : Except Halt β) = .error h ↔ _
    have hfirst := hx h hh
    rw [hxr] at hfirst
    rw [Except.error.injEq] at hfirst ⊢
    rw [hfirst]
    constructor
    · rintro ⟨z, hz, hr⟩
      exact ⟨z, .inl hz, hr⟩
    · rintro ⟨z, hz | ⟨_, ⟨⟩, _⟩, hr⟩
      exact ⟨z, hz, hr⟩

/-- What is made of a value afterwards meets nothing more. -/
theorem FailsBy.map (hx : FailsBy x V) (g : α → β) : FailsBy (g <$> x) V := by
  intro h hh
  rw [← hx h hh]
  cases x with
  | ok a => exact ⟨fun h => (nomatch h), fun h => (nomatch h)⟩
  | error e => exact Iff.of_eq (by simp only [Functor.map, Except.map, Except.error.injEq])

/-- What follows on a part that meets nothing. -/
theorem FailsBy.behind {f : α → Except Halt β} {W : α → Hazard → Prop}
    (hx : FailsBy x fun _ => False) (hf : ∀ a, x = .ok a → FailsBy (f a) (W a)) :
    FailsBy (x >>= f) fun z => ∃ a, x = .ok a ∧ W a z :=
  (hx.bind hf).congr fun _ => by rw [false_or]

/-- What a part meets that nothing is met behind. -/
theorem FailsBy.before {f : α → Except Halt β} (hx : FailsBy x V)
    (hf : ∀ a, x = .ok a → FailsBy (f a) fun _ => False) : FailsBy (x >>= f) V :=
  (hx.bind hf).congr fun _ => by simp only [and_false, exists_false, or_false]

end

/-- A literal meets nothing. -/
theorem Scalar.failsBy_evaluate (v : Scalar) : FailsBy v.evaluate fun _ => False := by
  unfold evaluate
  split
  · exact failsBy_ok _
  · exact failsBy_fault _

/-- Looking up a name meets nothing. -/
theorem Frame.failsBy_place (f : Frame) (name : String) : FailsBy (f.place name) fun _ => False := by
  unfold place
  split
  · exact failsBy_ok _
  · exact failsBy_fault _

/-- Looking up an array meets nothing. -/
theorem Frame.failsBy_arrayCell (s : Store) (f : Frame) (name : String) :
    FailsBy (f.arrayCell s name) fun _ => False := by
  refine (f.failsBy_place name).before fun q _ => ?_
  split
  · exact failsBy_ok _
  · exact failsBy_fault _

/-- Checking an index meets nothing. -/
theorem Store.failsBy_slot (s : Store) (i : Nat) (index : Operand) :
    FailsBy (s.slot i index) fun _ => False := by
  unfold slot
  split
  · exact failsBy_ok _
  · exact failsBy_fault _

namespace Operand

/-- A comparison meets nothing. -/
theorem failsBy_compare (s : Store) (op : CompareOp) (a b : Operand) :
    FailsBy (compare s op a b) fun _ => False := by
  unfold compare
  split
  · exact failsBy_fault _
  · split
    · exact failsBy_ok _
    · exact failsBy_ok _
    · split
      · exact failsBy_ok _
      · exact failsBy_ok _
      · exact failsBy_fault _

/-- Arithmetic on integers meets nothing: division by zero and overflow are
faults. -/
theorem failsBy_integerArithmetic (op : ArithOp) (a b : Int) :
    FailsBy (integerArithmetic op a b) fun _ => False := by
  unfold integerArithmetic
  dsimp only
  split
  · exact failsBy_ok _
  · exact failsBy_fault _

/-- **The remainder of two reals** is missing of an infinity, by a number that
is not zero. By a zero it is a fault. -/
theorem failsBy_remainder (x y : Ieee) :
    FailsBy (realArithmetic .mod x y) fun z => z = .remainder x y := by
  intro h hh
  unfold realArithmetic
  dsimp only
  split
  · -- by a zero there is a fault instead
    rename_i hzero
    constructor
    · rintro ⟨⟩
      exact (Halt.not_escapes_of _ hh).elim
    · rintro ⟨_, rfl, hr⟩
      cases h <;> first | exact hr.elim | exact (hr.2.1 ((Ieee.eq_zero_iff y).1 hzero)).elim
  · rename_i hzero
    have hy : ¬y.IsZero := fun h => hzero ((Ieee.eq_zero_iff y).2 h)
    have hnone := Ieee.remainder?_eq_none (x := x) hy
    split
    -- there is a remainder, so none of this is the case
    · rename_i r hr
      refine ⟨fun h => (nomatch h), ?_⟩
      rintro ⟨_, rfl, hraises⟩
      cases h <;> first | exact hraises.elim | skip
      have := hnone.2 ⟨hraises.1, hraises.2.2⟩
      rw [hr] at this
      cases this
    · rename_i hr
      -- there is none, so all of it is
      obtain ⟨hx, hnan⟩ := hnone.1 hr
      constructor
      · rintro ⟨⟩
        exact ⟨_, rfl, hx, hy, hnan⟩
      · rintro ⟨_, rfl, hraises⟩
        cases h <;> first | exact hraises.elim | rfl

/-- An operator meets nothing but the remainder of two reals. -/
theorem failsBy_arithmetic (s : Store) (op : ArithOp) (a b : Operand) :
    FailsBy (arithmetic s op a b) fun z => ∃ x y, op = .mod ∧ a = .scalar (.real x) ∧
      b = .scalar (.real y) ∧ z = .remainder x y := by
  unfold arithmetic
  split
  · -- texts are joined, whatever the operator
    rename_i hstring
    refine (failsBy_ok _).congr fun z => (iff_of_false not_false ?_)
    rintro ⟨x, y, -, rfl, rfl, -⟩
    cases hstring
  · split
    · refine (failsBy_integerArithmetic op _ _).congr fun z => (iff_of_false not_false ?_)
      rintro ⟨x, y, -, ⟨⟩, -⟩
    · rename_i x y _
      -- of the operators on reals only the remainder may have no value
      by_cases hop : op = .mod
      · subst hop
        refine (failsBy_remainder x y).congr fun z => ⟨?_, ?_⟩
        · rintro rfl
          exact ⟨x, y, rfl, rfl, rfl, rfl⟩
        · rintro ⟨_, _, -, ⟨⟩, ⟨⟩, rfl⟩
          rfl
      · have hquiet : FailsBy (realArithmetic op x y) fun _ => False := by
          unfold realArithmetic
          cases op with
          | add | sub | mul => exact failsBy_ok _
          | div =>
            dsimp only
            split
            · exact failsBy_fault _
            · exact failsBy_ok _
          | mod => exact (hop rfl).elim
        refine hquiet.congr fun z => (iff_of_false not_false ?_)
        rintro ⟨_, _, h, -⟩
        exact hop h
    · rename_i hreal
      refine (failsBy_fault _).congr fun z => (iff_of_false not_false ?_)
      rintro ⟨x, y, -, rfl, rfl, -⟩
      exact hreal x y rfl rfl

end Operand

/-! ## Expressions

The operands are evaluated from left to right, and what is met behind an operand
is met only where that has a value.
-/

section

variable {s : Store} {f : Frame}

/-- **An expression escapes just by the hazards it meets.** -/
theorem Expr.failsBy_evaluate (e : Expr) : FailsBy (e.evaluate s f) (e.Meets s f) := by
  induction e with
  | literal _ v =>
    refine (v.failsBy_evaluate.map _).congr fun z => (iff_of_false not_false ?_)
    rintro ⟨⟩
  | var _ name =>
    refine ((f.failsBy_place name).map _).congr fun z => (iff_of_false not_false ?_)
    rintro ⟨⟩
  -- the index is met if the array is found, and nothing behind it is
  | element _ name index ih =>
    refine ((f.failsBy_arrayCell s name).behind fun i _ =>
      ih.bind fun k _ => (s.failsBy_slot i k).map _).congr fun z => ⟨?_, ?_⟩
    · rintro ⟨i, hi, hz | ⟨_, _, ⟨⟩⟩⟩
      exact .index hi hz
    · rintro ⟨⟩
      exact ⟨_, ‹_›, .inl ‹_›⟩
  | arithmetic _ op left right ihl ihr =>
    refine (ihl.bind fun a _ => ihr.bind fun b _ =>
      (Operand.failsBy_arithmetic s op a b).map _).congr fun z => ⟨?_, ?_⟩
    · rintro (hz | ⟨a, ha, hz | ⟨b, hb, x, y, rfl, rfl, rfl, rfl⟩⟩)
      · exact .left hz
      · exact .right ha hz
      · exact .remainder ha hb
    · intro hz
      cases hz with
      | left hz => exact .inl hz
      | right ha hz => exact .inr ⟨_, ha, .inl hz⟩
      | remainder ha hb => exact .inr ⟨_, ha, .inr ⟨_, hb, _, _, rfl, rfl, rfl, rfl⟩⟩
  | comparison _ op left right ihl ihr =>
    refine (ihl.bind fun a _ => ihr.bind fun b _ =>
      (Operand.failsBy_compare s op a b).map _).congr fun z => ⟨?_, ?_⟩
    · rintro (hz | ⟨a, ha, hz | ⟨_, _, ⟨⟩⟩⟩)
      · exact .compareLeft hz
      · exact .compareRight ha hz
    · intro hz
      cases hz with
      | compareLeft hz => exact .inl hz
      | compareRight ha hz => exact .inr ⟨_, ha, .inl hz⟩

/-- A condition meets what its value does. -/
theorem Expr.failsBy_holds (e : Expr) : FailsBy (e.holds s f) (e.Meets s f) := by
  refine e.failsBy_evaluate.before fun v _ => ?_
  split
  · exact failsBy_ok _
  · exact failsBy_fault _

/-- The index of a target is evaluated once its array is found. -/
theorem Target.failsBy_locate (t : Target) (m : Machine) :
    FailsBy (t.locate m.store f) (Meeting.target f t m) := by
  unfold locate Meeting.target
  cases t.index with
  | none => exact f.failsBy_place t.name
  | some e =>
    refine ((f.failsBy_arrayCell m.store t.name).behind fun i _ =>
      e.failsBy_evaluate.before fun k _ => m.store.failsBy_slot i k).congr fun z => ?_
    simp only [exists_and_right]

end

/-! ## Declarations

A variable starts with the number nearest to zero of its range. For a real that
is a double, and an integer bound may be too large for one.
-/

/-- **A declaration escapes just by its own hazard.** -/
theorem ScalarType.failsBy_initial (type : ScalarType) (m : Machine) :
    FailsBy type.initial (Meeting.declared (.scalar type) m) := by
  intro e he
  constructor
  · intro h
    unfold initial at h
    dsimp only at h
    split at h
    · split at h
      · cases h
      · cases h
        exact (Halt.not_escapes_of _ he).elim
    · -- there is nothing to start with only if that would be too large a bound
      rename_i hstart
      cases h
      split at hstart
      · cases hstart
      · rename_i range
        split at hstart
        · rename_i n hclamp
          split at hstart
          · rename_i negative hinf
            cases hstart
            have hlarge := (Format.double_ofInt_eq_infinity n).1 ⟨negative, hinf⟩
            exact ⟨.start range, rfl, n, hclamp, hlarge⟩
          · cases hstart
        · cases hstart
      · cases hstart
      · cases hstart
  -- only a real type with a range meets anything
  · rintro ⟨z, hz, hraises⟩
    cases type with
    | real range =>
      cases range with
      | some range =>
        obtain rfl : z = .start range := hz
        cases e with
        | boundTooLarge =>
          obtain ⟨n, hclamp, hlarge⟩ := hraises
          obtain ⟨negative, hinf⟩ := (Format.double_ofInt_eq_infinity n).2 hlarge
          simp only [initial, hclamp, hinf]
        | _ => exact hraises.elim
      | none => exact hz.elim
    | _ => exact hz.elim

/-- **A variable that is declared meets the start of its type**, if that is a
range of reals. -/
theorem Cell.failsBy_initial (type : DeclaredType) (m : Machine) :
    FailsBy (initial type) (Meeting.declared type m) := by
  cases type with
  | scalar type => exact (type.failsBy_initial m).map _
  | array bounds element => exact failsBy_ok _

end Shank
