/-
# An assignment is all or nothing

An assignment looks its target up, evaluates its value, converts the text of
that, and only then stores something. So whatever goes wrong is known before
anything is changed.

| what goes wrong | what is left |
| --- | --- |
| the name is that of a constant | the machine as it was |
| the target or the value cannot be made out | the machine as it was |
| the text does not convert, or is out of range; the target is a whole array | the machine, a step later |
| nothing | one scalar is another one, and a step is taken |

The scalars of a store are its scalar variables and the items of its arrays
(`Store.HasScalar`). What the target stands for was looked up in the store as it
was before, and is one of them; all others keep what they hold, those of the
same array too (`Store.Sets`).
-/

import Shank.Proofs.Run.Complete
import Shank.Proofs.Run.Storing

namespace Shank

namespace Store

/-! ## One scalar of a store

A scalar stands in a cell of its own or in a slot of an array, so setting it
changes no other scalar. An array as a whole is no scalar, and no text can be
stored there.
-/

/-- A place holds a scalar: it is a scalar variable, or an item of an array. -/
def HasScalar (s : Store) (q : Place) : Prop :=
  q.cell < s.cells.size ∧
    match s.cell q.cell, q.slot with
    | .scalar _ _, none => True
    | .array _ _ items, some k => k < items.size
    | _, _ => False

/-- From `s` to `t` the scalar at `q` becomes `v`, and nothing else changes. -/
structure Sets (s t : Store) (q : Place) (v : Scalar) : Prop where
  was : s.HasScalar q
  get_self : t.get q = .scalar v
  /-- All other scalars are what they were. -/
  get_eq : ∀ r, r ≠ q → s.HasScalar r → t.get r = s.get r
  /-- There are no more and no less of them. -/
  hasScalar_iff : ∀ r, t.HasScalar r ↔ s.HasScalar r
  /-- No cell is added, and each has the range, or the bounds and elements, that
  it had. -/
  size_eq : t.cells.size = s.cells.size
  type_eq : ∀ i, (t.cell i).type = (s.cell i).type

variable {s : Store} {q r : Place} {v : Scalar}

/-- No two scalars share a place, not even in part. -/
theorem HasScalar.eq_of_covers (hq : s.HasScalar q) (hr : s.HasScalar r) (h : q.covers r) : r = q := by
  obtain ⟨i, k⟩ := q
  obtain ⟨j, l⟩ := r
  obtain ⟨rfl, hslot⟩ : i = j ∧ (k = none ∨ k = l) := h
  rcases hslot with rfl | rfl
  · -- a variable that is no array has no slots
    obtain ⟨-, hq⟩ := hq
    obtain ⟨-, hr⟩ := hr
    dsimp only at hq hr
    cases hc : s.cell i with
    | array bounds element items =>
      rw [hc] at hq
      exact hq.elim
    | scalar type w =>
      rw [hc] at hr
      cases l with
      | none => rfl
      | some l => exact hr.elim
  · rfl

/-- A scalar that is stored is what is there then. -/
theorem HasScalar.get_put_self (hq : s.HasScalar q) (v : Scalar) : (s.put q v).get q = .scalar v := by
  obtain ⟨hlt, hcell⟩ := hq
  unfold get
  rw [cell_put_self hlt]
  cases hc : s.cell q.cell with
  | scalar type w =>
    rw [hc] at hcell
    cases hslot : q.slot with
    | none => rfl
    | some k =>
      rw [hslot] at hcell
      exact hcell.elim
  | array bounds element items =>
    rw [hc] at hcell
    cases hslot : q.slot with
    | none =>
      rw [hslot] at hcell
      exact hcell.elim
    | some k =>
      rw [hslot] at hcell
      -- a slot that holds a scalar is one of the array
      have hk : k < items.size := hcell
      simp [Cell.put, hk]

/-- Storing moves no scalars: an array stays as long as it was, and a variable
stays of its kind. -/
theorem hasScalar_put (s : Store) (q : Place) (v : Scalar) (r : Place) :
    (s.put q v).HasScalar r ↔ s.HasScalar r := by
  unfold HasScalar
  rw [size_put]
  refine and_congr_right fun hr => ?_
  by_cases hcell : q.cell = r.cell
  · rw [← hcell, cell_put_self (hcell ▸ hr)]
    cases s.cell q.cell with
    | scalar type w => cases q.slot <;> cases r.slot <;> rfl
    | array bounds element items => cases q.slot <;> cases r.slot <;> simp [Cell.put]
  · rw [cell_put_of_ne hcell]

/-- **To store at a scalar is to set that one.** -/
theorem HasScalar.sets_put (hq : s.HasScalar q) (v : Scalar) : s.Sets (s.put q v) q v where
  was := hq
  get_self := hq.get_put_self v
  get_eq _ hne hr := get_put (fun hcovers => hne (hq.eq_of_covers hr hcovers)) v
  hasScalar_iff := hasScalar_put s q v
  size_eq := size_put s q v
  type_eq := type_cell_put s q v

end Store

/-- The frame binds its names to whole variables of the store. -/
def Frame.Binds (f : Frame) (s : Store) : Prop :=
  ∀ name q, f.find? name = some q → q.slot = none ∧ q.cell < s.cells.size

/-- **A target at which a text can be stored is a scalar**: one that is no item
is no whole array either, as that takes no text. -/
theorem Target.hasScalar_of_locate {s : Store} {f : Frame} {t : Target} {q : Place} {text : String}
    {v : Scalar} (hs : s.Fits) (hf : f.Binds s) (hq : t.locate s f = .ok q)
    (hv : s.reading q text = .ok v) : s.HasScalar q := by
  unfold locate at hq
  split at hq
  · obtain ⟨hslot, hlt⟩ := hf _ q (Frame.place_ok hq)
    refine ⟨hlt, ?_⟩
    unfold Store.reading Store.typeAt? at hv
    rw [hslot] at hv ⊢
    cases hc : s.cell q.cell with
    | scalar type w => trivial
    | array bounds element items =>
      rw [hc] at hv
      cases hv
  -- an item was found by an index that the bounds of its array allow
  · obtain ⟨i, -, hrest⟩ := Except.bind_ok hq
    obtain ⟨k, -, hslot⟩ := Except.bind_ok hrest
    obtain ⟨bounds, element, items, j, hc, rfl, hj⟩ := Store.slot_ok hs hslot
    have hi : i < s.cells.size := Store.lt_size_of_tag (by rw [hc]; rfl)
    refine ⟨hi, ?_⟩
    dsimp only
    rw [hc]
    exact hj

/-- An assignment is carried out: its target, which is no constant, stands for
`q`, and `v` is what the text of its value converts to there. -/
structure Target.Takes (s : Store) (f : Frame) (t : Target) (e : Expr) (q : Place) (v : Scalar) :
    Prop where
  isConstant : f.isConstant t.name = false
  locate : t.locate s f = .ok q
  read : ∃ x type, e.evaluate s f = .ok x ∧ s.typeAt? q = some type ∧ type.read (s.text x) = .ok v

/-- A target takes one scalar at one place, since both are computed from the
store and the frame. -/
theorem Target.Takes.unique {s : Store} {f : Frame} {t : Target} {e : Expr} {q q' : Place}
    {v v' : Scalar} (h : t.Takes s f e q v) (h' : t.Takes s f e q' v') : q' = q ∧ v' = v := by
  obtain ⟨-, hq, x, type, hx, htype, hread⟩ := h
  obtain ⟨-, hq', x', type', hx', htype', hread'⟩ := h'
  obtain rfl := Except.ok.inj (hq'.symm.trans hq)
  obtain rfl := Except.ok.inj (hx'.symm.trans hx)
  obtain rfl := Option.some.inj (htype'.symm.trans htype)
  exact ⟨rfl, Except.ok.inj (hread'.symm.trans hread)⟩

/-- A text converts at a place if the type there reads it. -/
theorem Store.reading_ok {s : Store} {q : Place} {text : String} {v : Scalar} :
    s.reading q text = .ok v ↔ ∃ type, s.typeAt? q = some type ∧ type.read text = .ok v := by
  unfold reading
  cases s.typeAt? q with
  | none => simp
  | some type => simp

namespace Run

variable {f : Frame} {t : Target} {e : Expr} {m m' : Machine}

/-- What an assignment comes to: it looks up, evaluates, and stores the text. -/
theorem assign_apply (f : Frame) (t : Target) (e : Expr) (m : Machine) :
    assign f t e m =
      if f.isConstant t.name then .error (.of (.constantAssigned t.name)) m
      else match t.locate m.store f with
        | .error h => .error h m
        | .ok q => match e.evaluate m.store f with
          | .error h => .error h m
          | .ok x => write q (m.store.text x) m := by
  unfold assign
  split
  · rfl
  · rw [bind_eq (x := store) rfl]
    cases t.locate m.store f with
    | error h => rfl
    | ok q =>
      cases e.evaluate m.store f with
      | error h => rfl
      | ok x => rfl

/-- An assignment that fails has changed nothing. -/
theorem assign_error {h : Halt} (he : assign f t e m = .error h m') : ∃ steps, m' = { m with steps } := by
  rw [assign_apply] at he
  split at he
  · cases he
    exact ⟨m.steps, rfl⟩
  · split at he
    · cases he
      exact ⟨m.steps, rfl⟩
    · split at he
      · cases he
        exact ⟨m.steps, rfl⟩
      · rw [write_apply] at he
        split at he
        · cases he
          exact ⟨m.steps, rfl⟩
        · split at he
          · cases he
          · cases he
            exact ⟨_, rfl⟩

/-- One that is carried out has stored a scalar at its target. The cases are
those of the table above, and all but the last have failed. -/
theorem assign_ok (he : assign f t e m = .ok () m') :
    ∃ q v, t.Takes m.store f e q v ∧ ∃ steps, m' = { m with store := m.store.put q v, steps } := by
  rw [assign_apply] at he
  split at he
  · cases he
  · rename_i hconstant
    split at he
    · cases he
    · rename_i q hq
      split at he
      · cases he
      · rename_i x hx
        rw [write_apply] at he
        split at he
        · cases he
        · rename_i steps hsteps
          split at he
          · rename_i v hv
            cases he
            obtain ⟨type, htype, hread⟩ := Store.reading_ok.1 hv
            exact ⟨q, v, ⟨by simpa using hconstant, hq, x, type, hx, htype, hread⟩, steps, rfl⟩
          · cases he

/-- One that can be carried out is, if there is a step for it. -/
theorem assign_of_takes {q : Place} {v : Scalar} (h : t.Takes m.store f e q v) (hsteps : 0 < m.steps) :
    ∃ m', assign f t e m = .ok () m' := by
  obtain ⟨hconstant, hq, x, type, hx, htype, hread⟩ := h
  have hv : m.store.reading q (m.store.text x) = .ok v := Store.reading_ok.2 ⟨type, htype, hread⟩
  obtain ⟨steps, hsteps⟩ := Nat.exists_eq_add_of_lt hsteps
  rw [Nat.zero_add] at hsteps
  rw [assign_apply, hconstant, hq, hx]
  simp only [Bool.false_eq_true, if_false, write_apply, hsteps, hv]
  exact ⟨_, rfl⟩

/-- An assignment is run if there is room for it. -/
theorem statement_assign (setting : Setting) (room : Nat) (stack : List String) (f : Frame) (line : Nat)
    (t : Target) (e : Expr) (m : Machine) :
    statement setting room stack f (.assign line t e) m =
      if room < (Stmt.assign line t e).headDepth + 5 then .error .tooDeep m else assign f t e m := by
  rcases Nat.lt_or_ge room 5 with hroom | hroom
  · rw [statement_of_lt hroom, if_pos (by omega)]
    rfl
  · obtain ⟨room, rfl⟩ := Nat.exists_eq_add_of_le' hroom
    rw [statement_eq, level]
    by_cases hdepth : room < (Stmt.assign line t e).headDepth
    · rw [if_pos hdepth, if_pos (by omega)]
      rfl
    · rw [if_neg hdepth, if_neg (by omega)]

end Run

namespace Program

/-- The frames of a run bind their names to whole variables of its store. -/
theorem binds_reached (p : Program) (entry input : String) (limits : Limits) (random : Random) (n : Nat)
    {a : Activation} (ha : a ∈ (p.reached entry input limits random n).activations) :
    a.frame.Binds (p.reached entry input limits random n).store :=
  fun name q hq => ⟨p.whole_reached entry input limits random n a ha name q hq,
    (p.sealed_reached entry input limits random n).inside a ha name q hq⟩

/-- **An assignment is all or nothing, and touches one scalar.** Take the store
of any moment of a run, and the frame of any function that was entered by then.
An assignment that is run there and fails, for whatever reason, has changed
nothing. If it does not fail, then the scalar that its target stood for has
become what the text of the value converts to for it, and all else in the store
is what it was, other items of the same array included. And it does not fail if
there is a scalar to convert to, and room and a step for it. -/
theorem assign_sets (p : Program) (entry input : String) (limits : Limits) (random : Random) (n : Nat)
    {a : Activation} (ha : a ∈ (p.reached entry input limits random n).activations) {m : Machine}
    (hm : m.store = (p.reached entry input limits random n).store) (setting : Setting) (room : Nat)
    (stack : List String) (line : Nat) (t : Target) (e : Expr) :
    let assigned := Run.statement setting room stack a.frame (.assign line t e) m
    (∀ h m', assigned = .error h m' → ∃ steps, m' = { m with steps }) ∧
    (∀ m', assigned = .ok () m' → ∃ q v, t.Takes m.store a.frame e q v ∧
      m.store.Sets m'.store q v ∧ ∃ steps, m' = { m with store := m'.store, steps }) ∧
    ∀ q v, t.Takes m.store a.frame e q v → (Stmt.assign line t e).headDepth + 5 ≤ room →
      0 < m.steps → ∃ m', assigned = .ok () m' := by
  intro assigned
  have hassigned : assigned = _ := Run.statement_assign setting room stack a.frame line t e m
  have hfits : m.store.Fits := hm ▸ (leads_reached entry input limits random n).fits fun _ => trivial
  have hbinds : a.frame.Binds m.store := hm ▸ p.binds_reached entry input limits random n ha
  rw [hassigned]
  refine ⟨fun h m' he => ?_, fun m' he => ?_, fun q v htakes hroom hsteps => ?_⟩
  · split at he
    · cases he
      exact ⟨m.steps, rfl⟩
    · exact Run.assign_error he
  · split at he
    · cases he
    · obtain ⟨q, v, htakes, steps, rfl⟩ := Run.assign_ok he
      -- the target is a scalar, as a text was stored there
      obtain ⟨x, type, -, htype, hread⟩ := htakes.read
      have hq := t.hasScalar_of_locate hfits hbinds htakes.locate
        (Store.reading_ok.2 ⟨type, htype, hread⟩)
      exact ⟨q, v, htakes, hq.sets_put v, steps, rfl⟩
  · rw [if_neg (by omega)]
    exact Run.assign_of_takes htakes hsteps

/-- The hypotheses of `assign_sets` are satisfiable: after the item at 2 was
stored, the one at 3 is made one more than that. -/
theorem assign_sets_item :
    let r := itemProgram.reached "main" "" {} {} 3
    let m : Machine := { r with steps := 5 }
    let literal (n : Int) : Expr := .literal 4 (.integer n)
    let t : Target := ⟨4, "a", some (literal 3)⟩
    let e : Expr := .arithmetic 4 .add (.element 4 "a" (literal 2)) (literal 1)
    ∃ a ∈ r.activations, ∃ m',
      Run.statement ⟨itemProgram, {}⟩ 40 ["main"] a.frame (.assign 4 t e) m = .ok () m' ∧
        m.store.Sets m'.store ⟨0, some 1⟩ (.integer 8) := by
  intro r m literal t e
  have hframes : r.activations.map Activation.frame = [{ bindings := [("a", ⟨0, none⟩)] }] := by
    decide +kernel
  obtain ⟨a, ha, hframe⟩ : ∃ a ∈ r.activations, a.frame = { bindings := [("a", ⟨0, none⟩)] } :=
    List.mem_map.1 (by rw [hframes]; exact List.mem_singleton_self _)
  obtain ⟨-, hok, hprogress⟩ :=
    itemProgram.assign_sets "main" "" {} {} 3 ha (m := m) rfl ⟨itemProgram, {}⟩ 40 ["main"] 4 t e
  -- the value is 7, the item at 2, and one
  have htakes : t.Takes m.store a.frame e ⟨0, some 1⟩ (.integer 8) := by
    rw [hframe]
    exact ⟨rfl, by decide +kernel, .scalar (.integer 8), .integer none, by decide +kernel,
      by decide +kernel, by decide +kernel⟩
  obtain ⟨m', hm'⟩ := hprogress _ _ htakes (by decide) (by decide)
  obtain ⟨q, v, htakes', hsets, -⟩ := hok m' hm'
  obtain ⟨rfl, rfl⟩ := htakes.unique htakes'
  exact ⟨a, ha, m', hm', hsets⟩

end Program
end Shank
