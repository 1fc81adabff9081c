/-
# What storing a text comes to

To store a text takes a step. Then the text is converted for the place, in the
store as it is: if it converts, the scalar it stands for is stored there; if it
does not, nothing is, and the cause is told. Of the machine nothing else is
changed.

This is where a run may change what a variable holds, so it is told once and in
full: what comes of it if there is a step (`tryWrite_apply`), and that it takes
no more than that (`tryWrite_ends`). Assignments, built-in functions and loops
are told by it.
-/

import Shank.Proofs.Run.Steady

namespace Shank
namespace Run

/-- What storing a text comes to, if there is a step for it. -/
theorem tryWrite_apply (q : Place) (text : String) {m : Machine} {steps : Nat}
    (h : m.steps = steps + 1) :
    tryWrite q text m = match m.store.reading q text with
      | .ok v => .ok none { m with store := m.store.put q v, steps }
      | .error c => .ok (some c) { m with steps } := by
  have htick : tick m = .ok () { m with steps } := by
    simp only [tick, h]
  rw [tryWrite, bind_eq htick, modifyGet_apply]
  dsimp only
  cases m.store.reading q text <;> rfl

/-- A text that was stored was one that fits; one that does not fit changed
nothing. -/
theorem tryWrite_ok {q : Place} {text : String} {m m' : Machine} {o : Option Cause}
    (h : tryWrite q text m = .ok o m') :
    m'.events = m.events ∧ m'.input = m.input ∧
      ((∃ v, o = none ∧ m.store.reading q text = .ok v ∧ m'.store = m.store.put q v) ∨
        ∃ c, o = some c ∧ m.store.reading q text = .error c ∧ m'.store = m.store) := by
  cases hsteps : m.steps with
  | zero =>
    rw [tryWrite, bind_apply] at h
    simp only [tick, hsteps] at h
    cases h
  | succ steps =>
    rw [tryWrite_apply q text hsteps] at h
    cases hreading : m.store.reading q text with
    | ok v =>
      rw [hreading] at h
      cases h
      exact ⟨rfl, rfl, .inl ⟨v, rfl, rfl, rfl⟩⟩
    | error c =>
      rw [hreading] at h
      cases h
      exact ⟨rfl, rfl, .inr ⟨c, rfl, rfl, rfl⟩⟩

/-- Storing a text takes one step. -/
theorem tryWrite_ends (q : Place) (text : String) (m : Machine) :
    (∃ o m', tryWrite q text m = .ok o m' ∧ m.steps ≤ m'.steps + 1) ∨
      m.steps = 0 ∧ ∃ m', tryWrite q text m = .error .unfinished m' := by
  cases hsteps : m.steps with
  | zero =>
    refine .inr ⟨rfl, m, ?_⟩
    rw [tryWrite, bind_apply]
    simp only [tick, hsteps]
  | succ steps =>
    rw [tryWrite_apply q text hsteps]
    cases m.store.reading q text with
    | ok v => exact .inl ⟨_, _, rfl, le_rfl⟩
    | error c => exact .inl ⟨_, _, rfl, le_rfl⟩

/-- Storing a text that has to convert. -/
theorem write_apply (q : Place) (text : String) (m : Machine) :
    write q text m = match m.steps with
      | 0 => .error .unfinished m
      | steps + 1 => match m.store.reading q text with
        | .ok v => .ok () { m with store := m.store.put q v, steps }
        | .error c => .error (.of c) { m with steps } := by
  unfold write
  cases hsteps : m.steps with
  | zero =>
    rw [bind_apply, tryWrite, bind_apply]
    simp only [tick, hsteps]
  | succ steps =>
    rw [bind_apply, tryWrite_apply q text hsteps]
    dsimp only
    cases m.store.reading q text <;> rfl

end Run
end Shank
