/-
# Values of expressions

What a variable holds was checked when it was stored. The value of an expression
need not be stored at all, and is checked all the same: an integer is one of 64
bits, be it a literal, the content of a variable or what an operator made
(`Expr.evaluate_fits`).

The induction is on the expression. A variable gives what its cell holds, and
that fits as the store does; an item past the end of an array would be the start
of its kind, which fits too, so bounds need not be known here. An operator
checks what it makes.
-/

import Shank.Run.Evaluate
import Shank.Proofs.Store.Update
import Shank.Proofs.Sequencing

namespace Shank

/-- A value as expressions may have it: a scalar that a variable without a range
may hold, or an array that is there. -/
def Operand.Fits (s : Store) : Operand → Prop
  | .scalar v => (ScalarType.ofKind v.kind).Holds v
  | .array i => i < s.cells.size ∧ (s.cell i).type.tag = .array

/-- A scalar keeps within its kind when its range is forgotten. -/
theorem ScalarType.Holds.plain {type : ScalarType} {v : Scalar} (h : type.Holds v) :
    (ofKind v.kind).Holds v := by
  cases type <;> cases v <;> first | exact h.elim | skip
  case integer.integer => exact ⟨h.1, h.2.1, fun _ hr => (nomatch hr)⟩
  case real.real => exact fun _ hr => (nomatch hr)
  case string.string => exact fun _ hr => (nomatch hr)
  case character.character => exact h
  case boolean.boolean => trivial

namespace Store

/-- What is typed as an array is in the store: a cell that is not there is of no
such type. -/
theorem lt_size_of_tag {s : Store} {i : Nat} (h : (s.cell i).type.tag = .array) :
    i < s.cells.size := by
  by_contra hi
  rw [cell_of_le (Nat.le_of_not_lt hi)] at h
  cases h

/-- What is at a place of a store that fits is a value that fits. Beyond the end
of an array there is the initial value of its elements, which fits as well. -/
theorem Fits.get {s : Store} (h : s.Fits) (q : Place) : (s.get q).Fits s := by
  have hc := h q.cell
  cases he : s.cell q.cell with
  | scalar type v =>
    rw [he] at hc
    simp only [Store.get, he]
    exact hc.plain
  | array bounds element items =>
    rw [he] at hc
    -- the whole array, or one of its items
    cases hs : q.slot with
    | none =>
      have htag : (s.cell q.cell).type.tag = .array := by rw [he]; rfl
      simp only [Store.get, he, hs]
      exact ⟨lt_size_of_tag htag, htag⟩
    | some k =>
      simp only [Store.get, he, hs, Array.getD_eq_getD_getElem?]
      cases hk : items[k]? with
      | none =>
        rw [Option.getD_none]
        exact (ScalarType.holds_initial element).plain
      | some v =>
        rw [Option.getD_some]
        exact (hc.2 v (Array.mem_of_getElem? hk)).plain

end Store

/-- A literal that was evaluated is within the range of its type. -/
theorem Scalar.evaluate_fits {v w : Scalar} (h : v.evaluate = .ok w) :
    (ScalarType.ofKind w.kind).Holds w := by
  unfold evaluate at h
  split at h
  · rename_i hc
    cases h
    exact (ScalarType.holds_of_check (ScalarType.kind_ofKind _).symm hc).plain
  · cases h

namespace Operand

/-- **What an operator makes of two operands fits.** Integers are checked after
the operator, and all reals fit. -/
theorem fits_of_arithmetic {s : Store} {op : ArithOp} {a b : Operand} {v : Scalar}
    (h : arithmetic s op a b = .ok v) : (ScalarType.ofKind v.kind).Holds v := by
  unfold arithmetic at h
  split at h
  · cases h
    exact fun _ hr => (nomatch hr)
  · split at h
    · simp only [integerArithmetic] at h
      split at h
      · rename_i hc
        cases h
        obtain ⟨n, _, hn⟩ := Except.bind_ok hc
        exact (ScalarType.holds_of_check rfl hn).plain
      · cases h
    -- no real is out of the range of a type that has none
    · have real {x : Ieee} : (ScalarType.ofKind (Scalar.real x).kind).Holds (.real x) :=
        fun _ hr => (nomatch hr)
      unfold realArithmetic at h
      cases op <;> dsimp only at h
      case add | sub | mul => cases h; exact real
      case div => split at h <;> cases h; exact real
      case mod =>
        split at h
        · cases h
        · split at h <;> cases h
          exact real
    · cases h

end Operand

/-- **The value of an expression fits**, in every frame over a store that fits.
What is in the store fits as it is; what is made by an operator was checked. -/
theorem Expr.evaluate_fits {s : Store} (hs : s.Fits) {f : Frame} {e : Expr} {v : Operand}
    (h : e.evaluate s f = .ok v) : v.Fits s := by
  cases e with
  | literal _ w =>
    obtain ⟨x, hx, rfl⟩ := Except.map_ok h
    exact Scalar.evaluate_fits hx
  | var _ name =>
    obtain ⟨q, _, rfl⟩ := Except.map_ok h
    exact hs.get q
  | element _ name index =>
    obtain ⟨_, _, hrest⟩ := Except.bind_ok h
    obtain ⟨_, _, hslot⟩ := Except.bind_ok hrest
    obtain ⟨q, _, rfl⟩ := Except.map_ok hslot
    exact hs.get q
  | arithmetic _ op left right =>
    obtain ⟨_, _, hrest⟩ := Except.bind_ok h
    obtain ⟨_, _, hop⟩ := Except.bind_ok hrest
    obtain ⟨x, hx, rfl⟩ := Except.map_ok hop
    exact Operand.fits_of_arithmetic hx
  | comparison _ op left right =>
    obtain ⟨_, _, hrest⟩ := Except.bind_ok h
    obtain ⟨_, _, hop⟩ := Except.bind_ok hrest
    obtain ⟨_, _, rfl⟩ := Except.map_ok hop
    exact trivial

end Shank
