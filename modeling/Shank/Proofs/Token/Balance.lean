/-
# The balance of tokens

How many more `INDENT`s than `DEDENT`s there are in a list of tokens. The lexer
makes the balance of what it has given the depth of the line; the parser keeps
it as its level.

Both are told by this one function, so what the parser finds at the end of the
tokens can be compared with the depth that the lexer has come to.
-/

import Shank.Parse.Cursor
import Mathlib.Algebra.BigOperators.Group.List.Basic
import Mathlib.Algebra.Ring.Int.Defs
import Mathlib.Data.Nat.Basic

namespace Shank

/-- `INDENT` tokens less `DEDENT` tokens. -/
def Token.balance (ts : List Token) : Int :=
  (ts.map Token.levelChange).sum

/-- The balance of tokens adds up. -/
theorem Token.balance_append (ts us : List Token) :
    balance (ts ++ us) = balance ts + balance us := by
  simp [balance]

/-- The balance of one token several times. -/
theorem Token.balance_replicate (n : Nat) (t : Token) :
    balance (List.replicate n t) = n * t.levelChange := by
  induction n with
  | zero => simp [balance]
  | succ n ih =>
    rw [List.replicate_succ, ← List.singleton_append, balance_append, ih]
    simp only [balance, List.map_cons, List.map_nil, List.sum_singleton]
    push_cast
    rw [Int.add_mul, Int.one_mul, Int.add_comm]

/-- Tokens that change no level have no balance. -/
theorem Token.balance_eq_zero {ts : List Token} (h : ∀ t ∈ ts, t.levelChange = 0) :
    balance ts = 0 := by
  refine List.sum_eq_zero fun n hn => ?_
  obtain ⟨t, ht, rfl⟩ := List.mem_map.1 hn
  exact h t ht

/-- The balance counts these two kinds. -/
theorem Token.balance_eq_countP (ts : List Token) :
    balance ts = (ts.countP (·.kind = .indent) : Int) - ts.countP (·.kind = .dedent) := by
  induction ts with
  | nil => rfl
  | cons t ts ih =>
    rw [← List.singleton_append, balance_append, ih, List.countP_append, List.countP_append]
    obtain ⟨kind, text, line, column⟩ := t
    cases kind <;> simp [balance, levelChange] <;> omega

/-- Only `INDENT` and `DEDENT` change the level. -/
theorem Token.levelChange_eq_zero {t : Token} (h : t.kind ≠ .indent) (h' : t.kind ≠ .dedent) :
    t.levelChange = 0 := by
  unfold levelChange
  split
  · contradiction
  · contradiction
  · rfl

end Shank
