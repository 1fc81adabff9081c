/-
# How far a parser gets

A parser never goes back in the tokens, and its level is the balance of those it
has taken, also where it fails (`Advances`). It blames nothing on the level
(`Spares`): only the end of the tokens shows whether that is right.

Functions are parsed until one of them fails or the tokens end. As each of them
takes a token, there are rounds enough; so if none fails, every token is taken,
and the level at the end is the balance of all of them (`Parsing.stop_eq`).
-/

import Shank.Proofs.Parse.Compositional

namespace Shank

/-- A fault that is blamed on the level. -/
def ParseHalt.IsUnbalanced : ParseHalt → Prop
  | fault e => e.problem.IsUnbalanced
  | _ => False

namespace Parse

open Token (balance)

variable {α β : Type}

/-- Where a parser stops, whether it fails or not. -/
def stop : EStateM.Result ParseHalt Cursor α → Cursor
  | .ok _ c => c
  | .error _ c => c

/-! ## Positions

A parser on a token stream is always at a position of it: the tokens in front of
it are taken, their balance is its level, and this is so where it fails as well.
It holds of each piece of a parser and is kept in a row, so it holds of all of
them by `Compositional`.
-/

/-- A parser at a position of a token stream stops at a later position of it. -/
def Advances (x : Parse α) : Prop :=
  ∀ tokens i, ∃ j, i ≤ j ∧ stop (x (cursor tokens i)) = cursor tokens j

/-- What does not move the cursor advances, by nothing. -/
theorem advances_of_still {x : Parse α} (h : ∀ c, stop (x c) = c) : Advances x :=
  fun _ i => ⟨i, le_rfl, h _⟩

/-- Two parsers in a row advance if each of them does. The first one may fail:
then this is where both stop. -/
theorem Advances.bind {x : Parse α} {f : α → Parse β} (hx : Advances x)
    (hf : ∀ a, Advances (f a)) : Advances (x >>= f) := by
  intro tokens i
  obtain ⟨j, hij, hj⟩ := hx tokens i
  rw [bind_apply]
  cases hr : x (cursor tokens i) with
  | error e c =>
    rw [hr] at hj
    exact ⟨j, hij, hj⟩
  | ok a c =>
    rw [hr] at hj
    obtain rfl : c = cursor tokens j := hj
    obtain ⟨k, hjk, hk⟩ := hf a tokens j
    exact ⟨k, hij.trans hjk, hk⟩

/-- To skip a token advances, by one at most. -/
theorem advances_skip : Advances skip := by
  intro tokens i
  cases h : tokens[i]? with
  | none =>
    refine ⟨i, le_rfl, ?_⟩
    simp only [skip, rest_eq_nil h, stop]
  | some t =>
    refine ⟨i + 1, Nat.le_succ i, ?_⟩
    rw [skip_cursor h, stop]

/-- To take a token of some kind advances. -/
theorem advances_take? (kind : Token.Kind) : Advances (take? kind) := by
  intro tokens i
  rcases take?_cursor tokens i kind with ⟨t, -, -, htake⟩ | htake
  · exact ⟨i + 1, Nat.le_succ i, by rw [htake, stop]⟩
  · exact ⟨i, le_rfl, by rw [htake, stop]⟩

/-- To skip line ends advances. -/
theorem advances_skipLineEnds : Advances skipLineEnds := by
  intro tokens i
  obtain ⟨j, hij, hj, -⟩ := flat_skipLineEnds tokens i () _ rfl
  exact ⟨j, hij, hj⟩

/-- **Every parser advances**, since all of them are put together from these. -/
theorem compositional_advances : Compositional Advances where
  pure _ := advances_of_still fun _ => rfl
  bind := Advances.bind
  peek := advances_of_still fun _ => rfl
  at_ _ := advances_of_still fun _ => rfl
  skip := advances_skip
  take? := advances_take?
  skipLineEnds := advances_skipLineEnds
  remaining := advances_of_still fun _ => rfl
  failAt _ _ := advances_of_still fun _ => rfl
  numeral _ := advances_of_still fun _ => rfl
  tooDeep := advances_of_still fun _ => rfl

/-- A token that has to come is taken. -/
theorem expect_cursor {tokens : List Token} {i : Nat} {kind : Token.Kind} {item : Item} {t : Token}
    {c : Cursor} (h : expect kind item (cursor tokens i) = .ok t c) :
    i < tokens.length ∧ c = cursor tokens (i + 1) := by
  obtain ⟨o, c₁, htake, hrest⟩ := bind_ok h
  rcases take?_cursor tokens i kind with ⟨u, hu, -, hok⟩ | hok
  · rw [hok] at htake
    cases htake
    cases hrest
    exact ⟨(List.getElem?_eq_some_iff.1 hu).1, rfl⟩
  · rw [hok] at htake
    cases htake
    cases hrest

/-- A function takes a token. -/
theorem function_cursor {room : Nat} {tokens : List Token} {i : Nat} {f : Function} {c : Cursor}
    (h : function room (cursor tokens i) = .ok f c) : ∃ j, i < j ∧ c = cursor tokens j := by
  rw [function_eq] at h
  obtain ⟨start, c₁, hstart, hrest⟩ := bind_ok h
  obtain ⟨-, rfl⟩ := expect_cursor hstart
  obtain ⟨j, hij, hj⟩ := compositional_advances.functionAfter room start tokens (i + 1)
  rw [hrest] at hj
  exact ⟨j, hij, hj⟩

/-! ## Blame

Every fault but one is made where a token is looked at. The one that tells a
level is made at the end of the tokens only, so no parser of a part of a program
makes it.
-/

/-- A parser that does not fail because of the level. -/
def Spares (x : Parse α) : Prop :=
  ∀ c h c', x c = .error h c' → ¬h.IsUnbalanced

/-- What does not fail blames nothing on the level. -/
theorem spares_of_ok {x : Parse α} (h : ∀ c, ∃ a c', x c = .ok a c') : Spares x := by
  intro c e c' he
  obtain ⟨a, c'', ha⟩ := h c
  rw [ha] at he
  cases he

/-- What fails for another reason does not blame it on the level. -/
theorem spares_throw {h : ParseHalt} (hh : ¬h.IsUnbalanced) : Spares (throw h : Parse α) := by
  rintro c _ _ ⟨⟩
  exact hh

/-- Two parsers in a row spare the level if each of them does. -/
theorem Spares.bind {x : Parse α} {f : α → Parse β} (hx : Spares x) (hf : ∀ a, Spares (f a)) :
    Spares (x >>= f) := by
  intro c h c' he
  rw [bind_apply] at he
  cases hr : x c with
  | ok a c₁ =>
    rw [hr] at he
    exact hf a c₁ h c' he
  | error e c₁ =>
    rw [hr] at he
    cases he
    exact hx c h c' hr

/-- To skip a token does not fail. -/
theorem spares_skip : Spares skip := by
  refine spares_of_ok fun ⟨rest, level⟩ => ?_
  cases rest with
  | nil => exact ⟨_, _, rfl⟩
  | cons t rest => exact ⟨_, _, rfl⟩

/-- To take a token of some kind does not fail. -/
theorem spares_take? (kind : Token.Kind) : Spares (take? kind) := by
  refine spares_of_ok fun ⟨rest, level⟩ => ?_
  cases rest with
  | nil => exact ⟨_, _, rfl⟩
  | cons t rest =>
    unfold take?
    dsimp only
    split
    · exact ⟨_, _, rfl⟩
    · exact ⟨_, _, rfl⟩

/-- **No parser blames the level**: the only fault that does is made at the end
of the tokens. -/
theorem compositional_spares : Compositional Spares where
  pure _ := spares_of_ok fun _ => ⟨_, _, rfl⟩
  bind := Spares.bind
  peek := spares_of_ok fun _ => ⟨_, _, rfl⟩
  at_ _ := spares_of_ok fun _ => ⟨_, _, rfl⟩
  skip := spares_skip
  take? := spares_take?
  skipLineEnds := spares_of_ok fun _ => ⟨_, _, rfl⟩
  remaining := spares_of_ok fun _ => ⟨_, _, rfl⟩
  failAt _ hp := spares_throw hp
  numeral _ := spares_throw id
  tooDeep := spares_throw id

end Parse

open Parse

namespace Parsing

variable {tokens : List Token} {room : Nat}

/-! ## All functions

The loop over the functions has a round for each token that was left when it
began, and each function takes a token. So it stops for want of tokens, or
because of a fault, and never for want of rounds.
-/

/-- A round of parsing goes on behind the function it parses, and the line ends
after it. -/
theorem round_cursor {i : Nat} {f : Function} {c : Cursor}
    (h : (do let f ← function room; skipLineEnds; pure f : Parse Function) (cursor tokens i) =
      .ok f c) : ∃ j, i < j ∧ c = cursor tokens j := by
  obtain ⟨g, c₁, hg, hrest⟩ := bind_ok h
  obtain ⟨u, c₂, hskip, hpure⟩ := bind_ok hrest
  cases hpure
  obtain ⟨j, hij, rfl⟩ := function_cursor hg
  obtain ⟨k, hjk, hk⟩ := advances_skipLineEnds tokens j
  rw [hskip] at hk
  exact ⟨k, hij.trans_le hjk, hk⟩

/-- Rounds that are as many as the tokens left take them all, unless one fails.
The induction is on the rounds, and each function takes at least a token. -/
theorem stop_functionsFrom (room : Nat) (rounds : List Token) {i : Nat}
    (hrounds : tokens.length ≤ i + rounds.length)
    (h : (functionsFrom room rounds (cursor tokens i)).halt = none) :
    (functionsFrom room rounds (cursor tokens i)).stop = ⟨[], Token.balance tokens⟩ := by
  have hend {j : Nat} (hj : tokens.length ≤ j) : cursor tokens j = ⟨[], Token.balance tokens⟩ := by
    rw [cursor, List.drop_eq_nil_of_le hj, List.take_of_length_le hj]
  induction rounds generalizing i with
  | nil => exact hend hrounds
  | cons _ rounds ih =>
    unfold functionsFrom at h ⊢
    split at h
    · rename_i hrest
      rw [if_pos hrest]
      refine hend ?_
      have hnil : tokens.drop i = [] := List.isEmpty_iff.1 hrest
      exact List.drop_eq_nil_iff.1 hnil
    · rename_i hrest
      rw [if_neg hrest]
      split at h
      · rename_i f c hf
        -- a function ends at a later place of the same tokens
        obtain ⟨j, hij, rfl⟩ := round_cursor hf
        rw [List.length_cons] at hrounds
        exact ih (by omega) h
      · cases h

/-- **Parsing without a fault takes every token**, and ends on the level that
their balance is. -/
theorem stop_eq (h : (ofTokens tokens room).halt = none) :
    (ofTokens tokens room).stop = ⟨[], Token.balance tokens⟩ := by
  obtain ⟨j, -, hc, -⟩ := flat_skipLineEnds tokens 0 () _ rfl
  have hlength : tokens.length ≤ j + (cursor tokens j).rest.length := by
    simp only [cursor, List.length_drop]
    omega
  have hstop := stop_functionsFrom room (cursor tokens j).rest hlength
  rw [← hc] at hstop
  exact hstop h

/-- No function is refused because of the level. -/
theorem not_isUnbalanced_functionsFrom (rounds : List Token) (c : Cursor) :
    ∀ h ∈ (functionsFrom room rounds c).halt, ¬h.IsUnbalanced := by
  induction rounds generalizing c with
  | nil => exact fun _ hh => nomatch hh
  | cons _ rounds ih =>
    unfold functionsFrom
    split
    · exact fun _ hh => nomatch hh
    · split
      · exact ih _
      · rename_i h c' hf
        rintro _ ⟨⟩
        have hround := compositional_spares.bind (compositional_spares.function room) fun f =>
          compositional_spares.bind compositional_spares.skipLineEnds fun _ =>
            compositional_spares.pure f
        exact hround c h c' hf

/-- **Tokens are unbalanced** if no function is refused and their balance is not
zero; it is the level that is told then. -/
theorem unbalanced_iff {level : Int} {t : Option Token} :
    (ofTokens tokens room).program = .error (.fault ⟨.unbalanced level, t⟩) ↔
      (ofTokens tokens room).halt = none ∧ level = Token.balance tokens ∧ level ≠ 0 ∧ t = none := by
  unfold program
  cases hhalt : (ofTokens tokens room).halt with
  -- a function was refused, and that is told instead
  | some h =>
    constructor
    · rintro ⟨⟩
      exact absurd trivial (not_isUnbalanced_functionsFrom _ _ _ hhalt)
    · rintro ⟨he, -⟩
      cases he
  | none =>
    dsimp only
    rw [stop_eq hhalt]
    split
    · rename_i hzero
      constructor
      · rintro ⟨⟩
      · rintro ⟨-, rfl, hne, -⟩
        exact absurd hzero hne
    · rename_i hne
      constructor
      · rintro ⟨⟩
        exact ⟨rfl, rfl, hne, rfl⟩
      · rintro ⟨-, rfl, -, rfl⟩
        rfl

end Parsing
end Shank
