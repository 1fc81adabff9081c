/-
# What is behind statements and blocks that are parsed

A statement is told by its first token, and a block is made of rounds. Whatever
is proved of what they give is proved case by case, and these are the cases.

| parser | cases |
| --- | --- |
| `statement` | the kinds of its first token (`AfterFirst`) |
| `blockFrom` | the end of the tokens, an empty line, the `DEDENT` of the block, a statement (`BlockRound`) |
-/

import Shank.Proofs.Parse.Flat

namespace Shank
namespace Parse

open Token (balance)

variable {tokens : List Token} {i : Nat} {c : Cursor}

/-! ## Tokens

What a success says of the tokens: which one came next, that it was taken, and
how the level has moved.
-/

/-- A token that has to come is taken. -/
theorem expect_of_eq {kind : Token.Kind} {item : Item} {t : Token} (h : t.kind = kind)
    (rest : List Token) (level : Int) :
    expect kind item ⟨t :: rest, level⟩ = .ok t ⟨rest, level + t.levelChange⟩ := by
  have htake : take? kind ⟨t :: rest, level⟩ = .ok (some t) ⟨rest, level + t.levelChange⟩ := if_pos h
  exact bind_eq htake

/-- A token of another kind than has to come is a fault, and is not taken. -/
theorem expect_of_ne {kind : Token.Kind} {item : Item} {t : Token} (h : t.kind ≠ kind)
    (rest : List Token) (level : Int) : expect kind item ⟨t :: rest, level⟩ =
      .error (.fault ⟨.expected item, some t⟩) ⟨t :: rest, level⟩ := by
  have htake : take? kind ⟨t :: rest, level⟩ = .ok none ⟨t :: rest, level⟩ := if_neg h
  exact bind_eq htake

/-- **What it takes to get a token that has to come**: it is the next one, and
the level goes with it. -/
theorem expect_ok {kind : Token.Kind} {item : Item} {ts : List Token} {level : Int} {t : Token}
    (h : expect kind item ⟨ts, level⟩ = .ok t c) :
    ∃ rest, ts = t :: rest ∧ t.kind = kind ∧ c = ⟨rest, level + t.levelChange⟩ := by
  cases ts with
  | nil => cases h
  | cons u rest =>
    by_cases hu : u.kind = kind
    · rw [expect_of_eq hu] at h
      cases h
      exact ⟨rest, rfl, hu, rfl⟩
    · rw [expect_of_ne hu] at h
      cases h

/-- At a position with a token: this one, those behind it, and the balance of
those in front. -/
theorem cursor_eq_cons {t : Token} (h : tokens[i]? = some t) :
    cursor tokens i = ⟨t :: tokens.drop (i + 1), balance (tokens.take i)⟩ := by
  rw [← rest_eq_cons h]
  rfl

/-- The position behind a token, on the level that the token leads to. -/
theorem cursor_succ {t : Token} (h : tokens[i]? = some t) :
    cursor tokens (i + 1) = ⟨tokens.drop (i + 1), balance (tokens.take i) + t.levelChange⟩ := by
  rw [cursor, balance_succ h]

/-- A cursor that has a token left is at the position of this token. -/
theorem drop_eq_cons {t : Token} {rest : List Token} (h : tokens.drop i = t :: rest) :
    tokens[i]? = some t ∧ tokens.drop (i + 1) = rest := by
  have ht : tokens[i]? = some t := by rw [← List.head?_drop, h, List.head?_cons]
  have hcons : tokens.drop i = t :: tokens.drop (i + 1) := rest_eq_cons ht
  rw [h] at hcons
  exact ⟨ht, (List.cons.inj hcons).2.symm⟩

/-- A token of another kind than `INDENT` and `DEDENT` leaves the balance. -/
theorem balance_of_kind {t : Token} (h : tokens[i]? = some t) (hk : ¬IsLevel t.kind) :
    balance (tokens.take (i + 1)) = balance (tokens.take i) := by
  rw [balance_succ h, levelChange_of_kind hk, add_zero]

/-- An `INDENT` leads one level up. -/
theorem balance_of_indent {t : Token} (h : tokens[i]? = some t) (hk : t.kind = .indent) :
    balance (tokens.take (i + 1)) = balance (tokens.take i) + 1 := by
  simp only [balance_succ h, Token.levelChange, hk]

/-- A `DEDENT` leads one level down. -/
theorem balance_of_dedent {t : Token} (h : tokens[i]? = some t) (hk : t.kind = .dedent) :
    balance (tokens.take (i + 1)) = balance (tokens.take i) - 1 := by
  simp only [balance_succ h, Token.levelChange, hk]
  rfl

/-! ## Blocks

The loop over the statements of a block does one of four things in a round. Each
proof about blocks is by cases on `BlockRound`, and so does not unfold the loop
again.
-/

section Block

variable {st : Parse Stmt}

/-- A block ends with the tokens. -/
theorem blockFrom_nil (rounds : List Token) (level : Int) :
    blockFrom st rounds ⟨[], level⟩ = .ok [] ⟨[], level⟩ := by
  cases rounds <;> rfl

/-- An empty line between statements. -/
theorem blockFrom_lineEnd (r : Token) (rounds : List Token) {t : Token} (rest : List Token)
    (level : Int) (ht : t.kind = .endOfLine) :
    blockFrom st (r :: rounds) ⟨t :: rest, level⟩ = blockFrom st rounds ⟨rest, level⟩ := by
  have hpeek : peek ⟨t :: rest, level⟩ = .ok (some t) ⟨t :: rest, level⟩ := rfl
  have hskip : skip ⟨t :: rest, level⟩ = .ok () ⟨rest, level⟩ := by
    simp [skip, Token.levelChange, ht]
  rw [blockFrom, bind_eq hpeek]
  dsimp only
  rw [if_pos ht, bind_eq hskip]

/-- A block ends with a `DEDENT`, or goes on with a statement. -/
theorem blockFrom_cons (r : Token) (rounds : List Token) {t : Token} (rest : List Token) (level : Int)
    (ht : t.kind ≠ .endOfLine) : blockFrom st (r :: rounds) ⟨t :: rest, level⟩ =
      if t.kind = .dedent then .ok [] ⟨rest, level + t.levelChange⟩
      else (st >>= fun s => blockFrom st rounds >>= fun ss => pure (s :: ss)) ⟨t :: rest, level⟩ := by
  have hpeek : peek ⟨t :: rest, level⟩ = .ok (some t) ⟨t :: rest, level⟩ := rfl
  rw [blockFrom, bind_eq hpeek]
  dsimp only
  rw [if_neg ht]
  split <;> rfl

/-- A block ends at any position past the tokens. -/
theorem blockFrom_end (rounds : List Token) (hi : tokens.length ≤ i) :
    blockFrom st rounds (cursor tokens i) = .ok [] (cursor tokens i) := by
  rw [cursor, List.drop_eq_nil_of_le hi, blockFrom_nil]

/-- What a round of a block comes to: there are no tokens left, an empty line is
left out, the block is closed, or it starts with a statement. -/
inductive BlockRound (st : Parse Stmt) (rounds tokens : List Token) (i : Nat) :
    List Stmt → Cursor → Prop
  | ended (hi : tokens.length ≤ i) : BlockRound st rounds tokens i [] (cursor tokens i)
  | lineEnd {t : Token} {ss : List Stmt} {c : Cursor} (ht : tokens[i]? = some t)
      (hk : t.kind = .endOfLine) (h : blockFrom st rounds (cursor tokens (i + 1)) = .ok ss c) :
      BlockRound st rounds tokens i ss c
  | closed {t : Token} (ht : tokens[i]? = some t) (hk : t.kind = .dedent) :
      BlockRound st rounds tokens i [] (cursor tokens (i + 1))
  | statement {s : Stmt} {ss : List Stmt} {c₁ c : Cursor} (hs : st (cursor tokens i) = .ok s c₁)
      (hmore : blockFrom st rounds c₁ = .ok ss c) : BlockRound st rounds tokens i (s :: ss) c

/-- **A round of a block is one of four**, and the last of them goes on with
another round. -/
theorem blockFrom_ok {r : Token} {rounds : List Token} {ss : List Stmt}
    (h : blockFrom st (r :: rounds) (cursor tokens i) = .ok ss c) :
    BlockRound st rounds tokens i ss c := by
  cases ht : tokens[i]? with
  | none =>
    have hi : tokens.length ≤ i := List.getElem?_eq_none_iff.1 ht
    rw [blockFrom_end _ hi] at h
    cases h
    exact .ended hi
  | some t =>
    by_cases heol : t.kind = .endOfLine
    · have hlevel : t.levelChange = 0 := levelChange_of_kind (by rw [heol]; decide)
      rw [cursor_eq_cons ht, blockFrom_lineEnd _ _ _ _ heol] at h
      refine .lineEnd ht heol ?_
      rw [cursor_succ ht, hlevel, add_zero]
      exact h
    · rw [cursor_eq_cons ht, blockFrom_cons _ _ _ _ heol, ← cursor_eq_cons ht, ← cursor_succ ht] at h
      split at h
      · cases h
        exact .closed ht ‹_›
      · obtain ⟨s, c₁, hs, hrest⟩ := bind_ok h
        obtain ⟨ss, c₂, hmore, hpure⟩ := bind_ok hrest
        cases hpure
        exact .statement hs hmore

/-- A block starts with its `INDENT`, and has a round for each of the tokens
left. -/
theorem block_ok {ss : List Stmt} (h : block st (cursor tokens i) = .ok ss c) :
    ∃ t, tokens[i]? = some t ∧ t.kind = .indent ∧
      blockFrom st (tokens.drop (i + 1)) (cursor tokens (i + 1)) = .ok ss c := by
  obtain ⟨t, c₁, hexpect, hrest⟩ := bind_ok h
  obtain ⟨rest, hdrop, hk, rfl⟩ := expect_ok hexpect
  obtain ⟨ht, rfl⟩ := drop_eq_cons hdrop
  obtain ⟨rounds, c₂, hremaining, hblock⟩ := bind_ok hrest
  rw [← cursor_succ ht] at hremaining
  cases hremaining
  exact ⟨t, ht, hk, hblock⟩

end Block

/-! ## Statements

A statement is parsed by what its first token is. Once it is known to have been
parsed, that is one of five cases, each with the parser of what is behind it.
-/

/-- What is parsed behind the first token of a statement. -/
inductive AfterFirst (room : Nat) (t : Token) : Parse Stmt → Prop
  | ifChain (hk : t.kind = .if_) : AfterFirst room t (ifChain room (block (statement room)) t.line)
  | whileLoop (hk : t.kind = .while_) :
      AfterFirst room t (whileLoop room (block (statement (room + 1))) t.line)
  | forLoop (hk : t.kind = .for_) :
      AfterFirst room t (forLoop room (block (statement (room + 1))) t.line)
  | repeatLoop (hk : t.kind = .repeat_) :
      AfterFirst room t (repeatLoop room (block (statement (room + 1))) t.line)
  | nameStatement (hk : t.kind = .identifier) : AfterFirst room t (nameStatement room t)

/-- What a statement starts with is no level. -/
theorem AfterFirst.not_isLevel {room : Nat} {t : Token} {x : Parse Stmt} (h : AfterFirst room t x) :
    ¬IsLevel t.kind := by
  cases h with
  | ifChain hk | whileLoop hk | forLoop hk | repeatLoop hk | nameStatement hk =>
    rw [hk]
    decide

/-- A statement has a first token, and comes of what is parsed behind it. -/
theorem statement_ok {room : Nat} {ts : List Token} {level : Int} {s : Stmt}
    (h : statement room ⟨ts, level⟩ = .ok s c) : ∃ k t rest x, room = k + 4 ∧ ts = t :: rest ∧
      AfterFirst k t x ∧ x ⟨rest, level⟩ = .ok s c := by
  rcases room with _ | _ | _ | _ | room
  iterate 4 cases h
  cases ts with
  | nil => cases h
  | cons t rest =>
    have hpeek : peek ⟨t :: rest, level⟩ = .ok (some t) ⟨t :: rest, level⟩ := rfl
    have hafter {x : Parse Stmt} (hx : AfterFirst room t x)
        (h : (skip >>= fun _ => x) ⟨t :: rest, level⟩ = .ok s c) :
        ∃ k u us y, room + 4 = k + 4 ∧ t :: rest = u :: us ∧ AfterFirst k u y ∧
          y ⟨us, level⟩ = .ok s c := by
      have hskip : skip ⟨t :: rest, level⟩ = .ok () ⟨rest, level⟩ := by
        simp [skip, levelChange_of_kind hx.not_isLevel]
      rw [bind_eq hskip] at h
      exact ⟨room, t, rest, x, rfl, rfl, hx, h⟩
    rw [statement, bind_eq hpeek] at h
    dsimp only at h
    generalize hk : t.kind = kind at h
    split at h
    · exact hafter (.ifChain hk) h
    · exact hafter (.whileLoop hk) h
    · exact hafter (.forLoop hk) h
    · exact hafter (.repeatLoop hk) h
    · exact hafter (.nameStatement hk) h
    · cases h

/-- A statement at a position of a token stream. -/
theorem statement_cursor_ok {room : Nat} {s : Stmt} (h : statement room (cursor tokens i) = .ok s c) :
    ∃ k t x, room = k + 4 ∧ tokens[i]? = some t ∧ AfterFirst k t x ∧
      x (cursor tokens (i + 1)) = .ok s c := by
  obtain ⟨k, t, rest, x, hroom, hdrop, hx, hs⟩ := statement_ok h
  obtain ⟨ht, rfl⟩ := drop_eq_cons hdrop
  refine ⟨k, t, x, hroom, ht, hx, ?_⟩
  rw [cursor_succ ht, levelChange_of_kind hx.not_isLevel, add_zero]
  exact hs

end Parse
end Shank
