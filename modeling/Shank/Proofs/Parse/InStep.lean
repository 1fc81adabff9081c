/-
# In step with the parsers

Beside each parser stands the one of the same name that is carried out step by
step (`Shank.Stepwise`). From a position of the same tokens, the two do the same
(`Follows`): they get to the same position, with the same result, or with the
same fault, and nothing is missing or endless.

| what else is known | why |
| --- | --- |
| the position is not past the end | a token that is taken is there |
| the level is nowhere below the one at the start | only a `DEDENT` takes one away, and only the block that took its `INDENT` takes it |
| at the end it is that level again, or there are no tokens left | so are statements, and a block goes round until its `DEDENT` |
| where a numeral is refused, it is the token taken last | a number is read right behind its token |

The bounds are those that both parsers count by: there are more rounds than
tokens left, and for every token left there is room for one more construct
(`short` where there need not be).
-/

import Shank.Proofs.Parse.Stepwise
import Shank.Proofs.Parse.Expressions
import Shank.Proofs.Parse.Alike

namespace Shank

/-- Is this why the text of a number token is no number? -/
def Token.IsRefused (t : Token) (r : Numeral.Refusal) : Prop :=
  if '.' ∈ t.text.toList then Numeral.real? t.text = none ∧ r = .malformed
  else Numeral.integer? t.text = .error r

namespace Stepwise

open Token (balance)
open Parse (cursor IsLevel cursor_eq_cons cursor_succ balance_of_kind balance_of_indent
  balance_of_dedent)

variable {α β : Type} {short : Prop} {tokens : List Token} {i : Nat} {l : Int}

/-! ## Positions

The parser that checks its steps keeps the position, and the other one the
tokens that are left and the level. Both are functions of the position in the
list of tokens, so they are compared at the same position.
-/

/-- A position with the level that the tokens in front of it lead to. -/
def moment (tokens : List Token) (i : Nat) : Moment :=
  ⟨i, balance (tokens.take i)⟩

/-- A parser that has gone to a position one token after the other. -/
def place (tokens : List Token) (i : Nat) : State :=
  ⟨tokens, moment tokens i, ((List.range i).map (moment tokens)).reverse⟩

/-- All positions a parser has been at are those up to where it is, each with
its balance. -/
theorem moments_place : (place tokens i).moments = ((List.range (i + 1)).map (moment tokens)).reverse := by
  rw [List.range_succ, List.map_append, List.reverse_append]
  rfl

/-- To look at the next token shows the one at the position, and stays there. -/
theorem peek_place (tokens : List Token) (i : Nat) : peek (place tokens i) = .ok tokens[i]? (place tokens i) :=
  rfl

/-- The level at a position is the balance of the tokens in front of it. -/
theorem level_place : level (place tokens i) = .ok (balance (tokens.take i)) (place tokens i) :=
  rfl

/-- To take a token that is there leads to the next position. -/
theorem advance_place {t : Token} (h : tokens[i]? = some t) :
    advance (place tokens i) = .ok t (place tokens (i + 1)) := by
  have hnow : (⟨i + 1, balance (tokens.take i) + t.levelChange⟩ : Moment) = moment tokens (i + 1) := by
    rw [moment, Parse.balance_succ h]
  unfold advance
  rw [show (place tokens i).tokens[(place tokens i).now.position]? = some t from h]
  dsimp only
  rw [moments_place, show (place tokens i).now.level = balance (tokens.take i) from rfl,
    show (place tokens i).now.position = i from rfl, hnow]
  rfl

/-- The next token is of some kind, or not. -/
theorem next_cases (tokens : List Token) (i : Nat) (kind : Token.Kind) :
    (∃ t, tokens[i]? = some t ∧ t.kind = kind) ∨ ∀ t, tokens[i]? = some t → t.kind ≠ kind := by
  by_cases h : ∃ t, tokens[i]? = some t ∧ t.kind = kind
  · exact .inl h
  · exact .inr fun t ht hk => h ⟨t, ht, hk⟩

/-- A next token of one kind is not of another. -/
theorem next_ne {kind : Token.Kind} {t u : Token} (ht : tokens[i]? = some t) (hk : t.kind ≠ kind)
    (hu : tokens[i]? = some u) : u.kind ≠ kind := by
  rw [ht] at hu
  exact Option.some.inj hu ▸ hk

/-- What is asked of a token that was seen can be answered. -/
theorem seen_some (t : Token) : seen (some t) = pure t :=
  rfl

/-- What is asked about the kind of the next token is answered by the token at
the position. -/
theorem at_place (kind : Token.Kind) :
    at_ kind (place tokens i) = .ok (tokens[i]?.any fun t => t.kind == kind) (place tokens i) :=
  rfl

/-- A next token of the kind that is asked for is taken. -/
theorem take?_of_eq {kind : Token.Kind} {t : Token} (h : tokens[i]? = some t) (hk : t.kind = kind) :
    take? kind (place tokens i) = .ok (some t) (place tokens (i + 1)) := by
  have hat : at_ kind (place tokens i) = .ok true (place tokens i) := by
    rw [at_place, h, Option.any_some, beq_iff_eq.2 hk]
  rw [take?, bind_eq hat, if_pos rfl, map_eq_pure_bind, bind_eq (advance_place h)]
  rfl

/-- A next token of another kind is left, and so is the end of the tokens. -/
theorem take?_of_ne {kind : Token.Kind} (h : ∀ t, tokens[i]? = some t → t.kind ≠ kind) :
    take? kind (place tokens i) = .ok none (place tokens i) := by
  have hat : at_ kind (place tokens i) = .ok false (place tokens i) := by
    rw [at_place, (Option.any_eq_false _ _).2 fun t ht => by simpa using h t ht]
  rw [take?, bind_eq hat]
  rfl

/-- The other parser takes the same token, at the same position. -/
theorem parseTake?_of_eq {kind : Token.Kind} {t : Token} (h : tokens[i]? = some t)
    (hk : t.kind = kind) :
    Parse.take? kind (cursor tokens i) = .ok (some t) (cursor tokens (i + 1)) := by
  simp only [Parse.take?, Parse.rest_eq_cons h, if_pos hk]
  rw [cursor, cursor, Parse.balance_succ h]

/-- The other parser leaves what is left here. -/
theorem parseTake?_of_ne {kind : Token.Kind} (h : ∀ t, tokens[i]? = some t → t.kind ≠ kind) :
    Parse.take? kind (cursor tokens i) = .ok none (cursor tokens i) := by
  rcases Parse.take?_cursor tokens i kind with ⟨t, ht, hk, -⟩ | htake
  · exact absurd hk (h t ht)
  · exact htake

/-! ## In step

Two parsers are in step if they come to the same result, fault or refusal and
stop at the same position, where the checking one has not missed a token on the
way. If room is short, the other one may give up.
-/

/-- Two parsers come to the same, up to a position, on the level `l` or at the
end of the tokens. -/
inductive Same (short : Prop) (tokens : List Token) (l : Int) :
    Nat → EStateM.Result Stop State α → EStateM.Result ParseHalt Cursor α → Prop
  | ok {j : Nat} (a : α) (hlevel : balance (tokens.take j) = l ∨ j = tokens.length) :
      Same short tokens l j (.ok a (place tokens j)) (.ok a (cursor tokens j))
  | fault {j : Nat} (e : SyntaxFault) :
      Same short tokens l j (.error (.halt (.fault e)) (place tokens j))
        (.error (.fault e) (cursor tokens j))
  | numeral {k : Nat} {t : Token} {r : Numeral.Refusal} (ht : tokens[k]? = some t)
      (hk : t.kind = .number) (hr : t.IsRefused r) :
      Same short tokens l (k + 1) (.error (.halt (.numeral r)) (place tokens (k + 1)))
        (.error (.numeral r) (cursor tokens (k + 1)))
  | tooDeep {j : Nat} {x : EStateM.Result Stop State α} {c : Cursor} (h : short) :
      Same short tokens l j x (.error .tooDeep c)

/-- From a position two parsers come to the same. They nowhere get below the
level `l`, and to that level if they do not get to the end of the tokens. -/
def FollowsTo (short : Prop) (tokens : List Token) (l : Int) (i : Nat) (x : Walk α) (y : Parse α) : Prop :=
  i ≤ tokens.length → ∃ j, i ≤ j ∧ j ≤ tokens.length ∧
    (∀ k, i ≤ k → k ≤ j → l ≤ balance (tokens.take k)) ∧
    Same short tokens l j (x (place tokens i)) (y (cursor tokens i))

/-- From a position two parsers come to the same, and back to the level that
they start on. -/
def Follows (short : Prop) (tokens : List Token) (i : Nat) (x : Walk α) (y : Parse α) : Prop :=
  FollowsTo short tokens (balance (tokens.take i)) i x y

/-- What is done without a token makes no difference. -/
theorem FollowsTo.still {x x' : Walk α} {y y' : Parse α} (hx : x (place tokens i) = x' (place tokens i))
    (hy : y (cursor tokens i) = y' (cursor tokens i)) (h : FollowsTo short tokens l i x' y') :
    FollowsTo short tokens l i x y := by
  unfold FollowsTo
  rwa [hx, hy]

/-- Both parsers take a token. -/
theorem FollowsTo.step {x x' : Walk α} {y y' : Parse α} {t : Token} (ht : tokens[i]? = some t)
    (hl : l ≤ balance (tokens.take i)) (hx : x (place tokens i) = x' (place tokens (i + 1)))
    (hy : y (cursor tokens i) = y' (cursor tokens (i + 1)))
    (h : FollowsTo short tokens l (i + 1) x' y') : FollowsTo short tokens l i x y := by
  intro _
  have hi : i < tokens.length := (List.getElem?_eq_some_iff.1 ht).1
  obtain ⟨j, hij, hj, hfloor, hsame⟩ := h hi
  refine ⟨j, by omega, hj, fun k hik hkj => ?_, hx ▸ hy ▸ hsame⟩
  rcases Nat.eq_or_lt_of_le hik with rfl | hik
  · exact hl
  · exact hfloor k hik hkj

/-- At the end of the tokens there is no other level to get to. -/
theorem FollowsTo.at_end {x : Walk α} {y : Parse α} {l' : Int} (h : FollowsTo short tokens l' i x y)
    (hl : l ≤ balance (tokens.take i)) (hi : i = tokens.length) : FollowsTo short tokens l i x y := by
  intro hle
  obtain ⟨j, hij, hj, -, hsame⟩ := h hle
  obtain rfl : j = i := by omega
  refine ⟨j, le_rfl, hj, fun k hik hkj => ?_, ?_⟩
  · obtain rfl : k = j := by omega
    exact hl
  · generalize x (place tokens j) = r, y (cursor tokens j) = r' at hsame
    cases hsame with
    | ok a => exact .ok a (.inr hi)
    | fault e => exact .fault e
    | numeral ht hk hr => exact .numeral ht hk hr
    | tooDeep h => exact .tooDeep h

/-- Two parsers in a row, the second of which may get to a lower level than the
first. -/
theorem Follows.bind_to {x : Walk α} {y : Parse α} {f : α → Walk β} {g : α → Parse β}
    (hx : Follows short tokens i x y) (hl : l ≤ balance (tokens.take i))
    (hf : ∀ a j, i ≤ j → y (cursor tokens i) = .ok a (cursor tokens j) →
      balance (tokens.take i) ≤ balance (tokens.take j) →
      balance (tokens.take j) = balance (tokens.take i) ∨ j = tokens.length →
      FollowsTo short tokens l j (f a) (g a)) :
    FollowsTo short tokens l i (x >>= f) (y >>= g) := by
  intro hi
  obtain ⟨j, hij, hj, hfloor, hsame⟩ := hx hi
  have hfloor' (k : Nat) (hik : i ≤ k) (hkj : k ≤ j) : l ≤ balance (tokens.take k) :=
    hl.trans (hfloor k hik hkj)
  rw [bind_apply, bind_apply]
  generalize x (place tokens i) = r, hr' : y (cursor tokens i) = r' at hsame
  cases hsame with
  | ok a hlevel =>
    obtain ⟨k, hjk, hk, hfloor₂, hsame₂⟩ := hf a j hij hr' (hfloor j hij le_rfl) hlevel hj
    refine ⟨k, hij.trans hjk, hk, fun m him hmk => ?_, hsame₂⟩
    rcases Nat.le_total m j with hmj | hjm
    · exact hfloor' m him hmj
    · exact hfloor₂ m hjm hmk
  | fault e => exact ⟨j, hij, hj, hfloor', .fault e⟩
  | numeral ht hk hr => exact ⟨_, hij, hj, hfloor', .numeral ht hk hr⟩
  | tooDeep h => exact ⟨j, hij, hj, hfloor', .tooDeep h⟩

/-- Two parsers in a row. -/
theorem Follows.bind_of_ok {x : Walk α} {y : Parse α} {f : α → Walk β} {g : α → Parse β}
    (hx : Follows short tokens i x y)
    (hf : ∀ a j, i ≤ j → y (cursor tokens i) = .ok a (cursor tokens j) →
      Follows short tokens j (f a) (g a)) :
    Follows short tokens i (x >>= f) (y >>= g) :=
  hx.bind_to le_rfl fun a j hij ha hle hlevel => by
    rcases hlevel with hlevel | hlevel
    · rw [← hlevel]
      exact hf a j hij ha
    · exact (hf a j hij ha).at_end hle hlevel

/-- **Two parsers in a row follow two others**, part by part, wherever the
second ones start. -/
theorem Follows.bind {x : Walk α} {y : Parse α} {f : α → Walk β} {g : α → Parse β}
    (hx : Follows short tokens i x y) (hf : ∀ a j, i ≤ j → Follows short tokens j (f a) (g a)) :
    Follows short tokens i (x >>= f) (y >>= g) :=
  hx.bind_of_ok fun a j hij _ => hf a j hij

/-- Parsers that take nothing come to the same result, if they are on the level
that is to be reached or the tokens are over. -/
theorem followsTo_pure (a : α) (hl : l ≤ balance (tokens.take i))
    (hlevel : balance (tokens.take i) = l ∨ i = tokens.length) :
    FollowsTo short tokens l i (pure a) (pure a) :=
  fun hi => ⟨i, le_rfl, hi, fun k hik hki => by rwa [Nat.le_antisymm hki hik], .ok a hlevel⟩

/-- Parsers that take nothing come to the same result. -/
theorem follows_pure (a : α) : Follows short tokens i (pure a) (pure a) :=
  followsTo_pure a le_rfl (.inl rfl)

/-- What is made of the results on both sides is the same. -/
theorem FollowsTo.map {x : Walk α} {y : Parse α} (h : FollowsTo short tokens l i x y) (f : α → β) :
    FollowsTo short tokens l i (x >>= fun a => pure (f a)) (y >>= fun a => pure (f a)) := by
  intro hi
  obtain ⟨j, hij, hj, hfloor, hsame⟩ := h hi
  refine ⟨j, hij, hj, hfloor, ?_⟩
  rw [bind_apply, bind_apply]
  generalize x (place tokens i) = r, y (cursor tokens i) = r' at hsame
  cases hsame with
  | ok a hlevel => exact .ok (f a) hlevel
  | fault e => exact .fault e
  | numeral ht hk hr => exact .numeral ht hk hr
  | tooDeep h => exact .tooDeep h

/-- What is made of the results on both sides is the same. -/
theorem Follows.map {x : Walk α} {y : Parse α} (h : Follows short tokens i x y) (f : α → β) :
    Follows short tokens i (x >>= fun a => pure (f a)) (y >>= fun a => pure (f a)) :=
  FollowsTo.map h f

/-- Parsers that fail at the same token come to the same fault. -/
theorem follows_failAt (problem : SyntaxProblem) (t : Option Token) :
    Follows short tokens i (failAt problem t : Walk α) (Parse.failAt problem t) :=
  fun hi => ⟨i, le_rfl, hi, fun k hik hki => by rw [Nat.le_antisymm hki hik], .fault _⟩

/-- Where there need not be room, the other parser may give up for want of it. -/
theorem follows_tooDeep {x : Walk α} (h : short) : Follows short tokens i x (throw .tooDeep) :=
  fun hi => ⟨i, le_rfl, hi, fun k hik hki => by rw [Nat.le_antisymm hki hik], .tooDeep h⟩

/-! ## Tokens

The rules for looking and taking, by which later lemmas go along the
definitions. A token that was looked at is there to be taken, which is what the
checks of the one side ask for.
-/

/-- What follows on a look at the next token, which is the same on both sides. -/
theorem follows_peek_bind {f : Option Token → Walk α} {g : Option Token → Parse α}
    (h : Follows short tokens i (f tokens[i]?) (g tokens[i]?)) :
    Follows short tokens i (peek >>= f) (Parse.peek >>= g) :=
  h.still rfl (by rw [← Parse.head?_cursor]; rfl)

/-- Parsers that fail where they stand come to the same fault. -/
theorem follows_failHere (problem : SyntaxProblem) :
    Follows short tokens i (failHere problem : Walk α) (Parse.failHere problem) :=
  follows_peek_bind (follows_failAt problem _)

/-- Nothing follows on a fault, whatever is written behind it. -/
theorem follows_failHere_bind (problem : SyntaxProblem) {f : α → Walk β} :
    Follows short tokens i (failHere problem >>= f) (Parse.failHere problem) :=
  (follows_failHere problem).still rfl rfl

/-- What follows on a question for a kind, which has the same answer on both
sides. -/
theorem follows_at_bind {kind : Token.Kind} {f : Bool → Walk α} {g : Bool → Parse α}
    (h : ∀ b, Follows short tokens i (f b) (g b)) :
    Follows short tokens i (at_ kind >>= f) (Parse.at_ kind >>= g) := by
  have hb := h (tokens[i]?.any fun t : Token => t.kind == kind)
  refine hb.still rfl ?_
  rw [← Parse.head?_cursor]
  rfl

/-- Only the other parsers ask how many tokens are left. -/
theorem follows_remaining_bind {x : Walk α} {g : List Token → Parse α}
    (h : Follows short tokens i x (g (tokens.drop i))) :
    Follows short tokens i x (Parse.remaining >>= g) :=
  h.still rfl rfl

/-- A token that does not change the level is taken. -/
theorem Follows.step {x x' : Walk α} {y y' : Parse α} {t : Token} (ht : tokens[i]? = some t)
    (hk : ¬IsLevel t.kind) (hx : x (place tokens i) = x' (place tokens (i + 1)))
    (hy : y (cursor tokens i) = y' (cursor tokens (i + 1)))
    (h : Follows short tokens (i + 1) x' y') : Follows short tokens i x y := by
  unfold Follows at h
  rw [balance_of_kind ht hk] at h
  exact h.step ht le_rfl hx hy

/-- What follows on a token that was seen: it is there to be taken, and leads to
no other level. -/
theorem follows_advance_bind {f : Token → Walk α} {g : Unit → Parse α} {t : Token} {kind : Token.Kind}
    (ht : tokens[i]? = some t) (hk : t.kind = kind) (hkind : ¬IsLevel kind)
    (h : Follows short tokens (i + 1) (f t) (g ())) :
    Follows short tokens i (advance >>= f) (Parse.skip >>= g) :=
  h.step ht (hk ▸ hkind) (bind_eq (advance_place ht)) (bind_eq (Parse.skip_cursor ht))

/-- What follows on a token that is taken if it is of some kind, which is no
level. -/
theorem follows_take?_bind {kind : Token.Kind} (hkind : ¬IsLevel kind) {f : Option Token → Walk α}
    {g : Option Token → Parse α}
    (hsome : ∀ t, tokens[i]? = some t → t.kind = kind →
      Follows short tokens (i + 1) (f (some t)) (g (some t)))
    (hnone : (∀ t, tokens[i]? = some t → t.kind ≠ kind) → Follows short tokens i (f none) (g none)) :
    Follows short tokens i (take? kind >>= f) (Parse.take? kind >>= g) := by
  rcases next_cases tokens i kind with ⟨t, ht, hk⟩ | hne
  · exact (hsome t ht hk).step ht (hk ▸ hkind) (bind_eq (take?_of_eq ht hk))
      (bind_eq (parseTake?_of_eq ht hk))
  · exact (hnone hne).still (bind_eq (take?_of_ne hne)) (bind_eq (parseTake?_of_ne hne))

/-- A token of another kind is left. -/
theorem follows_take?_of_ne {kind : Token.Kind} {f : Option Token → Walk α} {y : Parse α}
    (h : ∀ t, tokens[i]? = some t → t.kind ≠ kind) (hf : Follows short tokens i (f none) y) :
    Follows short tokens i (take? kind >>= f) y :=
  hf.still (bind_eq (take?_of_ne h)) rfl

/-- A token that was looked at is taken by its kind. -/
theorem follows_take?_of_eq {kind : Token.Kind} {f : Option Token → Walk α} {g : Unit → Parse α}
    {t : Token} (ht : tokens[i]? = some t) (hk : t.kind = kind) (hkind : ¬IsLevel kind)
    (h : Follows short tokens (i + 1) (f (some t)) (g ())) :
    Follows short tokens i (take? kind >>= f) (Parse.skip >>= g) :=
  h.step ht (hk ▸ hkind) (bind_eq (take?_of_eq ht hk)) (bind_eq (Parse.skip_cursor ht))

/-- Without tokens left, none is looked at. -/
theorem follows_peek_end {f : Option Token → Walk α} {y : Parse α} (hi : tokens.length ≤ i)
    (h : Follows short tokens i (f none) y) : Follows short tokens i (peek >>= f) y := by
  have hnone := peek_place tokens i
  rw [List.getElem?_eq_none hi] at hnone
  exact h.still (bind_eq hnone) rfl

/-- Without tokens left, none is taken. -/
theorem follows_take?_end {kind : Token.Kind} {f : Option Token → Walk α} {y : Parse α}
    (hi : tokens.length ≤ i) (h : Follows short tokens i (f none) y) :
    Follows short tokens i (take? kind >>= f) y :=
  follows_take?_of_ne (fun t ht => by simp [List.getElem?_eq_none hi] at ht) h

/-- What follows on a token that has to come. Where it does not come, both
parsers fail. -/
theorem follows_expect_bind {kind : Token.Kind} (hkind : ¬IsLevel kind) {item : Item}
    {f : Token → Walk α} {g : Token → Parse α}
    (h : ∀ t, tokens[i]? = some t → t.kind = kind → Follows short tokens (i + 1) (f t) (g t)) :
    Follows short tokens i (expect kind item >>= f) (Parse.expect kind item >>= g) := by
  simp only [expect, Parse.expect, bind_assoc]
  exact follows_take?_bind hkind (fun t ht hk => by simpa only [pure_bind] using h t ht hk)
    fun _ => (follows_failHere_bind _).still rfl rfl

end Stepwise
end Shank
