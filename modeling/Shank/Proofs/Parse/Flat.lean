/-
# Parsers that stay on one level

A parser that starts in a token stream at position `i` is at `cursor tokens i`:
the tokens from `i` on are left, and the level is the balance of those before
it, `INDENT` counting one up and `DEDENT` one down. Wherever a parser stops it
is at such a cursor again, further on.

A parser is `Flat` when it also comes back to the level it started on.
Everything that is parsed within a line is flat, and so are the declarations of
a function; blocks are the matter of `Shank.Proofs.Parse.Nesting`.
-/

import Shank.Parse.Program
import Shank.Proofs.Sequencing
import Shank.Proofs.Token.Balance
import Mathlib.Data.List.TakeWhile
import Mathlib.Data.Nat.Basic

namespace Shank

namespace Parse

open Token (balance)

variable {α β : Type} {tokens : List Token} {i : Nat}

/-- A parser at a position of a token stream. -/
def cursor (tokens : List Token) (i : Nat) : Cursor :=
  ⟨tokens.drop i, balance (tokens.take i)⟩

/-- The next token at a position is the one that stands there. -/
theorem head?_cursor : (cursor tokens i).rest.head? = tokens[i]? :=
  List.head?_drop ..

/-- A token more moves the balance by what it changes. -/
theorem balance_succ {t : Token} (h : tokens[i]? = some t) :
    balance (tokens.take (i + 1)) = balance (tokens.take i) + t.levelChange := by
  simp [balance, List.take_add_one, h]

/-- Past the last token nothing is left. -/
theorem rest_eq_nil (h : tokens[i]? = none) : (cursor tokens i).rest = [] :=
  List.drop_eq_nil_of_le (List.getElem?_eq_none_iff.1 h)

/-- At a position with a token this one comes first, and those from the next
position on behind it. -/
theorem rest_eq_cons {t : Token} (h : tokens[i]? = some t) :
    (cursor tokens i).rest = t :: tokens.drop (i + 1) := by
  obtain ⟨hi, rfl⟩ := List.getElem?_eq_some_iff.1 h
  exact List.drop_eq_getElem_cons hi

/-- To skip a token leads to the next position. The level follows by itself: it
is the balance of what was taken. -/
theorem skip_cursor {t : Token} (h : tokens[i]? = some t) :
    skip (cursor tokens i) = .ok () (cursor tokens (i + 1)) := by
  simp only [skip, rest_eq_cons h]
  rw [cursor, cursor, balance_succ h]

/-- A token that is taken is the next one, and of the kind asked for. -/
theorem take?_cursor (tokens : List Token) (i : Nat) (kind : Token.Kind) :
    (∃ t, tokens[i]? = some t ∧ t.kind = kind ∧
      take? kind (cursor tokens i) = .ok (some t) (cursor tokens (i + 1))) ∨
    take? kind (cursor tokens i) = .ok none (cursor tokens i) := by
  cases h : tokens[i]? with
  | none => exact .inr (by simp only [take?, rest_eq_nil h])
  | some t =>
    by_cases hk : t.kind = kind
    · refine .inl ⟨t, rfl, hk, ?_⟩
      simp only [take?, rest_eq_cons h, if_pos hk]
      rw [cursor, cursor, balance_succ h]
    · exact .inr (by simp only [take?, rest_eq_cons h, if_neg hk])

/-! ## Flat parsers

The rules for putting flat parsers together. A parser that looks at the next
token and then skips it is flat if the kind it was seen to be is no level, so
looking and skipping are taken together.
-/

/-- At a position, a parser goes on to a later one on the same level. -/
def FlatAt (tokens : List Token) (i : Nat) (x : Parse α) : Prop :=
  ∀ a c, x (cursor tokens i) = .ok a c →
    ∃ j, i ≤ j ∧ c = cursor tokens j ∧ balance (tokens.take j) = balance (tokens.take i)

/-- A parser that stays on one level, wherever it starts. -/
def Flat (x : Parse α) : Prop :=
  ∀ tokens i, FlatAt tokens i x

/-- What follows a flat parser starts on the level of this one, so if it is flat
everywhere the two together are flat at the position. -/
theorem FlatAt.bind {x : Parse α} {f : α → Parse β} (hx : FlatAt tokens i x)
    (hf : ∀ a, Flat (f a)) : FlatAt tokens i (x >>= f) := by
  intro b c h
  obtain ⟨a, c₁, ha, hb⟩ := bind_ok h
  obtain ⟨j, hij, rfl, hj⟩ := hx a c₁ ha
  obtain ⟨k, hjk, hc, hk⟩ := hf a tokens j b c hb
  exact ⟨k, hij.trans hjk, hc, hk.trans hj⟩

/-- **Two flat parsers in a row are flat.** This and `flat_peek_bind` are the
rules that the lemmas below apply along the definitions of the parsers. -/
theorem Flat.bind {x : Parse α} {f : α → Parse β} (hx : Flat x) (hf : ∀ a, Flat (f a)) :
    Flat (x >>= f) :=
  fun tokens i => (hx tokens i).bind hf

/-- What does not move the cursor is flat. -/
theorem flat_of_still {x : Parse α} (h : ∀ c a c', x c = .ok a c' → c' = c) : Flat x :=
  fun _ i a c hx => ⟨i, le_rfl, h _ a c hx, rfl⟩

/-- A parser that takes nothing is flat. -/
theorem flat_pure (a : α) : Flat (pure a) :=
  flat_of_still fun _ _ _ h => by cases h; rfl

/-- A parser that fails is flat, as it comes to no position. -/
theorem flat_throw (h : ParseHalt) : Flat (throw h : Parse α) :=
  flat_of_still fun _ _ _ h => (nomatch h)

/-- A parser that fails at a token is flat, whatever it tells. -/
theorem flat_failAt (problem : SyntaxProblem) (t : Option Token) :
    Flat (failAt problem t : Parse α) :=
  flat_throw _

/-- A parser that fails where it stands is flat. -/
theorem flat_failHere (problem : SyntaxProblem) : Flat (failHere problem : Parse α) :=
  flat_of_still fun _ _ _ h => (nomatch h)

/-- To look at the next token is flat. -/
theorem flat_peek : Flat peek :=
  flat_of_still fun _ _ _ h => by cases h; rfl

/-- To ask for the kind of the next token is flat. -/
theorem flat_at (kind : Token.Kind) : Flat (at_ kind) :=
  flat_of_still fun _ _ _ h => by cases h; rfl

/-- To count the rounds of a loop is flat. -/
theorem flat_remaining : Flat remaining :=
  flat_of_still fun _ _ _ h => by cases h; rfl

/-- The number of a token that was taken is read without taking another one. -/
theorem flat_number (t : Token) : Flat (number t) := by
  unfold number
  split <;> split
  · exact flat_pure _
  · exact flat_throw _
  · exact flat_pure _
  · exact flat_throw _

/-- The character of a token that was taken is read without taking another one. -/
theorem flat_character (t : Token) : Flat (character t) := by
  unfold character
  split
  · exact flat_pure _
  · exact flat_failAt _ _

/-- A parser that looks at the next token. -/
theorem flat_peek_bind {f : Option Token → Parse α}
    (hf : ∀ tokens i, FlatAt tokens i (f tokens[i]?)) : Flat (peek >>= f) := by
  intro tokens i a c h
  rw [bind_apply] at h
  refine hf tokens i a c ?_
  rw [← head?_cursor]
  exact h

/-- A token that was seen is skipped. -/
theorem flatAt_skip {t : Token} (h : tokens[i]? = some t) (ht : t.levelChange = 0) :
    FlatAt tokens i skip := by
  intro a c hs
  rw [skip_cursor h] at hs
  cases hs
  exact ⟨i + 1, Nat.le_succ i, rfl, by rw [balance_succ h, ht, add_zero]⟩

/-- The kinds that lead from one level to another. -/
def IsLevel (kind : Token.Kind) : Prop :=
  kind = .indent ∨ kind = .dedent

instance (kind : Token.Kind) : Decidable (IsLevel kind) :=
  inferInstanceAs (Decidable (_ ∨ _))

/-- A token of any other kind changes no level. -/
theorem levelChange_of_kind {t : Token} (h : ¬IsLevel t.kind) : t.levelChange = 0 :=
  Token.levelChange_eq_zero (fun e => h (.inl e)) fun e => h (.inr e)

/-- A token that was seen to be of some kind is skipped. -/
theorem flatAt_skip_bind {t : Token} {kind : Token.Kind} {f : Unit → Parse α}
    (h : tokens[i]? = some t) (ht : t.kind = kind) (hk : ¬IsLevel kind) (hf : Flat (f ())) :
    FlatAt tokens i (skip >>= f) :=
  (flatAt_skip h (levelChange_of_kind (ht ▸ hk))).bind fun _ => hf

/-- To take a token if it is of some kind is flat, unless this kind leads to
another level. -/
theorem flat_take? {kind : Token.Kind} (hk : ¬IsLevel kind) : Flat (take? kind) := by
  intro tokens i a c h
  rcases take?_cursor tokens i kind with ⟨t, ht, rfl, htake⟩ | htake
  · rw [htake] at h
    cases h
    exact ⟨i + 1, Nat.le_succ i, rfl, by rw [balance_succ ht, levelChange_of_kind hk, add_zero]⟩
  · rw [htake] at h
    cases h
    exact ⟨i, le_rfl, rfl, rfl⟩

/-- To take a token that has to come is flat, unless its kind leads to another
level. -/
theorem flat_expect {kind : Token.Kind} (item : Item) (hk : ¬IsLevel kind) :
    Flat (expect kind item) := by
  refine (flat_take? hk).bind fun t => ?_
  cases t with
  | some t => exact flat_pure t
  | none => exact flat_failHere _

/-- To skip line ends is flat, however many there are. -/
theorem flat_skipLineEnds : Flat skipLineEnds := by
  intro tokens i a c h
  cases h
  have hsplit := List.takeWhile_append_dropWhile (p := fun t : Token => t.kind == .endOfLine)
    (l := tokens.drop i)
  have hrun {t : Token} (ht : t ∈ (tokens.drop i).takeWhile fun t => t.kind == .endOfLine) :
      t.levelChange = 0 := by
    refine levelChange_of_kind ?_
    rw [show t.kind = .endOfLine by simpa using List.mem_takeWhile_imp ht]
    decide
  generalize (tokens.drop i).takeWhile (fun t => t.kind == .endOfLine) = run at hsplit hrun
  have htake : balance (tokens.take (i + run.length)) = balance (tokens.take i) := by
    rw [List.take_add, Token.balance_append, ← hsplit, List.take_left,
      Token.balance_eq_zero fun _ => hrun, add_zero]
  refine ⟨i + run.length, Nat.le_add_right .., ?_, htake⟩
  simp only [cursor]
  rw [htake, ← List.drop_drop, ← hsplit, List.drop_left, hsplit]

/-- The end of a line is parsed on its level: the `INDENT`s and `DEDENT`s of the
next line come behind it. -/
theorem flat_endLine : Flat endLine :=
  (flat_expect _ (by decide)).bind fun _ => flat_skipLineEnds

/-! ## Expressions

No token of an expression is a level. The operators have to be looked through
for that, one by one, since the parser of a chain takes whatever its table says.
-/

/-- A factor is flat if what stands in its parentheses or brackets is. -/
theorem flat_factor {inner : Parse Expr} (h : Flat inner) : Flat (factor inner) := by
  refine flat_peek_bind fun tokens i => ?_
  cases ht : tokens[i]? with
  | none => exact flat_failHere _ tokens i
  | some t =>
    dsimp only
    split
    case h_1 hk =>
      exact flatAt_skip_bind ht hk (by decide) (h.bind fun _ =>
        (flat_expect _ (by decide)).bind fun _ => flat_pure _)
    case h_2 hk => exact flatAt_skip_bind ht hk (by decide) ((flat_number t).bind fun _ => flat_pure _)
    case h_3 hk =>
      exact flatAt_skip_bind ht hk (by decide) ((flat_expect _ (by decide)).bind fun n =>
        (flat_number n).bind fun _ => flat_pure _)
    case h_4 hk =>
      refine flatAt_skip_bind ht hk (by decide) ((flat_take? (by decide)).bind fun open? => ?_)
      cases open? with
      | some _ => exact h.bind fun _ => (flat_expect _ (by decide)).bind fun _ => flat_pure _
      | none => exact flat_pure _
    case h_5 hk => exact flatAt_skip_bind ht hk (by decide) (flat_pure _)
    case h_6 hk =>
      exact flatAt_skip_bind ht hk (by decide) ((flat_character t).bind fun _ => flat_pure _)
    case h_7 hk => exact flatAt_skip_bind ht hk (by decide) (flat_pure _)
    case h_8 hk => exact flatAt_skip_bind ht hk (by decide) (flat_pure _)
    case h_9 => exact flat_failHere _ tokens i

/-- No operator leads to another level. -/
def Levelless {γ : Type} (op? : Token.Kind → Option γ) : Prop :=
  ∀ kind, (op? kind).isSome → ¬IsLevel kind

/-- A chain of operands is flat if each operand is and no operator is a level.
The induction is on the rounds of the loop. -/
theorem flat_chainFrom {operand : Parse Expr} (h : Flat operand)
    {op? : Token.Kind → Option ArithOp} (hop : Levelless op?) (ts : List Token) (left : Expr) :
    Flat (chainFrom operand op? ts left) := by
  induction ts generalizing left with
  | nil => exact flat_pure left
  | cons _ rounds ih =>
    refine flat_peek_bind fun tokens i => ?_
    cases ht : tokens[i]? with
    | none => exact flat_pure left tokens i
    | some t =>
      dsimp only
      split
      · exact flat_pure left tokens i
      · rename_i op ho
        exact flatAt_skip_bind ht rfl (hop _ (by rw [ho]; rfl)) (h.bind fun _ => ih _)

/-- A chain is flat from its first operand on. -/
theorem flat_chain {operand : Parse Expr} (h : Flat operand) {op? : Token.Kind → Option ArithOp}
    (hop : Levelless op?) : Flat (chain operand op?) := by
  refine h.bind fun left => flat_peek.bind fun t => ?_
  split
  · exact flat_pure left
  · exact flat_remaining.bind fun ts => flat_chainFrom h hop ts left

/-- The operators `*`, `/` and `mod` are no levels. -/
theorem levelless_termOp? : Levelless termOp? := by
  rintro _ h (rfl | rfl) <;> cases h

/-- The operators `+` and `-` are no levels. -/
theorem levelless_sumOp? : Levelless sumOp? := by
  rintro _ h (rfl | rfl) <;> cases h

/-- The comparisons are no levels. -/
theorem levelless_compareOp? : Levelless compareOp? := by
  rintro _ h (rfl | rfl) <;> cases h

/-- **Expressions are flat**, whatever room there is for their nesting. -/
theorem flat_expression (room : Nat) : Flat (expression room) := by
  induction room using Nat.strong_induction_on with
  | _ room ih =>
    rcases room with _ | _ | _ | room
    iterate 3 exact flat_throw _
    have h : Flat (factor (expression room)) := flat_factor (ih room (by omega))
    exact flat_chain (flat_chain h levelless_termOp?) levelless_sumOp?

/-- **Conditions are flat**: two expressions and a comparison between them. -/
theorem flat_condition (room : Nat) : Flat (condition room) := by
  refine (flat_expression room).bind fun left => flat_peek_bind fun tokens i => ?_
  cases ht : tokens[i]? with
  | none => exact flat_pure left tokens i
  | some t =>
    dsimp only
    split
    · exact flat_pure left tokens i
    · rename_i op ho
      exact flatAt_skip_bind ht rfl (levelless_compareOp? _ (by rw [ho]; rfl))
        ((flat_expression room).bind fun _ => flat_pure _)

/-! ## Declarations

A list of declarations may go over several lines, and the ends of these lines
are on its level.
-/

/-- The name of a kind is parsed on one level. -/
theorem flat_kind : Flat kind := by
  refine flat_peek_bind fun tokens i => ?_
  split
  · rename_i k hk
    obtain ⟨t, ht, hkind⟩ := Option.bind_eq_some_iff.1 hk
    refine flatAt_skip_bind ht rfl ?_ (flat_pure k)
    rintro (h | h) <;> rw [h] at hkind <;> cases hkind
  · exact flat_failHere _ tokens i

/-- A bound is parsed on one level, with its sign. -/
theorem flat_bound : Flat bound :=
  (flat_take? (by decide)).bind fun _ => (flat_expect _ (by decide)).bind fun t =>
    (flat_number t).bind fun _ => flat_pure _

/-- Two bounds are parsed on one level. -/
theorem flat_bounds : Flat bounds :=
  (flat_expect _ (by decide)).bind fun _ => flat_peek.bind fun _ => flat_bound.bind fun _ =>
    (flat_expect _ (by decide)).bind fun _ => flat_bound.bind fun _ => flat_pure _

/-- Bounds of integers are parsed on one level, and their order is seen without
taking a token. -/
theorem flat_interval : Flat interval := by
  refine flat_bounds.bind fun b => ?_
  split
  · split
    · exact flat_failAt _ _
    · exact flat_pure _
  · exact flat_failAt _ _

/-- Bounds of reals are parsed on one level. -/
theorem flat_realInterval : Flat realInterval := by
  refine flat_bounds.bind fun ⟨start, low, high⟩ => ?_
  dsimp only
  split
  · exact flat_failAt _ _
  · exact flat_pure _

/-- A range that may be left out is parsed on one level if it is when it is
there. -/
theorem Flat.ifRange {x : Parse α} (h : Flat x) : Flat (ifRange x) := by
  refine (flat_at _).bind fun comes => ?_
  split
  · rw [map_eq_pure_bind]
    exact h.bind fun _ => flat_pure _
  · exact flat_pure none

/-- That a kind has no range is seen by looking. -/
theorem flat_noRange (k : Kind) : Flat (noRange k) := by
  refine (flat_at _).bind fun comes => ?_
  split
  · exact flat_failHere _
  · exact flat_pure ()

/-- **Types are flat**, with their ranges, bounds and elements. -/
theorem flat_type : Flat type := by
  refine (flat_take? (by decide)).bind fun array => ?_
  cases array with
  | some _ =>
    exact flat_interval.bind fun _ => (flat_expect _ (by decide)).bind fun _ => flat_kind.bind fun _ =>
      flat_pure _
  | none =>
    refine flat_kind.bind fun k => ?_
    cases k with
    | integer | string => exact flat_interval.ifRange.bind fun _ => flat_pure _
    | real => exact flat_realInterval.ifRange.bind fun _ => flat_pure _
    | character | boolean => exact (flat_noRange _).bind fun _ => flat_pure _

/-- The literal of a constant is parsed on one level, with its sign. -/
theorem flat_constantValue : Flat constantValue := by
  refine flat_peek_bind fun tokens i => ?_
  cases ht : tokens[i]? with
  | none => exact flat_failHere _ tokens i
  | some t =>
    dsimp only
    split
    case h_1 hk =>
      exact flatAt_skip_bind ht hk (by decide) ((flat_expect _ (by decide)).bind fun n =>
        (flat_number n).bind fun _ => flat_pure _)
    case h_2 hk => exact flatAt_skip_bind ht hk (by decide) ((flat_number t).bind fun _ => flat_pure _)
    case h_3 hk => exact flatAt_skip_bind ht hk (by decide) (flat_pure _)
    case h_4 hk =>
      exact flatAt_skip_bind ht hk (by decide) ((flat_character t).bind fun _ => flat_pure _)
    case h_5 hk => exact flatAt_skip_bind ht hk (by decide) (flat_pure _)
    case h_6 hk => exact flatAt_skip_bind ht hk (by decide) (flat_pure _)
    case h_7 => exact flat_failHere _ tokens i

/-- Further names of a declaration are parsed on one level. -/
theorem flat_moreNames (ts : List Token) : Flat (moreNames ts) := by
  induction ts with
  | nil => exact flat_pure []
  | cons _ rounds ih =>
    refine (flat_take? (by decide)).bind fun comma => ?_
    cases comma with
    | none => exact flat_pure []
    | some _ => exact (flat_expect _ (by decide)).bind fun _ => ih.bind fun _ => flat_pure _

/-- The names of a declaration are parsed on one level. -/
theorem flat_names : Flat names :=
  (flat_expect _ (by decide)).bind fun _ => flat_remaining.bind fun ts =>
    (flat_moreNames ts).bind fun _ => flat_pure _

/-- Variables of one type are declared on one level. -/
theorem flat_variableGroup : Flat variableGroup :=
  (flat_take? (by decide)).bind fun _ => flat_names.bind fun _ =>
    (flat_expect _ (by decide)).bind fun _ => flat_type.bind fun _ => flat_pure _

/-- A constant is declared on one level. -/
theorem flat_constantGroup : Flat constantGroup := by
  refine (flat_take? (by decide)).bind fun isVar => flat_names.bind fun names => ?_
  split
  · exact flat_failAt _ _
  · exact (flat_expect _ (by decide)).bind fun _ => flat_constantValue.bind fun _ => flat_pure _

/-- Declarations behind others are flat if each group is. -/
theorem Flat.groupsFrom {group : Parse (List α)} (h : Flat group) (terminator : Token.Kind)
    (ts : List Token) : Flat (groupsFrom group terminator ts) := by
  induction ts with
  | nil => exact h
  | cons _ rounds ih =>
    refine (flat_at _).bind fun done => ?_
    split
    · exact flat_pure []
    · refine h.bind fun first => (flat_take? (by decide)).bind fun semicolon => ?_
      cases semicolon with
      | none => exact flat_pure first
      | some _ => exact ih.bind fun _ => flat_pure _

/-- Declarations up to their terminator are flat if each group is. -/
theorem Flat.groups {group : Parse (List α)} (h : Flat group) (terminator : Token.Kind) :
    Flat (groups group terminator) :=
  flat_remaining.bind fun ts => h.groupsFrom terminator ts

/-- **Local declarations are flat**: they stand on the level of their function,
line after line. -/
theorem flat_localsFrom (ts : List Token) : Flat (localsFrom ts) := by
  induction ts with
  | nil => exact flat_pure []
  | cons _ rounds ih =>
    refine (flat_take? (by decide)).bind fun constants => ?_
    cases constants with
    | some _ =>
      exact (flat_constantGroup.groups _).bind fun _ => flat_endLine.bind fun _ =>
        ih.bind fun _ => flat_pure _
    | none =>
      refine (flat_take? (by decide)).bind fun declares => ?_
      cases declares with
      | some _ =>
        exact (flat_variableGroup.groups _).bind fun _ => flat_endLine.bind fun _ =>
          ih.bind fun _ => flat_pure _
      | none => exact flat_pure []

/-! ## Heads of statements

Arguments, assignments and calls have no block behind them, so they are flat as
they are; the other statements are left to `Shank.Proofs.Parse.Nesting`.
-/

/-- An argument is parsed on one level, be it a value or a reference. -/
theorem flat_argument (room : Nat) : Flat (argument room) := by
  refine flat_peek.bind fun start => (flat_take? (by decide)).bind fun var? => ?_
  cases var? with
  | some _ => exact (flat_expect _ (by decide)).bind fun _ => flat_pure _
  | none => exact (flat_condition room).bind fun _ => flat_pure _

/-- Further arguments are parsed on one level. -/
theorem flat_moreArguments (room : Nat) (ts : List Token) : Flat (moreArguments room ts) := by
  induction ts with
  | nil => exact flat_pure []
  | cons _ rounds ih =>
    refine (flat_take? (by decide)).bind fun comma => ?_
    cases comma with
    | none => exact flat_pure []
    | some _ => exact (flat_argument room).bind fun _ => ih.bind fun _ => flat_pure _

/-- The arguments of a call are parsed on one level. -/
theorem flat_arguments (room : Nat) : Flat (arguments room) := by
  refine (flat_at _).bind fun none? => ?_
  split
  · exact flat_pure []
  · exact (flat_argument room).bind fun _ => flat_remaining.bind fun ts =>
      (flat_moreArguments room ts).bind fun _ => flat_pure _

/-- An assignment is parsed on one level. -/
theorem flat_assignment (room : Nat) (t : Token) : Flat (assignment room t) := by
  refine (flat_take? (by decide)).bind fun open? => ?_
  have rest (index : Option Expr) : Flat (do
      let _ ← expect .assigner .assigner
      let value ← condition room
      endLine
      pure (Stmt.assign t.line { line := t.line, name := t.text, index } value)) :=
    (flat_expect _ (by decide)).bind fun _ => (flat_condition room).bind fun _ =>
      flat_endLine.bind fun _ => flat_pure _
  cases open? with
  | some _ =>
    exact (flat_expression room).bind fun _ => (flat_expect _ (by decide)).bind fun _ =>
      (flat_pure _).bind rest
  | none => exact (flat_pure _).bind rest

/-- A call is parsed on one level. -/
theorem flat_call (room : Nat) (t : Token) : Flat (call room t) :=
  (flat_arguments room).bind fun _ => flat_endLine.bind fun _ => flat_pure _

/-- **A statement that starts with a name is flat**, whichever of the two it is;
the other statements have blocks. -/
theorem flat_nameStatement (room : Nat) (t : Token) : Flat (nameStatement room t) := by
  refine flat_peek.bind fun next => ?_
  cases next with
  | some u =>
    dsimp only
    split
    · exact flat_assignment room t
    · exact flat_call room t
  | none => exact flat_call room t

end Parse
end Shank
