/-
# The parsers in lockstep

Every parser follows the one that is carried out step by step (`Follows`), from
any position at which these bounds hold:

| bound | why it holds again further on |
| --- | --- |
| `tokens.length < i + n` | a round takes a token, and so does what is nested, in front of it |
| `tokens.length ≤ i + rounds.length` | the rounds were the tokens left, and a round takes one |
| `3 * (tokens.length + 1) ≤ room + 3 * i` | what is nested in an expression leaves 3 of the room |
| `4 * (tokens.length + 1) ≤ room + 4 * i` | what is nested in a statement leaves 4 of it |

So `n` does not run out: at `n = 0` the first bound puts the position past the
end of the tokens. Nor does the room, unless it may (`short`). Where no rounds
are left there are no tokens left, and both parsers end.
-/

import Shank.Proofs.Parse.InStep

namespace Shank
namespace Stepwise

open Token (balance)
open Parse (cursor cursor_eq_cons cursor_succ balance_of_kind IsLevel Levelless negated boundOf
  assigns)

variable {α β : Type} {short : Prop} {tokens : List Token} {i n room : Nat} {t : Token}

/-! ## Numbers and characters

A numeral is read from its token after this was taken, so both parsers stop
behind it if it is refused.
-/

/-- A numeral that is refused halts both parsers, right behind its token. -/
theorem follows_refusal {r : Numeral.Refusal} (ht : tokens[i]? = some t) (hk : t.kind = .number)
    (hr : t.IsRefused r) :
    Follows short tokens (i + 1) (throw (.halt (.numeral r)) : Walk α) (throw (.numeral r)) :=
  fun hi => ⟨i + 1, le_rfl, hi, fun k hik hki => by rw [Nat.le_antisymm hki hik], .numeral ht hk hr⟩

/-- A number is read right behind its token. -/
theorem follows_number (ht : tokens[i]? = some t) (hk : t.kind = .number) :
    Follows short tokens (i + 1) (number t) (Parse.number t) := by
  unfold number Parse.number
  split
  · rename_i hpoint
    cases hreal : Numeral.real? t.text with
    | some x => exact follows_pure _
    | none => exact follows_refusal ht hk (by rw [Token.IsRefused, if_pos hpoint]; exact ⟨hreal, rfl⟩)
  · rename_i hpoint
    cases hinteger : Numeral.integer? t.text with
    | ok x => exact follows_pure _
    | error r => exact follows_refusal ht hk (by rw [Token.IsRefused, if_neg hpoint]; exact hinteger)

/-- A character is read on both sides right behind its token. -/
theorem follows_character : Follows short tokens i (character t) (Parse.character t) := by
  unfold character Parse.character
  rcases t.text.toList with _ | ⟨c, _ | ⟨d, cs⟩⟩
  · exact follows_failAt _ _
  · exact follows_pure _
  · exact follows_failAt _ _

/-! ## Expressions

Both sides go down into parentheses and brackets, the one counting its turns and
the other its room. Each nested expression has a token less in front, which pays
for both.
-/

/-- **Factors follow**: the token that was looked at is there to be taken, and
the inner expression stands behind it. -/
theorem follows_factor {inner : Walk Expr} {inner' : Parse Expr}
    (h : ∀ j, i < j → Follows short tokens j inner inner') :
    Follows short tokens i (factor inner) (Parse.factor inner') := by
  refine follows_peek_bind ?_
  cases ht : tokens[i]? with
  | none => exact follows_failHere _
  | some t =>
    dsimp only
    -- the token was there to be looked at, so it is there to be taken
    generalize hk : t.kind = kind
    cases kind
    case openParen =>
      refine follows_advance_bind ht hk (by decide) ((h _ (Nat.lt_succ_self i)).bind fun e j _ => ?_)
      exact follows_expect_bind (by decide) fun _ _ _ => follows_pure e
    case number => exact follows_advance_bind ht hk (by decide) ((follows_number ht hk).map _)
    case minus =>
      refine follows_advance_bind ht hk (by decide) ?_
      exact follows_expect_bind (by decide) fun n hn hnumber => (follows_number hn hnumber).map _
    case identifier =>
      refine follows_advance_bind ht hk (by decide) (follows_take?_bind (by decide) (fun _ _ _ => ?_)
        fun _ => follows_pure _)
      refine (h _ (by omega)).bind fun e j _ => ?_
      exact follows_expect_bind (by decide) fun _ _ _ => follows_pure _
    case stringLiteral => exact follows_advance_bind ht hk (by decide) (follows_pure _)
    case characterLiteral => exact follows_advance_bind ht hk (by decide) (follows_character.map _)
    case true_ => exact follows_advance_bind ht hk (by decide) (follows_pure _)
    case false_ => exact follows_advance_bind ht hk (by decide) (follows_pure _)
    all_goals exact follows_failHere _

/-- In each round an operator is taken, so there are fewer tokens left. So the
loop of the one side, which counts, and that of the other, which goes by the
tokens left, both last as long as there are operators. -/
theorem follows_chainFrom {operand : Walk Expr} {operand' : Parse Expr}
    {op? : Token.Kind → Option ArithOp} (hop : Levelless op?)
    (h : ∀ j, i < j → Follows short tokens j operand operand') (hn : tokens.length < i + n)
    {rounds : List Token} (hrounds : tokens.length ≤ i + rounds.length) (left : Expr) :
    Follows short tokens i (chainFrom operand op? n left) (Parse.chainFrom operand' op? rounds left) := by
  induction n generalizing i rounds left with
  | zero => exact fun hi => absurd hi (by omega)
  | succ n ih =>
    cases rounds with
    -- no tokens are left for these rounds, so no operator is there
    | nil => exact follows_peek_end hrounds (follows_pure left)
    | cons r rounds =>
      refine follows_peek_bind ?_
      cases ht : tokens[i]? with
      | none => exact follows_pure left
      | some t =>
        dsimp only
        rw [Option.bind_some]
        cases ho : op? t.kind with
        | none => exact follows_pure left
        | some op =>
          refine follows_advance_bind ht rfl (hop t.kind (by rw [ho]; rfl)) ?_
          refine (h _ (Nat.lt_succ_self i)).bind fun right j hj => ?_
          rw [List.length_cons] at hrounds
          exact ih (fun k hk => h k (by omega)) (by omega) (by omega) _

/-- Chains follow if their operands do. -/
theorem follows_chain {operand : Walk Expr} {operand' : Parse Expr}
    {op? : Token.Kind → Option ArithOp} (hop : Levelless op?)
    (h : ∀ j, i ≤ j → Follows short tokens j operand operand') (hn : tokens.length < i + n) :
    Follows short tokens i (chain n operand op?) (Parse.chain operand' op?) := by
  rw [Parse.chain_eq]
  refine (h i le_rfl).bind fun left j hj => follows_remaining_bind ?_
  exact follows_chainFrom hop (fun k hk => h k (by omega)) (by omega)
    (by rw [List.length_drop]; omega) left

/-- **Expressions follow.** The induction is on the turns; what stands in
parentheses or brackets stands behind them, so it has fewer tokens in front and
asks for one turn and 3 of the room less. -/
theorem follows_expression (hn : tokens.length < i + n)
    (hroom : short ∨ 3 * (tokens.length + 1) ≤ room + 3 * i) :
    Follows short tokens i (expression n) (Parse.expression room) := by
  induction n generalizing i room with
  | zero => exact fun hi => absurd hi (by omega)
  | succ n ih =>
    rcases room with _ | _ | _ | room
    iterate 3 exact fun hi => follows_tooDeep (hroom.resolve_right (by omega)) hi
    have hfactor (j : Nat) (hj : i ≤ j) : Follows short tokens j (factor (expression n))
        (Parse.factor (Parse.expression room)) :=
      follows_factor fun k hk => ih (by omega) (hroom.imp_right (by omega))
    exact follows_chain Parse.levelless_sumOp?
      (fun j hj => follows_chain Parse.levelless_termOp? (fun k hk => hfactor k (hj.trans hk)) (by omega)) hn

/-- Conditions follow. -/
theorem follows_condition (hn : tokens.length < i + n)
    (hroom : short ∨ 3 * (tokens.length + 1) ≤ room + 3 * i) :
    Follows short tokens i (condition n) (Parse.condition room) := by
  refine (follows_expression hn hroom).bind fun left j hj => follows_peek_bind ?_
  cases ht : tokens[j]? with
  | none => exact follows_pure left
  | some t =>
    dsimp only
    rw [Option.bind_some]
    cases ho : Parse.compareOp? t.kind with
    | none => exact follows_pure left
    | some op =>
      refine follows_advance_bind ht rfl (Parse.levelless_compareOp? t.kind (by rw [ho]; rfl)) ?_
      exact (follows_expression (by omega) (hroom.imp_right (by omega))).map _

/-! ## Declarations

The checking side compares a token by its kind several times where the other
looks once. The kind does not change in between, so all of its checks succeed.
-/

/-- The names of kinds follow. -/
theorem follows_kind : Follows short tokens i kind Parse.kind := by
  refine follows_peek_bind ?_
  cases h : tokens[i]?.bind fun t => Parse.kind? t.kind with
  | none => exact follows_failHere _
  | some k =>
    obtain ⟨t, ht, hkind⟩ := Option.bind_eq_some_iff.1 h
    have hlevel : ¬IsLevel t.kind := by rintro (h | h) <;> rw [h] at hkind <;> cases hkind
    exact follows_advance_bind ht rfl hlevel (follows_pure k)

/-- Bounds follow: a number is read right behind its token. -/
theorem follows_bound : Follows short tokens i bound Parse.bound := by
  have hnumber (minus : Option Token) (j : Nat) : Follows short tokens j
      (expect .number .number >>= fun t => number t >>= fun v => pure (boundOf minus.isSome v))
      (Parse.expect .number .number >>= fun t => Parse.number t >>= fun v =>
        pure (boundOf minus.isSome v)) :=
    follows_expect_bind (by decide) fun t ht hk => (follows_number ht hk).map _
  exact follows_take?_bind (by decide) (fun t _ _ => hnumber (some t) _) fun _ => hnumber none i

/-- Two bounds follow, with the token that they start at. -/
theorem follows_bounds : Follows short tokens i bounds Parse.bounds :=
  follows_expect_bind (by decide) fun _ _ _ => follows_peek_bind (follows_bound.bind fun _ _ _ =>
    follows_expect_bind (by decide) fun _ _ _ => follows_bound.map _)

/-- Bounds of integers follow, or are refused at the same token. -/
theorem follows_interval : Follows short tokens i interval Parse.interval := by
  refine follows_bounds.bind fun ⟨start, low, high⟩ j _ => ?_
  cases low with
  | whole low =>
    cases high with
    | whole high =>
      dsimp only
      split
      · exact follows_failAt _ _
      · exact follows_pure _
    | real high => exact follows_failAt _ _
  | real low => exact follows_failAt _ _

/-- Bounds of reals follow, or are refused at the same token. -/
theorem follows_realInterval : Follows short tokens i realInterval Parse.realInterval := by
  refine follows_bounds.bind fun ⟨start, low, high⟩ j _ => ?_
  dsimp only
  split
  · exact follows_failAt _ _
  · exact follows_pure _

/-- A range that may be left out follows if it does when it is there. -/
theorem Follows.ifRange {x : Walk α} {y : Parse α} (h : Follows short tokens i x y) :
    Follows short tokens i (ifRange x) (Parse.ifRange y) := by
  refine follows_at_bind fun b => ?_
  cases b with
  | true => exact h.map some
  | false => exact follows_pure none

/-- A range that may not be there is refused at the same token. -/
theorem follows_noRange (k : Kind) : Follows short tokens i (noRange k) (Parse.noRange k) := by
  refine follows_at_bind fun b => ?_
  cases b with
  | true => exact follows_failHere _
  | false => exact follows_pure ()

/-- **Types follow.** -/
theorem follows_type : Follows short tokens i type Parse.type := by
  refine follows_take?_bind (by decide) (fun _ _ _ => ?_) fun _ => ?_
  · exact follows_interval.bind fun _ _ _ => follows_expect_bind (by decide) fun _ _ _ =>
      follows_kind.map _
  · refine follows_kind.bind fun k j _ => ?_
    cases k with
    | integer => exact follows_interval.ifRange.map _
    | real => exact follows_realInterval.ifRange.map _
    | string => exact follows_interval.ifRange.map _
    | character => exact (follows_noRange _).map _
    | boolean => exact (follows_noRange _).map _

/-- **Values of constants follow.** One side tries each kind that it can be in
turn, the other looks at the token once; so at each kind that is tried, the
token either is of it, or is known not to be. -/
theorem follows_constantValue : Follows short tokens i constantValue Parse.constantValue := by
  refine follows_peek_bind ?_
  cases ht : tokens[i]? with
  | none =>
    have hi : tokens.length ≤ i := List.getElem?_eq_none_iff.1 ht
    simp only [bind_assoc]
    iterate 6 refine follows_take?_end hi ?_
    exact follows_failHere_bind _
  | some t =>
    -- one kind that is tried: it is taken and looked at, or passed over on both sides
    have htry {kind : Token.Kind} {f : Option Token → Walk (Nat × Scalar)} {y : Parse (Nat × Scalar)}
        (hsome : t.kind = kind → Follows short tokens i (take? kind >>= f) y)
        (hnone : t.kind ≠ kind → Follows short tokens i (f none) y) :
        Follows short tokens i (take? kind >>= f) y := by
      by_cases hk : t.kind = kind
      · exact hsome hk
      · exact follows_take?_of_ne (fun _ => next_ne ht hk) (hnone hk)
    simp only [bind_assoc, map_eq_pure_bind, seen_some, pure_bind]
    refine htry (fun hk => ?_) fun hminus => ?_
    · rw [hk]
      refine follows_take?_of_eq ht hk (by decide) ?_
      exact follows_expect_bind (by decide) fun n hn hnumber => (follows_number hn hnumber).map _
    refine htry (fun hk => ?_) fun hnumber => ?_
    · rw [hk]
      exact follows_take?_of_eq ht hk (by decide) ((follows_number ht hk).map _)
    refine htry (fun hk => ?_) fun hstring => ?_
    · rw [hk]
      exact follows_take?_of_eq ht hk (by decide) (follows_pure _)
    refine htry (fun hk => ?_) fun hcharacter => ?_
    · rw [hk]
      exact follows_take?_of_eq ht hk (by decide) (follows_character.map _)
    refine htry (fun hk => ?_) fun htrue => ?_
    · rw [hk]
      exact follows_take?_of_eq ht hk (by decide) (follows_pure _)
    refine htry (fun hk => ?_) fun hfalse => ?_
    · rw [hk]
      exact follows_take?_of_eq ht hk (by decide) (follows_pure _)
    -- all kinds of constants are ruled out, so the look fails as well
    dsimp only
    split <;> first | contradiction | exact follows_failHere_bind _

/-- Further names follow, round by round: each takes a comma and a name. -/
theorem follows_moreNames (hn : tokens.length < i + n) {rounds : List Token}
    (hrounds : tokens.length ≤ i + rounds.length) :
    Follows short tokens i (moreNames n) (Parse.moreNames rounds) := by
  induction n generalizing i rounds with
  | zero => exact fun hi => absurd hi (by omega)
  | succ n ih =>
    cases rounds with
    | nil => exact follows_take?_end hrounds (follows_pure [])
    | cons r rounds =>
      rw [List.length_cons] at hrounds
      refine follows_take?_bind (by decide) (fun _ _ _ => ?_) fun _ => follows_pure []
      exact follows_expect_bind (by decide) fun _ _ _ => (ih (by omega) (by omega)).map _

/-- Lists of names follow. -/
theorem follows_names (hn : tokens.length < i + n) :
    Follows short tokens i (names n) Parse.names :=
  follows_expect_bind (by decide) fun _ _ _ => follows_remaining_bind
    ((follows_moreNames (by omega) (by rw [List.length_drop]; omega)).map _)

/-- Groups of variables follow. -/
theorem follows_variableGroup (hn : tokens.length < i + n) :
    Follows short tokens i (variableGroup n) Parse.variableGroup := by
  have hgroup (var : Option Token) (j : Nat) (hj : i ≤ j) : Follows short tokens j
      (names n >>= fun names => expect .colon .colon >>= fun _ => type >>= fun type =>
        pure (names.map fun t => (⟨t.line, t.text, type, var.isSome⟩ : Variable)))
      (Parse.names >>= fun names => Parse.expect .colon .colon >>= fun _ => Parse.type >>= fun type =>
        pure (names.map fun t => (⟨t.line, t.text, type, var.isSome⟩ : Variable))) :=
    (follows_names (by omega)).bind fun _ _ _ => follows_expect_bind (by decide) fun _ _ _ =>
      follows_type.map _
  exact follows_take?_bind (by decide) (fun t _ _ => hgroup (some t) _ (Nat.le_succ i)) fun _ =>
    hgroup none i le_rfl

/-- Groups of constants follow; a `var` in front is refused at the same token. -/
theorem follows_constantGroup (hn : tokens.length < i + n) :
    Follows short tokens i (constantGroup n) Parse.constantGroup := by
  refine follows_take?_bind (by decide) (fun t _ _ => ?_) fun _ => ?_
  · exact (follows_names (by omega)).bind fun names _ _ => follows_failAt _ _
  · exact (follows_names hn).bind fun names _ _ => follows_expect_bind (by decide) fun _ _ _ =>
      follows_constantValue.map _

/-- Without tokens left, there is one more group to parse on both sides. What
follows a group may be a semicolon, and only that goes on. -/
theorem follows_groupsFrom {group : Walk (List α)} {group' : Parse (List α)}
    (h : ∀ j, i ≤ j → Follows short tokens j group group') (terminator : Token.Kind)
    (hn : tokens.length < i + n) {rounds : List Token} (hrounds : tokens.length ≤ i + rounds.length) :
    Follows short tokens i (groups group terminator n) (Parse.groupsFrom group' terminator rounds) := by
  induction n generalizing i rounds with
  | zero => exact fun hi => absurd hi (by omega)
  | succ n ih =>
    cases rounds with
    | nil =>
      rw [List.length_nil, Nat.add_zero] at hrounds
      -- there is no token to be the terminator
      have hat : at_ terminator (place tokens i) = .ok false (place tokens i) := by
        rw [at_place, List.getElem?_eq_none hrounds]
        rfl
      rw [← bind_pure (Parse.groupsFrom group' terminator [])]
      refine FollowsTo.still (bind_eq hat) rfl ?_
      exact (h i le_rfl).bind fun first j hj => follows_take?_end (hrounds.trans hj) (follows_pure first)
    | cons r rounds =>
      rw [List.length_cons] at hrounds
      refine follows_at_bind fun b => ?_
      cases b with
      | true => exact follows_pure []
      | false =>
        refine (h i le_rfl).bind fun first j hj => follows_take?_bind (by decide) (fun _ _ _ => ?_)
          fun _ => follows_pure first
        exact (ih (fun k hk => h k (by omega)) (by omega) (by omega)).map _

/-- Lists of groups follow if groups do. -/
theorem follows_groups {group : Walk (List α)} {group' : Parse (List α)}
    (h : ∀ j, i ≤ j → Follows short tokens j group group') (terminator : Token.Kind)
    (hn : tokens.length < i + n) :
    Follows short tokens i (groups group terminator n) (Parse.groups group' terminator) :=
  follows_remaining_bind (follows_groupsFrom h terminator hn (by rw [List.length_drop]; omega))

/-! ## Statements

The checking side looks at the name of a statement and decides by the token
behind it before it takes either. The other side takes the name first.
-/

/-- Line ends that are skipped follow: there are turns enough for each of them. -/
theorem follows_skipLineEnds (hn : tokens.length < i + n) :
    Follows short tokens i (skipLineEnds n) Parse.skipLineEnds := by
  induction n generalizing i with
  | zero => exact fun hi => absurd hi (by omega)
  | succ n ih =>
    rcases next_cases tokens i .endOfLine with ⟨t, ht, hk⟩ | hne
    · have hlevel : ¬IsLevel t.kind := by rw [hk]; decide
      refine (ih (by omega)).step ht hlevel (bind_eq (take?_of_eq ht hk)) ?_
      rw [cursor_eq_cons ht, cursor_succ ht, Parse.levelChange_of_kind hlevel, add_zero,
        Parse.skipLineEnds_apply, Parse.skipLineEnds_apply, Parse.pastLineEnds_cons hk]
    · have hrest : Parse.pastLineEnds (cursor tokens i).rest = (cursor tokens i).rest := by
        cases hr : (cursor tokens i).rest with
        | nil => rfl
        | cons t rest =>
          exact Parse.pastLineEnds_of_ne (hne t (by rw [← Parse.head?_cursor, hr, List.head?_cons]))
      exact (follows_pure ()).still (bind_eq (take?_of_ne hne))
        (by rw [Parse.skipLineEnds_apply, hrest]; rfl)

/-- The end of a line follows. -/
theorem follows_endLine (hn : tokens.length < i + n) :
    Follows short tokens i (endLine n) Parse.endLine :=
  follows_expect_bind (by decide) fun _ _ _ => follows_skipLineEnds (by omega)

/-- At the end of the tokens there is no expression. -/
theorem expression_end (room : Nat) (level : Int) :
    ∃ e, Parse.expression room ⟨[], level⟩ = .error e ⟨[], level⟩ := by
  rcases room with _ | _ | _ | room <;> exact ⟨_, rfl⟩

/-- At the end of the tokens there is no condition. -/
theorem condition_end (room : Nat) (level : Int) :
    ∃ e, Parse.condition room ⟨[], level⟩ = .error e ⟨[], level⟩ := by
  obtain ⟨e, he⟩ := expression_end room level
  exact ⟨e, by rw [Parse.condition, bind_apply, he]⟩

/-- An argument starts with a token: at the end of the tokens there is none. -/
theorem follows_argument (hn : tokens.length < i + n)
    (hroom : short ∨ 3 * (tokens.length + 1) ≤ room + 3 * i) :
    Follows short tokens i (argument n) (Parse.argument room) := by
  refine follows_peek_bind ?_
  cases ht : tokens[i]? with
  | some t =>
    simp only [seen_some, pure_bind]
    refine follows_take?_bind (by decide) (fun _ _ _ => ?_) fun _ => ?_
    · exact follows_expect_bind (by decide) fun _ _ _ => follows_pure _
    · exact (follows_condition hn hroom).map _
  | none =>
    have hi : tokens.length ≤ i := List.getElem?_eq_none_iff.1 ht
    refine follows_take?_bind (by decide) (fun t htaken _ => ?_) fun _ => ?_
    · rw [ht] at htaken
      cases htaken
    · refine (follows_condition hn hroom).bind_of_ok fun e j _ he => ?_
      obtain ⟨_, hend⟩ := condition_end room (cursor tokens i).level
      rw [← Parse.rest_eq_nil ht] at hend
      cases hend.symm.trans he

/-- Further arguments follow, round by round: each takes a comma and more. -/
theorem follows_moreArguments {m : Nat} (hn : tokens.length < i + n)
    (hroom : short ∨ 3 * (tokens.length + 1) ≤ room + 3 * i) (hm : tokens.length < i + m)
    {rounds : List Token} (hrounds : tokens.length ≤ i + rounds.length) :
    Follows short tokens i (moreArguments n m) (Parse.moreArguments room rounds) := by
  induction m generalizing i rounds with
  | zero => exact fun hi => absurd hi (by omega)
  | succ m ih =>
    cases rounds with
    | nil => exact follows_take?_end hrounds (follows_pure [])
    | cons r rounds =>
      rw [List.length_cons] at hrounds
      refine follows_take?_bind (by decide) (fun _ _ _ => ?_) fun _ => follows_pure []
      refine (follows_argument (by omega) (hroom.imp_right (by omega))).bind fun a j hj => ?_
      exact (ih (by omega) (hroom.imp_right (by omega)) (by omega) (by omega)).map _

/-- **The arguments of a call follow.** -/
theorem follows_arguments (hn : tokens.length < i + n)
    (hroom : short ∨ 3 * (tokens.length + 1) ≤ room + 3 * i) :
    Follows short tokens i (arguments n) (Parse.arguments room) := by
  refine follows_at_bind fun b => ?_
  cases b with
  | true => exact follows_pure []
  | false =>
    refine (follows_argument hn hroom).bind fun a j hj => follows_remaining_bind ?_
    exact (follows_moreArguments (by omega) (hroom.imp_right (by omega)) (by omega)
      (by rw [List.length_drop]; omega)).map _

/-- A token that was looked at is taken as what it was seen to be. -/
theorem follows_again_bind {kind : Token.Kind} {f : Token → Walk α} {g : Unit → Parse α}
    (ht : tokens[i]? = some t) (hk : t.kind = kind) (hkind : ¬IsLevel kind)
    (h : Follows short tokens (i + 1) (f t) (g ())) :
    Follows short tokens i (again kind >>= f) (Parse.skip >>= g) := by
  simp only [again, bind_assoc]
  exact follows_take?_of_eq ht hk hkind h

/-- An assignment follows from its name on, which was looked at and is taken
now. -/
theorem follows_assignment (hn : tokens.length < i + 1 + n)
    (hroom : short ∨ 3 * (tokens.length + 1) ≤ room + 3 * (i + 1)) (ht : tokens[i]? = some t)
    (hk : t.kind = .identifier) :
    Follows short tokens i (assignment n) (Parse.skip >>= fun _ => Parse.assignment room t) := by
  refine follows_again_bind ht hk (by decide) ?_
  have hvalue (index : Option Expr) (j : Nat) (hj : i < j) : Follows short tokens j
      (expect .assigner .assigner >>= fun _ => condition n >>= fun value => endLine n >>= fun _ =>
        pure (Stmt.assign t.line ⟨t.line, t.text, index⟩ value))
      (Parse.expect .assigner .assigner >>= fun _ => Parse.condition room >>= fun value =>
        Parse.endLine >>= fun _ => pure (Stmt.assign t.line ⟨t.line, t.text, index⟩ value)) :=
    follows_expect_bind (by decide) fun _ _ _ =>
      (follows_condition (by omega) (hroom.imp_right (by omega))).bind fun _ _ _ =>
        (follows_endLine (by omega)).map _
  refine follows_take?_bind (by decide) (fun _ _ _ => ?_) fun _ => hvalue none _ (Nat.lt_succ_self i)
  simp only [pure_bind]
  exact (follows_expression (by omega) (hroom.imp_right (by omega))).bind fun e j hj =>
    follows_expect_bind (by decide) fun _ _ _ => hvalue (some e) _ (by omega)

/-- A call follows from its name on. -/
theorem follows_call (hn : tokens.length < i + 1 + n)
    (hroom : short ∨ 3 * (tokens.length + 1) ≤ room + 3 * (i + 1)) (ht : tokens[i]? = some t)
    (hk : t.kind = .identifier) :
    Follows short tokens i (call n) (Parse.skip >>= fun _ => Parse.call room t) :=
  follows_again_bind ht hk (by decide)
    ((follows_arguments (by omega) (hroom.imp_right (by omega))).bind fun _ _ _ =>
      (follows_endLine (by omega)).map _)

/-- What a statement that starts with a name is, told by the token behind the
name. -/
theorem nameStatement_cursor (room : Nat) (t : Token) (j : Nat) :
    Parse.nameStatement room t (cursor tokens j) =
      (if tokens[j]?.any assigns then Parse.assignment room t else Parse.call room t)
        (cursor tokens j) := by
  rw [Parse.nameStatement, bind_eq (x := Parse.peek) rfl, Parse.head?_cursor]
  cases tokens[j]? <;> rfl

/-- What tells an assignment from a call is looked at in front of the name on
the one side, and behind it on the other. The name is taken either way, so it is
skipped on the second side before the two are compared. -/
theorem follows_nameStatement (hn : tokens.length < i + 1 + n)
    (hroom : short ∨ 3 * (tokens.length + 1) ≤ room + 3 * (i + 1)) (ht : tokens[i]? = some t)
    (hk : t.kind = .identifier) :
    Follows short tokens i (nameStatement n) (Parse.skip >>= fun _ => Parse.nameStatement room t) := by
  have hskip (f : Unit → Parse Stmt) : (Parse.skip >>= f) (cursor tokens i) = f () (cursor tokens (i + 1)) :=
    bind_eq (Parse.skip_cursor ht)
  have hnext : nameStatement n (place tokens i) =
      (if tokens[i + 1]?.any assigns then assignment n else call n) (place tokens i) := rfl
  -- the token looked at behind the name is the one looked at in front of it
  have hname : Parse.nameStatement room t (cursor tokens (i + 1)) = _ :=
    nameStatement_cursor room t (i + 1)
  rw [← hskip fun _ => Parse.nameStatement room t] at hname
  cases h : tokens[i + 1]?.any assigns with
  | true =>
    rw [h, if_pos rfl] at hnext hname
    exact (follows_assignment hn hroom ht hk).still hnext
      (hname.trans (hskip fun _ => Parse.assignment room t).symm)
  | false =>
    rw [h, if_neg Bool.false_ne_true] at hnext hname
    exact (follows_call hn hroom ht hk).still hnext
      (hname.trans (hskip fun _ => Parse.call room t).symm)

/-! ## Blocks

The one side ends a block when it is back on the level on which it entered, and
the other one with the first `DEDENT` that no inner block took. These are the
same `DEDENT`, as the level is the balance.
-/

section Block

variable {st : Walk Stmt} {st' : Parse Stmt} {entry : Int}

/-- A turn of a block that takes a line end. -/
theorem blockFrom_of_lineEnd (ht : tokens[i]? = some t) (hk : t.kind = .endOfLine) :
    blockFrom st entry (n + 1) (place tokens i) = blockFrom st entry n (place tokens (i + 1)) := by
  rw [blockFrom, bind_eq (peek_place tokens i), ht]
  exact bind_eq (take?_of_eq ht hk)

/-- A turn of a block that takes a `DEDENT`, and compares the levels, or a
statement. -/
theorem blockFrom_of_ne (ht : tokens[i]? = some t) (hk : t.kind ≠ .endOfLine) :
    blockFrom st entry (n + 1) (place tokens i) =
      (if t.kind = .dedent then advance >>= fun _ => level >>= fun l =>
          if l ≤ entry then pure [] else blockFrom st entry n
        else st >>= fun s => blockFrom st entry n >>= fun ss => pure (s :: ss)) (place tokens i) := by
  rw [blockFrom, bind_eq (peek_place tokens i), ht]
  dsimp only
  rw [bind_eq (take?_of_ne fun _ => next_ne ht hk)]
  dsimp only
  rw [bind_eq (at_place _), ht]
  simp only [Option.any_some, beq_iff_eq]

/-- While a block goes on, it is one level above the one that it was entered on,
so it is its own `DEDENT` that ends it; unless the tokens end. The balance of
the tokens before a place is its level, so what the one side compares comes out
of what the other side has counted. A statement leaves the level as it was,
unless it comes to the end of the tokens. -/
theorem follows_blockFrom (h : ∀ j t, i ≤ j → tokens[j]? = some t → Follows short tokens j st st')
    (hconsumes : Parse.Consumes st')
    (hlevel : balance (tokens.take i) = entry + 1 ∨ i = tokens.length)
    (hentry : entry ≤ balance (tokens.take i)) (hn : tokens.length < i + n) {rounds : List Token}
    (hrounds : tokens.length ≤ i + rounds.length) :
    FollowsTo short tokens entry i (blockFrom st entry n) (Parse.blockFrom st' rounds) := by
  induction n generalizing i rounds with
  | zero => exact fun hi => absurd hi (by omega)
  | succ n ih =>
    cases ht : tokens[i]? with
    | none =>
      have hi : tokens.length ≤ i := List.getElem?_eq_none_iff.1 ht
      have hnone := peek_place tokens i
      rw [ht] at hnone
      intro hle
      exact (followsTo_pure [] hentry (.inr (Nat.le_antisymm hle hi))).still (bind_eq hnone)
        (Parse.blockFrom_end rounds hi) hle
    | some t =>
      have hi : i < tokens.length := (List.getElem?_eq_some_iff.1 ht).1
      have hlevel : balance (tokens.take i) = entry + 1 := hlevel.resolve_right hi.ne
      cases rounds with
      | nil => exact absurd hrounds (by simpa using hi)
      | cons r rounds =>
        rw [List.length_cons] at hrounds
        -- a line end is passed over by both sides, and the level stays
        by_cases hend : t.kind = .endOfLine
        · have hnext := balance_of_kind ht (by rw [hend]; decide)
          have hmore : FollowsTo short tokens entry (i + 1) (blockFrom st entry n)
              (Parse.blockFrom st' rounds) :=
            ih (fun j u hj => h j u (by omega)) (.inl (hnext.trans hlevel)) (by omega) (by omega)
              (by omega)
          refine hmore.step ht hentry (blockFrom_of_lineEnd ht hend) ?_
          rw [cursor_eq_cons ht, Parse.blockFrom_lineEnd r rounds _ _ hend, cursor_succ ht,
            Parse.levelChange_of_kind (by rw [hend]; decide), add_zero]
        · have hrun : blockFrom st entry (n + 1) (place tokens i) = _ := blockFrom_of_ne ht hend
          have hrun' : Parse.blockFrom st' (r :: rounds) ⟨t :: tokens.drop (i + 1), _⟩ = _ :=
            Parse.blockFrom_cons r rounds (tokens.drop (i + 1)) (balance (tokens.take i)) hend
          -- the dedent comes back to the level of the entry, so the comparison succeeds
          by_cases hdedent : t.kind = .dedent
          · have hnext := Parse.balance_of_dedent ht hdedent
            rw [hlevel] at hnext
            have hclosed : FollowsTo short tokens entry (i + 1) (pure []) (pure ([] : List Stmt)) :=
              followsTo_pure [] (by omega) (.inl (by omega))
            refine hclosed.step ht hentry ?_ ?_
            · rw [hrun, if_pos hdedent, bind_eq (advance_place ht), bind_eq level_place,
                if_pos (by omega)]
            · rw [cursor_eq_cons ht, hrun', if_pos hdedent, cursor_succ ht]
              rfl
          · have hmore : FollowsTo short tokens entry i
                (st >>= fun s => blockFrom st entry n >>= fun ss => pure (s :: ss))
                (st' >>= fun s => Parse.blockFrom st' rounds >>= fun ss => pure (s :: ss)) := by
              -- a statement takes a token, so there are rounds left for what follows
              refine (h i t le_rfl ht).bind_to hentry fun s j hij hs hle hlevel' => ?_
              have hlt := hconsumes _ _ _ hs
              simp only [cursor, List.length_drop] at hlt
              exact (ih (fun k u hk => h k u (by omega)) (hlevel'.imp_left (·.trans hlevel)) (by omega)
                (by omega) (by omega)).map _
            refine hmore.still (hrun.trans (by rw [if_neg hdedent])) ?_
            rw [cursor_eq_cons ht, hrun', if_neg hdedent]

/-- **Blocks follow** if their statements do and each of these takes a token.
The indent raises the level by one, which is where the statements of the block
are read. -/
theorem follows_block (h : ∀ j t, i ≤ j → tokens[j]? = some t → Follows short tokens j st st')
    (hconsumes : Parse.Consumes st') (hn : tokens.length < i + n) :
    Follows short tokens i (block n st) (Parse.block st') := by
  rcases next_cases tokens i .indent with ⟨t, ht, hk⟩ | hne
  · have hnext := Parse.balance_of_indent ht hk
    have hbody : FollowsTo short tokens (balance (tokens.take i)) (i + 1)
        (blockFrom st (balance (tokens.take i)) n) (Parse.blockFrom st' (tokens.drop (i + 1))) :=
      follows_blockFrom (fun j u hj => h j u (by omega)) hconsumes (.inl hnext) (by omega) (by omega)
        (by rw [List.length_drop]; omega)
    refine hbody.step ht le_rfl ?_ ?_
    · rw [block, bind_eq level_place, expect, bind_assoc, bind_eq (take?_of_eq ht hk)]
      rfl
    · rw [Parse.block, Parse.expect, bind_assoc, bind_eq (parseTake?_of_eq ht hk)]
      rfl
  · have hfails : Follows short tokens i (failHere (.expected .block) >>= fun _ : Token =>
        blockFrom st (balance (tokens.take i)) n) (Parse.failHere (.expected .block)) :=
      follows_failHere_bind _
    refine hfails.still ?_ ?_
    · rw [block, bind_eq level_place, expect, bind_assoc, bind_eq (take?_of_ne hne)]
    · rw [Parse.block, Parse.expect, bind_assoc, bind_eq (parseTake?_of_ne hne)]
      rfl

end Block

section Body

variable {body : Walk (List Stmt)} {body' : Parse (List Stmt)}
  (h : ∀ j, i ≤ j → Follows short tokens j body body')

include h

/-- A branch follows if its body does. -/
theorem follows_branch (hn : tokens.length < i + n)
    (hroom : short ∨ 3 * (tokens.length + 1) ≤ room + 3 * i) :
    Follows short tokens i (branch n body t) (Parse.branch room body' t.line) :=
  (follows_condition hn hroom).bind fun _ j hj => follows_expect_bind (by decide) fun _ _ _ =>
    (follows_endLine (by omega)).bind fun _ k hk => (h k (by omega)).map _

/-- Further branches follow, round by round, with either spelling of their word.
An `else if` is one branch more, as an `elsif` is; an `else` alone is the last
one. -/
theorem follows_moreBranches {m : Nat} (hn : tokens.length < i + n)
    (hroom : short ∨ 3 * (tokens.length + 1) ≤ room + 3 * i) (hm : tokens.length < i + m)
    {rounds : List Token} (hrounds : tokens.length ≤ i + rounds.length) :
    Follows short tokens i (moreBranches n body m) (Parse.moreBranches room body' rounds) := by
  induction m generalizing i rounds with
  | zero => exact fun hi => absurd hi (by omega)
  | succ m ih =>
    cases rounds with
    | nil =>
      exact follows_take?_end hrounds (follows_take?_end hrounds (follows_pure []))
    | cons r rounds =>
      rw [List.length_cons] at hrounds
      -- what follows the word of a branch with a condition, whichever it was
      have hmore (u : Token) (j : Nat) (hj : i < j) : Follows short tokens j
          (branch n body u >>= fun b => moreBranches n body m >>= fun bs => pure (b :: bs))
          (Parse.branch room body' u.line >>= fun b => Parse.moreBranches room body' rounds >>=
            fun bs => pure (b :: bs)) :=
        (follows_branch (fun k hk => h k (by omega)) (by omega) (hroom.imp_right (by omega))).bind
          fun b k hk => (ih (fun l hl => h l (by omega)) (by omega) (hroom.imp_right (by omega)) (by omega)
            (by omega)).map _
      refine follows_take?_bind (by decide) (fun u _ _ => hmore u _ (Nat.lt_succ_self i)) fun _ => ?_
      refine follows_take?_bind (by decide) (fun e _ _ => ?_) fun _ => follows_pure []
      refine follows_take?_bind (by decide) (fun u _ _ => hmore u _ (by omega)) fun _ => ?_
      exact (follows_endLine (by omega)).bind fun _ k hk => (h k (by omega)).map _

end Body

section Statement

variable {body : Walk (List Stmt)} {body' : Parse (List Stmt)}
  (h : ∀ j, i < j → Follows short tokens j body body') (hn : tokens.length < i + 1 + n)
  (hroom : short ∨ 3 * (tokens.length + 1) ≤ room + 3 * (i + 1)) (ht : tokens[i]? = some t)

include h hn hroom ht

/-- An if chain follows from its word on. -/
theorem follows_ifChain (hk : t.kind = .if_) :
    Follows short tokens i (ifChain n body) (Parse.skip >>= fun _ => Parse.ifChain room body' t.line) :=
  follows_again_bind ht hk (by decide) ((follows_branch (fun j hj => h j (by omega)) hn hroom).bind
    fun b j hj => follows_remaining_bind ((follows_moreBranches (fun k hk => h k (by omega)) (by omega)
      (hroom.imp_right (by omega)) (by omega) (by rw [List.length_drop]; omega)).map _))

/-- A `while` loop follows from its word on. -/
theorem follows_whileLoop (hk : t.kind = .while_) :
    Follows short tokens i (whileLoop n body)
      (Parse.skip >>= fun _ => Parse.whileLoop room body' t.line) :=
  follows_again_bind ht hk (by decide) ((follows_condition hn hroom).bind fun _ j hj =>
    (follows_endLine (by omega)).bind fun _ k hk => (h k (by omega)).map _)

/-- A `repeat` loop follows from its word on. -/
theorem follows_repeatLoop (hk : t.kind = .repeat_) :
    Follows short tokens i (repeatLoop n body)
      (Parse.skip >>= fun _ => Parse.repeatLoop room body' t.line) :=
  follows_again_bind ht hk (by decide) (follows_expect_bind (by decide) fun _ _ _ =>
    (follows_condition (by omega) (hroom.imp_right (by omega))).bind fun _ j hj =>
      (follows_endLine (by omega)).bind fun _ k hk => (h k (by omega)).map _)

/-- A `for` loop follows from its word on. -/
theorem follows_forLoop (hk : t.kind = .for_) :
    Follows short tokens i (forLoop n body) (Parse.skip >>= fun _ => Parse.forLoop room body' t.line) :=
  follows_again_bind ht hk (by decide) (follows_expect_bind (by decide) fun _ _ _ =>
    follows_expect_bind (by decide) fun _ _ _ =>
      (follows_expression (by omega) (hroom.imp_right (by omega))).bind fun _ j hj =>
        follows_expect_bind (by decide) fun _ _ _ =>
          (follows_expression (by omega) (hroom.imp_right (by omega))).bind fun _ k hk =>
            (follows_endLine (by omega)).bind fun _ m hm => (h m (by omega)).map _)

end Statement

/-- A statement starts with a token, which has been looked at. The one side is
given a number for the loops and the depth at once, the other room for its
depth. -/
theorem follows_statement (ht : tokens[i]? = some t) (hn : tokens.length < i + n)
    (hroom : short ∨ 4 * (tokens.length + 1) ≤ room + 4 * i) :
    Follows short tokens i (statement n) (Parse.statement room) := by
  induction n generalizing i room t with
  | zero => exact fun hi => absurd hi (by omega)
  | succ n ih =>
    have hi : i < tokens.length := (List.getElem?_eq_some_iff.1 ht).1
    rcases room with _ | _ | _ | _ | room
    -- without room for a statement nothing is read, and that was allowed for
    iterate 4 exact follows_tooDeep (hroom.resolve_right (by omega))
    -- a statement takes a token, so its blocks are given one less to count with
    have hblock {r : Nat} (hr : room ≤ r) (j : Nat) (hj : i < j) :
        Follows short tokens j (block n (statement n)) (Parse.block (Parse.statement r)) :=
      follows_block (fun k u hk hu => ih hu (by omega) (hroom.imp_right (by omega)))
        (Parse.consumes_statement r) (by omega)
    have hn' : tokens.length < i + 1 + n := by omega
    have hroom' : short ∨ 3 * (tokens.length + 1) ≤ room + 3 * (i + 1) := hroom.imp_right (by omega)
    unfold statement Parse.statement
    refine follows_peek_bind ?_
    rw [ht]
    simp only [seen_some, pure_bind]
    generalize hk : t.kind = kind
    cases kind
    case if_ => exact follows_ifChain (hblock le_rfl) hn' hroom' ht hk
    case while_ => exact follows_whileLoop (hblock (Nat.le_succ room)) hn' hroom' ht hk
    case for_ => exact follows_forLoop (hblock (Nat.le_succ room)) hn' hroom' ht hk
    case repeat_ => exact follows_repeatLoop (hblock (Nat.le_succ room)) hn' hroom' ht hk
    case identifier => exact follows_nameStatement hn' hroom' ht hk
    all_goals exact follows_failHere _

/-! ## Functions

The loops over declarations and functions go by the tokens left on the one side
and by a bound on the other, and end together.
-/

/-- The words of the declarations are told by one look, and taken after it.
Which of the two it was is compared again after the look on one side; on the
other each word is taken for itself. -/
theorem follows_localsFrom {m : Nat} (hn : tokens.length < i + n) (hm : tokens.length < i + m)
    {rounds : List Token} (hrounds : tokens.length ≤ i + rounds.length) :
    Follows short tokens i (localsFrom n m) (Parse.localsFrom rounds) := by
  induction m generalizing i rounds with
  | zero => exact fun hi => absurd hi (by omega)
  | succ m ih =>
    have hstart : localsFrom n (m + 1) (place tokens i) =
        (if (tokens[i]?.any fun t => t.kind == .constants) || tokens[i]?.any fun t => t.kind == .variables_
          then advance >>= fun t =>
            if t.kind = .constants then
              groups (constantGroup n) .endOfLine n >>= fun ds => endLine n >>= fun _ =>
                localsFrom n m >>= fun more => pure (ds.map Local.constant ++ more)
            else
              groups (variableGroup n) .endOfLine n >>= fun ds => endLine n >>= fun _ =>
                localsFrom n m >>= fun more => pure (ds.map Local.var ++ more)
          else pure []) (place tokens i) := rfl
    cases rounds with
    | nil =>
      rw [List.getElem?_eq_none (by simpa using hrounds)] at hstart
      exact (follows_pure []).still hstart rfl
    | cons r rounds =>
      rw [List.length_cons] at hrounds
      -- what follows the word is the same for constants and variables
      have hmore {δ : Type} {group : Walk (List δ)} {group' : Parse (List δ)} (declare : δ → Local)
          (hgroup : ∀ j, i + 1 ≤ j → Follows short tokens j group group') :
          Follows short tokens (i + 1) (groups group .endOfLine n >>= fun ds => endLine n >>= fun _ =>
              localsFrom n m >>= fun more => pure (ds.map declare ++ more))
            (Parse.groups group' .endOfLine >>= fun ds => Parse.endLine >>= fun _ =>
              Parse.localsFrom rounds >>= fun more => pure (ds.map declare ++ more)) :=
        (follows_groups hgroup _ (by omega)).bind fun ds j hj => (follows_endLine (by omega)).bind
          fun _ k hk => (ih (by omega) (by omega) (by omega)).map _
      rcases next_cases tokens i .constants with ⟨t, ht, hk⟩ | hne
      · refine (@hmore _ (constantGroup n) _ Local.constant fun j hj =>
          follows_constantGroup (by omega)).step ht (by rw [hk]; decide) ?_
          (bind_eq (parseTake?_of_eq ht hk))
        rw [hstart, ht, if_pos (by simp [hk]), bind_eq (advance_place ht), if_pos hk]
      have hstart' : Parse.localsFrom (r :: rounds) (cursor tokens i) = _ :=
        bind_eq (parseTake?_of_ne hne)
      rcases next_cases tokens i .variables_ with ⟨t, ht, hk⟩ | hne'
      · refine (@hmore _ (variableGroup n) _ Local.var fun j hj =>
          follows_variableGroup (by omega)).step ht (by rw [hk]; decide) ?_
          (hstart'.trans (bind_eq (parseTake?_of_eq ht hk)))
        rw [hstart, ht, if_pos (by simp [hk]), bind_eq (advance_place ht), if_neg (hne t ht)]
      · refine (follows_pure []).still ?_ (hstart'.trans (bind_eq (parseTake?_of_ne hne')))
        rw [hstart, if_neg]
        cases ht : tokens[i]? with
        | none => simp
        | some t => simpa using ⟨hne t ht, hne' t ht⟩

/-- **Functions follow**, given turns for all tokens that are left and room for
their nesting. -/
theorem follows_function (hn : tokens.length < i + n)
    (hroom : short ∨ 4 * (tokens.length + 1) ≤ room + 4 * i) :
    Follows short tokens i (function n) (Parse.function room) := by
  refine follows_expect_bind (by decide) fun start _ _ => follows_expect_bind (by decide) fun name _ _ =>
    follows_expect_bind (by decide) fun _ _ _ => ?_
  refine (follows_groups (fun j hj => follows_variableGroup (by omega)) _ (by omega)).bind
    fun parameters j hj => follows_expect_bind (by decide) fun _ _ _ =>
      (follows_endLine (by omega)).bind fun _ k hk => follows_remaining_bind ?_
  refine (follows_localsFrom (by omega) (by omega) (by rw [List.length_drop]; omega)).bind
    fun locals m hm => follows_at_bind fun b => ?_
  cases b with
  | true =>
    exact (follows_block (fun p t hp ht => follows_statement ht (by omega)
      (hroom.imp_right (by omega))) (Parse.consumes_statement room) (by omega)).map _
  | false => exact follows_pure _

end Stepwise
end Shank
