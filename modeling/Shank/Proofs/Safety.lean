/-
# Parsing is safe

Any list of tokens is parsed safely (`ParsedSafely`), whatever their kinds and
texts are. The parser that is carried out step by step does not go round for
ever and takes no token that is missing; the position stays within the tokens,
and the level is the balance of those in front of it, and not negative. It comes
to a program, or to a syntax fault, or to the numeral of the token taken last,
which is no number. And so does the parser of `Shank.Parse`, if there is room
for the nesting.

The two parsers are compared position by position (`follows_program`). The first
is bounded by turns and the second by room, and with enough of both they come to
the same. So what is plain of the parser of `Shank.Parse`, which goes by
recursion and takes tokens off a list, is shown of the one that has to check it:
that it ends, and that no token is missing.
-/

import Shank.Proofs.Parse.Lockstep

namespace Shank

open Token (balance)
open Parse (cursor cursor_eq_cons)

namespace Parse

/-- The functions that are parsed, put into a program. -/
def functionsInto (room : Nat) (rounds : List Token) (p : Program) : Parse Program := fun c =>
  let r := Parsing.functionsFrom room rounds c
  match r.halt with
  | none => .ok (r.functions.foldl Program.insert p) r.stop
  | some h => .error h r.stop

/-- Where no token is left the program is done. -/
theorem functionsInto_end (room : Nat) (rounds : List Token) (p : Program) (level : Int) :
    functionsInto room rounds p ⟨[], level⟩ = .ok p ⟨[], level⟩ := by
  rw [functionsInto, functionsFrom_nil]
  rfl

/-- While a token is left, a function is parsed, put into the program, and the
line ends behind it are skipped. -/
theorem functionsInto_cons (room : Nat) (r : Token) (rounds : List Token) (p : Program) (t : Token)
    (rest : List Token) (level : Int) :
    functionsInto room (r :: rounds) p ⟨t :: rest, level⟩ =
      (function room >>= fun f => skipLineEnds >>= fun _ => functionsInto room rounds (p.insert f))
        ⟨t :: rest, level⟩ := by
  have hround (g : Function → Parse Program) :
      (function room >>= fun f => skipLineEnds >>= fun _ => g f) = functionRound room >>= g := by
    simp only [functionRound, bind_assoc, pure_bind]
  rw [hround, functionsInto, functionsFrom_cons, bind_apply]
  cases functionRound room ⟨t :: rest, level⟩ <;> rfl

/-- A program is parsed, and the level at its end looked at. -/
def whole (room : Nat) : Parse Program := do
  skipLineEnds
  let p ← functionsInto room (← remaining) {}
  let level := (← get).level
  if level = 0 then pure p else failAt (.unbalanced level) none

end Parse

/-- The parser of a whole program gives what a parsing tells, and stops where it
stops. -/
theorem Parsing.whole_eq (tokens : List Token) (room : Nat) : Parse.whole room ⟨tokens, 0⟩ =
    match (ofTokens tokens room).program with
    | .ok p => .ok p (ofTokens tokens room).stop
    | .error h => .error h (ofTokens tokens room).stop := by
  have hinto : Parse.functionsInto room (Parse.pastLineEnds tokens) {} ⟨Parse.pastLineEnds tokens, 0⟩ =
      match (ofTokens tokens room).halt with
      | none => .ok (Program.ofList (ofTokens tokens room).functions) (ofTokens tokens room).stop
      | some h => .error h (ofTokens tokens room).stop := rfl
  have hwhole : Parse.whole room ⟨tokens, 0⟩ =
      (Parse.functionsInto room (Parse.pastLineEnds tokens) {} >>= fun p => get >>= fun c =>
        if c.level = 0 then pure p else Parse.failAt (.unbalanced c.level) none)
        ⟨Parse.pastLineEnds tokens, 0⟩ := rfl
  rw [hwhole, bind_apply, hinto, program]
  cases (ofTokens tokens room).halt with
  | some h => rfl
  | none =>
    by_cases hlevel : (ofTokens tokens room).stop.level = 0
    · dsimp only
      rw [if_pos hlevel, bind_eq (x := get) rfl, if_pos hlevel]
      rfl
    · dsimp only
      rw [if_neg hlevel, bind_eq (x := get) rfl, if_neg hlevel]
      rfl

namespace Stepwise

variable {short : Prop} {tokens : List Token} {i n room : Nat}

/-- In each round a function is parsed, which takes a token. -/
theorem follows_functionsFrom {m : Nat} (hn : tokens.length < i + n)
    (hroom : short ∨ 4 * (tokens.length + 1) ≤ room + 4 * i) (hm : tokens.length < i + m)
    {rounds : List Token} (hrounds : tokens.length ≤ i + rounds.length) (p : Program) :
    Follows short tokens i (functionsFrom n m p) (Parse.functionsInto room rounds p) := by
  induction m generalizing i rounds p with
  | zero => exact fun hi => absurd hi (by omega)
  | succ m ih =>
    cases ht : tokens[i]? with
    | none =>
      have hend : cursor tokens i = ⟨[], balance (tokens.take i)⟩ := by
        rw [← Parse.rest_eq_nil ht]
        rfl
      refine (follows_peek_end (List.getElem?_eq_none_iff.1 ht) (follows_pure p)).still rfl ?_
      rw [hend, Parse.functionsInto_end]
      rfl
    | some t =>
      have hi : i < tokens.length := (List.getElem?_eq_some_iff.1 ht).1
      cases rounds with
      | nil => exact absurd hrounds (by simpa using hi)
      | cons r rounds =>
        rw [List.length_cons] at hrounds
        have hround : Follows short tokens i
            (function n >>= fun f => skipLineEnds n >>= fun _ => functionsFrom n m (p.insert f))
            (Parse.function room >>= fun f => Parse.skipLineEnds >>= fun _ =>
              Parse.functionsInto room rounds (p.insert f)) := by
          refine (follows_function hn hroom).bind_of_ok fun f j hij hf => ?_
          have hlt := Parse.consumes_function room _ _ _ hf
          simp only [cursor, List.length_drop] at hlt
          exact (follows_skipLineEnds (by omega)).bind fun _ k hk =>
            ih (by omega) (hroom.imp_right (by omega)) (by omega) (by omega) _
        refine hround.still ?_ ?_
        · rw [functionsFrom, bind_eq (peek_place tokens i), ht]
        · rw [cursor_eq_cons ht, Parse.functionsInto_cons]

/-- **The parser step by step follows the one of `Shank.Parse`** over any list
of tokens, given as many turns for its loops as there are tokens, and room for
their nesting. -/
theorem follows_program (hn : tokens.length < n)
    (hroom : short ∨ 4 * (tokens.length + 1) ≤ room) :
    Follows short tokens 0 (program n) (Parse.whole room) := by
  refine (follows_skipLineEnds (by omega)).bind fun _ j hj => follows_remaining_bind ?_
  refine (follows_functionsFrom (by omega) (hroom.imp_right (by omega)) (by omega)
    (by rw [List.length_drop]; omega) {}).bind fun p k hk => ?_
  have hlevel : Follows short tokens k
      (if balance (tokens.take k) = 0 then pure p else failAt (.unbalanced (balance (tokens.take k))) none)
      (if balance (tokens.take k) = 0 then pure p
        else Parse.failAt (.unbalanced (balance (tokens.take k))) none) := by
    split
    · exact follows_pure p
    · exact follows_failAt _ _
  exact hlevel.still rfl rfl

/-- What can come of tokens when a parser has got to a position: a program, a
syntax fault, or the refusal of the numeral in front of the position. -/
inductive Outcome (tokens : List Token) : Nat → Except ParseHalt Program → Prop
  | program {j : Nat} (p : Program) : Outcome tokens j (.ok p)
  | fault {j : Nat} (e : SyntaxFault) : Outcome tokens j (.error (.fault e))
  | numeral {k : Nat} {t : Token} {r : Numeral.Refusal} (ht : tokens[k]? = some t)
      (hk : t.kind = .number) (hr : t.IsRefused r) : Outcome tokens (k + 1) (.error (.numeral r))

/-- What comes of tokens, with the state in which the parser stops. -/
def ending : Except ParseHalt Program → State → EStateM.Result Stop State Program
  | .ok p, s => .ok p s
  | .error h, s => .error (.halt h) s

/-- What a parser ends with tells the result and the state. -/
theorem ending_inj {r r' : Except ParseHalt Program} {s s' : State} (h : ending r s = ending r' s') :
    r = r' ∧ s = s' := by
  cases r <;> cases r' <;> cases h <;> exact ⟨rfl, rfl⟩

/-- **Both parsers come to the same**, if there is room: the parser that checks
each of its steps ends as the other does and at the same position, or the other
is out of room. -/
theorem exists_outcome (hn : tokens.length < n) (hroom : short ∨ 4 * (tokens.length + 1) ≤ room) :
    ∃ j, j ≤ tokens.length ∧ (∀ k ≤ j, 0 ≤ balance (tokens.take k)) ∧
      (parse n tokens = ending (Parsing.ofTokens tokens room).program (place tokens j) ∧
          (Parsing.ofTokens tokens room).stop = cursor tokens j ∧
          Outcome tokens j (Parsing.ofTokens tokens room).program ∨
        short ∧ (Parsing.ofTokens tokens room).program = .error .tooDeep) := by
  obtain ⟨j, -, hj, hfloor, hsame⟩ := follows_program hn hroom (Nat.zero_le _)
  have hwhole : Parse.whole room (cursor tokens 0) = _ := Parsing.whole_eq tokens room
  rw [show program n (place tokens 0) = parse n tokens from rfl, hwhole] at hsame
  refine ⟨j, hj, fun k hk => hfloor k (Nat.zero_le k) hk, ?_⟩
  generalize (Parsing.ofTokens tokens room).program = r, (Parsing.ofTokens tokens room).stop = c,
    parse n tokens = x at hsame
  cases r with
  | ok p =>
    cases hsame with
    | ok => exact .inl ⟨rfl, rfl, .program p⟩
  | error h =>
    cases hsame with
    | fault e => exact .inl ⟨rfl, rfl, .fault e⟩
    | numeral ht hk hr => exact .inl ⟨rfl, rfl, .numeral ht hk hr⟩
    | tooDeep hshort => exact .inr ⟨hshort, rfl⟩

/-- Within a list of tokens different positions have different cursors: fewer
tokens are left. -/
theorem cursor_inj {j k : Nat} (hj : j ≤ tokens.length) (hk : k ≤ tokens.length)
    (h : cursor tokens j = cursor tokens k) : j = k := by
  have hrest := congrArg (fun c => c.rest.length) h
  simp only [cursor, List.length_drop] at hrest
  omega

/-- Tokens are parsed safely to a result, and the parser stops in a state. -/
structure ParsedSafely (tokens : List Token) (r : Except ParseHalt Program) (s : State) : Prop where
  /-- The parser ends. Whatever bound is put on what it does, it stays below
  that if it is more than the tokens, and no token is missing. -/
  ends : ∀ n, tokens.length < n → parse n tokens = ending r s
  outcome : Outcome tokens s.now.position r
  /-- The position is within the tokens at each moment. -/
  inside : ∀ m ∈ s.moments, m.position ≤ tokens.length
  /-- The level counts the blocks that are open at each moment. -/
  level : ∀ m ∈ s.moments, 0 ≤ m.level ∧ m.level =
    ((tokens.take m.position).countP (·.kind = .indent) : Int) -
      (tokens.take m.position).countP (·.kind = .dedent)
  /-- It is what comes of the tokens within a room, at the same position, unless
  the room is too small. -/
  agrees : ∀ room, (Parsing.ofTokens tokens room).program = r ∧
      (Parsing.ofTokens tokens room).stop = ⟨tokens.drop s.now.position, s.now.level⟩ ∨
    (Parsing.ofTokens tokens room).program = .error .tooDeep ∧ room < 4 * (tokens.length + 1)

/-- **All tokens are parsed safely**, whatever their kinds and texts. The parser
that checks each of its steps ends with one result, in one state, whatever bound
above the number of tokens it is given. It takes no token that is missing, and
all that is said of its moments holds; and the parser of `Shank.Parse` comes to
the same, unless it has less room than `4 * (tokens.length + 1)`. -/
theorem exists_parsedSafely (tokens : List Token) : ∃ r s, ParsedSafely tokens r s := by
  obtain ⟨j, hj, hfloor, hrun⟩ := @exists_outcome False tokens _ _ (Nat.lt_succ_self _) (.inr le_rfl)
  obtain ⟨hparse, hstop, houtcome⟩ := hrun.resolve_right fun h => h.1
  have hmoment (m : Moment) (hm : m ∈ (place tokens j).moments) : ∃ k ≤ j, m = moment tokens k := by
    rw [moments_place, List.mem_reverse, List.mem_map] at hm
    obtain ⟨k, hk, rfl⟩ := hm
    exact ⟨k, Nat.le_of_lt_succ (List.mem_range.1 hk), rfl⟩
  refine ⟨_, place tokens j, fun n hn => ?_, houtcome, fun m hm => ?_, fun m hm => ?_, fun room => ?_⟩
  · obtain ⟨k, hk, -, hrun'⟩ := @exists_outcome False tokens _ _ hn (.inr le_rfl)
    obtain ⟨hparse', hstop', -⟩ := hrun'.resolve_right fun h => h.1
    obtain rfl : j = k := cursor_inj hj hk (hstop.symm.trans hstop')
    exact hparse'
  · obtain ⟨k, hk, rfl⟩ := hmoment m hm
    exact hk.trans hj
  · obtain ⟨k, hk, rfl⟩ := hmoment m hm
    exact ⟨hfloor k hk, Token.balance_eq_countP _⟩
  · obtain ⟨k, hk, -, hrun' | ⟨hshort, htooDeep⟩⟩ :=
      exists_outcome (Nat.lt_succ_self tokens.length) (Nat.lt_or_ge room (4 * (tokens.length + 1)))
    · obtain ⟨hparse', hstop', -⟩ := hrun'
      obtain ⟨hr, hs⟩ := ending_inj (hparse'.symm.trans hparse)
      obtain rfl : k = j := congrArg (fun s => s.now.position) hs
      exact .inl ⟨hr, hstop'⟩
    · exact .inr ⟨htooDeep, hshort⟩

end Stepwise
end Shank
