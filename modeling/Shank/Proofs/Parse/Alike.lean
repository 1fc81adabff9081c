/-
# All parsers are alike

On coupled token streams each parser comes to the same, up to the numbers of
lines, or the first stream is over. The lemmas follow the parsers, one for each.
A loop is taken round by round, together on both streams (`alike_chainFrom` is
the first of them); only the statements of a block may have more line ends
between them on one side, so a round of `blockFrom` starts with those left out.

What all of these lemmas come to is `alike_functionsFrom`. It is stated for any
`Coupling`, so each theorem that compares two parsings only has to say how its
streams are coupled.
-/

import Shank.Proofs.Parse.Coupling
import Shank.Proofs.Parse.Nesting

namespace Shank
namespace Parse

/-- An argument on a line. -/
def argumentAt (room line : Nat) : Parse Argument := do
  match ← take? .var with
  | some _ =>
    let name ← expect .identifier .variableAfterVar
    pure (.reference line name.text name.line)
  | none => pure (.value line (← condition room))

/-- An argument is on the line of its first token. This is looked at before it
is parsed. -/
theorem argument_eq_at (room : Nat) :
    argument room = peek >>= fun start => argumentAt room (start.elim 0 Token.line) := by
  rw [argument]
  congr 1
  funext start
  cases start <;> rfl

/-- The rest of a branch whose word is on `line`, and the branches after it. -/
def branchesFrom (room : Nat) (body : Parse (List Stmt)) (rounds : List Token) (line : Nat) :
    Parse (List Branch) := do
  let b ← branch room body line
  return b :: (← moreBranches room body rounds)

/-- What may follow an `else` on `line`: another branch with a condition, or the
last one. -/
def afterElse (room : Nat) (body : Parse (List Stmt)) (rounds : List Token) (line : Nat) :
    Parse (List Branch) := do
  match ← take? .if_ with
  | some t => branchesFrom room body rounds t.line
  | none =>
    endLine
    return [.mk line none (← body)]

/-- What a round of further branches does, by its next token. -/
theorem moreBranches_cons (room : Nat) (body : Parse (List Stmt)) (r : Token) (rounds : List Token)
    (t : Token) (rest : List Token) (level : Int) :
    moreBranches room body (r :: rounds) ⟨t :: rest, level⟩ =
      if t.kind = .elsif then branchesFrom room body rounds t.line ⟨rest, level⟩
      else if t.kind = .else_ then afterElse room body rounds t.line ⟨rest, level⟩
      else .ok [] ⟨t :: rest, level⟩ := by
  rw [moreBranches, bind_apply, take?_cons (by decide)]
  by_cases helsif : t.kind = .elsif
  · rw [if_pos helsif, if_pos helsif]
    rfl
  · rw [if_neg helsif, if_neg helsif]
    dsimp only
    rw [bind_apply, take?_cons (by decide)]
    by_cases helse : t.kind = .else_
    · rw [if_pos helse, if_pos helse]
      rfl
    · rw [if_neg helse, if_neg helse]
      rfl

/-- Behind an `else`, an `if` is the word of the branch: it has the line, as an
`elsif` would have. -/
theorem afterElse_if {room : Nat} {body : Parse (List Stmt)} {rounds : List Token} {line : Nat}
    {t : Token} (ht : t.kind = .if_) (rest : List Token) (level : Int) :
    afterElse room body rounds line ⟨t :: rest, level⟩ =
      branchesFrom room body rounds t.line ⟨rest, level⟩ := by
  rw [afterElse, bind_apply, take?_cons (by decide), if_pos ht]

/-- The first line of a function but for its end: the token it starts with, its
name and parameters. -/
def functionHead : Parse (Token × Token × List Variable) := do
  let start ← expect .define .define
  let name ← expect .identifier .functionName
  let _ ← expect .openParen .openParen
  let parameters ← groups variableGroup .closeParen
  let _ ← expect .closeParen .closeParen
  pure (start, name, parameters)

/-- The lines of a function after the first. -/
def functionBody (room : Nat) (head : Token × Token × List Variable) : Parse Function := do
  let locals ← localsFrom (← remaining)
  let body ← if ← at_ .indent then block (statement room) else pure []
  pure { line := head.1.line, name := head.2.1.text, parameters := head.2.2, locals, body }

/-- A function is its head, the end of this line, and the other lines. -/
theorem function_eq_parts (room : Nat) :
    function room = functionHead >>= fun head => endLine >>= fun _ => functionBody room head := by
  simp only [function, functionHead, functionBody, bind_assoc, pure_bind]

/-! ## Tokens that are taken

A loop on two streams goes round by round, and what is left for the next round
must be less. So here is what takes a token at all: a statement, a function, and
a round that parses a function and skips the line ends behind it.
-/

/-- A statement takes the token that it starts with. -/
theorem consumes_statement (room : Nat) : Consumes (statement room) := by
  rintro ⟨ts, level⟩ s c h
  obtain ⟨k, t, rest, x, -, rfl, hx, hs⟩ := statement_ok h
  have hblock (r : Nat) : Shrinks (block (statement r)) :=
    compositional_shrinks.block (compositional_shrinks.statement r)
  have hshrinks : Shrinks x := by
    cases hx with
    | ifChain => exact compositional_shrinks.ifChain (hblock _) _ _
    | whileLoop => exact compositional_shrinks.whileLoop (hblock _) _ _
    | forLoop => exact compositional_shrinks.forLoop (hblock _) _ _
    | repeatLoop => exact compositional_shrinks.repeatLoop (hblock _) _ _
    | nameStatement => exact compositional_shrinks.nameStatement _ _
  exact (hshrinks.length_le hs).trans_lt (Nat.lt_succ_self _)

/-- A function takes its `define`. -/
theorem consumes_function (room : Nat) : Consumes (function room) :=
  consumes_expect_bind fun start => compositional_shrinks.functionAfter room start

/-- What a round of parsing functions does. -/
def functionRound (room : Nat) : Parse Function := do
  let f ← function room
  skipLineEnds
  pure f

/-- A round of functions leaves the end of the tokens it starts on. -/
theorem shrinks_functionRound (room : Nat) : Shrinks (functionRound room) :=
  compositional_shrinks.bind (compositional_shrinks.function room) fun f =>
    compositional_shrinks.bind compositional_shrinks.skipLineEnds fun _ =>
      compositional_shrinks.pure f

/-- A round of functions takes a token, so there are no more rounds than tokens. -/
theorem consumes_functionRound (room : Nat) : Consumes (functionRound room) := by
  intro c f c₁ h
  obtain ⟨g, c₂, hg, hrest⟩ := bind_ok h
  have hshrinks : Shrinks (skipLineEnds >>= fun _ => (pure g : Parse Function)) :=
    compositional_shrinks.bind compositional_shrinks.skipLineEnds fun _ => compositional_shrinks.pure g
  exact (hshrinks.length_le hrest).trans_lt (consumes_function room c g c₂ hg)

/-- What a round of functions does while a token is left. -/
theorem functionsFrom_cons (room : Nat) (r : Token) (rounds : List Token) (t : Token)
    (rest : List Token) (level : Int) :
    Parsing.functionsFrom room (r :: rounds) ⟨t :: rest, level⟩ =
      match functionRound room ⟨t :: rest, level⟩ with
      | .ok f c =>
        { Parsing.functionsFrom room rounds c with
          functions := f :: (Parsing.functionsFrom room rounds c).functions }
      | .error h c => ⟨[], some h, c⟩ :=
  rfl

/-- Where no token is left no function is parsed. -/
theorem functionsFrom_nil (room : Nat) (rounds : List Token) (level : Int) :
    Parsing.functionsFrom room rounds ⟨[], level⟩ = ⟨[], none, ⟨[], level⟩⟩ := by
  cases rounds <;> rfl

/-- Functions are parsed forward: what is left at the end was left at the start. -/
theorem functionsFrom_suffix (room : Nat) (rounds : List Token) (c : Cursor) :
    (Parsing.functionsFrom room rounds c).stop.rest <:+ c.rest := by
  induction rounds generalizing c with
  | nil => exact List.suffix_rfl
  | cons r rounds ih =>
    obtain ⟨ts, level⟩ := c
    cases ts with
    | nil => exact List.suffix_rfl
    | cons t rest =>
      have hround := shrinks_functionRound room ⟨t :: rest, level⟩
      rw [functionsFrom_cons]
      generalize functionRound room ⟨t :: rest, level⟩ = r at hround
      cases r with
      | ok f c => exact (ih c).trans hround
      | error h c => exact hround

namespace Coupling

variable {κ : Coupling} {n n' : Nat}

/-! ## Expressions

The two streams may differ in an `elsif` for an `else`, and an expression takes
neither: where one of them comes, both sides end the expression there, or refuse
it with the same fault.
-/

/-- Tokens that differ in their places have one number. -/
theorem alike_number {t u : Token} (h : t.renumber κ.lines = u.renumber κ.lines) :
    κ.Alike (κ.Within n n') id (number t) (number u) := by
  have hsame : number t = number u := by simp only [number, (Token.renumber_eq h).2.1]
  rw [hsame, number]
  split <;> split
  · exact alike_pure rfl
  · exact alike_throw (κ.halts_of_eq rfl)
  · exact alike_pure rfl
  · exact alike_throw (κ.halts_of_eq rfl)

/-- Tokens that differ in their places have one character. -/
theorem alike_character {t u : Token} (h : t.renumber κ.lines = u.renumber κ.lines) :
    κ.Alike (κ.Within n n') id (character t) (character u) := by
  unfold character
  rw [(Token.renumber_eq h).2.1]
  split
  · exact alike_pure rfl
  · exact alike_failAt (congrArg some h)

/-- At the end of the tokens a chain ends. -/
theorem chainFrom_end (operand : Parse Expr) (op? : Token.Kind → Option ArithOp)
    (rounds : List Token) (left : Expr) (level : Int) :
    chainFrom operand op? rounds left ⟨[], level⟩ = .ok left ⟨[], level⟩ := by
  cases rounds <;> rfl

/-- No operator of a term is of a kind that the streams may differ in. -/
theorem termOp?_of_isLoose (kind : Token.Kind) (h : IsLoose kind) : termOp? kind = none := by
  rcases h with rfl | rfl | rfl <;> rfl

/-- No operator of a sum is of a kind that the streams may differ in. -/
theorem sumOp?_of_isLoose (kind : Token.Kind) (h : IsLoose kind) : sumOp? kind = none := by
  rcases h with rfl | rfl | rfl <;> rfl

section Expressions

variable {operand : Parse Expr}
  (hoperand : ∀ n n', κ.Alike (κ.Within n n') (Expr.renumber κ.lines) operand operand)

include hoperand

/-- Factors are alike if what stands in their parentheses and brackets is. An
`elsif` and an `else` are both refused. -/
theorem alike_factor :
    κ.Alike (κ.Within n n') (Expr.renumber κ.lines) (factor operand) (factor operand) := by
  refine alike_peek_bind (alike_failHere _)
    (fun kind text line column line' column' hline ht => ?_)
    fun _ _ _ _ _ _ _ _ => (alike_failHere _).from
  -- literals are alike with the same value, whatever lines they are on
  have hliteral {v v' : Scalar} (hv : v = v') :
      (Expr.literal line v).renumber κ.lines = (Expr.literal line' v').renumber κ.lines := by
    rw [Expr.renumber, Expr.renumber, hline, hv]
  -- a kind that may differ on the two sides is none that a factor starts with
  cases kind
  case openParen =>
    exact .skip_bind (by decide) ((hoperand _ _).bind fun _ _ he =>
      (alike_expect (by decide) _).bind fun _ _ _ => alike_pure he)
  case number => exact .skip_bind (by decide) ((alike_number ht).map fun _ _ => hliteral)
  case minus =>
    exact .skip_bind (by decide) ((alike_expect (by decide) _).bind fun _ _ hn =>
      (alike_number hn).map fun _ _ hv => hliteral (congrArg negated hv))
  case identifier =>
    refine .skip_bind (by decide) (alike_take?_bind (by decide) (fun _ _ _ =>
      (hoperand _ _).bind fun _ _ hindex => (alike_expect (by decide) _).bind fun _ _ _ =>
        alike_pure ?_) (alike_pure ?_))
    · rw [Expr.renumber, Expr.renumber, hline, hindex]
    · rw [Expr.renumber, Expr.renumber, hline]
  case stringLiteral => exact .skip_bind (by decide) (alike_pure (hliteral rfl))
  case characterLiteral =>
    exact .skip_bind (by decide) ((alike_character ht).map fun _ _ => hliteral)
  case true_ => exact .skip_bind (by decide) (alike_pure (hliteral rfl))
  case false_ => exact .skip_bind (by decide) (alike_pure (hliteral rfl))
  all_goals exact (alike_failHere _).from

/-- Chains of operators are alike. The induction is on the rounds of both sides;
in each of them an operator is taken, which no `elsif` or `else` is. -/
theorem alike_chainFrom {op? : Token.Kind → Option ArithOp} (hop : ∀ kind, IsLoose kind → op? kind = none)
    (rounds rounds' : List Token) {left left' : Expr}
    (hleft : left.renumber κ.lines = left'.renumber κ.lines) :
    κ.Alike (κ.Within rounds.length rounds'.length) (Expr.renumber κ.lines)
      (chainFrom operand op? rounds left) (chainFrom operand op? rounds' left') := by
  -- without rounds nothing more is read on that side, nor may it be on the other
  have hend (rounds rounds' : List Token) {left left' : Expr}
      (hleft : left.renumber κ.lines = left'.renumber κ.lines)
      (h : rounds.length = 0 ∨ rounds'.length = 0) :
      κ.Alike (κ.Within rounds.length rounds'.length) (Expr.renumber κ.lines)
        (chainFrom operand op? rounds left) (chainFrom operand op? rounds' left') := by
    have hshrinks := compositional_shrinks.chainFrom (hoperand 0 0).shrinks op?
    refine alike_at_end h (hshrinks _ _) (hshrinks _ _) fun level hrel => ?_
    rw [chainFrom_end, chainFrom_end]
    exact .ok hleft hrel rfl
  induction rounds generalizing rounds' left left' with
  | nil => exact hend _ _ hleft (.inl rfl)
  | cons _ rounds ih =>
    cases rounds' with
    | nil => exact hend _ _ hleft (.inr rfl)
    | cons _ rounds' =>
      refine alike_peek_bind (alike_pure hleft) (fun kind text line column line' column' hline _ => ?_)
        fun _ _ _ _ _ _ _ _ => ?_
      · dsimp only
        cases ho : op? kind with
        | none => exact (alike_pure hleft).from
        | some op =>
          have hkind : ¬IsLoose kind := by
            intro h
            rw [hop kind h] at ho
            cases ho
          refine .skip_bind hkind ((hoperand _ _).bind fun _ _ hright => ih _ ?_)
          rw [Expr.renumber, Expr.renumber, hline, hleft, hright]
      · dsimp only
        rw [hop .elsif (by decide), hop .else_ (by decide)]
        exact (alike_pure hleft).from

/-- Chains are alike if their operands are. -/
theorem alike_chain {op? : Token.Kind → Option ArithOp} (hop : ∀ kind, IsLoose kind → op? kind = none) :
    κ.Alike (κ.Within n n') (Expr.renumber κ.lines) (chain operand op?) (chain operand op?) := by
  refine (hoperand _ _).bind fun left left' hleft => alike_peek_bind (alike_pure hleft)
    (fun kind _ _ _ _ _ _ _ => ?_) fun _ _ _ _ _ _ _ _ => ?_
  · dsimp only [Option.bind_some]
    cases op? kind with
    | none => exact (alike_pure hleft).from
    | some _ =>
      exact (alike_remaining_bind fun ts us => alike_chainFrom hoperand hop ts us hleft).from
  · dsimp only [Option.bind_some]
    rw [hop .elsif (by decide), hop .else_ (by decide)]
    exact (alike_pure hleft).from

end Expressions

/-- **Expressions are alike.** The induction is on the room. -/
theorem alike_expression (room n n' : Nat) :
    κ.Alike (κ.Within n n') (Expr.renumber κ.lines) (expression room) (expression room) := by
  induction room using Nat.strong_induction_on generalizing n n' with
  | _ room ih =>
    rcases room with _ | _ | _ | room
    iterate 3 exact alike_throw (κ.halts_of_eq rfl)
    exact alike_chain (fun _ _ => alike_chain (fun _ _ => alike_factor (ih room (by omega)))
      termOp?_of_isLoose) sumOp?_of_isLoose

/-- Conditions are alike: the comparison between two expressions is one token. -/
theorem alike_condition (room : Nat) :
    κ.Alike (κ.Within n n') (Expr.renumber κ.lines) (condition room) (condition room) := by
  refine (alike_expression room _ _).bind fun left left' hleft => alike_peek_bind (alike_pure hleft)
    (fun kind text line column line' column' hline _ => ?_)
    fun _ _ _ _ _ _ _ _ => (alike_pure hleft).from
  dsimp only
  cases ho : compareOp? kind with
  | none => exact (alike_pure hleft).from
  | some op =>
    have hkind : ¬IsLoose kind := by
      rintro (rfl | rfl | rfl) <;> cases ho
    refine .skip_bind hkind ((alike_expression room _ _).map fun _ _ hright => ?_)
    rw [Expr.renumber, Expr.renumber, hline, hleft, hright]

/-! ## Declarations

Nothing in a declaration is spelled in two ways, so what is parsed differs in
its places only. That is told by `Variable.renumber` and `Constant.renumber`, up
to which the results are the same.
-/

/-- The names of kinds are alike. -/
theorem alike_kind : κ.Alike (κ.Within n n') id kind kind := by
  refine alike_peek_bind (alike_failHere _) (fun k _ _ _ _ _ _ _ => ?_)
    fun _ _ _ _ _ _ _ _ => (alike_failHere _).from
  dsimp only [Option.bind_some]
  cases hk : kind? k with
  | none => exact (alike_failHere _).from
  | some _ =>
    have hne : ¬IsLoose k := by
      rintro (rfl | rfl | rfl) <;> cases hk
    exact .skip_bind hne (alike_pure rfl)

/-- Bounds are alike. -/
theorem alike_bound : κ.Alike (κ.Within n n') id bound bound := by
  have hrest (minus : Bool) (n n' : Nat) : κ.Alike (κ.Within n n') id
      (do let t ← expect .number .number; pure (boundOf minus (← number t)))
      (do let t ← expect .number .number; pure (boundOf minus (← number t))) :=
    (alike_expect (by decide) _).bind fun _ _ ht => (alike_number ht).map fun _ _ hv =>
      congrArg (boundOf minus) hv
  exact alike_take?_bind (by decide) (fun _ _ _ => hrest true _ _) (hrest false _ _)

/-- Two bounds are alike, and the tokens they start at, up to the place. What a
bound starts with is needed for the fault only, so one side may be at its end. -/
theorem alike_bounds : κ.Alike (κ.Within n n') (Prod.map (Option.map (Token.renumber κ.lines)) id)
    bounds bounds := by
  refine (alike_expect (by decide) _).bind fun _ _ _ => ?_
  -- where the bounds start is only passed on
  have hrest {start start' : Option Token}
      (hstart : start.map (Token.renumber κ.lines) = start'.map (Token.renumber κ.lines)) :
      κ.Alike (κ.Within n n') (Prod.map (Option.map (Token.renumber κ.lines)) id)
        (do
          let low ← bound
          let _ ← expect .to_ .to_
          let high ← bound
          pure (start, low, high))
        (do
          let low ← bound
          let _ ← expect .to_ .to_
          let high ← bound
          pure (start', low, high)) :=
    alike_bound.bind fun _ _ hlow => (alike_expect (by decide) _).bind fun _ _ _ =>
      alike_bound.map fun _ _ hhigh => Prod.ext hstart (Prod.ext hlow hhigh)
  refine alike_peek_bind (hrest rfl) (fun _ _ _ _ _ _ _ ht => (hrest ?_).from)
    fun hlax _ _ _ _ _ _ _ => alike_of_fails hlax (hrest rfl).shrinks (hrest rfl).shrinks
      (fun _ _ => ⟨_, _, rfl⟩) fun _ _ => ⟨_, _, rfl⟩
  exact congrArg some ht

/-- Bounds of integers are alike, or refused alike. -/
theorem alike_interval : κ.Alike (κ.Within n n') id interval interval := by
  refine alike_bounds.bind fun ⟨start, low, high⟩ ⟨start', low', high'⟩ hb => ?_
  obtain ⟨hstart, hbounds⟩ := Prod.mk.inj hb
  obtain ⟨rfl, rfl⟩ := Prod.mk.inj hbounds
  cases low <;> cases high
  case whole.whole a b =>
    dsimp only
    split
    · exact alike_failAt hstart
    · exact alike_pure rfl
  all_goals exact alike_failAt hstart

/-- Bounds of reals are alike, or refused alike. -/
theorem alike_realInterval : κ.Alike (κ.Within n n') id realInterval realInterval := by
  refine alike_bounds.bind fun ⟨start, low, high⟩ ⟨start', low', high'⟩ hb => ?_
  obtain ⟨hstart, hbounds⟩ := Prod.mk.inj hb
  obtain ⟨rfl, rfl⟩ := Prod.mk.inj hbounds
  dsimp only
  split
  · exact alike_failAt hstart
  · exact alike_pure rfl

/-- Ranges that may be left out are alike if they are so when they are there. -/
theorem alike_ifRange {α : Type} {x : Parse α} (hx : κ.Alike (κ.Within n n') id x x) :
    κ.Alike (κ.Within n n') id (ifRange x) (ifRange x) := by
  refine alike_at_bind (by decide) fun b => ?_
  cases b with
  | false => exact alike_pure rfl
  | true =>
    show κ.Alike _ id (x >>= fun a => pure (some a)) (x >>= fun a => pure (some a))
    exact hx.map fun _ _ ha => congrArg some ha

/-- Ranges that may not be there are refused alike. -/
theorem alike_noRange (k : Kind) : κ.Alike (κ.Within n n') id (noRange k) (noRange k) := by
  refine alike_at_bind (by decide) fun b => ?_
  cases b with
  | false => exact alike_pure rfl
  | true => exact alike_failHere _

/-- **Types are alike.** -/
theorem alike_type : κ.Alike (κ.Within n n') id type type := by
  refine alike_take?_bind (by decide) (fun _ _ _ => ?_) (alike_kind.bind fun k k' hk => ?_)
  · refine alike_interval.bind fun i i' hi => (alike_expect (by decide) _).bind fun _ _ _ =>
      alike_kind.map fun k k' hk => ?_
    obtain rfl : i = i' := hi
    obtain rfl : k = k' := hk
    rfl
  · obtain rfl : k = k' := hk
    cases k with
    | integer =>
      exact (alike_ifRange alike_interval).map fun _ _ hr => congrArg (DeclaredType.scalar <| .integer ·) hr
    | real =>
      exact (alike_ifRange alike_realInterval).map fun _ _ hr => congrArg (DeclaredType.scalar <| .real ·) hr
    | string =>
      exact (alike_ifRange alike_interval).map fun _ _ hr => congrArg (DeclaredType.scalar <| .string ·) hr
    | character | boolean => exact (alike_noRange _).map fun _ _ _ => rfl

/-- The literals of constants are alike, up to their lines. -/
theorem alike_constantValue :
    κ.Alike (κ.Within n n') (Prod.map κ.lines id) constantValue constantValue := by
  refine alike_peek_bind (alike_failHere _)
    (fun kind text line column line' column' hline ht => ?_)
    fun _ _ _ _ _ _ _ _ => (alike_failHere _).from
  cases kind
  case minus =>
    exact .skip_bind (by decide) ((alike_expect (by decide) _).bind fun _ _ hn =>
      (alike_number hn).map fun _ _ hv => Prod.ext hline (congrArg negated hv))
  case number =>
    exact .skip_bind (by decide) ((alike_number ht).map fun _ _ hv => Prod.ext hline hv)
  case stringLiteral => exact .skip_bind (by decide) (alike_pure (Prod.ext hline rfl))
  case characterLiteral =>
    exact .skip_bind (by decide) ((alike_character ht).map fun _ _ hv => Prod.ext hline hv)
  case true_ => exact .skip_bind (by decide) (alike_pure (Prod.ext hline rfl))
  case false_ => exact .skip_bind (by decide) (alike_pure (Prod.ext hline rfl))
  all_goals exact (alike_failHere _).from

/-- At the end of the tokens there are no further names. -/
theorem moreNames_end (rounds : List Token) (level : Int) :
    moreNames rounds ⟨[], level⟩ = .ok [] ⟨[], level⟩ := by
  cases rounds <;> rfl

/-- Further names are alike, round by round. -/
theorem alike_moreNames (rounds rounds' : List Token) :
    κ.Alike (κ.Within rounds.length rounds'.length) (List.map (Token.renumber κ.lines))
      (moreNames rounds) (moreNames rounds') := by
  refine alike_rounds compositional_shrinks.moreNames (fun _ _ level hrel => ?_)
    (fun _ rounds _ rounds' ih => ?_) rounds rounds'
  · rw [moreNames_end, moreNames_end]
    exact .ok rfl hrel rfl
  · refine alike_take?_bind (by decide) (fun _ _ _ => (alike_expect (by decide) _).bind
      fun t u htu => ih.map fun ts us hts => ?_) (alike_pure rfl)
    rw [List.map_cons, List.map_cons, htu, hts]

/-- Lists of names are alike, up to the places of the names. -/
theorem alike_names :
    κ.Alike (κ.Within n n') (List.map (Token.renumber κ.lines)) names names := by
  refine (alike_expect (by decide) _).bind fun t u htu => alike_remaining_bind fun ts us =>
    (alike_moreNames ts us).map fun ts us hts => ?_
  rw [List.map_cons, List.map_cons, htu, hts]

/-- Groups of variables are alike, up to lines. -/
theorem alike_variableGroup :
    κ.Alike (κ.Within n n') (List.map (Variable.renumber κ.lines)) variableGroup variableGroup := by
  -- behind `var` the two forms of a group are the same
  have hrest (isVar : Bool) (n n' : Nat) :
      κ.Alike (κ.Within n n') (List.map (Variable.renumber κ.lines))
        (do
          let names ← names
          let _ ← expect .colon .colon
          let type ← type
          pure (names.map fun t => { line := t.line, name := t.text, type, isVar : Variable }))
        (do
          let names ← names
          let _ ← expect .colon .colon
          let type ← type
          pure (names.map fun t => { line := t.line, name := t.text, type, isVar : Variable })) := by
    refine alike_names.bind fun ts us hts => (alike_expect (by decide) _).bind fun _ _ _ =>
      alike_type.map fun type type' htype => ?_
    obtain rfl : type = type' := htype
    have h := congrArg (List.map fun t : Token =>
      ({ line := t.line, name := t.text, type, isVar } : Variable)) hts
    rw [List.map_map, List.map_map] at h ⊢
    exact h
  exact alike_take?_bind (by decide) (fun _ _ _ => hrest true _ _) (hrest false _ _)

/-- Groups of constants are alike, up to lines. -/
theorem alike_constantGroup :
    κ.Alike (κ.Within n n') (List.map (Constant.renumber κ.lines)) constantGroup constantGroup := by
  refine alike_take?_bind (by decide) (fun _ _ _ => alike_names.bind fun ts us hts => ?_)
    (alike_names.bind fun ts us hts => (alike_expect (by decide) _).bind fun _ _ _ =>
      alike_constantValue.map fun v v' hv => ?_)
  · refine alike_failAt ?_
    rw [← List.head?_map, ← List.head?_map, hts]
  · obtain ⟨line, v⟩ := v
    obtain ⟨line', v'⟩ := v'
    obtain ⟨hline, rfl⟩ : κ.lines line = κ.lines line' ∧ v = v' := Prod.mk.inj hv
    have hmap (line : Nat) (ts : List Token) :
        (ts.map fun t => (⟨t.line, t.text, v, line⟩ : Constant)).map (Constant.renumber κ.lines) =
          (ts.map (Token.renumber κ.lines)).map fun t => ⟨t.line, t.text, v, κ.lines line⟩ := by
      rw [List.map_map, List.map_map]
      rfl
    rw [hmap, hmap, hts, hline]

section Groups

variable {α : Type} {r : α → α} {group : Parse (List α)}
  (hgroup : ∀ n n', κ.Alike (κ.Within n n') (List.map r) group group)
  (hfail : ∀ level, ∃ h, group ⟨[], level⟩ = .error h ⟨[], level⟩)

include hfail in
/-- At the end of the tokens a list of groups asks for another group, which
fails there. -/
theorem groupsFrom_end (terminator : Token.Kind) (rounds : List Token) (level : Int) :
    groupsFrom group terminator rounds ⟨[], level⟩ = group ⟨[], level⟩ := by
  cases rounds with
  | nil => rfl
  | cons _ rounds =>
    obtain ⟨h, hh⟩ := hfail level
    have hat : at_ terminator ⟨[], level⟩ = .ok false ⟨[], level⟩ := rfl
    rw [groupsFrom, bind_eq hat, if_neg Bool.false_ne_true, bind_apply, hh]

include hgroup hfail in
/-- Lists of groups are alike if groups are. The terminator is of a kind that
the streams have in common. -/
theorem alike_groupsFrom {terminator : Token.Kind}
    (hterminator : terminator ≠ .elsif ∧ terminator ≠ .else_) (rounds rounds' : List Token) :
    κ.Alike (κ.Within rounds.length rounds'.length) (List.map r) (groupsFrom group terminator rounds)
      (groupsFrom group terminator rounds') := by
  refine alike_rounds (compositional_shrinks.groupsFrom (hgroup 0 0).shrinks terminator)
    (fun _ _ level _ => ?_) (fun _ rounds _ rounds' ih => ?_) rounds rounds'
  · obtain ⟨h, hh⟩ := hfail level
    rw [groupsFrom_end hfail, groupsFrom_end hfail, hh]
    exact .error (κ.halts_of_eq rfl)
  · refine alike_at_bind hterminator fun b => ?_
    cases b with
    | true => exact alike_pure rfl
    | false =>
      refine (hgroup _ _).bind fun first first' hfirst => alike_take?_bind (by decide)
        (fun _ _ _ => ih.map fun rest rest' hrest => ?_) (alike_pure hfirst)
      rw [List.map_append, List.map_append, hfirst, hrest]

include hgroup hfail in
/-- Lists of groups that may be empty are alike if groups are. -/
theorem alike_groups {terminator : Token.Kind}
    (hterminator : terminator ≠ .elsif ∧ terminator ≠ .else_) :
    κ.Alike (κ.Within n n') (List.map r) (groups group terminator) (groups group terminator) :=
  alike_remaining_bind fun ts us => alike_groupsFrom hgroup hfail hterminator ts us

end Groups

/-- Declarations of variables are alike. -/
theorem alike_variables {terminator : Token.Kind}
    (hterminator : terminator ≠ .elsif ∧ terminator ≠ .else_) :
    κ.Alike (κ.Within n n') (List.map (Variable.renumber κ.lines)) (groups variableGroup terminator)
      (groups variableGroup terminator) :=
  alike_groups (fun _ _ => alike_variableGroup) (fun _ => ⟨_, rfl⟩) hterminator

/-- Declarations of constants are alike. -/
theorem alike_constants {terminator : Token.Kind}
    (hterminator : terminator ≠ .elsif ∧ terminator ≠ .else_) :
    κ.Alike (κ.Within n n') (List.map (Constant.renumber κ.lines)) (groups constantGroup terminator)
      (groups constantGroup terminator) :=
  alike_groups (fun _ _ => alike_constantGroup) (fun _ => ⟨_, rfl⟩) hterminator

/-- At the end of the tokens there are no local declarations. -/
theorem localsFrom_end (rounds : List Token) (level : Int) :
    localsFrom rounds ⟨[], level⟩ = .ok [] ⟨[], level⟩ := by
  cases rounds <;> rfl

/-- Declarations that are the same up to lines stay so in front of others that
are. -/
theorem map_locals {g : Nat → Nat} {α : Type} (declare : α → Local) {r : α → α}
    (hr : ∀ d, (declare d).renumber g = declare (r d)) {ds ds' : List α} {rest rest' : List Local}
    (hds : ds.map r = ds'.map r)
    (hrest : rest.map (Local.renumber g) = rest'.map (Local.renumber g)) :
    (ds.map declare ++ rest).map (Local.renumber g) =
      (ds'.map declare ++ rest').map (Local.renumber g) := by
  have hmap (ds : List α) : (ds.map declare).map (Local.renumber g) = (ds.map r).map declare := by
    rw [List.map_map, List.map_map]
    exact List.map_congr_left fun d _ => hr d
  rw [List.map_append, List.map_append, hmap, hmap, hds, hrest]

/-- **Local declarations are alike**, round by round. -/
theorem alike_localsFrom (rounds rounds' : List Token) :
    κ.Alike (κ.Within rounds.length rounds'.length) (List.map (Local.renumber κ.lines))
      (localsFrom rounds) (localsFrom rounds') := by
  refine alike_rounds compositional_shrinks.localsFrom (fun _ _ level hrel => ?_)
    (fun _ rounds _ rounds' ih => ?_) rounds rounds'
  · rw [localsFrom_end, localsFrom_end]
    exact .ok rfl hrel rfl
  · exact alike_take?_bind (by decide)
      (fun _ _ _ => (alike_constants (by decide)).bind fun _ _ hds => alike_endLine.bind fun _ _ _ =>
        ih.map fun _ _ hrest => map_locals .constant (fun _ => rfl) hds hrest)
      (alike_take?_bind (by decide)
        (fun _ _ _ => (alike_variables (by decide)).bind fun _ _ hds => alike_endLine.bind fun _ _ _ =>
          ih.map fun _ _ hrest => map_locals .var (fun _ => rfl) hds hrest)
        (alike_pure rfl))

/-! ## Lines of a block

A call or an assignment has taken its name when it is parsed, so the place of
that name is among what may differ from the start.
-/

/-- Arguments on corresponding lines are alike. -/
theorem alike_argumentAt (room : Nat) {line line' : Nat} (hline : κ.lines line = κ.lines line') :
    κ.Alike (κ.Within n n') (Argument.renumber κ.lines) (argumentAt room line)
      (argumentAt room line') := by
  refine alike_take?_bind (by decide) (fun _ _ _ => (alike_expect (by decide) _).map
    fun t u htu => ?_) ((alike_condition room).map fun e e' he => ?_)
  · obtain ⟨-, htext, hname, -⟩ := Token.renumber_eq htu
    rw [Argument.renumber, Argument.renumber, hline, htext, hname]
  · rw [Argument.renumber, Argument.renumber, hline, he]

/-- Arguments are alike, with the lines of their first tokens. -/
theorem alike_argument (room : Nat) :
    κ.Alike (κ.Within n n') (Argument.renumber κ.lines) (argument room) (argument room) := by
  rw [argument_eq_at]
  exact alike_peek_bind (alike_argumentAt room rfl)
    (fun _ _ _ _ _ _ hline _ => (alike_argumentAt room hline).from)
    fun _ _ _ _ _ _ _ hline => (alike_argumentAt room hline).from

/-- At the end of the tokens there are no further arguments. -/
theorem moreArguments_end (room : Nat) (rounds : List Token) (level : Int) :
    moreArguments room rounds ⟨[], level⟩ = .ok [] ⟨[], level⟩ := by
  cases rounds <;> rfl

/-- Further arguments are alike, round by round. -/
theorem alike_moreArguments (room : Nat) (rounds rounds' : List Token) :
    κ.Alike (κ.Within rounds.length rounds'.length) (List.map (Argument.renumber κ.lines))
      (moreArguments room rounds) (moreArguments room rounds') := by
  refine alike_rounds (compositional_shrinks.moreArguments room) (fun _ _ level hrel => ?_)
    (fun _ rounds _ rounds' ih => ?_) rounds rounds'
  · rw [moreArguments_end, moreArguments_end]
    exact .ok rfl hrel rfl
  · refine alike_take?_bind (by decide) (fun _ _ _ => (alike_argument room).bind fun a a' ha =>
      ih.map fun as as' has => ?_) (alike_pure rfl)
    rw [List.map_cons, List.map_cons, ha, has]

/-- The arguments of calls are alike. -/
theorem alike_arguments (room : Nat) :
    κ.Alike (κ.Within n n') (List.map (Argument.renumber κ.lines)) (arguments room)
      (arguments room) := by
  refine alike_at_bind (by decide) fun b => ?_
  cases b with
  | true => exact alike_pure rfl
  | false =>
    refine (alike_argument room).bind fun a a' ha => alike_remaining_bind fun ts us =>
      (alike_moreArguments room ts us).map fun as as' has => ?_
    rw [List.map_cons, List.map_cons, ha, has]

/-- Assignments to names that differ in their places are alike. The name was
taken before, so its place is part of what may differ. -/
theorem alike_assignment (room : Nat) {t u : Token}
    (htu : t.renumber κ.lines = u.renumber κ.lines) :
    κ.Alike (κ.Within n n') (Stmt.renumber κ.lines) (assignment room t) (assignment room u) := by
  obtain ⟨-, htext, hline, -⟩ := Token.renumber_eq htu
  -- from `:=` on, with an index that was read alike
  have hrest {index index' : Option Expr}
      (hindex : index.map (Expr.renumber κ.lines) = index'.map (Expr.renumber κ.lines)) (n n' : Nat) :
      κ.Alike (κ.Within n n') (Stmt.renumber κ.lines)
        (do
          let _ ← expect .assigner .assigner
          let value ← condition room
          endLine
          pure (Stmt.assign t.line { line := t.line, name := t.text, index } value))
        (do
          let _ ← expect .assigner .assigner
          let value ← condition room
          endLine
          pure (Stmt.assign u.line { line := u.line, name := u.text, index := index' } value)) := by
    refine (alike_expect (by decide) _).bind fun _ _ _ => (alike_condition room).bind
      fun e e' he => alike_endLine.map fun _ _ _ => ?_
    simp only [Stmt.renumber, Target.renumber, hline, htext, hindex, he]
  have hindexed {index index' : Option Expr} (n n' : Nat)
      (hindex : index.map (Expr.renumber κ.lines) = index'.map (Expr.renumber κ.lines)) :
      κ.Alike (κ.Within n n') (Option.map (Expr.renumber κ.lines)) (pure index) (pure index') :=
    alike_pure hindex
  have hnext {index index' : Option Expr} (n n' : Nat)
      (hindex : index.map (Expr.renumber κ.lines) = index'.map (Expr.renumber κ.lines)) :=
    (hindexed n n' hindex).bind fun _ _ h => hrest h _ _
  exact alike_take?_bind (by decide) (fun _ _ _ => (alike_expression room _ _).bind fun e e' he =>
    (alike_expect (by decide) _).bind fun _ _ _ => hnext _ _ (congrArg some he)) (hnext _ _ rfl)

/-- Calls of names that differ in their places are alike. -/
theorem alike_call (room : Nat) {t u : Token} (htu : t.renumber κ.lines = u.renumber κ.lines) :
    κ.Alike (κ.Within n n') (Stmt.renumber κ.lines) (call room t) (call room u) := by
  obtain ⟨-, htext, hline, -⟩ := Token.renumber_eq htu
  refine (alike_arguments room).bind fun as as' has => alike_endLine.map fun _ _ _ => ?_
  rw [Stmt.renumber, Stmt.renumber, hline, htext, has]

/-- What starts with a name is alike: the token that tells an assignment from a
call is the same on both sides. -/
theorem alike_nameStatement (room : Nat) {t u : Token}
    (htu : t.renumber κ.lines = u.renumber κ.lines) :
    κ.Alike (κ.Within n n') (Stmt.renumber κ.lines) (nameStatement room t) (nameStatement room u) := by
  refine alike_peek_bind (alike_call room htu) (fun kind text line column line' column' _ _ => ?_)
    fun _ _ _ _ _ _ _ _ => (alike_call room htu).from
  have hsame : assigns ⟨kind, text, line, column⟩ = assigns ⟨kind, text, line', column'⟩ := rfl
  dsimp only
  rw [hsame]
  by_cases h : assigns ⟨kind, text, line', column'⟩ = true
  · rw [if_pos h, if_pos h]
    exact (alike_assignment room htu).from
  · rw [if_neg h, if_neg h]
    exact (alike_call room htu).from

/-! ## Blocks

Here the two streams may differ in more than places. One may have more line ends
between two statements, and may write `else if` for `elsif`; what is parsed of
them is the same up to lines.
-/

section Block

variable {st : Parse Stmt}

/-- The line ends in front of a block take a round each. -/
theorem blockFrom_pastLineEnds (rounds ts : List Token) (level : Int)
    (h : ts.length ≤ rounds.length) : ∃ rounds' : List Token, rounds'.length ≤ rounds.length ∧
      (pastLineEnds ts).length ≤ rounds'.length ∧
      blockFrom st rounds ⟨ts, level⟩ = blockFrom st rounds' ⟨pastLineEnds ts, level⟩ := by
  induction ts generalizing rounds with
  | nil => exact ⟨rounds, le_rfl, h, rfl⟩
  | cons t ts ih =>
    by_cases ht : t.kind = .endOfLine
    · cases rounds with
      | nil => simp at h
      | cons r rounds =>
        obtain ⟨rounds', hle, hlength, heq⟩ := ih rounds (by simpa using h)
        rw [pastLineEnds_cons ht, blockFrom_lineEnd _ _ _ _ ht]
        exact ⟨rounds', hle.trans (Nat.le_succ _), hlength, heq⟩
    · exact ⟨rounds, le_rfl, by rwa [pastLineEnds_of_ne ht], by rw [pastLineEnds_of_ne ht]⟩

variable (hst : ∀ n n', κ.Alike (κ.Within n n') (Stmt.renumber κ.lines) st st) (hlt : Consumes st)

include hst hlt

/-- A round that starts with a statement on both sides. -/
theorem alike_blockFrom_statement {r r' t u : Token} {rs rs' rest rest' : List Token}
    (ih : κ.Alike (κ.Within rs.length rs'.length) (Stmt.renumberBlock κ.lines) (blockFrom st rs)
      (blockFrom st rs'))
    (hw : κ.Within (r :: rs).length (r' :: rs').length (t :: rest) (u :: rest'))
    (ht : t.kind ≠ .endOfLine ∧ t.kind ≠ .dedent) (hu : u.kind ≠ .endOfLine ∧ u.kind ≠ .dedent)
    (level : Int) :
    κ.Over (stop (blockFrom st (r :: rs) ⟨t :: rest, level⟩)).rest ∨
      κ.Similar (Stmt.renumberBlock κ.lines) (blockFrom st (r :: rs) ⟨t :: rest, level⟩)
        (blockFrom st (r' :: rs') ⟨u :: rest', level⟩) := by
  have hmore : κ.Alike (κ.Within (r :: rs).length (r' :: rs').length) (Stmt.renumberBlock κ.lines)
      (st >>= fun s => blockFrom st rs >>= fun ss => pure (s :: ss))
      (st >>= fun s => blockFrom st rs' >>= fun ss => pure (s :: ss)) := by
    refine (hst _ _).bind_consumes hlt hlt fun s s' hs => ih.map fun ss ss' hss => ?_
    rw [Stmt.renumberBlock, Stmt.renumberBlock, hs, hss]
  rw [blockFrom_cons _ _ _ _ ht.1, blockFrom_cons _ _ _ _ hu.1, if_neg ht.2, if_neg hu.2]
  exact hmore.along ⟨_, level⟩ ⟨_, level⟩ hw rfl

/-- **Statements up to a dedent are alike.** The line ends in front of a round
need not be as many on both sides, so they are left out first. What comes behind
them is the end on both sides, a dedent on both, or a statement. The induction
is on the rounds of the first side. -/
theorem alike_blockFrom (rounds rounds' : List Token) :
    κ.Alike (κ.Within rounds.length rounds'.length) (Stmt.renumberBlock κ.lines) (blockFrom st rounds)
      (blockFrom st rounds') := by
  generalize hk : rounds.length = k
  induction k using Nat.strong_induction_on generalizing rounds rounds' with
  | _ k ih =>
    subst hk
    have hshrinks := compositional_shrinks.blockFrom (hst 0 0).shrinks
    refine ⟨hshrinks _, hshrinks _, ?_⟩
    rintro ⟨ts, level⟩ ⟨us, _⟩ hc (rfl : level = _)
    obtain ⟨rs, hrs, hlength, heq⟩ := @blockFrom_pastLineEnds st rounds ts level hc.le
    obtain ⟨rs', -, hlength', heq'⟩ := @blockFrom_pastLineEnds st rounds' us level hc.le'
    rw [heq, heq']
    -- one side may be over before the other
    rcases κ.lineEnds hc.rel with hover | hrel
    · exact .inl (over_stop (hshrinks rs) hover)
    · have hw : κ.Within rs.length rs'.length (pastLineEnds ts) (pastLineEnds us) :=
        ⟨hrel, hlength, hlength'⟩
      rcases hw.ends_or_goes_on with hover | ⟨hts, hus⟩ | ⟨t, rest, u, rest', hts, hus⟩
      · exact .inl (over_stop (hshrinks rs) hover)
      · rw [hts, hus, blockFrom_nil, blockFrom_nil]
        rw [hts, hus] at hrel
        exact .inr (.ok rfl hrel rfl)
      · have ht : t.kind ≠ .endOfLine := kind_of_pastLineEnds hts
        have hu : u.kind ≠ .endOfLine := kind_of_pastLineEnds hus
        rw [hts] at hlength hw ⊢
        rw [hus] at hlength' hw ⊢
        cases rs with
        | nil => simp at hlength
        | cons r rs =>
          cases rs' with
          | nil => simp at hlength'
          | cons r' rs' =>
            -- a statement, and then fewer rounds than before
            have hstatement := alike_blockFrom_statement hst hlt (ih rs.length hrs rs rs' rfl) hw
            rcases hw.cases with hover | ⟨hnil, -⟩ | ⟨_, _, _, _, hcons, hcons', htu, hrest⟩ | ⟨h, -⟩
            · exact .inl (over_stop (hshrinks _) hover)
            · cases hnil
            · cases hcons
              cases hcons'
              have hku : t.kind = u.kind := (Token.renumber_eq htu).1
              -- both blocks end here, and the levels stay equal
              by_cases hdedent : t.kind = .dedent
              · have hlevel : level + t.levelChange = level + u.levelChange := by
                  rw [levelChange_eq hku]
                have hdedent' : u.kind = .dedent := hku ▸ hdedent
                rw [blockFrom_cons _ _ _ _ ht, blockFrom_cons _ _ _ _ hu, if_pos hdedent,
                  if_pos hdedent']
                exact .inr (.ok rfl (hrest (by rw [hdedent]; decide)).rel hlevel)
              · exact hstatement ⟨ht, hdedent⟩ ⟨hu, hku ▸ hdedent⟩ level
            · cases h with
              | intro hkt hku =>
                exact hstatement ⟨ht, by rw [hkt]; decide⟩ ⟨hu, by rw [hku]; decide⟩ level

/-- Blocks are alike if their statements are and each of these takes a token. -/
theorem alike_block :
    κ.Alike (κ.Within n n') (Stmt.renumberBlock κ.lines) (block st) (block st) :=
  (alike_expect (by decide) _).bind fun _ _ _ => alike_remaining_bind fun ts us =>
    alike_blockFrom hst hlt ts us

end Block

section Body

variable {body : Parse (List Stmt)}
  (hbody : ∀ n n', κ.Alike (κ.Within n n') (Stmt.renumberBlock κ.lines) body body)

include hbody

/-- Branches on corresponding lines are alike if their bodies are. -/
theorem alike_branch (room : Nat) {line line' : Nat} (hline : κ.lines line = κ.lines line') :
    κ.Alike (κ.Within n n') (Branch.renumber κ.lines) (branch room body line)
      (branch room body line') := by
  refine (alike_condition room).bind fun e e' he => (alike_expect (by decide) _).bind fun _ _ _ =>
    alike_endLine.bind fun _ _ _ => (hbody _ _).map fun ss ss' hss => ?_
  rw [Branch.renumber, Branch.renumber, hline, Option.map_some, Option.map_some, he, hss]

omit hbody in
/-- At the end of the tokens there are no further branches. -/
theorem moreBranches_nil (room : Nat) (rounds : List Token) (level : Int) :
    moreBranches room body rounds ⟨[], level⟩ = .ok [] ⟨[], level⟩ := by
  cases rounds <;> rfl

/-- The rest of a branch whose word is on a line, and the branches after it. -/
theorem alike_branchesFrom (room : Nat) {rounds rounds' : List Token} {line line' : Nat}
    (ih : κ.Alike (κ.Within rounds.length rounds'.length) (Branch.renumberChain κ.lines)
      (moreBranches room body rounds) (moreBranches room body rounds'))
    (hline : κ.lines line = κ.lines line') (hn : n ≤ rounds.length) (hn' : n' ≤ rounds'.length) :
    κ.Alike (κ.Within n n') (Branch.renumberChain κ.lines) (branchesFrom room body rounds line)
      (branchesFrom room body rounds' line') := by
  have ih' := ih.mono (S := κ.Within n n') fun _ _ h => ⟨h.rel, h.le.trans hn, h.le'.trans hn'⟩
  refine (alike_branch hbody room hline).bind fun b b' hb => ih'.map fun bs bs' hbs => ?_
  rw [Branch.renumberChain, Branch.renumberChain, hb, hbs]

/-- In each round a branch is taken on both sides. Where the one says `elsif`
and the other `else if`, it is the same branch behind that. -/
theorem alike_moreBranches (room : Nat) (rounds rounds' : List Token) :
    κ.Alike (κ.Within rounds.length rounds'.length) (Branch.renumberChain κ.lines)
      (moreBranches room body rounds) (moreBranches room body rounds') := by
  have hshrinks := compositional_shrinks.moreBranches (hbody 0 0).shrinks room
  refine alike_rounds hshrinks (fun _ _ level hrel => ?_) (fun r rounds r' rounds' ih => ?_) rounds
    rounds'
  · rw [moreBranches_nil, moreBranches_nil]
    exact .ok rfl hrel rfl
  · refine alike_of_head (hshrinks _) (hshrinks _) (fun level hc => ?_)
      (fun t rest u rest' level hc htu hrest => ?_) fun t rest e u rest' level hc h _ => ?_
    · exact .inr (.ok rfl hc.rel rfl)
    · obtain ⟨hku, -, hline, -⟩ := Token.renumber_eq htu
      rw [moreBranches_cons, moreBranches_cons]
      -- both sides have one token, of one kind
      by_cases helsif : t.kind = .elsif
      · have hw := hrest (by rw [helsif]; decide)
        rw [if_pos helsif, if_pos (hku ▸ helsif)]
        exact (alike_branchesFrom hbody room ih hline le_rfl le_rfl).along ⟨rest, level⟩ ⟨rest', level⟩
          hw rfl
      · have helsif' : u.kind ≠ .elsif := hku ▸ helsif
        rw [if_neg helsif, if_neg helsif']
        by_cases helse : t.kind = .else_
        · have hw := hrest (by rw [helse]; decide)
          -- an `else` may have an `if` behind it, or the end of its line and a block
          have hafter : κ.Alike (κ.Within rounds.length rounds'.length) (Branch.renumberChain κ.lines)
              (afterElse room body rounds t.line) (afterElse room body rounds' u.line) := by
            refine alike_take?_bind (by decide) (fun v v' hv => alike_branchesFrom hbody room ih
              (Token.renumber_eq hv).2.2.1 (Nat.sub_le ..) (Nat.sub_le ..))
              (alike_endLine.bind fun _ _ _ => (hbody _ _).map fun ss ss' hss => ?_)
            simp only [Branch.renumberChain, Branch.renumber, hline, hss, Option.map_none]
          have helse' : u.kind = .else_ := hku ▸ helse
          rw [if_pos helse, if_pos helse']
          exact hafter.along ⟨rest, level⟩ ⟨rest', level⟩ hw rfl
        · have helse' : u.kind ≠ .else_ := hku ▸ helse
          rw [if_neg helse, if_neg helse']
          exact .inr (.ok rfl hc.rel rfl)
    -- an `elsif` on the one side is an `else if` on the other
    · cases h with
      | intro ht he hu _ hline hrest =>
        have helsif : e.kind ≠ .elsif := by rw [he]; decide
        rw [moreBranches_cons, moreBranches_cons, if_pos ht, if_neg helsif, if_pos he, afterElse_if hu]
        exact (alike_branchesFrom hbody room ih hline le_rfl le_rfl).along ⟨rest, level⟩ ⟨rest', level⟩
          hrest rfl

/-- If chains on corresponding lines are alike if bodies are. -/
theorem alike_ifChain (room : Nat) {line line' : Nat} (hline : κ.lines line = κ.lines line') :
    κ.Alike (κ.Within n n') (Stmt.renumber κ.lines) (ifChain room body line)
      (ifChain room body line') := by
  refine (alike_branch hbody room hline).bind fun b b' hb => alike_remaining_bind fun ts us =>
    (alike_moreBranches hbody room ts us).map fun bs bs' hbs => ?_
  rw [Stmt.renumber, Stmt.renumber, Branch.renumberChain, Branch.renumberChain, hline, hb, hbs]

/-- Loops with `while` on corresponding lines are alike if bodies are. -/
theorem alike_whileLoop (room : Nat) {line line' : Nat} (hline : κ.lines line = κ.lines line') :
    κ.Alike (κ.Within n n') (Stmt.renumber κ.lines) (whileLoop room body line)
      (whileLoop room body line') := by
  refine (alike_condition room).bind fun e e' he => alike_endLine.bind fun _ _ _ =>
    (hbody _ _).map fun ss ss' hss => ?_
  rw [Stmt.renumber, Stmt.renumber, hline, he, hss]

/-- Loops with `repeat` on corresponding lines are alike if bodies are. -/
theorem alike_repeatLoop (room : Nat) {line line' : Nat} (hline : κ.lines line = κ.lines line') :
    κ.Alike (κ.Within n n') (Stmt.renumber κ.lines) (repeatLoop room body line)
      (repeatLoop room body line') := by
  refine (alike_expect (by decide) _).bind fun _ _ _ => (alike_condition room).bind fun e e' he =>
    alike_endLine.bind fun _ _ _ => (hbody _ _).map fun ss ss' hss => ?_
  rw [Stmt.renumber, Stmt.renumber, hline, he, hss]

/-- Loops with `for` on corresponding lines are alike if bodies are. -/
theorem alike_forLoop (room : Nat) {line line' : Nat} (hline : κ.lines line = κ.lines line') :
    κ.Alike (κ.Within n n') (Stmt.renumber κ.lines) (forLoop room body line)
      (forLoop room body line') := by
  refine (alike_expect (by decide) _).bind fun t u htu => (alike_expect (by decide) _).bind
    fun _ _ _ => (alike_expression room _ _).bind fun e e' he => (alike_expect (by decide) _).bind
    fun _ _ _ => (alike_expression room _ _).bind fun d d' hd => alike_endLine.bind fun _ _ _ =>
    (hbody _ _).map fun ss ss' hss => ?_
  obtain ⟨-, htext, hname, -⟩ := Token.renumber_eq htu
  rw [Stmt.renumber, Stmt.renumber, hline, htext, hname, he, hd, hss]

end Body

/-- **Statements are alike.** The induction is on the room for nesting, which
blocks in them have less of. What a statement starts with is of one kind on both
sides, and decides which one it is. -/
theorem alike_statement (room n n' : Nat) :
    κ.Alike (κ.Within n n') (Stmt.renumber κ.lines) (statement room) (statement room) := by
  induction room using Nat.strong_induction_on generalizing n n' with
  | _ room ih =>
    rcases room with _ | _ | _ | _ | room
    -- without room both sides are nested too deep
    iterate 4 exact alike_throw (κ.halts_of_eq rfl)
    have hblock {k : Nat} (hk : k < room + 4) (n n' : Nat) :
        κ.Alike (κ.Within n n') (Stmt.renumberBlock κ.lines) (block (statement k))
          (block (statement k)) :=
      alike_block (ih k hk) (consumes_statement k)
    unfold statement
    refine alike_peek_bind (alike_failHere _)
      (fun kind text line column line' column' hline ht => ?_)
      fun _ _ _ _ _ _ _ _ => (alike_failHere _).from
    cases kind
    case if_ => exact .skip_bind (by decide) (alike_ifChain (hblock (by omega)) room hline)
    case while_ => exact .skip_bind (by decide) (alike_whileLoop (hblock (by omega)) room hline)
    case for_ => exact .skip_bind (by decide) (alike_forLoop (hblock (by omega)) room hline)
    case repeat_ => exact .skip_bind (by decide) (alike_repeatLoop (hblock (by omega)) room hline)
    case identifier => exact .skip_bind (by decide) (alike_nameStatement room ht)
    all_goals exact (alike_failHere _).from

/-! ## Functions

A function is its head, the end of that line, and the rest. The head is alike by
itself, and the loop over all functions takes a round for each on both sides.
-/

/-- The heads of functions are alike, up to the places of their tokens. -/
theorem alike_functionHead :
    κ.Alike (κ.Within n n') (fun h => (h.1.renumber κ.lines, h.2.1.renumber κ.lines,
      h.2.2.map (Variable.renumber κ.lines))) functionHead functionHead :=
  (alike_expect (by decide) _).bind fun _ _ hstart => (alike_expect (by decide) _).bind
    fun _ _ hname => (alike_expect (by decide) _).bind fun _ _ _ => (alike_variables (by decide)).bind
    fun _ _ hps => (alike_expect (by decide) _).map fun _ _ _ => by rw [hstart, hname, hps]

/-- What stands behind heads that are alike is alike: the declarations, and the
block if there is one. Whether there is one is told by the indent, which is the
same on both sides. -/
theorem alike_functionBody (room : Nat) {start start' name name' : Token} {ps ps' : List Variable}
    (hstart : start.renumber κ.lines = start'.renumber κ.lines)
    (hname : name.renumber κ.lines = name'.renumber κ.lines)
    (hps : ps.map (Variable.renumber κ.lines) = ps'.map (Variable.renumber κ.lines)) :
    κ.Alike (κ.Within n n') (Function.renumber κ.lines) (functionBody room (start, name, ps))
      (functionBody room (start', name', ps')) := by
  have hblock (n n' : Nat) : κ.Alike (κ.Within n n') (Stmt.renumberBlock κ.lines)
      (block (statement room)) (block (statement room)) :=
    alike_block (alike_statement room) (consumes_statement room)
  have hline : κ.lines start.line = κ.lines start'.line := (Token.renumber_eq hstart).2.2.1
  have htext : name.text = name'.text := (Token.renumber_eq hname).2.1
  refine alike_remaining_bind fun ts us => (alike_localsFrom ts us).bind fun ds ds' hds =>
    alike_at_bind (by decide) fun indented => ?_
  cases indented with
  | true =>
    refine (hblock _ _).map fun ss ss' hss => ?_
    simp only [Function.renumber, hline, htext, hps, hds, hss]
  | false =>
    refine (alike_pure (f := Stmt.renumberBlock κ.lines) rfl).map fun ss ss' hss => ?_
    simp only [Function.renumber, hline, htext, hps, hds, hss]

/-- **Functions are alike.** -/
theorem alike_function (room : Nat) :
    κ.Alike (κ.Within n n') (Function.renumber κ.lines) (function room) (function room) := by
  rw [function_eq_parts]
  refine alike_functionHead.bind fun ⟨start, name, ps⟩ ⟨start', name', ps'⟩ h =>
    alike_endLine.bind fun _ _ _ => ?_
  obtain ⟨hstart, h⟩ := Prod.mk.inj h
  obtain ⟨hname, hps⟩ := Prod.mk.inj h
  exact alike_functionBody room hstart hname hps

/-- A round of functions is alike. The line ends behind a function may be more
on one side. -/
theorem alike_functionRound (room : Nat) :
    κ.Alike (κ.Within n n') (Function.renumber κ.lines) (functionRound room) (functionRound room) :=
  (alike_function room).bind fun _ _ hf => alike_skipLineEnds.map fun _ _ _ => hf

/-- Two streams are parsed up to the same fault, or to the same level at their
ends. -/
structure SameParsing (κ : Coupling) (p q : Parsing) : Prop where
  functions : p.functions.map (Function.renumber κ.lines) =
    q.functions.map (Function.renumber κ.lines)
  halt : Option.Rel κ.Halts p.halt q.halt
  level : p.halt = none → p.stop.level = q.stop.level

/-- **Streams that are coupled are parsed alike**, or the first of them is over.
The induction is on the rounds of the first one. A function takes a token on
both sides, so there are rounds left for those behind it. -/
theorem alike_functionsFrom (room : Nat) (rounds rounds' : List Token) {ts us : List Token}
    (h : κ.Within rounds.length rounds'.length ts us) (level : Int) :
    κ.Over (Parsing.functionsFrom room rounds ⟨ts, level⟩).stop.rest ∨
      κ.SameParsing (Parsing.functionsFrom room rounds ⟨ts, level⟩)
        (Parsing.functionsFrom room rounds' ⟨us, level⟩) := by
  induction rounds generalizing rounds' ts us level with
  | nil =>
    rcases h.ends_or_goes_on with hover | ⟨rfl, rfl⟩ | ⟨t, rest, u, rest', rfl, rfl⟩
    · exact .inl (κ.over_suffix (functionsFrom_suffix ..) hover)
    · rw [functionsFrom_nil, functionsFrom_nil]
      exact .inr ⟨rfl, .none, fun _ => rfl⟩
    · exact absurd h.le (by simp)
  | cons r rounds ih =>
    rcases h.ends_or_goes_on with hover | ⟨rfl, rfl⟩ | ⟨t, rest, u, rest', rfl, rfl⟩
    · exact .inl (κ.over_suffix (functionsFrom_suffix ..) hover)
    · rw [functionsFrom_nil, functionsFrom_nil]
      exact .inr ⟨rfl, .none, fun _ => rfl⟩
    · cases rounds' with
      | nil => exact absurd h.le' (by simp)
      | cons r' rounds' =>
        have hround := (alike_functionRound room).along ⟨t :: rest, level⟩ ⟨u :: rest', level⟩ h rfl
        have hlt := consumes_functionRound room ⟨t :: rest, level⟩
        have hlt' := consumes_functionRound room ⟨u :: rest', level⟩
        rw [functionsFrom_cons, functionsFrom_cons]
        generalize functionRound room ⟨t :: rest, level⟩ = x at hround hlt
        generalize functionRound room ⟨u :: rest', level⟩ = x' at hround hlt'
        -- the first side may be over within this function
        rcases hround with hover | hsimilar
        · cases x with
          | ok f c => exact .inl (κ.over_suffix (functionsFrom_suffix ..) hover)
          | error e c => exact .inl hover
        · cases hsimilar with
          | @ok f f' c c' hf hrel hlevel =>
            have hw : κ.Within rounds.length rounds'.length c.rest c'.rest :=
              ⟨hrel, Nat.le_of_lt_succ ((hlt f c rfl).trans_le h.le),
                Nat.le_of_lt_succ ((hlt' f' c' rfl).trans_le h.le')⟩
            obtain ⟨rest₁, level₁⟩ := c
            obtain ⟨rest₂, _⟩ := c'
            obtain rfl : level₁ = _ := hlevel
            refine (ih rounds' hw level₁).imp id fun hsame => ⟨?_, hsame.halt, hsame.level⟩
            simp only [List.map_cons, hf, hsame.functions]
          | error hh => exact .inr ⟨rfl, .some hh, fun h => nomatch h⟩

end Coupling
end Parse
end Shank
