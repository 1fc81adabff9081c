/-
# Properties of all parsers

Every parser is put together from a few pieces: looking at the next token,
taking it, skipping line ends, and failing in one of the ways that are known
before the end of the tokens. So a property that these pieces have and that
sequencing keeps (`Compositional`) is one of the parser of functions
(`Compositional.function`), and of every parser in it.

Two such properties say how far a parser gets. It never goes back, and its level
stays the balance of what it has taken, also where it fails (`Advances`); and it
blames nothing on the level (`Spares`), as only the end of the tokens shows
whether that is right.
-/

import Shank.Proofs.Parse.Flat

namespace Shank

/-- The fault that only the end of the tokens shows. -/
def SyntaxProblem.IsUnbalanced : SyntaxProblem → Prop
  | unbalanced _ => True
  | _ => False

namespace Parse

/-- A property of parsers that their pieces have, and that sequencing keeps. -/
structure Compositional (Φ : ∀ {α : Type}, Parse α → Prop) : Prop where
  pure {α : Type} (a : α) : Φ (pure a)
  bind {α β : Type} {x : Parse α} {f : α → Parse β} : Φ x → (∀ a, Φ (f a)) → Φ (x >>= f)
  peek : Φ peek
  at_ (kind : Token.Kind) : Φ (at_ kind)
  skip : Φ skip
  take? (kind : Token.Kind) : Φ (take? kind)
  skipLineEnds : Φ skipLineEnds
  remaining : Φ remaining
  failAt {α : Type} {problem : SyntaxProblem} (token : Option Token) :
    ¬problem.IsUnbalanced → Φ (failAt problem token : Parse α)
  numeral {α : Type} (refusal : Numeral.Refusal) : Φ (throw (.numeral refusal) : Parse α)
  tooDeep {α : Type} : Φ (throw .tooDeep : Parse α)

namespace Compositional

variable {α : Type} {Φ : ∀ {α : Type}, Parse α → Prop} (h : Compositional Φ)

include h

/-- To fail where a parser stands is to look at the next token and then to fail
at it. -/
theorem failHere {problem : SyntaxProblem} (hp : ¬problem.IsUnbalanced) :
    Φ (failHere problem : Parse α) :=
  h.bind h.peek fun _ => h.failAt _ hp

/-- A token that has to come is taken, or its absence is a fault of a known
kind. -/
theorem expect (kind : Token.Kind) (item : Item) : Φ (expect kind item) := by
  refine h.bind (h.take? kind) fun t => ?_
  cases t with
  | some t => exact h.pure t
  | none => exact h.failHere id

/-- The end of a line is a token that has to come, and the line ends behind it. -/
theorem endLine : Φ endLine :=
  h.bind (h.expect ..) fun _ => h.skipLineEnds

/-! ## Expressions

An expression asks for room where it is nested, and fails with its own halt if
there is none. The property has to hold of that failure too, so it is one of the
pieces.
-/

/-- The number of a token takes nothing; a numeral that is refused is a halt of
a known kind. -/
theorem number (t : Token) : Φ (number t) := by
  unfold Parse.number
  split <;> split
  · exact h.pure _
  · exact h.numeral _
  · exact h.pure _
  · exact h.numeral _

/-- The character of a token takes nothing; a literal of the wrong length is a
known fault. -/
theorem character (t : Token) : Φ (character t) := by
  unfold Parse.character
  split
  · exact h.pure _
  · exact h.failAt _ id

/-- A factor is a token and perhaps an inner expression, by what the token is. -/
theorem factor {inner : Parse Expr} (hinner : Φ inner) : Φ (factor inner) := by
  refine h.bind h.peek fun next => ?_
  cases next with
  | none => exact h.failHere id
  | some t =>
    dsimp only
    -- the kinds that a factor may start with, in the order they are tried
    split
    · exact h.bind h.skip fun _ => h.bind hinner fun _ => h.bind (h.expect ..) fun _ => h.pure _
    · exact h.bind h.skip fun _ => h.bind (h.number t) fun _ => h.pure _
    · exact h.bind h.skip fun _ => h.bind (h.expect ..) fun n => h.bind (h.number n) fun _ =>
        h.pure _
    · refine h.bind h.skip fun _ => h.bind (h.take? _) fun open? => ?_
      cases open? with
      | some _ => exact h.bind hinner fun _ => h.bind (h.expect ..) fun _ => h.pure _
      | none => exact h.pure _
    · exact h.bind h.skip fun _ => h.pure _
    · exact h.bind h.skip fun _ => h.bind (h.character t) fun _ => h.pure _
    · exact h.bind h.skip fun _ => h.pure _
    · exact h.bind h.skip fun _ => h.pure _
    · exact h.failHere id

/-- What an operand has, a chain from some operand on has. The induction is on
the rounds of the loop. -/
theorem chainFrom {operand : Parse Expr} (hoperand : Φ operand)
    (op? : Token.Kind → Option ArithOp) (rounds : List Token) (left : Expr) :
    Φ (chainFrom operand op? rounds left) := by
  induction rounds generalizing left with
  | nil => exact h.pure left
  | cons _ rounds ih =>
    refine h.bind h.peek fun next => ?_
    cases next with
    | none => exact h.pure left
    | some t =>
      dsimp only
      split
      · exact h.pure left
      · exact h.bind h.skip fun _ => h.bind hoperand fun _ => ih _

/-- What an operand has, a chain has. -/
theorem chain {operand : Parse Expr} (hoperand : Φ operand) (op? : Token.Kind → Option ArithOp) :
    Φ (chain operand op?) := by
  refine h.bind hoperand fun left => h.bind h.peek fun next => ?_
  split
  · exact h.pure left
  · exact h.bind h.remaining fun rounds => h.chainFrom hoperand op? rounds left

/-- **Expressions have every compositional property**, with any room. The
induction is on the room, as parentheses and brackets leave less of it. -/
theorem expression (room : Nat) : Φ (expression room) := by
  induction room using Nat.strong_induction_on with
  | _ room ih =>
    rcases room with _ | _ | _ | room
    iterate 3 exact h.tooDeep
    have hfactor := h.factor (ih room (by omega))
    exact h.chain (h.chain hfactor termOp?) sumOp?

/-- A condition is an expression, and perhaps a comparison and another one. -/
theorem condition (room : Nat) : Φ (condition room) := by
  refine h.bind (h.expression room) fun left => h.bind h.peek fun next => ?_
  cases next with
  | none => exact h.pure left
  | some t =>
    dsimp only
    split
    · exact h.pure left
    · exact h.bind h.skip fun _ => h.bind (h.expression room) fun _ => h.pure _

/-! ## Declarations

A loop of a declaration has a round for each token left, so what is shown of it
is shown by induction on the rounds.
-/

/-- The name of a kind is one token, or a known fault. -/
theorem kind : Φ kind := by
  refine h.bind h.peek fun next => ?_
  split
  · exact h.bind h.skip fun _ => h.pure _
  · exact h.failHere id

/-- A bound is perhaps a minus, and a number. -/
theorem bound : Φ bound :=
  h.bind (h.take? _) fun _ => h.bind (h.expect ..) fun t => h.bind (h.number t) fun _ => h.pure _

/-- Two bounds are parsed one after the other. -/
theorem bounds : Φ bounds :=
  h.bind (h.expect ..) fun _ => h.bind h.peek fun _ => h.bind h.bound fun _ =>
    h.bind (h.expect ..) fun _ => h.bind h.bound fun _ => h.pure _

/-- Bounds of integers are two bounds; that they are no integers, or not in
order, is a known fault. -/
theorem interval : Φ interval := by
  refine h.bind h.bounds fun b => ?_
  split
  · split
    · exact h.failAt _ id
    · exact h.pure _
  · exact h.failAt _ id

/-- Bounds of reals are two bounds; that they are not in order is a known fault. -/
theorem realInterval : Φ realInterval := by
  refine h.bind h.bounds fun ⟨start, low, high⟩ => ?_
  dsimp only
  split
  · exact h.failAt _ id
  · exact h.pure _

/-- A range that may be left out has what it has when it is there. -/
theorem ifRange {x : Parse α} (hx : Φ x) : Φ (ifRange x) := by
  refine h.bind (h.at_ _) fun comes => ?_
  split
  · rw [map_eq_pure_bind]
    exact h.bind hx fun _ => h.pure _
  · exact h.pure none

/-- A range that may not be there is a known fault. -/
theorem noRange (k : Kind) : Φ (noRange k) := by
  refine h.bind (h.at_ _) fun comes => ?_
  split
  · exact h.failHere id
  · exact h.pure ()

/-- A type is an array with bounds and the name of a kind, or that name and
perhaps a range. -/
theorem type : Φ type := by
  refine h.bind (h.take? _) fun array => ?_
  cases array with
  | some _ =>
    exact h.bind h.interval fun _ => h.bind (h.expect ..) fun _ => h.bind h.kind fun _ => h.pure _
  | none =>
    refine h.bind h.kind fun k => ?_
    cases k with
    | integer | string => exact h.bind (h.ifRange h.interval) fun _ => h.pure _
    | real => exact h.bind (h.ifRange h.realInterval) fun _ => h.pure _
    | character | boolean => exact h.bind (h.noRange _) fun _ => h.pure _

/-- The literal of a constant is a token, perhaps behind a minus. -/
theorem constantValue : Φ constantValue := by
  refine h.bind h.peek fun next => ?_
  cases next with
  | none => exact h.failHere id
  | some t =>
    dsimp only
    split
    · exact h.bind h.skip fun _ => h.bind (h.expect ..) fun n => h.bind (h.number n) fun _ =>
        h.pure _
    · exact h.bind h.skip fun _ => h.bind (h.number t) fun _ => h.pure _
    · exact h.bind h.skip fun _ => h.pure _
    · exact h.bind h.skip fun _ => h.bind (h.character t) fun _ => h.pure _
    · exact h.bind h.skip fun _ => h.pure _
    · exact h.bind h.skip fun _ => h.pure _
    · exact h.failHere id

/-- Further names are taken round by round. -/
theorem moreNames (rounds : List Token) : Φ (moreNames rounds) := by
  induction rounds with
  | nil => exact h.pure []
  | cons _ rounds ih =>
    refine h.bind (h.take? _) fun comma => ?_
    cases comma with
    | none => exact h.pure []
    | some _ => exact h.bind (h.expect ..) fun _ => h.bind ih fun _ => h.pure _

/-- A list of names is one name and further ones. -/
theorem names : Φ names :=
  h.bind (h.expect ..) fun _ => h.bind h.remaining fun rounds => h.bind (h.moreNames rounds) fun _ =>
    h.pure _

/-- A group of variables is names, a colon and a type. -/
theorem variableGroup : Φ variableGroup :=
  h.bind (h.take? _) fun _ => h.bind h.names fun _ => h.bind (h.expect ..) fun _ =>
    h.bind h.type fun _ => h.pure _

/-- A group of constants is a name and a literal, behind no `var`. -/
theorem constantGroup : Φ constantGroup := by
  refine h.bind (h.take? _) fun isVar => h.bind h.names fun names => ?_
  split
  · exact h.failAt _ id
  · exact h.bind (h.expect ..) fun _ => h.bind h.constantValue fun _ => h.pure _

/-- What a group has, groups up to the terminator have. The induction is on the
rounds. -/
theorem groupsFrom {group : Parse (List α)} (hgroup : Φ group) (terminator : Token.Kind)
    (rounds : List Token) : Φ (groupsFrom group terminator rounds) := by
  induction rounds with
  | nil => exact hgroup
  | cons _ rounds ih =>
    refine h.bind (h.at_ _) fun done => ?_
    split
    · exact h.pure []
    · refine h.bind hgroup fun first => h.bind (h.take? _) fun semicolon => ?_
      cases semicolon with
      | none => exact h.pure first
      | some _ => exact h.bind ih fun _ => h.pure _

/-- What a group has, a list of groups has, which may be empty. -/
theorem groups {group : Parse (List α)} (hgroup : Φ group) (terminator : Token.Kind) :
    Φ (groups group terminator) :=
  h.bind h.remaining fun rounds => h.groupsFrom hgroup terminator rounds

/-- Local declarations are lists of groups, line by line. -/
theorem localsFrom (rounds : List Token) : Φ (localsFrom rounds) := by
  induction rounds with
  | nil => exact h.pure []
  | cons _ rounds ih =>
    refine h.bind (h.take? _) fun constants => ?_
    cases constants with
    | some _ =>
      exact h.bind (h.groups h.constantGroup _) fun _ => h.bind h.endLine fun _ =>
        h.bind ih fun _ => h.pure _
    | none =>
      refine h.bind (h.take? _) fun declares => ?_
      cases declares with
      | some _ =>
        exact h.bind (h.groups h.variableGroup _) fun _ => h.bind h.endLine fun _ =>
          h.bind ih fun _ => h.pure _
      | none => exact h.pure []

/-! ## Statements

A block has less room than the statement it is in, and the induction on the room
hands the property on to the statements in it.
-/

/-- An argument is a name behind `var`, or a condition. -/
theorem argument (room : Nat) : Φ (argument room) := by
  refine h.bind h.peek fun start => h.bind (h.take? _) fun var? => ?_
  cases var? with
  | some _ => exact h.bind (h.expect ..) fun _ => h.pure _
  | none => exact h.bind (h.condition room) fun _ => h.pure _

/-- Further arguments are taken round by round. -/
theorem moreArguments (room : Nat) (rounds : List Token) : Φ (moreArguments room rounds) := by
  induction rounds with
  | nil => exact h.pure []
  | cons _ rounds ih =>
    refine h.bind (h.take? _) fun comma => ?_
    cases comma with
    | none => exact h.pure []
    | some _ => exact h.bind (h.argument room) fun _ => h.bind ih fun _ => h.pure _

/-- The arguments of a call are one and further ones, or none. -/
theorem arguments (room : Nat) : Φ (arguments room) := by
  refine h.bind (h.at_ _) fun none? => ?_
  split
  · exact h.pure []
  · exact h.bind (h.argument room) fun _ => h.bind h.remaining fun rounds =>
      h.bind (h.moreArguments room rounds) fun _ => h.pure _

/-- An assignment is perhaps an index, `:=`, a condition and the end of the
line. -/
theorem assignment (room : Nat) (t : Token) : Φ (assignment room t) := by
  refine h.bind (h.take? _) fun open? => ?_
  have rest (index : Option Expr) : Φ (do
      let _ ← Parse.expect .assigner .assigner
      let value ← Parse.condition room
      Parse.endLine
      Pure.pure (Stmt.assign t.line { line := t.line, name := t.text, index } value)) :=
    h.bind (h.expect ..) fun _ => h.bind (h.condition room) fun _ => h.bind h.endLine fun _ =>
      h.pure _
  cases open? with
  | some _ =>
    exact h.bind (h.expression room) fun _ => h.bind (h.expect ..) fun _ => h.bind (h.pure _) rest
  | none => exact h.bind (h.pure _) rest

/-- A call is arguments and the end of the line. -/
theorem call (room : Nat) (t : Token) : Φ (call room t) :=
  h.bind (h.arguments room) fun _ => h.bind h.endLine fun _ => h.pure _

/-- A statement that starts with a name is an assignment or a call, by the next
token. -/
theorem nameStatement (room : Nat) (t : Token) : Φ (nameStatement room t) := by
  refine h.bind h.peek fun next => ?_
  cases next with
  | some u =>
    dsimp only
    split
    · exact h.assignment room t
    · exact h.call room t
  | none => exact h.call room t

/-- What a statement has, the statements of a block have. The induction is on
the rounds. -/
theorem blockFrom {statement : Parse Stmt} (hstatement : Φ statement) (rounds : List Token) :
    Φ (blockFrom statement rounds) := by
  induction rounds with
  | nil => exact h.pure []
  | cons _ rounds ih =>
    refine h.bind h.peek fun next => ?_
    cases next with
    | none => exact h.pure []
    | some t =>
      dsimp only
      split
      · exact h.bind h.skip fun _ => ih
      · split
        · exact h.bind h.skip fun _ => h.pure []
        · exact h.bind hstatement fun _ => h.bind ih fun _ => h.pure _

/-- A block is an `INDENT`, and its statements up to its end. -/
theorem block {statement : Parse Stmt} (hstatement : Φ statement) : Φ (block statement) :=
  h.bind (h.expect ..) fun _ => h.bind h.remaining fun rounds => h.blockFrom hstatement rounds

section Body

variable {body : Parse (List Stmt)} (hbody : Φ body)

include hbody

/-- A branch is a condition, a `then`, the end of the line and a body. -/
theorem branch (room line : Nat) : Φ (branch room body line) :=
  h.bind (h.condition room) fun _ => h.bind (h.expect ..) fun _ => h.bind h.endLine fun _ =>
    h.bind hbody fun _ => h.pure _

/-- Further branches are taken round by round, with either spelling of their
word. -/
theorem moreBranches (room : Nat) (rounds : List Token) : Φ (moreBranches room body rounds) := by
  induction rounds with
  | nil => exact h.pure []
  | cons _ rounds ih =>
    have more (line : Nat) : Φ (do
        let b ← Parse.branch room body line
        return b :: (← Parse.moreBranches room body rounds)) :=
      h.bind (h.branch hbody room line) fun _ => h.bind ih fun _ => h.pure _
    refine h.bind (h.take? _) fun elsif => ?_
    cases elsif with
    | some t => exact more t.line
    | none =>
      refine h.bind (h.take? _) fun else? => ?_
      cases else? with
      | none => exact h.pure []
      | some e =>
        refine h.bind (h.take? _) fun if? => ?_
        cases if? with
        | some t => exact more t.line
        | none => exact h.bind h.endLine fun _ => h.bind hbody fun _ => h.pure _

/-- An if chain is a branch and further ones. -/
theorem ifChain (room line : Nat) : Φ (ifChain room body line) :=
  h.bind (h.branch hbody room line) fun _ => h.bind h.remaining fun rounds =>
    h.bind (h.moreBranches hbody room rounds) fun _ => h.pure _

/-- A `while` loop is a condition and a body. -/
theorem whileLoop (room line : Nat) : Φ (whileLoop room body line) :=
  h.bind (h.condition room) fun _ => h.bind h.endLine fun _ => h.bind hbody fun _ => h.pure _

/-- A `repeat` loop is `until`, a condition and a body. -/
theorem repeatLoop (room line : Nat) : Φ (repeatLoop room body line) :=
  h.bind (h.expect ..) fun _ => h.bind (h.condition room) fun _ => h.bind h.endLine fun _ =>
    h.bind hbody fun _ => h.pure _

/-- A `for` loop is a name, two expressions and a body. -/
theorem forLoop (room line : Nat) : Φ (forLoop room body line) :=
  h.bind (h.expect ..) fun _ => h.bind (h.expect ..) fun _ => h.bind (h.expression room) fun _ =>
    h.bind (h.expect ..) fun _ => h.bind (h.expression room) fun _ => h.bind h.endLine fun _ =>
    h.bind hbody fun _ => h.pure _

end Body

/-- **Statements have every compositional property**, with any room. The
induction is on the room, as blocks leave less of it. -/
theorem statement (room : Nat) : Φ (statement room) := by
  induction room using Nat.strong_induction_on with
  | _ room ih =>
    rcases room with _ | _ | _ | _ | room
    iterate 4 exact h.tooDeep
    have hblock {k : Nat} (hk : k < room + 4) : Φ (Parse.block (Parse.statement k)) :=
      h.block (ih k hk)
    unfold Parse.statement
    refine h.bind h.peek fun next => ?_
    cases next with
    | none => exact h.failHere id
    | some t =>
      dsimp only
      split
      · exact h.bind h.skip fun _ => h.ifChain (hblock (by omega)) room _
      · exact h.bind h.skip fun _ => h.whileLoop (hblock (by omega)) room _
      · exact h.bind h.skip fun _ => h.forLoop (hblock (by omega)) room _
      · exact h.bind h.skip fun _ => h.repeatLoop (hblock (by omega)) room _
      · exact h.bind h.skip fun _ => h.nameStatement room t
      · exact h.failHere id

end Compositional

/-- What a function is after its first token. -/
def functionAfter (room : Nat) (start : Token) : Parse Function := do
  let name ← expect .identifier .functionName
  let _ ← expect .openParen .openParen
  let parameters ← groups variableGroup .closeParen
  let _ ← expect .closeParen .closeParen
  endLine
  let locals ← localsFrom (← remaining)
  let body ← if ← at_ .indent then block (statement room) else pure []
  pure { line := start.line, name := name.text, parameters, locals, body }

/-- A function is its `define`, and what comes after it. -/
theorem function_eq (room : Nat) :
    function room = expect .define .define >>= functionAfter room :=
  rfl

/-- What comes after the `define` is put together from the parsers above, and so
has the property. -/
theorem Compositional.functionAfter {Φ : ∀ {α : Type}, Parse α → Prop} (h : Compositional Φ)
    (room : Nat) (start : Token) : Φ (functionAfter room start) := by
  refine h.bind (h.expect ..) fun name => h.bind (h.expect ..) fun _ =>
    h.bind (h.groups h.variableGroup _) fun _ => h.bind (h.expect ..) fun _ =>
    h.bind h.endLine fun _ => h.bind h.remaining fun rounds => h.bind (h.localsFrom rounds) fun _ =>
    h.bind (h.at_ _) fun indented => ?_
  cases indented with
  | true => exact h.bind (h.block (h.statement room)) fun _ => h.pure _
  | false => exact h.bind (h.pure []) fun _ => h.pure _

/-- **What holds of the pieces of parsers holds of the parser of functions.** -/
theorem Compositional.function {Φ : ∀ {α : Type}, Parse α → Prop} (h : Compositional Φ)
    (room : Nat) : Φ (function room) :=
  h.bind (h.expect ..) fun start => h.functionAfter room start

end Parse
end Shank
