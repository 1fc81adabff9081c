/-
# Parsing step by step

The parsers of `Shank.Parse` take tokens from the front of a list: they cannot
go past its end, their loops are recursions on the tokens left, and only the
room for nesting can run out. Here are the same parsers as they are carried out,
on a fixed list with a position in it. What could go wrong with such a parser
does so here.

| what is done | comes to |
| --- | --- |
| a token is taken at the end of the tokens | `Stop.missing` |
| something is asked of a token that was looked at, and there was none | `Stop.missing` |
| a token that was looked at is not there when it is taken | `Stop.missing` |
| a loop goes round more often than it may | `Stop.endless` |
| expressions or blocks are nested deeper than they may | `Stop.endless` |

How often that is, is the number that the parsers are given; there is no other
limit to the nesting. A block compares its level with the one it was entered on
at each `DEDENT`. All moments of the position and the level are kept
(`State.moments`).

The parsers have the names of those that they stand beside, and what is not
about tokens is taken from there.
-/

import Shank.Parse.Program

namespace Shank
namespace Stepwise

open Parse (termOp? sumOp? compareOp? negated kind? boundOf assigns)

/-- Why a parser stops. -/
inductive Stop
  | halt (halt : ParseHalt)
  /-- There is no token where there must be one. -/
  | missing
  /-- Something is done more often than it may be. -/
  | endless
  deriving DecidableEq, Repr

/-- A position in the tokens, and the level there. -/
structure Moment where
  position : Nat := 0
  level : Int := 0
  deriving DecidableEq, Repr

/-- The tokens, where a parser is, and where it was. -/
structure State where
  tokens : List Token
  now : Moment := {}
  past : List Moment := []
  deriving DecidableEq, Repr

/-- All positions that a parser has been at, with their levels, the last one
first. -/
def State.moments (s : State) : List Moment :=
  s.now :: s.past

/-- A parser on a list of tokens. -/
abbrev Walk := EStateM Stop State

variable {α : Type}

/-! ## Tokens

The primitives check what they do: a token is only taken if it is there, and a
loop has a bound. A failed check stops the parser in a way that no parser of
`Shank.Parse` has.
-/

/-- The token at the position. -/
def peek : Walk (Option Token) :=
  fun s => .ok s.tokens[s.now.position]? s

/-- The token behind it. -/
def peekNext : Walk (Option Token) :=
  fun s => .ok s.tokens[s.now.position + 1]? s

/-- The level. -/
def level : Walk Int :=
  fun s => .ok s.now.level s

/-- Takes the token at the position, which must be there. -/
def advance : Walk Token :=
  fun s =>
    match s.tokens[s.now.position]? with
    | none => .error .missing s
    | some t =>
      .ok t { s with now := ⟨s.now.position + 1, s.now.level + t.levelChange⟩, past := s.moments }

/-- A token that was looked at, which must be there. -/
def seen : Option Token → Walk Token
  | some t => pure t
  | none => throw .missing

/-- Is the token at the position of this kind? -/
def at_ (kind : Token.Kind) : Walk Bool := do
  return (← peek).any fun t => t.kind == kind

/-- Takes the token at the position if it is of this kind. -/
def take? (kind : Token.Kind) : Walk (Option Token) := do
  if ← at_ kind then some <$> advance else pure none

/-- Takes a token that was seen to be of this kind. -/
def again (kind : Token.Kind) : Walk Token := do
  seen (← take? kind)

/-- Stops with a fault at a token. -/
def failAt (problem : SyntaxProblem) (token : Option Token) : Walk α :=
  throw (.halt (.fault { problem, token }))

/-- Stops with a fault at the position. -/
def failHere (problem : SyntaxProblem) : Walk α := do
  failAt problem (← peek)

/-- Takes a token that has to be of this kind. -/
def expect (kind : Token.Kind) (item : Item) : Walk Token := do
  match ← take? kind with
  | some t => pure t
  | none => failHere (.expected item)

/-- Takes line ends as long as there are any, at most so many turns. -/
def skipLineEnds : Nat → Walk Unit
  | 0 => throw .endless
  | n + 1 => do
    match ← take? .endOfLine with
    | some _ => skipLineEnds n
    | none => pure ()

/-- The end of a line, and the line ends behind it. -/
def endLine (n : Nat) : Walk Unit := do
  let _ ← expect .endOfLine .endOfLine
  skipLineEnds n

/-! ## Expressions

The same grammar as in `Shank.Parse.Expr`, parsed by position.
-/

/-- What a number token stands for; a numeral may be refused. -/
def number (t : Token) : Walk Scalar :=
  if '.' ∈ t.text.toList then
    match Numeral.real? t.text with
    | some x => pure (.real (Format.single.round x))
    | none => throw (.halt (.numeral .malformed))
  else
    match Numeral.integer? t.text with
    | .ok n => pure (.integer n)
    | .error r => throw (.halt (.numeral r))

/-- The character of a token, if it holds just one. -/
def character (t : Token) : Walk Scalar :=
  match t.text.toList with
  | [c] => pure (.character c)
  | _ => failAt .characterLength (some t)

/-- A factor, by the token it starts with. -/
def factor (inner : Walk Expr) : Walk Expr := do
  match ← peek with
  | none => failHere .expectedExpression
  | some t =>
    match t.kind with
    | .openParen =>
      let _ ← advance
      let e ← inner
      let _ ← expect .closeParen .closeParen
      pure e
    | .number =>
      let _ ← advance
      pure (.literal t.line (← number t))
    | .minus =>
      let _ ← advance
      let n ← expect .number .numberAfterMinus
      pure (.literal t.line (negated (← number n)))
    | .identifier =>
      let _ ← advance
      match ← take? .openBracket with
      | some _ =>
        let index ← inner
        let _ ← expect .closeBracket .closeBracket
        pure (.element t.line t.text index)
      | none => pure (.var t.line t.text)
    | .stringLiteral =>
      let _ ← advance
      pure (.literal t.line (.string t.text))
    | .characterLiteral =>
      let _ ← advance
      pure (.literal t.line (← character t))
    | .true_ =>
      let _ ← advance
      pure (.literal t.line (.boolean true))
    | .false_ =>
      let _ ← advance
      pure (.literal t.line (.boolean false))
    | _ => failHere .expectedExpression

/-- Goes on with operators and operands, and puts what it has to the left of
them. -/
def chainFrom (operand : Walk Expr) (op? : Token.Kind → Option ArithOp) : Nat → Expr → Walk Expr
  | 0, _ => throw .endless
  | n + 1, left => do
    match (← peek).bind fun t => op? t.kind with
    | none => pure left
    | some op =>
      let t ← advance
      let right ← operand
      chainFrom operand op? n (.arithmetic t.line op left right)

/-- An operand, and what goes on with it. -/
def chain (n : Nat) (operand : Walk Expr) (op? : Token.Kind → Option ArithOp) : Walk Expr := do
  chainFrom operand op? n (← operand)

/-- An expression: sums of terms of factors. -/
def expression : Nat → Walk Expr
  | 0 => throw .endless
  | n + 1 => chain (n + 1) (chain (n + 1) (factor (expression n)) termOp?) sumOp?

/-- A condition: an expression, or two with a comparison between them. -/
def condition (n : Nat) : Walk Expr := do
  let left ← expression n
  match (← peek).bind fun t => compareOp? t.kind with
  | none => pure left
  | some op =>
    let t ← advance
    let right ← expression n
    pure (.comparison t.line op left right)

/-! ## Declarations

The literal of a constant is found by trying the kinds that it can be of one
after the other, where the other parser looks at the kind once.
-/

/-- The name of a kind. -/
def kind : Walk Kind := do
  match (← peek).bind fun t => kind? t.kind with
  | some k =>
    let _ ← advance
    pure k
  | none => failHere .expectedType

/-- A number in a range, perhaps behind a minus. -/
def bound : Walk Bound := do
  let minus ← take? .minus
  let t ← expect .number .number
  pure (boundOf minus.isSome (← number t))

/-- The bounds of a range, and the token that they start at. -/
def bounds : Walk (Option Token × Bound × Bound) := do
  let _ ← expect .from_ .from_
  let start ← peek
  let low ← bound
  let _ ← expect .to_ .to_
  let high ← bound
  pure (start, low, high)

/-- Bounds of integers, the first of which is not above the second. -/
def interval : Walk Interval := do
  match ← bounds with
  | (start, .whole low, .whole high) =>
    if high < low then failAt (.emptyRange (.whole low) (.whole high)) start
    else pure ⟨low, high⟩
  | (start, _, _) => failAt .rangeNotWhole start

/-- Bounds of reals, the second of which is not below the first. -/
def realInterval : Walk RealInterval := do
  let (start, low, high) ← bounds
  if high.lt low then failAt (.emptyRange low high) start
  else pure ⟨low, high⟩

/-- A range, if there is one. -/
def ifRange (x : Walk α) : Walk (Option α) := do
  if ← at_ .from_ then some <$> x else pure none

/-- No range may be here. -/
def noRange (k : Kind) : Walk Unit := do
  if ← at_ .from_ then failHere (.rangeNotAllowed k)

/-- A type with its range, or an array with its bounds. -/
def type : Walk DeclaredType := do
  match ← take? .array with
  | some _ =>
    let bounds ← interval
    let _ ← expect .of_ .of_
    pure (.array bounds (← kind))
  | none =>
    match ← kind with
    | .integer => pure (.scalar (.integer (← ifRange interval)))
    | .real => pure (.scalar (.real (← ifRange realInterval)))
    | .string => pure (.scalar (.string (← ifRange interval)))
    | .character =>
      noRange .character
      pure (.scalar .character)
    | .boolean =>
      noRange .boolean
      pure (.scalar .boolean)

/-- What a constant stands for. It is looked at where it starts, and taken by
its kind. -/
def constantValue : Walk (Nat × Scalar) := do
  let start ← peek
  let value ← match ← take? .minus with
    | some _ => negated <$> (expect .number .numberAfterMinus >>= number)
    | none =>
      match ← take? .number with
      | some _ => seen start >>= number
      | none =>
        match ← take? .stringLiteral with
        | some _ => pure (.string (← seen start).text)
        | none =>
          match ← take? .characterLiteral with
          | some _ => seen start >>= character
          | none =>
            match ← take? .true_ with
            | some _ => pure (.boolean true)
            | none =>
              match ← take? .false_ with
              | some _ => pure (.boolean false)
              | none => failHere .expectedConstant
  pure ((← seen start).line, value)

/-- The names behind the first, each behind a comma. -/
def moreNames : Nat → Walk (List Token)
  | 0 => throw .endless
  | n + 1 => do
    match ← take? .comma with
    | none => pure []
    | some _ =>
      let t ← expect .identifier .variableName
      return t :: (← moreNames n)

/-- Names with commas between them. -/
def names (n : Nat) : Walk (List Token) := do
  let t ← expect .identifier .variableName
  return t :: (← moreNames n)

/-- Variables of one type. -/
def variableGroup (n : Nat) : Walk (List Variable) := do
  let isVar := (← take? .var).isSome
  let names ← names n
  let _ ← expect .colon .colon
  let type ← type
  pure (names.map fun t => { line := t.line, name := t.text, type, isVar })

/-- Constants of one value. A `var` in front is only refused behind the names. -/
def constantGroup (n : Nat) : Walk (List Constant) := do
  let isVar := (← take? .var).isSome
  let names ← names n
  if isVar then failAt .varConstant names.head?
  else
    let _ ← expect .equals .constantEquals
    let (valueLine, value) ← constantValue
    pure (names.map fun t => { line := t.line, name := t.text, value, valueLine })

/-- Groups with semicolons between them, up to a token that ends them. -/
def groups (group : Walk (List α)) (terminator : Token.Kind) : Nat → Walk (List α)
  | 0 => throw .endless
  | n + 1 => do
    if ← at_ terminator then pure []
    else
      let first ← group
      match ← take? .semicolon with
      | none => pure first
      | some _ => return first ++ (← groups group terminator n)

/-! ## Statements

A block compares the level with the one on which it was entered, and ends when
they are the same again.
-/

/-- The statements of a block that was entered on the level `entry`. -/
def blockFrom (statement : Walk Stmt) (entry : Int) : Nat → Walk (List Stmt)
  | 0 => throw .endless
  | n + 1 => do
    match ← peek with
    | none => pure []
    | some _ =>
      match ← take? .endOfLine with
      | some _ => blockFrom statement entry n
      | none =>
        if ← at_ .dedent then
          let _ ← advance
          if (← level) ≤ entry then pure [] else blockFrom statement entry n
        else
          let s ← statement
          return s :: (← blockFrom statement entry n)

/-- A block. The level it is entered on is the one in front of its `INDENT`. -/
def block (n : Nat) (statement : Walk Stmt) : Walk (List Stmt) := do
  let entry ← level
  let _ ← expect .indent .block
  blockFrom statement entry n

/-- An argument, on the line of its first token. -/
def argument (n : Nat) : Walk Argument := do
  let start ← peek
  match ← take? .var with
  | some _ =>
    let name ← expect .identifier .variableAfterVar
    pure (.reference (← seen start).line name.text name.line)
  | none =>
    let e ← condition n
    pure (.value (← seen start).line e)

/-- The arguments behind the first, each behind a comma. -/
def moreArguments (n : Nat) : Nat → Walk (List Argument)
  | 0 => throw .endless
  | m + 1 => do
    match ← take? .comma with
    | none => pure []
    | some _ =>
      let a ← argument n
      return a :: (← moreArguments n m)

/-- The arguments of a call, up to the end of the line. -/
def arguments (n : Nat) : Walk (List Argument) := do
  if ← at_ .endOfLine then pure []
  else
    let a ← argument n
    return a :: (← moreArguments n n)

/-- What stands behind the word of a branch with a condition, and its body. -/
def branch (n : Nat) (body : Walk (List Stmt)) (word : Token) : Walk Branch := do
  let condition ← condition n
  let _ ← expect .then_ .then_
  endLine n
  return .mk word.line (some condition) (← body)

/-- The branches behind the first, with either spelling of their word, and
perhaps an `else`. -/
def moreBranches (n : Nat) (body : Walk (List Stmt)) : Nat → Walk (List Branch)
  | 0 => throw .endless
  | m + 1 => do
    match ← take? .elsif with
    | some t =>
      let b ← branch n body t
      return b :: (← moreBranches n body m)
    | none =>
      match ← take? .else_ with
      | none => pure []
      | some e =>
        match ← take? .if_ with
        | some t =>
          let b ← branch n body t
          return b :: (← moreBranches n body m)
        | none =>
          endLine n
          return [.mk e.line none (← body)]

/-- An if chain. Its word was looked at before. -/
def ifChain (n : Nat) (body : Walk (List Stmt)) : Walk Stmt := do
  let t ← again .if_
  let first ← branch n body t
  let rest ← moreBranches n body n
  pure (.ifChain t.line (first :: rest))

/-- A loop that is entered while its condition holds. -/
def whileLoop (n : Nat) (body : Walk (List Stmt)) : Walk Stmt := do
  let t ← again .while_
  let condition ← condition n
  endLine n
  return .whileLoop t.line condition (← body)

/-- A loop that is left when its condition holds. -/
def repeatLoop (n : Nat) (body : Walk (List Stmt)) : Walk Stmt := do
  let t ← again .repeat_
  let _ ← expect .until_ .until_
  let condition ← condition n
  endLine n
  return .repeatLoop t.line condition (← body)

/-- A loop that counts from one bound to another. -/
def forLoop (n : Nat) (body : Walk (List Stmt)) : Walk Stmt := do
  let t ← again .for_
  let name ← expect .identifier .loopVariable
  let _ ← expect .from_ .from_
  let start ← expression n
  let _ ← expect .to_ .to_
  let stop ← expression n
  endLine n
  return .forLoop t.line name.text name.line start stop (← body)

/-- An assignment. The name of the target was looked at before. -/
def assignment (n : Nat) : Walk Stmt := do
  let t ← again .identifier
  let index ← match ← take? .openBracket with
    | some _ =>
      let e ← expression n
      let _ ← expect .closeBracket .closeBracket
      pure (some e)
    | none => pure none
  let _ ← expect .assigner .assigner
  let value ← condition n
  endLine n
  pure (.assign t.line { line := t.line, name := t.text, index } value)

/-- A call. Its name was looked at before. -/
def call (n : Nat) : Walk Stmt := do
  let t ← again .identifier
  let args ← arguments n
  endLine n
  pure (.call t.line t.text args)

/-- Looks behind the name for what tells an assignment from a call. -/
def nameStatement (n : Nat) : Walk Stmt := do
  if (← peekNext).any assigns then assignment n else call n

/-- A statement, by the token that it starts with; its blocks have one turn
less. -/
def statement : Nat → Walk Stmt
  | 0 => throw .endless
  | n + 1 => do
    let body := block n (statement n)
    match (← seen (← peek)).kind with
    | .if_ => ifChain n body
    | .while_ => whileLoop n body
    | .for_ => forLoop n body
    | .repeat_ => repeatLoop n body
    | .identifier => nameStatement n
    | _ => failHere .unexpectedStatement

/-! ## Functions

The loops of the outermost level go on while there are tokens, up to the bound
that all loops share.
-/

/-- The local declarations of a function, a list for each word that starts one. -/
def localsFrom (n : Nat) : Nat → Walk (List Local)
  | 0 => throw .endless
  | m + 1 => do
    if (← at_ .constants) || (← at_ .variables_) then
      if (← advance).kind = .constants then
        let decls ← groups (constantGroup n) .endOfLine n
        endLine n
        return decls.map Local.constant ++ (← localsFrom n m)
      else
        let decls ← groups (variableGroup n) .endOfLine n
        endLine n
        return decls.map Local.var ++ (← localsFrom n m)
    else pure []

/-- A function: its head, its local declarations, and a body if there is an
`INDENT`. -/
def function (n : Nat) : Walk Function := do
  let start ← expect .define .define
  let name ← expect .identifier .functionName
  let _ ← expect .openParen .openParen
  let parameters ← groups (variableGroup n) .closeParen n
  let _ ← expect .closeParen .closeParen
  endLine n
  let locals ← localsFrom n n
  let body ← if ← at_ .indent then block n (statement n) else pure []
  pure { line := start.line, name := name.text, parameters, locals, body }

/-- Parses functions up to the end of the tokens, and puts them into a program. -/
def functionsFrom (n : Nat) : Nat → Program → Walk Program
  | 0, _ => throw .endless
  | m + 1, p => do
    match ← peek with
    | none => pure p
    | some _ =>
      let f ← function n
      skipLineEnds n
      functionsFrom n m (p.insert f)

/-- Parses the tokens from the start. -/
def program (n : Nat) : Walk Program := do
  skipLineEnds n
  let p ← functionsFrom n n {}
  let l ← level
  if l = 0 then pure p else failAt (.unbalanced l) none

/-- What comes of tokens, if nothing is done more often than `n` times. -/
def parse (n : Nat) (tokens : List Token) : EStateM.Result Stop State Program :=
  program n { tokens }

end Stepwise
end Shank
