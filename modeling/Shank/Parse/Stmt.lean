/-
# Statements

```
block     →  INDENT (statement | ENDOFLINE)* DEDENT
statement →  name ([ expression ])? := condition ENDOFLINE
           | if condition then ENDOFLINE block
               ((elsif | else if) condition then ENDOFLINE block)* (else ENDOFLINE block)?
           | while condition ENDOFLINE block
           | for name from expression to expression ENDOFLINE block
           | repeat until condition ENDOFLINE block
           | name (argument (, argument)*)? ENDOFLINE
argument  →  var name | condition
```

A block ends with the first `DEDENT` that belongs to it, or with the tokens.
`room` bounds how deep blocks and expressions may be nested together: the
branches of an if chain take 4 of it, the body of a loop takes 3, and so does
every expression inside another.
-/

import Shank.Parse.Expr

namespace Shank
namespace Parse

/-- Parses the statements of a block up to its end. The first `DEDENT` that a
round finds ends it, and the level behind that token is not compared with the
one the block was entered on: every statement leaves the level as it found it,
so the comparison always holds there. The parser of
`Shank.Proofs.Parse.Stepwise` makes it, and `Shank.Proofs.Safety` shows for
every list of tokens that the two parsers agree. -/
def blockFrom (statement : Parse Stmt) : List Token → Parse (List Stmt)
  | [] => pure []
  | _ :: rounds => do
    match ← peek with
    | none => pure []
    | some t =>
      if t.kind = .endOfLine then
        skip
        blockFrom statement rounds
      else if t.kind = .dedent then
        skip
        pure []
      else
        let s ← statement
        return s :: (← blockFrom statement rounds)

/-- Parses a block, given the parser of its statements. -/
def block (statement : Parse Stmt) : Parse (List Stmt) := do
  let _ ← expect .indent .block
  blockFrom statement (← remaining)

/-- Parses an argument. -/
def argument (room : Nat) : Parse Argument := do
  let start ← peek
  let line := match start with
    | some t => t.line
    | none => 0
  match ← take? .var with
  | some _ =>
    let name ← expect .identifier .variableAfterVar
    pure (.reference line name.text name.line)
  | none => pure (.value line (← condition room))

/-- Parses the arguments after the first. -/
def moreArguments (room : Nat) : List Token → Parse (List Argument)
  | [] => pure []
  | _ :: rounds => do
    match ← take? .comma with
    | none => pure []
    | some _ =>
      let a ← argument room
      return a :: (← moreArguments room rounds)

/-- Parses the arguments of a call up to the end of the line. -/
def arguments (room : Nat) : Parse (List Argument) := do
  if ← at_ .endOfLine then pure []
  else
    let a ← argument room
    return a :: (← moreArguments room (← remaining))

/-- Parses the rest of a branch whose word is on `line`. -/
def branch (room : Nat) (body : Parse (List Stmt)) (line : Nat) : Parse Branch := do
  let condition ← condition room
  let _ ← expect .then_ .then_
  endLine
  return .mk line (some condition) (← body)

/-- Parses the branches after the first. -/
def moreBranches (room : Nat) (body : Parse (List Stmt)) : List Token → Parse (List Branch)
  | [] => pure []
  | _ :: rounds => do
    match ← take? .elsif with
    | some t =>
      let b ← branch room body t.line
      return b :: (← moreBranches room body rounds)
    | none =>
      match ← take? .else_ with
      | none => pure []
      | some e =>
        match ← take? .if_ with
        | some t =>
          let b ← branch room body t.line
          return b :: (← moreBranches room body rounds)
        | none =>
          endLine
          return [.mk e.line none (← body)]

/-- Parses the rest of an assignment to the name `t`. -/
def assignment (room : Nat) (t : Token) : Parse Stmt := do
  let index ← match ← take? .openBracket with
    | some _ =>
      let e ← expression room
      let _ ← expect .closeBracket .closeBracket
      pure (some e)
    | none => pure none
  let _ ← expect .assigner .assigner
  let value ← condition room
  endLine
  pure (.assign t.line { line := t.line, name := t.text, index } value)

/-- Parses the rest of a call of `t`. -/
def call (room : Nat) (t : Token) : Parse Stmt := do
  let args ← arguments room
  endLine
  pure (.call t.line t.text args)

/-- Parses the rest of an if chain that starts on `line`. -/
def ifChain (room : Nat) (body : Parse (List Stmt)) (line : Nat) : Parse Stmt := do
  let first ← branch room body line
  let rest ← moreBranches room body (← remaining)
  pure (.ifChain line (first :: rest))

/-- Parses the rest of a `while` loop. -/
def whileLoop (room : Nat) (body : Parse (List Stmt)) (line : Nat) : Parse Stmt := do
  let condition ← condition room
  endLine
  return .whileLoop line condition (← body)

/-- Parses the rest of a `repeat` loop. -/
def repeatLoop (room : Nat) (body : Parse (List Stmt)) (line : Nat) : Parse Stmt := do
  let _ ← expect .until_ .until_
  let condition ← condition room
  endLine
  return .repeatLoop line condition (← body)

/-- Parses the rest of a `for` loop. -/
def forLoop (room : Nat) (body : Parse (List Stmt)) (line : Nat) : Parse Stmt := do
  let name ← expect .identifier .loopVariable
  let _ ← expect .from_ .from_
  let start ← expression room
  let _ ← expect .to_ .to_
  let stop ← expression room
  endLine
  return .forLoop line name.text name.line start stop (← body)

/-- Does a second token make a name the target of an assignment? -/
def assigns (t : Token) : Bool :=
  t.kind == .assigner || t.kind == .openBracket

/-- Parses what a name starts: an assignment if `:=` or a bracket follows, else
a call. -/
def nameStatement (room : Nat) (t : Token) : Parse Stmt := do
  match ← peek with
  | some next => if assigns next then assignment room t else call room t
  | none => call room t

/-- Parses a statement. -/
def statement : Nat → Parse Stmt
  | room + 4 => do
    let body := block (statement (room + 1))
    match ← peek with
    | none => failHere .unexpectedStatement
    | some t =>
      match t.kind with
      | .if_ =>
        skip
        ifChain room (block (statement room)) t.line
      | .while_ =>
        skip
        whileLoop room body t.line
      | .for_ =>
        skip
        forLoop room body t.line
      | .repeat_ =>
        skip
        repeatLoop room body t.line
      | .identifier =>
        skip
        nameStatement room t
      | _ => failHere .unexpectedStatement
  | _ => throw .tooDeep

end Parse
end Shank
