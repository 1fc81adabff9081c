/-
# Expressions

```
condition  →  expression (compare-op expression)?
expression →  term ((+ | -) term)*
term       →  factor ((* | / | mod) factor)*
factor     →  ( expression ) | number | - number | name | name [ expression ]
            | string | character | true | false
```

Operators of one level associate to the left. An expression has the line of its
first token, an operation that of its operator, a parenthesised expression that
of what is inside.

`room` bounds how deep expressions may be nested: each takes 3 of it, and leaves
the rest to what is in its parentheses and brackets.
-/

import Shank.Parse.Cursor
import Shank.Syntax

namespace Shank
namespace Parse

/-- The operators of a term. -/
def termOp? : Token.Kind → Option ArithOp
  | .multiply => some .mul
  | .divide => some .div
  | .modulus => some .mod
  | _ => none

/-- The operators of an expression. -/
def sumOp? : Token.Kind → Option ArithOp
  | .plus => some .add
  | .minus => some .sub
  | _ => none

/-- The operators of a condition. -/
def compareOp? : Token.Kind → Option CompareOp
  | .equals => some .eq
  | .notEqual => some .ne
  | .lessThan => some .lt
  | .greaterThan => some .gt
  | .lessOrEqual => some .le
  | .greaterOrEqual => some .ge
  | _ => none

/-- The value of a number token: real if it has a point, else integer. -/
def number (t : Token) : Parse Scalar :=
  if '.' ∈ t.text.toList then
    match Numeral.real? t.text with
    | some x => pure (.real (Format.single.round x))
    | none => throw (.numeral .malformed)
  else
    match Numeral.integer? t.text with
    | .ok n => pure (.integer n)
    | .error r => throw (.numeral r)

/-- A number with the other sign. -/
def negated : Scalar → Scalar
  | .integer n => .integer (-n)
  | .real x => .real x.neg
  | v => v

/-- The value of a character token, which must hold one character. -/
def character (t : Token) : Parse Scalar :=
  match t.text.toList with
  | [c] => pure (.character c)
  | _ => failAt .characterLength (some t)

/-- Parses a factor, given the parser of what is in parentheses or brackets. -/
def factor (inner : Parse Expr) : Parse Expr := do
  match ← peek with
  | none => failHere .expectedExpression
  | some t =>
    match t.kind with
    | .openParen =>
      skip
      let e ← inner
      let _ ← expect .closeParen .closeParen
      pure e
    | .number =>
      skip
      pure (.literal t.line (← number t))
    | .minus =>
      skip
      let n ← expect .number .numberAfterMinus
      pure (.literal t.line (negated (← number n)))
    | .identifier =>
      skip
      match ← take? .openBracket with
      | some _ =>
        let index ← inner
        let _ ← expect .closeBracket .closeBracket
        pure (.element t.line t.text index)
      | none => pure (.var t.line t.text)
    | .stringLiteral =>
      skip
      pure (.literal t.line (.string t.text))
    | .characterLiteral =>
      skip
      pure (.literal t.line (← character t))
    | .true_ =>
      skip
      pure (.literal t.line (.boolean true))
    | .false_ =>
      skip
      pure (.literal t.line (.boolean false))
    | _ => failHere .expectedExpression

/-- Parses the operators that follow an operand, each with its own operand. -/
def chainFrom (operand : Parse Expr) (op? : Token.Kind → Option ArithOp) :
    List Token → Expr → Parse Expr
  | [], left => pure left
  | _ :: rounds, left => do
    match ← peek with
    | none => pure left
    | some t =>
      match op? t.kind with
      | none => pure left
      | some op =>
        skip
        let right ← operand
        chainFrom operand op? rounds (.arithmetic t.line op left right)

/-- Parses operands with operators between them, associated to the left. -/
def chain (operand : Parse Expr) (op? : Token.Kind → Option ArithOp) : Parse Expr := do
  let left ← operand
  match (← peek).bind fun t => op? t.kind with
  | none => pure left
  | some _ => chainFrom operand op? (← remaining) left

/-- Parses an expression. -/
def expression : Nat → Parse Expr
  | room + 3 => chain (chain (factor (expression room)) termOp?) sumOp?
  | _ => throw .tooDeep

/-- Parses an expression, or two with a comparison between them. -/
def condition (room : Nat) : Parse Expr := do
  let left ← expression room
  match ← peek with
  | none => pure left
  | some t =>
    match compareOp? t.kind with
    | none => pure left
    | some op =>
      skip
      let right ← expression room
      pure (.comparison t.line op left right)

end Parse
end Shank
