/-
# Reading a token stream

A parser takes tokens from the front of a stream. Its state, the `Cursor`, is
what is left of the stream together with the depth of the blocks entered so far:
every `INDENT` taken adds one level, every `DEDENT` takes one away. A parser
that fails leaves its cursor where it stood.

A parser fails at a place, the next token, for one of the reasons in
`SyntaxProblem`; or at a number that cannot be read; or when constructs are
nested past the room it is given.
-/

import Shank.Token
import Shank.Type

namespace Shank

/-- What can be missing in a program text. -/
inductive Item
  | define | functionName | openParen | closeParen | closeBracket | endOfLine
  | variableName | colon | constantEquals | from_ | to_ | of_ | number | numberAfterMinus
  | block | assigner | then_ | loopVariable | until_ | variableAfterVar
  deriving DecidableEq, Repr

/-- How the item that was expected is told: a token as it is written, or what it
stands for. -/
def Item.text : Item → String
  | define => "'define'"
  | functionName => "function name"
  | openParen => "'('"
  | closeParen => "')'"
  | closeBracket => "']'"
  | endOfLine => "end of line"
  | variableName => "variable name"
  | colon => "':'"
  | constantEquals => "'=' in constants declaration"
  | from_ => "'from'"
  | to_ => "'to'"
  | of_ => "'of'"
  | number => "number"
  | numberAfterMinus => "number after '-'"
  | block => "an indented block"
  | assigner => "':='"
  | then_ => "'then'"
  | loopVariable => "loop variable name after for"
  | until_ => "'until'"
  | variableAfterVar => "variable name after var"

/-- What is wrong with a program text. -/
inductive SyntaxProblem
  | expected (item : Item)
  | expectedType
  | expectedConstant
  | expectedExpression
  | unexpectedStatement
  | varConstant
  | rangeNotAllowed (kind : Kind)
  | rangeNotWhole
  | emptyRange (low high : Bound)
  | characterLength
  | unbalanced (level : Int)
  deriving DecidableEq, Repr

/-- The headline of a syntax fault. -/
def SyntaxProblem.message : SyntaxProblem → String
  | expected item => s!"Expected {item.text}"
  | expectedType => "Expected a type name"
  | expectedConstant => "Expected a literal value for constant"
  | expectedExpression => "Expected an expression"
  | unexpectedStatement => "Unexpected token at start of statement"
  | varConstant => "'var' is not allowed in a constants declaration"
  | rangeNotAllowed kind => s!"A range is not allowed for type {kind.name}"
  | rangeNotWhole => "Range bounds must be integers"
  | emptyRange low high => s!"Empty range {low.text} to {high.text}"
  | characterLength => "Character literal must hold exactly one character"
  | unbalanced level =>
    s!"Unbalanced indentation (level {Numeral.integerText level} at end of input)"

/-- A fault of a program text, with the token it shows at; there is none at the
end of the text. -/
structure SyntaxFault where
  problem : SyntaxProblem
  token : Option Token
  deriving DecidableEq, Repr

/-- The report of a fault. -/
def SyntaxFault.report (f : SyntaxFault) (margin : String) : String :=
  match f.token with
  | none => s!"{margin}Syntax error: {f.problem.message} (at end of input)"
  | some t =>
    s!"{margin}Syntax error: {f.problem.message}, got {t.describe} at line {t.line}, col {t.column}"

/-- Why a parser fails. -/
inductive ParseHalt
  | fault (fault : SyntaxFault)
  | numeral (refusal : Numeral.Refusal)
  | tooDeep
  deriving DecidableEq, Repr

/-- What is left of a token stream, and how many blocks are open. -/
structure Cursor where
  rest : List Token
  level : Int := 0
  deriving DecidableEq, Repr

/-- A parser: it takes tokens, and gives something or fails. -/
abbrev Parse := EStateM ParseHalt Cursor

/-- How far a token changes the level. -/
def Token.levelChange (t : Token) : Int :=
  match t.kind with
  | .indent => 1
  | .dedent => -1
  | _ => 0

namespace Parse

/-- The next token. -/
def peek : Parse (Option Token) :=
  fun c => .ok c.rest.head? c

/-- Is the next token of this kind? -/
def at_ (kind : Token.Kind) : Parse Bool :=
  fun c => .ok (c.rest.head?.any fun t => t.kind == kind) c

/-- Takes the next token. -/
def skip : Parse Unit :=
  fun c =>
    match c.rest with
    | [] => .ok () c
    | t :: rest => .ok () { rest, level := c.level + t.levelChange }

/-- Takes the next token if it is of this kind. -/
def take? (kind : Token.Kind) : Parse (Option Token) :=
  fun c =>
    match c.rest with
    | [] => .ok none c
    | t :: rest =>
      if t.kind = kind then .ok (some t) { rest, level := c.level + t.levelChange }
      else .ok none c

/-- Fails at a token. -/
def failAt {α : Type} (problem : SyntaxProblem) (token : Option Token) : Parse α :=
  throw (.fault { problem, token })

/-- Fails at the next token. -/
def failHere {α : Type} (problem : SyntaxProblem) : Parse α := do
  failAt problem (← peek)

/-- Takes the next token, which must be of this kind. -/
def expect (kind : Token.Kind) (item : Item) : Parse Token := do
  match ← take? kind with
  | some t => pure t
  | none => failHere (.expected item)

/-- Takes all line ends that come next. -/
def skipLineEnds : Parse Unit :=
  fun c => .ok () { c with rest := c.rest.dropWhile fun t => t.kind == .endOfLine }

/-- Takes the end of the line, and the empty lines after it. -/
def endLine : Parse Unit := do
  let _ ← expect .endOfLine .endOfLine
  skipLineEnds

/-- The tokens left. A loop that takes a token in every round goes round at most
once for each of them, so it recurs on this list. -/
def remaining : Parse (List Token) :=
  fun c => .ok c.rest c

end Parse
end Shank
