/-
# Writing a program as source text

A program is written line by line, one declaration or statement to a line, with
as many tabs in front of a statement as there are statements around it, one more
for the body of the function. On a line the lexemes stand with single blanks
between them.

| part | written |
| --- | --- |
| number | decimal digits, a minus in front of a negative one; a real as it is spelled by `spell` |
| string, character | between its quotes |
| operand | in parentheses where it would be read otherwise: left operands of a lower level than their operator, right ones that are not of a higher level |
| parameters | one group each, `;` between them |
| local declaration | a line of its own |
| branch after the first | `elsif`, or `else` without a condition |

How reals are spelled is left open here; `spell` gives the numeral of a real
without its sign.
-/

import Shank.Syntax
import Shank.Token

namespace Shank

/-- What is written in one piece: kind and text of a token, which has a place
besides. -/
structure Lexeme where
  kind : Token.Kind
  text : String
  deriving DecidableEq, Repr

/-- What a token is without its place. -/
def Token.lexeme (t : Token) : Lexeme :=
  ⟨t.kind, t.text⟩

namespace Lexeme

/-- The characters of a lexeme on a line: a literal has its quotes. -/
def written (l : Lexeme) : List Char :=
  match l.kind with
  | .stringLiteral => '"' :: (l.text.toList ++ ['"'])
  | .characterLiteral => '\'' :: (l.text.toList ++ ['\''])
  | _ => l.text.toList

/-- The name of a variable or a function. -/
def name (s : String) : Lexeme := ⟨.identifier, s⟩

/-- The digits of a number, without a sign. -/
def number (s : String) : Lexeme := ⟨.number, s⟩

/-- The minus, as an operator and in front of a number. -/
def minus : Lexeme := ⟨.minus, "-"⟩

/-- An opening parenthesis. -/
def openParen : Lexeme := ⟨.openParen, "("⟩

/-- A closing parenthesis. -/
def closeParen : Lexeme := ⟨.closeParen, ")"⟩

/-- The bracket in front of an index. -/
def openBracket : Lexeme := ⟨.openBracket, "["⟩

/-- The bracket behind an index. -/
def closeBracket : Lexeme := ⟨.closeBracket, "]"⟩

/-- What stands between arguments and between names. -/
def comma : Lexeme := ⟨.comma, ","⟩

/-- What stands between the declarations of parameters. -/
def semicolon : Lexeme := ⟨.semicolon, ";"⟩

/-- What stands between names and their type. -/
def colon : Lexeme := ⟨.colon, ":"⟩

/-- The sign between a constant and its value. -/
def equals : Lexeme := ⟨.equals, "="⟩

/-- The sign between a target and its value. -/
def assigner : Lexeme := ⟨.assigner, ":="⟩

/-- The word in front of what a function may change. -/
def var : Lexeme := ⟨.var, "var"⟩

/-- The word in front of a lower bound. -/
def from_ : Lexeme := ⟨.from_, "from"⟩

/-- The word in front of an upper bound. -/
def to_ : Lexeme := ⟨.to_, "to"⟩

end Lexeme

/-! ## Expressions

An operation is put into parentheses where it stands for an operand that binds
more tightly. A negative number is written as a minus and its magnitude.
-/

/-- A whole number without its sign. -/
def numeralOf (n : Int) : Lexeme :=
  .number (Numeral.integerText n.natAbs)

/-- A number with a sign if it is negative. -/
def signed (negative : Bool) (l : Lexeme) : List Lexeme :=
  if negative then [.minus, l] else [l]

section Spell

variable (spell : Ieee → String)

/-- A real with its sign. -/
def Ieee.lexemes (x : Ieee) : List Lexeme :=
  signed x.isNegative (.number (spell (if x.isNegative then x.neg else x)))

/-- An integer with its sign. -/
def integerLexemes (n : Int) : List Lexeme :=
  signed (n < 0) (numeralOf n)

/-- A literal. -/
def Scalar.lexemes : Scalar → List Lexeme
  | integer n => integerLexemes n
  | real x => x.lexemes spell
  | string s => [⟨.stringLiteral, s⟩]
  | character c => [⟨.characterLiteral, c.toString⟩]
  | boolean b => [if b then ⟨.true_, "true"⟩ else ⟨.false_, "false"⟩]

/-- The level of an operator; operators of a higher level bind tighter. -/
def ArithOp.level : ArithOp → Nat
  | add | sub => 0
  | mul | div | mod => 1

/-- An arithmetic operator as it is written. -/
def ArithOp.lexeme : ArithOp → Lexeme
  | add => ⟨.plus, "+"⟩
  | sub => ⟨.minus, "-"⟩
  | mul => ⟨.multiply, "*"⟩
  | div => ⟨.divide, "/"⟩
  | mod => ⟨.modulus, "mod"⟩

/-- A comparison as it is written. -/
def CompareOp.lexeme : CompareOp → Lexeme
  | eq => ⟨.equals, "="⟩
  | ne => ⟨.notEqual, "<>"⟩
  | lt => ⟨.lessThan, "<"⟩
  | gt => ⟨.greaterThan, ">"⟩
  | le => ⟨.lessOrEqual, "<="⟩
  | ge => ⟨.greaterOrEqual, ">="⟩

/-- An expression where operators of a level and above may stand without
parentheses. -/
def Expr.lexemes (level : Nat) : Expr → List Lexeme
  | literal _ v => v.lexemes spell
  | var _ name => [.name name]
  | element _ name index =>
    .name name :: .openBracket :: (index.lexemes 0 ++ [.closeBracket])
  | arithmetic _ op left right =>
    let inside := left.lexemes op.level ++ op.lexeme :: right.lexemes (op.level + 1)
    if level ≤ op.level then inside else .openParen :: (inside ++ [.closeParen])
  | comparison _ op left right => left.lexemes 0 ++ op.lexeme :: right.lexemes 0

/-- The index of a target in its brackets. -/
def Target.indexLexemes (t : Target) : List Lexeme :=
  match t.index with
  | none => []
  | some index => .openBracket :: (index.lexemes spell 0 ++ [.closeBracket])

/-- The left side of an assignment. -/
def Target.lexemes (t : Target) : List Lexeme :=
  .name t.name :: t.indexLexemes spell

/-- An argument: an expression, or a name behind `var`. -/
def Argument.lexemes : Argument → List Lexeme
  | value _ e => e.lexemes spell 0
  | reference _ name _ => [.var, .name name]

/-- Parts with a separator between them. -/
def separated (separator : Lexeme) : List (List Lexeme) → List Lexeme
  | [] => []
  | part :: rest => part ++ rest.flatMap (separator :: ·)

/-! ## Lines

A line has a depth and lexemes. Blocks are written on lines of their own, one
level further in.
-/

/-- A line: its depth, and what is written on it. -/
structure Line where
  depth : Nat
  lexemes : List Lexeme

mutual

/-- The lines of a statement at a depth. -/
def Stmt.lines (d : Nat) : Stmt → List Line
  | .assign _ target value => [⟨d, target.lexemes spell ++ .assigner :: value.lexemes spell 0⟩]
  | .ifChain _ branches => Branch.linesOfChain d ⟨.if_, "if"⟩ branches
  | .whileLoop _ condition body =>
    ⟨d, ⟨.while_, "while"⟩ :: condition.lexemes spell 0⟩ :: Stmt.linesOfBlock (d + 1) body
  | .repeatLoop _ condition body =>
    ⟨d, ⟨.repeat_, "repeat"⟩ :: ⟨.until_, "until"⟩ :: condition.lexemes spell 0⟩ ::
      Stmt.linesOfBlock (d + 1) body
  | .forLoop _ name _ start stop body =>
    ⟨d, ⟨.for_, "for"⟩ :: .name name :: .from_ ::
      (start.lexemes spell 0 ++ .to_ :: stop.lexemes spell 0)⟩ :: Stmt.linesOfBlock (d + 1) body
  | .call _ name arguments =>
    [⟨d, .name name :: separated .comma (arguments.map (·.lexemes spell))⟩]

/-- The lines of the statements of a block at a depth. -/
def Stmt.linesOfBlock (d : Nat) : List Stmt → List Line
  | [] => []
  | s :: rest => Stmt.lines d s ++ Stmt.linesOfBlock d rest

/-- The lines of a branch; `word` starts it if it has a condition. -/
def Branch.lines (d : Nat) (word : Lexeme) : Branch → List Line
  | .mk _ (some condition) body =>
    ⟨d, word :: (condition.lexemes spell 0 ++ [⟨.then_, "then"⟩])⟩ :: Stmt.linesOfBlock (d + 1) body
  | .mk _ none body => ⟨d, [⟨.else_, "else"⟩]⟩ :: Stmt.linesOfBlock (d + 1) body

/-- The lines of branches of which the first one starts with `word`. -/
def Branch.linesOfChain (d : Nat) (word : Lexeme) : List Branch → List Line
  | [] => []
  | b :: rest => Branch.lines d word b ++ Branch.linesOfChain d ⟨.elsif, "elsif"⟩ rest

end

/-! ## Declarations

Each declared name is written with its own type or value, so nothing has to be
remembered of how it was grouped.
-/

/-- The word of a kind. -/
def Kind.lexeme : Kind → Lexeme
  | integer => ⟨.integer, "integer"⟩
  | real => ⟨.real, "real"⟩
  | string => ⟨.string, "string"⟩
  | character => ⟨.character, "character"⟩
  | boolean => ⟨.boolean, "boolean"⟩

/-- A bound in its own form. -/
def Bound.lexemes : Bound → List Lexeme
  | whole n => integerLexemes n
  | real x => x.lexemes spell

/-- A range. -/
def rangeLexemes (low high : Bound) : List Lexeme :=
  .from_ :: (low.lexemes spell ++ .to_ :: high.lexemes spell)

/-- A range of integers. -/
def Interval.lexemes (r : Interval) : List Lexeme :=
  rangeLexemes spell (.whole r.low) (.whole r.high)

/-- A scalar type: the word of its kind, and its range if it has one. -/
def ScalarType.lexemes (type : ScalarType) : List Lexeme :=
  type.kind.lexeme ::
    match type with
    | integer (some r) => r.lexemes spell
    | real (some r) => rangeLexemes spell r.low r.high
    | string (some r) => r.lexemes spell
    | _ => []

/-- A type: a scalar one, or an array with its bounds and the word of its
elements. -/
def DeclaredType.lexemes : DeclaredType → List Lexeme
  | scalar type => type.lexemes spell
  | array bounds element =>
    ⟨.array, "array"⟩ :: (bounds.lexemes spell ++ [⟨.of_, "of"⟩, element.lexeme])

/-- A declared variable, in a group of its own. -/
def Variable.lexemes (v : Variable) : List Lexeme :=
  (if v.isVar then [.var] else []) ++ .name v.name :: .colon :: v.type.lexemes spell

/-- A declared constant, in a group of its own. -/
def Constant.lexemes (c : Constant) : List Lexeme :=
  .name c.name :: .equals :: c.value.lexemes spell

/-- A local declaration. -/
def Local.lexemes : Local → List Lexeme
  | constant c => ⟨.constants, "constants"⟩ :: c.lexemes spell
  | var v => ⟨.variables_, "variables"⟩ :: v.lexemes spell

/-- The first line of a function. -/
def Function.headLexemes (f : Function) : List Lexeme :=
  ⟨.define, "define"⟩ :: .name f.name :: .openParen ::
    (separated .semicolon (f.parameters.map (·.lexemes spell)) ++ [.closeParen])

/-- The lines of a function: its head, a line for each local declaration, and
those of its body. -/
def Function.lines (f : Function) : List Line :=
  ⟨0, f.headLexemes spell⟩ ::
    (f.locals.map (fun d => ⟨0, d.lexemes spell⟩) ++ Stmt.linesOfBlock spell 1 f.body)

/-- The lines of a program, function after function. -/
def Program.lines (p : Program) : List Line :=
  p.functions.flatMap (·.lines spell)

end Spell

/-! ## Text

The characters of the lines: tabs for the depth, lexemes with single blanks
between them, and a line feed behind each line.
-/

/-- Lexemes with single blanks between them. -/
def spaced : List Lexeme → List Char
  | [] => []
  | [l] => l.written
  | l :: rest => l.written ++ ' ' :: spaced rest

/-- The characters of a line, a tab for each level. -/
def Line.text (l : Line) : List Char :=
  List.replicate l.depth '\t' ++ spaced l.lexemes

/-- The source text of a program. -/
def Program.source (spell : Ieee → String) (p : Program) : String :=
  String.ofList ((p.lines spell).flatMap fun l => l.text ++ ['\n'])

end Shank
