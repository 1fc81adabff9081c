/-
# Programs

What a program text says. Every node keeps the line it was read from; lines take
no part in what the program means.

| node | parts |
| --- | --- |
| `Expr` | literals, variables and array elements, arithmetic, comparisons |
| `Stmt` | assignment, if chain, three loops, call |
| `Variable`, `Constant` | declarations of a function |
| `Function` | a name, parameters, locals and a body |
| `Program` | functions, no two of one name |

A chain of `if` and `elsif` is one statement with a branch for each condition; a
last branch without a condition is the `else`.
-/

import Shank.Type
import Shank.Operator

namespace Shank

/-- Expressions. -/
inductive Expr
  | literal (line : Nat) (value : Scalar)
  | var (line : Nat) (name : String)
  | element (line : Nat) (name : String) (index : Expr)
  | arithmetic (line : Nat) (op : ArithOp) (left right : Expr)
  | comparison (line : Nat) (op : CompareOp) (left right : Expr)
  deriving DecidableEq, Repr

/-- The left side of an assignment: a variable, or an element of an array. -/
structure Target where
  line : Nat
  name : String
  index : Option Expr
  deriving DecidableEq, Repr

/-- An argument of a call: a value, or a variable of the caller handed over with
`var`. -/
inductive Argument
  | value (line : Nat) (value : Expr)
  | reference (line : Nat) (name : String) (nameLine : Nat)
  deriving DecidableEq, Repr

mutual

/-- Statements. -/
inductive Stmt
  | assign (line : Nat) (target : Target) (value : Expr)
  | ifChain (line : Nat) (branches : List Branch)
  | whileLoop (line : Nat) (condition : Expr) (body : List Stmt)
  | repeatLoop (line : Nat) (condition : Expr) (body : List Stmt)
  | forLoop (line : Nat) (name : String) (nameLine : Nat) (start stop : Expr) (body : List Stmt)
  | call (line : Nat) (name : String) (arguments : List Argument)

/-- A branch of an if chain. -/
inductive Branch
  | mk (line : Nat) (condition : Option Expr) (body : List Stmt)

end

/-- A declared variable: a parameter or a local one. `isVar` marks a parameter
that stands for the caller's variable. -/
structure Variable where
  line : Nat
  name : String
  type : DeclaredType
  isVar : Bool := false
  deriving DecidableEq, Repr

/-- A declared constant, with the line its literal stands on. -/
structure Constant where
  line : Nat
  name : String
  value : Scalar
  valueLine : Nat
  deriving DecidableEq, Repr

/-- A local declaration. -/
inductive Local
  | constant (decl : Constant)
  | var (decl : Variable)
  deriving DecidableEq, Repr

/-- A function: its parameters, which a call binds in their order, its local
declarations, and the statements of its body. `line` is the line of its
`define`. -/
structure Function where
  line : Nat
  name : String
  parameters : List Variable
  locals : List Local
  body : List Stmt

/-- Functions in the order in which their names appear first. -/
structure Program where
  functions : List Function := []

namespace Expr

/-- The line of an expression. -/
def line : Expr → Nat
  | literal line _ => line
  | var line _ => line
  | element line _ _ => line
  | arithmetic line _ _ _ => line
  | comparison line _ _ _ => line

/-- How deep an expression is nested. An index is two levels below its array. -/
def depth : Expr → Nat
  | literal _ _ => 1
  | var _ _ => 1
  | element _ _ index => index.depth + 2
  | arithmetic _ _ left right => max left.depth right.depth + 1
  | comparison _ _ left right => max left.depth right.depth + 1

end Expr

/-- The depth of the index of a target. -/
def Target.depth (t : Target) : Nat :=
  match t.index with
  | some index => index.depth + 2
  | none => 1

/-- The depth of an argument. -/
def Argument.depth : Argument → Nat
  | value _ e => e.depth
  | reference _ _ _ => 1

/-- The line that a statement starts on. -/
def Stmt.line : Stmt → Nat
  | assign line _ _ => line
  | ifChain line _ => line
  | whileLoop line _ _ => line
  | repeatLoop line _ _ => line
  | forLoop line _ _ _ _ _ => line
  | call line _ _ => line

namespace Branch

/-- The line of the word that a branch starts with. -/
def line : Branch → Nat
  | mk line _ _ => line

/-- The condition of a branch; the `else` has none. -/
def condition : Branch → Option Expr
  | mk _ condition _ => condition

/-- The statements that are executed if a branch is taken. -/
def body : Branch → List Stmt
  | mk _ _ body => body

/-- The depth of the condition of a branch. -/
def depth : Branch → Nat
  | mk _ (some condition) _ => condition.depth
  | mk _ none _ => 0

end Branch

/-- The depth of the deepest expression in the head of a statement; bodies do
not count. -/
def Stmt.headDepth : Stmt → Nat
  | assign _ target value => max target.depth value.depth
  | ifChain _ branches => branches.foldl (fun d b => max d b.depth) 0
  | whileLoop _ condition _ => condition.depth
  | repeatLoop _ condition _ => condition.depth
  | forLoop _ _ _ start stop _ => max start.depth stop.depth
  | call _ _ arguments => arguments.foldl (fun d a => max d a.depth) 0

namespace Program

/-- The function of a name. -/
def find? (p : Program) (name : String) : Option Function :=
  p.functions.find? fun f => f.name == name

/-- Has a program a function of this name? -/
def contains (p : Program) (name : String) : Bool :=
  p.functions.any fun f => f.name == name

/-- A program with one function more. One of the same name gives up its place to
it. -/
def insert (p : Program) (f : Function) : Program :=
  if p.contains f.name then
    { functions := p.functions.map fun g => if g.name = f.name then f else g }
  else { functions := p.functions ++ [f] }

/-- The functions of another program added in order. -/
def merge (p q : Program) : Program :=
  q.functions.foldl insert p

/-- The program of a list of definitions: the last definition of a name counts,
in the place of the first. -/
def ofList (fs : List Function) : Program :=
  fs.foldl insert {}

end Program
end Shank
