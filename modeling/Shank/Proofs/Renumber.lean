/-
# Lines with other numbers

Where something stands in a text is told by numbers, of a line and perhaps a
column. `renumber` puts other numbers for them, everywhere in a tree, and leaves
the rest of it alone. With the same numbers a tree stays as it is
(`renumber_id`), and with zero for each of them it is bare (`renumber_zero`); so
that trees are equal after it says that they are equal, or that they are equal
up to lines, as the numbers may be.
-/

import Shank.Parse.Program
import Shank.Proofs.Print.Bare

namespace Shank

/-- A token at another place. -/
def Token.renumber (g : Nat → Nat) (t : Token) : Token :=
  { t with line := g t.line, column := g t.column }

/-- An expression with other lines. -/
def Expr.renumber (g : Nat → Nat) : Expr → Expr
  | literal line v => literal (g line) v
  | var line name => var (g line) name
  | element line name index => element (g line) name (index.renumber g)
  | arithmetic line op left right => arithmetic (g line) op (left.renumber g) (right.renumber g)
  | comparison line op left right => comparison (g line) op (left.renumber g) (right.renumber g)

/-- A target with other lines. -/
def Target.renumber (g : Nat → Nat) (t : Target) : Target :=
  ⟨g t.line, t.name, t.index.map (Expr.renumber g)⟩

/-- An argument with other lines, also that of its name. -/
def Argument.renumber (g : Nat → Nat) : Argument → Argument
  | value line e => value (g line) (e.renumber g)
  | reference line name nameLine => reference (g line) name (g nameLine)

mutual

/-- A statement with other lines, in its blocks as well. -/
def Stmt.renumber (g : Nat → Nat) : Stmt → Stmt
  | .assign line target value => .assign (g line) (target.renumber g) (value.renumber g)
  | .ifChain line branches => .ifChain (g line) (Branch.renumberChain g branches)
  | .whileLoop line condition body =>
    .whileLoop (g line) (condition.renumber g) (Stmt.renumberBlock g body)
  | .repeatLoop line condition body =>
    .repeatLoop (g line) (condition.renumber g) (Stmt.renumberBlock g body)
  | .forLoop line name nameLine start stop body =>
    .forLoop (g line) name (g nameLine) (start.renumber g) (stop.renumber g)
      (Stmt.renumberBlock g body)
  | .call line name arguments => .call (g line) name (arguments.map (Argument.renumber g))

/-- The statements of a block with other lines. -/
def Stmt.renumberBlock (g : Nat → Nat) : List Stmt → List Stmt
  | [] => []
  | s :: rest => Stmt.renumber g s :: Stmt.renumberBlock g rest

/-- A branch with other lines. -/
def Branch.renumber (g : Nat → Nat) : Branch → Branch
  | .mk line condition body =>
    .mk (g line) (condition.map (Expr.renumber g)) (Stmt.renumberBlock g body)

/-- The branches of an if chain with other lines. -/
def Branch.renumberChain (g : Nat → Nat) : List Branch → List Branch
  | [] => []
  | b :: rest => Branch.renumber g b :: Branch.renumberChain g rest

end

/-- A declared variable with another line. -/
def Variable.renumber (g : Nat → Nat) (v : Variable) : Variable :=
  { v with line := g v.line }

/-- A constant with other lines, also that of its literal. -/
def Constant.renumber (g : Nat → Nat) (c : Constant) : Constant :=
  { c with line := g c.line, valueLine := g c.valueLine }

/-- A local declaration with other lines. -/
def Local.renumber (g : Nat → Nat) : Local → Local
  | constant c => constant (c.renumber g)
  | var v => var (v.renumber g)

/-- A function with other lines, throughout. -/
def Function.renumber (g : Nat → Nat) (f : Function) : Function :=
  { line := g f.line, name := f.name, parameters := f.parameters.map (Variable.renumber g),
    locals := f.locals.map (Local.renumber g), body := Stmt.renumberBlock g f.body }

/-- A syntax fault at another place. -/
def SyntaxFault.renumber (g : Nat → Nat) (e : SyntaxFault) : SyntaxFault :=
  { e with token := e.token.map (Token.renumber g) }

/-- What ends a parse, at another place if it has one. -/
def ParseHalt.renumber (g : Nat → Nat) : ParseHalt → ParseHalt
  | fault e => fault (e.renumber g)
  | h => h

/-- Tokens that are equal after it are equal up to numbers. -/
theorem Token.renumber_eq {t u : Token} {g : Nat → Nat} (h : t.renumber g = u.renumber g) :
    t.kind = u.kind ∧ t.text = u.text ∧ g t.line = g u.line ∧ g t.column = g u.column := by
  simpa [Token.renumber] using h

/-! ## The same numbers

Renumbering is used for streams that have the same lines, too. Then it changes
nothing, and results that are alike are equal.
-/

/-- With the same numbers a token stays as it is. -/
theorem Token.renumber_id : Token.renumber id = id :=
  rfl

/-- With the same numbers an expression stays as it is. The induction is on the
expression. -/
theorem Expr.renumber_id : Expr.renumber id = id := by
  funext e
  induction e <;> simp_all [renumber]

/-- With the same numbers a target stays as it is. -/
theorem Target.renumber_id : Target.renumber id = id := by
  funext t
  simp [renumber, Expr.renumber_id]

/-- With the same numbers an argument stays as it is. -/
theorem Argument.renumber_id : Argument.renumber id = id := by
  funext a
  cases a <;> simp [renumber, Expr.renumber_id]

mutual

/-- With the same numbers a statement stays as it is. This recurs with blocks,
branches and chains, as `renumber` does. -/
theorem Stmt.renumber_id (s : Stmt) : s.renumber id = s := by
  cases s with
  | assign | call => simp [Stmt.renumber, Target.renumber_id, Expr.renumber_id, Argument.renumber_id]
  | ifChain _ branches => rw [Stmt.renumber, Branch.renumberChain_id branches, id]
  | whileLoop _ _ body | repeatLoop _ _ body | forLoop _ _ _ _ _ body =>
    rw [Stmt.renumber, Stmt.renumberBlock_id body]
    simp [Expr.renumber_id]

/-- With the same numbers a block stays as it is. -/
theorem Stmt.renumberBlock_id (ss : List Stmt) : Stmt.renumberBlock id ss = ss := by
  cases ss with
  | nil => rfl
  | cons s rest => rw [Stmt.renumberBlock, Stmt.renumber_id s, Stmt.renumberBlock_id rest]

/-- With the same numbers a branch stays as it is. -/
theorem Branch.renumber_id (b : Branch) : b.renumber id = b := by
  obtain ⟨line, condition, body⟩ := b
  rw [Branch.renumber, Stmt.renumberBlock_id body, Expr.renumber_id, Option.map_id, id, id]

/-- With the same numbers the branches of a chain stay as they are. -/
theorem Branch.renumberChain_id (bs : List Branch) : Branch.renumberChain id bs = bs := by
  cases bs with
  | nil => rfl
  | cons b rest => rw [Branch.renumberChain, Branch.renumber_id b, Branch.renumberChain_id rest]

end

/-- With the same numbers a declared variable stays as it is. -/
theorem Variable.renumber_id : Variable.renumber id = id :=
  rfl

/-- With the same numbers a constant stays as it is. -/
theorem Constant.renumber_id : Constant.renumber id = id :=
  rfl

/-- With the same numbers a local declaration stays as it is. -/
theorem Local.renumber_id : Local.renumber id = id := by
  funext d
  cases d <;> rfl

/-- **With the same numbers a function stays as it is.** -/
theorem Function.renumber_id : Function.renumber id = id := by
  funext f
  simp [renumber, Variable.renumber_id, Local.renumber_id, Stmt.renumberBlock_id]

/-- With the same numbers what ends a parse stays as it is. -/
theorem ParseHalt.renumber_id : ParseHalt.renumber id = id := by
  funext h
  cases h <;> simp [renumber, SyntaxFault.renumber, Token.renumber_id]

/-! ## Zero for all numbers

With zero for every number nothing is left of the lines. So what is alike up to
lines is alike when it is bare.
-/

/-- With zero for all numbers an expression is bare. The induction is on the
expression. -/
theorem Expr.renumber_zero : Expr.renumber (fun _ => 0) = Expr.bare := by
  funext e
  induction e <;> simp_all [renumber, bare]

/-- With zero for all numbers a target is bare. -/
theorem Target.renumber_zero : Target.renumber (fun _ => 0) = Target.bare := by
  funext t
  rw [renumber, bare, Expr.renumber_zero]

/-- With zero for all numbers an argument is bare. -/
theorem Argument.renumber_zero : Argument.renumber (fun _ => 0) = Argument.bare := by
  funext a
  cases a <;> simp [renumber, bare, Expr.renumber_zero]

mutual

/-- With zero for all numbers a statement is bare. -/
theorem Stmt.renumber_zero (s : Stmt) : s.renumber (fun _ => 0) = s.bare := by
  cases s with
  | assign | call =>
    simp [Stmt.renumber, Stmt.bare, Target.renumber_zero, Expr.renumber_zero, Argument.renumber_zero]
  | ifChain _ branches => rw [Stmt.renumber, Stmt.bare, Branch.renumberChain_zero branches]
  | whileLoop _ _ body | repeatLoop _ _ body | forLoop _ _ _ _ _ body =>
    rw [Stmt.renumber, Stmt.bare, Stmt.renumberBlock_zero body]
    simp [Expr.renumber_zero]

/-- With zero for all numbers a block is bare. -/
theorem Stmt.renumberBlock_zero (ss : List Stmt) :
    Stmt.renumberBlock (fun _ => 0) ss = Stmt.bareBlock ss := by
  cases ss with
  | nil => rfl
  | cons s rest =>
    rw [Stmt.renumberBlock, Stmt.bareBlock, Stmt.renumber_zero s, Stmt.renumberBlock_zero rest]

/-- With zero for all numbers a branch is bare. -/
theorem Branch.renumber_zero (b : Branch) : b.renumber (fun _ => 0) = b.bare := by
  obtain ⟨line, condition, body⟩ := b
  rw [Branch.renumber, Branch.bare, Stmt.renumberBlock_zero body, Expr.renumber_zero]

/-- With zero for all numbers the branches of a chain are bare. -/
theorem Branch.renumberChain_zero (bs : List Branch) :
    Branch.renumberChain (fun _ => 0) bs = Branch.bareChain bs := by
  cases bs with
  | nil => rfl
  | cons b rest =>
    rw [Branch.renumberChain, Branch.bareChain, Branch.renumber_zero b, Branch.renumberChain_zero rest]

end

/-- With zero for all numbers a declared variable is bare. -/
theorem Variable.renumber_zero : Variable.renumber (fun _ => 0) = Variable.bare :=
  rfl

/-- With zero for all numbers a local declaration is bare. -/
theorem Local.renumber_zero : Local.renumber (fun _ => 0) = Local.bare := by
  funext d
  cases d <;> rfl

/-- **With zero for all numbers a function is bare.** -/
theorem Function.renumber_zero : Function.renumber (fun _ => 0) = Function.bare := by
  funext f
  rw [renumber, bare, Variable.renumber_zero, Local.renumber_zero, Stmt.renumberBlock_zero]

/-- Functions are bare alike, if they are equal with zero for all numbers. -/
theorem Program.bare_eq_of_renumber {fs gs : List Function}
    (h : fs.map (Function.renumber fun _ => 0) = gs.map (Function.renumber fun _ => 0)) :
    fs.map Function.bare = gs.map Function.bare := by
  rwa [Function.renumber_zero] at h

end Shank
