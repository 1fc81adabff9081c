/-
# Programs without their lines

What a program means does not depend on lines: `bare` puts every line to zero,
and whether two programs are the same does not change by it.

Two trees that are bare alike differ in lines only, so equality of bare trees is
how equality up to lines is stated.
-/

import Shank.Syntax.Same

namespace Shank

/-! ## Lines put to zero

There is one function for each kind of node. It leaves all else as it is, so two
nodes have one bare form just if they differ in lines only.
-/

/-- An expression with every line put to zero. -/
def Expr.bare : Expr → Expr
  | literal _ v => literal 0 v
  | var _ name => var 0 name
  | element _ name index => element 0 name index.bare
  | arithmetic _ op left right => arithmetic 0 op left.bare right.bare
  | comparison _ op left right => comparison 0 op left.bare right.bare

/-- A target with every line put to zero. -/
def Target.bare (t : Target) : Target :=
  ⟨0, t.name, t.index.map Expr.bare⟩

/-- An argument with every line put to zero, also that of the name it refers to. -/
def Argument.bare : Argument → Argument
  | value _ e => value 0 e.bare
  | reference _ name _ => reference 0 name 0

mutual

/-- A statement with every line put to zero, in its blocks as well. -/
def Stmt.bare : Stmt → Stmt
  | .assign _ target value => .assign 0 target.bare value.bare
  | .ifChain _ branches => .ifChain 0 (Branch.bareChain branches)
  | .whileLoop _ condition body => .whileLoop 0 condition.bare (Stmt.bareBlock body)
  | .repeatLoop _ condition body => .repeatLoop 0 condition.bare (Stmt.bareBlock body)
  | .forLoop _ name _ start stop body =>
    .forLoop 0 name 0 start.bare stop.bare (Stmt.bareBlock body)
  | .call _ name arguments => .call 0 name (arguments.map Argument.bare)

/-- The statements of a block with every line put to zero. -/
def Stmt.bareBlock : List Stmt → List Stmt
  | [] => []
  | s :: rest => Stmt.bare s :: Stmt.bareBlock rest

/-- A branch with every line put to zero. -/
def Branch.bare : Branch → Branch
  | .mk _ condition body => .mk 0 (condition.map Expr.bare) (Stmt.bareBlock body)

/-- The branches of an if chain with every line put to zero. -/
def Branch.bareChain : List Branch → List Branch
  | [] => []
  | b :: rest => Branch.bare b :: Branch.bareChain rest

end

/-- A declared variable with its line put to zero. -/
def Variable.bare (v : Variable) : Variable :=
  { v with line := 0 }

/-- A constant with both of its lines put to zero. -/
def Constant.bare (c : Constant) : Constant :=
  { c with line := 0, valueLine := 0 }

/-- A local declaration with every line put to zero. -/
def Local.bare : Local → Local
  | constant c => constant c.bare
  | var v => var v.bare

/-- A function with every line put to zero. -/
def Function.bare (f : Function) : Function :=
  { line := 0, name := f.name, parameters := f.parameters.map Variable.bare,
    locals := f.locals.map Local.bare, body := Stmt.bareBlock f.body }

/-- A program with every line put to zero. -/
def Program.bare (p : Program) : Program :=
  ⟨p.functions.map Function.bare⟩

/-! ## Sameness does not see lines

The comparison of two nodes passes over their lines, so the bare nodes are
compared with the same result.
-/

/-- Parts that may be absent are the same with lines put to zero as before, if
those that are there are. -/
theorem sameOption_map {α : Type} {same : α → α → Bool} {g : α → α}
    (h : ∀ a b, same (g a) (g b) = same a b) (a b : Option α) :
    sameOption same (a.map g) (b.map g) = sameOption same a b := by
  cases a <;> cases b <;> simp [sameOption, h]

/-- Parts in a row are the same with lines put to zero as before, if each of
them is. -/
theorem sameList_map {α : Type} {same : α → α → Bool} {g : α → α}
    (h : ∀ a b, same (g a) (g b) = same a b) (as bs : List α) :
    sameList same (as.map g) (bs.map g) = sameList same as bs := by
  induction as generalizing bs with
  | nil => cases bs <;> rfl
  | cons a as ih => cases bs <;> simp [sameList, h, ih]

/-- Whether two expressions are the same does not change when they are bare. The
induction is on the first one. -/
theorem Expr.same_bare (e f : Expr) : e.bare.same f.bare = e.same f := by
  induction e generalizing f with
  | literal | var => cases f <;> rfl
  | element _ _ _ ih => cases f <;> simp [bare, same, ih]
  | arithmetic _ _ _ _ ihl ihr | comparison _ _ _ _ ihl ihr =>
    cases f <;> simp [bare, same, ihl, ihr]

/-- Whether two targets are the same does not change when they are bare. -/
theorem Target.same_bare (s t : Target) : s.bare.same t.bare = s.same t := by
  simp [Target.bare, Target.same, sameOption_map Expr.same_bare]

/-- Whether two arguments are the same does not change when they are bare. -/
theorem Argument.same_bare (a b : Argument) : a.bare.same b.bare = a.same b := by
  cases a <;> cases b <;> simp [bare, same, Expr.same_bare]

mutual

/-- Whether two statements are the same does not change when they are bare. This
recurs with blocks, branches and chains. -/
theorem Stmt.same_bare (s t : Stmt) : s.bare.same t.bare = s.same t := by
  cases s <;> cases t <;> simp only [Stmt.bare, Stmt.same]
  case assign.assign => rw [Target.same_bare, Expr.same_bare]
  case ifChain.ifChain => exact Branch.sameChain_bare _ _
  case whileLoop.whileLoop => rw [Expr.same_bare, Stmt.sameBlock_bare]
  case repeatLoop.repeatLoop => rw [Expr.same_bare, Stmt.sameBlock_bare]
  case forLoop.forLoop => rw [Expr.same_bare, Expr.same_bare, Stmt.sameBlock_bare]
  case call.call => rw [sameList_map Argument.same_bare]

/-- Whether two blocks are the same does not change when they are bare. -/
theorem Stmt.sameBlock_bare (ss ts : List Stmt) :
    Stmt.sameBlock (Stmt.bareBlock ss) (Stmt.bareBlock ts) = Stmt.sameBlock ss ts := by
  cases ss <;> cases ts <;> simp only [Stmt.bareBlock, Stmt.sameBlock]
  rw [Stmt.same_bare, Stmt.sameBlock_bare]

/-- Whether two branches are the same does not change when they are bare. -/
theorem Branch.same_bare (a b : Branch) : a.bare.same b.bare = a.same b := by
  cases a
  cases b
  simp only [Branch.bare, Branch.same]
  rw [sameOption_map Expr.same_bare, Stmt.sameBlock_bare]

/-- Whether two if chains are the same does not change when they are bare. -/
theorem Branch.sameChain_bare (as bs : List Branch) :
    Branch.sameChain (Branch.bareChain as) (Branch.bareChain bs) = Branch.sameChain as bs := by
  cases as <;> cases bs <;> simp only [Branch.bareChain, Branch.sameChain]
  rw [Branch.same_bare, Branch.sameChain_bare]

end

/-- Whether two variables are the same does not change when they are bare. -/
theorem Variable.same_bare (v w : Variable) : v.bare.same w.bare = v.same w :=
  rfl

/-- Whether two local declarations are the same does not change when they are
bare. -/
theorem Local.same_bare (a b : Local) : a.bare.same b.bare = a.same b := by
  cases a <;> cases b <;> rfl

/-- **Whether two functions are the same does not change when they are bare.**
So it is enough to compare bare ones. -/
theorem Function.same_bare (f g : Function) : f.bare.same g.bare = f.same g := by
  simp only [bare, same, sameList_map Variable.same_bare, sameList_map Local.same_bare,
    Stmt.sameBlock_bare]

end Shank
