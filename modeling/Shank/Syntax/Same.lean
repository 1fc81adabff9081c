/-
# Equality of programs

Two programs are the same when they have the same functions, in any order, and
these agree in everything but lines. Literals agree in kind and value, reals as
numbers; the bounds of a range agree as numbers, in whatever form they are
written.
-/

import Shank.Syntax

namespace Shank

namespace Expr

/-- Equality up to lines. -/
def same : Expr → Expr → Bool
  | literal _ v, literal _ w => v.same w
  | var _ x, var _ y => x == y
  | element _ x i, element _ y j => x == y && same i j
  | arithmetic _ p a b, arithmetic _ q c d => p == q && same a c && same b d
  | comparison _ p a b, comparison _ q c d => p == q && same a c && same b d
  | _, _ => false

end Expr

/-- Equality of options, given one of their contents. -/
def sameOption {α : Type} (same : α → α → Bool) : Option α → Option α → Bool
  | none, none => true
  | some a, some b => same a b
  | _, _ => false

/-- Equality of lists, given one of their items. -/
def sameList {α : Type} (same : α → α → Bool) : List α → List α → Bool
  | [], [] => true
  | a :: as, b :: bs => same a b && sameList same as bs
  | _, _ => false

/-- Equality of targets up to lines: the same name, and the same index or none
at all. -/
def Target.same (s t : Target) : Bool :=
  s.name == t.name && sameOption Expr.same s.index t.index

/-- Equality of arguments up to lines. An argument by value is never the same as
one by reference. -/
def Argument.same : Argument → Argument → Bool
  | value _ a, value _ b => a.same b
  | reference _ x _, reference _ y _ => x == y
  | _, _ => false

mutual

/-- Equality up to lines. -/
def Stmt.same : Stmt → Stmt → Bool
  | .assign _ t a, .assign _ u b => t.same u && a.same b
  | .ifChain _ as, .ifChain _ bs => Branch.sameChain as bs
  | .whileLoop _ a as, .whileLoop _ b bs => a.same b && Stmt.sameBlock as bs
  | .repeatLoop _ a as, .repeatLoop _ b bs => a.same b && Stmt.sameBlock as bs
  | .forLoop _ x _ a b as, .forLoop _ y _ c d bs =>
    x == y && a.same c && b.same d && Stmt.sameBlock as bs
  | .call _ f as, .call _ g bs => f == g && sameList Argument.same as bs
  | _, _ => false

/-- Equality of blocks up to lines: as many statements, the same ones in the
same order. -/
def Stmt.sameBlock : List Stmt → List Stmt → Bool
  | [], [] => true
  | a :: as, b :: bs => Stmt.same a b && Stmt.sameBlock as bs
  | _, _ => false

/-- Equality of branches up to lines: the same condition, or none in both, and
the same body. -/
def Branch.same : Branch → Branch → Bool
  | .mk _ a as, .mk _ b bs => sameOption Expr.same a b && Stmt.sameBlock as bs

/-- Equality of the branches of an if chain up to lines, one after the other. -/
def Branch.sameChain : List Branch → List Branch → Bool
  | [], [] => true
  | a :: as, b :: bs => Branch.same a b && Branch.sameChain as bs
  | _, _ => false

end

/-- Equality of real ranges: the bounds are the same numbers, be they written as
integers or as reals. -/
def RealInterval.same (r s : RealInterval) : Bool :=
  r.low.eq s.low && r.high.eq s.high

/-- Equality of scalar types. Real ranges are compared by the numbers that their
bounds mean. -/
def ScalarType.same : ScalarType → ScalarType → Bool
  | real r, real s => sameOption RealInterval.same r s
  | s, t => s == t

/-- Equality of declared types, with ranges, bounds and element kinds. -/
def DeclaredType.same : DeclaredType → DeclaredType → Bool
  | scalar s, scalar t => s.same t
  | s, t => s == t

/-- Equality of declared variables up to lines: name, type, and whether `var`
stands in front. -/
def Variable.same (v w : Variable) : Bool :=
  v.name == w.name && v.type.same w.type && v.isVar == w.isVar

/-- Equality of constants up to lines: the same name and the same value. -/
def Constant.same (c d : Constant) : Bool :=
  c.name == d.name && c.value.same d.value

/-- Equality of local declarations up to lines. A constant is never the same as
a variable. -/
def Local.same : Local → Local → Bool
  | constant c, constant d => c.same d
  | var v, var w => v.same w
  | _, _ => false

/-- Equality of functions up to lines: the same name, and the same parameters,
locals and statements in the same order. -/
def Function.same (f g : Function) : Bool :=
  f.name == g.name && sameList Variable.same f.parameters g.parameters &&
    sameList Local.same f.locals g.locals && Stmt.sameBlock f.body g.body

/-- Equality of programs up to lines and the order of functions. -/
def Program.same (p q : Program) : Bool :=
  p.functions.length == q.functions.length &&
    p.functions.all fun f =>
      match q.find? f.name with
      | some g => f.same g
      | none => false

end Shank
