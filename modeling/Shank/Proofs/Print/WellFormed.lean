/-
# Programs that can be written

A program tree can hold more than source text can say. It is well formed when
every part of it can be written:

| part | condition |
| --- | --- |
| names | ASCII letters and digits, a letter first, no word with a meaning of its own |
| functions | no two of one name |
| if chains | a condition on the first branch, and on every other one except the last |
| bodies of branches and loops | at least one statement |
| comparisons | only as a condition, an assigned value or an argument |
| ranges | the lower bound is not above the upper one |
| strings, characters | without their own quote, line feeds, tabs and four blanks in a row |
| integers | at most `longestInteger` digits |
| reals | of single precision, and not NaN |

A well-formed program is the same as itself, and as every program that differs
in lines only (`Program.same_of_bare_eq`).
-/

import Shank.Proofs.Declarations
import Shank.Proofs.Definitions
import Shank.Proofs.Print.Bare
import Shank.Token.Line

namespace Shank

/-- Is a text the name of a variable or a function? -/
structure IsName (s : String) : Prop where
  head : ∃ c ∈ s.toList.head?, Token.isLetter c = true
  chars : ∀ c ∈ s.toList, Token.isWordChar c = true
  word : Token.Kind.ofWord s = .identifier

/-- Can a text stand between quotes on a line without changing its depth? -/
structure IsQuotable (quote : Char) (s : String) : Prop where
  quote : quote ∉ s.toList
  line : '\n' ∉ s.toList
  tab : '\t' ∉ s.toList
  blanks : ¬List.replicate 4 ' ' <:+: s.toList

/-- An integer that can be read. -/
def IsWritableInteger (n : Int) : Prop :=
  (Nat.toDigits 10 n.natAbs).length ≤ Numeral.longestInteger

/-- A real of single precision that is a number. -/
structure Ieee.IsSingle (x : Ieee) : Prop where
  number : x ≠ .nan
  single : Format.single.round x = x

/-- Can a scalar be written as a literal? -/
def Scalar.WellFormed : Scalar → Prop
  | integer n => IsWritableInteger n
  | real x => x.IsSingle
  | string s => IsQuotable '"' s
  | character c => IsQuotable '\'' c.toString
  | boolean _ => True

/-- A well-formed expression, without a comparison. -/
def Expr.WellFormed : Expr → Prop
  | literal _ v => v.WellFormed
  | var _ name => IsName name
  | element _ name index => IsName name ∧ index.WellFormed
  | arithmetic _ _ left right => left.WellFormed ∧ right.WellFormed
  | comparison _ _ _ _ => False

/-- A well-formed expression, or a comparison of two. -/
def Expr.WellFormedCondition : Expr → Prop
  | comparison _ _ left right => left.WellFormed ∧ right.WellFormed
  | e => e.WellFormed

/-- Can a target be written? -/
def Target.WellFormed (t : Target) : Prop :=
  IsName t.name ∧ ∀ index ∈ t.index, index.WellFormed

/-- Can an argument be written? One that is handed over with `var` is a name. -/
def Argument.WellFormed : Argument → Prop
  | value _ e => e.WellFormedCondition
  | reference _ name _ => IsName name

/-- Do the branches after the first have a condition, except perhaps the last? -/
def Branch.Continues (rest : List Branch) : Prop :=
  ∀ b ∈ rest.dropLast, b.condition.isSome = true

/-- Do branches make an if chain? -/
def Branch.IsChain : List Branch → Prop
  | [] => False
  | b :: rest => b.condition.isSome = true ∧ Branch.Continues rest

mutual

/-- Can a statement be written? A loop has a body that is not empty. -/
def Stmt.WellFormed : Stmt → Prop
  | .assign _ target value => target.WellFormed ∧ value.WellFormedCondition
  | .ifChain _ branches => Branch.IsChain branches ∧ Branch.WellFormedChain branches
  | .whileLoop _ condition body =>
    condition.WellFormedCondition ∧ body ≠ [] ∧ Stmt.WellFormedBlock body
  | .repeatLoop _ condition body =>
    condition.WellFormedCondition ∧ body ≠ [] ∧ Stmt.WellFormedBlock body
  | .forLoop _ name _ start stop body =>
    (IsName name ∧ start.WellFormed ∧ stop.WellFormed) ∧ body ≠ [] ∧ Stmt.WellFormedBlock body
  | .call _ name arguments => IsName name ∧ ∀ a ∈ arguments, a.WellFormed

/-- Can every statement of a block be written? -/
def Stmt.WellFormedBlock : List Stmt → Prop
  | [] => True
  | s :: rest => Stmt.WellFormed s ∧ Stmt.WellFormedBlock rest

/-- Can a branch be written? It has a body that is not empty. -/
def Branch.WellFormed : Branch → Prop
  | .mk _ condition body =>
    (∀ e ∈ condition, e.WellFormedCondition) ∧ body ≠ [] ∧ Stmt.WellFormedBlock body

/-- Can every branch of an if chain be written? -/
def Branch.WellFormedChain : List Branch → Prop
  | [] => True
  | b :: rest => Branch.WellFormed b ∧ Branch.WellFormedChain rest

end

/-- Can a bound be written? -/
def Bound.WellFormed : Bound → Prop
  | whole n => IsWritableInteger n
  | real x => x.IsSingle

/-- Can integer bounds be written? -/
def Interval.WellFormed (r : Interval) : Prop :=
  IsWritableInteger r.low ∧ IsWritableInteger r.high

/-- Can the bounds of a type be written? -/
def DeclaredType.HasWritableBounds : DeclaredType → Prop
  | scalar (.integer range) => ∀ r ∈ range, r.WellFormed
  | scalar (.real range) => ∀ r ∈ range, r.low.WellFormed ∧ r.high.WellFormed
  | scalar (.string lengths) => ∀ r ∈ lengths, r.WellFormed
  | scalar .character => True
  | scalar .boolean => True
  | array bounds _ => bounds.WellFormed

/-- Can a declared variable be written? Its range is not empty, since the parser
refuses one that is. -/
structure Variable.WellFormed (v : Variable) : Prop where
  name : IsName v.name
  ordered : v.type.Ordered
  bounds : v.type.HasWritableBounds

/-- Can a local declaration be written? -/
def Local.WellFormed : Local → Prop
  | constant c => IsName c.name ∧ c.value.WellFormed
  | var v => v.WellFormed

/-- Can a function be written? -/
structure Function.WellFormed (f : Function) : Prop where
  name : IsName f.name
  parameters : ∀ v ∈ f.parameters, v.WellFormed
  locals : ∀ d ∈ f.locals, d.WellFormed
  body : Stmt.WellFormedBlock f.body

/-- Can a program be written? No two of its functions have one name, since of
these only the last is kept. -/
structure Program.WellFormed (p : Program) : Prop where
  functions : ∀ f ∈ p.functions, f.WellFormed
  names : (p.functions.map Function.name).Nodup

/-! ## Sameness of well-formed programs

A node that holds a NaN is not the same as itself. What can be written holds
none, so there sameness is reflexive, and equality up to lines implies it.
-/

/-- What can be written is the same as itself; NaN cannot. -/
theorem Scalar.same_self {v : Scalar} (h : v.WellFormed) : v.same v = true := by
  cases v with
  | real x => exact (Ieee.eq_self_iff x).2 h.number
  | _ => simp [same]

/-- An expression that can be written is the same as itself. The induction is on
the expression. -/
theorem Expr.same_self {e : Expr} (h : e.WellFormed) : e.same e = true := by
  induction e with
  | literal => exact Scalar.same_self h
  | var => simp [same]
  | element _ _ _ ih => simp [same, ih h.2]
  | arithmetic _ _ _ _ ihl ihr => simp [same, ihl h.1, ihr h.2]
  | comparison => exact h.elim

/-- A condition that can be written is the same as itself. -/
theorem Expr.same_self_condition {e : Expr} (h : e.WellFormedCondition) : e.same e = true := by
  cases e with
  | comparison => simp [same, same_self h.1, same_self h.2]
  | _ => exact same_self h

/-- A part that may be absent is the same as itself if it is so when it is
there. -/
theorem sameOption_self {α : Type} {same : α → α → Bool} {a : Option α}
    (h : ∀ b ∈ a, same b b = true) : sameOption same a a = true := by
  cases a with
  | none => rfl
  | some b => exact h b rfl

/-- Parts in a row are the same as themselves if each of them is. -/
theorem sameList_self {α : Type} {same : α → α → Bool} {as : List α}
    (h : ∀ a ∈ as, same a a = true) : sameList same as as = true := by
  induction as with
  | nil => rfl
  | cons a as ih =>
    rw [sameList, h a (List.mem_cons_self ..), ih fun b hb => h b (List.mem_cons_of_mem _ hb)]
    rfl

/-- An argument that can be written is the same as itself. -/
theorem Argument.same_self {a : Argument} (h : a.WellFormed) : a.same a = true := by
  cases a with
  | value => exact Expr.same_self_condition h
  | reference => simp [same]

mutual

/-- A statement that can be written is the same as itself. This recurs with
blocks, branches and chains. -/
theorem Stmt.same_self (s : Stmt) (h : s.WellFormed) : s.same s = true := by
  cases s <;> simp only [Stmt.WellFormed] at h <;> simp only [Stmt.same]
  case assign target value =>
    simp [Target.same, sameOption_self fun i hi => Expr.same_self (h.1.2 i hi),
      Expr.same_self_condition h.2]
  case ifChain branches => exact Branch.sameChain_self branches h.2
  case whileLoop body =>
    rw [Expr.same_self_condition h.1, Stmt.sameBlock_self body h.2.2]
    rfl
  case repeatLoop body =>
    rw [Expr.same_self_condition h.1, Stmt.sameBlock_self body h.2.2]
    rfl
  case forLoop body =>
    rw [Expr.same_self h.1.2.1, Expr.same_self h.1.2.2, Stmt.sameBlock_self body h.2.2]
    simp
  case call => simp [sameList_self fun a ha => Argument.same_self (h.2 a ha)]

/-- A block that can be written is the same as itself. -/
theorem Stmt.sameBlock_self (ss : List Stmt) (h : Stmt.WellFormedBlock ss) :
    Stmt.sameBlock ss ss = true := by
  cases ss with
  | nil => rw [Stmt.sameBlock]
  | cons s rest =>
    rw [Stmt.sameBlock, Stmt.same_self s h.1, Stmt.sameBlock_self rest h.2]
    rfl

/-- A branch that can be written is the same as itself. -/
theorem Branch.same_self (b : Branch) (h : b.WellFormed) : b.same b = true := by
  cases b with
  | mk _ condition body =>
    rw [Branch.same, sameOption_self fun e he => Expr.same_self_condition (h.1 e he),
      Stmt.sameBlock_self body h.2.2]
    rfl

/-- An if chain that can be written is the same as itself. -/
theorem Branch.sameChain_self (bs : List Branch) (h : Branch.WellFormedChain bs) :
    Branch.sameChain bs bs = true := by
  cases bs with
  | nil => rw [Branch.sameChain]
  | cons b rest =>
    rw [Branch.sameChain, Branch.same_self b h.1, Branch.sameChain_self rest h.2]
    rfl

end

/-- A bound that can be written equals itself. -/
theorem Bound.eq_self {b : Bound} (h : b.WellFormed) : b.eq b = true := by
  refine (Ieee.eq_self_iff _).2 ?_
  cases b with
  | whole n => simp [number]
  | real x => exact h.number

/-- A variable that can be written is the same as itself. -/
theorem Variable.same_self {v : Variable} (h : v.WellFormed) : v.same v = true := by
  have htype : v.type.same v.type = true := by
    have hb := h.bounds
    cases ht : v.type with
    | array bounds element => simp [DeclaredType.same]
    | scalar type =>
      rw [ht] at hb
      cases type with
      | real range =>
        refine sameOption_self fun r hr => ?_
        rw [RealInterval.same, Bound.eq_self (hb r hr).1, Bound.eq_self (hb r hr).2]
        rfl
      | _ => simp [DeclaredType.same, ScalarType.same]
  simp [same, htype]

/-- A local declaration that can be written is the same as itself. -/
theorem Local.same_self {d : Local} (h : d.WellFormed) : d.same d = true := by
  cases d with
  | constant c => simp [same, Constant.same, Scalar.same_self h.2]
  | var v => exact Variable.same_self h

/-- A function that can be written is the same as itself. -/
theorem Function.same_self {f : Function} (h : f.WellFormed) : f.same f = true := by
  simp [same, sameList_self fun v hv => Variable.same_self (h.parameters v hv),
    sameList_self fun d hd => Local.same_self (h.locals d hd), Stmt.sameBlock_self _ h.body]

/-- **A function is the same as one that can be written** if the two differ in
lines only. -/
theorem Function.same_of_bare_eq {f g : Function} (hg : g.WellFormed) (h : f.bare = g.bare) :
    f.same g = true := by
  rw [← Function.same_bare, h, Function.same_bare]
  exact same_self hg

/-- **A program is the same as a well-formed one** that it differs from in lines
only. -/
theorem Program.same_of_bare_eq {p q : Program} (hp : p.WellFormed) (h : q.bare = p.bare) :
    q.same p = true := by
  have hmap : q.functions.map Function.bare = p.functions.map Function.bare := by
    simpa [bare] using h
  have hlength : q.functions.length = p.functions.length := by
    simpa using congrArg List.length hmap
  have hfind : ∀ f ∈ q.functions, ∃ g ∈ p.functions, f.bare = g.bare := by
    intro f hf
    have hmem := List.mem_map_of_mem (f := Function.bare) hf
    rw [hmap] at hmem
    obtain ⟨g, hg, hgf⟩ := List.mem_map.1 hmem
    exact ⟨g, hg, hgf.symm⟩
  rw [same, hlength, beq_self_eq_true, Bool.true_and, List.all_eq_true]
  intro f hf
  obtain ⟨g, hg, hfg⟩ := hfind f hf
  have hname : f.bare.name = g.bare.name := by rw [hfg]
  have hunique : p.find? f.name = some g := hname ▸ find?_of_mem hp.names hg
  simp only [hunique]
  exact Function.same_of_bare_eq (hp.functions g hg) hfg

end Shank
