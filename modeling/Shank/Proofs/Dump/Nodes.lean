/-
# Dumps of nodes

A dump is a record of a node: its kind and its line first, then its parts by
name. What is plain is left out, and is known by that:

| part | left out |
| --- | --- |
| index of a variable, condition of a branch | if there is none |
| `var` of an argument or a parameter | if it is not there |
| range and kind of the elements of a variable | if the type has none (`DeclaredType.eq_of_dump`) |
| mark of a constant | of a variable (`Variable.get?_dump`) |

For each kind of nodes, those with one dump are equal (`dump_injective`,
`eq_of_dump`), and those with dumps that are equal in what they hold are the
same, with the same lines (`equal_dump`). Both go by recursion over the nodes.
-/

import Shank.Proofs.Dump.Equality
import Shank.Proofs.Definitions
import Shank.Proofs.Parse.Shape

namespace Shank

open Dump (node)

/-! ## Lines

The lines of all nodes in a node, from the outside in. Equal dumps have equal
lines, and this is what is shown of them beside sameness.
-/

/-- The lines of a node and of those in it, from the outside in. -/
def Expr.nodeLines : Expr → List Nat
  | literal line _ => [line]
  | var line _ => [line]
  | element line _ index => line :: index.nodeLines
  | arithmetic line _ left right => line :: (left.nodeLines ++ right.nodeLines)
  | comparison line _ left right => line :: (left.nodeLines ++ right.nodeLines)

/-- The expression with the value that a target stands for. -/
def Target.toExpr (t : Target) : Expr :=
  match t.index with
  | none => .var t.line t.name
  | some index => .element t.line t.name index

/-- The lines of a target: those of the expression it looks like. -/
def Target.nodeLines (t : Target) : List Nat :=
  t.toExpr.nodeLines

/-- The lines of an argument. -/
def Argument.nodeLines : Argument → List Nat
  | value line e => line :: e.nodeLines
  | reference line _ nameLine => [line, nameLine]

mutual

/-- The lines of a statement and of all nodes in it. -/
def Stmt.nodeLines : Stmt → List Nat
  | .assign line target value => line :: (target.nodeLines ++ value.nodeLines)
  | .ifChain line branches => line :: Branch.nodeLinesOfChain branches
  | .whileLoop line condition body =>
    line :: (condition.nodeLines ++ Stmt.nodeLinesOfBlock body)
  | .repeatLoop line condition body =>
    line :: (condition.nodeLines ++ Stmt.nodeLinesOfBlock body)
  | .forLoop line _ nameLine start stop body =>
    line :: nameLine :: (start.nodeLines ++ stop.nodeLines ++ Stmt.nodeLinesOfBlock body)
  | .call line _ arguments => line :: arguments.flatMap Argument.nodeLines

/-- The lines of the statements of a block. -/
def Stmt.nodeLinesOfBlock : List Stmt → List Nat
  | [] => []
  | s :: rest => Stmt.nodeLines s ++ Stmt.nodeLinesOfBlock rest

/-- The lines of a branch. -/
def Branch.nodeLines : Branch → List Nat
  | .mk line condition body =>
    line :: ((condition.map Expr.nodeLines).getD [] ++ Stmt.nodeLinesOfBlock body)

/-- The lines of the branches of an if chain. -/
def Branch.nodeLinesOfChain : List Branch → List Nat
  | [] => []
  | b :: rest => Branch.nodeLines b ++ Branch.nodeLinesOfChain rest

end

/-! ## Names

The names under which operators and kinds are shown. Different ones have
different names, so nothing is lost by showing a name.
-/

/-- Arithmetic operators are told apart by the way they are written. -/
theorem ArithOp.text_injective : Function.Injective ArithOp.text := fun a b h =>
  Option.some.inj (by rw [← ofText?_text a, h, ofText?_text])

/-- Comparisons are told apart by the way they are written. -/
theorem CompareOp.text_injective : Function.Injective CompareOp.text := fun a b h =>
  Option.some.inj (by rw [← ofText?_text a, h, ofText?_text])

/-- Kinds are told apart by their names. -/
theorem Kind.name_injective : Function.Injective Kind.name := fun k l h => by
  cases k <;> cases l <;> first | rfl | simp [name] at h

/-- Kinds of values are told apart by their names; none of these is `array`. -/
theorem Tag.name_injective : Function.Injective Tag.name := fun s t h => by
  rcases s with ⟨⟨⟩⟩ | _ <;> rcases t with ⟨⟨⟩⟩ | _ <;>
    first | rfl | simp [name, Kind.name] at h

/-! ## Expressions

The dump of an expression tells its kind by the type it shows, and its parts by
the fields. A target is shown as the variable it looks like.
-/

/-- **Expressions with one dump are equal.** The induction is on the first one;
the kind of a node shows in its name, and an index in a field of its own. -/
theorem Expr.dump_injective : Function.Injective Expr.dump := fun a b h => by
  induction a generalizing b with
  | literal _ v =>
    -- the type of a literal shows only with the kind of its value
    cases b with
    | literal _ w => cases v <;> cases w <;> simp_all [dump, node]
    | _ => cases v <;> simp [dump, node] at h
  | _ =>
    cases b with
    | literal _ w => cases w <;> simp [dump, node] at h
    | _ => grind [dump, node, ArithOp.text_injective.eq_iff, CompareOp.text_injective.eq_iff]

/-- Expressions with equal dumps are the same, with the same lines. -/
theorem Expr.equal_dump {a b : Expr} (h : a.dump.equal b.dump = true) :
    a.same b = true ∧ a.nodeLines = b.nodeLines := by
  induction a generalizing b with
  | literal _ v =>
    cases b with
    | literal _ w =>
      cases v <;> cases w <;> simp_all [dump, Dump.equal_node, same, Scalar.same, nodeLines]
    | _ => cases v <;> simp [dump, Dump.equal_node] at h
  | var =>
    cases b with
    | literal _ w => cases w <;> simp [dump, Dump.equal_node] at h
    | _ => simp_all [dump, Dump.equal_node, same, nodeLines]
  | element _ _ _ ih =>
    cases b with
    | literal _ w => cases w <;> simp [dump, Dump.equal_node] at h
    | element =>
      obtain ⟨rfl, rfl, hindex⟩ : _ ∧ _ ∧ _ := by simpa [dump, Dump.equal_node] using h
      simp [same, nodeLines, ih hindex]
    | _ => simp [dump, Dump.equal_node] at h
  | arithmetic _ _ _ _ ihl ihr =>
    cases b with
    | literal _ w => cases w <;> simp [dump, Dump.equal_node] at h
    | arithmetic =>
      obtain ⟨rfl, hop, hleft, hright⟩ : _ ∧ _ ∧ _ ∧ _ := by simpa [dump, Dump.equal_node] using h
      simp [same, nodeLines, ArithOp.text_injective hop, ihl hleft, ihr hright]
    | _ => simp [dump, Dump.equal_node] at h
  | comparison _ _ _ _ ihl ihr =>
    cases b with
    | literal _ w => cases w <;> simp [dump, Dump.equal_node] at h
    | comparison =>
      obtain ⟨rfl, hop, hleft, hright⟩ : _ ∧ _ ∧ _ ∧ _ := by simpa [dump, Dump.equal_node] using h
      simp [same, nodeLines, CompareOp.text_injective hop, ihl hleft, ihr hright]
    | _ => simp [dump, Dump.equal_node] at h

/-- A target has the dump of the expression it looks like. -/
theorem Target.dump_toExpr (t : Target) : t.toExpr.dump = t.dump := by
  rw [toExpr, dump]
  cases t.index <;> rfl

/-- Targets are told apart by the expressions they look like. -/
theorem Target.toExpr_injective : Function.Injective Target.toExpr := fun s t h => by
  obtain ⟨_, _, _ | i⟩ := s <;> obtain ⟨_, _, _ | j⟩ := t <;> simp_all [toExpr]

/-- Targets are the same if the expressions they look like are. -/
theorem Target.same_toExpr (s t : Target) : s.toExpr.same t.toExpr = s.same t := by
  obtain ⟨_, _, _ | i⟩ := s <;> obtain ⟨_, _, _ | j⟩ := t <;>
    simp [toExpr, same, sameOption, Expr.same]

/-- Targets with one dump are equal. -/
theorem Target.dump_injective : Function.Injective Target.dump := fun s t h =>
  toExpr_injective (Expr.dump_injective (by rw [dump_toExpr, dump_toExpr, h]))

/-- Targets with equal dumps are the same, with the same lines. -/
theorem Target.equal_dump {s t : Target} (h : s.dump.equal t.dump = true) :
    s.same t = true ∧ s.nodeLines = t.nodeLines := by
  rw [← same_toExpr]
  exact Expr.equal_dump (by rwa [dump_toExpr, dump_toExpr])

/-- Arguments with one dump are equal: one handed over with `var` is marked, so
it is not taken for the value of a variable. -/
theorem Argument.dump_injective : Function.Injective Argument.dump := fun a b h => by
  cases a <;> cases b <;> simp_all [dump, Expr.dump, node, Expr.dump_injective.eq_iff]

/-- Arguments with equal dumps are the same, with the same lines. -/
theorem Argument.equal_dump {a b : Argument} (h : a.dump.equal b.dump = true) :
    a.same b = true ∧ a.nodeLines = b.nodeLines := by
  cases a <;> cases b
  case value.value =>
    obtain ⟨rfl, hvalue⟩ : _ ∧ _ := by simpa [dump, Dump.equal_node] using h
    simp [same, nodeLines, Expr.equal_dump hvalue]
  case reference.reference =>
    obtain ⟨rfl, rfl, rfl⟩ : _ ∧ _ ∧ _ := by simpa [dump, Expr.dump, Dump.equal_node] using h
    simp [same, nodeLines]
  all_goals simp [dump, Dump.equal_node] at h

/-! ## Statements

A statement is shown with its blocks as lists of dumps, so the proof recurs over
statements, blocks, branches and chains, as `Stmt.dump` does.
-/

/-- What holds of the dumps of items holds of the dumps of lists. -/
theorem Dump.equalItems_map {α : Type} {dump : α → Dump} {same : α → α → Bool}
    {lines : α → List Nat}
    (h : ∀ {a b}, (dump a).equal (dump b) = true → same a b = true ∧ lines a = lines b)
    {as bs : List α} (hequal : equalItems (as.map dump) (bs.map dump) = true) :
    sameList same as bs = true ∧ as.flatMap lines = bs.flatMap lines := by
  induction as generalizing bs with
  | nil => cases bs <;> simp_all [sameList]
  | cons a as ih =>
    cases bs with
    | nil => simp at hequal
    | cons b bs =>
      rw [List.map_cons, List.map_cons, equalItems_cons, Bool.and_eq_true] at hequal
      obtain ⟨hhead, hrest⟩ := hequal
      simp [sameList, h hhead, ih hrest]

-- both recursions go down the first of the two trees; the second has the same kind of node everywhere
mutual

/-- **Statements with one dump are equal.** This recurs with blocks, branches
and chains, as dumps do. -/
theorem Stmt.eq_of_dump {s t : Stmt} (h : s.dump = t.dump) : s = t := by
  cases s <;> cases t
  case assign.assign =>
    obtain ⟨rfl, htarget, hvalue⟩ : _ ∧ _ ∧ _ := by simpa [Stmt.dump, node] using h
    rw [Target.dump_injective htarget, Expr.dump_injective hvalue]
  case ifChain.ifChain =>
    obtain ⟨rfl, hbranches⟩ : _ ∧ _ := by simpa [Stmt.dump, node] using h
    rw [Branch.eq_of_dumpChain hbranches]
  case whileLoop.whileLoop =>
    obtain ⟨rfl, hcondition, hbody⟩ : _ ∧ _ ∧ _ := by simpa [Stmt.dump, node] using h
    rw [Expr.dump_injective hcondition, Stmt.eq_of_dumpBlock hbody]
  case repeatLoop.repeatLoop =>
    obtain ⟨rfl, hcondition, hbody⟩ : _ ∧ _ ∧ _ := by simpa [Stmt.dump, node] using h
    rw [Expr.dump_injective hcondition, Stmt.eq_of_dumpBlock hbody]
  case forLoop.forLoop =>
    obtain ⟨rfl, ⟨rfl, rfl⟩, hstart, hstop, hbody⟩ : _ ∧ (_ ∧ _) ∧ _ ∧ _ ∧ _ := by
      simpa [Stmt.dump, Expr.dump, node] using h
    rw [Expr.dump_injective hstart, Expr.dump_injective hstop, Stmt.eq_of_dumpBlock hbody]
  case call.call =>
    obtain ⟨rfl, rfl, harguments⟩ : _ ∧ _ ∧ _ := by simpa [Stmt.dump, node] using h
    rw [List.map_injective_iff.2 Argument.dump_injective harguments]
  all_goals simp [Stmt.dump, node] at h
termination_by structural s

/-- Blocks with the same dumps are equal. -/
theorem Stmt.eq_of_dumpBlock {ss ts : List Stmt} (h : Stmt.dumpBlock ss = Stmt.dumpBlock ts) :
    ss = ts := by
  cases ss <;> cases ts
  case nil.nil => rfl
  case cons.cons =>
    rw [Stmt.dumpBlock, Stmt.dumpBlock] at h
    obtain ⟨hhead, hrest⟩ := List.cons.inj h
    rw [Stmt.eq_of_dump hhead, Stmt.eq_of_dumpBlock hrest]
  all_goals simp [Stmt.dumpBlock] at h
termination_by structural ss

/-- Branches with one dump are equal. -/
theorem Branch.eq_of_dump {a b : Branch} (h : a.dump = b.dump) : a = b := by
  obtain ⟨_, _ | _, _⟩ := a <;> obtain ⟨_, _ | _, _⟩ := b
  case none.none =>
    obtain ⟨rfl, hbody⟩ : _ ∧ _ := by simpa [Branch.dump, node] using h
    rw [Stmt.eq_of_dumpBlock hbody]
  case some.some =>
    obtain ⟨rfl, hcondition, hbody⟩ : _ ∧ _ ∧ _ := by simpa [Branch.dump, node] using h
    rw [Expr.dump_injective hcondition, Stmt.eq_of_dumpBlock hbody]
  all_goals simp [Branch.dump, node] at h
termination_by structural a

/-- If chains with the same dumps are equal. -/
theorem Branch.eq_of_dumpChain {as bs : List Branch}
    (h : Branch.dumpChain as = Branch.dumpChain bs) : as = bs := by
  cases as <;> cases bs
  case nil.nil => rfl
  case cons.cons =>
    rw [Branch.dumpChain, Branch.dumpChain] at h
    obtain ⟨hhead, hrest⟩ := List.cons.inj h
    rw [Branch.eq_of_dump hhead, Branch.eq_of_dumpChain hrest]
  all_goals simp [Branch.dumpChain] at h
termination_by structural as

end

mutual

/-- **Statements with equal dumps are the same**, with the same lines
throughout. -/
theorem Stmt.equal_dump {s t : Stmt} (h : s.dump.equal t.dump = true) :
    s.same t = true ∧ s.nodeLines = t.nodeLines := by
  cases s <;> cases t
  case assign.assign =>
    obtain ⟨rfl, htarget, hvalue⟩ : _ ∧ _ ∧ _ := by simpa [Stmt.dump, Dump.equal_node] using h
    simp [Stmt.same, Stmt.nodeLines, Target.equal_dump htarget, Expr.equal_dump hvalue]
  case ifChain.ifChain =>
    obtain ⟨rfl, hbranches⟩ : _ ∧ _ := by simpa [Stmt.dump, Dump.equal_node] using h
    simp [Stmt.same, Stmt.nodeLines, Branch.equal_dumpChain hbranches]
  case whileLoop.whileLoop =>
    obtain ⟨rfl, hcondition, hbody⟩ : _ ∧ _ ∧ _ := by simpa [Stmt.dump, Dump.equal_node] using h
    simp [Stmt.same, Stmt.nodeLines, Expr.equal_dump hcondition, Stmt.equal_dumpBlock hbody]
  case repeatLoop.repeatLoop =>
    obtain ⟨rfl, hcondition, hbody⟩ : _ ∧ _ ∧ _ := by simpa [Stmt.dump, Dump.equal_node] using h
    simp [Stmt.same, Stmt.nodeLines, Expr.equal_dump hcondition, Stmt.equal_dumpBlock hbody]
  case forLoop.forLoop =>
    obtain ⟨rfl, ⟨rfl, rfl⟩, hstart, hstop, hbody⟩ : _ ∧ (_ ∧ _) ∧ _ ∧ _ ∧ _ := by
      simpa [Stmt.dump, Expr.dump, Dump.equal_node] using h
    simp [Stmt.same, Stmt.nodeLines, Expr.equal_dump hstart, Expr.equal_dump hstop,
      Stmt.equal_dumpBlock hbody]
  case call.call =>
    obtain ⟨rfl, rfl, harguments⟩ : _ ∧ _ ∧ _ := by simpa [Stmt.dump, Dump.equal_node] using h
    simp [Stmt.same, Stmt.nodeLines, Dump.equalItems_map Argument.equal_dump harguments]
  all_goals simp [Stmt.dump, Dump.equal_node] at h
termination_by structural s

/-- Blocks with equal dumps are the same, with the same lines. -/
theorem Stmt.equal_dumpBlock {ss ts : List Stmt}
    (h : Dump.equalItems (Stmt.dumpBlock ss) (Stmt.dumpBlock ts) = true) :
    Stmt.sameBlock ss ts = true ∧ Stmt.nodeLinesOfBlock ss = Stmt.nodeLinesOfBlock ts := by
  cases ss <;> cases ts
  case nil.nil => simp [Stmt.sameBlock]
  case cons.cons =>
    rw [Stmt.dumpBlock, Stmt.dumpBlock, Dump.equalItems_cons, Bool.and_eq_true] at h
    simp [Stmt.sameBlock, Stmt.nodeLinesOfBlock, Stmt.equal_dump h.1, Stmt.equal_dumpBlock h.2]
  all_goals simp [Stmt.dumpBlock] at h
termination_by structural ss

/-- Branches with equal dumps are the same, with the same lines. -/
theorem Branch.equal_dump {a b : Branch} (h : a.dump.equal b.dump = true) :
    a.same b = true ∧ a.nodeLines = b.nodeLines := by
  obtain ⟨_, _ | _, _⟩ := a <;> obtain ⟨_, _ | _, _⟩ := b
  case none.none =>
    obtain ⟨rfl, hbody⟩ : _ ∧ _ := by simpa [Branch.dump, Dump.equal_node] using h
    simp [Branch.same, sameOption, Branch.nodeLines, Stmt.equal_dumpBlock hbody]
  case some.some =>
    obtain ⟨rfl, hcondition, hbody⟩ : _ ∧ _ ∧ _ := by
      simpa [Branch.dump, Dump.equal_node] using h
    simp [Branch.same, sameOption, Branch.nodeLines, Expr.equal_dump hcondition,
      Stmt.equal_dumpBlock hbody]
  all_goals simp [Branch.dump, Dump.equal_node] at h
termination_by structural a

/-- If chains with equal dumps are the same, with the same lines. -/
theorem Branch.equal_dumpChain {as bs : List Branch}
    (h : Dump.equalItems (Branch.dumpChain as) (Branch.dumpChain bs) = true) :
    Branch.sameChain as bs = true ∧
      Branch.nodeLinesOfChain as = Branch.nodeLinesOfChain bs := by
  cases as <;> cases bs
  case nil.nil => simp [Branch.sameChain]
  case cons.cons =>
    rw [Branch.dumpChain, Branch.dumpChain, Dump.equalItems_cons, Bool.and_eq_true] at h
    simp [Branch.sameChain, Branch.nodeLinesOfChain, Branch.equal_dump h.1,
      Branch.equal_dumpChain h.2]
  all_goals simp [Branch.dumpChain] at h
termination_by structural as

end

/-! ## Declarations

Fields that have nothing to show are left out. What a field would have shown is
then told by its absence, so absence has to be compared as well.
-/

/-- The line of a declared variable. -/
def Variable.nodeLines (v : Variable) : List Nat :=
  [v.line]

/-- The lines of a constant: its own and that of its literal. -/
def Constant.nodeLines (c : Constant) : List Nat :=
  [c.line, c.valueLine]

/-- The lines of a local declaration. -/
def Local.nodeLines : Local → List Nat
  | constant c => c.nodeLines
  | var v => v.nodeLines

/-- A field that may be absent is found if it is there. -/
theorem Dump.lookup_field? (name key : String) (d : Option Dump) :
    (field? name d).lookup key = if key = name then d else none := by
  cases d with
  | none => simp [field?]
  | some d =>
    by_cases h : key = name
    · simp [field?, h]
    · simp [field?, List.lookup_cons, beq_false_of_ne h, h]

/-- No name is in the dump of a variable twice, whatever is left out. -/
theorem Variable.keyed_dump (v : Variable) : v.dump.Keyed := by
  rw [dump]
  generalize v.type.rangeDump? = range
  cases range <;> cases v.isVar <;> cases v.type <;> simp [node, Dump.Keyed, Dump.field?]

/-- What the dump of a variable has under each name. -/
theorem Variable.get?_dump (v : Variable) :
    v.dump.get? "line" = some (.line v.line) ∧ v.dump.get? "name" = some (.text v.name) ∧
      v.dump.get? "type_tag" = some (.text v.type.tag.name) ∧
      v.dump.get? "value_range" = v.type.rangeDump? ∧
      v.dump.get? "is_var" = (if v.isVar then some (.flag true) else none) ∧
      v.dump.get? "element_type" = v.type.element?.map (Dump.text ∘ Kind.name) ∧
      v.dump.get? "is_constant" = none := by
  obtain ⟨_, _, _ | _, _ | _⟩ := v <;>
    simp [dump, node, Dump.get?, Dump.lookup_field?, List.lookup_append, List.lookup_cons,
      DeclaredType.element?]

/-- Integer bounds with one dump are equal. -/
theorem Interval.dump_injective : Function.Injective Interval.dump := fun r s h => by
  cases r
  cases s
  simpa [dump] using h

/-- Integer bounds have equal dumps if they are equal. -/
theorem Interval.equal_dump {r s : Interval} : r.dump.equal s.dump = true ↔ r = s := by
  cases r
  cases s
  simp [dump, Bound.eq_whole]

/-- A type is known by its tag, its range and the kind of its elements. -/
theorem DeclaredType.eq_of_dump {s t : DeclaredType} (htag : s.tag = t.tag)
    (hrange : s.rangeDump? = t.rangeDump?) (helement : s.element? = t.element?) : s = t := by
  rcases s with (r | r | r | _ | _) | r <;> rcases t with (r' | r' | r' | _ | _) | r' <;>
    simp only [tag, ScalarType.kind, Tag.scalar.injEq, reduceCtorEq] at htag
  case scalar.integer.scalar.integer | scalar.string.scalar.string =>
    rw [Option.map_injective Interval.dump_injective hrange]
  case scalar.real.scalar.real =>
    have hinjective : Function.Injective fun r : RealInterval => Dump.range r.low r.high := by
      rintro ⟨⟩ ⟨⟩ h
      simpa using h
    rw [Option.map_injective hinjective hrange]
  case array.array =>
    obtain rfl := Option.some.inj helement
    rw [Interval.dump_injective (Option.some.inj hrange)]
  all_goals rfl

/-- Types are the same if their tags, ranges and elements are. -/
theorem DeclaredType.same_of_dump {s t : DeclaredType} (htag : s.tag = t.tag)
    (hrange : sameOption Dump.equal s.rangeDump? t.rangeDump? = true)
    (helement : s.element? = t.element?) : s.same t = true := by
  rcases s with (r | r | r | _ | _) | r <;> rcases t with (r' | r' | r' | _ | _) | r' <;>
    simp only [tag, ScalarType.kind, Tag.scalar.injEq, reduceCtorEq] at htag
  case scalar.integer.scalar.integer | scalar.string.scalar.string =>
    cases r <;> cases r' <;>
      simp_all [rangeDump?, sameOption, Interval.equal_dump, same, ScalarType.same]
  case scalar.real.scalar.real =>
    cases r <;> cases r' <;>
      simp_all [rangeDump?, sameOption, same, ScalarType.same, RealInterval.same, Bound.eq]
  case array.array =>
    simp_all [rangeDump?, sameOption, Interval.equal_dump, same, element?]
  all_goals simp [same, ScalarType.same]

/-- Kinds are told apart by the dumps of their names. -/
theorem Kind.dump_injective : Function.Injective (Dump.text ∘ name) := fun _ _ h =>
  name_injective (Dump.text.inj h)

/-- Variables with one dump are equal. -/
theorem Variable.dump_injective : Function.Injective Variable.dump := fun v w h => by
  obtain ⟨hline, hname, htag, hrange, hvar, helement, -⟩ := v.get?_dump
  obtain ⟨hline', hname', htag', hrange', hvar', helement', -⟩ := h ▸ w.get?_dump
  have htype : v.type = w.type := by
    refine DeclaredType.eq_of_dump (Tag.name_injective ?_) (hrange.symm.trans hrange')
      (Option.map_injective Kind.dump_injective (helement.symm.trans helement'))
    simpa [htag] using htag'
  have hvars : v.isVar = w.isVar := by
    rw [hvar] at hvar'
    cases hv : v.isVar <;> cases hw : w.isVar <;> simp_all
  cases v
  cases w
  simp_all

/-- Variables with equal dumps are the same, on the same line. -/
theorem Variable.equal_dump {v w : Variable} (h : v.dump.equal w.dump = true) :
    v.same w = true ∧ v.nodeLines = w.nodeLines := by
  obtain ⟨hline, hname, htag, hrange, hvar, helement, -⟩ := v.get?_dump
  obtain ⟨hline', hname', htag', hrange', hvar', helement', -⟩ := w.get?_dump
  have hget := Dump.equal_get? h v.keyed_dump
  have hlines : v.line = w.line := by simpa [hline, hline', sameOption] using hget "line"
  have hnames : v.name = w.name := by simpa [hname, hname', sameOption] using hget "name"
  have hvars : v.isVar = w.isVar := by
    have hfield := hget "is_var"
    rw [hvar, hvar'] at hfield
    cases hv : v.isVar <;> cases hw : w.isVar <;> simp_all [sameOption]
  have hkinds : v.type.element? = w.type.element? := by
    have hfield := hget "element_type"
    rw [helement, helement'] at hfield
    cases hv : v.type.element? <;> cases hw : w.type.element? <;>
      simp_all [sameOption, Kind.name_injective.eq_iff]
  have htypes : v.type.same w.type = true := by
    refine DeclaredType.same_of_dump (Tag.name_injective ?_) ?_ hkinds
    · simpa [htag, htag', sameOption] using hget "type_tag"
    · simpa [hrange, hrange'] using hget "value_range"
  simp [same, hnames, htypes, hvars, nodeLines, hlines]

/-- Constants with one dump are equal. -/
theorem Constant.dump_injective : Function.Injective Constant.dump := fun c d h => by
  obtain ⟨k, x, v, m⟩ := c
  obtain ⟨l, y, w, n⟩ := d
  obtain ⟨rfl, rfl, -, hvalue⟩ : _ ∧ _ ∧ _ ∧ _ := by simpa [dump, node] using h
  obtain ⟨rfl, rfl⟩ := Expr.literal.inj (Expr.dump_injective hvalue)
  rfl

/-- Constants with equal dumps are the same, with the same lines. -/
theorem Constant.equal_dump {c d : Constant} (h : c.dump.equal d.dump = true) :
    c.same d = true ∧ c.nodeLines = d.nodeLines := by
  obtain ⟨k, x, v, m⟩ := c
  obtain ⟨l, y, w, n⟩ := d
  obtain ⟨rfl, rfl, -, hvalue⟩ : _ ∧ _ ∧ _ ∧ _ := by simpa [dump, Dump.equal_node] using h
  obtain ⟨hsame, hlines⟩ := Expr.equal_dump hvalue
  simpa [same, nodeLines, Expr.same, Expr.nodeLines] using And.intro hsame hlines

/-- No name is in the dump of a constant twice. -/
theorem Constant.keyed_dump (c : Constant) : c.dump.Keyed := by
  simp [dump, node, Dump.Keyed]

/-- The dump of a constant is marked, as that of a variable never is. -/
theorem Constant.get?_dump (c : Constant) : c.dump.get? "is_constant" = some (.flag true) := by
  simp [dump, node, Dump.get?, List.lookup_cons]

/-- **Local declarations with one dump are equal**; the mark tells constants
from variables. -/
theorem Local.dump_injective : Function.Injective Local.dump := fun a b h => by
  cases a <;> cases b
  case constant.constant => rw [Constant.dump_injective h]
  case var.var => rw [Variable.dump_injective h]
  case constant.var c v =>
    have hfield : c.dump.get? "is_constant" = v.dump.get? "is_constant" :=
      congrArg (Dump.get? · "is_constant") h
    simp [c.get?_dump, v.get?_dump] at hfield
  case var.constant v c =>
    have hfield : v.dump.get? "is_constant" = c.dump.get? "is_constant" :=
      congrArg (Dump.get? · "is_constant") h
    simp [c.get?_dump, v.get?_dump] at hfield

/-- Local declarations with equal dumps are the same, with the same lines. -/
theorem Local.equal_dump {a b : Local} (h : a.dump.equal b.dump = true) :
    a.same b = true ∧ a.nodeLines = b.nodeLines := by
  cases a <;> cases b
  case constant.constant => exact Constant.equal_dump h
  case var.var => exact Variable.equal_dump h
  case constant.var c v =>
    have hfield := Dump.equal_get? h c.keyed_dump "is_constant"
    simp [dump, c.get?_dump, v.get?_dump, sameOption] at hfield
  case var.constant v c =>
    have hfield := Dump.equal_get? h v.keyed_dump "is_constant"
    simp [dump, c.get?_dump, v.get?_dump, sameOption] at hfield

/-! ## Functions and programs

A program is shown as a record of its functions by name, and a record is
compared without regard to the order of its fields.
-/

/-- The lines of a function and of all nodes in it. -/
def Function.nodeLines (f : Function) : List Nat :=
  f.line :: (f.parameters.flatMap Variable.nodeLines ++ f.locals.flatMap Local.nodeLines ++
    Stmt.nodeLinesOfBlock f.body)

/-- Functions with one dump are equal. -/
theorem Function.dump_injective : Function.Injective Function.dump := fun f g h => by
  obtain ⟨k, x, ps, ls, ss⟩ := f
  obtain ⟨l, y, qs, ms, ts⟩ := g
  obtain ⟨rfl, rfl, hparameters, hlocals, hbody⟩ : _ ∧ _ ∧ _ ∧ _ ∧ _ := by
    simpa [dump, node] using h
  rw [List.map_injective_iff.2 Variable.dump_injective hparameters,
    List.map_injective_iff.2 Local.dump_injective hlocals, Stmt.eq_of_dumpBlock hbody]

/-- Functions with equal dumps are the same, with the same lines. -/
theorem Function.equal_dump {f g : Function} (h : f.dump.equal g.dump = true) :
    f.same g = true ∧ f.nodeLines = g.nodeLines := by
  obtain ⟨hline, hname, hparameters, hlocals, hbody⟩ : _ ∧ _ ∧ _ ∧ _ ∧ _ := by
    simpa [dump, Dump.equal_node] using h
  simp [same, nodeLines, hline, hname, Dump.equalItems_map Variable.equal_dump hparameters,
    Dump.equalItems_map Local.equal_dump hlocals, Stmt.equal_dumpBlock hbody]

/-- Programs with one dump are equal. -/
theorem Program.dump_injective : Function.Injective Program.dump := fun p q h => by
  obtain ⟨fs⟩ := p
  obtain ⟨gs⟩ := q
  have hinjective : Function.Injective fun f : Function => (f.name, f.dump) :=
    fun f g hfg => Function.dump_injective (Prod.mk.inj hfg).2
  have hfunctions : (fs.map fun f => (f.name, f.dump)) = gs.map fun f => (f.name, f.dump) := by
    simpa [dump] using h
  rw [List.map_injective_iff.2 hinjective hfunctions]

/-- In the dump of a program a function is found by its name. -/
theorem Program.lookup_dump (p : Program) (name : String) :
    (p.functions.map fun f => (f.name, f.dump)).lookup name = (p.find? name).map Function.dump := by
  obtain ⟨fs⟩ := p
  simp only [find?]
  induction fs with
  | nil => rfl
  | cons f fs ih =>
    rw [List.map_cons, List.lookup_cons, List.find?_cons, BEq.comm]
    cases f.name == name
    · exact ih
    · rfl

/-- The lines of the function of a name. -/
def Program.nodeLines (p : Program) (name : String) : Option (List Nat) :=
  (p.find? name).map Function.nodeLines

/-- **Programs with equal dumps are the same**, each function with the same
lines. Functions are found by their names, so their order does not show. -/
theorem Program.equal_dump {p q : Program} (hp : p.names.Nodup)
    (h : p.dump.equal q.dump = true) : p.same q = true ∧ p.nodeLines = q.nodeLines := by
  have hfunctions : (Dump.record (p.functions.map fun f => (f.name, f.dump))).equal
      (.record (q.functions.map fun f => (f.name, f.dump))) = true := by
    simpa [dump] using h
  have hkeyed : (Dump.record (p.functions.map fun f => (f.name, f.dump))).Keyed := by
    simpa [Dump.Keyed, names, Function.comp_def] using hp
  -- the functions of a name are both there or both missing
  have hfind (name : String) : sameOption Dump.equal ((p.find? name).map Function.dump)
      ((q.find? name).map Function.dump) = true := by
    rw [← lookup_dump, ← lookup_dump]
    exact Dump.equal_get? hfunctions hkeyed name
  constructor
  · have hlength : p.functions.length = q.functions.length := by
      simp only [Dump.equal_record, List.length_map, Bool.and_eq_true, beq_iff_eq] at hfunctions
      exact hfunctions.1
    rw [same, hlength, beq_self_eq_true, Bool.true_and, List.all_eq_true]
    intro f hf
    have hname := hfind f.name
    rw [find?_of_mem hp hf] at hname
    cases hg : q.find? f.name with
    | none => simp [hg, sameOption] at hname
    | some g => exact (Function.equal_dump (by simpa [hg, sameOption] using hname)).1
  · funext name
    have hname := hfind name
    rw [nodeLines, nodeLines]
    cases hf : p.find? name <;> cases hg : q.find? name <;> rw [hf, hg] at hname
    case some.some => exact congrArg some (Function.equal_dump hname).2
    all_goals simp [sameOption] at hname

end Shank
