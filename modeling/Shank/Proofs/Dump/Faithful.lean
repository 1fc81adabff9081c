/-
# A dump identifies its node

`Node` puts the nodes of programs of all kinds beside each other. A dump starts
with the type of its node, and the types of different kinds of nodes are
different ones (`Node.types`), so what is known of the dumps of each kind holds
of all nodes:

| dumps | nodes |
| --- | --- |
| equal as trees | equal |
| equal in what they hold | the same, with the same lines throughout |

Main statement: `Node.dump_identifies`.
-/

import Shank.Proofs.Dump.Nodes

namespace Shank

/-- The nodes of programs. A target counts as an expression, a parameter as a
declared variable. -/
inductive Node
  | expr (e : Expr)
  | argument (a : Argument)
  | stmt (s : Stmt)
  | branch (b : Branch)
  | declaration (d : Local)
  | function (f : Function)
  | program (p : Program) (keyed : p.names.Nodup)

namespace Node

variable {m n : Node}

/-- The dump of a node. -/
def dump : Node → Dump
  | expr e => e.dump
  | argument a => a.dump
  | stmt s => s.dump
  | branch b => b.dump
  | declaration d => d.dump
  | function f => f.dump
  | program p _ => p.dump

/-- Equality up to lines. -/
def same : Node → Node → Bool
  | expr a, expr b => a.same b
  | argument a, argument b => a.same b
  | stmt a, stmt b => a.same b
  | branch a, branch b => a.same b
  | declaration a, declaration b => a.same b
  | function a, function b => a.same b
  | program p _, program q _ => p.same q
  | _, _ => false

/-- Two nodes of one kind with the same lines throughout; of two programs, with
the same lines in the functions of each name. -/
def SameLines : Node → Node → Prop
  | expr a, expr b => a.nodeLines = b.nodeLines
  | argument a, argument b => a.nodeLines = b.nodeLines
  | stmt a, stmt b => a.nodeLines = b.nodeLines
  | branch a, branch b => a.nodeLines = b.nodeLines
  | declaration a, declaration b => a.nodeLines = b.nodeLines
  | function a, function b => a.nodeLines = b.nodeLines
  | program p _, program q _ => p.nodeLines = q.nodeLines
  | _, _ => False

/-- The types of nodes that a dump can show. -/
def types : Node → List String
  | expr _ => ["IntegerLiteral", "RealLiteral", "StringLiteral", "CharLiteral", "BooleanLiteral",
      "VariableReference", "BinaryArithmetic", "BooleanCompare"]
  | argument _ => ["CallParameter"]
  | stmt _ => ["Assignment", "IfChain", "While", "Repeat", "For", "Call"]
  | branch _ => ["IfBranch"]
  | declaration _ => ["VariableNode"]
  | function _ => ["FunctionDefinition"]
  | program _ _ => ["Program"]

/-- The dump of a node shows one of its types. -/
theorem get?_type (n : Node) : ∃ t ∈ n.types, n.dump.get? "type" = some (.text t) := by
  cases n with
  | expr e =>
    rcases e with ⟨_, _ | _ | _ | _ | _⟩ | _ | _ | _ | _ <;>
      simp [types, dump, Expr.dump, Dump.node, Dump.get?]
  | argument a => cases a <;> simp [types, dump, Argument.dump, Dump.node, Dump.get?]
  | stmt s => cases s <;> simp [types, dump, Stmt.dump, Dump.node, Dump.get?]
  | branch b =>
    obtain ⟨_, _ | _, _⟩ := b <;> simp [types, dump, Branch.dump, Dump.node, Dump.get?]
  | declaration d =>
    cases d <;>
      simp [types, dump, Local.dump, Variable.dump, Constant.dump, Dump.node, Dump.get?]
  | function f => simp [types, dump, Function.dump, Dump.node, Dump.get?]
  | program p => simp [types, dump, Program.dump, Dump.get?]

/-- Nodes with equal dumps have a type in common. -/
theorem types_meet (h : m.dump = n.dump ∨ m.dump.equal n.dump = true) :
    ¬∀ t ∈ m.types, t ∉ n.types := by
  obtain ⟨t, ht, hm⟩ := m.get?_type
  obtain ⟨u, hu, hn⟩ := n.get?_type
  have htype : t = u := by
    rcases h with h | h
    · simpa [h, hn] using hm.symm
    · obtain ⟨part, hpart, hequal⟩ := Dump.exists_get? h hm
      obtain rfl := Option.some.inj (hn.symm.trans hpart)
      exact Dump.equal_text.1 hequal
  exact fun hmeet => hmeet t ht (htype ▸ hu)

/-- **Nodes with one dump are equal.** Their types meet, so they are of one
kind, and for each kind dumps are injective. -/
theorem eq_of_dump (h : m.dump = n.dump) : m = n := by
  have hmeet := types_meet (.inl h)
  cases m <;> cases n
  case expr.expr => exact congrArg expr (Expr.dump_injective h)
  case argument.argument => exact congrArg argument (Argument.dump_injective h)
  case stmt.stmt => exact congrArg stmt (Stmt.eq_of_dump h)
  case branch.branch => exact congrArg branch (Branch.eq_of_dump h)
  case declaration.declaration => exact congrArg declaration (Local.dump_injective h)
  case function.function => exact congrArg function (Function.dump_injective h)
  case program.program p _ q _ =>
    obtain rfl : p = q := Program.dump_injective h
    rfl
  all_goals exact absurd (by simp [types]) hmeet

/-- **Nodes with dumps that are equal in what they hold are the same**, with the
same lines throughout. -/
theorem equal_dump (h : m.dump.equal n.dump = true) : m.same n = true ∧ m.SameLines n := by
  have hmeet := types_meet (.inr h)
  cases m <;> cases n
  case expr.expr => exact Expr.equal_dump h
  case argument.argument => exact Argument.equal_dump h
  case stmt.stmt => exact Stmt.equal_dump h
  case branch.branch => exact Branch.equal_dump h
  case declaration.declaration => exact Local.equal_dump h
  case function.function => exact Function.equal_dump h
  case program.program p hp q hq => exact Program.equal_dump hp h
  all_goals exact absurd (by simp [types]) hmeet

/-- **A dump identifies its node**, in every part of it and in the lines of all
parts. The functions of a program count by their names, and numbers by their
values. -/
theorem dump_identifies (m n : Node) :
    (m.dump = n.dump → m = n) ∧
      (m.dump.equal n.dump = true → m.same n = true ∧ m.SameLines n) :=
  ⟨eq_of_dump, equal_dump⟩

/-- The hypotheses of `dump_identifies` are satisfiable: these programs have
their functions in another order and the bounds of a range in another form. -/
theorem dump_identifies_reordered :
    let ranged (low high : Bound) : Function :=
      ⟨1, "f", [⟨1, "x", .scalar (.real (some ⟨low, high⟩)), true⟩], [],
        [.call 2 "g" [.reference 2 "x" 2]]⟩
    let g : Function := ⟨4, "g", [⟨4, "y", .scalar (.real none), true⟩], [], []⟩
    let m := program ⟨[ranged (.whole 0) (.whole 1), g]⟩ (by decide)
    let n := program ⟨[g, ranged (.real .negativeZero) (.real (.finite 1))]⟩ (by decide)
    m.dump.equal n.dump = true ∧ m.same n = true ∧ m.SameLines n := by
  intro ranged g m n
  have hequal : m.dump.equal n.dump = true := by decide
  exact ⟨hequal, (dump_identifies m n).2 hequal⟩

end Node
end Shank
