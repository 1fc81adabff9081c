/-
# Dumps

A dump is a tree of named fields that shows all of a program: every node with
its kind, its line and its parts, the parts that are absent or plain left out.
`Dump.pretty` lays a dump out in lines:

| dump | lines |
| --- | --- |
| field with parts of its own | `name:`, then the parts two columns further in |
| any other field | `name: value` |
| item of a list | `-`, then the item two columns further in |
-/

import Shank.Syntax

namespace Shank

/-- A tree of named fields. -/
inductive Dump
  | text (value : String)
  | flag (value : Bool)
  | whole (value : Int)
  | real (value : Ieee)
  | line (number : Nat)
  | range (low high : Bound)
  | list (items : List Dump)
  | record (fields : List (String × Dump))
  deriving Inhabited

namespace Dump

/-- Does a dump have parts? -/
def hasParts : Dump → Bool
  | list items => !items.isEmpty
  | record fields => !fields.isEmpty
  | _ => false

/-- What a dump without parts is shown as. -/
def leaf : Dump → String
  | text s => s
  | flag b => if b then "True" else "False"
  | whole n => Numeral.integerText n
  | real x => x.doubleText
  | line n => toString n
  | range low high => s!"({low.text}, {high.text})"
  | list _ => "[]"
  | record _ => "\x7b\x7d"

/-- The blanks in front of a line; there are none at a depth below zero. -/
def margin (depth : Int) : String :=
  String.ofList (List.replicate (2 * depth).toNat ' ')

mutual

/-- The lines of a dump, `depth` levels in. A record or list without parts has
one empty line. -/
def lines (depth : Int) : Dump → List String
  | .list items => Dump.itemLines depth items
  | .record fields => Dump.fieldLines depth fields
  | d => [margin depth ++ d.leaf]

/-- The lines of the items of a list that stands `depth` levels in: a dash for
each item, and the lines of the item below it. An item that has none of its own
leaves an empty line. -/
def itemLines (depth : Int) : List Dump → List String
  | [] => []
  | d :: ds =>
    (margin depth ++ "-") :: ((if d.isBare then [""] else lines (depth + 1) d) ++ itemLines depth ds)

/-- The lines of named fields that stand `depth` levels in: a field with parts
of its own has them below its name, any other one stands on the line of its
name. -/
def fieldLines (depth : Int) : List (String × Dump) → List String
  | [] => []
  | (name, d) :: rest =>
    (if d.hasParts then (margin depth ++ name ++ ":") :: lines (depth + 1) d
     else [margin depth ++ name ++ ": " ++ d.leaf]) ++ fieldLines depth rest

/-- A record or list without parts. -/
def isBare : Dump → Bool
  | .list [] => true
  | .record [] => true
  | _ => false

end

/-- The layout of a dump in lines. -/
def pretty (depth : Int) (d : Dump) : String :=
  "\n".intercalate (lines depth d)

end Dump

/-! ## Dumps of the parts of a program

A node is a record with its kind and its line first. Parts that are not there
have no field.
-/

/-- A record that starts with the kind of a node and its line. -/
def Dump.node (type : String) (line : Nat) (fields : List (String × Dump)) : Dump :=
  .record (("type", .text type) :: ("line", .line line) :: fields)

/-- The dump of an expression. The kind of a literal shows in the name of its
node, and an array element is a reference with an index. -/
def Expr.dump : Expr → Dump
  | literal line (.integer n) => .node "IntegerLiteral" line [("value", .whole n)]
  | literal line (.real x) => .node "RealLiteral" line [("value", .real x)]
  | literal line (.string s) => .node "StringLiteral" line [("value", .text s)]
  | literal line (.character c) => .node "CharLiteral" line [("value", .text c.toString)]
  | literal line (.boolean b) => .node "BooleanLiteral" line [("value", .flag b)]
  | var line name => .node "VariableReference" line [("name", .text name)]
  | element line name index =>
    .node "VariableReference" line [("name", .text name), ("index", index.dump)]
  | arithmetic line op left right =>
    .node "BinaryArithmetic" line
      [("op", .text op.text), ("left", left.dump), ("right", right.dump)]
  | comparison line op left right =>
    .node "BooleanCompare" line
      [("op", .text op.text), ("left", left.dump), ("right", right.dump)]

/-- The dump of a target: that of the variable or the array element it looks
like. -/
def Target.dump (t : Target) : Dump :=
  match t.index with
  | none => Expr.dump (.var t.line t.name)
  | some index => Expr.dump (.element t.line t.name index)

/-- The dump of an argument. One handed over with `var` is marked, and holds the
reference. -/
def Argument.dump : Argument → Dump
  | value line e => .node "CallParameter" line [("value", e.dump)]
  | reference line name nameLine =>
    .node "CallParameter" line
      [("value", Expr.dump (.var nameLine name)), ("by_reference", .flag true)]

mutual

/-- The dump of a statement. -/
def Stmt.dump : Stmt → Dump
  | .assign line target value =>
    .node "Assignment" line [("target", target.dump), ("value", value.dump)]
  | .ifChain line branches => .node "IfChain" line [("branches", .list (Branch.dumpChain branches))]
  | .whileLoop line condition body =>
    .node "While" line [("condition", condition.dump), ("body", .list (Stmt.dumpBlock body))]
  | .repeatLoop line condition body =>
    .node "Repeat" line [("condition", condition.dump), ("body", .list (Stmt.dumpBlock body))]
  | .forLoop line name nameLine start stop body =>
    .node "For" line
      [("variable", Expr.dump (.var nameLine name)), ("start", start.dump), ("end", stop.dump),
       ("body", .list (Stmt.dumpBlock body))]
  | .call line name arguments =>
    .node "Call" line
      [("name", .text name), ("parameters", .list (arguments.map Argument.dump))]

/-- The dumps of the statements of a block, in their order. -/
def Stmt.dumpBlock : List Stmt → List Dump
  | [] => []
  | s :: rest => Stmt.dump s :: Stmt.dumpBlock rest

/-- The dump of a branch; the `else` has no field for a condition. -/
def Branch.dump : Branch → Dump
  | .mk line none body => .node "IfBranch" line [("body", .list (Stmt.dumpBlock body))]
  | .mk line (some condition) body =>
    .node "IfBranch" line [("condition", condition.dump), ("body", .list (Stmt.dumpBlock body))]

/-- The dumps of the branches of an if chain, in their order. -/
def Branch.dumpChain : List Branch → List Dump
  | [] => []
  | b :: rest => Branch.dump b :: Branch.dumpChain rest

end

/-- The bounds of a range. -/
def Interval.dump (r : Interval) : Dump :=
  .range (.whole r.low) (.whole r.high)

/-- The range that a type declares. -/
def DeclaredType.rangeDump? : DeclaredType → Option Dump
  | scalar (.integer r) => r.map Interval.dump
  | scalar (.real r) => r.map fun r => .range r.low r.high
  | scalar (.string r) => r.map Interval.dump
  | array bounds _ => some bounds.dump
  | _ => none

/-- The field of an optional part. -/
def Dump.field? (name : String) : Option Dump → List (String × Dump)
  | none => []
  | some d => [(name, d)]

/-- The dump of a declared variable. A range, the mark `var` and the kind of the
elements show only where the declaration has them. -/
def Variable.dump (v : Variable) : Dump :=
  .node "VariableNode" v.line <|
    [("name", .text v.name), ("type_tag", .text v.type.tag.name)] ++
      Dump.field? "value_range" v.type.rangeDump? ++
      (if v.isVar then [("is_var", .flag true)] else []) ++
      (match v.type with
       | .array _ element => [("element_type", .text element.name)]
       | .scalar _ => [])

/-- The dump of a constant: the same kind of node as a variable, marked, with
its literal. -/
def Constant.dump (c : Constant) : Dump :=
  .node "VariableNode" c.line
    [("name", .text c.name), ("type_tag", .text c.value.kind.name), ("is_constant", .flag true),
     ("initial", Expr.dump (.literal c.valueLine c.value))]

/-- The dump of a local declaration. -/
def Local.dump : Local → Dump
  | constant c => c.dump
  | var v => v.dump

/-- The dump of a function. -/
def Function.dump (f : Function) : Dump :=
  .node "FunctionDefinition" f.line
    [("name", .text f.name), ("parameters", .list (f.parameters.map Variable.dump)),
     ("locals", .list (f.locals.map Local.dump)), ("body", .list (Stmt.dumpBlock f.body))]

/-- The dump of a program, with its functions by name. -/
def Program.dump (p : Program) : Dump :=
  .record [("type", .text "Program"),
    ("functions", .record (p.functions.map fun f => (f.name, f.dump)))]

end Shank
