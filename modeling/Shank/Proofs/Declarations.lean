/-
# What a program declares

The names of a function with their types, in the order in which a call binds
them: the parameters, then the locals. A name may be declared more than once;
its last declaration counts.

A type is `Ordered` when its range has a lower bound that is not above the upper
one, if it has a range, and likewise the bounds of an array.

Both definitions are what a run relies on: of what kind a name of a frame is, is
told by `Function.typeOf?`, and an array can only be as long as its bounds ask
for if these are ordered.
-/

import Shank.Syntax

namespace Shank

/-- The name that a local declaration declares. -/
def Local.name : Local → String
  | constant c => c.name
  | var v => v.name

/-- The type of a local declaration; a constant has no range. -/
def Local.type : Local → DeclaredType
  | constant c => .scalar (.ofKind c.value.kind)
  | var v => v.type

/-- The names a function declares, with their types, in the order in which they
are bound. -/
def Function.declarations (f : Function) : List (String × DeclaredType) :=
  f.parameters.map (fun v => (v.name, v.type)) ++ f.locals.map fun d => (d.name, d.type)

/-- The type of a name by its last declaration. -/
def Function.typeOf? (f : Function) (name : String) : Option DeclaredType :=
  f.declarations.reverse.lookup name

/-- The types of cells that a program can ask for: those of its declarations,
and plain scalars. -/
def Program.Declares (p : Program) (type : DeclaredType) : Prop :=
  (∃ k, type = .scalar (.ofKind k)) ∨
    ∃ f ∈ p.functions, ∃ d ∈ f.declarations, d.2 = type

/-- The range of a type is not empty, if it has one. -/
def DeclaredType.Ordered : DeclaredType → Prop
  | .scalar (.integer range) => ∀ r ∈ range, r.low ≤ r.high
  | .scalar (.real range) => ∀ r ∈ range, r.high.lt r.low = false
  | .scalar (.string lengths) => ∀ r ∈ lengths, r.low ≤ r.high
  | .scalar .character => True
  | .scalar .boolean => True
  | .array bounds _ => bounds.low ≤ bounds.high

/-- A type without a range is ordered. -/
theorem DeclaredType.ordered_ofKind (k : Kind) : (scalar (.ofKind k)).Ordered := by
  cases k with
  | integer | real | string => exact fun _ hr => (nomatch hr)
  | character | boolean => trivial

end Shank
