/-
# A call leaves alone what it is not passed

What a call may store at, of all that was there before it, are the variables
passed to it with `var` and the slots of arrays passed so. Everything else keeps
what it holds: the caller's other variables, those of all functions that are
still active, and arguments passed by value, whole arrays too, unless the same
variable is also passed with `var`.

This holds however the call ends: when it returns, when it fails anywhere inside
of it, also after a part of its work was done, and when the run stops for want
of steps or of room. It holds on every machine, so on every one that a run gets
to.
-/

import Shank.Proofs.Run.Statements

namespace Shank

open Machine

/-- From `s` to `t` everything is kept but the places that are lent, and their
parts. -/
structure Store.Keeps (s t : Store) (lent : Place → Prop) : Prop where
  /-- No cell is lost, and none changes its type. -/
  grows : s.Grows t
  /-- A scalar variable or a slot of an array that is not lent holds what it
  held. -/
  get_eq : ∀ q, q.cell < s.cells.size → (∀ g, lent g → ¬g.covers q) → t.get q = s.get q
  /-- So does a whole array none of whose places is lent. -/
  cell_eq : ∀ i < s.cells.size, (∀ g, lent g → g.cell ≠ i) → t.cell i = s.cell i

/-- What is given to a piece of a run is all that it takes from the store it
starts on. -/
theorem Machine.Leads.keeps {p : Program} {given : Place → Prop} {m m' : Machine}
    (h : Leads p m.store.cells.size given m m') : m.store.Keeps m'.store given :=
  ⟨h.grows, fun _ hq hg => h.get_eq le_rfl hq hg, fun _ hi hg => h.cell_eq le_rfl hi hg⟩

namespace Run

/-- A call statement is steady, given what it passes with `var`. -/
theorem steady_callStatement (setting : Setting) (room base : Nat) (stack : List String) (f : Frame)
    (line : Nat) (name : String) (args : List Argument) :
    Steady setting.program base (f.Passes args)
      (statement setting room stack f (.call line name args)) := by
  rcases room with _ | _ | _ | _ | _ | room
  iterate 5 exact steady_throw _
  unfold statement
  split
  · exact steady_throw _
  · exact steady_call (fun base stack f ss => .block (steady_statement setting room base stack f) ss)
      stack f name args

/-- **A call keeps everything but what it is passed with `var`**, whatever it
calls and however it ends. The cells it finds in the store are the base from
which it adds its own. -/
theorem call_keeps (setting : Setting) (room : Nat) (stack : List String) (f : Frame) (line : Nat)
    (name : String) (args : List Argument) (m : Machine) :
    m.store.Keeps (after (statement setting room stack f (.call line name args)) m).store
      (f.Passes args) :=
  Leads.keeps (steady_callStatement setting room _ stack f line name args m le_rfl).leads

end Run
end Shank
