/-
# What holds at every moment of a run

A run that is given `n` steps leaves behind the machine it has come to after `n`
steps (`Program.reached`), since every change of the store is a step. So what is
shown of these machines, for every `n`, holds at every moment of a run, also
where a statement or a call fails halfway.

| at every moment | |
| --- | --- |
| a scalar variable | holds a scalar of its kind, within 64 bits and within its range |
| an array | has as many items as its bounds ask for, each of the kind of its elements |
| a slot of an array | is stored to by itself only |
| an expression | has a value within 64 bits, or stands for an array that is there |
| a declared name | is bound to something of the kind of its last declaration |

And from one moment to a later one no cell is lost, and none changes its type.
All this follows from what one step can do (`Shank.Proofs.Machine.Step`), once
the run is known to go by steps.
-/

import Shank.Proofs.Run.Statements
import Shank.Proofs.Parse.Ranges

namespace Shank

open Machine

/-- The machine that a run has come to after so many steps, or at its end if
that comes first. -/
def Program.reached (p : Program) (entry input : String) (limits : Limits) (random : Random)
    (steps : Nat) : Machine :=
  (p.runOn entry limits { input := Text.textLines input, random, steps }).machine

/-- What holds of a machine at every moment of a run. -/
structure Machine.Sound (m : Machine) : Prop where
  /-- A scalar variable holds what its type asks for. -/
  scalar : ∀ i type v, m.store.cell i = .scalar type v → type.Holds v
  /-- An array is as long as its bounds ask for, and its items are of the kind
  of its elements. -/
  array : ∀ i bounds element items, m.store.cell i = .array bounds element items →
    items.size = bounds.high - bounds.low + 1 ∧
      ∀ v ∈ items, (ScalarType.ofKind element).Holds v
  /-- What is stored in a slot shows in that slot only, and in the array as a
  whole. -/
  slot : ∀ p q : Place, p.slot ≠ none → p ≠ q → ∀ v, (m.store.put p v).get q = m.store.get q
  /-- The value of an expression fits. -/
  value : ∀ f (e : Expr) v, e.evaluate m.store f = .ok v → v.Fits m.store
  /-- A declared name is bound, to something of the kind that its last
  declaration asks for. -/
  name : ∀ a ∈ m.activations, ∀ name type, a.function.typeOf? name = some type →
    ∃ q, a.frame.find? name = some q ∧ q.cell < m.store.cells.size ∧
      Store.tag (m.store.get q) = type.tag

namespace Program

variable {p : Program}

/-- The machine of an outcome is the one that the run leaves behind. -/
theorem machine_of (x : Run Unit) (m : Machine) : (Outcome.of x m).machine = Run.after x m := by
  unfold Outcome.of Run.after
  cases x m <;> rfl

/-- **A run gets to each of its machines by steps.** -/
theorem leads_reached (entry input : String) (limits : Limits) (random : Random) (n : Nat) :
    Leads p 0 (fun _ => False) { input := Text.textLines input, random, steps := n }
      (p.reached entry input limits random n) := by
  rw [reached, runOn, machine_of]
  exact (Run.steady_entry ⟨p, limits⟩ entry _ (Nat.zero_le _)).leads

/-- **With more steps a run goes on from where it stopped**, if it did not end. -/
theorem leads_reached_more (entry input : String) (limits : Limits) (random : Random) (n d : Nat) :
    Leads p 0 (fun _ => False) ((p.reached entry input limits random n).more d)
      (p.reached entry input limits random (n + d)) := by
  simp only [reached, runOn, machine_of]
  have h := (Run.steady_entry ⟨p, limits⟩ entry
    { input := Text.textLines input, random, steps := n } (Nat.zero_le _)).continues d
  exact h.leads

/-- **The store invariant.** At every moment of a run of a parsed program the
machine is sound: each cell holds what a variable of its type may hold, and what
names and expressions come to is of their kinds. And from each moment to a later
one cells are only added, and every cell keeps its type. -/
theorem reached_invariant {tokens : List Token} (h : parse tokens = .ok p) (entry input : String)
    (limits : Limits) (random : Random) :
    (∀ n, (p.reached entry input limits random n).Sound) ∧
      ∀ n k, n ≤ k → (p.reached entry input limits random n).store.Grows
        (p.reached entry input limits random k).store := by
  refine ⟨fun n => ?_, fun n k hnk => ?_⟩
  · have hleads := leads_reached (p := p) entry input limits random n
    have hfits : (p.reached entry input limits random n).store.Fits :=
      hleads.fits fun _ => trivial
    refine ⟨fun i type v hi => ?_, fun i bounds element items hi => ?_, fun q r hq hne v => ?_,
      fun f e v he => Expr.evaluate_fits hfits he, fun a ha name type hname => ?_⟩
    · have hc := hfits i
      rwa [hi] at hc
    · have hdeclared := hleads.declared (fun _ => .inl ⟨.boolean, rfl⟩) i
      have hc := hfits i
      rw [hi] at hc hdeclared
      have hle : bounds.low ≤ bounds.high := ordered_of_parse h hdeclared
      refine ⟨?_, hc.2⟩
      rw [hc.1, Interval.size, Int.toNat_of_nonneg (by omega)]
    · exact Store.get_put_slot hq hne v
    · have hsettled := hleads.settled (fun _ => trivial) le_rfl (fun _ h => h.elim)
        (fun _ ha => (nomatch ha)) a ha
      obtain ⟨q, hq, hlt, htag⟩ := hsettled name type hname
      exact ⟨q, hq, hlt, (Store.tag_get hfits q).trans htag⟩
  · obtain ⟨d, rfl⟩ := Nat.exists_eq_add_of_le hnk
    exact (leads_reached_more entry input limits random n d).grows

/-- The tokens of a function that stores to an item of its array. -/
def itemTokens : List Token :=
  let line (n : Nat) (ts : List (Token.Kind × String)) : List Token :=
    ts.map fun t => ⟨t.1, t.2, n, 1⟩
  line 1 [(.define, ""), (.identifier, "main"), (.openParen, ""), (.closeParen, ""),
    (.endOfLine, "")] ++
  line 2 [(.variables_, ""), (.identifier, "a"), (.colon, ""), (.array, ""), (.from_, ""),
    (.number, "2"), (.to_, ""), (.number, "3"), (.of_, ""), (.integer, ""), (.endOfLine, "")] ++
  line 3 [(.indent, ""), (.identifier, "a"), (.openBracket, ""), (.number, "2"),
    (.closeBracket, ""), (.assigner, ""), (.number, "7"), (.endOfLine, "")] ++
  line 4 [(.dedent, "")]

/-- The program of these tokens. -/
def itemProgram : Program :=
  let a : Variable := { line := 2, name := "a", type := .array ⟨2, 3⟩ .integer }
  let target : Target := ⟨3, "a", some (.literal 3 (.integer 2))⟩
  { functions := [⟨1, "main", [], [.var a], [.assign 3 target (.literal 3 (.integer 7))]⟩] }

/-- The hypothesis of `reached_invariant` is satisfiable, by a program that
stores something. -/
theorem reached_invariant_item :
    parse itemTokens = .ok itemProgram ∧
      (∀ n, (itemProgram.reached "main" "" {} {} n).Sound) ∧
      (itemProgram.reached "main" "" {} {} 3).store.cells =
        #[.array ⟨2, 3⟩ .integer #[.integer 7, .integer 0]] :=
  have h : parse itemTokens = .ok itemProgram := rfl
  ⟨h, (reached_invariant h "main" "" {} {}).1, by decide +kernel⟩

end Program
end Shank
