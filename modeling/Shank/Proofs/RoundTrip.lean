/-
# Programs are read back from their source text

A well-formed program, written as source text, is read as this program again
(`Program.parse_source`). Its lines are readable, so the text gives the lexemes
that are written on them, with the layout that their depths ask for; and from
these the parser builds the tree they were written for.

Lines are not part of what is read back: a node has the line its text stands on.
Neither is the room that the parser may take for its nesting: there must be as
much as `Program.room` says.

So what a text adds to a program is undone by reading: its tabs, blanks and
quotes in `Shank.Proofs.Token.Written`, its parentheses and the forms of its
literals in `Shank.Proofs.Parse.Expressions`.
-/

import Shank.Proofs.Parse.Programs
import Shank.Proofs.Print.Spelling

namespace Shank

open Token (readSource)

/-- **A well-formed program is read back from its source text.** Reals are
written as numerals that stand for them, however these are spelled; there are
such numerals for the reals of single precision, and for no other ones. -/
theorem Program.parse_source :
    (∀ x : Ieee, x ≠ .nan → x.isNegative = false → (x.IsSingle ↔ ∃ s, Numeral.Spells s x)) ∧
    ∀ spell, Ieee.IsSpelling spell → ∀ p : Program, p.WellFormed →
      (readSource (p.source spell)).faults = [] ∧
      (∀ room, p.room ≤ room → ∃ q,
        (Parsing.ofTokens (readSource (p.source spell)).tokens room).program = .ok q ∧
          q.bare = p.bare ∧ q.same p = true) ∧
      (p.room ≤ Parse.defaultRoom → ∃ q, Program.parse (readSource (p.source spell)).tokens = .ok q ∧
        q.bare = p.bare ∧ q.same p = true) := by
  refine ⟨fun x => Ieee.isSingle_iff, fun spell hspell p hp => ?_⟩
  obtain ⟨htokens, hfaults⟩ := Token.readSource_written (Program.readable_lines hspell hp)
  have hread : ∀ room, p.room ≤ room → ∃ q,
      (Parsing.ofTokens (readSource (p.source spell)).tokens room).program = .ok q ∧
        q.bare = p.bare ∧ q.same p = true := by
    intro room hroom
    obtain ⟨q, hq, hbare⟩ :=
      Parse.parse_of_lexemes hspell hp hroom htokens (Token.balance_readSource _)
    exact ⟨q, hq, hbare, Program.same_of_bare_eq hp hbare⟩
  exact ⟨hfaults, hread, hread Parse.defaultRoom⟩

/-- A program with a parameter handed over by `var`, an index, parentheses and
an `else`. -/
def sampleProgram : Program :=
  ⟨[⟨0, "main",
    [⟨0, "a", .scalar (.integer (some ⟨0, 9⟩)), false⟩, ⟨0, "b", .scalar (.real none), true⟩],
    [.constant ⟨0, "c", .integer 3, 0⟩, .var ⟨0, "d", .array ⟨0, 9⟩ .real, false⟩],
    [.ifChain 0 [
      .mk 0 (some (.comparison 0 .lt (.var 0 "a") (.literal 0 (.integer (-1)))))
        [.assign 0 ⟨0, "d", some (.var 0 "a")⟩ (.arithmetic 0 .mul
          (.arithmetic 0 .add (.var 0 "b") (.var 0 "c")) (.literal 0 (.real (.finite (5 / 2)))))],
      .mk 0 none [.call 0 "main" [.value 0 (.var 0 "a"), .reference 0 "b" 0]]]]⟩]⟩

example : sampleProgram.source Ieee.exactText =
    "define main ( a : integer from 0 to 9 ; var b : real )\n" ++
    "constants c = 3\n" ++
    "variables d : array from 0 to 9 of real\n" ++
    "\tif a < - 1 then\n" ++
    "\t\td [ a ] := ( b + c ) * 2.5\n" ++
    "\telse\n" ++
    "\t\tmain a , var b\n" := by
  decide +kernel

/-- The hypotheses of `parse_source` are satisfiable. -/
theorem Program.parse_source_sample :
    sampleProgram.WellFormed ∧ ∃ q,
      Program.parse (readSource (sampleProgram.source Ieee.exactText)).tokens = .ok q ∧
        q.bare = sampleProgram.bare ∧ q.same sampleProgram = true := by
  have hname : ∀ s ∈ ["main", "a", "b", "c", "d"], IsName s := by
    intro s hs
    simp only [List.mem_cons, List.not_mem_nil, or_false] at hs
    rcases hs with rfl | rfl | rfl | rfl | rfl <;>
    exact ⟨⟨_, rfl, by decide⟩, List.all_eq_true.1 (by decide), by decide⟩
  have hinteger : ∀ n ∈ ([-1, 0, 3, 9] : List Int), IsWritableInteger n := by
    intro n hn
    simp only [List.mem_cons, List.not_mem_nil, or_false] at hn
    rcases hn with rfl | rfl | rfl | rfl <;> (rw [IsWritableInteger]; decide)
  have hreal : (Ieee.finite (5 / 2)).IsSingle := ⟨by simp, by decide +kernel⟩
  have hrange : Interval.WellFormed ⟨0, 9⟩ := ⟨hinteger 0 (by decide), hinteger 9 (by decide)⟩
  have hcondition : Expr.WellFormedCondition
      (.comparison 0 .lt (.var 0 "a") (.literal 0 (.integer (-1)))) :=
    ⟨hname "a" (by decide), hinteger (-1) (by decide)⟩
  have htarget : Target.WellFormed ⟨0, "d", some (.var 0 "a")⟩ :=
    ⟨hname "d" (by decide), fun index hindex => by cases hindex; exact hname "a" (by decide)⟩
  have hvalue : Expr.WellFormedCondition (.arithmetic 0 .mul
      (.arithmetic 0 .add (.var 0 "b") (.var 0 "c")) (.literal 0 (.real (.finite (5 / 2))))) :=
    ⟨⟨hname "b" (by decide), hname "c" (by decide)⟩, hreal⟩
  have hassign : Stmt.WellFormedBlock [.assign 0 ⟨0, "d", some (.var 0 "a")⟩ (.arithmetic 0 .mul
      (.arithmetic 0 .add (.var 0 "b") (.var 0 "c")) (.literal 0 (.real (.finite (5 / 2)))))] :=
    ⟨⟨htarget, hvalue⟩, trivial⟩
  have hcall : Stmt.WellFormedBlock
      [.call 0 "main" [.value 0 (.var 0 "a"), .reference 0 "b" 0]] :=
    ⟨⟨hname "main" (by decide), List.forall_mem_cons.2
      ⟨hname "a" (by decide), List.forall_mem_singleton.2 (hname "b" (by decide))⟩⟩, trivial⟩
  have hwell : sampleProgram.WellFormed := by
    refine ⟨List.forall_mem_singleton.2 ⟨hname "main" (by decide), ?_, ?_, ?_⟩, by decide⟩
    · refine List.forall_mem_cons.2 ⟨⟨hname "a" (by decide), ?_, ?_⟩,
        List.forall_mem_singleton.2 ⟨hname "b" (by decide), (by rintro _ ⟨⟩), (by rintro _ ⟨⟩)⟩⟩
      · rintro r ⟨⟩
        decide
      · rintro r ⟨⟩
        exact hrange
    · exact List.forall_mem_cons.2 ⟨⟨hname "c" (by decide), hinteger 3 (by decide)⟩,
        List.forall_mem_singleton.2 ⟨hname "d" (by decide),
          (by decide : (0 : Int) ≤ 9), hrange⟩⟩
    · refine ⟨⟨⟨rfl, (by rintro _ ⟨⟩)⟩, ⟨?_, List.cons_ne_nil _ _, hassign⟩,
        ⟨(by rintro _ ⟨⟩), List.cons_ne_nil _ _, hcall⟩, trivial⟩, trivial⟩
      rintro e ⟨⟩
      exact hcondition
  have hroom : sampleProgram.room ≤ Parse.defaultRoom := by decide
  exact ⟨hwell, (parse_source.2 _ Ieee.isSpelling_exactText _ hwell).2.2 hroom⟩

end Shank
