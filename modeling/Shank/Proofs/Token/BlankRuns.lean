/-
# Indentation by runs of blanks

`indentCount` goes over a line from left to right and takes four blanks at once
wherever it finds them. What it comes to does not depend on where it stands:
every tab counts one, and every run of blanks that cannot be made longer
(`blankRuns`) counts one for each four of its blanks.

| between two parts of a line | levels |
| --- | --- |
| no run of blanks goes on | those of the parts, added |
| a run goes on (`CutsBlanks`) | perhaps more: what is left over on both sides may make four |

Counting part by part comes first; a line is then taken apart into runs of equal
characters.
-/

import Shank.Token.Layout
import Mathlib.Algebra.BigOperators.Group.List.Basic
import Mathlib.Algebra.GroupWithZero.Nat
import Mathlib.Data.List.SplitBy

namespace Shank

/-- A run of blanks goes on from the one part of a line into the other. -/
def CutsBlanks (before after : List Char) : Prop :=
  before.getLast? = some ' ' ∧ after.head? = some ' '

instance (before after : List Char) : Decidable (CutsBlanks before after) :=
  inferInstanceAs (Decidable (_ ∧ _))

/-- The runs of blanks of a line, each as long as it can be. -/
def blankRuns (cs : List Char) : List (List Char) :=
  (cs.splitBy fun c d => c == d).filter fun run => ' ' ∈ run

/-! ## Part by part

The count takes a tab, or four blanks at once, or passes a character. Two parts
of a line could only be counted wrongly apart if four blanks lay on both sides
of the cut.
-/

/-- Whether a run of blanks is cut is seen at the cut alone, whatever stands
farther in front. -/
theorem CutsBlanks.append {before after : List Char} (h : CutsBlanks before after) (cs : List Char) :
    CutsBlanks (cs ++ before) after := by
  refine ⟨?_, h.2⟩
  rw [List.getLast?_append, h.1, Option.some_or]

/-- **Two parts of a line count by themselves** if no run of blanks goes on from
the one into the other. The induction follows the count: where it takes four
blanks at once, they are within the first part, or the run is cut. -/
theorem indentCount_append_of_not_cuts {before after : List Char} (h : ¬CutsBlanks before after) :
    indentCount (before ++ after) = indentCount before + indentCount after := by
  induction before using indentCount.induct with
  | case1 => rw [List.nil_append, indentCount, Nat.zero_add]
  | case2 cs ih =>
    have hrest := ih fun hcuts => h (hcuts.append ['\t'])
    rw [List.cons_append, indentCount, indentCount, hrest, Nat.add_right_comm]
  | case3 cs ih =>
    have hrest := ih fun hcuts => h (hcuts.append [' ', ' ', ' ', ' '])
    simp only [List.cons_append, indentCount, hrest, Nat.add_right_comm]
  | case4 c cs htab hblanks ih =>
    have hrest := ih fun hcuts => h (hcuts.append [c])
    rw [List.cons_append, indentCount.eq_4 _ _ htab, indentCount.eq_4 _ _ htab hblanks, hrest]
    -- four blanks that start in the one part and end in the other would be cut
    rintro rest rfl happend
    rcases cs with _ | ⟨c₁, _ | ⟨c₂, _ | ⟨c₃, cs⟩⟩⟩
    · rw [List.nil_append] at happend
      exact h ⟨rfl, by rw [happend]; rfl⟩
    · cases happend
      exact h ⟨rfl, rfl⟩
    · cases happend
      exact h ⟨rfl, rfl⟩
    · cases happend
      exact hblanks cs rfl rfl

/-- Text with neither tabs nor blanks does not count. -/
theorem indentCount_of_plain {cs : List Char} (h : ∀ c ∈ cs, c ≠ '\t' ∧ c ≠ ' ') :
    indentCount cs = 0 := by
  induction cs with
  | nil => rfl
  | cons c cs ih =>
    obtain ⟨htab, hblank⟩ := h c List.mem_cons_self
    have hrest := ih fun d hd => h d (List.mem_cons_of_mem c hd)
    rw [indentCount.eq_4 _ _ htab fun _ hc _ => hblank hc, hrest]

/-- Each tab in front counts one. -/
theorem indentCount_tabs (n : Nat) (cs : List Char) :
    indentCount (List.replicate n '\t' ++ cs) = n + indentCount cs := by
  induction n with
  | zero => rw [List.replicate_zero, List.nil_append, Nat.zero_add]
  | succ n ih => rw [List.replicate_succ, List.cons_append, indentCount, ih, Nat.add_right_comm]

/-- Blanks count one for each four of them; the rest is dropped. -/
theorem indentCount_blanks (n : Nat) : indentCount (List.replicate n ' ') = n / 4 := by
  induction n using Nat.strong_induction_on with
  | _ n ih =>
    match n with
    | 0 | 1 | 2 | 3 => rfl
    | n + 4 =>
      simp only [List.replicate_succ, indentCount, ih n (by omega)]
      omega

/-- Parts that cut no run of blanks are counted one by one. -/
theorem indentCount_flatten {parts : List (List Char)}
    (h : ∀ k, ¬CutsBlanks (parts.take k).flatten (parts.drop k).flatten) :
    indentCount parts.flatten = (parts.map indentCount).sum := by
  induction parts with
  | nil => rfl
  | cons part parts ih =>
    have hfirst : ¬CutsBlanks part parts.flatten := by
      simpa using h 1
    have hrest (k : Nat) : ¬CutsBlanks (parts.take k).flatten (parts.drop k).flatten := by
      intro hcuts
      exact h (k + 1) (hcuts.append part)
    rw [List.flatten_cons, indentCount_append_of_not_cuts hfirst, ih hrest, List.map_cons,
      List.sum_cons]

/-! ## Run by run

A line is taken apart into runs of equal characters, and each run counts by
itself: tabs one by one, blanks by fours, all else nothing.
-/

/-- Runs of equal characters that end where another one starts are found apart. -/
theorem blankRuns_append {before after : List Char}
    (h : ∀ c ∈ before.getLast?, after.head? ≠ some c) :
    blankRuns (before ++ after) = blankRuns before ++ blankRuns after := by
  have hends : ∀ c ∈ before.getLast?, ∀ d ∈ after.head?, (c == d) = false := by
    rintro c hc d hd
    refine beq_eq_false_iff_ne.2 ?_
    rintro rfl
    exact h c hc hd
  rw [blankRuns, List.splitBy_append hends, List.filter_append, blankRuns, blankRuns]

/-- A run of one character is a run of blanks, or none at all. -/
theorem blankRuns_replicate (n : Nat) (c : Char) :
    blankRuns (List.replicate (n + 1) c) = if c = ' ' then [List.replicate (n + 1) c] else [] := by
  have hchain : (List.replicate (n + 1) c).IsChain fun c d => (c == d) = true :=
    List.isChain_replicate_of_rel _ (beq_self_eq_true c)
  have hmem : ' ' ∈ List.replicate (n + 1) c ↔ c = ' ' := by
    rw [List.mem_replicate]
    exact ⟨fun h => h.2.symm, fun h => ⟨Nat.succ_ne_zero n, h.symm⟩⟩
  have hsplit : (List.replicate (n + 1) c).splitBy (fun c d => c == d) = [List.replicate (n + 1) c] :=
    List.splitBy_of_isChain (List.cons_ne_nil _ _) hchain
  rw [blankRuns, hsplit, List.filter_singleton]
  simp only [hmem, Bool.cond_decide]

/-- A run of one character counts by itself. -/
theorem indentCount_replicate (n : Nat) (c : Char) : indentCount (List.replicate (n + 1) c) =
    (List.replicate (n + 1) c).count '\t' +
      ((blankRuns (List.replicate (n + 1) c)).map fun run => run.length / 4).sum := by
  rw [blankRuns_replicate]
  by_cases hblank : c = ' '
  · subst hblank
    rw [indentCount_blanks, List.count_replicate]
    simp
  · by_cases htab : c = '\t'
    · subst htab
      have htabs := indentCount_tabs (n + 1) []
      rw [List.append_nil] at htabs
      rw [htabs, List.count_replicate_self]
      rfl
    · have hplain : ∀ d ∈ List.replicate (n + 1) c, d ≠ '\t' ∧ d ≠ ' ' := fun d hd =>
        List.eq_of_mem_replicate hd ▸ ⟨htab, hblank⟩
      rw [indentCount_of_plain hplain, if_neg hblank, List.count_eq_zero_of_not_mem]
      · rfl
      · exact fun hmem => (hplain _ hmem).1 rfl

/-- A line that is not empty starts with a run of its first character. -/
theorem exists_first_run (c : Char) (cs : List Char) :
    ∃ n rest, c :: cs = List.replicate (n + 1) c ++ rest ∧ rest.head? ≠ some c := by
  refine ⟨(cs.takeWhile (· == c)).length, cs.dropWhile (· == c), ?_, fun hhead => ?_⟩
  · have hequal : ∀ d ∈ cs.takeWhile (· == c), (d == c) = true :=
      List.all_eq_true.1 List.all_takeWhile
    have hrun : cs.takeWhile (· == c) = List.replicate (cs.takeWhile (· == c)).length c :=
      List.eq_replicate_of_mem fun d hd => eq_of_beq (hequal d hd)
    rw [List.replicate_succ, List.cons_append, ← hrun, List.takeWhile_append_dropWhile]
  · have hnot := List.head?_dropWhile_not (· == c) cs
    rw [hhead] at hnot
    exact absurd (beq_self_eq_true c) (Bool.not_eq_true _ ▸ hnot)

/-- Tabs and runs of blanks are all that counts. The induction is over the runs
of equal characters. -/
theorem indentCount_eq (cs : List Char) :
    indentCount cs = cs.count '\t' + ((blankRuns cs).map fun run => run.length / 4).sum := by
  match cs with
  | [] => rfl
  | c :: cs =>
    obtain ⟨n, rest, hcs, hrest⟩ := exists_first_run c cs
    have hlast : (List.replicate (n + 1) c).getLast? = some c := by
      rw [List.getLast?_replicate, if_neg (Nat.succ_ne_zero n)]
    -- the run is as long as it can be, so no run of blanks is cut behind it
    have hcut : ¬CutsBlanks (List.replicate (n + 1) c) rest := by
      rintro ⟨hblank, hhead⟩
      rw [hlast] at hblank
      exact hrest (hhead.trans hblank.symm)
    have hapart : ∀ d ∈ (List.replicate (n + 1) c).getLast?, rest.head? ≠ some d := by
      rintro d hd
      rw [hlast] at hd
      exact hd ▸ hrest
    have hshorter : rest.length < (c :: cs).length := by
      rw [hcs, List.length_append, List.length_replicate]
      omega
    rw [hcs, indentCount_append_of_not_cuts hcut, blankRuns_append hapart, indentCount_replicate,
      indentCount_eq rest, List.count_append, List.map_append, List.sum_append]
    omega
termination_by cs.length
decreasing_by exact hshorter

/-- **Indentation has a closed form.** A line has as many levels as it has tabs,
and one more for each four blanks of every run of blanks. So the levels of a
line are those of its parts, however it is parted, if no run of blanks is cut. -/
theorem indentCount_by_runs :
    (∀ cs, indentCount cs = cs.count '\t' + ((blankRuns cs).map fun run => run.length / 4).sum) ∧
    ∀ parts : List (List Char), (∀ k, ¬CutsBlanks (parts.take k).flatten (parts.drop k).flatten) →
      indentCount parts.flatten = (parts.map indentCount).sum :=
  ⟨indentCount_eq, fun _ => indentCount_flatten⟩

/-- The hypothesis of `indentCount_by_runs` is satisfiable: seven blanks and a
tab around a word, and five blanks in front of a brace, are counted apart. -/
theorem indentCount_by_runs_mixed :
    let parts := ["\t       x\t".toList, "     \x7b".toList]
    (∀ k, ¬CutsBlanks (parts.take k).flatten (parts.drop k).flatten) ∧
      indentCount parts.flatten = 3 + 1 := by
  intro parts
  have hcuts : ∀ k, ¬CutsBlanks (parts.take k).flatten (parts.drop k).flatten
    | 0 | 1 => by decide
    | k + 2 => fun ⟨_, hhead⟩ => by simp [parts] at hhead
  exact ⟨hcuts, (indentCount_by_runs.2 parts hcuts).trans (by decide)⟩

end Shank
