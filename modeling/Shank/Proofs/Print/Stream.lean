/-
# Lines as lexemes

Read from a depth on, lines give an `INDENT` or a `DEDENT` for each level their
depth differs from that of the line before, then their own lexemes and an end of
line (`stream`).

The levels that a group of lines opens below its own depth are closed in front
of what comes next. So when what comes next is not deeper, the stream of the
group can be cut off there, with every level closed that was opened in it
(`stream_append`).
-/

import Shank.Proofs.Print.WellFormed
import Shank.Proofs.Print.Source

namespace Shank

namespace Lexeme

/-- What opens a level. -/
def indent : Lexeme := ⟨.indent, ""⟩

/-- What closes a level. -/
def dedent : Lexeme := ⟨.dedent, ""⟩

/-- The end of a line. -/
def lineEnd : Lexeme := ⟨.endOfLine, ""⟩

end Lexeme

/-- What leads from one depth to another. -/
def stepLexemes (d d' : Nat) : List Lexeme :=
  List.replicate (d' - d) .indent ++ List.replicate (d - d') .dedent

/-- What is read of lines from a depth on, and up to another one behind them. -/
def stream (d : Nat) : List Line → Nat → List Lexeme
  | [], d' => stepLexemes d d'
  | l :: rest, d' => stepLexemes d l.depth ++ (l.lexemes ++ .lineEnd :: stream l.depth rest d')

/-- Nothing leads from a depth to itself. -/
theorem stepLexemes_self (d : Nat) : stepLexemes d d = [] := by
  simp [stepLexemes]

/-- Levels are closed one after the other. -/
theorem stepLexemes_append {a d c : Nat} (ha : d ≤ a) (hc : c ≤ d) :
    stepLexemes a d ++ stepLexemes d c = stepLexemes a c := by
  simp only [stepLexemes, Nat.sub_eq_zero_of_le ha, Nat.sub_eq_zero_of_le hc,
    Nat.sub_eq_zero_of_le (Nat.le_trans hc ha), List.replicate_zero, List.nil_append]
  rw [List.replicate_append_replicate, show a - d + (d - c) = a - c by omega]

/-- No lines at one depth are read as nothing. -/
theorem stream_nil_self (d : Nat) : stream d [] d = [] :=
  stepLexemes_self d

/-- A line at the depth it is read from has its own lexemes and an end in front
of what comes next. -/
theorem stream_cons_self (d : Nat) (ls : List Lexeme) (rest : List Line) (d' : Nat) :
    stream d (⟨d, ls⟩ :: rest) d' = ls ++ .lineEnd :: stream d rest d' := by
  rw [stream, stepLexemes_self, List.nil_append]

/-- The depth of the first of some lines, or of what comes behind them. -/
def depthOfFirst (lines : List Line) (d : Nat) : Nat :=
  match lines with
  | [] => d
  | l :: _ => l.depth

/-- Lines are read one group after the other. -/
theorem stream_append {a d d' : Nat} {lines lines' : List Line} (ha : d ≤ a)
    (hlines : ∀ l ∈ lines, d ≤ l.depth) (hnext : depthOfFirst lines' d' ≤ d) :
    stream a (lines ++ lines') d' = stream a lines d ++ stream d lines' d' := by
  induction lines generalizing a with
  | nil =>
    cases lines' with
    | nil => exact (stepLexemes_append ha hnext).symm
    | cons l rest =>
      have hstep := stepLexemes_append (c := l.depth) ha hnext
      rw [List.nil_append, stream, stream, stream, ← hstep, List.append_assoc]
  | cons l rest ih =>
    rw [List.cons_append, stream, stream, ih (hlines l (List.mem_cons_self ..))
      fun m hm => hlines m (List.mem_cons_of_mem _ hm)]
    simp only [List.append_assoc, List.cons_append]

/-- A group of lines one level below what is around it is a block. -/
theorem stream_block {d : Nat} {lines : List Line} (hlines : ∀ l ∈ lines, d + 1 ≤ l.depth)
    (hfirst : depthOfFirst lines d = d + 1) :
    stream d lines d = .indent :: (stream (d + 1) lines (d + 1) ++ [.dedent]) := by
  have hclose : stepLexemes (d + 1) d = [.dedent] := by simp [stepLexemes]
  have hopen : stepLexemes d (d + 1) = [.indent] := by simp [stepLexemes]
  cases lines with
  | nil => simp [depthOfFirst] at hfirst
  | cons l rest =>
    have hl : l.depth = d + 1 := hfirst
    have happend : stream (d + 1) (l :: rest ++ []) d =
        stream (d + 1) (l :: rest) (d + 1) ++ stream (d + 1) [] d :=
      stream_append (Nat.le_refl (d + 1)) hlines (Nat.le_succ d)
    rw [List.append_nil] at happend
    have hcut : stream d (l :: rest) d = .indent :: stream (d + 1) (l :: rest) d := by
      rw [stream, stream, hl, hopen, stepLexemes_self]
      rfl
    rw [hcut, happend, stream, hclose]

/-! ## The depths of statements

The layout between two groups of lines depends on the depths where they meet.
All lines of a statement are at its depth or further in, and the first is at its
depth.
-/

variable (spell : Ieee → String)

mutual

/-- The lines of a statement are not above its depth. This recurs with blocks,
branches and chains. -/
theorem Stmt.le_depth_of_mem (d : Nat) (s : Stmt) : ∀ l ∈ s.lines spell d, d ≤ l.depth := by
  cases s <;> simp only [Stmt.lines, List.mem_cons, List.not_mem_nil, or_false,
    forall_eq, forall_eq_or_imp, Nat.le_refl, true_and]
  case ifChain branches => exact Branch.le_depth_of_mem_chain d _ branches
  case whileLoop body =>
    exact fun l hl => Nat.le_of_succ_le (Stmt.le_depth_of_mem_block (d + 1) body l hl)
  case repeatLoop body =>
    exact fun l hl => Nat.le_of_succ_le (Stmt.le_depth_of_mem_block (d + 1) body l hl)
  case forLoop body =>
    exact fun l hl => Nat.le_of_succ_le (Stmt.le_depth_of_mem_block (d + 1) body l hl)

/-- The lines of a block are not above its depth. -/
theorem Stmt.le_depth_of_mem_block (d : Nat) (ss : List Stmt) :
    ∀ l ∈ Stmt.linesOfBlock spell d ss, d ≤ l.depth := by
  cases ss with
  | nil => simp [Stmt.linesOfBlock]
  | cons s rest =>
    intro l hl
    rw [Stmt.linesOfBlock, List.mem_append] at hl
    rcases hl with hl | hl
    · exact Stmt.le_depth_of_mem d s l hl
    · exact Stmt.le_depth_of_mem_block d rest l hl

/-- The lines of a branch are not above its depth. -/
theorem Branch.le_depth_of_mem (d : Nat) (word : Lexeme) (b : Branch) :
    ∀ l ∈ b.lines spell d word, d ≤ l.depth := by
  cases b with
  | mk _ condition body =>
    have hbody := Stmt.le_depth_of_mem_block (d + 1) body
    cases condition <;>
      simp only [Branch.lines, List.mem_cons, forall_eq_or_imp, Nat.le_refl, true_and] <;>
      exact fun l hl => Nat.le_of_succ_le (hbody l hl)

/-- The lines of an if chain are not above its depth. -/
theorem Branch.le_depth_of_mem_chain (d : Nat) (word : Lexeme) (bs : List Branch) :
    ∀ l ∈ Branch.linesOfChain spell d word bs, d ≤ l.depth := by
  cases bs with
  | nil => simp [Branch.linesOfChain]
  | cons b rest =>
    intro l hl
    rw [Branch.linesOfChain, List.mem_append] at hl
    rcases hl with hl | hl
    · exact Branch.le_depth_of_mem d word b l hl
    · exact Branch.le_depth_of_mem_chain d _ rest l hl

end

/-- The first line of a branch is at its depth. -/
theorem Branch.depthOfFirst_lines (d : Nat) (word : Lexeme) (b : Branch) (rest : List Line)
    (d' : Nat) :
    depthOfFirst (b.lines spell d word ++ rest) d' = d := by
  cases b with
  | mk _ condition body => cases condition <;> rfl

/-- The first line of a statement is at its depth; an if chain has a branch to
start with. -/
theorem Stmt.depthOfFirst_lines {s : Stmt} (h : s.WellFormed) (d : Nat) (rest : List Line)
    (d' : Nat) :
    depthOfFirst (s.lines spell d ++ rest) d' = d := by
  cases s with
  | ifChain line branches =>
    cases branches with
    | nil => exact h.1.elim
    | cons b bs =>
      rw [Stmt.lines, Branch.linesOfChain, List.append_assoc]
      exact Branch.depthOfFirst_lines spell d _ b _ d'
  | _ => rfl

/-- The first line of a block is at its depth. -/
theorem Stmt.depthOfFirst_block {ss : List Stmt} (h : Stmt.WellFormedBlock ss) (d : Nat) :
    depthOfFirst (Stmt.linesOfBlock spell d ss) d = d := by
  cases ss with
  | nil => rfl
  | cons s rest => exact Stmt.depthOfFirst_lines spell h.1 d _ d

end Shank
