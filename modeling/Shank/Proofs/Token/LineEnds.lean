/-
# Line ends

How the lines of a text end does not show in what is read of it. A line is read
without the carriage returns and line feeds at its end, so it may end with
either or with both; and the last line may do without an end.

| text | its pieces between line feeds | its lines |
| --- | --- | --- |
| a carriage return before each line feed | each but the last has one more carriage return | the same, chomped |
| a line feed after a last line without one | one more, which is empty | the same |

The carriage returns that are in the text already stay where they are.
-/

import Shank.Token.Layout

namespace Shank

namespace Text

/-- A text with a carriage return put in front of each line feed. -/
def withReturns (cs : List Char) : List Char :=
  cs.flatMap fun c => if c = '\n' then ['\r', '\n'] else [c]

/-- Pieces with a carriage return put at the end of each but the last. -/
def endReturns : List (List Char) → List (List Char)
  | [] => []
  | [p] => [p]
  | p :: q :: ps => (p ++ ['\r']) :: endReturns (q :: ps)

/-! ## Carriage returns before the line feeds

A text is cut at its line feeds, and a carriage return in front of one comes to
stand at the end of a piece. There it is cut off when the line is read.
-/

/-- A character comes in front of the first piece, or ends it if it is a line
feed. -/
theorem pieces_cons (c : Char) (cs : List Char) : pieces (c :: cs) = splitAt c (pieces cs) :=
  rfl

/-- Each line feed ends a piece, and what is put in front of it comes into this
piece. -/
theorem pieces_withReturns (cs : List Char) : pieces (withReturns cs) = endReturns (pieces cs) := by
  induction cs with
  | nil => rfl
  | cons c cs ih =>
    obtain ⟨p, ps, hpieces⟩ := List.exists_cons_of_ne_nil (pieces_ne_nil cs)
    rw [hpieces] at ih
    rw [pieces_cons, hpieces, withReturns, List.flatMap_cons, ← withReturns]
    by_cases hc : c = '\n'
    · subst hc
      rw [if_pos rfl, splitAt, if_pos rfl]
      show splitAt '\r' (splitAt '\n' (pieces (withReturns cs))) = _
      rw [ih]
      cases ps <;> rfl
    · rw [if_neg hc, splitAt, if_neg hc, List.singleton_append, pieces_cons, ih]
      cases ps with
      | nil => simp [endReturns, splitAt, hc]
      | cons q ps => simp [endReturns, splitAt, hc]

/-- A carriage return at the end of a line does not show when the line is
chomped. -/
theorem chomp_concat_return (cs : List Char) : chomp (cs ++ ['\r']) = chomp cs := by
  rw [chomp, chomp, trimEnd, trimEnd, List.reverse_concat, List.dropWhile_cons_of_pos rfl]

/-- A carriage return at the end of each piece but the last does not show when
the pieces are chomped. -/
theorem map_chomp_endReturns (ps : List (List Char)) :
    (endReturns ps).map chomp = ps.map chomp := by
  induction ps using endReturns.induct with
  | case1 => rfl
  | case2 p => rfl
  | case3 p q ps ih => rw [endReturns, List.map_cons, ih, chomp_concat_return, ← List.map_cons]

/-- The last piece is as it was, so it closes the last line as before or does
not. -/
theorem getLast?_endReturns (ps : List (List Char)) : (endReturns ps).getLast? = ps.getLast? := by
  induction ps using endReturns.induct with
  | case1 => rfl
  | case2 p => rfl
  | case3 p q ps ih =>
    rw [endReturns, List.getLast?_cons_cons, ← ih]
    cases ps with
    | nil => rfl
    | cons r ps => rw [endReturns, List.getLast?_cons_cons]

/-- **The lines of a text are the same, chomped**, with a carriage return before
each line feed. -/
theorem map_chomp_lines (cs : List Char) :
    (lines (withReturns cs)).map chomp = (lines cs).map chomp := by
  rw [lines, lines, pieces_withReturns, getLast?_endReturns]
  split
  · rw [List.map_dropLast, map_chomp_endReturns, List.map_dropLast]
  · exact map_chomp_endReturns _

/-! ## A line feed after the last line

The last piece of a text is a line of its own only if it is not empty. A line
feed behind it leaves an empty piece, which is no line.
-/

/-- A line feed at the end of a text gives one more piece, an empty one. -/
theorem pieces_concat_newline (cs : List Char) : pieces (cs ++ ['\n']) = pieces cs ++ [[]] := by
  induction cs with
  | nil => rfl
  | cons c cs ih =>
    obtain ⟨p, ps, hpieces⟩ := List.exists_cons_of_ne_nil (pieces_ne_nil cs)
    rw [List.cons_append, pieces_cons, ih, pieces_cons, hpieces, List.cons_append, splitAt, splitAt]
    split <;> rfl

/-- The last piece is empty only at the end of an empty text, or behind a line
feed. -/
theorem getLast?_pieces {cs : List Char} (h : (pieces cs).getLast? = some []) :
    cs = [] ∨ cs.getLast? = some '\n' := by
  induction cs with
  | nil => exact .inl rfl
  | cons c cs ih =>
    refine .inr ?_
    obtain ⟨p, ps, hpieces⟩ := List.exists_cons_of_ne_nil (pieces_ne_nil cs)
    rw [pieces_cons, hpieces, splitAt] at h
    rw [hpieces] at ih
    split at h
    · rename_i hc
      rcases ih h with rfl | hlast
      · exact congrArg some hc
      · rw [List.getLast?_cons, hlast]
        rfl
    -- the character belongs to the first piece, which is the last one only if nothing
    -- follows it
    · cases ps with
      | nil => cases h
      | cons q ps =>
        rcases ih h with rfl | hlast
        · cases hpieces
        · rw [List.getLast?_cons, hlast]
          rfl

/-- **A line feed after the last line does not add a line**, if there was none. -/
theorem lines_concat_newline {cs : List Char} (hne : cs ≠ []) (hend : cs.getLast? ≠ some '\n') :
    lines (cs ++ ['\n']) = lines cs := by
  have hlast : (pieces cs).getLast? ≠ some [] := fun h => (getLast?_pieces h).elim hne hend
  simp only [lines, pieces_concat_newline, List.getLast?_concat, List.dropLast_concat, if_true,
    if_neg hlast]

end Text

namespace Token

/-- A line is read as it is chomped. -/
theorem Layout.readLines_of_chomp (s : Layout) {ls ls' : List (List Char)}
    (h : ls.map Text.chomp = ls'.map Text.chomp) : readLines s ls = readLines s ls' := by
  induction ls generalizing s ls' with
  | nil =>
    obtain rfl := List.map_eq_nil_iff.1 h.symm
    rfl
  | cons raw ls ih =>
    obtain ⟨raw', ls', rfl, hraw, hls⟩ := List.map_eq_cons_iff.1 h.symm
    have hline : s.readLine raw = s.readLine raw' := by
      rw [readLine, readLine, hraw]
    rw [readLines, readLines, hline, ih _ hls.symm]

/-- **Line ends do not show.** A text with a carriage return in front of each
line feed is read as it is without them, and one whose last line has no end is
read as it is with a line feed behind it: tokens and faults are the same, and so
is everything else that is noted of a line. -/
theorem readSource_of_lineEnds (source : String) :
    readSource (String.ofList (Text.withReturns source.toList)) = readSource source ∧
    (source ≠ "" → source.toList.getLast? ≠ some '\n' →
      readSource (source ++ "\n") = readSource source) := by
  constructor
  · rw [readSource, readSource, String.toList_ofList,
      Layout.readLines_of_chomp {} (Text.map_chomp_lines source.toList)]
  · intro hne hend
    have hchars : source.toList ≠ [] := fun h => hne (String.toList_eq_nil_iff.1 h)
    rw [readSource, readSource, String.toList_append, show "\n".toList = ['\n'] from rfl,
      Text.lines_concat_newline hchars hend]

/-- The hypotheses of `readSource_of_lineEnds` are satisfiable: a literal and a
comment that stay open end the two lines of a text, which has carriage returns
of its own. -/
theorem readSource_of_lineEnds_open :
    let source := "x\r\"y\r\n\t\x7b z\r"
    source ≠ "" ∧ source.toList.getLast? ≠ some '\n' ∧
      readSource (source ++ "\n") = readSource source := by
  intro source
  have hne : source ≠ "" := by decide
  have hend : source.toList.getLast? ≠ some '\n' := by decide
  exact ⟨hne, hend, (readSource_of_lineEnds source).2 hne hend⟩

end Token
end Shank
