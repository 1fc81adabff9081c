/-
# The mark under what cannot be read

What is told of an unreadable line shows the line, with a blank for each tab,
and below it a mark. The mark stands under the first character of what cannot be
read, whatever stands before it.

| | column counts from the margin and two blanks on |
| --- | --- |
| the line | its characters; the carriage returns at its end are left out |
| the mark | one `~` for each column before it, then `^` |

Both have one character for each column, so they are compared by position: tabs,
characters of more than one byte, and comments or literals before the place do
not matter.
-/

import Shank.Proofs.Token.Accounting
import Shank.Proofs.Token.Written
import Mathlib.Data.List.TakeWhile

namespace Shank

/-! ## Lines without their ends

A line of a text holds no line feed, and may hold carriage returns; those at its
end are cut off before it is read. What is shown is the line without them.
-/

namespace Text

/-- A text without line feeds is one piece. -/
theorem pieces_of_plain {cs : List Char} (h : '\n' ∉ cs) : pieces cs = [cs] := by
  induction cs with
  | nil => rfl
  | cons c cs ih =>
    rw [List.mem_cons, not_or] at h
    rw [pieces, List.foldr_cons, ← pieces, ih h.2, splitAt, if_neg (Ne.symm h.1)]

/-- No piece of a text holds a line feed. -/
theorem newline_not_mem_pieces {cs p : List Char} (h : p ∈ pieces cs) : '\n' ∉ p := by
  induction cs generalizing p with
  | nil =>
    rw [List.mem_singleton.1 h]
    exact List.not_mem_nil
  | cons c cs ih =>
    obtain ⟨q, qs, hpieces⟩ := List.exists_cons_of_ne_nil (pieces_ne_nil cs)
    rw [pieces, List.foldr_cons, ← pieces, hpieces, splitAt] at h
    rw [hpieces] at ih
    split at h
    · rcases List.mem_cons.1 h with rfl | h
      · exact List.not_mem_nil
      · exact ih h
    · rename_i hc
      rcases List.mem_cons.1 h with rfl | h
      · rw [List.mem_cons, not_or]
        exact ⟨Ne.symm hc, ih List.mem_cons_self⟩
      · exact ih (List.mem_cons_of_mem q h)

/-- No line of a text holds a line feed. -/
theorem newline_not_mem_lines {cs l : List Char} (h : l ∈ lines cs) : '\n' ∉ l := by
  unfold lines at h
  dsimp only at h
  split at h
  · exact newline_not_mem_pieces (List.dropLast_subset _ h)
  · exact newline_not_mem_pieces h

/-- Texts of one line are the lines of what they are joined to. -/
theorem pieces_intercalate {s : String} {ss : List String} (h : ∀ t ∈ s :: ss, IsPlain t) :
    pieces ("\n".intercalate (s :: ss)).toList = (s :: ss).map String.toList := by
  induction ss generalizing s with
  | nil =>
    rw [String.intercalate_singleton, pieces_of_plain (h s List.mem_cons_self)]
    rfl
  | cons t ss ih =>
    have hfeed : "\n".toList = ['\n'] := rfl
    rw [String.intercalate_cons_cons, String.toList_append, String.toList_append, hfeed,
      List.append_assoc, List.singleton_append, pieces_append (h s List.mem_cons_self),
      ih fun u hu => h u (List.mem_cons_of_mem s hu)]
    rfl

/-- A line without the carriage returns at its end. -/
theorem chomp_returns {raw : List Char} (h : '\n' ∉ raw) :
    (∃ k, raw = chomp raw ++ List.replicate k '\r') ∧ (chomp raw).getLast? ≠ some '\r' := by
  constructor
  · have hends : ∀ c ∈ raw.reverse.takeWhile isLineEnd, c = '\r' := by
      intro c hc
      have hmem : c ∈ raw := List.mem_reverse.1 ((List.takeWhile_prefix _).subset hc)
      have hend : isLineEnd c = true := List.mem_takeWhile_imp hc
      have hfeed : c ≠ '\n' := fun e => h (e ▸ hmem)
      simpa [isLineEnd, hfeed] using hend
    refine ⟨(raw.reverse.takeWhile isLineEnd).length, ?_⟩
    rw [← List.reverse_replicate, ← List.eq_replicate_of_mem hends]
    exact (trimEnd_append_takeWhile isLineEnd raw).symm
  · rw [chomp, trimEnd, List.getLast?_reverse]
    intro hhead
    have hnot := List.head?_dropWhile_not isLineEnd raw.reverse
    rw [hhead] at hnot
    exact absurd hnot (by decide)

end Text

/-! ## Where the mark stands

A tab is shown as a blank, so every character of the line stands in its own
column when it is shown. The mark is put below the column that was told.
-/

/-- What cannot be read does not start with a tab, so that its character is
shown as it is. -/
theorem LexProblem.Starts.exists_head {problem : LexProblem} {text : List Char}
    (h : problem.Starts text) : ∃ c, text.head? = some c ∧ c ≠ '\t' := by
  obtain ⟨c, cs, rfl, ⟨hdigit, -⟩ | ⟨hblank, -⟩⟩ := h
  · exact ⟨c, rfl, by rintro rfl; exact absurd hdigit (by decide)⟩
  · exact ⟨c, rfl, by rintro rfl; exact absurd hblank (by decide)⟩

namespace LexFault

/-- The line as it is shown. -/
def shown (e : LexFault) : String :=
  String.ofList (e.source.toList.map fun c => if c = '\t' then ' ' else c)

/-- Among some lines one cannot be read, from a column on. -/
structure StandsIn (e : LexFault) (ls : List (List Char)) : Prop where
  line_pos : 1 ≤ e.line
  /-- The line is told without the carriage returns at its end. -/
  line_eq : ∃ k, ls[e.line - 1]? = some (e.source.toList ++ List.replicate k '\r')
  getLast_source : e.source.toList.getLast? ≠ some '\r'
  column_pos : 1 ≤ e.column
  column_le : e.column ≤ e.source.length
  /-- At the column it goes on with what cannot be read. -/
  starts : e.problem.Starts (e.source.toList.drop (e.column - 1))

/-- What is told with a margin shows the line, and below it a mark. -/
structure Marks (e : LexFault) (margin second third : String) : Prop where
  report_eq : e.report margin = "\n".intercalate [margin ++ e.headline, second, third]
  /-- These are its lines. -/
  pieces_eq : IsPlain margin →
    Text.pieces (e.report margin).toList = [margin ++ e.headline, second, third].map String.toList
  /-- The line is shown behind the margin and two blanks, with a blank for each
  tab. -/
  second_eq : ∃ shown : String, second = margin ++ "  " ++ shown ∧ shown.length = e.source.length ∧
    ∀ i : Nat, shown.toList[i]? =
      if e.source.toList[i]? = some '\t' then some ' ' else e.source.toList[i]?
  third_eq : third = margin ++ "  " ++ String.ofList (List.replicate (e.column - 1) '~' ++ ['^'])
  /-- The mark, which ends its line, stands under the character at the column. -/
  aligned : ∃ k, third.length = k + 1 ∧ third.toList[k]? = some '^' ∧
    second.toList[k]? = e.source.toList[e.column - 1]?

variable {e : LexFault} {ls : List (List Char)}

/-- The line is shown character by character, with blanks for its tabs, so every
character stands in the column it has. -/
theorem getElem?_shown (e : LexFault) (i : Nat) : e.shown.toList[i]? =
    if e.source.toList[i]? = some '\t' then some ' ' else e.source.toList[i]? := by
  rw [shown, String.toList_ofList, List.getElem?_map]
  cases e.source.toList[i]? with
  | none => rfl
  | some c => by_cases hc : c = '\t' <;> simp [hc]

/-- The line that is shown is one line. -/
theorem isPlain_shown (h : IsPlain e.source) : IsPlain e.shown := by
  intro hmem
  rw [shown, String.toList_ofList] at hmem
  obtain ⟨c, hc, hnewline⟩ := List.mem_map.1 hmem
  split at hnewline
  · cases hnewline
  · exact h (hnewline ▸ hc)

/-- The mark is one line. -/
theorem isPlain_pointer (e : LexFault) : IsPlain e.pointer := by
  intro hmem
  rw [pointer, String.toList_ofList] at hmem
  rcases List.mem_append.1 hmem with hmem | hmem
  · exact absurd (List.eq_of_mem_replicate hmem) (by decide)
  · exact absurd (List.mem_singleton.1 hmem) (by decide)

/-- **What is told of a line that cannot be read marks its column.** The line
and the mark are the last two lines of it, and each has one character for each
column behind the margin. -/
theorem StandsIn.marks (h : e.StandsIn ls) (hplain : IsPlain e.source) (margin : String) :
    e.Marks margin (margin ++ "  " ++ e.shown) (margin ++ "  " ++ e.pointer) := by
  obtain ⟨c, hc, htab⟩ := h.starts.exists_head
  rw [List.head?_drop] at hc
  have hreport : e.report margin = "\n".intercalate
      [margin ++ e.headline, margin ++ "  " ++ e.shown, margin ++ "  " ++ e.pointer] := by
    have hsource : e.source.isEmpty = false := by
      rw [Bool.eq_false_iff, Ne, String.isEmpty_iff]
      intro hempty
      rw [hempty] at hc
      cases hc
    have htext (s : String) : toString s = s := rfl
    rw [e.report_eq_map, excerpt, if_neg (by rw [hsource]; decide)]
    simp only [List.map_cons, List.map_nil, String.append_assoc, htext]
    rfl
  -- behind the margin and two blanks, columns are counted as in the line
  have hbehind (t : String) (i : Nat) :
      (margin ++ "  " ++ t).toList[margin.length + 2 + i]? = t.toList[i]? := by
    have hlength : (margin ++ "  ").toList.length = margin.length + 2 := by
      rw [String.length_toList, String.length_append]
      rfl
    rw [String.toList_append, ← hlength, List.getElem?_append_right (Nat.le_add_right ..),
      Nat.add_sub_cancel_left]
  have hpointer : e.pointer.toList = List.replicate (e.column - 1) '~' ++ ['^'] := String.toList_ofList
  refine ⟨hreport, fun hmargin => ?_, ⟨e.shown, rfl, ?_, e.getElem?_shown⟩, rfl,
    margin.length + 2 + (e.column - 1), ?_, ?_, ?_⟩
  -- no part of the report ends a line, so it has these three
  · have hblanks : IsPlain (margin ++ "  ") := hmargin.append (by decide)
    have hheadline := hmargin.append (isPlain_headline h.starts.isPlain_message)
    have hsecond := hblanks.append (isPlain_shown hplain)
    have hthird := hblanks.append e.isPlain_pointer
    rw [hreport]
    refine Text.pieces_intercalate ?_
    simp only [List.forall_mem_cons, List.not_mem_nil, false_imp_iff, implies_true, and_true]
    exact ⟨hheadline, hsecond, hthird⟩
  · rw [← String.length_toList, shown, String.toList_ofList, List.length_map, String.length_toList]
  · rw [String.length_append, String.length_append, ← String.length_toList (s := e.pointer), hpointer,
      List.length_append, List.length_replicate]
    rfl
  · rw [hbehind, hpointer, List.getElem?_append_right (by simp)]
    simp
  · rw [hbehind, getElem?_shown, hc, if_neg fun htab' => htab (Option.some.inj htab')]

end LexFault

namespace Token

/-- **A line that is told stands in the text**, at its number and without its
end. -/
theorem standsIn_readSource {source : String} {e : LexFault} (he : e ∈ (readSource source).faults) :
    e.StandsIn (Text.lines source.toList) ∧ IsPlain e.source := by
  obtain ⟨hpos, hle⟩ := Reading.line_faults he
  obtain ⟨raw, hraw⟩ : ∃ raw, (Text.lines source.toList)[e.line - 1]? = some raw :=
    ⟨_, List.getElem?_eq_getElem (by omega)⟩
  have hline : e.line = e.line - 1 + 1 := by omega
  have hfault : ((Layout.atLine source (e.line - 1 + 1)).readLine raw).fault = some e := by
    rw [← Option.mem_toList, ← Reading.faults_ofLine hraw]
    exact List.mem_filter.2 ⟨he, decide_eq_true hline⟩
  obtain ⟨-, hsource, hcolumn, hstarts⟩ := Layout.starts_of_readLine hfault
  have hplain : '\n' ∉ raw := Text.newline_not_mem_lines (List.mem_of_getElem? hraw)
  -- what is cut off at the end are carriage returns
  obtain ⟨⟨k, hends⟩, hlast⟩ := Text.chomp_returns hplain
  have hlist : e.source.toList = Text.chomp raw := by rw [hsource, String.toList_ofList]
  rw [← hlist] at hends hlast hstarts
  refine ⟨⟨hpos, ⟨k, hends ▸ hraw⟩, hlast, hcolumn, ?_, hstarts⟩, ?_⟩
  · obtain ⟨c, hc, -⟩ := hstarts.exists_head
    rw [List.head?_drop] at hc
    have hlt := (List.getElem?_eq_some_iff.1 hc).1
    rw [String.length_toList] at hlt
    omega
  · intro hmem
    exact hplain (hends ▸ List.mem_append_left _ hmem)

/-- **The mark stands under what cannot be read.** A line that is told is the
one of its number in the text, without the carriage returns at its end. At the
column, which is one of the line, stands the character that is told, or the
first one of the run that is no number. What is told shows the line behind the
margin and two blanks, with a blank for each tab and every other character as it
is, and below it the mark, whose end stands under that character. -/
theorem marked_under_unreadable {source : String} {e : LexFault} (he : e ∈ (readSource source).faults) :
    e.StandsIn (Text.lines source.toList) ∧ ∀ margin, ∃ second third, e.Marks margin second third :=
  have ⟨hstands, hplain⟩ := standsIn_readSource he
  ⟨hstands, fun margin => ⟨_, _, hstands.marks hplain margin⟩⟩

/-- The hypotheses of `marked_under_unreadable` are satisfiable: behind the end
of a comment and a tab the third line has two points in a number. -/
theorem marked_under_unreadable_points :
    let e : LexFault := ⟨.malformedNumber "1..2", 3, 6, "b \x7d \t1..2 y"⟩
    e.StandsIn (Text.lines "x\n\t\x7b a\nb \x7d \t1..2 y\r\r\n".toList) ∧
      ∃ second third, e.Marks "> " second third := by
  intro e
  have he : e ∈ (readSource "x\n\t\x7b a\nb \x7d \t1..2 y\r\r\n").faults := by decide +kernel
  obtain ⟨hstands, hmarks⟩ := marked_under_unreadable he
  exact ⟨hstands, hmarks "> "⟩

end Token
end Shank
