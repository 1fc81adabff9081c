/-
# Lines that cannot be read

What is told of such a line is a headline, and unless the line is empty also the
line itself and the mark under the offending column. The headline is one line:
what cannot be read are a character that starts nothing, or the digits and
points of a number, and none of these ends a line (`IsPlain`). The lines are
told in the order in which they stand in the text.

What cannot be read is described by the text that is left at its column
(`LexProblem.Starts`), which is shown along the scan: where it is stuck, what is
left starts with that.
-/

import Shank.Proofs.Token.Depth

namespace Shank

/-- The first line of what is told of an unreadable line. -/
def LexFault.headline (e : LexFault) : String :=
  s!"Lexical error: {e.problem.message} at line {e.line}, col {e.column}"

/-- The other lines: the line with a blank for each tab, and the mark. An empty
line is not shown. -/
def LexFault.excerpt (e : LexFault) : List String :=
  let shown := String.ofList (e.source.toList.map fun c => if c = '\t' then ' ' else c)
  if e.source.isEmpty then [] else [s!"  {shown}", s!"  {e.pointer}"]

/-- What is told with a margin is told in lines, and the margin stands in front
of each. -/
theorem LexFault.report_eq_map (e : LexFault) (margin : String) :
    e.report margin = "\n".intercalate ((e.headline :: e.excerpt).map (margin ++ ·)) := by
  have htext (s : String) : toString s = s := rfl
  unfold report headline excerpt
  dsimp only
  split
  · exact String.toList_injective (by simp [htext])
  · exact String.toList_injective (by simp [htext])

/-- What is told without a margin: the headline and the excerpt, if there is
one. -/
theorem LexFault.report_eq (e : LexFault) :
    e.report "" = "\n".intercalate (e.headline :: e.excerpt) := by
  rw [report_eq_map, List.map_congr_left fun s _ => String.empty_append, List.map_id']

/-- A text of one line. -/
def IsPlain (s : String) : Prop :=
  '\n' ∉ s.toList

instance (s : String) : Decidable (IsPlain s) :=
  inferInstanceAs (Decidable (_ ∉ _))

/-- What is joined of texts of one line is one line. -/
theorem IsPlain.append {s t : String} (hs : IsPlain s) (ht : IsPlain t) : IsPlain (s ++ t) := by
  rw [IsPlain, String.toList_append, List.mem_append]
  exact fun h => h.elim hs ht

/-- The digits of a number are one line. -/
theorem isPlain_toString (n : Nat) : IsPlain (toString n) := by
  intro h
  rw [show toString n = String.ofList (Nat.toDigits 10 n) from rfl, String.toList_ofList] at h
  have hdigit : ('\n' : Char).isDigit = true := Nat.isDigit_of_mem_toDigits (by decide) (by decide) h
  exact absurd hdigit (by decide)

/-- The headline is one line if the message is. -/
theorem LexFault.isPlain_headline {e : LexFault} (h : IsPlain e.problem.message) :
    IsPlain e.headline :=
  have hstart : IsPlain "Lexical error: " := by decide
  have hline : IsPlain " at line " := by decide
  have hcolumn : IsPlain ", col " := by decide
  ((((hstart.append h).append hline).append (isPlain_toString _)).append hcolumn).append
    (isPlain_toString _)

/-- A text starts with what cannot be read: a character that is no white space,
or a run of digits and points, the whole of it, that starts with a digit. -/
def LexProblem.Starts (problem : LexProblem) (text : List Char) : Prop :=
  ∃ c cs, text = c :: cs ∧
    ((Text.isDigit c = true ∧
        problem = .malformedNumber (String.ofList (c :: cs.takeWhile Token.isNumberChar))) ∨
      (Text.isBlank c = false ∧ problem = .unknownCharacter c))

/-- The message of a problem that a text starts with is a single line: what it
shows is a run of digits and points or a character that is no white space. -/
theorem LexProblem.Starts.isPlain_message {problem : LexProblem} {text : List Char}
    (h : problem.Starts text) : IsPlain problem.message := by
  have hquote : IsPlain "'" := by decide
  obtain ⟨c, cs, -, ⟨hdigit, rfl⟩ | ⟨hblank, rfl⟩⟩ := h
  · have hstart : IsPlain "Invalid number format '" := by decide
    refine (hstart.append fun hmem => ?_).append hquote
    rcases List.mem_cons.1 (String.toList_ofList ▸ hmem) with rfl | hmem
    · exact absurd hdigit (by decide)
    · exact absurd (List.all_eq_true.1 List.all_takeWhile _ hmem) (by decide)
  · have hstart : IsPlain "Unknown character '" := by decide
    refine (hstart.append fun hmem => ?_).append hquote
    rw [show toString c = String.singleton c from rfl, String.toList_singleton,
      List.mem_singleton] at hmem
    subst hmem
    exact absurd hblank (by decide)

namespace Token

/-- What is unreadable of a text starts it: a digit where a number is malformed,
else a character that starts nothing. -/
theorem starts_of_piece {c : Char} {cs : List Char} {problem : LexProblem}
    (h : piece c cs = .unreadable problem) : problem.Starts (c :: cs) := by
  -- a literal that is not closed is readable
  have hliteral {quote : Char} {kind : Kind} : literal quote kind cs ≠ .unreadable problem := by
    unfold literal
    dsimp only
    split <;> exact nofun
  refine ⟨c, cs, rfl, ?_⟩
  unfold piece at h
  split at h
  · cases h
  · split at h
    · rename_i hdigit
      dsimp only at h
      split at h
      · cases h
      · cases h
        exact .inl ⟨hdigit, rfl⟩
    · split at h
      · exact absurd h hliteral
      · split at h
        · exact absurd h hliteral
        · split at h
          · cases h
          · split at h
            · cases h
            · rename_i hblank
              split at h
              · cases h
              · cases h
                exact .inr ⟨by simpa using hblank, rfl⟩

/-- Behind a piece the text goes on as many columns further as it has
characters. -/
theorem drop_column {at_ column : Nat} (more : Nat) (c : Char) (cs : List Char)
    (h : column + 1 + more ≤ at_) :
    (c :: cs).drop (at_ - column) = (cs.drop more).drop (at_ - (column + 1 + more)) := by
  have hcount : at_ - column = more + (at_ - (column + 1 + more)) + 1 := by omega
  rw [List.drop_drop, hcount, List.drop_succ_cons]

/-- **Where a text cannot be read on, it goes on with what is unreadable**: the
columns count what was read. -/
theorem starts_of_scan {line column : Nat} {cs : List Char} {problem : LexProblem} {at_ : Nat}
    (h : (scan line column cs).2 = .stuck problem at_) :
    column ≤ at_ ∧ problem.Starts (cs.drop (at_ - column)) := by
  induction column, cs using scan.induct line with
  | case1 column =>
    rw [scan] at h
    cases h
  | case2 column c cs kind text more hpiece _ _ _ ih =>
    rw [scan] at h
    simp only [hpiece] at h
    obtain ⟨hle, hstarts⟩ := ih h
    rw [drop_column more c cs hle]
    exact ⟨by omega, hstarts⟩
  | case3 column c cs hpiece ih =>
    rw [scan] at h
    simp only [hpiece] at h
    obtain ⟨hle, hstarts⟩ := ih h
    rw [drop_column 0 c cs hle]
    exact ⟨by omega, hstarts⟩
  | case4 column c cs more hpiece ih =>
    rw [scan] at h
    simp only [hpiece] at h
    obtain ⟨hle, hstarts⟩ := ih h
    rw [drop_column more c cs hle]
    exact ⟨by omega, hstarts⟩
  | case5 column c cs more closed hpiece hclosed =>
    rw [scan] at h
    simp only [hpiece, hclosed] at h
    cases h
  | case6 column c cs problem hpiece =>
    rw [scan] at h
    simp only [hpiece] at h
    cases h
    rw [Nat.sub_self, List.drop_zero]
    exact ⟨Nat.le_refl _, starts_of_piece hpiece⟩

/-- What ends the reading of a line starts in the column that is told, and that
is within the line. -/
theorem starts_of_scanLine {line : Nat} {inComment : Bool} {cs : List Char} {problem : LexProblem}
    {at_ : Nat} (h : (scanLine line inComment cs).2 = .stuck problem at_) :
    1 ≤ at_ ∧ problem.Starts (cs.drop (at_ - 1)) := by
  unfold scanLine at h
  split at h
  · dsimp only at h
    split at h
    · obtain ⟨hle, hstarts⟩ := starts_of_scan h
      have hcount : at_ - 1 = (commentEnd cs).1 + (at_ - (1 + (commentEnd cs).1)) := by omega
      rw [List.drop_drop, ← hcount] at hstarts
      exact ⟨by omega, hstarts⟩
    · cases h
  · exact starts_of_scan h

namespace Layout

/-- What is told of a line that is read next: its number, its text, and what
cannot be read at a column. -/
theorem starts_of_readLine {s : Layout} {raw : List Char} {e : LexFault}
    (h : (s.readLine raw).fault = some e) : e.line = s.line + 1 ∧
      e.source = String.ofList (Text.chomp raw) ∧ 1 ≤ e.column ∧
      e.problem.Starts ((Text.chomp raw).drop (e.column - 1)) := by
  revert h
  refine s.readLine_elim raw (fun content problem column hscan h => ?_) fun _ _ _ _ _ _ h => nomatch h
  cases h
  exact ⟨rfl, rfl, starts_of_scanLine (congrArg Prod.snd hscan)⟩

/-- What is told of a line has its number and a headline of one line. -/
theorem fault_readLine {s : Layout} {raw : List Char} {e : LexFault}
    (h : (s.readLine raw).fault = some e) : e.line = s.line + 1 ∧ IsPlain e.headline :=
  have ⟨hline, _, _, hstarts⟩ := starts_of_readLine h
  ⟨hline, LexFault.isPlain_headline hstarts.isPlain_message⟩

/-- The lines that are told stand behind those that were read, and in order. -/
theorem faults_readLines (s : Layout) (ls : List (List Char)) :
    (∀ e ∈ (s.readLines ls).filterMap LineReport.fault, s.line < e.line ∧ IsPlain e.headline) ∧
      (((s.readLines ls).filterMap LineReport.fault).map LexFault.line).Pairwise (· < ·) := by
  induction ls generalizing s with
  | nil => exact ⟨nofun, .nil⟩
  | cons raw rest ih =>
    obtain ⟨hlater, hordered⟩ := ih (s.readLine raw).next
    rw [line_readLine] at hlater
    rw [readLines]
    -- a line that is told stands before all that are told behind it
    cases hfault : (s.readLine raw).fault with
    | none =>
      rw [List.filterMap_cons_none hfault]
      exact ⟨fun e he => ⟨Nat.lt_of_succ_lt (hlater e he).1, (hlater e he).2⟩, hordered⟩
    | some e =>
      obtain ⟨hline, hplain⟩ := fault_readLine hfault
      rw [List.filterMap_cons_some hfault]
      refine ⟨fun e' he' => ?_, List.pairwise_cons.2 ⟨fun n hn => ?_, hordered⟩⟩
      · rcases List.mem_cons.1 he' with rfl | he'
        · exact ⟨by omega, hplain⟩
        · exact ⟨Nat.lt_of_succ_lt (hlater e' he').1, (hlater e' he').2⟩
      · obtain ⟨e', he', rfl⟩ := List.mem_map.1 hn
        rw [hline]
        exact (hlater e' he').1

end Layout

/-- **Unreadable lines are told in order, each with a headline of one line.** -/
theorem faults_readSource (source : String) :
    (∀ e ∈ (readSource source).faults, IsPlain e.headline) ∧
      ((readSource source).faults.map LexFault.line).Pairwise (· < ·) :=
  have h := Layout.faults_readLines {} (Text.lines source.toList)
  ⟨fun e he => (h.1 e he).2, h.2⟩

end Token
end Shank
