/-
# Every line is accounted for

A line of a source text is either told as unreadable, once, and gives no token;
or it is not told, and gives its tokens in the order of their columns (`IsRow`).

| tokens of a line | column |
| --- | --- |
| `INDENT`s, or `DEDENT`s | the first one |
| of its text | where they start, from left to right |
| one `ENDOFLINE` | just past the last character |

One line gives what it gives under its own number (`Layout.line_of_mem`), which
is the one after that of the line before. So what is told of a line, or given by
it, can be found by its number among all that the text gives
(`Layout.filter_readLines`).
-/

import Shank.Proofs.Token.Unreadable
import Shank.Token.Lexer

namespace Shank
namespace Token

/-! ## Columns

The column of a token is where it starts in its line. A piece takes at least a
character, so two tokens of a line never share a column, wherever the line
starts to be read.
-/

/-- Tokens of a text stand where they start in it, from left to right. What a
piece takes of the text is behind it. -/
theorem columns_scan (line column : Nat) (cs : List Char) :
    (∀ t ∈ (scan line column cs).1, column ≤ t.column ∧ t.column < column + cs.length) ∧
      ((scan line column cs).1.map Token.column).Pairwise (· < ·) := by
  induction column, cs using scan.induct line with
  | case1 column =>
    rw [scan]
    exact ⟨List.forall_mem_nil _, .nil⟩
  | case2 column c cs kind text more hpiece _ _ _ ih =>
    obtain ⟨hinside, hordered⟩ := ih
    rw [scan]
    simp only [hpiece]
    refine ⟨fun t ht => ?_, List.pairwise_cons.2 ⟨fun n hn => ?_, hordered⟩⟩
    · rcases List.mem_cons.1 ht with rfl | ht
      · exact ⟨Nat.le_refl _, Nat.lt_add_of_pos_right (Nat.succ_pos _)⟩
      · have hbound := hinside t ht
        rw [List.length_drop] at hbound
        rw [List.length_cons]
        omega
    · obtain ⟨t, ht, rfl⟩ := List.mem_map.1 hn
      have hbound := hinside t ht
      show column < t.column
      omega
  | case3 column c cs hpiece ih =>
    rw [scan]
    simp only [hpiece]
    refine ⟨fun t ht => ?_, ih.2⟩
    have hbound := ih.1 t ht
    rw [List.length_cons]
    omega
  | case4 column c cs more hpiece ih =>
    rw [scan]
    simp only [hpiece]
    refine ⟨fun t ht => ?_, ih.2⟩
    have hbound := ih.1 t ht
    rw [List.length_drop] at hbound
    rw [List.length_cons]
    omega
  | case5 column c cs more closed hpiece hclosed =>
    rw [scan]
    simp only [hpiece, hclosed]
    exact ⟨List.forall_mem_nil _, .nil⟩
  | case6 column c cs problem hpiece =>
    rw [scan]
    simp only [hpiece]
    exact ⟨List.forall_mem_nil _, .nil⟩

/-- The tokens of a line stand within the line, from left to right; no two of
them start at one column. A comment that the line starts in is skipped first,
which moves all of them. -/
theorem columns_scanLine (line : Nat) (inComment : Bool) (cs : List Char) :
    (∀ t ∈ (scanLine line inComment cs).1, 1 ≤ t.column ∧ t.column ≤ cs.length) ∧
      ((scanLine line inComment cs).1.map Token.column).Pairwise (· < ·) := by
  unfold scanLine
  split
  · dsimp only
    split
    · obtain ⟨hinside, hordered⟩ := columns_scan line (1 + (commentEnd cs).1)
        (cs.drop (commentEnd cs).1)
      refine ⟨fun t ht => ?_, hordered⟩
      have hbound := hinside t ht
      rw [List.length_drop] at hbound
      omega
    · exact ⟨List.forall_mem_nil _, .nil⟩
  · obtain ⟨hinside, hordered⟩ := columns_scan line 1 cs
    refine ⟨fun t ht => ?_, hordered⟩
    have hbound := hinside t ht
    omega

/-! ## One line

A line that can be read gives its levels, then the tokens of its text, then its
end, each no further to the left than the one before. A line that cannot be read
gives none of these.
-/

/-- The order of tokens in a source text. -/
def NotBehind (t u : Token) : Prop :=
  t.line < u.line ∨ (t.line = u.line ∧ t.column ≤ u.column)

/-- What a line gives that can be read: `INDENT`s or `DEDENT`s, the tokens of
its text from left to right, and its end just past the last of its characters. -/
def IsRow (line length : Nat) (ts : List Token) : Prop :=
  ∃ kind ∈ [Kind.indent, Kind.dedent], ∃ n content,
    ts = List.replicate n ⟨kind, "", line, 1⟩ ++ content ++ [⟨.endOfLine, "", line, length + 1⟩] ∧
      (∀ t ∈ content, t.IsContent line ∧ 1 ≤ t.column ∧ t.column ≤ length) ∧
      (content.map Token.column).Pairwise (· < ·)

namespace IsRow

variable {line length : Nat} {ts : List Token}

/-- All tokens of a row have the number of its line. -/
theorem line_eq (h : IsRow line length ts) {t : Token} (ht : t ∈ ts) : t.line = line := by
  obtain ⟨kind, -, n, content, rfl, hcontent, -⟩ := h
  rcases List.mem_append.1 ht with ht | ht
  · rcases List.mem_append.1 ht with ht | ht
    · rw [(List.mem_replicate.1 ht).2]
    · exact (hcontent t ht).1.line_eq
  · rw [List.mem_singleton.1 ht]

/-- A row has one end, which is its last token. -/
theorem endOfLine_iff (h : IsRow line length ts) :
    ts.filter (·.kind = .endOfLine) = [⟨.endOfLine, "", line, length + 1⟩] ∧
      ts.getLast? = some ⟨.endOfLine, "", line, length + 1⟩ := by
  obtain ⟨kind, hkind, n, content, rfl, hcontent, -⟩ := h
  refine ⟨?_, List.getLast?_concat⟩
  have hlead : (List.replicate n (⟨kind, "", line, 1⟩ : Token)).filter (·.kind = .endOfLine) = [] := by
    refine List.filter_eq_nil_iff.2 fun t ht => ?_
    rw [(List.mem_replicate.1 ht).2, decide_eq_true_eq]
    exact fun he : kind = .endOfLine => absurd (he ▸ hkind) (by decide)
  have hinside : content.filter (·.kind = .endOfLine) = [] := by
    refine List.filter_eq_nil_iff.2 fun t ht he => (hcontent t ht).1.kind ?_
    rw [of_decide_eq_true he]
    decide
  rw [List.filter_append, List.filter_append, hlead, hinside]
  rfl

/-- The tokens of a row stand in the order of the text: the columns grow, except
among the levels in front, which share the first one. -/
theorem ordered (h : IsRow line length ts) : ts.Pairwise NotBehind := by
  obtain ⟨kind, -, n, content, rfl, hcontent, hcolumns⟩ := h
  have hinside : content.Pairwise NotBehind :=
    (List.pairwise_map.1 hcolumns).imp_of_mem fun ht hu hlt =>
      .inr ⟨(hcontent _ ht).1.line_eq.trans (hcontent _ hu).1.line_eq.symm, hlt.le⟩
  refine List.pairwise_append.2 ⟨List.pairwise_append.2 ⟨?_, hinside, fun t ht u hu => ?_⟩,
    List.pairwise_singleton .., fun t ht u hu => ?_⟩
  · exact List.pairwise_replicate.2 (.inr (.inr ⟨rfl, Nat.le_refl _⟩))
  · rw [(List.mem_replicate.1 ht).2]
    exact .inr ⟨(hcontent u hu).1.line_eq.symm, (hcontent u hu).2.1⟩
  · rw [List.mem_singleton.1 hu]
    rcases List.mem_append.1 ht with ht | ht
    · rw [(List.mem_replicate.1 ht).2]
      exact .inr ⟨rfl, Nat.le_add_left ..⟩
    · exact .inr ⟨(hcontent t ht).1.line_eq, (hcontent t ht).2.2.trans (Nat.le_succ _)⟩

end IsRow

namespace Layout

/-- Levels are opened, or closed. -/
theorem step_eq_replicate (line depth depth' : Nat) : ∃ kind ∈ [Kind.indent, Kind.dedent], ∃ n,
    step line depth depth' = List.replicate n ⟨kind, "", line, 1⟩ := by
  rw [step]
  rcases Nat.le_total depth depth' with h | h
  · refine ⟨.indent, by decide, depth' - depth, ?_⟩
    rw [Nat.sub_eq_zero_of_le h, List.replicate_zero, List.append_nil]
  · refine ⟨.dedent, by decide, depth - depth', ?_⟩
    rw [Nat.sub_eq_zero_of_le h, List.replicate_zero, List.nil_append]

/-- **A line is told, and leaves tokens and depth as they were; or it gives its
row.** -/
theorem readLine_accounted (s : Layout) (raw : List Char) :
    (∃ e, (s.readLine raw).fault = some e ∧ e.line = s.line + 1 ∧ (s.readLine raw).added = [] ∧
      (s.readLine raw).next.depth = s.depth) ∨
    ((s.readLine raw).fault = none ∧
      IsRow (s.line + 1) (Text.chomp raw).length (s.readLine raw).added) := by
  have hcolumns := columns_scanLine (s.line + 1) s.inComment (Text.chomp raw)
  refine s.readLine_elim raw (fun _ _ _ _ => .inl ⟨_, rfl, rfl, rfl, rfl⟩)
    fun content _ depth hscan hcontent _ => .inr ?_
  rw [hscan] at hcolumns
  obtain ⟨kind, hkind, n, hstep⟩ := step_eq_replicate (s.line + 1) s.depth depth
  rw [hstep]
  exact ⟨rfl, kind, hkind, n, content, rfl,
    fun t ht => ⟨hcontent t ht, hcolumns.1 t ht⟩, hcolumns.2⟩

/-! ## All lines

Each line has the number after that of the line before, be it read or not. So
numbers keep the lines apart, and what is given under one of them was given by
that line.
-/

/-- Every line counts, be it read or not. -/
theorem line_before (s : Layout) (ls : List (List Char)) :
    (s.before ls).line = s.line + ls.length := by
  induction ls generalizing s with
  | nil => rfl
  | cons raw rest ih =>
    rw [before, List.foldl_cons, ← before, ih, line_readLine, List.length_cons]
    omega

/-- What is carried behind lines is what is carried to the next one. -/
theorem after_readLines (s : Layout) (ls : List (List Char)) :
    s.after (readLines s ls) = s.before ls := by
  induction ls generalizing s with
  | nil => rfl
  | cons raw rest ih => rw [readLines, after_cons, ih, before, before, List.foldl_cons]

section Numbered

variable {α : Type} (give : LineReport → List α) {number : α → Nat}

/-- What lines give stands under one of their numbers. -/
theorem line_of_mem (hgive : ∀ s raw, ∀ a ∈ give (readLine s raw), number a = s.line + 1)
    {s : Layout} {ls : List (List Char)} {a : α} (ha : a ∈ (readLines s ls).flatMap give) :
    s.line < number a ∧ number a ≤ s.line + ls.length := by
  induction ls generalizing s with
  | nil => cases ha
  | cons raw rest ih =>
    rw [readLines, List.flatMap_cons] at ha
    rw [List.length_cons]
    rcases List.mem_append.1 ha with ha | ha
    · rw [hgive s raw a ha]
      omega
    · have hbound := ih ha
      rw [line_readLine] at hbound
      omega

/-- **What one of the lines gives is what stands under its number.** -/
theorem filter_readLines (hgive : ∀ s raw, ∀ a ∈ give (readLine s raw), number a = s.line + 1)
    {s : Layout} {ls : List (List Char)} {k : Nat} {raw : List Char} (hk : ls[k]? = some raw) :
    ((readLines s ls).flatMap give).filter (number · = s.line + k + 1) =
      give ((s.before (ls.take k)).readLine raw) := by
  induction ls generalizing s k with
  | nil => cases hk
  | cons raw' rest ih =>
    rw [readLines, List.flatMap_cons, List.filter_append]
    cases k with
    | zero =>
      obtain rfl := Option.some.inj hk
      have hhere : (give (s.readLine raw')).filter (number · = s.line + 0 + 1) =
          give (s.readLine raw') :=
        List.filter_eq_self.2 fun a ha => decide_eq_true (hgive s raw' a ha)
      -- later lines have greater numbers
      have hlater : ((readLines (s.readLine raw').next rest).flatMap give).filter
          (number · = s.line + 0 + 1) = [] := by
        refine List.filter_eq_nil_iff.2 fun a ha he => ?_
        have hbound := (line_of_mem give hgive ha).1
        rw [line_readLine, of_decide_eq_true he] at hbound
        omega
      rw [hhere, hlater, List.append_nil]
      rfl
    -- the line is one of the others, and the first one has another number
    | succ k =>
      have hhere : (give (s.readLine raw')).filter (number · = s.line + (k + 1) + 1) = [] := by
        refine List.filter_eq_nil_iff.2 fun a ha he => ?_
        have hnumber := hgive s raw' a ha
        rw [of_decide_eq_true he] at hnumber
        omega
      have hrest := ih (s := (s.readLine raw').next) (k := k) hk
      rw [line_readLine, Nat.add_right_comm s.line 1 k, Nat.add_assoc s.line k 1] at hrest
      rw [hhere, List.nil_append, hrest]
      rfl

end Numbered

/-- The tokens that a line gives have its number. -/
theorem line_added (s : Layout) (raw : List Char) :
    ∀ t ∈ (s.readLine raw).added, t.line = s.line + 1 := by
  intro t ht
  rcases s.readLine_accounted raw with ⟨e, -, -, hadded, -⟩ | ⟨-, hrow⟩
  · rw [hadded] at ht
    cases ht
  · exact hrow.line_eq ht

/-- What is told of a line that cannot be read has its number. -/
theorem line_fault (s : Layout) (raw : List Char) :
    ∀ e ∈ (s.readLine raw).fault.toList, e.line = s.line + 1 := fun _ he =>
  (fault_readLine (Option.mem_toList.1 he)).1

/-- Tokens are given in the order of the text. -/
theorem ordered_readLines (s : Layout) (ls : List (List Char)) :
    ((readLines s ls).flatMap LineReport.added).Pairwise NotBehind := by
  induction ls generalizing s with
  | nil => exact .nil
  | cons raw rest ih =>
    rw [readLines, List.flatMap_cons]
    refine List.pairwise_append.2 ⟨?_, ih _, fun t ht u hu => .inl ?_⟩
    · rcases s.readLine_accounted raw with ⟨e, -, -, hadded, -⟩ | ⟨-, hrow⟩
      · rw [hadded]
        exact .nil
      · exact hrow.ordered
    · have hbound := (line_of_mem LineReport.added line_added hu).1
      rw [line_readLine] at hbound
      rw [line_added s raw t ht]
      exact hbound

end Layout

/-! ## The source text

A source text gives what its lines give, and behind them the tokens that close
the levels still open. These stand one line below the last, so they too keep the
order.
-/

/-- The tokens of a line. -/
def ofLine (ts : List Token) (line : Nat) : List Token :=
  ts.filter (·.line = line)

namespace Reading

variable {source : String} {k : Nat} {raw : List Char}

/-- The line that the open levels are closed on is the one below the last. -/
theorem closing_readSource (source : String) :
    (readSource source).last.closing = List.replicate (readSource source).last.depth
      ⟨.dedent, "", (Text.lines source.toList).length + 1, 1⟩ := by
  have hline : (readSource source).last.line = (Text.lines source.toList).length := by
    rw [last, readSource, Layout.after_readLines, Layout.line_before]
    exact Nat.zero_add _
  rw [Layout.closing, Layout.step, hline, Nat.zero_sub, List.replicate_zero, List.nil_append,
    Nat.sub_zero]

/-- The tokens that lines give have the number of a line of the text; only those
that close what is left open stand below. -/
theorem line_reports {t : Token} (ht : t ∈ (readSource source).reports.flatMap LineReport.added) :
    1 ≤ t.line ∧ t.line ≤ (Text.lines source.toList).length := by
  have hbound := Layout.line_of_mem LineReport.added Layout.line_added ht
  rw [show ({} : Layout).line = 0 from rfl, Nat.zero_add] at hbound
  exact hbound

/-- The tokens of a line of the text are those that it gave. -/
theorem ofLine_tokens (hk : (Text.lines source.toList)[k]? = some raw) :
    ofLine (readSource source).tokens (k + 1) =
      ((Layout.atLine source (k + 1)).readLine raw).added := by
  have hclosing : ((readSource source).last.closing).filter (·.line = k + 1) = [] := by
    rw [closing_readSource]
    refine List.filter_eq_nil_iff.2 fun t ht he => ?_
    rw [(List.mem_replicate.1 ht).2] at he
    have hlt := (List.getElem?_eq_some_iff.1 hk).1
    have := of_decide_eq_true he
    dsimp only at this
    omega
  rw [ofLine, tokens, List.filter_append, hclosing, List.append_nil]
  have hgiven := Layout.filter_readLines LineReport.added (s := {}) Layout.line_added hk
  rw [show ({} : Layout).line = 0 from rfl, Nat.zero_add] at hgiven
  exact hgiven

/-- What is told of a line of the text is its own. -/
theorem faults_ofLine (hk : (Text.lines source.toList)[k]? = some raw) :
    (readSource source).faults.filter (·.line = k + 1) =
      ((Layout.atLine source (k + 1)).readLine raw).fault.toList := by
  have hgiven := Layout.filter_readLines (fun r => r.fault.toList) (s := {}) Layout.line_fault
    hk
  rw [show ({} : Layout).line = 0 from rfl, Nat.zero_add] at hgiven
  rw [faults, List.filterMap_eq_flatMap_toList]
  exact hgiven

/-- What is carried to a line counts those before it. -/
theorem line_atLine (hk : (Text.lines source.toList)[k]? = some raw) :
    (Layout.atLine source (k + 1)).line = k := by
  have hlt := (List.getElem?_eq_some_iff.1 hk).1
  rw [Layout.atLine, Layout.line_before, Nat.add_sub_cancel, List.length_take, Nat.min_eq_left hlt.le]
  exact Nat.zero_add _

/-- **The tokens of a source text stand in the order of the text**, those that
close it at the end included. -/
theorem ordered_tokens (source : String) : (readSource source).tokens.Pairwise NotBehind := by
  refine List.pairwise_append.2 ⟨Layout.ordered_readLines .., ?_, fun t ht u hu => .inl ?_⟩
  · rw [closing_readSource]
    exact List.pairwise_replicate.2 (.inr (.inr ⟨rfl, Nat.le_refl _⟩))
  · rw [closing_readSource] at hu
    rw [(List.mem_replicate.1 hu).2]
    exact Nat.lt_succ_of_le (line_reports ht).2

/-- What is told of unreadable lines has the number of a line of the text. -/
theorem line_faults {e : LexFault} (he : e ∈ (readSource source).faults) :
    1 ≤ e.line ∧ e.line ≤ (Text.lines source.toList).length := by
  rw [faults, List.filterMap_eq_flatMap_toList] at he
  have hbound := Layout.line_of_mem (fun r => r.fault.toList) Layout.line_fault he
  rw [show ({} : Layout).line = 0 from rfl, Nat.zero_add] at hbound
  exact hbound

end Reading

/-- **Every line is accounted for.** A line is told as unreadable, once, and
gives no token; or it is not told, and gives its row, whose only end is its last
token. What is told is told in the order of the lines, and the tokens stand in
the order of lines and columns; the levels still open are closed one line below
the last, and no token stands anywhere else. A line that cannot be read leaves
tokens and depth as they were. -/
theorem lines_accounted (source : String) :
    let ls := Text.lines source.toList
    let r := readSource source
    (∀ k raw, ls[k]? = some raw → Xor
      ((∃ e, r.faults.filter (·.line = k + 1) = [e]) ∧ ofLine r.tokens (k + 1) = [])
      (r.faults.filter (·.line = k + 1) = [] ∧
        IsRow (k + 1) (Text.chomp raw).length (ofLine r.tokens (k + 1)) ∧
        (ofLine r.tokens (k + 1)).filter (·.kind = .endOfLine) =
          [⟨.endOfLine, "", k + 1, (Text.chomp raw).length + 1⟩] ∧
        (ofLine r.tokens (k + 1)).getLast? =
          some ⟨.endOfLine, "", k + 1, (Text.chomp raw).length + 1⟩)) ∧
    ((r.faults.map LexFault.line).Pairwise (· < ·) ∧ ∀ e ∈ r.faults, 1 ≤ e.line ∧ e.line ≤ ls.length) ∧
    r.tokens.Pairwise NotBehind ∧
    (r.tokens = r.reports.flatMap LineReport.added ++
        List.replicate r.last.depth ⟨.dedent, "", ls.length + 1, 1⟩ ∧
      ∀ t ∈ r.reports.flatMap LineReport.added, 1 ≤ t.line ∧ t.line ≤ ls.length) ∧
    ∀ (s : Lexer) (raw : List Char) (e : LexFault), (s.layout.readLine raw).fault = some e →
      (s.step (.lex raw)).tokens = s.tokens ∧
        (s.step (.lex raw)).layout.depth = s.layout.depth := by
  intro ls r
  refine ⟨fun k raw hk => ?_, ⟨(faults_readSource source).2, fun e he => Reading.line_faults he⟩,
    Reading.ordered_tokens source, ⟨?_, fun t ht => Reading.line_reports ht⟩, fun s raw e he => ?_⟩
  -- the line is read in the state that those before it led to
  · have haccounted := (Layout.atLine source (k + 1)).readLine_accounted raw
    rw [Reading.line_atLine hk] at haccounted
    rw [Reading.ofLine_tokens hk, Reading.faults_ofLine hk]
    rcases haccounted with ⟨e, hfault, -, hadded, -⟩ | ⟨hfault, hrow⟩
    · rw [hfault, hadded]
      exact .inl ⟨⟨⟨e, rfl⟩, rfl⟩, fun h => List.cons_ne_nil _ _ h.1⟩
    · rw [hfault]
      exact .inr ⟨⟨rfl, hrow, hrow.endOfLine_iff⟩, fun ⟨⟨_, h⟩, _⟩ => nomatch h⟩
  · rw [← Reading.closing_readSource]
    rfl
  · rcases s.layout.readLine_accounted raw with ⟨_, -, -, hadded, hdepth⟩ | ⟨hfault, -⟩
    · refine ⟨?_, hdepth⟩
      rw [Lexer.step, hadded, List.append_nil]
    · rw [hfault] at he
      cases he

/-- The hypotheses of `lines_accounted` are satisfiable: the second line starts
inside a comment and is read, the third one cannot be read, and leaves a lexer
as it was. -/
theorem lines_accounted_comment :
    let r := readSource "\tx \x7b a\nb \x7d\n\t$\ny"
    ofLine r.tokens 2 = [⟨.endOfLine, "", 2, 4⟩] ∧
    ((∃ e, r.faults.filter (·.line = 3) = [e]) ∧ ofLine r.tokens 3 = []) ∧
    ((Lexer.mk ⟨2, 1, false⟩ []).step (.lex "\t$".toList)).layout.depth = 1 := by
  intro r
  obtain ⟨hlines, -, -, -, hkept⟩ := lines_accounted "\tx \x7b a\nb \x7d\n\t$\ny"
  have hread : r.faults.filter (·.line = 2) = [] := by decide +kernel
  have htold : r.faults.filter (·.line = 3) ≠ [] := by decide +kernel
  refine ⟨?_, ?_, (hkept ⟨⟨2, 1, false⟩, []⟩ "\t$".toList
    ⟨.unknownCharacter '$', 3, 2, "\t$"⟩ (by decide +kernel)).2⟩
  · obtain ⟨⟨⟨e, he⟩, -⟩, -⟩ | ⟨⟨-, -, hend, -⟩, -⟩ := hlines 1 "b \x7d".toList (by decide +kernel)
    · exact absurd (he.symm.trans hread) (List.cons_ne_nil _ _)
    · have hall : (ofLine r.tokens 2).filter (·.kind = .endOfLine) = ofLine r.tokens 2 := by
        decide +kernel
      exact hall.symm.trans hend
  · obtain ⟨h, -⟩ | ⟨⟨h, -⟩, -⟩ := hlines 2 "\t$".toList (by decide +kernel)
    · exact h
    · exact absurd h htold

end Token
end Shank
