/-
# Lines identify statements

A line of a source text holds at most one heading, and this is all that is
written on it (`Heading.Stands`). All nodes of the heading have the number of
this line, so a number tells a statement from all others.

| nodes | line |
| --- | --- |
| a function, its parameters | of its `define` |
| declared constants with their literals, declared variables | of the list they stand in |
| a statement with its target, arguments, bounds, condition, and all inside of them | of its first token |
| a branch with its condition | of its own word |

Comments that go on over the end of a line do not change this: the line they end
on is read from there on, with the tokens it has.

Main statement: `Program.lines_identify`. A fault that a run ends with has the
line of a statement of the function it happened in (`Fault.Located`), so it
names one statement of the text.
-/

import Shank.Proofs.Definitions
import Shank.Proofs.Parse.LineByLine
import Shank.Proofs.Run.CallStack
import Shank.Proofs.Token.Accounting

namespace Shank

open Token

variable {source : String} {l : Nat}

/-! ## The tokens of a text come line by line

A line that is read gives a row, which ends with the end of the line and holds
no other. Lines that are told give nothing, and lines without tokens a line end.
-/

namespace Token

/-- A row ends its line, and holds no other end. -/
theorem IsRow.lineByLine {line length : Nat} {ts : List Token} (h : IsRow line length ts) :
    LineByLine ts := by
  have hline : ∀ t ∈ ts, t.line = line := fun t ht => h.line_eq ht
  obtain ⟨kind, hkind, n, content, rfl, hcontent, -⟩ := h
  generalize hlead : List.replicate n (⟨kind, "", line, 1⟩ : Token) ++ content = lead at hline ⊢
  have hinside : ∀ t ∈ lead, t.kind ≠ .endOfLine := by
    intro t ht
    rw [← hlead] at ht
    rcases List.mem_append.1 ht with ht | ht
    · rw [(List.mem_replicate.1 ht).2]
      rintro rfl
      exact absurd hkind (by decide)
    · intro he
      exact (hcontent t ht).1.kind (by rw [he]; decide)
  -- only the last token ends the line, and all of them are on it
  have hnext : ∀ t ∈ lead, ∀ u ∈ lead ++ [⟨.endOfLine, "", line, length + 1⟩], t.Next u := by
    intro t ht u hu
    rw [Token.Next, if_neg (hinside t ht), hline u hu, hline t (List.mem_append_left _ ht)]
  refine List.Pairwise.isChain (List.pairwise_append.2 ⟨?_, List.pairwise_singleton .., ?_⟩)
  · exact List.pairwise_of_forall_mem_list fun t ht u hu => hnext t ht u (List.mem_append_left _ hu)
  · exact fun t ht u hu => hnext t ht u (List.mem_append_right _ hu)

/-- Lines give rows, and each row is on a later line than the one before. -/
theorem Layout.lineByLine_readLines {tail : List Token} (htail : LineByLine tail) (s : Layout)
    (ls : List (List Char)) (hlater : ∀ t ∈ tail, s.line + ls.length < t.line) :
    LineByLine ((readLines s ls).flatMap LineReport.added ++ tail) := by
  induction ls generalizing s with
  | nil => exact htail
  | cons raw rest ih =>
    rw [List.length_cons] at hlater
    have hrest := ih (s.readLine raw).next fun t ht => by
      have := hlater t ht
      rw [line_readLine]
      omega
    rw [readLines, List.flatMap_cons, List.append_assoc]
    rcases s.readLine_accounted raw with ⟨e, -, -, hadded, -⟩ | ⟨-, hrow⟩
    · rw [hadded]
      exact hrest
    · refine List.isChain_append.2 ⟨hrow.lineByLine, hrest, fun t ht u hu => ?_⟩
      rw [hrow.endOfLine_iff.2] at ht
      obtain rfl := Option.some.inj ht
      rw [Token.Next, if_pos rfl]
      rcases List.mem_append.1 (List.mem_of_mem_head? hu) with hu | hu
      · have hbound := (line_of_mem LineReport.added line_added hu).1
        rwa [line_readLine] at hbound
      · have := hlater u hu
        dsimp only
        omega

/-- **The tokens of a text come line by line**: up to an `ENDOFLINE` they have
one number, and behind it a larger one. -/
theorem lineByLine_readSource (source : String) : LineByLine (readSource source).tokens := by
  refine Layout.lineByLine_readLines ?_ {} _ fun t ht => ?_
  · rw [Reading.closing_readSource]
    exact List.Pairwise.isChain (List.pairwise_replicate.2 (.inr rfl))
  · rw [Reading.closing_readSource] at ht
    rw [(List.mem_replicate.1 ht).2]
    show 0 + (Text.lines source.toList).length < (Text.lines source.toList).length + 1
    omega

/-! ## What is written on a line of a text

What the tokens of a line say is what its characters say, since a line is read
by itself once it is known whether a comment is open.
-/

/-- A line that adds something adds the tokens of its text; all else that it
adds is layout. -/
theorem Layout.content_added (s : Layout) (raw : List Char) :
    (s.readLine raw).added = [] ∨ contentOf (s.readLine raw).added (s.line + 1) =
      (scanLine (s.line + 1) s.inComment (Text.chomp raw)).1 := by
  refine s.readLine_elim raw (fun _ _ _ _ => .inl rfl) fun content _ _ hscan hcontent _ => .inr ?_
  rw [hscan, List.append_assoc, contentOf_row (fun t ht => isLayout_step ht) rfl,
    contentOf_eq_self (fun t ht => (hcontent t ht).line_eq) fun t ht => (hcontent t ht).kind]
  exact List.append_nil _

/-- What is written on a line is written in the tokens of this line. -/
theorem contentOf_ofLine {ts : List Token} : contentOf (ofLine ts l) l = contentOf ts l := by
  rw [contentOf, contentOf, ofLine, List.filter_filter]
  refine List.filter_congr fun t _ => ?_
  by_cases h : t.line = l <;> simp [h]

/-- What is on a line of the text is what its characters say, or nothing. -/
theorem content_readSource {t : Token} (ht : t ∈ contentOf (readSource source).tokens l) :
    ∃ raw, 0 < l ∧ (Text.lines source.toList)[l - 1]? = some raw ∧
      contentOf (readSource source).tokens l =
        (scanLine l (Layout.atLine source l).inComment (Text.chomp raw)).1 := by
  obtain ⟨htokens, hmem⟩ := List.mem_filter.1 ht
  obtain ⟨rfl, hkind⟩ := of_decide_eq_true hmem
  obtain ⟨i, hi⟩ := List.getElem?_of_mem htokens
  obtain ⟨raw, hpositive, hraw, -, -⟩ := balance_take_readSource hi hkind
  obtain ⟨k, hk⟩ : ∃ k, t.line = k + 1 := ⟨t.line - 1, by omega⟩
  rw [hk] at ht hpositive hraw ⊢
  rw [Nat.add_sub_cancel] at hraw
  refine ⟨raw, hpositive, hraw, ?_⟩
  have hsame : contentOf (readSource source).tokens (k + 1) =
      contentOf ((Layout.atLine source (k + 1)).readLine raw).added (k + 1) := by
    rw [← Reading.ofLine_tokens hraw, contentOf_ofLine]
  rcases (Layout.atLine source (k + 1)).content_added raw with hnone | hcontent
  · rw [hsame, hnone] at ht
    cases ht
  · rw [Reading.line_atLine hraw] at hcontent
    rw [hsame, hcontent]

end Token

/-- A heading is what is written on a line of a source text, the first one being
line 1. -/
def Heading.Stands (source : String) (l : Nat) (h : Heading) : Prop :=
  ∃ raw, 0 < l ∧ (Text.lines source.toList)[l - 1]? = some raw ∧
    h.Written (scanLine l (Layout.atLine source l).inComment (Text.chomp raw)).1

/-- A heading that is written in the tokens of a text stands on a line of it. -/
theorem Heading.Written.stands {h : Heading} (hw : h.Written (contentOf (readSource source).tokens l)) :
    h.Stands source l := by
  obtain ⟨t, ht⟩ := List.exists_mem_of_ne_nil _ hw.ne_nil
  obtain ⟨raw, hpositive, hraw, hcontent⟩ := content_readSource ht
  exact ⟨raw, hpositive, hraw, hcontent ▸ hw⟩

/-! ## Statements of a program

No two headings share a line, so the line of a statement finds it among all
statements that were parsed, those of replaced functions included.
-/

/-- Where no two statements share a line, the line of a statement finds this one
alone. -/
theorem filter_line_eq {ss : List Stmt} (h : (ss.map Stmt.line).Nodup) {s : Stmt} (hs : s ∈ ss) :
    ss.filter (·.line = s.line) = [s] := by
  induction ss with
  | nil => cases hs
  | cons a rest ih =>
    obtain ⟨hfirst, hrest⟩ := List.nodup_cons.1 h
    have hother : ∀ t ∈ rest, a.line ≠ t.line := fun t ht he =>
      hfirst (he ▸ List.mem_map_of_mem ht)
    rcases List.mem_cons.1 hs with rfl | hs
    · rw [List.filter_cons_of_pos (by simp), List.filter_eq_nil_iff.2]
      exact fun t ht he => hother t ht (of_decide_eq_true he).symm
    · rw [List.filter_cons_of_neg (by simpa using hother s hs)]
      exact ih hrest hs

namespace Function

variable {fs : List Function} {f g : Function}

/-- The statements of functions that have a line. -/
def statementsOn (fs : List Function) (l : Nat) : List Stmt :=
  ((fs.flatMap nodes).map Prod.snd).filter (·.line = l)

/-- Functions whose lines grow, also from one to the next, have no line in
common. -/
theorem lineNumbers_disjoint (h : (fs.flatMap Function.lineNumbers).Pairwise (· < ·)) (hf : f ∈ fs)
    (hg : g ∈ fs) (hne : f ≠ g) : ∀ k ∈ f.lineNumbers, ∀ k' ∈ g.lineNumbers, k ≠ k' := by
  have hpairs : fs.Pairwise fun f g => ∀ k ∈ f.lineNumbers, ∀ k' ∈ g.lineNumbers, k ≠ k' :=
    (List.pairwise_flatMap.1 h).2.imp fun hlt k hk k' hk' => (hlt k hk k' hk').ne
  have : Std.Symm fun f g : Function => ∀ k ∈ f.lineNumbers, ∀ k' ∈ g.lineNumbers, k ≠ k' :=
    ⟨fun _ _ hfg k hk k' hk' he => hfg k' hk' k hk he.symm⟩
  exact hpairs.forall hf hg hne

/-- A statement of one of them is the only one of all of them that has its line. -/
theorem statementsOn_eq (h : (fs.flatMap lineNumbers).Pairwise (· < ·)) (hf : f ∈ fs) {n : Nat × Stmt}
    (hn : n ∈ f.nodes) : statementsOn fs n.2.line = [n.2] := by
  refine filter_line_eq ?_ (List.mem_map_of_mem (List.mem_flatMap.2 ⟨f, hf, hn⟩))
  obtain ⟨hinside, hbetween⟩ := List.pairwise_flatMap.1 h
  rw [List.map_map, List.map_flatMap]
  refine List.pairwise_flatMap.2 ⟨fun f hf => ?_, hbetween.imp fun hlt k hk k' hk' => ?_⟩
  · exact (hinside f hf).of_cons.imp Nat.ne_of_lt
  · exact (hlt k (List.mem_cons_of_mem _ hk) k' (List.mem_cons_of_mem _ hk')).ne

end Function

/-- **Lines identify statements.** What is parsed from a source text is made of
headings. Each stands alone on one line of the text, and has the number of this
line in all of its nodes. The lines of the statements of a function, in order,
grow from its own line on, and no statement of another function of the program
has one of them. So where a fault that a run of the program ends with has a
line, just one statement of all that were parsed has it: it belongs to the
innermost function of the fault, and stands on this line of the text. -/
theorem Program.lines_identify {source : String} {room : Nat} {p : Program}
    (h : (Parsing.ofTokens (readSource source).tokens room).program = .ok p) :
    (∀ f ∈ p.functions, ∃ hs, f.Headed hs ∧ ∀ h ∈ hs, ∃ l, h.Stands source l ∧ h.OnLine l) ∧
    (∀ f ∈ p.functions, (f.line :: f.nodes.map fun n => n.2.line).Pairwise (· < ·)) ∧
    (∀ f ∈ p.functions, ∀ g ∈ p.functions, f ≠ g → ∀ n ∈ f.nodes, ∀ n' ∈ g.nodes,
      n.2.line ≠ n'.2.line) ∧
    ∀ entry limits m e l, (p.runOn entry limits m).halt = some (.fault e) → e.line = some l →
      ∃ f ∈ p.functions, e.frames.head? = some f.name ∧ ∃ n ∈ f.nodes,
        Function.statementsOn (Parsing.ofTokens (readSource source).tokens room).functions l = [n.2] ∧
          (Heading.statement n.2).Stands source l := by
  obtain ⟨hhalt, -, hp⟩ := Parsing.program_ok h
  have hmem : ∀ f ∈ p.functions, f ∈ (Parsing.ofTokens (readSource source).tokens room).functions := by
    intro f hf
    rw [hp] at hf
    exact Program.mem_ofList hf
  obtain ⟨hheaded, hgrow⟩ := Parsing.headings_lines hhalt (lineByLine_readSource source)
  have hheadings : ∀ f ∈ p.functions, ∃ hs, f.Headed hs ∧
      ∀ h ∈ hs, ∃ l, h.Stands source l ∧ h.OnLine l := by
    intro f hf
    obtain ⟨hs, hhs, hall⟩ := hheaded f (hmem f hf)
    refine ⟨hs, hhs, fun h hh => ?_⟩
    obtain ⟨l, hwritten, hon⟩ := hall h hh
    exact ⟨l, hwritten.stands, hon⟩
  refine ⟨hheadings, fun f hf => ?_, fun f hf g hg hne n hn n' hn' => ?_, ?_⟩
  · exact (List.pairwise_flatMap.1 hgrow).1 f (hmem f hf)
  · exact Function.lineNumbers_disjoint hgrow (hmem f hf) (hmem g hg) hne _
      (List.mem_cons_of_mem _ (List.mem_map_of_mem hn)) _
      (List.mem_cons_of_mem _ (List.mem_map_of_mem hn'))
  · intro entry limits m e l he hl
    obtain ⟨limit, hlocated⟩ := Run.located_of_line (Outcome.error_of_halt he) hl
    obtain ⟨name, f, line, hframes, hfind, hline, d, s, hs, rfl⟩ := hlocated.line
    obtain rfl : s.line = l := Option.some.inj (hline.symm.trans hl)
    have hf : f ∈ p.functions := List.mem_of_find?_eq_some hfind
    have hname : f.name = name := by simpa using List.find?_some hfind
    have honly := Function.statementsOn_eq (n := (d, s)) hgrow (hmem f hf) hs
    refine ⟨f, hf, hname ▸ hframes, (d, s), hs, honly, ?_⟩
    obtain ⟨hs', hhs, hall⟩ := hheadings f hf
    obtain ⟨l, hstands, hon⟩ := hall _ (hhs.statement_mem hs)
    obtain rfl : s.line = l := Stmt.OnLine.line_eq hon
    exact hstands

/-- A source text with a comment that goes on over the end of a line, and a
division by zero in an `else`. -/
def branchingSource : String :=
  "define main() \x7b one\n two \x7d variables n : integer\n" ++
    "\tif n = 1 then\n\t\twrite 1\n\telse\n\t\tn := 1 / n\n"

/-- A function with an if chain of two branches, to have headings of most kinds. -/
def branchingFunction : Function :=
  ⟨1, "main", [], [.var ⟨2, "n", .scalar (.integer none), false⟩],
    [.ifChain 3 [
      .mk 3 (some (.comparison 3 .eq (.var 3 "n") (.literal 3 (.integer 1))))
        [.call 4 "write" [.value 4 (.literal 4 (.integer 1))]],
      .mk 5 none
        [.assign 6 ⟨6, "n", none⟩ (.arithmetic 6 .div (.literal 6 (.integer 1)) (.var 6 "n"))]]]⟩

/-- The hypotheses of `lines_identify` are satisfiable: the division fails on
line 6, and this is the line of the assignment only. -/
theorem Program.lines_identify_branching :
    let functions := (Parsing.ofTokens (readSource branchingSource).tokens).functions
    (Parsing.ofTokens (readSource branchingSource).tokens).program = .ok ⟨[branchingFunction]⟩ ∧
    ((⟨[branchingFunction]⟩ : Program).runOn "main" {} { steps := 9 }).halt =
      some (.fault ⟨.divisionByZero, some 6, ["main"]⟩) ∧
    (∃ n ∈ branchingFunction.nodes, Function.statementsOn functions 6 = [n.2] ∧
      (Heading.statement n.2).Stands branchingSource 6) ∧
    [1, 3, 4, 6].Pairwise (· < ·) := by
  intro functions
  have htokens : (readSource branchingSource).tokens =
      [⟨.define, "define", 1, 1⟩, ⟨.identifier, "main", 1, 8⟩, ⟨.openParen, "(", 1, 12⟩,
        ⟨.closeParen, ")", 1, 13⟩, ⟨.endOfLine, "", 1, 20⟩, ⟨.variables_, "variables", 2, 8⟩,
        ⟨.identifier, "n", 2, 18⟩, ⟨.colon, ":", 2, 20⟩, ⟨.integer, "integer", 2, 22⟩,
        ⟨.endOfLine, "", 2, 29⟩, ⟨.indent, "", 3, 1⟩, ⟨.if_, "if", 3, 2⟩, ⟨.identifier, "n", 3, 5⟩,
        ⟨.equals, "=", 3, 7⟩, ⟨.number, "1", 3, 9⟩, ⟨.then_, "then", 3, 11⟩,
        ⟨.endOfLine, "", 3, 15⟩, ⟨.indent, "", 4, 1⟩, ⟨.identifier, "write", 4, 3⟩,
        ⟨.number, "1", 4, 9⟩, ⟨.endOfLine, "", 4, 10⟩, ⟨.dedent, "", 5, 1⟩, ⟨.else_, "else", 5, 2⟩,
        ⟨.endOfLine, "", 5, 6⟩, ⟨.indent, "", 6, 1⟩, ⟨.identifier, "n", 6, 3⟩, ⟨.assigner, ":=", 6, 5⟩,
        ⟨.number, "1", 6, 8⟩, ⟨.divide, "/", 6, 10⟩, ⟨.identifier, "n", 6, 12⟩,
        ⟨.endOfLine, "", 6, 13⟩, ⟨.dedent, "", 7, 1⟩, ⟨.dedent, "", 7, 1⟩] := by decide +kernel
  have hparse : (Parsing.ofTokens (readSource branchingSource).tokens).program =
      .ok ⟨[branchingFunction]⟩ := by
    rw [htokens]
    rfl
  have hhalt : ((⟨[branchingFunction]⟩ : Program).runOn "main" {} { steps := 9 }).halt =
      some (.fault ⟨.divisionByZero, some 6, ["main"]⟩) := by decide +kernel
  obtain ⟨-, hgrow, -, hfault⟩ := lines_identify hparse
  obtain ⟨f, hf, -, hn⟩ := hfault "main" {} { steps := 9 } _ 6 hhalt rfl
  obtain rfl := List.mem_singleton.1 hf
  exact ⟨hparse, hhalt, hn, hgrow branchingFunction (List.mem_singleton_self _)⟩

end Shank
