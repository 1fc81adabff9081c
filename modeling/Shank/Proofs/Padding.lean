/-
# Padding has no meaning

Lines of white space and closed comments may be put between the lines of a
source text, wherever no comment is open. The text is then read without a fault
if it was before; it is parsed to the same program or the same fault, up to
lines; and the program does the same, up to the line of a fault.

| step | what padding changes |
| --- | --- |
| reading | lines and columns, and how many line ends follow on each other |
| parsing | lines: a line end is taken with all those behind it, wherever one may stand |
| running | the line that a fault is told with |
-/

import Shank.Proofs.Parse.Alike
import Shank.Proofs.Run.Bare
import Shank.Proofs.Token.Padding

namespace Shank
namespace Parse

open Token (condense)

/-- What is left of tokens behind their line ends, seen without places: line
ends in a row count as one. -/
theorem condense_pastLineEnds (ts : List Token) :
    condense false (pastLineEnds ts) = condense true ts := by
  induction ts with
  | nil => rfl
  | cons t ts ih =>
    by_cases ht : t.kind = .endOfLine
    · rw [pastLineEnds_cons ht, ih, condense, if_pos ht, if_pos rfl]
    · rw [pastLineEnds_of_ne ht, condense, if_neg ht, condense, if_neg ht]

/-- Streams that are left the same without their layout of lines. -/
def Coupling.condensed : Coupling where
  lines _ := 0
  Over _ := False
  Rel ts us := condense false ts = condense false us
  over_suffix _ h := h
  head {ts us} h := by
    rcases Token.condense_cases h with hnil | ⟨t, rest, u, rest', rfl, rfl, htu, hrest⟩
    · exact .inr (.inl hnil)
    · refine .inr (.inr (.inl ⟨t, rest, u, rest', rfl, rfl, htu, fun ht => ?_⟩))
      rwa [beq_eq_false_iff_ne.2 ht] at hrest
  lineEnds {ts us} h := by
    rw [condense_pastLineEnds, condense_pastLineEnds]
    rcases Token.condense_cases h with ⟨rfl, rfl⟩ | ⟨t, rest, u, rest', rfl, rfl, htu, hrest⟩
    · exact .inr rfl
    · rw [Token.condense_true_cons, Token.condense_true_cons, ← (Token.renumber_eq htu).1, h]
      split
      · rename_i ht
        rw [beq_iff_eq.2 ht] at hrest
        exact .inr hrest
      · exact .inr rfl

end Parse

/-- A halt without the place of its token. -/
def ParseHalt.bare (h : ParseHalt) : ParseHalt :=
  h.renumber fun _ => 0

/-- Two results of parsing that are the same up to lines: functions in the same
order that are the same, or the same fault, at a token of the same kind and
text. -/
inductive SameUpToLines : Except ParseHalt Program → Except ParseHalt Program → Prop
  | ok {p q : Program} (h : p.bare = q.bare) : SameUpToLines (.ok p) (.ok q)
  | error {h h' : ParseHalt} (hh : h.bare = h'.bare) : SameUpToLines (.error h) (.error h')

/-- A program of bare functions is bare. -/
theorem Program.bare_ofList (fs : List Function) : (ofList fs).bare = ofList (fs.map Function.bare) := by
  have hinsert (p : Program) (f : Function) : (p.insert f).bare = p.bare.insert f.bare := by
    have hcontains : p.bare.contains f.bare.name = p.contains f.name := by
      simp only [contains, bare, List.any_map]
      rfl
    have hreplace (g : Function) : (if g.name = f.name then f else g).bare =
        if g.bare.name = f.bare.name then f.bare else g.bare := apply_ite Function.bare _ _ _
    unfold insert
    rw [hcontains]
    split
    · simp only [bare, List.map_map, Function.comp_def, hreplace]
    · simp only [bare, List.map_append, List.map_cons, List.map_nil]
  have hfoldl (p : Program) (fs : List Function) :
      (fs.foldl insert p).bare = (fs.map Function.bare).foldl insert p.bare := by
    induction fs generalizing p with
    | nil => rfl
    | cons f rest ih => rw [List.foldl_cons, ih, hinsert, List.map_cons, List.foldl_cons]
  exact hfoldl {} fs

open Parse in
/-- **Tokens that are condensed to the same are parsed to the same**, up to
lines. -/
theorem Parsing.program_condensed {ts us : List Token}
    (h : Token.condense true ts = Token.condense true us) (room : Nat) :
    SameUpToLines (ofTokens ts room).program (ofTokens us room).program := by
  have hrel : Coupling.condensed.Rel (pastLineEnds ts) (pastLineEnds us) := by
    show Token.condense false _ = Token.condense false _
    rw [condense_pastLineEnds, condense_pastLineEnds, h]
  have hsame : Coupling.condensed.SameParsing (ofTokens ts room) (ofTokens us room) :=
    (Coupling.alike_functionsFrom room _ _ ⟨hrel, le_rfl, le_rfl⟩ 0).resolve_left id
  have hhalt := hsame.halt
  unfold program
  cases hts : (ofTokens ts room).halt with
  | some e =>
    rw [hts] at hhalt
    generalize (ofTokens us room).halt = halt' at hhalt
    cases hhalt with
    | some he => exact .error he
  | none =>
    rw [hts] at hhalt
    generalize (ofTokens us room).halt = halt' at hhalt
    cases hhalt
    dsimp only
    rw [← hsame.level hts]
    split
    · refine .ok ?_
      have hfunctions := Program.bare_eq_of_renumber hsame.functions
      rw [Program.bare_ofList, Program.bare_ofList, hfunctions]
    · exact .error rfl

open Token in
/-- **Padding has no meaning.** A source text that is read without a fault is so
with idle lines between its lines, but not where a comment is open. Then the
same comes of parsing both texts, within any room, up to lines. And their
programs do the same, from any entry, within any limits and on any machine: all
that is left behind is the same, what was written and reported among it, and so
is the end of the run but for the line that a fault is told with. -/
theorem Program.parse_padded (source padded : String) (hfaults : (readSource source).faults = [])
    (hpadded : Padded {} (Text.lines source.toList) (Text.lines padded.toList)) :
    (readSource padded).faults = [] ∧
    (∀ room, SameUpToLines (Parsing.ofTokens (readSource source).tokens room).program
      (Parsing.ofTokens (readSource padded).tokens room).program) ∧
    ∀ room p q, (Parsing.ofTokens (readSource source).tokens room).program = .ok p →
      (Parsing.ofTokens (readSource padded).tokens room).program = .ok q → ∀ entry limits m,
        (p.runOn entry limits m).bare = (q.runOn entry limits m).bare ∧
          (p.runOn entry limits m).output = (q.runOn entry limits m).output ∧
          (p.runOn entry limits m).reports = (q.runOn entry limits m).reports := by
  obtain ⟨hfaults', htokens⟩ := Layout.condense_tokensOf hpadded ⟨rfl, rfl⟩ hfaults
  have hsame (room : Nat) := Parsing.program_condensed htokens room
  refine ⟨hfaults', hsame, fun room p q hp hq entry limits m => ?_⟩
  have hbare : p.bare = q.bare := by
    have h : SameUpToLines (.ok p) (.ok q) := hp ▸ hq ▸ hsame room
    cases h with
    | ok h => exact h
  have hrun := Program.runOn_eq_of_bare hbare entry limits m
  have hevents : (p.runOn entry limits m).events = (q.runOn entry limits m).events := by
    rw [← Outcome.events_bare, hrun, Outcome.events_bare]
  exact ⟨hrun, congrArg outputOf hevents, congrArg reportsOf hevents⟩

/-- A text, and the same one with a comment between its lines and an empty line
at its end. -/
def plainSource : String :=
  "define main()\n\twrite 1\n"

/-- A source text with a line that holds nothing but a comment, and one that
holds nothing at all. -/
def paddedSource : String :=
  "define main()\n\x7b a \x7d \n\twrite 1\n\n"

open Token in
/-- The hypotheses of `parse_padded` are satisfiable: both texts are programs,
and their statements stand on the lines 2 and 3. -/
theorem Program.parse_padded_comment :
    (readSource plainSource).faults = [] ∧
    Padded {} (Text.lines plainSource.toList) (Text.lines paddedSource.toList) ∧
    (readSource paddedSource).faults = [] ∧
    ∃ p q, parse (readSource plainSource).tokens = .ok p ∧
      parse (readSource paddedSource).tokens = .ok q ∧
      p.functions.map Function.body = [[.call 2 "write" [.value 2 (.literal 2 (.integer 1))]]] ∧
      q.functions.map Function.body = [[.call 3 "write" [.value 3 (.literal 3 (.integer 1))]]] ∧
      ∀ input, (p.run "main" input).output = (q.run "main" input).output := by
  have hfaults : (readSource plainSource).faults = [] := by decide +kernel
  have hpadded : Padded {} (Text.lines plainSource.toList) (Text.lines paddedSource.toList) := by
    have hcomment : IsIdle "\x7b a \x7d ".toList :=
      @IsIdle.comment [' ', 'a', ' '] [' '] (by decide) (.blank (by decide) .nil)
    exact .line _ (.idle (by decide +kernel) hcomment
      (.line _ (.idle (by decide +kernel) .nil (.nil _))))
  have hall := parse_padded plainSource paddedSource hfaults hpadded
  have hplain : (readSource plainSource).tokens =
      [⟨.define, "define", 1, 1⟩, ⟨.identifier, "main", 1, 8⟩, ⟨.openParen, "(", 1, 12⟩,
        ⟨.closeParen, ")", 1, 13⟩, ⟨.endOfLine, "", 1, 14⟩, ⟨.indent, "", 2, 1⟩,
        ⟨.identifier, "write", 2, 2⟩, ⟨.number, "1", 2, 8⟩, ⟨.endOfLine, "", 2, 9⟩,
        ⟨.dedent, "", 3, 1⟩] := by decide +kernel
  have htokens : (readSource paddedSource).tokens =
      [⟨.define, "define", 1, 1⟩, ⟨.identifier, "main", 1, 8⟩, ⟨.openParen, "(", 1, 12⟩,
        ⟨.closeParen, ")", 1, 13⟩, ⟨.endOfLine, "", 1, 14⟩, ⟨.endOfLine, "", 2, 7⟩,
        ⟨.indent, "", 3, 1⟩, ⟨.identifier, "write", 3, 2⟩, ⟨.number, "1", 3, 8⟩,
        ⟨.endOfLine, "", 3, 9⟩, ⟨.endOfLine, "", 4, 1⟩, ⟨.dedent, "", 5, 1⟩] := by decide +kernel
  have hp : parse (readSource plainSource).tokens =
      .ok ⟨[⟨1, "main", [], [], [.call 2 "write" [.value 2 (.literal 2 (.integer 1))]]⟩]⟩ := by
    rw [hplain]
    rfl
  have hq : parse (readSource paddedSource).tokens =
      .ok ⟨[⟨1, "main", [], [], [.call 3 "write" [.value 3 (.literal 3 (.integer 1))]]⟩]⟩ := by
    rw [htokens]
    rfl
  exact ⟨hfaults, hpadded, hall.1, _, _, hp, hq, rfl, rfl, fun input =>
    (hall.2.2 _ _ _ hp hq _ _ _).2.1⟩

end Shank
