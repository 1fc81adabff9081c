/-
# `else if` for `elsif`

An `elsif` can be written as `else if` on the same line, wherever it stands in a
token stream. In front of a branch the two are the same, as the line of a branch
is that of its word, and the word of `else if` is its `if`. Anywhere else
neither of them is accepted, although the faults are not the same: an `else`
that is read as a branch of its own is refused at the `if`, an `elsif` is
refused itself.

So two streams that are spelled differently are coupled with all faults counted
as the same (`Coupling.spelled`), and what is left to compare is the programs.
-/

import Shank.Proofs.Parse.Alike

namespace Shank

/-- The second stream is the first one with `else if` for some of its `elsif`. -/
inductive Spelled : List Token → List Token → Prop
  | nil : Spelled [] []
  | same (t : Token) {ts us : List Token} (h : Spelled ts us) : Spelled (t :: ts) (t :: us)
  | elseIf {t e i : Token} {ts us : List Token} (ht : t.kind = .elsif) (he : e.kind = .else_)
      (hi : i.kind = .if_) (heline : e.line = t.line) (hiline : i.line = t.line) (h : Spelled ts us) :
      Spelled (t :: ts) (e :: i :: us)

namespace Spelled

/-- Every stream is spelled as it is. -/
theorem refl (ts : List Token) : Spelled ts ts := by
  induction ts with
  | nil => exact .nil
  | cons t ts ih => exact .same t ih

/-- Streams that are spelled differently from some token on are spelled
differently. -/
theorem append (pre : List Token) {ts us : List Token} (h : Spelled ts us) :
    Spelled (pre ++ ts) (pre ++ us) := by
  induction pre with
  | nil => exact h
  | cons t pre ih => exact .same t ih

open Parse in
/-- No line end is spelled differently. -/
theorem pastLineEnds {ts us : List Token} (h : Spelled ts us) :
    Spelled (pastLineEnds ts) (pastLineEnds us) := by
  induction h with
  | nil => exact .nil
  | @same t ts us h ih =>
    by_cases ht : t.kind = .endOfLine
    · rwa [pastLineEnds_cons ht, pastLineEnds_cons ht]
    · rw [pastLineEnds_of_ne ht, pastLineEnds_of_ne ht]
      exact .same t h
  | elseIf ht he hi heline hiline h =>
    rw [pastLineEnds_of_ne (by rw [ht]; decide), pastLineEnds_of_ne (by rw [he]; decide)]
    exact .elseIf ht he hi heline hiline h

end Spelled

namespace Parse

/-- Streams that may be spelled differently, with all faults counted as the
same. -/
def Coupling.spelled : Coupling where
  lines := id
  Over _ := False
  Rel := Spelled
  Halts _ _ := True
  halts_of_eq _ := trivial
  over_suffix _ h := h
  head h := by
    cases h with
    | nil => exact .inr (.inl ⟨rfl, rfl⟩)
    | same t h => exact .inr (.inr (.inl ⟨t, _, t, _, rfl, rfl, rfl, fun _ => h⟩))
    | elseIf ht he hi heline hiline h =>
      exact .inr (.inr (.inr ⟨.intro ht he hi heline.symm hiline.symm h, fun _ _ => trivial⟩))
  lineEnds h := .inr h.pastLineEnds

end Parse

open Parse

namespace Parsing

variable {ts us : List Token} {p : Program}

/-- **Streams that are spelled differently are parsed to the same program**, if
they are to any. -/
theorem program_ok_iff_of_spelled (h : Spelled ts us) (room : Nat) :
    (ofTokens ts room).program = .ok p ↔ (ofTokens us room).program = .ok p := by
  have hsame : Coupling.spelled.SameParsing (ofTokens ts room) (ofTokens us room) :=
    (Coupling.alike_functionsFrom room _ _ ⟨h.pastLineEnds, le_rfl, le_rfl⟩ 0).resolve_left id
  obtain ⟨hfunctions, hhalt, hlevel⟩ := hsame
  rw [show Coupling.spelled.lines = id from rfl, Function.renumber_id, List.map_id, List.map_id]
    at hfunctions
  unfold program
  generalize (ofTokens us room).halt = halt' at hhalt
  cases hts : (ofTokens ts room).halt with
  | some e =>
    rw [hts] at hhalt
    cases hhalt
    exact ⟨fun h => (nomatch h), fun h => (nomatch h)⟩
  | none =>
    rw [hts] at hhalt
    cases hhalt
    dsimp only
    rw [hfunctions, hlevel hts]

/-- **`else if` is `elsif`.** With an `else` and an `if` on the same line for
any `elsif` of it, a token stream is parsed to the same program, with the same
line numbers, or to none as before. This is so within any room, and wherever the
`elsif` stands. -/
theorem program_else_if {pre post : List Token} {elsif else' if' : Token} (helsif : elsif.kind = .elsif)
    (helse : else'.kind = .else_) (hif : if'.kind = .if_) (helseLine : else'.line = elsif.line)
    (hifLine : if'.line = elsif.line) (room : Nat) (p : Program) :
    (ofTokens (pre ++ elsif :: post) room).program = .ok p ↔
      (ofTokens (pre ++ else' :: if' :: post) room).program = .ok p :=
  program_ok_iff_of_spelled
    (.append pre (.elseIf helsif helse hif helseLine hifLine (.refl post))) room

/-- The hypotheses of `program_else_if` are satisfiable: a second branch, on
line 3. -/
theorem program_else_if_second :
    (ofTokens ([⟨.define, "", 1, 1⟩, ⟨.identifier, "main", 1, 8⟩, ⟨.openParen, "", 1, 13⟩,
        ⟨.closeParen, "", 1, 14⟩, ⟨.endOfLine, "", 1, 15⟩, ⟨.indent, "", 2, 1⟩, ⟨.if_, "", 2, 2⟩,
        ⟨.false_, "", 2, 5⟩, ⟨.then_, "", 2, 11⟩, ⟨.endOfLine, "", 2, 15⟩, ⟨.indent, "", 3, 1⟩,
        ⟨.dedent, "", 3, 1⟩] ++ ⟨.else_, "", 3, 2⟩ :: ⟨.if_, "", 3, 7⟩ :: [⟨.true_, "", 3, 10⟩,
        ⟨.then_, "", 3, 15⟩, ⟨.endOfLine, "", 3, 19⟩, ⟨.indent, "", 4, 1⟩, ⟨.dedent, "", 4, 1⟩,
        ⟨.dedent, "", 4, 1⟩]) 20).program =
      .ok ⟨[⟨1, "main", [], [], [.ifChain 2 [.mk 2 (some (.literal 2 (.boolean false))) [],
        .mk 3 (some (.literal 3 (.boolean true))) []]]⟩]⟩ :=
  (@program_else_if _ _ ⟨.elsif, "", 3, 2⟩ ⟨.else_, "", 3, 2⟩ ⟨.if_, "", 3, 7⟩ rfl rfl rfl rfl rfl 20
    _).1 rfl

end Parsing
end Shank
