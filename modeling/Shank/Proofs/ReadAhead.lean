/-
# What follows a syntax fault

A syntax fault that is found in front of the end of the tokens is found by the
tokens up to the next one. What is behind these can be anything: no parser looks
further than to the next token, not even the one that tells an assignment from a
call by its second token, as that one has taken the first.

Two token streams are compared that have the tokens up to the next one in common
(`Coupling.swapped`). They are coupled until the first of them gets to where
they part, and the run that is to be compared stops in front of that.
-/

import Shank.Proofs.Parse.Alike

namespace Shank
namespace Parse

/-- Streams that go on with the same tokens, and then with these. -/
def Coupling.swapped (more more' : List Token) : Coupling where
  lines := id
  Over ts := ts.length ≤ more.length
  Rel ts us := ∃ common, ts = common ++ more ∧ us = common ++ more'
  Halts := Eq
  halts_of_eq h := by rwa [ParseHalt.renumber_id] at h
  over_suffix hsuffix hover := hsuffix.length_le.trans hover
  head := by
    rintro _ _ ⟨common, rfl, rfl⟩
    cases common with
    | nil => exact .inl le_rfl
    | cons t rest =>
      exact .inr (.inr (.inl ⟨t, _, t, _, rfl, rfl, rfl, fun _ => ⟨rest, rfl, rfl⟩⟩))
  lineEnds := by
    rintro _ _ ⟨common, rfl, rfl⟩
    unfold pastLineEnds
    rw [List.dropWhile_append, List.dropWhile_append]
    split
    · exact .inl (pastLineEnds_suffix more).length_le
    · exact .inr ⟨_, rfl, rfl⟩

end Parse

open Parse

namespace Parsing

variable {tokens tokens' more more' : List Token} {room p : Nat}

/-- Streams that are coupled are parsed alike, if the first is not parsed up to
where they part. -/
theorem sameParsing_of_rel (hrel : (Coupling.swapped more more').Rel tokens tokens')
    (h : more.length < (ofTokens tokens room).stop.rest.length) :
    (Coupling.swapped more more').SameParsing (ofTokens tokens room) (ofTokens tokens' room) := by
  rcases (Coupling.swapped more more').lineEnds hrel with hover | hrel
  · have hsuffix := functionsFrom_suffix room (pastLineEnds tokens) ⟨pastLineEnds tokens, 0⟩
    exact absurd (hsuffix.length_le.trans hover) (Nat.not_le.2 h)
  · exact (Coupling.alike_functionsFrom room _ _ ⟨hrel, le_rfl, le_rfl⟩ 0).resolve_left
      (Nat.not_le.2 h)

/-- Only at the end of the tokens it is the level that is refused. -/
theorem halt_of_rest_ne_nil {e : ParseHalt} (h : (ofTokens tokens room).program = .error e)
    (hrest : (ofTokens tokens room).stop.rest ≠ []) : (ofTokens tokens room).halt = some e := by
  unfold program at h
  cases hhalt : (ofTokens tokens room).halt with
  | some e' =>
    rw [hhalt] at h
    cases h
    rfl
  | none =>
    rw [stop_eq hhalt] at hrest
    exact absurd rfl hrest

/-- **A syntax fault depends only on what was read.** Where tokens are parsed up
to a fault, and the parser stops with a token left, all tokens that are the same
up to that one are parsed up to the same fault, at the same token. This is so
within any room. -/
theorem program_fault_of_take {e : SyntaxFault}
    (h : (ofTokens tokens room).program = .error (.fault e))
    (hstop : (ofTokens tokens room).stop.rest = tokens.drop p) (hp : p < tokens.length)
    (htake : tokens'.take (p + 1) = tokens.take (p + 1)) :
    (ofTokens tokens' room).program = .error (.fault e) := by
  have hlength : (tokens.drop (p + 1)).length < (ofTokens tokens room).stop.rest.length := by
    rw [hstop, List.length_drop, List.length_drop]
    omega
  have hhalt : (ofTokens tokens room).halt = some (.fault e) :=
    halt_of_rest_ne_nil h (List.ne_nil_of_length_pos (Nat.zero_lt_of_lt hlength))
  have hrel : (Coupling.swapped (tokens.drop (p + 1)) (tokens'.drop (p + 1))).Rel tokens tokens' :=
    ⟨tokens.take (p + 1), (List.take_append_drop ..).symm, by rw [← htake, List.take_append_drop]⟩
  have hsame := (sameParsing_of_rel hrel hlength).halt
  rw [hhalt] at hsame
  unfold program
  generalize (ofTokens tokens' room).halt = halt' at hsame
  cases hsame with
  | some he => rw [← show ParseHalt.fault e = _ from he]

/-- The hypotheses of `program_fault_of_take` are satisfiable: a head without
its parenthesis, and with something behind it. -/
theorem program_fault_of_take_head :
    (ofTokens [⟨.define, "", 1, 1⟩, ⟨.identifier, "main", 1, 8⟩, ⟨.number, "7", 1, 13⟩] 20).program =
        .error (.fault ⟨.expected .openParen, some ⟨.number, "7", 1, 13⟩⟩) ∧
      (ofTokens [⟨.define, "", 1, 1⟩, ⟨.identifier, "main", 1, 8⟩, ⟨.number, "7", 1, 13⟩,
        ⟨.dedent, "", 1, 14⟩, ⟨.number, "x", 2, 1⟩] 20).program =
        .error (.fault ⟨.expected .openParen, some ⟨.number, "7", 1, 13⟩⟩) :=
  ⟨rfl, @program_fault_of_take [⟨.define, "", 1, 1⟩, ⟨.identifier, "main", 1, 8⟩,
    ⟨.number, "7", 1, 13⟩] _ 20 2 _ rfl rfl (by decide) rfl⟩

end Parsing
end Shank
