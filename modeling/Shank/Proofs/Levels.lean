/-
# Levels at the end of a text

The lexer and the parser each count levels: the depth of the one is the balance
of the tokens it has given, and the level of the other that of the tokens it has
taken. The parser takes all of them, so that the two agree at the end. A source
text is left with every level closed, and is never found unbalanced; lines whose
levels were not closed are, and with the depth that the lexer has.

For the parser this is `Shank.Proofs.Parse.Advance`, and for the lexer
`Shank.Proofs.Token.History`. Here the two are put together, for any calls of
the lexer.
-/

import Shank.Proofs.Token.History
import Shank.Proofs.Parse.Advance

namespace Shank

open Token (Lexer readSource)

/-- **The parser ends on the depth of the lexer.** After any calls of the lexer,
if no function is refused, every token is taken, and the tokens are found
unbalanced exactly if the depth is not zero, and with that depth. Those of a
source text are never found so, and a program that is made of them is made of
all of them. -/
theorem Parsing.unbalanced_iff_depth :
    (∀ calls room,
      ((ofTokens (Lexer.run calls).tokens room).halt = none →
        (ofTokens (Lexer.run calls).tokens room).stop.rest = []) ∧
      ∀ level t, (ofTokens (Lexer.run calls).tokens room).program =
          .error (.fault ⟨.unbalanced level, t⟩) ↔
        (ofTokens (Lexer.run calls).tokens room).halt = none ∧
          level = (Lexer.run calls).layout.depth ∧ level ≠ 0 ∧ t = none) ∧
    ∀ source room,
      (∀ level t, (ofTokens (readSource source).tokens room).program ≠
        .error (.fault ⟨.unbalanced level, t⟩)) ∧
      ∀ p, (ofTokens (readSource source).tokens room).program = .ok p →
        (ofTokens (readSource source).tokens room).stop.rest = [] := by
  constructor
  · intro calls room
    constructor
    · intro h
      rw [stop_eq h]
    · intro level t
      rw [unbalanced_iff, (Lexer.balanced_run calls).balance]
  · intro source room
    constructor
    · intro level t h
      obtain ⟨-, hlevel, hne, -⟩ := unbalanced_iff.1 h
      rw [Token.balance_readSource] at hlevel
      exact hne hlevel
    · intro p h
      have hhalt : (ofTokens (readSource source).tokens room).halt = none := by
        unfold program at h
        split at h
        · cases h
        · assumption
      rw [stop_eq hhalt]

/-- Two lines after which one level is open. -/
def openCalls : List Lexer.Call :=
  [.lex "define start()".toList, .lex "\tf".toList]

/-- The tokens of a function whose body is not closed at the end of the text. -/
def openTokens : List Token :=
  [⟨.define, "define", 1, 1⟩, ⟨.identifier, "start", 1, 8⟩, ⟨.openParen, "(", 1, 13⟩,
    ⟨.closeParen, ")", 1, 14⟩, ⟨.endOfLine, "", 1, 15⟩, ⟨.indent, "", 2, 1⟩,
    ⟨.identifier, "f", 2, 2⟩, ⟨.endOfLine, "", 2, 3⟩]

/-- The hypotheses of `unbalanced_iff_depth` are satisfiable: the open level is
told, and the text of the same lines is a program. -/
theorem Parsing.unbalanced_iff_depth_open :
    (ofTokens (Lexer.run openCalls).tokens).program = .error (.fault ⟨.unbalanced 1, none⟩) ∧
      (ofTokens (Lexer.run openCalls).tokens).stop.rest = [] ∧
      (ofTokens (readSource "define start()\n\tf\n").tokens).program =
        .ok ⟨[⟨1, "start", [], [], [.call 2 "f" []]⟩]⟩ ∧
      (ofTokens (readSource "define start()\n\tf\n").tokens).stop.rest = [] := by
  have hopen : (Lexer.run openCalls).tokens = openTokens := by decide +kernel
  have hdepth : (Lexer.run openCalls).layout.depth = 1 := by decide +kernel
  have hclosed : (readSource "define start()\n\tf\n").tokens =
      openTokens ++ [⟨.dedent, "", 3, 1⟩] := by decide +kernel
  have hhalt : (ofTokens (Lexer.run openCalls).tokens).halt = none := by
    rw [hopen]
    rfl
  have hprogram : (ofTokens (readSource "define start()\n\tf\n").tokens).program =
      .ok ⟨[⟨1, "start", [], [], [.call 2 "f" []]⟩]⟩ := by
    rw [hclosed]
    rfl
  have hcalls := unbalanced_iff_depth.1 openCalls Parse.defaultRoom
  refine ⟨(hcalls.2 1 none).2 ⟨hhalt, ?_, by decide, rfl⟩, hcalls.1 hhalt, hprogram,
    (unbalanced_iff_depth.2 _ _).2 _ hprogram⟩
  rw [hdepth]
  rfl

end Shank
