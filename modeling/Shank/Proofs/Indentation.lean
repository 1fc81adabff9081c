/-
# Block structure follows indentation

The lexer tells the depth of a line by `INDENT`s and `DEDENT`s, and the parser
finds blocks by them again. Together: there are as many blocks around a
statement as the depth of its line says, the body of the function counted as one
(`Program.depth_eq_indentation`). A line has the depth of its indentation,
counted in all of the line; a line that starts inside a comment keeps the depth
that was carried to it.

Lines that cannot be read do no harm to this, as they give no tokens; a program
is only made of the others.
-/

import Shank.Proofs.Parse.Nesting
import Shank.Proofs.Token.Depth

namespace Shank

open Parse Token

/-- A statement of a source text stands at the depth of its line. -/
structure StandsAtDepth (source : String) (n : Nat × Stmt) : Prop where
  /-- The line is one of the text. -/
  positive : 0 < n.2.line
  /-- Its depth is that in force behind the line, and is given by the line
  itself or carried to it. -/
  depth : ∃ raw, (Text.lines source.toList)[n.2.line - 1]? = some raw ∧
    n.1 = ((Layout.atLine source n.2.line).readLine raw).next.depth ∧
    n.1 = if (Layout.atLine source n.2.line).inComment then (Layout.atLine source n.2.line).depth
      else indentCount (Text.chomp raw)

/-- Statements do not start with layout. -/
theorem not_isLayout_of_startsStatement {kind : Token.Kind} (h : StartsStatement kind) :
    ¬kind.IsLayout := by
  have hall : ∀ k ∈ [Kind.if_, .while_, .for_, .repeat_, .identifier], ¬k.IsLayout := by decide
  exact hall kind h

/-- What starts at a position of the tokens of a source text stands at the depth
of its line. -/
theorem standsAtDepth_of_starts {source : String} {i : Nat} {n : Nat × Stmt}
    (h : Starts (readSource source).tokens i n) : StandsAtDepth source n := by
  obtain ⟨t, ht, hkind, hline⟩ := h.token
  obtain ⟨raw, hpositive, hraw, hnext, hbalance⟩ :=
    balance_take_readSource ht (not_isLayout_of_startsStatement hkind)
  rw [hline] at hpositive hraw hnext hbalance
  have hdepth : n.1 = (Layout.atLine source n.2.line).depthOf raw := by
    have := h.depth
    omega
  exact ⟨hpositive, raw, hraw, hdepth.trans hnext.symm, hdepth⟩

/-- **Block structure follows indentation.** In accepted tokens every statement
starts where there are as many more `INDENT`s than `DEDENT`s before it as there
are blocks around it; and if the tokens are those of a source text, this is the
depth of its line. -/
theorem Program.depth_eq_indentation :
    (∀ tokens p, parse tokens = .ok p → ∀ f ∈ p.functions, ∃ i j, Laid tokens i j f.nodes) ∧
    ∀ source p, parse (readSource source).tokens = .ok p →
      ∀ f ∈ p.functions, ∀ n ∈ f.nodes, StandsAtDepth source n := by
  refine ⟨fun tokens p h f hf => laid_of_parse h hf, fun source p h f hf n hn => ?_⟩
  obtain ⟨_, _, starts, -, -, hstarts⟩ := laid_of_parse h hf
  obtain ⟨i, hi⟩ := exists_starts_of_mem hstarts hn
  exact standsAtDepth_of_starts hi

/-- A source text whose last line starts inside a comment, and so at the depth
carried to it. -/
def commentSource : String :=
  "define main()\n\twhile a\n\t\tf\n\t\x7b comment\n\x7d g\n"

/-- The tokens of a loop with a comment in it that spans two lines. -/
def commentTokens : List Token :=
  [⟨.define, "define", 1, 1⟩, ⟨.identifier, "main", 1, 8⟩, ⟨.openParen, "(", 1, 12⟩,
    ⟨.closeParen, ")", 1, 13⟩, ⟨.endOfLine, "", 1, 14⟩, ⟨.indent, "", 2, 1⟩,
    ⟨.while_, "while", 2, 2⟩, ⟨.identifier, "a", 2, 8⟩, ⟨.endOfLine, "", 2, 9⟩,
    ⟨.indent, "", 3, 1⟩, ⟨.identifier, "f", 3, 3⟩, ⟨.endOfLine, "", 3, 4⟩,
    ⟨.endOfLine, "", 4, 11⟩, ⟨.identifier, "g", 5, 3⟩, ⟨.endOfLine, "", 5, 4⟩,
    ⟨.dedent, "", 6, 1⟩, ⟨.dedent, "", 6, 1⟩]

/-- The function of these tokens: the line that starts in the comment is in the
loop as well. -/
def commentFunction : Function :=
  ⟨1, "main", [], [], [.whileLoop 2 (.var 2 "a") [.call 3 "f" [], .call 5 "g" []]]⟩

/-- The hypotheses of `depth_eq_indentation` are satisfiable: the call of `g` is
one of the statements of the loop. -/
theorem Program.depth_eq_indentation_comment :
    parse (readSource commentSource).tokens = .ok ⟨[commentFunction]⟩ ∧
      (∃ i j, Laid commentTokens i j commentFunction.nodes) ∧
      StandsAtDepth commentSource (2, .call 5 "g" []) := by
  have htokens : (readSource commentSource).tokens = commentTokens := by decide +kernel
  have hparse : Program.parse commentTokens = .ok ⟨[commentFunction]⟩ := rfl
  have hmem : commentFunction ∈ (⟨[commentFunction]⟩ : Program).functions :=
    List.mem_singleton_self _
  have hnodes : commentFunction.nodes =
      (1, .whileLoop 2 (.var 2 "a") [.call 3 "f" [], .call 5 "g" []]) ::
        [(2, .call 3 "f" []), (2, .call 5 "g" [])] := rfl
  refine ⟨htokens ▸ hparse, depth_eq_indentation.1 _ _ hparse _ hmem,
    depth_eq_indentation.2 _ _ (htokens ▸ hparse) _ hmem _ ?_⟩
  rw [hnodes]
  simp

end Shank
