/-
# What is accepted is what the interpreter relies on

The interpreter looks into a tree without a check: it takes the first branch of
an if chain, the bounds of an array, the value of a constant. That all of them
are there is so for every token list that the parser accepts, not only for the
tokens of a text. Statements are reached by their positions in the tokens
(`Parsing.starts_of_program`), declarations by the parser of functions
(`Parse.Yields.function`).

That no block is empty takes more: a token list may close a block that it has
just opened. The lexer never does.
-/

import Shank.Proofs.Parse.Filled
import Shank.Proofs.Parse.Shape

namespace Shank

/-- The shape of a function: that of its declarations, and that of its
statements, nested ones included. -/
structure Function.WellShaped (f : Function) : Prop where
  parameters : ∀ v ∈ f.parameters, v.type.WellShaped
  locals : ∀ d ∈ f.locals, d.WellShaped
  statements : ∀ n ∈ f.nodes, n.2.WellShaped

/-- The shape of a program: each function is the one of its name. -/
structure Program.WellShaped (p : Program) : Prop where
  named : ∀ f ∈ p.functions, p.find? f.name = some f
  functions : ∀ f ∈ p.functions, f.WellShaped

/-- The type of a constant has no range. -/
theorem DeclaredType.wellShaped_ofKind (k : Kind) : (scalar (.ofKind k)).WellShaped :=
  .of_ordered fun r hr => by cases k <;> cases hr

namespace Parsing

variable {tokens : List Token} {room : Nat} {p : Program} {f : Function}

/-- **A function that is accepted is well-shaped**: its if chains have branches,
its loops and branches have all their parts, and its declarations have theirs. -/
theorem wellShaped_of_mem (h : (ofTokens tokens room).program = .ok p) (hf : f ∈ p.functions) :
    f.WellShaped := by
  have htypes : ∀ d ∈ f.declarations, d.2.WellShaped := by
    obtain ⟨-, -, rfl⟩ := program_ok h
    exact forall_functionsFrom
      (Parse.yields_wellShaped_type.function DeclaredType.wellShaped_ofKind room) _ _ f
      (Program.mem_ofList hf)
  refine ⟨fun v hv => ?_, fun d hd => ?_, fun n hn => ?_⟩
  · exact htypes _ (List.mem_append_left _ (List.mem_map_of_mem hv))
  · cases d with
    | constant c => exact c.wellShaped
    | var v => exact htypes _ (List.mem_append_right _ (List.mem_map_of_mem hd))
  · obtain ⟨i, hstarts⟩ := starts_of_program h hf hn
    obtain ⟨room', c, hparsed⟩ := hstarts.parsed
    exact Parse.yields_statement room' _ _ c hparsed

/-- In the tokens of a text, every block that a statement holds has a statement
in it. -/
theorem blocks_ne_nil_of_filled (htokens : Token.Filled tokens)
    (h : (ofTokens tokens room).program = .ok p) (hf : f ∈ p.functions) {n : Nat × Stmt}
    (hn : n ∈ f.nodes) : ∀ body ∈ n.2.blocks, body ≠ [] := by
  obtain ⟨i, hstarts⟩ := starts_of_program h hf hn
  obtain ⟨room', c, hparsed⟩ := hstarts.parsed
  exact (Parse.fills_statement room' _ _ c (htokens.suffix (List.drop_suffix i tokens)) hparsed).1

/-- **Every tree the parser gives is of the shape the interpreter relies on**,
whatever the tokens. Those of a source text leave none of its blocks empty. -/
theorem program_wellShaped :
    (∀ (tokens : List Token) (room : Nat) (p : Program),
      (ofTokens tokens room).program = .ok p → p.WellShaped) ∧
    ∀ (source : String) (room : Nat) (p : Program),
      (ofTokens (Token.readSource source).tokens room).program = .ok p →
      ∀ f ∈ p.functions, ∀ n ∈ f.nodes, ∀ body ∈ n.2.blocks, body ≠ [] := by
  refine ⟨fun tokens room p h => ⟨fun f hf => ?_, fun f hf => wellShaped_of_mem h hf⟩,
    fun source room p h f hf n hn => ?_⟩
  · exact Program.find?_of_mem (Program.nodup_of_parsing h) hf
  · exact blocks_ne_nil_of_filled (Token.filled_readSource source) h hf hn

/-- A text with a constant, an array and a block in a block. -/
def nestedSource : String :=
  "define main()\nconstants k = 3\nvariables xs : array from 1 to 2 of real\n\tif k > 2 then\n\t\tread var xs\n"

/-- A program with a declaration of either kind, an array, and a block within a
block. -/
def nestedProgram : Program :=
  ⟨[⟨1, "main", [], [.constant ⟨2, "k", .integer 3, 2⟩, .var ⟨3, "xs", .array ⟨1, 2⟩ .real, false⟩],
    [.ifChain 4 [.mk 4 (some (.comparison 4 .gt (.var 4 "k") (.literal 4 (.integer 2))))
      [.call 5 "read" [.reference 5 "xs" 5]]]]⟩]⟩

/-- The hypotheses of `program_wellShaped` are satisfiable: a text with
declarations and nested blocks is accepted. -/
theorem program_wellShaped_nested :
    Program.parse (Token.readSource nestedSource).tokens = .ok nestedProgram ∧
      nestedProgram.WellShaped ∧
      ∀ f ∈ nestedProgram.functions, ∀ n ∈ f.nodes, ∀ body ∈ n.2.blocks, body ≠ [] := by
  have htokens : (Token.readSource nestedSource).tokens =
      [⟨.define, "define", 1, 1⟩, ⟨.identifier, "main", 1, 8⟩, ⟨.openParen, "(", 1, 12⟩,
        ⟨.closeParen, ")", 1, 13⟩, ⟨.endOfLine, "", 1, 14⟩, ⟨.constants, "constants", 2, 1⟩,
        ⟨.identifier, "k", 2, 11⟩, ⟨.equals, "=", 2, 13⟩, ⟨.number, "3", 2, 15⟩,
        ⟨.endOfLine, "", 2, 16⟩, ⟨.variables_, "variables", 3, 1⟩, ⟨.identifier, "xs", 3, 11⟩,
        ⟨.colon, ":", 3, 14⟩, ⟨.array, "array", 3, 16⟩, ⟨.from_, "from", 3, 22⟩,
        ⟨.number, "1", 3, 27⟩, ⟨.to_, "to", 3, 29⟩, ⟨.number, "2", 3, 32⟩, ⟨.of_, "of", 3, 34⟩,
        ⟨.real, "real", 3, 37⟩, ⟨.endOfLine, "", 3, 41⟩, ⟨.indent, "", 4, 1⟩, ⟨.if_, "if", 4, 2⟩,
        ⟨.identifier, "k", 4, 5⟩, ⟨.greaterThan, ">", 4, 7⟩, ⟨.number, "2", 4, 9⟩,
        ⟨.then_, "then", 4, 11⟩, ⟨.endOfLine, "", 4, 15⟩, ⟨.indent, "", 5, 1⟩,
        ⟨.identifier, "read", 5, 3⟩, ⟨.var, "var", 5, 8⟩, ⟨.identifier, "xs", 5, 12⟩,
        ⟨.endOfLine, "", 5, 14⟩, ⟨.dedent, "", 6, 1⟩, ⟨.dedent, "", 6, 1⟩] := by decide +kernel
  have hparse : Program.parse (Token.readSource nestedSource).tokens = .ok nestedProgram := by
    rw [htokens]
    rfl
  exact ⟨hparse, program_wellShaped.1 _ _ _ hparse, program_wellShaped.2 _ _ _ hparse⟩

/-- Tokens that no text has may leave a block empty. -/
example : Program.parse
    [⟨.define, "", 1, 1⟩, ⟨.identifier, "main", 1, 8⟩, ⟨.openParen, "", 1, 12⟩,
      ⟨.closeParen, "", 1, 13⟩, ⟨.endOfLine, "", 1, 14⟩, ⟨.indent, "", 2, 1⟩, ⟨.while_, "", 2, 2⟩,
      ⟨.identifier, "x", 2, 8⟩, ⟨.endOfLine, "", 2, 9⟩, ⟨.indent, "", 3, 1⟩, ⟨.dedent, "", 3, 1⟩,
      ⟨.dedent, "", 3, 1⟩] =
    .ok ⟨[⟨1, "main", [], [], [.whileLoop 2 (.var 2 "x") []]⟩]⟩ :=
  rfl

end Parsing
end Shank
