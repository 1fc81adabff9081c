/-
# Programs of tokens in a row

Token streams that are accepted one by one are accepted in a row, as nothing
that a function may end with leads on into the function after it. What comes of
them is the programs merged: the first one's functions stay where they are, and
a function of the second one replaces the one of its name or is put behind.

So it is within one stream as well: of the functions of a name the last one
counts, and it stands where the first one was.
-/

import Shank.Proofs.Parse.Concatenation

namespace Shank
namespace Parsing

/-- **Parsing takes tokens in a row to programs that are merged.** Their names
are those of the first one and the new ones of the second in their orders, none
of them twice, and each name has its function of the second one if there is one,
and else that of the first. In every program that is accepted, each name has the
function that was parsed last, at the position of the one that was parsed first. -/
theorem program_append_eq_merge :
    (∀ (ts us : List Token) (room : Nat) (p q : Program),
      (ofTokens ts room).program = .ok p → (ofTokens us room).program = .ok q →
      (ofTokens (ts ++ us) room).program = .ok (p.merge q) ∧
        (p.merge q).names = p.names ++ q.names.filter (· ∉ p.names) ∧ (p.merge q).names.Nodup ∧
        ∀ name, (p.merge q).find? name = (q.find? name).or (p.find? name)) ∧
    ∀ (ts : List Token) (room : Nat) (p : Program), (ofTokens ts room).program = .ok p →
      p.names = ((ofTokens ts room).functions.map Function.name).eraseDups ∧
        ∀ name, p.find? name =
          (ofTokens ts room).functions.reverse.find? fun f => f.name == name := by
  refine ⟨fun ts us room p q hp hq => ?_, fun ts room p hp => ?_⟩
  · have hnodup : q.names.Nodup := Program.nodup_of_parsing hq
    have happend := program_append hp hq
    obtain ⟨-, -, hpeq⟩ := program_ok hp
    obtain ⟨-, -, hqeq⟩ := program_ok hq
    rw [Program.ofList_append_eq_merge, ← hpeq, ← hqeq] at happend
    exact ⟨happend, Program.names_merge hnodup, Program.nodup_of_parsing happend,
      fun name => Program.find?_merge hnodup⟩
  · obtain ⟨-, -, rfl⟩ := program_ok hp
    exact ⟨Program.names_ofList, fun name => Program.find?_ofList⟩

/-- The tokens of a function that is nothing but a head. -/
def headTokens (name : String) (line : Nat) : List Token :=
  [⟨.define, "", line, 1⟩, ⟨.identifier, name, line, 8⟩, ⟨.openParen, "", line, 9⟩,
    ⟨.closeParen, "", line, 10⟩, ⟨.endOfLine, "", line, 11⟩]

/-- The hypotheses of `program_append_eq_merge` are satisfiable: of three names
in four functions, the one in both streams has its function of the second. -/
theorem program_append_eq_merge_heads :
    let ts := headTokens "a" 1 ++ headTokens "b" 2
    let us := headTokens "b" 3 ++ headTokens "c" 4
    let p : Program := ⟨[⟨1, "a", [], [], []⟩, ⟨2, "b", [], [], []⟩]⟩
    let q : Program := ⟨[⟨3, "b", [], [], []⟩, ⟨4, "c", [], [], []⟩]⟩
    let merged : Program := ⟨[⟨1, "a", [], [], []⟩, ⟨3, "b", [], [], []⟩, ⟨4, "c", [], [], []⟩]⟩
    Program.parse ts = .ok p ∧ Program.parse us = .ok q ∧ p.merge q = merged ∧
      Program.parse (ts ++ us) = .ok merged ∧
      merged.find? "b" = (ofTokens (ts ++ us)).functions.reverse.find? fun f => f.name == "b" := by
  intro ts us p q merged
  have hp : Program.parse ts = .ok p := rfl
  have hq : Program.parse us = .ok q := rfl
  have hmerged : p.merge q = merged := rfl
  have happend := (program_append_eq_merge.1 ts us Parse.defaultRoom p q hp hq).1
  exact ⟨hp, hq, hmerged, hmerged ▸ happend,
    (program_append_eq_merge.2 _ _ merged (hmerged ▸ happend)).2 "b"⟩

end Parsing
end Shank
