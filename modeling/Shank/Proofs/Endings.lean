/-
# How a run ends

A run goes on for ever, or it ends: at the end of the program, by a fault, or in
one of two ways that are no fault. These two are for want of a number.

| halt | just if the run meets |
| --- | --- |
| `remainderUndefined` | the remainder of an infinity, by a number that is neither zero nor NaN |
| `boundTooLarge` | a real variable that starts with an integer bound too large for a double |

Nothing else can be missing in a run: whatever it looks up is there
(`Machine.Complete`). To run out of the room for nesting is a fault. To run out
of steps is not to end, and given more of them the run goes on.
-/

import Shank.Proofs.Run.Hazards
import Shank.Proofs.Run.Complete

namespace Shank

namespace Run

/-- For want of room a run ends by a fault. -/
theorem entry_ne_tooDeep (setting : Setting) (name : String) :
    Raises (· ≠ .tooDeep) (entry setting name) := by
  unfold entry
  cases setting.program.find? name with
  | none => exact raises_throw fun h => nomatch h
  | some f =>
    dsimp only
    rw [function_eq]
    refine Raises.rethrow (E := fun _ => True) (fun _ _ _ _ => trivial) fun h _ => ?_
    cases h <;> exact fun h => nomatch h

end Run

namespace Program

variable {p : Program} {entry : String} {limits : Limits} {m : Machine}

/-- A run is halted by what its entry ends with. -/
theorem halt_iff {h : Halt} :
    (p.runOn entry limits m).halt = some h ↔ ∃ m', Run.entry ⟨p, limits⟩ entry m = .error h m' := by
  unfold runOn Outcome.of
  cases Run.entry ⟨p, limits⟩ entry m with
  | ok a m' => exact ⟨fun h => (nomatch h), fun ⟨_, h⟩ => (nomatch h)⟩
  | error e m' =>
    constructor
    · rintro ⟨⟩
      exact ⟨m', rfl⟩
    · rintro ⟨_, ⟨⟩⟩
      rfl

/-- **A run that has ended ends in the same way when it is given more steps.** -/
theorem halt_more (hm : (p.runOn entry limits m).halt ≠ some .unfinished) (d : Nat) :
    (p.runOn entry limits (m.more d)).halt = (p.runOn entry limits m).halt := by
  have h := (Run.steady_entry ⟨p, limits⟩ entry m (Nat.zero_le _)).continues d
  unfold runOn Outcome.of at hm ⊢
  generalize Run.entry ⟨p, limits⟩ entry m = r at h hm
  generalize Run.entry ⟨p, limits⟩ entry (m.more d) = r' at h
  cases h with
  | ok | error => rfl
  | unfinished => exact (hm rfl).elim

/-- A halt that escapes is one that a hazard raises. -/
theorem halt_escapes {h : Halt} (hh : h.Escapes) :
    (p.runOn entry limits m).halt = some h ↔ ∃ z, p.Meets entry limits m z ∧ z.Raises h :=
  halt_iff.trans (Run.stopsBy_entry ⟨p, limits⟩ entry m h hh)

/-- **A run is halted by a remainder** exactly if it meets one of an infinity by
a number that is neither zero nor NaN. -/
theorem halt_remainder :
    (p.runOn entry limits m).halt = some .remainderUndefined ↔
      ∃ x y, p.Meets entry limits m (.remainder x y) ∧ x.IsInfinite ∧ ¬y.IsZero ∧ y ≠ .nan := by
  rw [halt_escapes (.inl rfl)]
  constructor
  · rintro ⟨z, hz, hraises⟩
    cases z with
    | remainder x y => exact ⟨x, y, hz, hraises⟩
    | start range => exact hraises.elim
  · rintro ⟨x, y, hz, hraises⟩
    exact ⟨_, hz, hraises⟩

/-- **A run is halted by a start** exactly if it meets a real variable whose
range starts with an integer that no double comes near to. -/
theorem halt_start :
    (p.runOn entry limits m).halt = some .boundTooLarge ↔
      ∃ range k, p.Meets entry limits m (.start range) ∧ range.clampZero = .whole k ∧
        2 ^ 1024 ≤ k.natAbs + 2 ^ 970 := by
  rw [halt_escapes (.inr rfl)]
  constructor
  · rintro ⟨z, hz, hraises⟩
    cases z with
    | remainder x y => exact hraises.elim
    | start range =>
      obtain ⟨k, hk⟩ := hraises
      exact ⟨range, k, hz, hk⟩
  · rintro ⟨range, k, hz, hk⟩
    exact ⟨_, hz, k, hk⟩

/-- A run that ends does so at the end of the program, or by a fault, or it
escapes. -/
theorem halt_cases (hm : (p.runOn entry limits m).halt ≠ some .unfinished) :
    (p.runOn entry limits m).halt = none ∨ (∃ e, (p.runOn entry limits m).halt = some (.fault e)) ∨
      (p.runOn entry limits m).halt = some .remainderUndefined ∨
        (p.runOn entry limits m).halt = some .boundTooLarge := by
  cases hhalt : (p.runOn entry limits m).halt with
  | none => exact .inl rfl
  | some h =>
    obtain ⟨m', hh⟩ := halt_iff.1 hhalt
    have hroom : h ≠ .tooDeep := Run.entry_ne_tooDeep ⟨p, limits⟩ entry m h m' hh
    cases h with
    | fault e => exact .inr (.inl ⟨e, rfl⟩)
    | remainderUndefined => exact .inr (.inr (.inl rfl))
    | boundTooLarge => exact .inr (.inr (.inr rfl))
    | tooDeep => exact (hroom rfl).elim
    | unfinished => exact (hm hhalt).elim

/-- **A run ends by a fault, unless for want of a number.** A run of a parsed
program, on whatever input, goes on for ever, or ends at the end of the program,
or by a fault, or in one of two ways that are no fault. The first of these it
ends in just if it meets the remainder of an infinity by a number that is
neither zero nor NaN, and the second just if it meets a real variable that
starts with an integer bound that is too large for a double. Apart from that,
whatever is looked up at any moment is there. -/
theorem run_ends {tokens : List Token} (h : parse tokens = .ok p) (entry input : String)
    (limits : Limits) (random : Random) :
    let start (n : Nat) : Machine := { input := Text.textLines input, random, steps := n }
    let halt (n : Nat) := (p.runOn entry limits (start n)).halt
    ((∀ n, halt n = some .unfinished) ∨
      ∃ n, (∀ k, n ≤ k → halt k = halt n) ∧
        (halt n = none ∨ (∃ e, halt n = some (.fault e)) ∨ halt n = some .remainderUndefined ∨
          halt n = some .boundTooLarge)) ∧
    (∀ n, halt n = some .remainderUndefined ↔
      ∃ x y, p.Meets entry limits (start n) (.remainder x y) ∧ x.IsInfinite ∧ ¬y.IsZero ∧ y ≠ .nan) ∧
    (∀ n, halt n = some .boundTooLarge ↔
      ∃ range k, p.Meets entry limits (start n) (.start range) ∧ range.clampZero = .whole k ∧
        2 ^ 1024 ≤ k.natAbs + 2 ^ 970) ∧
    ∀ n, (p.reached entry input limits random n).Complete := by
  intro start halt
  refine ⟨?_, fun n => halt_remainder, fun n => halt_start,
    complete_reached h entry input limits random⟩
  by_cases hends : ∃ n, halt n ≠ some .unfinished
  · obtain ⟨n, hn⟩ := hends
    refine .inr ⟨n, fun k hk => ?_, halt_cases hn⟩
    obtain ⟨d, rfl⟩ := Nat.exists_eq_add_of_le hk
    exact halt_more hn d
  · exact .inl fun n => not_not.1 fun hn => hends ⟨n, hn⟩

/-- The tokens of a function that takes the remainder of a product beyond all
single-precision numbers. -/
def overflowTokens : List Token :=
  let line (n : Nat) (ts : List (Token.Kind × String)) : List Token :=
    ts.map fun t => ⟨t.1, t.2, n, 1⟩
  line 1 [(.define, ""), (.identifier, "main"), (.openParen, ""), (.closeParen, ""),
    (.endOfLine, "")] ++
  line 2 [(.variables_, ""), (.identifier, "x"), (.colon, ""), (.real, ""), (.endOfLine, "")] ++
  line 3 [(.indent, ""), (.identifier, "integerToReal"), (.var, ""), (.identifier, "x"), (.comma, ""),
    (.number, "1000000000000000"), (.endOfLine, "")] ++
  line 4 [(.identifier, "x"), (.assigner, ""), (.identifier, "x"), (.multiply, ""),
    (.identifier, "x"), (.multiply, ""), (.identifier, "x"), (.modulus, ""), (.identifier, "x"),
    (.endOfLine, "")] ++
  line 5 [(.dedent, "")]

/-- The program of these tokens. -/
def overflowProgram : Program :=
  let x : Expr := .var 4 "x"
  let cube : Expr := .arithmetic 4 .mul (.arithmetic 4 .mul x x) x
  let large : Argument := .value 3 (.literal 3 (.integer 1000000000000000))
  let body : List Stmt :=
    [.call 3 "integerToReal" [.reference 3 "x" 3, large],
      .assign 4 ⟨4, "x", none⟩ (.arithmetic 4 .mod cube x)]
  { functions := [⟨1, "main", [], [.var { line := 2, name := "x", type := .scalar (.real none) }], body⟩] }

/-- The hypothesis of `run_ends` is satisfiable, by a program that meets a
remainder without a value. -/
theorem run_ends_overflow :
    parse overflowTokens = .ok overflowProgram ∧
      (overflowProgram.runOn "main" {} { input := Text.textLines "", random := {}, steps := 9 }).halt =
        some .remainderUndefined ∧
      ∃ x y, overflowProgram.Meets "main" {} { input := Text.textLines "", random := {}, steps := 9 }
        (.remainder x y) ∧ x.IsInfinite ∧ ¬y.IsZero ∧ y ≠ .nan :=
  have h : parse overflowTokens = .ok overflowProgram := rfl
  have hends : (overflowProgram.runOn "main" {}
      { input := Text.textLines "", random := {}, steps := 9 }).halt = some .remainderUndefined := by
    decide +kernel
  ⟨h, hends, ((run_ends h "main" "" {} {}).2.1 9).1 hends⟩

end Program
end Shank
