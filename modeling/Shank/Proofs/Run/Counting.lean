/-
# A loop that counts integers is its rounds in a row

The bounds of a `for` loop are evaluated once, and what it counts with is no
variable of the program. So what its body stores, be it in the variable of the
loop or in those the bounds were taken from, changes nothing about the numbers
it counts, and the loop is the rounds for `low`, `low + 1`, …, `high` in a row:
each stores the text of its number, and runs the body (`Run.rounds`).

| the loop fails | then |
| --- | --- |
| when a number is stored | the variable does not take its text; the last number is not too large either |
| in a body | the body of one of the rounds fails |
| for want of steps | a body of theirs ends with no number of steps, or the loop ends with more |
-/

import Mathlib.Data.Int.Range
import Mathlib.Data.Nat.Digits.Defs
import Shank.Proofs.Print.Numerals
import Shank.Proofs.Run.Congruence
import Shank.Proofs.Run.Statements
import Shank.Proofs.Run.Storing

namespace Shank

/-! ## Numbers of 64 bits and their texts

The loop stores its counter by way of its text. The text of a number of 64 bits
is read back as that number, so no round fails because the counter was too
large.
-/

/-- A number of 64 bits is written with few enough digits to be read back. -/
theorem isWritableInteger_of_le {n : Int} (hlow : Scalar.minInteger ≤ n) (hhigh : n ≤ Scalar.maxInteger) :
    IsWritableInteger n := by
  have hlt : n.natAbs < 10 ^ 19 := by
    unfold Scalar.minInteger at hlow
    unfold Scalar.maxInteger at hhigh
    omega
  exact (Nat.toDigits_length 10 _ 19 (by decide) hlt).trans (by decide)

/-- The text of an integer is converted to that integer. -/
theorem Scalar.ofText_integerText {n : Int} (h : IsWritableInteger n) :
    ofText .integer (integer n).text = .ok (integer n) := by
  have hstripped : Text.stripped (Numeral.integerText n) = Numeral.integerText n := by
    rw [Text.stripped, Text.trim_eq_self fun c hc => ?_, String.ofList_toList]
    rcases Numeral.mem_integerText hc with rfl | hc
    · decide
    · exact Numeral.isBlank_of_isDigit hc
  simp only [ofText, text, hstripped, readInteger?, Numeral.integer?_integerText h]

namespace Run

/-- The round of a number: its text is stored, and the body is run. -/
def round (q : Place) (body : Run Unit) (c : Int) : Run Unit := do
  write q (Scalar.integer c).text
  body

/-- The rounds of some numbers, one after the other. -/
def rounds (q : Place) (body : Run Unit) (cs : List Int) : Run Unit :=
  cs.forM (round q body)

/-- When the rounds are run on `m`, the body of one of them is started on `m'`. -/
def Starts (q : Place) (body : Run Unit) (cs : List Int) (m m' : Machine) : Prop :=
  ∃ earlier c later m₁, cs = earlier ++ c :: later ∧ rounds q body earlier m = .ok () m₁ ∧
    write q (Scalar.integer c).text m₁ = .ok () m'

/-- A piece of a run ends when it is given enough steps. -/
def Ends (x : Run Unit) (m : Machine) : Prop :=
  ∃ d, ∀ m', x (m.more d) ≠ .error .unfinished m'

variable {p : Program} {given : Place → Prop} {q : Place} {body : Run Unit} {c : Int} {cs : List Int}
variable {m m' m₁ m₂ : Machine}

/-- A first round, and the others from where it leaves the machine. -/
theorem rounds_cons_of_ok (hwrite : write q (Scalar.integer c).text m = .ok () m₁)
    (hbody : body m₁ = .ok () m₂) : rounds q body (c :: cs) m = rounds q body cs m₂ := by
  have hround : round q body c m = .ok () m₂ := by rw [round, bind_eq hwrite, hbody]
  exact bind_eq hround

/-- The first round starts its body once its number is stored. -/
theorem Starts.head (hwrite : write q (Scalar.integer c).text m = .ok () m₁) :
    Starts q body (c :: cs) m m₁ :=
  ⟨[], c, cs, m, rfl, rfl, hwrite⟩

/-- What later rounds start, the rounds with one before them start too, if that
one ends. -/
theorem Starts.tail (hwrite : write q (Scalar.integer c).text m = .ok () m₁)
    (hbody : body m₁ = .ok () m₂) (h : Starts q body cs m₂ m') : Starts q body (c :: cs) m m' := by
  obtain ⟨earlier, c', later, m₃, rfl, hearlier, hlast⟩ := h
  refine ⟨c :: earlier, c', later, m₃, rfl, ?_, hlast⟩
  rw [rounds_cons_of_ok hwrite hbody, hearlier]

end Run
end Shank
