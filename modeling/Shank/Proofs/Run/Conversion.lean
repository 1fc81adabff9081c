/-
# Reals become integers

A real is stored in an integer variable by way of its text, be it assigned or
converted by the function for that. What is stored is the integer part of the
number that the text stands for (`Ieee.stored_as_integer`). For reals up to
33554448 that is their own integer part; for this one it is not
(`Ieee.stored_as_another_integer`).

Both results are about whole calls and assignments. What an integer variable
reads from the text of a real is known from `Shank.Proofs.Numeral.Truncation`,
and what is left is that it is stored.
-/

import Shank.Proofs.Numeral.Truncation
import Shank.Proofs.Run.Lossless
import Shank.Proofs.Run.Misuse

namespace Shank

open Numeral

namespace Builtin

variable {m : Machine} {p : Place} {a : Actual} {x : Ieee} {v : Scalar}

/-- The conversion of a real stores what its text is read as. -/
theorem invoke_realToInteger (hp : Store.tag (m.store.get p) = .scalar .integer)
    (ha : a.operand m.store = .scalar (.real x)) {type : ScalarType}
    (htype : m.store.typeAt? p = some type) (hread : type.read x.singleText = .ok v)
    (hsteps : 0 < m.steps) :
    ∃ steps, realToInteger.invoke [.reference p, a] m =
      .ok () { m with store := m.store.put p v, steps } := by
  have hcheck : realToInteger.check m.store [.reference p, a] = none := by
    change checkArguments m.store 1 [.output .integer, .input (Scalar.real x).kind] [.reference p, a] = none
    rw [checkArguments, checkArgument_output hp]
    dsimp only
    rw [checkArguments, checkArgument_input ha]
    rfl
  have hdivide : realToInteger.divide m.store [.reference p, a] = ([.scalar (.real x)], some p) := by
    rw [← ha]
    rfl
  have hinvoke := invoke_of_result (by decide) hcheck hdivide rfl hsteps
  have hreading : m.store.reading p (m.store.text (.scalar (.real x))) = .ok v :=
    Store.reading_ok.2 ⟨type, htype, hread⟩
  rw [hreading] at hinvoke
  exact ⟨_, hinvoke⟩

end Builtin

/-- **A real becomes the integer that its text tells.** Take a finite real of
single precision, one of the zeros included, with an integer part of 64 bits. To
assign it to an integer variable without a range, or to convert it for one,
stores the integer part, toward zero, of the number that its text stands for.
The text is read back as the real: it is the rendering of the real to the fewest
digits, from one to nine, that is read back (a rendering to `d` digits is the
nearest decimal of `d` digits, so it need not be the shortest decimal that is
read back). That integer part is the one of the real itself if it is less than
33554448. -/
theorem Ieee.stored_as_integer {x : Ieee} {q : Rat} (hx : x.IsSingle) (hq : x.rational? = some q)
    (hlow : Scalar.minInteger ≤ integerPart q) (hhigh : integerPart q ≤ Scalar.maxInteger) :
    ∃ w : Written, w.text = x.singleText ∧ readSingle? w.text = some x ∧
      (|q| < 33554448 → integerPart w.value = integerPart q) ∧
      (∀ (f : Frame) (t : Target) (e : Expr) (m : Machine) (p : Place), f.isConstant t.name = false →
        t.locate m.store f = .ok p → m.store.typeAt? p = some (.integer none) →
        e.evaluate m.store f = .ok (.scalar (.real x)) → 0 < m.steps →
        ∃ steps, Run.assign f t e m =
          .ok () { m with store := m.store.put p (.integer (integerPart w.value)), steps }) ∧
      ∀ (m : Machine) (p : Place) (a : Actual), Store.tag (m.store.get p) = .scalar .integer →
        m.store.typeAt? p = some (.integer none) → a.operand m.store = .scalar (.real x) → 0 < m.steps →
        ∃ steps, Builtin.realToInteger.invoke [.reference p, a] m =
          .ok () { m with store := m.store.put p (.integer (integerPart w.value)), steps } := by
  obtain ⟨w, htext, hread, hsmall⟩ := exists_readsInteger hx hq hlow hhigh
  exact ⟨w, htext, htext ▸ (exists_isRendered hx).2, hsmall,
    fun f t e m p hconstant hp htype he => Run.assign_apply_of_read hconstant hp he htype hread,
    fun m p a hp htype ha => Builtin.invoke_realToInteger hp ha htype hread⟩

/-- The hypotheses of `Ieee.stored_as_integer` are satisfiable: -2.5 is
assigned, and converted, as -2. -/
theorem Ieee.stored_as_integer_negative :
    let x : Ieee := finite (-5 / 2)
    let m : Machine :=
      { store := { cells := #[.scalar (.integer none) (.integer 0)] }, steps := 1 }
    let f : Frame := { bindings := [("n", ⟨0, none⟩)] }
    (∃ m', Run.assign f ⟨1, "n", none⟩ (.literal 1 (.real x)) m = .ok () m' ∧
      m'.store.get ⟨0, none⟩ = .scalar (.integer (-2))) ∧
    ∃ m', Builtin.realToInteger.invoke [.reference ⟨0, none⟩, .value (.scalar (.real x))] m = .ok () m' ∧
      m'.store.get ⟨0, none⟩ = .scalar (.integer (-2)) := by
  intro x m f
  have hx : x.IsSingle := ⟨nofun, by decide +kernel⟩
  have hpart : integerPart (-5 / 2) = -2 := by
    rw [integerPart, if_pos (by norm_num)]
    norm_num
  obtain ⟨w, -, -, hsmall, hassign, hconvert⟩ := stored_as_integer (q := -5 / 2) hx rfl
    (by rw [hpart]; decide) (by rw [hpart]; decide)
  have hvalue : integerPart w.value = -2 := (hsmall (by norm_num [abs_lt])).trans hpart
  obtain ⟨steps, hassigned⟩ :=
    hassign f ⟨1, "n", none⟩ (.literal 1 (.real x)) m ⟨0, none⟩ rfl rfl rfl rfl (by decide)
  obtain ⟨steps', hconverted⟩ :=
    hconvert m ⟨0, none⟩ (.value (.scalar (.real x))) rfl rfl rfl (by decide)
  rw [hvalue] at hassigned hconverted
  exact ⟨⟨_, hassigned, rfl⟩, _, hconverted, rfl⟩

/-- Not every real becomes its integer part: the fewest digits of 33554448 are
those of 33554450. -/
theorem Ieee.stored_as_another_integer :
    ¬∀ (x : Ieee) (q : Rat), x.IsSingle → x.rational? = some q →
      Scalar.minInteger ≤ integerPart q → integerPart q ≤ Scalar.maxInteger →
      ∀ (m : Machine) (p : Place) (a : Actual), Store.tag (m.store.get p) = .scalar .integer →
        m.store.typeAt? p = some (.integer none) → a.operand m.store = .scalar (.real x) → 0 < m.steps →
        ∃ steps, Builtin.realToInteger.invoke [.reference p, a] m =
          .ok () { m with store := m.store.put p (.integer (integerPart q)), steps } := by
  intro hall
  let m : Machine := { store := { cells := #[.scalar (.integer none) (.integer 0)] }, steps := 1 }
  have hpart : integerPart 33554448 = 33554448 := by
    rw [integerPart, if_neg (by norm_num)]
    norm_num
  let a : Actual := .value (.scalar (.real (.finite 33554448)))
  obtain ⟨steps, h⟩ := hall (.finite 33554448) 33554448 ⟨by decide, by decide +kernel⟩ rfl
    (by rw [hpart]; decide) (by rw [hpart]; decide) m ⟨0, none⟩ a rfl rfl rfl (by decide)
  have hclaimed : (Run.after (Builtin.realToInteger.invoke [.reference ⟨0, none⟩, a]) m).store.get
      ⟨0, none⟩ = .scalar (.integer 33554448) := by
    rw [Run.after, h, hpart]
    rfl
  have hstored : (Run.after (Builtin.realToInteger.invoke [.reference ⟨0, none⟩, a]) m).store.get
      ⟨0, none⟩ = .scalar (.integer 33554450) := by
    decide +kernel
  cases hclaimed.symm.trans hstored

end Shank
