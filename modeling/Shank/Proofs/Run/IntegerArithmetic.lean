/-
# Integers are computed exactly

An operator on two integers comes to its value in the integers, and what does
not fit into 64 bits is a fault that tells it. Nothing wraps
(`Operand.integers_computed_exactly`).

| operator | value | faults on operands of 64 bits |
| --- | --- | --- |
| `+`, `-`, `*` | of the integers | the value does not fit |
| `/` | the quotient without its fraction | division by zero; `-2^63 / -1` |
| `mod` | what the quotient leaves of the dividend | modulus by zero |

The quotient is that of `truncatedDivide?`, for integers of any size: what it
leaves is less than the divisor and has the sign of the dividend
(`exists_truncatedDivide?`).
-/

import Shank.Proofs.Numeral.Truncation
import Shank.Run.Evaluate

namespace Shank

/-! ## Division toward zero

The model divides magnitudes and puts the signs back. What that leaves has the
sign of the dividend.
-/

/-- A quotient without its fraction has the size of the quotient of the sizes. -/
theorem tdiv_eq_integerPart (a b : Int) : a.tdiv b = integerPart (a / b : Rat) := by
  -- both sides change their sign with either operand, so these may be taken without sign
  have hneg (q : Rat) : integerPart (-q) = -integerPart q := by
    rw [integerPart_eq, integerPart_eq, abs_neg]
    rcases lt_trichotomy q 0 with hq | rfl | hq
    · simp [hq, hq.le]
    · simp
    · simp [hq, hq.le]
  have hnat (m n : Nat) : (m : Int).tdiv n = integerPart ((m : Int) / (n : Int) : Rat) := by
    have hnonneg : ¬((m : Int) / (n : Int) : Rat) < 0 := not_lt.2 (by positivity)
    rw [integerPart, if_neg hnonneg, Int.cast_natCast, Int.cast_natCast,
      Rat.floor_natCast_div_natCast, Int.tdiv_eq_ediv_of_nonneg (Int.natCast_nonneg m)]
  obtain ⟨m, rfl | rfl⟩ := a.eq_nat_or_neg <;> obtain ⟨n, rfl | rfl⟩ := b.eq_nat_or_neg
  · exact hnat m n
  · rw [Int.tdiv_neg, hnat, Int.cast_neg, div_neg, hneg]
  · rw [Int.neg_tdiv, hnat, Int.cast_neg, neg_div, hneg]
  · rw [Int.tdiv_neg, Int.neg_tdiv, neg_neg, hnat, Int.cast_neg, Int.cast_neg, neg_div_neg_eq]

/-- **What division toward zero leaves** is less than the divisor, and it has
the sign of the dividend. -/
theorem exists_truncatedDivide? (a : Int) {b : Int} (hb : b ≠ 0) :
    ∃ q r, truncatedDivide? a b = some q ∧ q = integerPart (a / b : Rat) ∧ a = b * q + r ∧
      |r| < |b| ∧ (r = 0 ∨ r.sign = a.sign) := by
  refine ⟨a.tdiv b, a.tmod b, if_neg hb, tdiv_eq_integerPart a b, (Int.mul_tdiv_add_tmod a b).symm,
    ?_, ?_⟩
  · have hless := Nat.mod_lt a.natAbs (Int.natAbs_pos.2 hb)
    rw [← Int.natAbs_tmod] at hless
    rw [Int.abs_eq_natAbs, Int.abs_eq_natAbs]
    omega
  · have hsign := a.sign_tmod b
    split at hsign
    · exact .inl (Int.sign_eq_zero_iff_zero.1 hsign)
    · exact .inr hsign

/-! ## Operators

The value of an operator is told by a relation, in which division is a condition
on quotient and remainder. The operator comes to that value, checked for 64
bits.
-/

/-- An integer that fits into 64 bits. -/
def IsLong (n : Int) : Prop :=
  Scalar.minInteger ≤ n ∧ n ≤ Scalar.maxInteger

instance (n : Int) : Decidable (IsLong n) :=
  inferInstanceAs (Decidable (_ ∧ _))

/-- An operator on two integers has this value. -/
inductive ArithOp.IsValue (a b : Int) : ArithOp → Int → Prop
  | add : IsValue a b add (a + b)
  | sub : IsValue a b sub (a - b)
  | mul : IsValue a b mul (a * b)
  | div (hb : b ≠ 0) : IsValue a b div (integerPart (a / b : Rat))
  | mod (hb : b ≠ 0) : IsValue a b mod (a - b * integerPart (a / b : Rat))

/-- A fault that tells a number is told with all its digits. -/
theorem Cause.message_integerOverflow (n : Int) :
    (integerOverflow n).message = "integer overflow: " ++ Numeral.integerText n :=
  rfl

namespace Operand

variable {s : Store} {a b n : Int}

/-- A number is given if it fits, and told if not. -/
theorem check_integer (n : Int) : (ScalarType.integer none).check (.integer n) =
    if IsLong n then .ok (.integer n) else .error (.integerOverflow n) := by
  have hlong : ¬IsLong n ↔ n < Scalar.minInteger ∨ Scalar.maxInteger < n := by
    rw [IsLong]
    omega
  simp only [ScalarType.check, ← hlong, ite_not]

/-- **An operator comes to its value**, or to a fault that tells it. -/
theorem arithmetic_of_isValue {op : ArithOp} (h : op.IsValue a b n) :
    arithmetic s op (.scalar (.integer a)) (.scalar (.integer b)) =
      if IsLong n then .ok (.integer n) else .error (.of (.integerOverflow n)) := by
  have hcheck := check_integer n
  by_cases hn : IsLong n
  all_goals
    simp only [hn, if_true, if_false] at hcheck ⊢
    cases h with
    | add | sub | mul =>
      simp only [arithmetic, isString, Bool.or_self, Bool.false_eq_true, if_false, integerArithmetic,
        Except.bind, hcheck]
    | div hb | mod hb =>
      rw [← tdiv_eq_integerPart] at hcheck ⊢
      simp only [arithmetic, isString, Bool.or_self, Bool.false_eq_true, if_false, integerArithmetic,
        truncatedDivide?, if_neg hb, Except.bind, hcheck]

/-- Only one quotient of two numbers of 64 bits does not fit. -/
theorem isLong_tdiv_iff (ha : IsLong a) (hb : b ≠ 0) :
    IsLong (a.tdiv b) ↔ ¬(a = Scalar.minInteger ∧ b = -1) := by
  have hsize := Int.natAbs_tdiv a b
  simp only [IsLong, Scalar.minInteger, Scalar.maxInteger] at ha ⊢
  rcases eq_or_ne b (-1) with rfl | hne
  · rw [Int.tdiv_neg, Int.tdiv_one]
    omega
  · rcases eq_or_ne b 1 with rfl | hone
    · rw [Int.tdiv_one]
      omega
    · -- any other divisor halves the dividend at least
      have hhalf : a.natAbs / b.natAbs ≤ a.natAbs / 2 := Nat.div_le_div_left (by omega) (by decide)
      have hsame : a.natAbs.div b.natAbs = a.natAbs / b.natAbs := rfl
      omega

/-- What a quotient leaves of a number of 64 bits fits. -/
theorem isLong_tmod (ha : IsLong a) : IsLong (a.tmod b) := by
  have hsize := Int.natAbs_tmod a b
  have hle := Nat.mod_le a.natAbs b.natAbs
  have hsign := a.sign_tmod b
  simp only [IsLong, Scalar.minInteger, Scalar.maxInteger] at ha ⊢
  split at hsign
  · rw [Int.sign_eq_zero_iff_zero.1 hsign]
    omega
  · rcases lt_trichotomy a 0 with h | rfl | h
    · rw [Int.sign_eq_neg_one_of_neg h, Int.sign_eq_neg_one_iff_neg] at hsign
      omega
    · omega
    · omega

/-- What fails unless a condition holds, fails just if it does not. -/
theorem error_iff_of_eq_ite {p : Prop} [Decidable p] {x : Except Halt Scalar} {v : Scalar} {e : Halt}
    (h : x = if p then .ok v else .error e) : (∃ h, x = .error h) ↔ ¬p := by
  subst h
  split <;> simp_all

/-- **Integers are computed exactly.** Division toward zero, of integers of any
size, gives the quotient without its fraction, and leaves less than the divisor
with the sign of the dividend. An operator on two numbers of 64 bits comes to
its value if that fits into 64 bits, and else to a fault that tells the value;
so `mod` comes to what the division leaves. A division by zero is a fault, and
so is the remainder; apart from that no remainder is one, and no quotient but
the one of the smallest number by -1. -/
theorem integers_computed_exactly :
    (∀ a b : Int, b ≠ 0 → ∃ q r, truncatedDivide? a b = some q ∧ q = integerPart (a / b : Rat) ∧
      a = b * q + r ∧ |r| < |b| ∧ (r = 0 ∨ r.sign = a.sign) ∧
      ∀ s, IsLong a → arithmetic s .mod (.scalar (.integer a)) (.scalar (.integer b)) =
        .ok (.integer r)) ∧
    (∀ n, (Cause.integerOverflow n).message = "integer overflow: " ++ Numeral.integerText n) ∧
    ∀ (s : Store) (a b : Int), IsLong a → IsLong b →
      let value (op : ArithOp) := arithmetic s op (.scalar (.integer a)) (.scalar (.integer b))
      (∀ op n, op.IsValue a b n →
        value op = if IsLong n then .ok (.integer n) else .error (.of (.integerOverflow n))) ∧
      (b = 0 → value .div = .error (.of .divisionByZero) ∧ value .mod = .error (.of .modulusByZero)) ∧
      ((∃ h, value .div = .error h) ↔ b = 0 ∨ (a = Scalar.minInteger ∧ b = -1)) ∧
      ((∃ h, value .mod = .error h) ↔ b = 0) := by
  have hmod (s : Store) {a b : Int} (ha : IsLong a) (hb : b ≠ 0) :
      arithmetic s .mod (.scalar (.integer a)) (.scalar (.integer b)) = .ok (.integer (a.tmod b)) := by
    rw [arithmetic_of_isValue (.mod hb), ← tdiv_eq_integerPart, ← Int.tmod_def, if_pos (isLong_tmod ha)]
  refine ⟨fun a b hb => ?_, Cause.message_integerOverflow, fun s a b ha _ => ?_⟩
  · obtain ⟨q, r, hq, hpart, hsum, hless, hsign⟩ := exists_truncatedDivide? a hb
    refine ⟨q, r, hq, hpart, hsum, hless, hsign, fun s ha => ?_⟩
    have hr : r = a.tmod b := by
      rw [Int.tmod_def, tdiv_eq_integerPart, ← hpart]
      omega
    rw [hmod s ha hb, hr]
  · intro value
    refine ⟨fun op n h => arithmetic_of_isValue h, ?_, ?_, ?_⟩
    · rintro rfl
      exact ⟨rfl, rfl⟩
    · rcases eq_or_ne b 0 with rfl | hb
      · exact iff_of_true ⟨_, rfl⟩ (.inl rfl)
      · have hdiv := arithmetic_of_isValue (s := s) (a := a) (.div hb)
        rw [← tdiv_eq_integerPart] at hdiv
        rw [error_iff_of_eq_ite hdiv, isLong_tdiv_iff ha hb, not_not, or_iff_right hb]
    · rcases eq_or_ne b 0 with rfl | hb
      · exact iff_of_true ⟨_, rfl⟩ rfl
      · exact iff_of_false (fun ⟨h, he⟩ => nomatch (hmod s ha hb).symm.trans he) hb

/-- The hypotheses of `integers_computed_exactly` are satisfiable: -7 leaves -1
when it is divided by 2, and the smallest number does not fit when it is divided
by -1. -/
theorem integers_computed_exactly_smallest :
    arithmetic {} .mod (.scalar (.integer (-7))) (.scalar (.integer 2)) = .ok (.integer (-1)) ∧
    ∃ h, arithmetic {} .div (.scalar (.integer Scalar.minInteger)) (.scalar (.integer (-1))) =
      .error h := by
  obtain ⟨q, r, hq, -, hsum, -, -, hr⟩ := integers_computed_exactly.1 (-7) 2 (by decide)
  obtain rfl : -3 = q := Option.some.inj hq
  obtain rfl : r = -1 := by omega
  exact ⟨hr {} (by decide),
    (integers_computed_exactly.2.2 {} Scalar.minInteger (-1) (by decide) (by decide)).2.2.1.2
      (.inr ⟨rfl, rfl⟩)⟩

end Operand
end Shank
