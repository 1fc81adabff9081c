/-
# Conversions that fail are told on one line

What is told of a text that does not convert is the text itself, white space at
its ends aside, or the numbers and bounds it was compared with. None of them
ends a line unless the text does (`Store.isPlain_of_reading`). A built-in
function that is refused for it tells one line then (`Builtin.refuse_fault`).

A refusal is told by a message with texts in it: those of numbers and ranges,
and the text that did not convert. Each is followed to the characters it is made
of.
-/

import Shank.Proofs.Print.Numerals
import Shank.Proofs.Run.Misuse
import Shank.Proofs.Token.Unreadable

namespace Shank

/-! ## Numbers

The text of a number is digits, and perhaps a sign, a point and an exponent, or
one of the words for what is no finite number. None of its characters ends a
line.
-/

/-- What the text of a number is made of. -/
def IsNumeric (c : Char) : Prop :=
  c.isDigit = true ∨ c ∈ ['-', '+', '.', 'e']

instance (c : Char) : Decidable (IsNumeric c) :=
  inferInstanceAs (Decidable (_ ∨ _))

/-- A text of numeric characters ends no line. -/
theorem isPlain_of_isNumeric {cs : List Char} (h : ∀ c ∈ cs, IsNumeric c) : IsPlain (String.ofList cs) := by
  intro hmem
  rw [String.toList_ofList] at hmem
  exact absurd (h _ hmem) (by decide)

/-- The text of an integer ends no line. -/
theorem Numeral.isPlain_integerText (n : Int) : IsPlain (integerText n) := by
  intro hmem
  exact absurd (mem_integerText hmem) (by decide)

namespace Decimal

/-- Digits are numeric. -/
theorem isNumeric_toDigits {n : Nat} {c : Char} (h : c ∈ Nat.toDigits 10 n) : IsNumeric c :=
  .inl (Nat.isDigit_of_mem_toDigits (by decide) (by decide) h)

/-- The digits of a decimal are numeric. -/
theorem isNumeric_digits {x : Decimal} {c : Char} (h : c ∈ x.digits) : IsNumeric c := by
  unfold digits at h
  split at h
  · obtain rfl := List.mem_singleton.1 h
    decide
  · exact isNumeric_toDigits ((Text.trimEnd_prefix _ _).subset h)

/-- A number with its point has numeric characters only. -/
theorem isNumeric_positional {whole : Nat} {ds : List Char} (hds : ∀ c ∈ ds, IsNumeric c) {c : Char}
    (h : c ∈ positional whole ds) : IsNumeric c := by
  have hright : ∀ c ∈ (if (ds.drop whole).isEmpty then ['0'] else ds.drop whole), IsNumeric c := by
    split
    · exact List.forall_mem_singleton.2 (by decide)
    · exact fun c hc => hds c (List.mem_of_mem_drop hc)
  rcases List.mem_append.1 h with h | h
  · rcases List.mem_append.1 h with h | h
    · exact hds c (List.mem_of_mem_take h)
    · rw [List.eq_of_mem_replicate h]
      decide
  · rcases List.mem_cons.1 h with rfl | h
    · decide
    · exact hright c h

/-- An exponent with its sign has numeric characters only. -/
theorem isNumeric_exponentText {k : Int} {c : Char} (h : c ∈ exponentText k) : IsNumeric c := by
  rcases List.mem_cons.1 h with rfl | h
  · decide
  rcases List.mem_cons.1 h with rfl | h
  · split <;> decide
  rcases List.mem_append.1 h with h | h
  · rw [List.eq_of_mem_replicate h]
    decide
  · exact isNumeric_toDigits h

/-- A number with an exponent has numeric characters only. -/
theorem isNumeric_scientific {k : Int} {ds : List Char} (hds : ∀ c ∈ ds, IsNumeric c) {c : Char}
    (h : c ∈ scientific k ds) : IsNumeric c := by
  unfold scientific at h
  split at h
  · exact isNumeric_exponentText h
  · rcases List.mem_cons.1 h with rfl | h
    · exact hds _ (List.mem_singleton_self _)
    · exact isNumeric_exponentText h
  · rename_i d ds _
    rcases List.mem_cons.1 h with rfl | h
    · exact hds _ (List.mem_cons_self ..)
    rcases List.mem_cons.1 h with rfl | h
    · decide
    rcases List.mem_append.1 h with h | h
    · exact hds _ (List.mem_cons_of_mem _ h)
    · exact isNumeric_exponentText h

/-- **The text of a decimal is numeric**, whichever form it takes. -/
theorem isNumeric_text {limit : Int} {x : Decimal} {c : Char} (h : c ∈ x.text limit) : IsNumeric c := by
  have hdigits : ∀ c ∈ x.digits, IsNumeric c := fun c hc => isNumeric_digits hc
  unfold text at h
  dsimp only at h
  split at h
  · exact isNumeric_scientific hdigits h
  · split at h
    · refine isNumeric_positional (fun c hc => ?_) h
      rcases List.mem_append.1 hc with hc | hc
      · rw [List.eq_of_mem_replicate hc]
        decide
      · exact hdigits c hc
    · exact isNumeric_positional hdigits h

end Decimal

/-- The text of a double ends no line, nor do those of infinities and of NaN. -/
theorem Ieee.isPlain_doubleText (x : Ieee) : IsPlain x.doubleText := by
  cases x with
  | nan | negativeZero => decide
  | infinity negative => cases negative <;> decide
  | finite q =>
    unfold doubleText
    dsimp only
    split
    · rw [specialText]
      decide
    · refine isPlain_of_isNumeric fun c hc => ?_
      rcases List.mem_append.1 hc with hc | hc
      · split at hc
        · obtain rfl := List.mem_singleton.1 hc
          decide
        · cases hc
      · exact Decimal.isNumeric_text hc

/-! ## Ranges

A range is told by its two bounds.
-/

/-- The text of a bound ends no line. -/
theorem Bound.isPlain_text (b : Bound) : IsPlain b.text := by
  cases b with
  | whole n => exact Numeral.isPlain_integerText n
  | real x => exact x.isPlain_doubleText

/-- The text of a range of integers ends no line. -/
theorem Interval.isPlain_text (r : Interval) : IsPlain r.text :=
  have hto : IsPlain " to " := by decide
  ((Numeral.isPlain_integerText r.low).append hto).append (Numeral.isPlain_integerText r.high)

/-- The text of a range of reals ends no line. -/
theorem RealInterval.isPlain_text (r : RealInterval) : IsPlain r.text :=
  have hto : IsPlain " to " := by decide
  (r.low.isPlain_text.append hto).append r.high.isPlain_text

/-! ## Conversions

What is told of a text that does not convert holds the text, or the number that
it stands for and a range.
-/

/-- A plain text stays plain without the white space at its ends. -/
theorem IsPlain.stripped {s : String} (h : IsPlain s) : IsPlain (Text.stripped s) := by
  intro hmem
  rw [Text.stripped, String.toList_ofList] at hmem
  exact h ((List.dropWhile_suffix _).subset ((Text.trimEnd_prefix _ _).subset hmem))

/-- A plain line stays plain without its end. -/
theorem IsPlain.chomped {s : String} (h : IsPlain s) : IsPlain (Text.chomped s) := by
  intro hmem
  rw [Text.chomped, String.toList_ofList] at hmem
  exact h ((Text.trimEnd_prefix _ _).subset hmem)

namespace ScalarType

/-- What is told of a number out of its range is plain: it is made of numbers
and of fixed words. -/
theorem isPlain_of_check {type : ScalarType} {v : Scalar} {c : Cause} (h : type.check v = .error c) :
    IsPlain c.message := by
  have hinteger : IsPlain "integer " := by decide
  have hreal : IsPlain "real " := by decide
  have hlength : IsPlain "string length " := by decide
  have hrange : IsPlain " outside declared range " := by decide
  unfold check at h
  split at h
  · split at h
    · cases h
      have hoverflow : IsPlain "integer overflow: " := by decide
      exact hoverflow.append (Numeral.isPlain_integerText _)
    · split at h
      · split at h
        · cases h
        · cases h
          exact ((hinteger.append (Numeral.isPlain_integerText _)).append hrange).append
            (Interval.isPlain_text _)
      · cases h
  · split at h
    · cases h
    · cases h
      exact ((hreal.append (Ieee.isPlain_doubleText _)).append hrange).append (RealInterval.isPlain_text _)
  · split at h
    · cases h
    · cases h
      exact ((hlength.append (isPlain_toString _)).append hrange).append (Interval.isPlain_text _)
  · cases h

/-- What is told of a plain text that does not convert is plain. -/
theorem isPlain_notConvertible {text : String} (ht : IsPlain text) (kind : Kind) :
    IsPlain (Cause.notConvertible text kind).message := by
  have hstart : IsPlain "cannot convert '" := by decide
  have hto : IsPlain "' to " := by decide
  have hkind : IsPlain kind.name := by cases kind <;> decide
  exact ((hstart.append ht).append hto).append hkind

/-- What is told of a text that a variable does not take is one line if the text
is. The text itself is told if it does not convert, and its number if that is
out of range. -/
theorem isPlain_of_read {type : ScalarType} {text : String} {c : Cause} (ht : IsPlain text)
    (h : type.read text = .error c) : IsPlain c.message := by
  unfold read at h
  cases hv : Scalar.ofText type.kind text with
  | ok v =>
    rw [hv] at h
    exact isPlain_of_check h
  | error c' =>
    rw [hv] at h
    cases h
    -- each kind has its own message
    unfold Scalar.ofText at hv
    split at hv
    · dsimp only at hv
      split at hv
      · cases hv
      · cases hv
        exact isPlain_notConvertible ht.stripped .integer
    · split at hv
      · cases hv
      · cases hv
        exact isPlain_notConvertible ht .real
    · cases hv
    · split at hv
      · cases hv
      · cases hv
        have hstart : IsPlain "character value must be exactly one character, got '" := by decide
        have hquote : IsPlain "'" := by decide
        exact (hstart.append ht).append hquote
    · split at hv
      · cases hv
      · cases hv
        exact isPlain_notConvertible ht .boolean

end ScalarType

/-- **What is told of a text that cannot be stored is one line if the text is.** -/
theorem Store.isPlain_of_reading {s : Store} {q : Place} {text : String} {c : Cause} (ht : IsPlain text)
    (h : s.reading q text = .error c) : IsPlain c.message := by
  unfold reading at h
  split at h
  · exact ScalarType.isPlain_of_read ht h
  · cases h
    decide

/-! ## Refusals

One line of report, made of the name of the function and the problem.
-/

/-- **A built-in function that is refused tells one line**, and changes nothing
else. -/
theorem Builtin.refuse_fault (b : Builtin) (c : Cause) (m : Machine) :
    ∃ events line, b.refuse (.fault c) m = .ok () { m with events } ∧
      events.toList = m.events.toList ++ [.noticed (.builtinRefused b.name c.message), .reported line] ∧
      line = s!"{b.signature}: {c.message}" ∧ (IsPlain c.message → IsPlain line) := by
  refine ⟨_, _, rfl, ?_, rfl, fun h => ?_⟩
  · simp only [Array.toList_push, List.append_assoc]
    rfl
  · have hsignature : IsPlain s!"{b.signature}: " := by cases b <;> decide +kernel
    exact hsignature.append h

end Shank
