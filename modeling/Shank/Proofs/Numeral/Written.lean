/-
# What a numeral stands for

A numeral is written with a sign, digits, a fraction and a power of ten, of
which only some digits have to be there. Its parts tell the number
(`Written.magnitude`, `Written.negative`), exactly and without a word on how it
is read.

| part | example |
| --- | --- |
| `sign` | `-`, `+` or none |
| `whole` | decimal digits of any script, none before a point if one likes |
| `fraction` | `.` and digits, none after the point if there are some before it |
| `power` | `e` or `E`, perhaps a sign, and digits |

The text of a numeral is read as the double nearest to the number
(`Written.exists_rounds`). It is no integer numeral if it has a fraction or a
power (`Written.integer?_text`).
-/

import Mathlib.Data.Nat.Digits.Defs
import Shank.Proofs.Ieee.Decimals
import Shank.Proofs.Print.Numerals

namespace Shank

/-! ## Decimal digits of any script

A decimal digit is worth how far it is from the zero of its script, and the
scripts do not overlap. So digits stand for a number, whatever scripts they are
of.
-/

section Digits

variable {c : Char}

/-- The scripts lie between the white space. -/
theorem Text.decimalZeros_apart : ∀ z ∈ decimalZeros,
    z = 0x30 ∨ 0x100 ≤ z ∧ z + 10 ≤ 0x1680 ∨ 0x1680 < z ∧ z + 10 ≤ 0x2000 ∨
      0x205F < z ∧ z + 10 ≤ 0x3000 ∨ 0x3000 < z := by
  decide

/-- A decimal digit lies within the ten that start with the zero of its script. -/
theorem Text.exists_zero_of_isDecimal (h : isDecimal c = true) :
    ∃ z ∈ decimalZeros, z ≤ c.toNat ∧ c.toNat < z + 10 := by
  obtain ⟨d, hd⟩ := Option.isSome_iff_exists.1 h
  obtain ⟨z, hz, -⟩ := Option.map_eq_some_iff.1 hd
  exact ⟨z, List.mem_of_find?_eq_some hz, by simpa using List.find?_some hz⟩

/-- No digit is white space. -/
theorem Text.isBlank_of_isDecimal (h : isDecimal c = true) : isBlank c = false := by
  obtain ⟨z, hz, hlow, hhigh⟩ := exists_zero_of_isDecimal h
  have := decimalZeros_apart z hz
  simp only [isBlank, isPadding, isSeparator, Bool.or_eq_false_iff, Bool.and_eq_false_iff,
    decide_eq_false_iff_not, beq_eq_false_iff_ne]
  omega

/-- What is no white space is not dropped at the ends of a text. -/
theorem Text.isPadding_eq_false_of_isBlank (h : isBlank c = false) : isPadding c = false :=
  (Bool.or_eq_false_iff.1 h).2

/-- A digit has no other case, so a text in lower case keeps it. -/
theorem Text.toLower_of_isDecimal (h : isDecimal c = true) : c.toLower = c := by
  obtain ⟨z, hz, hlow, hhigh⟩ := exists_zero_of_isDecimal h
  have := decimalZeros_apart z hz
  refine dif_neg fun hupper => ?_
  have hA : 'A'.toNat ≤ c.toNat := hupper.1
  have hZ : c.toNat ≤ 'Z'.toNat := hupper.2
  simp only [Char.reduceToNat] at hA hZ
  omega

end Digits

namespace Numeral

/-- The number that decimal digits stand for. -/
def number (ds : List Char) : Nat :=
  Nat.ofDigits 10 (ds.reverse.map digitValue)

/-- The digits in front count by the power of ten of those behind. -/
theorem number_append (ds es : List Char) :
    number (ds ++ es) = number ds * 10 ^ es.length + number es := by
  rw [number, List.reverse_append, List.map_append, Nat.ofDigits_append, List.length_map,
    List.length_reverse, number, number]
  ring

/-- Zeros stand for zero. -/
theorem number_zeros (k : Nat) : number (List.replicate k '0') = 0 := by
  induction k with
  | zero => rfl
  | succ k ih =>
    rw [List.replicate_succ', number_append, ih]
    rfl

/-- What the reader computes of the values of digits is the number they stand
for. -/
theorem ofDigits_map_digitValue (ds : List Char) : ofDigits (ds.map digitValue) = number ds := by
  rw [ofDigits, number, List.map_reverse, Nat.ofDigits_eq_foldr, List.foldr_reverse]
  simp only [add_comm, Nat.cast_id]

/-- For the digits of the Latin script there is a function of the library. -/
theorem number_eq_ofDigitChars {ds : List Char} (hds : ∀ c ∈ ds, c.isDigit = true) :
    number ds = Nat.ofDigitChars 10 ds 0 := by
  rw [← ofDigits_map_digitValue, map_digitValue hds, ofDigits_map]

/-- The digits of a number stand for it. -/
theorem number_toDigits (n : Nat) : number (Nat.toDigits 10 n) = n := by
  rw [number_eq_ofDigitChars fun c hc => Nat.isDigit_of_mem_toDigits (by decide) (by decide) hc,
    Nat.ofDigitChars_ten_toDigits]

/-- The digits after a point, if there is one, and what follows. -/
def afterPoint : List Char → List Nat × List Char
  | '.' :: cs => digitRun cs
  | cs => ([], cs)

/-- **How a decimal is read**, part by part: digits, the digits after a point,
and an exponent. There must be a digit in front of the exponent, on either side
of the point. -/
theorem decimal?_eq (cs : List Char) :
    decimal? cs =
      if (digitRun cs).1.isEmpty && (afterPoint (digitRun cs).2).1.isEmpty then none
      else (exponent? (afterPoint (digitRun cs).2).2).map fun e =>
        ⟨ofDigits ((digitRun cs).1 ++ (afterPoint (digitRun cs).2).1),
          e - (afterPoint (digitRun cs).2).1.length⟩ :=
  rfl

/-! ## The parts of a numeral

A numeral is given by its parts: a sign, digits, a point with more digits, and a
power. The number that it stands for is defined from the parts, without reading
anything.
-/

/-- A sign (is it a minus?) as it is written; there may be none. -/
def signText : Option Bool → List Char
  | none => []
  | some true => ['-']
  | some false => ['+']

/-- Is there a minus? -/
def isMinus (sign : Option Bool) : Bool :=
  sign == some true

/-- The power of ten at the end of a numeral. -/
structure Power where
  isUpper : Bool := false
  sign : Option Bool := none
  digits : List Char
  isDecimal : ∀ c ∈ digits, Text.isDecimal c = true := by exact List.all_eq_true.1 rfl
  ne_nil : digits ≠ [] := by decide

namespace Power

/-- The power as it is written: the letter in its case, the sign and the digits. -/
def text (p : Power) : List Char :=
  (if p.isUpper then 'E' else 'e') :: (signText p.sign ++ p.digits)

/-- The exponent that is written. -/
def exponent (p : Power) : Int :=
  if isMinus p.sign then -(number p.digits : Int) else number p.digits

end Power

/-- A numeral in its parts. -/
structure Written where
  sign : Option Bool := none
  whole : List Char
  fraction : Option (List Char) := none
  power : Option Power := none
  isDecimal : ∀ c ∈ whole ++ fraction.getD [], Text.isDecimal c = true := by
    exact List.all_eq_true.1 rfl
  ne_nil : whole ++ fraction.getD [] ≠ [] := by decide

namespace Written

variable (w : Written)

/-- The digits after the point. -/
def decimals : List Char :=
  w.fraction.getD []

/-- The exponent of a numeral; it is zero if there is no power. -/
def exponent : Int :=
  (w.power.map Power.exponent).getD 0

/-- Is the number, or the zero, negative? -/
def negative : Bool :=
  isMinus w.sign

/-- **The number that the numeral stands for**, without its sign. -/
def magnitude : Rat :=
  (number w.whole + number w.decimals / 10 ^ w.decimals.length) * 10 ^ w.exponent

/-- What is written after the digits before the point. -/
def tail : List Char :=
  (w.fraction.elim [] ('.' :: ·)) ++ w.power.elim [] Power.text

/-- The numeral without its sign. -/
def body : List Char :=
  w.whole ++ w.tail

/-- The numeral as it is written. -/
def text : String :=
  String.ofList (signText w.sign ++ w.body)

/-- The number as a decimal, with all of its digits. -/
def decimal : Decimal :=
  ⟨number (w.whole ++ w.decimals), w.exponent - w.decimals.length⟩

/-- The number, as the digits in units of the last one. -/
theorem magnitude_eq : w.magnitude =
    number (w.whole ++ w.decimals) * 10 ^ (w.exponent - w.decimals.length) := by
  rw [magnitude, number_append, zpow_sub₀ (by norm_num), zpow_natCast]
  push_cast
  field_simp

/-- **The decimal of a numeral is the number that it stands for.** -/
theorem value_decimal : w.decimal.value = w.magnitude := by
  rw [Decimal.value_eq, decimal, w.magnitude_eq]

/-- The number without its sign is not negative. -/
theorem magnitude_nonneg : 0 ≤ w.magnitude := by
  rw [magnitude]
  positivity

/-! ## Characters

None of the characters of a numeral is white space, so nothing is cut off when
the text is trimmed.
-/

/-- The characters that a numeral is written with. -/
def IsMark (c : Char) : Prop :=
  Text.isDecimal c = true ∨ c = '-' ∨ c = '+' ∨ c = '.' ∨ c = 'e' ∨ c = 'E'

/-- No character of a numeral is white space. -/
theorem isBlank_of_isMark {c : Char} (h : IsMark c) : Text.isBlank c = false := by
  rcases h with h | rfl | rfl | rfl | rfl | rfl
  · exact Text.isBlank_of_isDecimal h
  all_goals decide

/-- A sign is made of characters of numerals. -/
theorem isMark_of_mem_signText {sign : Option Bool} {c : Char} (h : c ∈ signText sign) : IsMark c := by
  cases sign with
  | none => cases h
  | some minus => cases minus <;> simp_all [signText, IsMark]

/-- A power is made of characters of numerals. -/
theorem isMark_of_mem_power {p : Power} {c : Char} (h : c ∈ p.text) : IsMark c := by
  rw [Power.text, List.mem_cons, List.mem_append] at h
  rcases h with rfl | h | h
  · cases p.isUpper <;> simp [IsMark]
  · exact isMark_of_mem_signText h
  · exact .inl (p.isDecimal c h)

/-- What stands behind the sign is made of characters of numerals. -/
theorem isMark_of_mem_body {c : Char} (h : c ∈ w.body) : IsMark c := by
  rw [body, tail, List.mem_append, List.mem_append] at h
  rcases h with h | h | h
  · exact .inl (w.isDecimal c (List.mem_append_left _ h))
  · cases hf : w.fraction with
    | none =>
      rw [hf] at h
      cases h
    | some ds =>
      rw [hf] at h
      rcases List.mem_cons.1 h with rfl | h
      · simp [IsMark]
      · exact .inl (w.isDecimal c (List.mem_append_right _ (by rwa [hf])))
  · cases hp : w.power with
    | none =>
      rw [hp] at h
      cases h
    | some p =>
      rw [hp] at h
      exact isMark_of_mem_power h

/-- A numeral is made of characters of numerals. -/
theorem isMark_of_mem_text {c : Char} (h : c ∈ w.text.toList) : IsMark c := by
  rw [text, String.toList_ofList, List.mem_append] at h
  exact h.elim isMark_of_mem_signText w.isMark_of_mem_body

/-- There is no white space in a numeral. -/
theorem stripped_text : Text.stripped w.text = w.text := by
  rw [Text.stripped, Text.trim_eq_self fun c hc => isBlank_of_isMark (w.isMark_of_mem_text hc),
    String.ofList_toList]

/-- Without its sign a numeral starts with a digit or with the point. -/
theorem exists_body_eq_cons : ∃ c cs, w.body = c :: cs ∧ (Text.isDecimal c = true ∨ c = '.') := by
  cases hwhole : w.whole with
  | cons c cs =>
    exact ⟨c, cs ++ w.tail, by rw [body, hwhole]; rfl,
      .inl (w.isDecimal c (by simp [hwhole]))⟩
  | nil =>
    cases hfraction : w.fraction with
    | none => exact absurd (by simp [hwhole, hfraction]) w.ne_nil
    | some ds =>
      exact ⟨'.', ds ++ w.power.elim [] Power.text, by simp [body, tail, hwhole, hfraction], .inr rfl⟩

/-! ## Reading

The reader takes the parts off the front of the text, one after the other. Each
part ends where the next one starts, since it cannot go on with the first
character of that.
-/

/-- The sign is read as it is written, if what follows starts with none. -/
theorem sign_signText {sign : Option Bool} {cs : List Char}
    (h : ∀ c ∈ cs.head?, c ≠ '-' ∧ c ≠ '+') :
    Numeral.sign (signText sign ++ cs) = (isMinus sign, cs) := by
  cases sign with
  | some minus => cases minus <;> rfl
  | none =>
    cases cs with
    | nil => rfl
    | cons c cs =>
      obtain ⟨hminus, hplus⟩ := h c rfl
      rw [signText, List.nil_append, Numeral.sign.eq_def]
      split
      · rename_i e
        exact absurd (List.cons.inj e).1 hminus
      · rename_i e
        exact absurd (List.cons.inj e).1 hplus
      · rfl

/-- A digit is no sign. -/
theorem ne_sign_of_isDecimal {c : Char} (h : Text.isDecimal c = true) : c ≠ '-' ∧ c ≠ '+' := by
  constructor <;> rintro rfl <;> exact absurd h (by decide)

/-- **The sign of a numeral is read off its front**, and the rest is what is
written behind it. -/
theorem sign_text : Numeral.sign (Text.trim Text.isPadding w.text.toList) = (w.negative, w.body) := by
  obtain ⟨c, cs, hbody, hc⟩ := w.exists_body_eq_cons
  rw [Text.trim_eq_self fun c hc =>
    Text.isPadding_eq_false_of_isBlank (isBlank_of_isMark (w.isMark_of_mem_text hc)), text,
    String.toList_ofList, sign_signText, negative]
  rw [hbody]
  rintro _ ⟨⟩
  rcases hc with hc | rfl
  · exact ne_sign_of_isDecimal hc
  · decide

/-- The exponent that is written is the one that is read. -/
theorem exponent?_text (p : Power) : exponent? p.text = some p.exponent := by
  have hhead : ∀ c ∈ p.digits.head?, c ≠ '-' ∧ c ≠ '+' := fun c hc =>
    ne_sign_of_isDecimal (p.isDecimal c (List.mem_of_mem_head? hc))
  have hmark : (if p.isUpper then 'E' else 'e') = 'e' ∨ (if p.isUpper then 'E' else 'e') = 'E' := by
    cases p.isUpper <;> simp
  rw [Power.text, exponent?, if_pos hmark, sign_signText hhead]
  simp only [digitRun_decimals_nil p.isDecimal]
  rw [Power.exponent, ← ofDigits_map_digitValue]
  cases hds : p.digits with
  | nil => exact absurd hds p.ne_nil
  | cons d ds => rfl

/-- The exponent is read as it is written, also if there is none. -/
theorem exponent?_power : exponent? (w.power.elim [] Power.text) = some w.exponent := by
  rw [exponent]
  cases w.power with
  | none => rfl
  | some p => exact exponent?_text p

/-- What a power starts with is no digit. -/
theorem head_power : ∀ c ∈ (w.power.elim [] Power.text).head?,
    Text.isDecimal c = false ∧ c ≠ '_' ∧ c ≠ '.' := by
  cases w.power with
  | none => simp
  | some p =>
    rintro c ⟨⟩
    cases p.isUpper <;> decide

/-- What stands behind the digits does not go on with them, so all of them are
read and no more. -/
theorem head_tail : ∀ c ∈ w.tail.head?, Text.isDecimal c = false ∧ c ≠ '_' := by
  rw [tail]
  cases w.fraction with
  | none => exact fun c hc => ⟨(w.head_power c hc).1, (w.head_power c hc).2.1⟩
  | some ds =>
    rintro c ⟨⟩
    decide

/-- The digits before the point are read, and what stands behind them is left. -/
theorem digitRun_body : digitRun w.body = (w.whole.map digitValue, w.tail) :=
  digitRun_decimals (fun c hc => w.isDecimal c (List.mem_append_left _ hc)) w.head_tail

/-- The digits after the point, and the power. -/
theorem afterPoint_tail :
    afterPoint w.tail = (w.decimals.map digitValue, w.power.elim [] Power.text) := by
  rw [tail, decimals]
  cases hfraction : w.fraction with
  | some ds =>
    exact digitRun_decimals (fun c hc => w.isDecimal c (List.mem_append_right _ (by rwa [hfraction])))
      fun c hc => ⟨(w.head_power c hc).1, (w.head_power c hc).2.1⟩
  | none =>
    rw [Option.elim_none, List.nil_append, afterPoint.eq_def]
    split
    · rename_i cs h
      exact absurd rfl (w.head_power '.' (by rw [h]; rfl)).2.2
    · rfl

/-- The decimal that is read. -/
theorem decimal?_body : decimal? w.body = some w.decimal := by
  have hempty : ((w.whole.map digitValue).isEmpty && (w.decimals.map digitValue).isEmpty) = false := by
    cases hwhole : w.whole with
    | cons c cs => rfl
    | nil =>
      cases hdecimals : w.decimals with
      | cons c cs => rfl
      | nil => exact absurd (by rw [hwhole]; exact hdecimals) w.ne_nil
  rw [decimal?_eq, w.digitRun_body]
  simp only [w.afterPoint_tail, hempty, w.exponent?_power, Option.map_some, ← List.map_append,
    ofDigits_map_digitValue, List.length_map, Bool.false_eq_true, if_false]
  rfl

/-- **A numeral is read as the double of its decimal**, with its sign. No word
for an infinity or a NaN starts with a digit or a point. -/
theorem real?_text : real? w.text = some (Format.double.ofDecimal w.negative w.decimal) := by
  obtain ⟨c, cs, hbody, hc⟩ := w.exists_body_eq_cons
  -- the word is none of those with a meaning
  have hlower : c.toLower = c := by
    rcases hc with hc | rfl
    · exact Text.toLower_of_isDecimal hc
    · decide
  have hword : ∀ s : String, s.toList.head? ≠ some c →
      String.ofList (w.body.map Char.toLower) ≠ s := by
    rintro _ hs rfl
    refine hs ?_
    rw [String.toList_ofList, hbody, List.map_cons, List.head?_cons, hlower]
  have hhead : ∀ {d : Char}, Text.isDecimal d = false → d ≠ '.' → some d ≠ some c := by
    rintro d hd hpoint ⟨⟩
    rcases hc with hc | hc
    · rw [hd] at hc
      cases hc
    · exact hpoint hc
  rw [real?, w.sign_text]
  simp only
  rw [if_neg (not_or.2 ⟨hword "inf" (hhead (by decide) (by decide)),
    hword "infinity" (hhead (by decide) (by decide))⟩),
    if_neg (hword "nan" (hhead (by decide) (by decide))), w.decimal?_body]
  rfl

/-- **A numeral is read as the double nearest to the number that it stands
for.** -/
theorem exists_rounds :
    ∃ x, real? w.text = some x ∧ Format.double.Rounds w.negative w.magnitude x :=
  ⟨_, w.real?_text, w.value_decimal ▸ Format.rounds_ofDecimal Format.proper_double _ _⟩

/-- A numeral with a fraction or a power is no integer. -/
theorem integer?_text (h : w.tail ≠ []) : integer? w.text = .error .malformed := by
  rw [integer?, w.sign_text]
  simp only [w.digitRun_body]
  split
  · rfl
  · rename_i heq
    exact absurd (Prod.mk.inj heq).2 h
  · rfl

/-- Another one is, with no more digits than an integer may have. -/
theorem integer?_whole (h : w.tail = []) (hlength : w.whole.length ≤ longestInteger) :
    integer? w.text = .ok (if w.negative then -(number w.whole : Int) else number w.whole) := by
  obtain ⟨c, cs, hcons, -⟩ := w.exists_body_eq_cons
  rw [body, h, List.append_nil] at hcons
  have hrun := w.digitRun_body
  rw [h, hcons, List.map_cons] at hrun
  rw [hcons] at hlength
  rw [integer?, w.sign_text]
  simp only [hrun]
  rw [if_neg (by simpa using hlength), ← List.map_cons, ofDigits_map_digitValue, hcons]

end Written
end Numeral
end Shank
