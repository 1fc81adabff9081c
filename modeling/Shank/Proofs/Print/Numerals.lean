/-
# Numerals are read back

An integer is written in decimal digits. A real is written in any way that is
read as a number, has a point, and stands for a double that rounds to it
(`Numeral.Spells`); which way that is does not matter. A sign is a token of its
own.

The reader knows digits of all scripts, underscores between digits and white
space around them. What is written has none of that, so of the reader only the
way through Latin digits is needed.
-/

import Shank.Parse.Expr
import Shank.Proofs.Ieee.Rounding
import Shank.Proofs.Print.Source
import Shank.Proofs.Print.WellFormed

namespace Shank

/-! ## Digits

The digits that are written are Latin ones. They are read with their usual
values, so the number that is read is that of the digits in the library.
-/

/-- A Latin digit has its usual value. -/
theorem Text.digit?_of_isDigit {c : Char} (h : c.isDigit = true) :
    digit? c = some (c.toNat - '0'.toNat) := by
  obtain ⟨hlow, hhigh⟩ := Char.isDigit_iff_toNat.1 h
  have hfound : decimalZeros.find? (fun z => z ≤ c.toNat && c.toNat < z + 10) = some 0x30 :=
    List.find?_cons_of_pos (by
      simp only [Char.reduceToNat] at hlow hhigh
      simp only [Bool.and_eq_true, decide_eq_true_eq]
      omega)
  rw [digit?, hfound]
  rfl

/-- A Latin digit is a decimal one. -/
theorem Text.isDecimal_of_isDigit {c : Char} (h : c.isDigit = true) : isDecimal c = true := by
  rw [isDecimal, digit?_of_isDigit h]
  rfl

/-- Nothing is dropped from a text that has none of what is dropped. -/
theorem Text.dropWhile_eq_self {p : Char → Bool} {cs : List Char} (h : ∀ c ∈ cs, p c = false) :
    cs.dropWhile p = cs := by
  cases cs with
  | nil => rfl
  | cons c cs => rw [List.dropWhile_cons_of_neg (by simp [h c])]

/-- Nothing is trimmed off a text that has none of what is trimmed. -/
theorem Text.trim_eq_self {p : Char → Bool} {cs : List Char} (h : ∀ c ∈ cs, p c = false) :
    trim p cs = cs := by
  rw [trim, dropWhile_eq_self h, trimEnd, dropWhile_eq_self (by simpa using h), List.reverse_reverse]

namespace Numeral

/-- The value of a decimal digit. -/
def digitValue (c : Char) : Nat :=
  (Text.digit? c).getD 0

/-- A digit is read in front of the others, if no underscore follows it: an
underscore may stand between two digits. -/
theorem digitRun_cons {c : Char} {cs : List Char} {d : Nat} (hc : Text.digit? c = some d)
    (hcs : cs.head? ≠ some '_') :
    digitRun (c :: cs) = (d :: (digitRun cs).1, (digitRun cs).2) := by
  rw [digitRun.eq_def]
  simp only [hc]
  split
  · simp at hcs
  · rfl

/-- Decimal digits are read up to what goes on with none. An underscore would go
on with the digits behind it, so there must be none. -/
theorem digitRun_decimals {ds rest : List Char} (hds : ∀ c ∈ ds, Text.isDecimal c = true)
    (hrest : ∀ c ∈ rest.head?, Text.isDecimal c = false ∧ c ≠ '_') :
    digitRun (ds ++ rest) = (ds.map digitValue, rest) := by
  induction ds with
  | nil =>
    cases rest with
    | nil => rfl
    | cons c rest =>
      have hc : Text.digit? c = none := by simpa [Text.isDecimal] using (hrest c rfl).1
      rw [List.nil_append, digitRun.eq_def]
      simp only [hc]
      rfl
  | cons c ds ih =>
    -- no underscore is among the digits, nor behind them
    have hhead : (ds ++ rest).head? ≠ some '_' := by
      cases ds with
      | nil => exact fun e => (hrest '_' (by simpa using e)).2 rfl
      | cons d ds =>
        intro e
        cases e
        exact absurd (hds '_' (by simp)) (by decide)
    obtain ⟨d, hd⟩ := Option.isSome_iff_exists.1 (hds c (List.mem_cons_self ..))
    rw [List.cons_append, digitRun_cons hd hhead, ih fun d hd => hds d (List.mem_cons_of_mem _ hd),
      List.map_cons, digitValue, hd]
    rfl

/-- Decimal digits by themselves are read to their end. -/
theorem digitRun_decimals_nil {ds : List Char} (hds : ∀ c ∈ ds, Text.isDecimal c = true) :
    digitRun ds = (ds.map digitValue, []) := by
  have h : digitRun (ds ++ []) = (ds.map digitValue, []) := digitRun_decimals hds (by simp)
  rwa [List.append_nil] at h

/-- For Latin digits the value is how far they are from zero. -/
theorem map_digitValue {ds : List Char} (hds : ∀ c ∈ ds, c.isDigit = true) :
    ds.map digitValue = ds.map fun c => c.toNat - '0'.toNat := by
  refine List.map_congr_left fun c hc => ?_
  rw [digitValue, Text.digit?_of_isDigit (hds c hc)]
  rfl

/-- Latin digits are read to their end, with their usual values. -/
theorem digitRun_digits {ds : List Char} (hds : ∀ c ∈ ds, c.isDigit = true) :
    digitRun ds = (ds.map fun c => c.toNat - '0'.toNat, []) := by
  rw [digitRun_decimals_nil fun c hc => Text.isDecimal_of_isDigit (hds c hc), map_digitValue hds]

/-- What is made of the values of Latin digits is the number that the library
makes of the digits. -/
theorem ofDigits_map (ds : List Char) :
    ofDigits (ds.map fun c => c.toNat - '0'.toNat) = Nat.ofDigitChars 10 ds 0 := by
  rw [ofDigits, Nat.ofDigitChars_eq_foldl, List.foldl_map]

/-- A digit is not dropped at the ends of a text. -/
theorem isPadding_of_isDigit {c : Char} (h : c.isDigit = true) : Text.isPadding c = false := by
  obtain ⟨hlow, hhigh⟩ := Char.isDigit_iff_toNat.1 h
  simp only [Char.reduceToNat] at hlow hhigh
  simp only [Text.isPadding, Bool.or_eq_false_iff, Bool.and_eq_false_iff, decide_eq_false_iff_not,
    beq_eq_false_iff_ne]
  omega

/-- A digit is no white space. -/
theorem isBlank_of_isDigit {c : Char} (h : c.isDigit = true) : Text.isBlank c = false := by
  obtain ⟨hlow, hhigh⟩ := Char.isDigit_iff_toNat.1 h
  simp only [Char.reduceToNat] at hlow hhigh
  simp only [Text.isBlank, isPadding_of_isDigit h, Text.isSeparator, Bool.or_false,
    Bool.and_eq_false_iff, decide_eq_false_iff_not]
  omega

/-- What starts with a digit has no sign. -/
theorem sign_of_isDigit {c : Char} {cs : List Char} (h : c.isDigit = true) :
    sign (c :: cs) = (false, c :: cs) := by
  unfold sign
  split
  · rename_i e
    cases e
    cases h
  · rename_i e
    cases e
    cases h
  · rfl

/-- The characters of the text of an integer. -/
theorem mem_integerText {n : Int} {c : Char} (hc : c ∈ (integerText n).toList) :
    c = '-' ∨ c.isDigit = true := by
  rw [integerText] at hc
  split at hc
  · rw [String.toList_ofList, List.mem_cons] at hc
    exact hc.imp_right (Nat.isDigit_of_mem_toDigits (by decide) (by decide))
  · rw [String.toList_ofList] at hc
    exact .inr (Nat.isDigit_of_mem_toDigits (by decide) (by decide) hc)

/-- The text of a magnitude is its digits. -/
theorem integerText_natAbs (n : Int) :
    (integerText n.natAbs).toList = Nat.toDigits 10 n.natAbs := by
  have h : ¬((n.natAbs : Int) < 0) := by omega
  rw [integerText, if_neg h, String.toList_ofList, Int.natAbs_natCast]

/-- The text of a magnitude has nothing but digits. -/
theorem isDigit_integerText {n : Int} {c : Char} (hc : c ∈ (integerText n.natAbs).toList) :
    c.isDigit = true := by
  rw [integerText_natAbs] at hc
  exact Nat.isDigit_of_mem_toDigits (by decide) (by decide) hc

/-- A sign and digits are an integer. -/
theorem integer?_eq {s : String} {negative : Bool} {cs : List Char} {ds : List Nat}
    (hsign : sign (Text.trim Text.isPadding s.toList) = (negative, cs)) (hrun : digitRun cs = (ds, []))
    (hds : ds ≠ []) (hlength : ds.length ≤ longestInteger) :
    integer? s = .ok (if negative then -(ofDigits ds : Int) else ofDigits ds) := by
  cases ds with
  | nil => exact absurd rfl hds
  | cons d ds => simp only [integer?, hsign, hrun, if_neg (Nat.not_lt.2 hlength)]

/-- **An integer is read from its text**, with a minus or without. -/
theorem integer?_integerText {n : Int} (h : IsWritableInteger n) :
    integer? (integerText n) = .ok n := by
  have hdigits : ∀ c ∈ Nat.toDigits 10 n.natAbs, c.isDigit = true :=
    fun c hc => Nat.isDigit_of_mem_toDigits (by decide) (by decide) hc
  -- the text has no white space, and the minus is all of its sign
  have hsign : sign (Text.trim Text.isPadding (integerText n).toList) =
      (decide (n < 0), Nat.toDigits 10 n.natAbs) := by
    rw [Text.trim_eq_self fun c hc =>
      (mem_integerText hc).elim (fun e => e ▸ by decide) isPadding_of_isDigit, integerText]
    split
    · rename_i hn
      rw [String.toList_ofList, decide_eq_true hn, sign]
    · rename_i hn
      rw [String.toList_ofList, decide_eq_false hn]
      cases hds : Nat.toDigits 10 n.natAbs with
      | nil => exact absurd hds Nat.toDigits_ne_nil
      | cons d ds => exact sign_of_isDigit (hdigits d (hds ▸ List.mem_cons_self ..))
  rw [integer?_eq hsign (digitRun_digits hdigits) (by simp)
    (by simpa [IsWritableInteger] using h), ofDigits_map, Nat.ofDigitChars_ten_toDigits]
  by_cases hn : n < 0
  · rw [if_pos (by simpa using hn)]
    congr 1
    omega
  · rw [if_neg (by simpa using hn)]
    congr 1
    omega

/-- A numeral that is read as a real. -/
structure Spells (s : String) (x : Ieee) : Prop where
  isNumber : Token.isNumber s.toList = true
  point : '.' ∈ s.toList
  value : (real? s).map Format.single.round = some x

end Numeral

/-- Does a spelling give a numeral for every real of single precision that has
no minus? -/
def Ieee.IsSpelling (spell : Ieee → String) : Prop :=
  ∀ x : Ieee, x.IsSingle → x.isNegative = false → Numeral.Spells (spell x) x

/-- The negative of a single is one. -/
theorem Ieee.IsSingle.neg {x : Ieee} (h : x.IsSingle) : x.neg.IsSingle := by
  refine ⟨fun e => h.number ?_, by rw [Format.round_neg, h.single]⟩
  rw [← neg_neg x, e]
  rfl

/-- The negative of what is negative is not, negative zero included. -/
theorem Ieee.isNegative_neg {x : Ieee} (h : x.isNegative = true) : x.neg.isNegative = false := by
  cases x with
  | nan => cases h
  | infinity negative => simpa [isNegative, Ieee.neg] using h
  | negativeZero => rfl
  | finite q =>
    have hnum : q.num < 0 := by simpa [isNegative] using h
    have hq : q ≠ 0 := fun e => by simp [e] at hnum
    rw [Ieee.neg, if_neg hq, isNegative, Rat.num_neg_eq_neg_num]
    exact decide_eq_false (by omega)

namespace Parse

/-- Lexemes that are read as a number: a numeral, perhaps with a minus in front. -/
def Denotes (ls : List Lexeme) (v : Scalar) : Prop :=
  ∃ negative l u, ls = signed negative l ∧ l.kind = .number ∧
    (∀ t : Token, t.lexeme = l → number t = pure u) ∧ v = if negative then negated u else u

/-- The numeral of an integer is read as its magnitude; the sign is a token of
its own. -/
theorem number_of_integer {n : Int} (h : IsWritableInteger n) {t : Token}
    (ht : t.lexeme = numeralOf n) : number t = pure (.integer n.natAbs) := by
  have htext : t.text = Numeral.integerText n.natAbs := congrArg Lexeme.text ht
  have hpoint : '.' ∉ t.text.toList := fun hmem => by
    rw [htext] at hmem
    exact absurd (Numeral.isDigit_integerText hmem) (by decide)
  rw [number, if_neg hpoint, htext, Numeral.integer?_integerText (n := n.natAbs) h]

/-- **What is written for an integer denotes it**, with a minus in front or not. -/
theorem denotes_integer {n : Int} (h : IsWritableInteger n) :
    Denotes (integerLexemes n) (.integer n) := by
  refine ⟨decide (n < 0), numeralOf n, .integer n.natAbs, rfl, rfl,
    fun t ht => number_of_integer h ht, ?_⟩
  by_cases hn : n < 0
  · rw [if_pos (by simpa using hn), negated]
    congr 1
    omega
  · rw [if_neg (by simpa using hn)]
    congr 1
    omega

/-- A spelling of a real is read as this real. -/
theorem number_of_spells {s : String} {x : Ieee} (h : Numeral.Spells s x) {t : Token}
    (ht : t.lexeme = .number s) : number t = pure (.real x) := by
  have htext : t.text = s := congrArg Lexeme.text ht
  obtain ⟨y, hy, hx⟩ := Option.map_eq_some_iff.1 h.value
  rw [number, htext, if_pos h.point, hy]
  simp only [hx]

/-- **What is written for a real denotes it**, in any spelling. -/
theorem denotes_real {spell : Ieee → String} (hspell : Ieee.IsSpelling spell) {x : Ieee}
    (h : x.IsSingle) : Denotes (x.lexemes spell) (.real x) := by
  cases hx : x.isNegative with
  | false =>
    refine ⟨false, .number (spell x), .real x, by simp [Ieee.lexemes, hx], rfl,
      fun t ht => number_of_spells (hspell x h hx) ht, rfl⟩
  | true =>
    refine ⟨true, .number (spell x.neg), .real x.neg, by simp [Ieee.lexemes, hx], rfl,
      fun t ht => number_of_spells (hspell x.neg h.neg (Ieee.isNegative_neg hx)) ht, ?_⟩
    rw [if_pos rfl, negated, Ieee.neg_neg]

end Parse
end Shank
