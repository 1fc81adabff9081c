/-
# Numbers are read as they are written

There are three notions of a digit. A number goes on with all characters that
look like digits; it is a token only if they are decimal digits, of any script,
with at most one point behind the first of them (`IsNumeral`); and the parser
takes it for the number that decimal digits stand for. So no number that is a
token is refused, unless it is an integer with too many digits.

| text | read as | behind a minus |
| --- | --- | --- |
| `d` | exactly the integer that the digits stand for | its negative |
| `d.`, `d.d` | a real | its negative |

The minus is a token of its own.
-/

import Shank.Proofs.Numeral.Reading
import Shank.Proofs.Safety
import Shank.Proofs.Token.Grammar

namespace Shank

open Numeral (Written longestInteger)

/-! ## Number tokens

A number token comes of a piece that is read as a number, and that has the form
of a numeral: digits with at most one point behind the first of them.
-/

namespace Token

variable {t : Token}

/-- Only a numeral is a lexeme of this kind. -/
theorem IsLexeme.isNumeral {cs rest : List Char} {kind : Kind} {text : String}
    (h : IsLexeme cs kind text rest) (hk : kind = .number) : IsNumeral text.toList := by
  have hwords : ∀ p ∈ Kind.words, p.2 ≠ .number := by decide
  have hsymbols : ∀ p ∈ Kind.symbols, p.2 ≠ .number := by decide
  have hquotes : ∀ p ∈ Kind.quotes, p.2 ≠ .number := by decide
  cases h with
  | word letter chars ends ofWord =>
    subst hk
    rcases ofWord with hmem | ⟨hidentifier, -⟩
    · exact absurd rfl (hwords _ hmem)
    · cases hidentifier
  | number numeral => rwa [String.toList_ofList]
  | symbol mem => exact absurd hk (hsymbols _ mem)
  | literal mem => exact absurd hk (hquotes _ mem)
  | unterminated mem => exact absurd hk (hquotes _ mem)

/-- A number that is found has the form of the grammar. -/
theorem isNumeral_of_piece {c : Char} {cs : List Char} {kind : Kind} {text : String} {more : Nat}
    (h : piece c cs = .lexeme kind text more) (hk : kind = .number) : IsNumeral text.toList := by
  obtain ⟨s, rest, hsplit, hs⟩ := @exists_segment c cs fun p hp => by
    rw [h] at hp
    cases hp
  obtain ⟨d, ds, hchars, htold⟩ := hs.piece_eq
  rw [hchars, List.cons_append] at hsplit
  obtain ⟨rfl, rfl⟩ := List.cons.inj hsplit
  rw [h] at htold
  cases s with
  | lexeme chars kind' text' =>
    obtain ⟨rfl, rfl, -⟩ := Piece.lexeme.inj htold
    exact IsLexeme.isNumeral hs hk
  | blank | comment => cases htold

namespace Layout

/-- The tokens of a line that are not layout are those of its text. -/
theorem mem_scanLine {s : Layout} {raw : List Char} (ht : t ∈ (s.readLine raw).added)
    (hk : ¬t.kind.IsLayout) : t ∈ (scanLine (s.line + 1) s.inComment (Text.chomp raw)).1 := by
  have hlast {line column : Nat} : t ≠ ⟨.endOfLine, "", line, column⟩ := by
    rintro rfl
    have hlayout : Kind.endOfLine.IsLayout := by decide
    exact hk hlayout
  revert ht
  refine s.readLine_elim raw (fun _ _ _ _ ht => nomatch ht) fun content _ _ hscan _ _ ht => ?_
  rw [List.mem_append, List.mem_append, List.mem_singleton] at ht
  rw [hscan]
  exact (ht.resolve_right hlast).resolve_left fun h => hk (isLayout_step h)

/-- What lines give is given by one of them. -/
theorem exists_mem_added {s : Layout} {ls : List (List Char)}
    (ht : t ∈ (readLines s ls).flatMap LineReport.added) : ∃ s' raw, t ∈ (readLine s' raw).added := by
  induction ls generalizing s with
  | nil => cases ht
  | cons raw rest ih =>
    rw [readLines, List.flatMap_cons] at ht
    rcases List.mem_append.1 ht with ht | ht
    · exact ⟨s, raw, ht⟩
    · exact ih ht

end Layout

/-- The number tokens of a source text are numerals. -/
theorem isNumeral_of_mem {source : String} (ht : t ∈ (readSource source).tokens)
    (hk : t.kind = .number) : IsNumeral t.text.toList := by
  have hlayout : ¬t.kind.IsLayout := by
    rw [hk]
    decide
  rcases List.mem_append.1 ht with ht | ht
  · obtain ⟨s, raw, ht⟩ := Layout.exists_mem_added ht
    exact forall_scanLine (Q := fun t => t.kind = .number → IsNumeral t.text.toList)
      (fun _ _ _ _ _ _ hpiece => isNumeral_of_piece hpiece) _ _ t
      (Layout.mem_scanLine ht hlayout) hk
  · exact absurd (Layout.isLayout_step ht) hlayout

/-- A numeral in its parts. -/
theorem IsNumeral.exists_written {cs : List Char} (h : IsNumeral cs) :
    ∃ w : Written, w.text = String.ofList cs ∧ w.sign = none ∧
      ('.' ∉ cs → w.tail = [] ∧ w.whole = cs) := by
  obtain ⟨whole, hne, hwhole, rfl | ⟨fraction, hfraction, rfl⟩⟩ := h
  · exact ⟨{ whole := cs, isDecimal := by simpa using hwhole, ne_nil := by simpa using hne },
      by simp [Written.text, Written.body, Written.tail, Numeral.signText], rfl, fun _ => ⟨rfl, rfl⟩⟩
  · refine ⟨{ whole, fraction := some fraction, isDecimal := ?_, ne_nil := by simp [hne] },
      by simp [Written.text, Written.body, Written.tail, Numeral.signText], rfl,
      fun hpoint => absurd (by simp) hpoint⟩
    intro c hc
    rcases List.mem_append.1 hc with hc | hc
    · exact hwhole c hc
    · exact hfraction c hc

end Token

/-! ## What the parser makes of them

A numeral is taken at three places, as an expression, as the value of a constant
and as a bound. At each of them the parser reads it in the same way.
-/

open Token (IsNumeral)

variable {t : Token}

/-- Digits without a point are the numeral of the number that they stand for. -/
theorem Token.IsNumeral.integer? (h : IsNumeral t.text.toList) (hpoint : '.' ∉ t.text.toList)
    (hlength : t.text.length ≤ longestInteger) :
    Numeral.integer? t.text = .ok (Numeral.number t.text.toList) := by
  obtain ⟨w, htext, hsign, hwhole⟩ := h.exists_written
  obtain ⟨htail, hwhole⟩ := hwhole hpoint
  rw [String.ofList_toList] at htext
  have hread := w.integer?_whole htail (by rwa [hwhole, String.length_toList])
  rwa [htext, hwhole, show w.negative = false by rw [Written.negative, hsign]; rfl] at hread

/-- A number token is a numeral of a real, be there a point or not. -/
theorem Token.IsNumeral.exists_real? (h : IsNumeral t.text.toList) :
    ∃ x, Numeral.real? t.text = some x := by
  obtain ⟨w, htext, -, -⟩ := h.exists_written
  rw [String.ofList_toList] at htext
  obtain ⟨x, hx, -⟩ := w.exists_rounds
  exact ⟨x, htext ▸ hx⟩

/-- The token is read as a value wherever a number may stand, and as another one
behind a minus. -/
structure Token.StandsFor (t : Token) (v v' : Scalar) : Prop where
  factor (inner : Parse Expr) (rest : List Token) (level : Int) :
    Parse.factor inner ⟨t :: rest, level⟩ = .ok (.literal t.line v) ⟨rest, level⟩
  factor_minus (inner : Parse Expr) {minus : Token} (hminus : minus.kind = .minus) (rest : List Token)
    (level : Int) :
    Parse.factor inner ⟨minus :: t :: rest, level⟩ = .ok (.literal minus.line v') ⟨rest, level⟩
  constant (rest : List Token) (level : Int) :
    Parse.constantValue ⟨t :: rest, level⟩ = .ok (t.line, v) ⟨rest, level⟩
  constant_minus {minus : Token} (hminus : minus.kind = .minus) (rest : List Token) (level : Int) :
    Parse.constantValue ⟨minus :: t :: rest, level⟩ = .ok (minus.line, v') ⟨rest, level⟩
  bound (rest : List Token) (level : Int) :
    Parse.bound ⟨t :: rest, level⟩ = .ok (Parse.boundOf false v) ⟨rest, level⟩
  bound_minus {minus : Token} (hminus : minus.kind = .minus) (rest : List Token) (level : Int) :
    Parse.bound ⟨minus :: t :: rest, level⟩ = .ok (Parse.boundOf false v') ⟨rest, level⟩

/-- **What the parser makes of a number token**, and of one behind a minus: in
an expression, as the value of a constant, and as a bound. At each of these
places the token is taken, with the minus before it, and made the same number
of. -/
theorem Token.standsFor {v : Scalar} (hk : t.kind = .number) (h : Parse.number t = pure v) :
    t.StandsFor v (Parse.negated v) := by
  have hskip {u : Token} (hu : ¬Parse.IsLevel u.kind) (rest : List Token) (level : Int) :
      Parse.skip ⟨u :: rest, level⟩ = .ok () ⟨rest, level⟩ := by
    simp [Parse.skip, Parse.levelChange_of_kind hu]
  have hexpect (item : Item) (rest : List Token) (level : Int) :
      Parse.expect .number item ⟨t :: rest, level⟩ = .ok t ⟨rest, level⟩ := by
    rw [Parse.expect_of_eq hk, Parse.levelChange_of_kind (by rw [hk]; decide), add_zero]
  have hnumber : ¬Parse.IsLevel t.kind := by
    rw [hk]
    decide
  -- none of the tokens taken here changes the level
  have hlevel {minus : Token} (hminus : minus.kind = .minus) : ¬Parse.IsLevel minus.kind := by
    rw [hminus]
    decide
  constructor
  · intro inner rest level
    rw [Parse.factor, bind_eq (x := Parse.peek) rfl]
    simp only [List.head?_cons, hk]
    rw [bind_eq (hskip hnumber rest level), h]
    rfl
  · intro inner minus hminus rest level
    rw [Parse.factor, bind_eq (x := Parse.peek) rfl]
    simp only [List.head?_cons, hminus]
    rw [bind_eq (hskip (hlevel hminus) _ level), bind_eq (hexpect _ rest level), h]
    rfl
  · intro rest level
    rw [Parse.constantValue, bind_eq (x := Parse.peek) rfl]
    simp only [List.head?_cons, hk]
    rw [bind_eq (hskip hnumber rest level), h]
    rfl
  · intro minus hminus rest level
    rw [Parse.constantValue, bind_eq (x := Parse.peek) rfl]
    simp only [List.head?_cons, hminus]
    rw [bind_eq (hskip (hlevel hminus) _ level), bind_eq (hexpect _ rest level), h]
    rfl
  · intro rest level
    have htake : Parse.take? .minus ⟨t :: rest, level⟩ = .ok none ⟨t :: rest, level⟩ := by
      rw [Parse.take?_cons (by decide), if_neg (by rw [hk]; decide)]
    rw [Parse.bound, bind_eq htake, bind_eq (hexpect _ rest level), h]
    rfl
  · intro minus hminus rest level
    have htake : Parse.take? .minus ⟨minus :: t :: rest, level⟩ = .ok (some minus) ⟨t :: rest, level⟩ := by
      rw [Parse.take?_cons (by decide), if_pos hminus]
    rw [Parse.bound, bind_eq htake, bind_eq (hexpect _ rest level), h]
    rfl

/-- What a number token is read as: digits without a point as exactly the number
that they stand for, and digits with a point as some real number. -/
structure Token.IsRead (t : Token) : Prop where
  isNumeral : IsNumeral t.text.toList
  integer (hpoint : '.' ∉ t.text.toList) : t.StandsFor
    (.integer (Numeral.number t.text.toList)) (.integer (-(Numeral.number t.text.toList : Int)))
  real (hpoint : '.' ∈ t.text.toList) : ∃ x, t.StandsFor (.real x) (.real x.neg)

/-- **A number token is read**, as an integer without a point and as a real with
one, unless it is an integer of too many digits. -/
theorem Token.IsNumeral.isRead (h : IsNumeral t.text.toList) (hk : t.kind = .number)
    (hlength : '.' ∉ t.text.toList → t.text.length ≤ longestInteger) : t.IsRead where
  isNumeral := h
  integer hpoint := by
    refine standsFor hk ?_
    rw [Parse.number, if_neg hpoint, h.integer? hpoint (hlength hpoint)]
  real hpoint := by
    obtain ⟨x, hx⟩ := h.exists_real?
    refine ⟨Format.single.round x, standsFor hk ?_⟩
    rw [Parse.number, if_pos hpoint, hx]

/-- A number token that is not too long is not refused. -/
theorem Token.IsNumeral.not_isRefused (h : IsNumeral t.text.toList)
    (hlength : '.' ∉ t.text.toList → t.text.length ≤ longestInteger) (r : Numeral.Refusal) :
    ¬t.IsRefused r := by
  unfold IsRefused
  split
  · rename_i hpoint
    rintro ⟨hreal, -⟩
    obtain ⟨x, hx⟩ := h.exists_real?
    rw [hx] at hreal
    cases hreal
  · rename_i hpoint
    rw [h.integer? hpoint (hlength hpoint)]
    rintro ⟨⟩

/-- The numeral that is refused is a token that is no number. -/
theorem Parsing.exists_isRefused {tokens : List Token} {room : Nat} {r : Numeral.Refusal}
    (h : (ofTokens tokens room).program = .error (.numeral r)) :
    ∃ t ∈ tokens, t.kind = .number ∧ t.IsRefused r := by
  obtain ⟨j, -, -, ⟨-, -, houtcome⟩ | ⟨-, hdeep⟩⟩ :=
    @Stepwise.exists_outcome True tokens _ room (Nat.lt_succ_self tokens.length) (.inl trivial)
  · rw [h] at houtcome
    cases houtcome with
    | numeral ht hk hr => exact ⟨_, List.mem_of_getElem? ht, hk, hr⟩
  · rw [h] at hdeep
    cases hdeep

/-- **The numbers of a source text are read as they are written**, if no integer
among them has too many digits. So its tokens are parsed to no refusal of a
numeral, whatever the room. -/
theorem Token.number_tokens_read (source : String)
    (hlength : ∀ t ∈ (readSource source).tokens, t.kind = .number → '.' ∉ t.text.toList →
      t.text.length ≤ longestInteger) :
    (∀ t ∈ (readSource source).tokens, t.kind = .number → t.IsRead) ∧
      ∀ room r, (Parsing.ofTokens (readSource source).tokens room).program ≠ .error (.numeral r) := by
  refine ⟨fun t ht hk => (isNumeral_of_mem ht hk).isRead hk (hlength t ht hk), fun room r hrefused => ?_⟩
  obtain ⟨t, ht, hk, hr⟩ := Parsing.exists_isRefused hrefused
  exact (isNumeral_of_mem ht hk).not_isRefused (hlength t ht hk) r hr

/-- The hypothesis of `number_tokens_read` is satisfiable: an integer in Arabic
digits behind a minus, and a real without digits behind the point. -/
theorem Token.number_tokens_read_arabic :
    let source := "x := -٤٢ * 1.\n"
    (∀ t ∈ (readSource source).tokens, t.kind = .number → '.' ∉ t.text.toList →
      t.text.length ≤ longestInteger) ∧
    (⟨.number, "٤٢", 1, 7⟩ : Token).StandsFor (.integer 42) (.integer (-42)) ∧
    (∃ x, (⟨.number, "1.", 1, 12⟩ : Token).StandsFor (.real x) (.real x.neg)) ∧
    ∀ room r, (Parsing.ofTokens (readSource source).tokens room).program ≠ .error (.numeral r) := by
  have hlength : ∀ t ∈ (readSource "x := -٤٢ * 1.\n").tokens, t.kind = .number →
      '.' ∉ t.text.toList → t.text.length ≤ longestInteger := by decide +kernel
  obtain ⟨hread, hrefused⟩ := number_tokens_read "x := -٤٢ * 1.\n" hlength
  have hvalue : Numeral.number "٤٢".toList = 42 := by decide +kernel
  have hinteger := (hread ⟨.number, "٤٢", 1, 7⟩ (by decide +kernel) rfl).integer (by decide)
  have hreal := (hread ⟨.number, "1.", 1, 12⟩ (by decide +kernel) rfl).real (by decide)
  rw [hvalue] at hinteger
  exact ⟨hlength, hinteger, hreal, hrefused⟩

end Shank
