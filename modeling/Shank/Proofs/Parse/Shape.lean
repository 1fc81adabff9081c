/-
# The shape of what is parsed

The interpreter relies on more than a tree can be held to by its type. What it
relies on beside that, the parser sees to, and it is said here node by node.

| node | shape |
| --- | --- |
| expression | an operator, an index or the bound of a loop holds no comparison (`Expr.IsPlain`) |
| condition, assigned value, argument | a comparison may be the root and nothing else (`Expr.IsCondition`) |
| if chain | a branch at least, and each but the last has a condition (`Branch.AreChain`) |
| type | a range is not empty, and only some kinds have one (`DeclaredType.WellShaped`) |
| constant | its literal has a value of its kind, unless it exceeds 64 bits (`Constant.WellShaped`) |

By its type alone a tree has the rest: a loop counts a variable and `var` hands
one over, not an element of an array; a character is one code point; a constant
is neither `var` nor ranged.
-/

import Shank.Proofs.Parse.Grammar
import Shank.Proofs.Parse.Inversion
import Shank.Proofs.Parse.Ranges
import Shank.Proofs.Store.Fits
import Shank.Run.Evaluate

namespace Shank

/-! ## Numbers

A number token is read as a real if it has a point. No word for a NaN has one,
and rounding makes no NaN of a number. This is why bounds of reals are ordered:
the parser only refuses an upper bound that is below the lower one.
-/

/-- Of two numbers the one that is not below the other is above it or equal: for
NaN this fails. -/
theorem Ieee.le_of_not_lt {x y : Ieee} (hx : x ≠ nan) (hy : y ≠ nan) (h : y.lt x = false) :
    x.le y = true := by
  cases x <;> cases y <;> simp only [le, lt, eq, compare?] at h hx hy ⊢ <;> grind

/-- To round a quotient never gives NaN. -/
theorem Format.roundQuotient_ne_nan (f : Format) (negative : Bool) (n d : Nat) :
    f.roundQuotient negative n d ≠ .nan := by
  unfold roundQuotient
  dsimp only
  split
  · unfold Ieee.zero
    split <;> simp
  · split <;> simp

/-- To round a decimal never gives NaN. -/
theorem Format.ofDecimal_ne_nan (f : Format) (negative : Bool) (x : Decimal) :
    f.ofDecimal negative x ≠ .nan := by
  have hzero : Ieee.zero negative ≠ .nan := by
    unfold Ieee.zero
    split <;> simp
  unfold ofDecimal
  repeat' split
  · exact hzero
  · simp
  · exact hzero
  · exact f.roundQuotient_ne_nan _ _ _
  · exact f.roundQuotient_ne_nan _ _ _

/-- Rounding makes NaN of nothing but NaN. -/
theorem Format.round_ne_nan (f : Format) {x : Ieee} (h : x ≠ .nan) : f.round x ≠ .nan := by
  unfold round
  split
  · unfold ofRat
    split
    · simp
    · exact f.roundQuotient_ne_nan _ _ _
  · exact h

/-- What is not trimmed off is still there. -/
theorem Text.mem_trim {p : Char → Bool} {c : Char} (hc : p c = false) {cs : List Char} (h : c ∈ cs) :
    c ∈ trim p cs := by
  have hdrop {ds : List Char} (h : c ∈ ds) : c ∈ ds.dropWhile p := by
    rw [← ds.takeWhile_append_dropWhile (p := p), List.mem_append] at h
    refine h.resolve_left fun htake => ?_
    rw [List.mem_takeWhile_imp htake] at hc
    cases hc
  rw [trim, trimEnd, List.mem_reverse]
  exact hdrop (List.mem_reverse.2 (hdrop h))

/-- **A numeral with a point is a number.** The words for a NaN have no point,
and a decimal is never rounded to one. -/
theorem Numeral.real?_ne_nan {s : String} {x : Ieee} (hs : '.' ∈ s.toList) (h : real? s = some x) :
    x ≠ .nan := by
  unfold real? at h
  have hsign : '.' ∈ (sign (Text.trim Text.isPadding s.toList)).2 := by
    have := Text.mem_trim (p := Text.isPadding) (by decide) hs
    unfold sign
    split <;> simp_all
  generalize sign (Text.trim Text.isPadding s.toList) = r at h hsign
  obtain ⟨negative, cs⟩ := r
  -- the point is neither padding nor a sign, so it is in the word
  have hword : '.' ∈ (String.ofList (cs.map Char.toLower)).toList := by
    rw [String.toList_ofList]
    exact List.mem_map.2 ⟨'.', hsign, rfl⟩
  dsimp only at h
  split at h
  · cases h
    simp
  · split at h
    · rename_i hnan
      rw [hnan] at hword
      exact absurd hword (by decide)
    · obtain ⟨d, -, rfl⟩ := Option.map_eq_some_iff.1 h
      exact Format.ofDecimal_ne_nan _ _ _

/-! ## Expressions and statements

The shape that the parser gives, of each node by itself. A comparison is no
operand of anything, and a `var` argument is a name.
-/

/-- An expression without a comparison. -/
def Expr.IsPlain : Expr → Prop
  | literal _ _ => True
  | var _ _ => True
  | element _ _ index => index.IsPlain
  | arithmetic _ _ left right => left.IsPlain ∧ right.IsPlain
  | comparison _ _ _ _ => False

/-- An expression without a comparison, but perhaps for its root. -/
def Expr.IsCondition : Expr → Prop
  | comparison _ _ left right => left.IsPlain ∧ right.IsPlain
  | e => e.IsPlain

/-- An argument that is a value is a condition; one that is handed over is a
variable. -/
def Argument.WellShaped : Argument → Prop
  | value _ e => e.IsCondition
  | reference _ _ _ => True

/-- The branches of an if chain: there is one, and only the last may be without
a condition. -/
structure Branch.AreChain (branches : List Branch) : Prop where
  ne_nil : branches ≠ []
  guarded : ∀ b ∈ branches.dropLast, b.condition ≠ none
  conditions : ∀ b ∈ branches, ∀ e ∈ b.condition, e.IsCondition

/-- A branch with a condition may stand in front of others. -/
theorem Branch.guarded_cons {b : Branch} {rest : List Branch} (hb : b.condition ≠ none)
    (hrest : ∀ b' ∈ rest.dropLast, b'.condition ≠ none) :
    ∀ b' ∈ (b :: rest).dropLast, b'.condition ≠ none := by
  cases rest with
  | nil => exact fun _ hb' => nomatch hb'
  | cons c rest => exact List.forall_mem_cons.2 ⟨hb, hrest⟩

/-- The shape of a statement, its blocks left out. -/
def Stmt.WellShaped : Stmt → Prop
  | assign _ target value => (∀ index ∈ target.index, index.IsPlain) ∧ value.IsCondition
  | ifChain _ branches => Branch.AreChain branches
  | whileLoop _ condition _ => condition.IsCondition
  | repeatLoop _ condition _ => condition.IsCondition
  | forLoop _ _ _ start stop _ => start.IsPlain ∧ stop.IsPlain
  | call _ _ args => ∀ a ∈ args, a.WellShaped

/-! ## Declarations

Of a declaration the interpreter relies on its type: which types may have a
range or elements, and that a constant has a literal of its kind.
-/

/-- The bounds of a type: those of its range, or of an array. -/
def DeclaredType.range? : DeclaredType → Option (Bound × Bound)
  | scalar (.integer range) => range.map fun r => (.whole r.low, .whole r.high)
  | scalar (.real range) => range.map fun r => (r.low, r.high)
  | scalar (.string lengths) => lengths.map fun r => (.whole r.low, .whole r.high)
  | scalar .character => none
  | scalar .boolean => none
  | array bounds _ => some (.whole bounds.low, .whole bounds.high)

/-- The kind of the elements of an array. -/
def DeclaredType.element? : DeclaredType → Option Kind
  | scalar _ => none
  | array _ element => some element

/-- The shape of a declared type. If it has bounds they are in order, and
integers unless it is a real; only some kinds have any, and an array always has;
and an array alone has elements. -/
structure DeclaredType.WellShaped (type : DeclaredType) : Prop where
  ordered : ∀ r ∈ type.range?, r.1.number.le r.2.number = true
  whole : type.tag ≠ .scalar .real → ∀ r ∈ type.range?, ∃ low high, r = (.whole low, .whole high)
  ranged : ∀ r ∈ type.range?, type.tag ∈ [Tag.scalar .integer, .scalar .real, .scalar .string, .array]
  bounds : type.tag = .array → type.range? ≠ none
  element : type.tag = .array ↔ type.element? ≠ none

/-- The literal of a constant has a value, and of the kind that the constant is
declared with; or it is an integer that exceeds 64 bits. A constant has no
range. -/
structure Constant.WellShaped (c : Constant) : Prop where
  evaluates : (∃ v, c.value.evaluate = .ok v ∧ .scalar v.kind = (Local.constant c).type.tag) ∨
    ∃ n, c.value = .integer n ∧ (n < Scalar.minInteger ∨ Scalar.maxInteger < n) ∧
      c.value.evaluate = .error (.of (.integerOverflow n))
  unranged : (Local.constant c).type.range? = none

/-- The shape of a local declaration. -/
def Local.WellShaped : Local → Prop
  | constant c => c.WellShaped
  | var v => v.type.WellShaped

/-- A type is of this shape, if its range is not empty. -/
theorem DeclaredType.WellShaped.of_ordered {type : DeclaredType}
    (h : ∀ r ∈ type.range?, r.1.number.le r.2.number = true) : type.WellShaped where
  ordered := h
  -- the ranges of all types but reals have integer bounds
  whole hreal r hr := by
    cases type with
    | array => cases hr; exact ⟨_, _, rfl⟩
    | scalar type =>
      cases type with
      | real => exact absurd rfl hreal
      | integer range | string range =>
        obtain ⟨r', -, rfl⟩ := Option.map_eq_some_iff.1 hr
        exact ⟨_, _, rfl⟩
      | character | boolean => cases hr
  ranged r hr := by
    cases type with
    | array => simp [tag]
    | scalar type =>
      cases type with
      | integer | real | string => simp [tag, ScalarType.kind]
      | character | boolean => cases hr
  bounds harray := by
    cases type with
    | array => simp [range?]
    | scalar => cases harray
  element := by cases type <;> simp [tag, element?]

/-- Integers that are ordered are so as numbers. -/
theorem Bound.le_whole {a b : Int} (h : a ≤ b) : (whole a).number.le (whole b).number = true := by
  refine Ieee.le_of_not_lt (by simp [number]) (by simp [number]) ?_
  have hcast : ¬((b : Rat) < a) := by exact_mod_cast not_lt.2 h
  simp only [Ieee.lt, number, Ieee.compare?, if_neg hcast]
  split <;> rfl

/-- **A constant is of its shape**, whatever its literal. -/
theorem Constant.wellShaped (c : Constant) : c.WellShaped where
  evaluates := by
    have htag (v : Scalar) (hv : v.kind = c.value.kind) :
        Tag.scalar v.kind = (Local.constant c).type.tag := by
      rw [Local.type, DeclaredType.tag, ScalarType.kind_ofKind, hv]
    cases hvalue : c.value with
    | integer n =>
      by_cases hn : n < Scalar.minInteger ∨ Scalar.maxInteger < n
      · refine .inr ⟨n, rfl, hn, ?_⟩
        simp only [Scalar.evaluate, Scalar.kind, ScalarType.ofKind, ScalarType.check, if_pos hn]
      · refine .inl ⟨.integer n, ?_, htag _ (by rw [hvalue])⟩
        simp only [Scalar.evaluate, Scalar.kind, ScalarType.ofKind, ScalarType.check, if_neg hn]
    | real | string | character | boolean => exact .inl ⟨_, rfl, htag _ (by rw [hvalue])⟩
  unranged := by cases hvalue : c.value <;> simp [Local.type, hvalue] <;> rfl

namespace Parse

/-! ## What is parsed has this shape

The grammar tells the shape of conditions. Bounds are numbers that are read,
perhaps negated, and neither makes a NaN.
-/

/-- Only a condition may have a comparison for its root. -/
theorem shape_of_derives {p : Phrase} {ts : List Token} {e : Expr} (h : Derives p ts e) :
    e.IsCondition ∧ (p ≠ .condition → e.IsPlain) := by
  induction h with
  | compare _ _ _ ihl ihr =>
    exact ⟨⟨ihl.2 (by decide), ihr.2 (by decide)⟩, fun hp => absurd rfl hp⟩
  | plain _ ih => exact ⟨ih.1, fun hp => absurd rfl hp⟩
  | sum _ _ _ _ ihl ihr | product _ _ _ _ ihl ihr =>
    have hplain := And.intro (ihl.2 (by decide)) (ihr.2 (by decide))
    exact ⟨hplain, fun _ => hplain⟩
  | term _ ih | factor _ ih | parentheses _ _ _ ih => exact ⟨ih.1, fun _ => ih.2 (by decide)⟩
  | literal | negative | name => exact ⟨trivial, fun _ => trivial⟩
  | element _ _ _ _ ih => exact ⟨ih.2 (by decide), fun _ => ih.2 (by decide)⟩

/-- No expression that is parsed holds a comparison. -/
theorem yields_expression (room : Nat) : Yields Expr.IsPlain (expression room) := by
  intro c e c' h
  obtain ⟨ts, -, -, hderives⟩ := takes_expression room c e c' h
  exact (shape_of_derives hderives).2 (by decide)

/-- A condition that is parsed is an expression, or a comparison of two. -/
theorem yields_condition (room : Nat) : Yields Expr.IsCondition (condition room) := by
  intro c e c' h
  obtain ⟨ts, -, -, hderives⟩ := takes_condition room c e c' h
  exact (shape_of_derives hderives).1

/-- A number token does not stand for NaN. -/
theorem yields_number (t : Token) : Yields (fun v => v ≠ .real .nan) (number t) := by
  have hthrow (refusal : Numeral.Refusal) :
      Yields (fun v => v ≠ .real .nan) (throw (.numeral refusal) : Parse Scalar) :=
    fun _ _ _ h => (nomatch h)
  unfold number
  split
  · rename_i hpoint
    cases hx : Numeral.real? t.text with
    | none => exact hthrow _
    | some x =>
      exact yields_pure (by simpa using Format.round_ne_nan _ (Numeral.real?_ne_nan hpoint hx))
  · cases Numeral.integer? t.text with
    | ok n => exact yields_pure (by simp)
    | error refusal => exact hthrow refusal

/-- A bound that was read as a number is no NaN, with a minus or without. -/
theorem number_boundOf {v : Scalar} (hv : v ≠ .real .nan) (negative : Bool) :
    (boundOf negative v).number ≠ .nan := by
  cases v with
  | real x =>
    have hx : x ≠ .nan := by simpa using hv
    cases negative with
    | false => simpa [boundOf, Bound.number] using hx
    | true =>
      cases x with
      | nan => exact absurd rfl hx
      | finite q => by_cases hq : q = 0 <;> simp [boundOf, negated, Ieee.neg, Bound.number, hq]
      | infinity | negativeZero => simp [boundOf, negated, Ieee.neg, Bound.number]
  | integer | string | character | boolean => cases negative <;> simp [boundOf, negated, Bound.number]

/-- A bound that is parsed is no NaN. -/
theorem yields_bound : Yields (fun b => b.number ≠ .nan) bound :=
  .after fun minus => .after fun t => (yields_number t).bind fun _ hv =>
    yields_pure (number_boundOf hv minus.isSome)

/-- Neither of two bounds that are parsed is NaN. -/
theorem yields_bounds :
    Yields (fun b : Option Token × Bound × Bound => b.2.1.number ≠ .nan ∧ b.2.2.number ≠ .nan) bounds :=
  .after fun _ => .after fun _ => yields_bound.bind fun _ hlow => .after fun _ =>
    yields_bound.bind fun _ hhigh => yields_pure ⟨hlow, hhigh⟩

/-- **Bounds of reals that are parsed are in order.** They are refused if the
upper one is below the lower, and since neither is NaN that leaves nothing else. -/
theorem yields_realInterval_le :
    Yields (fun r => r.low.number.le r.high.number = true) realInterval := by
  refine yields_bounds.bind fun ⟨start, low, high⟩ hbounds => ?_
  dsimp only
  split
  · exact yields_failAt _ _
  · exact yields_pure (Ieee.le_of_not_lt hbounds.1 hbounds.2 (Bool.eq_false_iff.2 ‹_›))

/-- **A type that is parsed is of its shape.** -/
theorem yields_wellShaped_type : Yields DeclaredType.WellShaped type := by
  have hwhole {r : Option Interval} (hr : ∀ i ∈ r, i.low ≤ i.high) (b : Bound × Bound)
      (hb : b ∈ r.map fun i => (Bound.whole i.low, Bound.whole i.high)) :
      b.1.number.le b.2.number = true := by
    obtain ⟨i, hi, rfl⟩ := Option.map_eq_some_iff.1 hb
    exact Bound.le_whole (hr i hi)
  refine yields_type_of yields_realInterval_le (fun r k h => .of_ordered fun b hb => ?_)
    (fun r h => .of_ordered (hwhole h)) (fun r h => .of_ordered fun b hb => ?_)
    (fun r h => .of_ordered (hwhole h)) (.of_ordered fun _ hb => nomatch hb)
    (.of_ordered fun _ hb => nomatch hb)
  · cases hb
    exact Bound.le_whole h
  · obtain ⟨i, hi, rfl⟩ := Option.map_eq_some_iff.1 hb
    exact h i hi

/-! ## Statements

Each piece of a statement has its shape by what parsed it. The statements in its
blocks are parsed as it is, so they have theirs as well.
-/

/-- An argument that is parsed is of its shape. -/
theorem yields_argument (room : Nat) : Yields Argument.WellShaped (argument room) := by
  refine .after fun start => .after fun isVar => ?_
  cases isVar with
  | some _ => exact .after fun _ => yields_pure trivial
  | none => exact (yields_condition room).bind fun _ he => yields_pure he

/-- The arguments of a call that is parsed are of their shape. -/
theorem yields_arguments (room : Nat) :
    Yields (fun args => ∀ a ∈ args, a.WellShaped) (arguments room) := by
  have hmore (rounds : List Token) :
      Yields (fun args => ∀ a ∈ args, a.WellShaped) (moreArguments room rounds) := by
    induction rounds with
    | nil => exact yields_pure fun _ ha => (nomatch ha)
    | cons _ rounds ih =>
      refine .after fun comma => ?_
      cases comma with
      | none => exact yields_pure fun _ ha => (nomatch ha)
      | some _ =>
        exact (yields_argument room).bind fun a ha => ih.bind fun rest hrest =>
          yields_pure (List.forall_mem_cons.2 ⟨ha, hrest⟩)
  refine .after fun ended => ?_
  cases ended with
  | true => exact yields_pure fun _ ha => (nomatch ha)
  | false =>
    exact (yields_argument room).bind fun a ha => .after fun ts => (hmore ts).bind fun rest hrest =>
      yields_pure (List.forall_mem_cons.2 ⟨ha, hrest⟩)

/-- An assignment that is parsed is of its shape. -/
theorem yields_assignment (room : Nat) (t : Token) : Yields Stmt.WellShaped (assignment room t) := by
  have hrest (index : Option Expr) (hindex : ∀ e ∈ index, e.IsPlain) : Yields Stmt.WellShaped (do
      let _ ← expect .assigner .assigner
      let value ← condition room
      endLine
      pure (Stmt.assign t.line { line := t.line, name := t.text, index } value)) :=
    .after fun _ => (yields_condition room).bind fun _ hvalue => .after fun _ =>
      yields_pure ⟨hindex, hvalue⟩
  refine .after fun open? => ?_
  cases open? with
  | none => exact hrest none fun _ he => nomatch he
  | some _ =>
    refine (yields_expression room).bind fun e he => .after fun _ => hrest (some e) fun e' he' => ?_
    cases he'
    exact he

/-- A statement that starts with a name is of its shape. -/
theorem yields_nameStatement (room : Nat) (t : Token) :
    Yields Stmt.WellShaped (nameStatement room t) := by
  have hcall : Yields Stmt.WellShaped (call room t) :=
    (yields_arguments room).bind fun _ hargs => .after fun _ => yields_pure hargs
  refine .after fun next => ?_
  cases next with
  | none => exact hcall
  | some u =>
    dsimp only
    split
    · exact yields_assignment room t
    · exact hcall

section Body

variable (body : Parse (List Stmt)) (room line : Nat)

/-- A branch that a word starts has a condition. -/
theorem yields_branch : Yields (fun b => b.condition ≠ none ∧ ∀ e ∈ b.condition, e.IsCondition)
    (branch room body line) := by
  refine (yields_condition room).bind fun e he => .after fun _ => .after fun _ => .after fun _ =>
    yields_pure ⟨by simp [Branch.condition], fun e' he' => ?_⟩
  cases he'
  exact he

/-- Of further branches only the last may have no condition, as none is asked
for behind an `else`. -/
theorem yields_moreBranches (rounds : List Token) :
    Yields (fun branches => (∀ b ∈ branches.dropLast, b.condition ≠ none) ∧
      ∀ b ∈ branches, ∀ e ∈ b.condition, e.IsCondition) (moreBranches room body rounds) := by
  induction rounds with
  | nil => exact yields_pure (by simp)
  | cons _ rounds ih =>
    -- what follows the word of a branch with a condition
    have hmore (line : Nat) : Yields (fun branches => (∀ b ∈ branches.dropLast, b.condition ≠ none) ∧
        ∀ b ∈ branches, ∀ e ∈ b.condition, e.IsCondition) (do
          let b ← branch room body line
          return b :: (← moreBranches room body rounds)) := by
      exact (yields_branch body room line).bind fun b hb => ih.bind fun rest hrest =>
        yields_pure ⟨Branch.guarded_cons hb.1 hrest.1, List.forall_mem_cons.2 ⟨hb.2, hrest.2⟩⟩
    refine .after fun elsif? => ?_
    cases elsif? with
    | some t => exact hmore t.line
    | none =>
      refine .after fun else? => ?_
      cases else? with
      | none => exact yields_pure (by simp)
      | some e =>
        refine .after fun if? => ?_
        cases if? with
        | some t => exact hmore t.line
        | none => exact .after fun _ => .after fun _ => yields_pure (by simp [Branch.condition])

/-- An if chain that is parsed is of its shape: its first branch has a
condition. -/
theorem yields_ifChain : Yields Stmt.WellShaped (ifChain room body line) :=
  (yields_branch body room line).bind fun _ hb => .after fun ts =>
    (yields_moreBranches body room ts).bind fun _ hrest => yields_pure
      ⟨List.cons_ne_nil _ _, Branch.guarded_cons hb.1 hrest.1, List.forall_mem_cons.2 ⟨hb.2, hrest.2⟩⟩

end Body

/-- **A statement that is parsed is of its shape.** -/
theorem yields_statement (room : Nat) : Yields Stmt.WellShaped (statement room) := by
  rintro ⟨ts, level⟩ s c h
  obtain ⟨k, t, rest, x, -, -, hx, hs⟩ := statement_ok h
  have hshape : Yields Stmt.WellShaped x := by
    cases hx with
    | ifChain => exact yields_ifChain _ k _
    | whileLoop =>
      exact (yields_condition k).bind fun _ he => .after fun _ => .after fun _ => yields_pure he
    | forLoop =>
      exact .after fun _ => .after fun _ => (yields_expression k).bind fun _ hstart =>
        .after fun _ => (yields_expression k).bind fun _ hstop => .after fun _ => .after fun _ =>
        yields_pure ⟨hstart, hstop⟩
    | repeatLoop =>
      exact .after fun _ => (yields_condition k).bind fun _ he => .after fun _ => .after fun _ =>
        yields_pure he
    | nameStatement => exact yields_nameStatement k t
  exact hshape _ _ _ hs

end Parse
end Shank
