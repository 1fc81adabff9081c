/-
# What a variable starts with

A declared variable starts within its range, or not at all.

| declared | starts with | if |
| --- | --- | --- |
| integer from `low` to `high` | the integer of the range that is nearest to zero | that has 64 bits |
| string from `low` to `high` | `low` blanks, or none if `low` is negative | `high` is not negative |
| real from `low` to `high` | the real of the range that is nearest to zero | its bounds are of single precision |
| array from `low` to `high` | `high - low + 1` items of its kind | always |

A real range may have other bounds. What would be nearest to zero is rounded
then, and the variable starts with that or not at all.
-/

import Shank.Proofs.Ieee.Counting
import Shank.Proofs.Run.Assignment
import Shank.Proofs.WellShaped

namespace Shank

/-! ## Nearest to zero

The number of a range that is nearest to zero is zero itself, or the bound on
the side of zero.
-/

/-- The number without its sign. -/
def Ieee.abs : Ieee → Ieee
  | nan => nan
  | infinity _ => infinity false
  | negativeZero => finite 0
  | finite q => finite |q|

/-- An integer within the bounds, and none of those is nearer to zero. -/
structure Interval.IsNearest (r : Interval) (n : Int) : Prop where
  mem : r.contains n = true
  le : ∀ k, r.contains k = true → n.natAbs ≤ k.natAbs

/-- A number within the bounds, and none of those is nearer to zero. Zero itself
has no minus. -/
structure RealInterval.IsNearest (r : RealInterval) (x : Ieee) : Prop where
  mem : r.contains x = true
  le : ∀ y, r.contains y = true → x.abs.le y.abs = true
  ne_negativeZero : x ≠ .negativeZero

namespace Ieee

variable {x y z : Ieee}

/-- What is not NaN is not above itself. -/
theorem le_refl (hx : x ≠ nan) : x.le x = true := by
  unfold le
  rw [(eq_self_iff x).2 hx, Bool.or_true]

/-- NaN is below nothing. -/
theorem ne_nan_of_le_left (h : x.le y = true) : x ≠ nan := by
  rintro rfl
  cases y <;> simp [le, lt, eq, compare?] at h

/-- Of two numbers in order the second is not below the first. -/
theorem not_lt_of_le (h : x.le y = true) : y.lt x = false := by
  cases x <;> cases y <;> simp only [le, lt, eq, compare?] at h ⊢ <;> grind

/-- A magnitude is not below zero. -/
theorem zero_le_abs (hx : x ≠ nan) : (finite 0).le x.abs = true := by
  cases x with
  | nan => exact absurd rfl hx
  | infinity | negativeZero => rfl
  | finite q => exact (le_iff rfl rfl).2 (abs_nonneg q)

/-- Of positive numbers the smaller one is nearer to zero. -/
theorem abs_le_abs_of_pos (hx : (finite 0).lt x = true) (h : x.le y = true) : x.abs.le y.abs = true := by
  cases x <;> cases y <;> simp only [le, lt, eq, compare?, abs] at h hx ⊢ <;> grind

/-- Of negative numbers the larger one is. -/
theorem abs_le_abs_of_neg (hx : x.lt (finite 0) = true) (h : y.le x = true) : x.abs.le y.abs = true := by
  cases x <;> cases y <;> simp only [le, lt, eq, compare?, abs] at h hx ⊢ <;> grind

/-- A number of single precision is one of double precision. -/
theorem IsSingle.round_double (hx : x.IsSingle) : Format.double.round x = x := by
  have hpositive {q : Rat} (hq : 0 < q) (h : Format.single.ofRat q = finite q) :
      Format.double.ofRat q = finite q := by
    obtain ⟨m, e, rfl, hm, hprecision, hmin, hmax⟩ := Format.exists_of_single hq h
    exact Format.ofRat_exact hm (hprecision.trans (by decide)) (le_trans (by decide) hmin)
      (hmax.trans (by decide))
  cases x with
  | nan | infinity | negativeZero => rfl
  | finite q =>
    rcases lt_trichotomy q 0 with hq | rfl | hq
    · have hneg : finite (-q) = (finite q).neg := by rw [Ieee.neg, if_neg hq.ne]
      have hsingle : Format.single.round (finite (-q)) = finite (-q) := by
        rw [hneg, Format.round_neg, hx.single]
      have hdouble : Format.double.round (finite (-q)) = finite (-q) := hpositive (neg_pos.2 hq) hsingle
      rw [hneg, Format.round_neg] at hdouble
      rw [← (Format.double.round _).neg_neg, hdouble, neg_neg]
    · rfl
    · exact hpositive hq hx.single

end Ieee

namespace Interval

variable {r : Interval}

/-- **An integer range is started at its number nearest to zero.** This is zero
itself if it is in the range, and else the bound that is on its side. -/
theorem isNearest_clampZero (h : r.low ≤ r.high) : r.IsNearest r.clampZero := by
  simp only [clampZero]
  constructor
  · simp only [contains, Bool.and_eq_true, decide_eq_true_eq]
    omega
  · intro k hk
    simp only [contains, Bool.and_eq_true, decide_eq_true_eq] at hk
    omega

end Interval

namespace RealInterval

variable {r : RealInterval}

/-- A number is in a range if it lies between the bounds. -/
theorem contains_iff {x : Ieee} :
    r.contains x = true ↔ r.low.number.le x = true ∧ x.le r.high.number = true :=
  Bool.and_eq_true_iff

/-- A range above zero is started at its lower bound. -/
theorem clampZero_of_pos (h : r.low.number.le r.high.number = true)
    (hpos : (Ieee.finite 0).lt r.low.number = true) : r.clampZero = r.low := by
  have hlow : (Bound.real (.finite 0)).lt r.low = true := hpos
  have hhigh : r.high.lt r.low = false := Ieee.not_lt_of_le h
  simp only [clampZero, hlow, hhigh, Bool.false_eq_true, if_true, if_false]

/-- A range below zero is started at its upper bound. -/
theorem clampZero_of_neg (hnonpos : (Ieee.finite 0).lt r.low.number = false)
    (hneg : r.high.number.lt (.finite 0) = true) : r.clampZero = r.high := by
  have hlow : (Bound.real (.finite 0)).lt r.low = false := hnonpos
  have hhigh : r.high.lt (.real (.finite 0)) = true := hneg
  simp only [clampZero, hlow, hhigh, Bool.false_eq_true, if_true, if_false]

/-- A range with zero in it is started at zero. -/
theorem clampZero_of_zero (hnonpos : (Ieee.finite 0).lt r.low.number = false)
    (hnonneg : r.high.number.lt (.finite 0) = false) : r.clampZero = .real (.finite 0) := by
  have hlow : (Bound.real (.finite 0)).lt r.low = false := hnonpos
  have hhigh : r.high.lt (.real (.finite 0)) = false := hnonneg
  simp only [clampZero, hlow, hhigh, Bool.false_eq_true, if_false]

/-- **A real range is started at its number nearest to zero**: the bound that
zero is beyond, or zero itself. -/
theorem isNearest_clampZero (h : r.low.number.le r.high.number = true) :
    r.IsNearest r.clampZero.number := by
  have hlow : r.low.number ≠ .nan := Ieee.ne_nan_of_le_left h
  have hhigh : r.high.number ≠ .nan := Ieee.ne_nan_of_le h
  cases hpos : (Ieee.finite 0).lt r.low.number with
  | true =>
    rw [clampZero_of_pos h hpos]
    refine ⟨contains_iff.2 ⟨Ieee.le_refl hlow, h⟩, fun y hy => ?_, fun hzero => ?_⟩
    · exact Ieee.abs_le_abs_of_pos hpos (contains_iff.1 hy).1
    · rw [hzero] at hpos
      exact absurd hpos (by decide)
  | false =>
    cases hneg : r.high.number.lt (.finite 0) with
    | true =>
      rw [clampZero_of_neg hpos hneg]
      refine ⟨contains_iff.2 ⟨h, Ieee.le_refl hhigh⟩, fun y hy => ?_, fun hzero => ?_⟩
      · exact Ieee.abs_le_abs_of_neg hneg (contains_iff.1 hy).2
      · rw [hzero] at hneg
        exact absurd hneg (by decide)
    | false =>
      rw [clampZero_of_zero hpos hneg]
      -- neither bound keeps zero out
      have hmem : r.low.number.le (.finite 0) = true := Ieee.le_of_not_lt hlow nofun hpos
      have hmem' : (Ieee.finite 0).le r.high.number = true := Ieee.le_of_not_lt nofun hhigh hneg
      refine ⟨contains_iff.2 ⟨hmem, hmem'⟩, fun y hy => ?_, nofun⟩
      have hzero : Ieee.abs (.finite 0) = .finite 0 := by rw [Ieee.abs, abs_zero]
      show (Ieee.abs (.finite 0)).le y.abs = true
      rw [hzero]
      exact Ieee.zero_le_abs (Ieee.ne_nan_of_le (contains_iff.1 hy).1)

/-- A range of single precision is started at a single. -/
theorem isSingle_clampZero (h : r.low.number.le r.high.number = true) (hlow : r.low.number.IsSingle)
    (hhigh : r.high.number.IsSingle) : r.clampZero.number.IsSingle := by
  cases hpos : (Ieee.finite 0).lt r.low.number with
  | true => rwa [clampZero_of_pos h hpos]
  | false =>
    cases hneg : r.high.number.lt (.finite 0) with
    | true => rwa [clampZero_of_neg hpos hneg]
    | false =>
      rw [clampZero_of_zero hpos hneg]
      exact ⟨nofun, rfl⟩

end RealInterval

/-! ## Declared variables

A type with a range starts at the number of it that is nearest to zero, if that
can be stored, and one without at the initial value of its kind.
-/

namespace ScalarType

/-- An integer variable with a range starts with the number nearest to zero, if
that has 64 bits. -/
theorem initial_integer (r : Interval) (h : r.low ≤ r.high) :
    (integer (some r)).initial =
      if Scalar.minInteger ≤ r.clampZero ∧ r.clampZero ≤ Scalar.maxInteger then .ok (.integer r.clampZero)
      else .error (.of (.integerOverflow r.clampZero)) := by
  have hmem := (Interval.isNearest_clampZero h).mem
  unfold initial
  dsimp only [check]
  by_cases hbits : r.clampZero < Scalar.minInteger ∨ Scalar.maxInteger < r.clampZero
  · rw [if_pos hbits, if_neg (by omega)]
  · rw [if_neg hbits, hmem]
    exact (if_pos (by omega)).symm

/-- A string variable with a range of lengths starts with the fewest blanks that
are allowed, if there is a length that is not negative. -/
theorem initial_string (r : Interval) (h : r.low ≤ r.high) :
    (string (some r)).initial =
      if 0 ≤ r.high then .ok (.string (String.ofList (List.replicate (max r.low 0).toNat ' ')))
      else .error (.of (.lengthOutside 0 r)) := by
  have hblanks : (max r.low 0).toNat = r.low.toNat := by omega
  have hlength : (String.ofList (List.replicate r.low.toNat ' ')).length = r.low.toNat := by
    rw [← String.length_toList, String.toList_ofList, List.length_replicate]
  have hcontains : r.contains (r.low.toNat : Int) = decide (0 ≤ r.high) := by
    rw [Bool.eq_iff_iff]
    simp only [Interval.contains, Bool.and_eq_true, decide_eq_true_eq]
    omega
  unfold initial
  dsimp only [check]
  rw [hlength, hcontains, hblanks]
  by_cases hhigh : 0 ≤ r.high
  · rw [if_pos hhigh, decide_eq_true hhigh]
    rfl
  · have hzero : r.low.toNat = 0 := by omega
    rw [if_neg hhigh, decide_eq_false hhigh, hzero]
    rfl

/-- A real that is held in single precision is not rounded. -/
theorem initial_real {r : RealInterval} (hsingle : r.clampZero.number.IsSingle)
    (hmem : r.contains r.clampZero.number = true) :
    (real (some r)).initial = .ok (.real r.clampZero.number) := by
  cases hclamp : r.clampZero with
  | whole n =>
    rw [hclamp] at hsingle hmem
    have hdouble : Format.double.ofInt n = .finite n := hsingle.round_double
    have hround : Format.single.round (.finite n) = .finite n := hsingle.single
    dsimp only [Bound.number] at hmem
    simp only [initial, hclamp, hdouble, hround, check, hmem, if_true, Bound.number]
  | real x =>
    rw [hclamp] at hsingle hmem
    have hround : Format.single.round x = x := hsingle.single
    dsimp only [Bound.number] at hmem
    simp only [initial, hclamp, hround, check, hmem, if_true, Bound.number]

end ScalarType

/-- The slots of a new array are scalars of their own: what is stored at one of
them is stored there only. -/
theorem Store.sets_slot (s : Store) (bounds : Interval) (k : Kind) {items : Array Scalar} {i : Nat}
    (hi : i < items.size) (v : Scalar) :
    let t := (s.add (.array bounds k items)).1
    t.Sets (t.put ⟨s.cells.size, some i⟩ v) ⟨s.cells.size, some i⟩ v := by
  intro t
  have hcell : t.cell s.cells.size = .array bounds k items := cell_add_self s _
  refine HasScalar.sets_put ⟨?_, ?_⟩ v
  · show s.cells.size < t.cells.size
    rw [size_add]
    exact Nat.lt_succ_self _
  · dsimp only
    rw [hcell]
    exact hi

/-- A declaration of a parsed program has the shape of one. -/
theorem Parsing.wellShaped_of_declares {tokens : List Token} {room : Nat} {p : Program}
    (h : (ofTokens tokens room).program = .ok p) {type : DeclaredType} (ht : p.Declares type) :
    type.WellShaped := by
  obtain ⟨k, rfl⟩ | ⟨f, hf, d, hd, rfl⟩ := ht
  · exact DeclaredType.wellShaped_ofKind k
  · have hshape := wellShaped_of_mem h hf
    rcases List.mem_append.1 hd with hd | hd
    · obtain ⟨v, hv, rfl⟩ := List.mem_map.1 hd
      exact hshape.parameters v hv
    · obtain ⟨l, hl, rfl⟩ := List.mem_map.1 hd
      cases l with
      | constant c => exact DeclaredType.wellShaped_ofKind _
      | var v => exact hshape.locals _ hl

namespace Program

/-- **A declared variable starts within its range**, or not at all. That of an
integer starts with the one nearest to zero, if it has 64 bits; that of a string
with as few blanks as there may be, if there may be any number of them; that of
a real, if its bounds are of single precision, with the one nearest to zero. An
array always starts, with an item for each index, and they are scalars of their
own. -/
theorem starts_within_range {tokens : List Token} {room : Nat} {p : Program}
    (h : (Parsing.ofTokens tokens room).program = .ok p) :
    (∀ type c, p.Declares type → Cell.initial type = .ok c → c.type = type ∧ c.Fits) ∧
    (∀ r, p.Declares (.scalar (.integer (some r))) → ∃ n, r.IsNearest n ∧
      Cell.initial (.scalar (.integer (some r))) =
        if Scalar.minInteger ≤ n ∧ n ≤ Scalar.maxInteger then
          .ok (.scalar (.integer (some r)) (.integer n))
        else .error (.of (.integerOverflow n))) ∧
    (∀ r, p.Declares (.scalar (.string (some r))) →
      Cell.initial (.scalar (.string (some r))) =
        if 0 ≤ r.high then
          .ok (.scalar (.string (some r))
            (.string (String.ofList (List.replicate (max r.low 0).toNat ' '))))
        else .error (.of (.lengthOutside 0 r))) ∧
    (∀ r, p.Declares (.scalar (.real (some r))) → r.low.number.IsSingle → r.high.number.IsSingle →
      ∃ x, r.IsNearest x ∧
        Cell.initial (.scalar (.real (some r))) = .ok (.scalar (.real (some r)) (.real x))) ∧
    ∀ bounds k, p.Declares (.array bounds k) → ∃ items,
      Cell.initial (.array bounds k) = .ok (.array bounds k items) ∧
      (items.size : Int) = bounds.high - bounds.low + 1 ∧ (∀ v ∈ items, v = Scalar.initial k) ∧
      ∀ (s : Store) (i : Nat) (v : Scalar), i < items.size →
        let t := (s.add (.array bounds k items)).1
        t.Sets (t.put ⟨s.cells.size, some i⟩ v) ⟨s.cells.size, some i⟩ v := by
  -- bounds that are in order as reals are so as integers
  have hwhole {low high : Int} (hle : (Bound.whole low).number.le (Bound.whole high).number = true) :
      low ≤ high := by
    have hcast := (Ieee.le_iff (x := .finite low) (y := .finite high) rfl rfl).1 hle
    exact_mod_cast hcast
  refine ⟨fun type c _ hc => (Cell.fits_of_initial hc).symm, fun r hr => ?_, fun r hr => ?_,
    fun r hr hlow hhigh => ?_, fun bounds k hr => ?_⟩
  · have hordered := hwhole ((Parsing.wellShaped_of_declares h hr).ordered _ rfl)
    refine ⟨r.clampZero, Interval.isNearest_clampZero hordered, ?_⟩
    rw [Cell.initial, ScalarType.initial_integer r hordered]
    split <;> rfl
  · have hordered := hwhole ((Parsing.wellShaped_of_declares h hr).ordered _ rfl)
    rw [Cell.initial, ScalarType.initial_string r hordered]
    split <;> rfl
  · have hordered := (Parsing.wellShaped_of_declares h hr).ordered _ rfl
    have hnearest := RealInterval.isNearest_clampZero hordered
    refine ⟨r.clampZero.number, hnearest, ?_⟩
    rw [Cell.initial,
      ScalarType.initial_real (RealInterval.isSingle_clampZero hordered hlow hhigh) hnearest.mem]
    rfl
  · have hordered := hwhole ((Parsing.wellShaped_of_declares h hr).ordered _ rfl)
    refine ⟨_, rfl, ?_, fun v hv => (Array.mem_replicate.1 hv).2, fun s i v hi => s.sets_slot bounds k hi v⟩
    rw [Array.size_replicate, Interval.size]
    omega

/-- A text that declares an integer, a string, a real and an array. -/
def rangedTokens : List Token :=
  [⟨.define, "define", 1, 1⟩, ⟨.identifier, "main", 1, 8⟩, ⟨.openParen, "(", 1, 12⟩,
    ⟨.closeParen, ")", 1, 13⟩, ⟨.endOfLine, "", 1, 14⟩, ⟨.variables_, "variables", 2, 1⟩,
    ⟨.identifier, "n", 2, 11⟩, ⟨.colon, ":", 2, 13⟩, ⟨.integer, "integer", 2, 15⟩,
    ⟨.from_, "from", 2, 23⟩, ⟨.number, "3", 2, 28⟩, ⟨.to_, "to", 2, 30⟩, ⟨.number, "9", 2, 33⟩,
    ⟨.semicolon, ";", 2, 34⟩, ⟨.identifier, "s", 2, 36⟩, ⟨.colon, ":", 2, 38⟩,
    ⟨.string, "string", 2, 40⟩, ⟨.from_, "from", 2, 47⟩, ⟨.number, "2", 2, 52⟩, ⟨.to_, "to", 2, 54⟩,
    ⟨.number, "5", 2, 57⟩, ⟨.semicolon, ";", 2, 58⟩, ⟨.identifier, "x", 2, 60⟩, ⟨.colon, ":", 2, 62⟩,
    ⟨.real, "real", 2, 64⟩, ⟨.from_, "from", 2, 69⟩, ⟨.minus, "-", 2, 74⟩, ⟨.number, "4", 2, 75⟩,
    ⟨.to_, "to", 2, 77⟩, ⟨.minus, "-", 2, 80⟩, ⟨.number, "1", 2, 81⟩, ⟨.semicolon, ";", 2, 82⟩,
    ⟨.identifier, "a", 2, 84⟩, ⟨.colon, ":", 2, 86⟩, ⟨.array, "array", 2, 88⟩, ⟨.from_, "from", 2, 94⟩,
    ⟨.number, "0", 2, 99⟩, ⟨.to_, "to", 2, 101⟩, ⟨.number, "2", 2, 104⟩, ⟨.of_, "of", 2, 106⟩,
    ⟨.integer, "integer", 2, 109⟩, ⟨.endOfLine, "", 2, 116⟩, ⟨.indent, "", 3, 1⟩,
    ⟨.identifier, "write", 3, 2⟩, ⟨.endOfLine, "", 3, 7⟩, ⟨.dedent, "", 4, 1⟩]

/-- A program with a variable of each kind that can have a range, and an array. -/
def rangedProgram : Program :=
  ⟨[⟨1, "main", [], [.var ⟨2, "n", .scalar (.integer (some ⟨3, 9⟩)), false⟩,
    .var ⟨2, "s", .scalar (.string (some ⟨2, 5⟩)), false⟩,
    .var ⟨2, "x", .scalar (.real (some ⟨.whole (-4), .whole (-1)⟩)), false⟩,
    .var ⟨2, "a", .array ⟨0, 2⟩ .integer, false⟩], [.call 3 "write" []]⟩]⟩

/-- The hypotheses of `starts_within_range` are satisfiable: each of these
variables starts, the integer with 3 and the string with two blanks. -/
theorem starts_within_range_sample :
    parse rangedTokens = .ok rangedProgram ∧
      Cell.initial (.scalar (.integer (some ⟨3, 9⟩))) =
        .ok (.scalar (.integer (some ⟨3, 9⟩)) (.integer 3)) ∧
      Cell.initial (.scalar (.string (some ⟨2, 5⟩))) =
        .ok (.scalar (.string (some ⟨2, 5⟩)) (.string "  ")) ∧
      (∃ x, Cell.initial (.scalar (.real (some ⟨.whole (-4), .whole (-1)⟩))) =
        .ok (.scalar (.real (some ⟨.whole (-4), .whole (-1)⟩)) (.real x)) ∧ x.le (.finite (-1)) = true) ∧
      ∃ items, Cell.initial (.array ⟨0, 2⟩ .integer) = .ok (.array ⟨0, 2⟩ .integer items) ∧
        (items.size : Int) = 3 := by
  have hparse : parse rangedTokens = .ok rangedProgram := rfl
  -- the program declares these types, as variables of its only function
  have hdeclares {v : Variable} (hv : Local.var v ∈ (rangedProgram.functions.flatMap Function.locals)) :
      rangedProgram.Declares v.type :=
    .inr ⟨_, List.mem_singleton_self _, _, List.mem_map_of_mem hv, rfl⟩
  obtain ⟨-, hinteger, hstring, hreal, harray⟩ := starts_within_range hparse
  refine ⟨hparse, ?_, ?_, ?_, ?_⟩
  · obtain ⟨n, hnearest, hinitial⟩ :=
      hinteger ⟨3, 9⟩ (hdeclares (v := ⟨2, "n", _, false⟩) (by decide))
    obtain rfl : n = 3 := by
      have hmem := hnearest.mem
      have hle := hnearest.le 3 (by decide)
      simp only [Interval.contains, Bool.and_eq_true, decide_eq_true_eq] at hmem
      omega
    exact hinitial
  · exact hstring ⟨2, 5⟩ (hdeclares (v := ⟨2, "s", _, false⟩) (by decide))
  · obtain ⟨x, hnearest, hinitial⟩ := hreal ⟨.whole (-4), .whole (-1)⟩
      (hdeclares (v := ⟨2, "x", _, false⟩) (by decide)) ⟨by decide, by decide +kernel⟩
      ⟨by decide, by decide +kernel⟩
    exact ⟨x, hinitial, (RealInterval.contains_iff.1 hnearest.mem).2⟩
  · obtain ⟨items, hinitial, hsize, -⟩ :=
      harray ⟨0, 2⟩ .integer (hdeclares (v := ⟨2, "a", _, false⟩) (by decide))
    exact ⟨items, hinitial, hsize⟩

end Program
end Shank
