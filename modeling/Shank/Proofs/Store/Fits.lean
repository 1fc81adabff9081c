/-
# What cells may hold

`ScalarType.Holds` says which scalars a variable of a type may hold, without the
checks of `Shank.Store`: an integer of 64 bits within its range, a real that is
a number within its range, a string of a length within its range. A cell `Fits`
when it holds such a scalar, or an array as long as its bounds ask for, each
item of the kind of its elements.

Every way in which a scalar comes into being ends in `ScalarType.check`, so one
lemma about it (`ScalarType.holds_of_check`) settles texts that are read,
initial values, literals and copies.

What a cell holds is told by its type alone, so a store fits when each of its
cells does. Storing keeps that (`type_put`, `holds_of_read`), and so does adding
a cell that is declared (`fits_of_initial`).
-/

import Shank.Store

namespace Shank

/-- The scalars that a variable of this type may hold. -/
def ScalarType.Holds : ScalarType → Scalar → Prop
  | .integer range, .integer n =>
    Scalar.minInteger ≤ n ∧ n ≤ Scalar.maxInteger ∧ ∀ r ∈ range, r.low ≤ n ∧ n ≤ r.high
  | .real range, .real x =>
    ∀ r ∈ range, x ≠ .nan ∧ r.low.number.le x = true ∧ x.le r.high.number = true
  | .string lengths, .string s => ∀ r ∈ lengths, r.low ≤ s.length ∧ s.length ≤ r.high
  | .character, .character c => c.toString.length = 1
  | .boolean, .boolean _ => True
  | _, _ => False

/-- The cells that hold what their type asks for. -/
def Cell.Fits : Cell → Prop
  | .scalar type v => type.Holds v
  | .array bounds element items =>
    items.size = bounds.size ∧ ∀ v ∈ items, (ScalarType.ofKind element).Holds v

/-- The type of a cell: kind and declared range, or bounds and the kind of the
elements. -/
def Cell.type : Cell → DeclaredType
  | .scalar type _ => .scalar type
  | .array bounds element _ => .array bounds element

namespace Ieee

/-- Nothing is above NaN, not even NaN. -/
theorem ne_nan_of_le {x y : Ieee} (h : x.le y = true) : y ≠ nan := by
  rintro rfl
  cases x <;> simp [le, lt, eq, compare?] at h

end Ieee

namespace ScalarType

/-- A variable holds scalars of its own kind only. -/
theorem kind_of_holds {type : ScalarType} {v : Scalar} (h : type.Holds v) : v.kind = type.kind := by
  cases type <;> cases v <;> first | rfl | exact h.elim

/-- A check lets a scalar pass as it is, or not at all. -/
theorem check_eq {type : ScalarType} {v w : Scalar} (h : type.check v = .ok w) : w = v := by
  unfold check at h
  split at h
  · split at h
    · cases h
    · split at h
      · split at h <;> cases h
        rfl
      · cases h; rfl
  · split at h <;> cases h
    rfl
  · split at h <;> cases h
    rfl
  · cases h; rfl

/-- **What passes the check may be held**, if it is of the right kind at all. -/
theorem holds_of_check {type : ScalarType} {v w : Scalar} (hk : v.kind = type.kind)
    (h : type.check v = .ok w) : type.Holds w := by
  obtain rfl := check_eq h
  cases type <;> cases w <;> cases hk
  case integer.integer range n =>
    simp only [check] at h
    split at h
    · cases h
    · refine ⟨by omega, by omega, fun r hr => ?_⟩
      obtain rfl : range = some r := hr
      by_cases hc : r.contains n = true
      · simpa [Interval.contains] using hc
      · simp [hc] at h
  case real.real range x =>
    intro r hr
    obtain rfl : range = some r := hr
    by_cases hc : r.contains x = true
    · have hx : r.low.number.le x = true ∧ x.le r.high.number = true := by
        simpa [RealInterval.contains] using hc
      exact ⟨Ieee.ne_nan_of_le hx.1, hx⟩
    · simp [check, hc] at h
  case string.string lengths s =>
    intro r hr
    obtain rfl : lengths = some r := hr
    by_cases hc : r.contains s.length = true
    · simpa [Interval.contains] using hc
    · simp [check, hc] at h
  case character.character c => simp [Holds]
  case boolean.boolean b => trivial

end ScalarType

namespace Scalar

/-- A text is read as a scalar of the kind that was asked for. -/
theorem kind_ofText {kind : Kind} {text : String} {v : Scalar} (h : ofText kind text = .ok v) :
    v.kind = kind := by
  cases kind
  case integer => simp only [ofText] at h; split at h <;> cases h; rfl
  case real => simp only [ofText] at h; split at h <;> cases h; rfl
  case string => cases h; rfl
  case character => simp only [ofText] at h; split at h <;> cases h; rfl
  case boolean => simp only [ofText] at h; split at h <;> cases h; rfl

end Scalar

namespace ScalarType

/-- **A text that is read for a variable is one it may hold.** -/
theorem holds_of_read {type : ScalarType} {text : String} {v : Scalar}
    (h : type.read text = .ok v) : type.Holds v := by
  unfold read at h
  cases hv : Scalar.ofText type.kind text with
  | error c => rw [hv] at h; cases h
  | ok w =>
    rw [hv] at h
    exact holds_of_check (Scalar.kind_ofText hv) h

/-- **A variable starts with something it may hold.** -/
theorem holds_of_initial {type : ScalarType} {v : Scalar} (h : type.initial = .ok v) :
    type.Holds v := by
  simp only [initial] at h
  split at h
  · rename_i w hw
    split at h <;> cases h
    rename_i hc
    refine holds_of_check ?_ hc
    split at hw
    · cases hw; rfl
    · split at hw
      · split at hw <;> cases hw
        rfl
      · cases hw; rfl
    · cases hw; rfl
    · cases hw
      exact Scalar.kind_initial _
  · cases h

/-- The initial scalar of a kind is one that a variable without a range may
hold. -/
theorem holds_initial (k : Kind) : (ofKind k).Holds (Scalar.initial k) := by
  cases k with
  | integer => exact ⟨by decide, by decide, fun _ hr => (nomatch hr)⟩
  | real | string => exact fun _ hr => (nomatch hr)
  | character => rfl
  | boolean => trivial

end ScalarType

namespace Cell

/-- **A declared variable fits from its first moment on.** -/
theorem fits_of_initial {type : DeclaredType} {c : Cell} (h : initial type = .ok c) :
    c.Fits ∧ c.type = type := by
  cases type with
  | scalar type =>
    simp only [initial] at h
    cases hv : type.initial with
    | error e => rw [hv] at h; cases h
    | ok v =>
      rw [hv] at h
      cases h
      exact ⟨ScalarType.holds_of_initial hv, rfl⟩
  | array bounds element =>
    cases h
    refine ⟨⟨Array.size_replicate, fun v hv => ?_⟩, rfl⟩
    rw [(Array.mem_replicate.1 hv).2]
    exact ScalarType.holds_initial element

/-- Storing keeps the type. -/
theorem type_put (c : Cell) (slot : Option Nat) (v : Scalar) : (c.put slot v).type = c.type := by
  unfold put
  split <;> rfl

end Cell

end Shank
