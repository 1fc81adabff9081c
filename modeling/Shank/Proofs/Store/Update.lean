/-
# What a change of the store leaves alone

A store changes in two ways: a cell is added, or a scalar is stored at a place.
Each operation is told by what it does to `cell` and `get`; nothing later looks
inside them.

* A place `covers` another one when it is that place, or the whole cell that the other lies in. What
  is stored at a place shows at the places it covers only (`get_put`), so two slots of arrays never
  share an item (`get_put_slot`).
* A store `Grows` into another when no cell is lost and every cell keeps its type.
* A store `Fits` when its cells do; then the type of a cell tells the kind of what is there
  (`tag_get`).
-/

import Shank.Proofs.Store.Fits
import Mathlib.Order.Basic
import Mathlib.Data.Nat.Basic

namespace Shank

/-- Is `q` the place `p`, or a part of it? -/
def Place.covers (p q : Place) : Prop :=
  p.cell = q.cell ∧ (p.slot = none ∨ p.slot = q.slot)

/-- A place is given by its cell and its slot. -/
theorem Place.eq_of_cell_of_slot {p q : Place} (hcell : p.cell = q.cell) (hslot : p.slot = q.slot) :
    p = q := by
  cases p
  cases q
  exact congrArg₂ Place.mk hcell hslot

/-- The kind of what is at a slot, or at the whole, of a cell of a type. -/
def DeclaredType.tagAt : DeclaredType → Option Nat → Tag
  | .scalar type, _ => .scalar type.kind
  | .array _ element, some _ => .scalar element
  | .array _ _, none => .array

namespace Store

/-- Every cell of a store fits. -/
def Fits (s : Store) : Prop :=
  ∀ i, (s.cell i).Fits

/-- No cell of `s` is lost in `t`, and each keeps its type. -/
structure Grows (s t : Store) : Prop where
  size_le : s.cells.size ≤ t.cells.size
  type_eq : ∀ i < s.cells.size, (t.cell i).type = (s.cell i).type

/-- A store grows into itself. -/
theorem Grows.refl (s : Store) : s.Grows s :=
  ⟨le_rfl, fun _ _ => rfl⟩

/-- **What grows in two steps grows**: growth is what a whole run keeps, once
every step keeps it. -/
theorem Grows.trans {s t u : Store} (h : s.Grows t) (h' : t.Grows u) : s.Grows u :=
  ⟨h.size_le.trans h'.size_le,
    fun i hi => (h'.type_eq i (hi.trans_le h.size_le)).trans (h.type_eq i hi)⟩

/-! ## Adding a cell

A new cell comes behind the others, so the places of all others stay what they
were.
-/

/-- To add a cell makes the store larger by one. -/
@[simp]
theorem size_add (s : Store) (c : Cell) : (s.add c).1.cells.size = s.cells.size + 1 :=
  Array.size_push c

/-- To add a cell leaves those that are there as they were. -/
theorem cell_add_of_lt {s : Store} {i : Nat} (h : i < s.cells.size) (c : Cell) :
    (s.add c).1.cell i = s.cell i := by
  simp [cell, add, Array.getElem?_push, Nat.ne_of_lt h]

/-- The new cell comes behind all others. -/
theorem cell_add_self (s : Store) (c : Cell) : (s.add c).1.cell s.cells.size = c := by
  simp [cell, add]

/-- What lies outside of the store is not there. -/
theorem cell_of_le {s : Store} {i : Nat} (h : s.cells.size ≤ i) :
    s.cell i = .plain (.boolean false) := by
  simp [cell, Array.getElem?_eq_none h]

/-- A store grows by a cell that is added. -/
theorem grows_add (s : Store) (c : Cell) : s.Grows (s.add c).1 :=
  ⟨by simp, fun _ hi => by rw [cell_add_of_lt hi]⟩

/-- A cell that fits may be added. -/
theorem Fits.add {s : Store} (h : s.Fits) {c : Cell} (hc : c.Fits) : (s.add c).1.Fits := by
  intro i
  rcases lt_trichotomy i s.cells.size with hi | rfl | hi
  · rw [cell_add_of_lt hi]
    exact h i
  · rwa [cell_add_self]
  · rw [cell_of_le (by rw [size_add]; exact hi)]
    trivial

/-! ## Storing a scalar

What is stored at a place changes its cell only, and in an array only the item
at its slot. The type of the cell is not touched.
-/

/-- To store a scalar neither adds a cell nor takes one away. -/
@[simp]
theorem size_put (s : Store) (p : Place) (v : Scalar) :
    (s.put p v).cells.size = s.cells.size := by
  simp [put]

/-- To store a scalar leaves all other cells as they were. -/
theorem cell_put_of_ne {s : Store} {p : Place} {i : Nat} (h : p.cell ≠ i) (v : Scalar) :
    (s.put p v).cell i = s.cell i := by
  simp [cell, put, Array.getElem?_modify, h]

/-- The cell that is stored to is the only one that changes. -/
theorem cell_put_self {s : Store} {p : Place} (h : p.cell < s.cells.size) (v : Scalar) :
    (s.put p v).cell p.cell = (s.cell p.cell).put p.slot v := by
  simp [cell, put, h, Array.getElem_modify]

/-- Outside of the store nothing can be stored. -/
theorem put_of_le {s : Store} {p : Place} (h : s.cells.size ≤ p.cell) (v : Scalar) (i : Nat) :
    (s.put p v).cell i = s.cell i := by
  by_cases hi : p.cell = i
  · subst hi
    rw [cell_of_le h, cell_of_le (by simpa using h)]
  · exact cell_put_of_ne hi v

/-- To store a scalar leaves all types as they were, also that of the cell that
is stored to. -/
theorem type_cell_put (s : Store) (p : Place) (v : Scalar) (i : Nat) :
    ((s.put p v).cell i).type = (s.cell i).type := by
  by_cases hp : p.cell < s.cells.size
  · by_cases hi : p.cell = i
    · subst hi
      rw [cell_put_self hp, Cell.type_put]
    · rw [cell_put_of_ne hi]
  · rw [put_of_le (Nat.le_of_not_lt hp)]

/-- A store into which a scalar is stored has grown. -/
theorem grows_put (s : Store) (p : Place) (v : Scalar) : s.Grows (s.put p v) :=
  ⟨by simp, fun i _ => type_cell_put s p v i⟩

/-- **A text that is read for a place may be stored there.** -/
theorem Fits.put {s : Store} (h : s.Fits) {p : Place} {text : String} {v : Scalar}
    (hv : s.reading p text = .ok v) : (s.put p v).Fits := by
  intro i
  by_cases hp : p.cell < s.cells.size
  · by_cases hi : p.cell = i
    · subst hi
      rw [cell_put_self hp]
      have hc := h p.cell
      simp only [reading, typeAt?] at hv
      cases he : s.cell p.cell with
      | scalar type w =>
        rw [he] at hv
        cases hs : p.slot with
        | none => exact ScalarType.holds_of_read hv
        | some k => simpa [Cell.put, he] using hc
      | array bounds element items =>
        rw [he] at hv hc
        cases hs : p.slot with
        | none => exact hc
        | some k =>
          rw [hs] at hv
          refine ⟨by simpa using hc.1, fun w hw => ?_⟩
          rcases Array.mem_or_eq_of_mem_setIfInBounds hw with hw | rfl
          · exact hc.2 w hw
          · exact ScalarType.holds_of_read hv
    · rw [cell_put_of_ne hi]
      exact h i
  · rw [put_of_le (Nat.le_of_not_lt hp)]
    exact h i

/-- **What is stored at a place shows at the places it covers only.** -/
theorem get_put {s : Store} {p q : Place} (h : ¬p.covers q) (v : Scalar) :
    (s.put p v).get q = s.get q := by
  by_cases hp : p.cell < s.cells.size
  · by_cases hi : p.cell = q.cell
    · obtain ⟨hnone, hslot⟩ : p.slot ≠ none ∧ p.slot ≠ q.slot := by
        simpa [Place.covers, hi] using h
      obtain ⟨k, hk⟩ := Option.ne_none_iff_exists'.1 hnone
      simp only [get, ← hi, cell_put_self hp, hk]
      cases s.cell p.cell with
      | scalar type w => rfl
      | array bounds element items =>
        cases hq : q.slot with
        | none => rfl
        | some j =>
          have hne : k ≠ j := fun e => hslot (by rw [hk, hq, e])
          simp [Cell.put, hne]
    · simp only [get, cell_put_of_ne hi]
  · simp only [get, put_of_le (Nat.le_of_not_lt hp)]

/-- Two slots of arrays never share an item. -/
theorem get_put_slot {s : Store} {p q : Place} (hp : p.slot ≠ none) (h : p ≠ q) (v : Scalar) :
    (s.put p v).get q = s.get q := by
  refine get_put (fun hc => ?_) v
  rcases hc with ⟨hcell, hslot | hslot⟩
  · exact hp hslot
  · exact h (Place.eq_of_cell_of_slot hcell hslot)

/-! ## What is at a place

The kind of what is at a place is told by the type of its cell, whatever was
stored there before.
-/

/-- **The type of a cell tells the kind of what is there.** -/
theorem tag_get {s : Store} (h : s.Fits) (p : Place) :
    tag (s.get p) = (s.cell p.cell).type.tagAt p.slot := by
  have hc := h p.cell
  simp only [get]
  cases he : s.cell p.cell with
  | scalar type v =>
    rw [he] at hc
    simp [tag, Cell.type, DeclaredType.tagAt, ScalarType.kind_of_holds hc]
  | array bounds element items =>
    rw [he] at hc
    cases p.slot with
    | none => rfl
    | some k =>
      have hk : (items.getD k (Scalar.initial element)).kind = element := by
        by_cases hlt : k < items.size
        · have hv := ScalarType.kind_of_holds (hc.2 _ (Array.getElem_mem hlt))
          simpa [hlt, ScalarType.kind_ofKind] using hv
        · simp [Array.getElem?_eq_none (Nat.le_of_not_lt hlt), Scalar.kind_initial]
      simp only [tag, Cell.type, DeclaredType.tagAt, hk]

end Store

end Shank
