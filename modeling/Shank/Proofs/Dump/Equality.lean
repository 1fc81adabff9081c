/-
# Equality of dumps

`Dump.equal` compares dumps by what they hold:

| dumps | equal |
| --- | --- |
| texts | the same text |
| numbers, lines and flags | the same number, a flag as one or zero |
| ranges | the same numbers as bounds |
| lists | equal items in the same places |
| records | the same names, with equal dumps under each, in any order |

It tells less apart than the equality of trees: not the order of fields, not the
two zeros, not a number from another kind of number.
-/

import Shank.Syntax.Dump
import Shank.Syntax.Same
import Mathlib.Data.List.Perm.Subperm
import Mathlib.Data.Rat.Cast.Order

namespace Shank

/-- Finite numbers are equal as numbers if they are the same rational. -/
theorem Ieee.eq_finite {p q : Rat} : (finite p).eq (finite q) = true ↔ p = q := by
  rcases lt_trichotomy p q with h | h | h
  · simp [eq, compare?, h, h.ne]
  · simp [eq, compare?, h]
  · simp [eq, compare?, h.not_gt, h.ne']

/-- Integer bounds are equal as numbers if they are the same integer. -/
theorem Bound.eq_whole {m n : Int} : (whole m).eq (whole n) = true ↔ m = n :=
  Ieee.eq_finite.trans Rat.intCast_inj

namespace Dump

variable {fs gs : List (String × Dump)} {name : String}

/-- The dump that a record has under a name. -/
def get? (d : Dump) (name : String) : Option Dump :=
  match d with
  | record fields => fields.lookup name
  | _ => none

/-- No name is in a record twice. -/
def Keyed : Dump → Prop
  | record fields => (fields.map Prod.fst).Nodup
  | _ => True

/-- The number that a part stands for. -/
def number? : Dump → Option Ieee
  | whole n => some (.finite n)
  | real x => some x
  | line n => some (.finite n)
  | flag b => some (.finite (if b then 1 else 0))
  | _ => none

/-- Equality of parts that stand for numbers. -/
def equalNumber (d e : Dump) : Bool :=
  match d.number?, e.number? with
  | some x, some y => x.eq y
  | _, _ => false

mutual

/-- Equality of what dumps hold. -/
def equal : Dump → Dump → Bool
  | .text s, .text t => s == t
  | .range a b, .range c d => a.eq c && b.eq d
  | .list as, .list bs => Dump.equalItems as bs
  | .record fs, .record gs => fs.length == gs.length && Dump.equalFields fs gs
  | d, e => d.equalNumber e

/-- Equality of items in the same places. -/
def equalItems : List Dump → List Dump → Bool
  | [], [] => true
  | d :: ds, e :: es => equal d e && equalItems ds es
  | _, _ => false

/-- Each field has its equal of the same name. -/
def equalFields : List (String × Dump) → List (String × Dump) → Bool
  | [], _ => true
  | (name, d) :: rest, gs => (gs.lookup name).any (equal d) && equalFields rest gs

end

/-! ## Parts

How two dumps compare, by what they are: as texts, as numbers, item by item, or
field by field. Numbers are equal by their values, whatever form they are shown
in.
-/

/-- Texts are equal if they are the same. -/
@[simp] theorem equal_text {s t : String} : (text s).equal (text t) = true ↔ s = t :=
  beq_iff_eq

/-- Integers are equal if they are the same. -/
@[simp] theorem equal_whole {m n : Int} : (whole m).equal (whole n) = true ↔ m = n :=
  Ieee.eq_finite.trans Rat.intCast_inj

/-- Reals are compared as numbers. -/
@[simp] theorem equal_real {x y : Ieee} : (real x).equal (real y) = x.eq y :=
  rfl

/-- Lines are equal if they are the same. -/
@[simp] theorem equal_line {m n : Nat} : (line m).equal (line n) = true ↔ m = n :=
  Ieee.eq_finite.trans Rat.natCast_inj

/-- Flags are equal if they are the same. -/
@[simp] theorem equal_flag {a b : Bool} : (flag a).equal (flag b) = true ↔ a = b := by
  have hnumber : (flag a).equal (flag b) = true ↔ (if a then (1 : Rat) else 0) = if b then 1 else 0 :=
    Ieee.eq_finite
  rw [hnumber]
  cases a <;> cases b <;> simp

/-- Ranges are equal if their bounds are the same numbers. -/
@[simp] theorem equal_range {a b c d : Bound} :
    (range a b).equal (range c d) = (a.eq c && b.eq d) :=
  rfl

/-- Lists are compared item by item. -/
@[simp] theorem equal_list {as bs : List Dump} : (list as).equal (list bs) = equalItems as bs :=
  rfl

/-- Two lists without items are equal. -/
@[simp] theorem equalItems_nil : equalItems [] [] = true :=
  rfl

/-- The first items are compared, and then the others. -/
@[simp] theorem equalItems_cons {d e : Dump} {ds es : List Dump} :
    equalItems (d :: ds) (e :: es) = (d.equal e && equalItems ds es) :=
  rfl

/-- A list without items is not equal to one with some. -/
@[simp] theorem equalItems_nil_cons {e : Dump} {es : List Dump} : equalItems [] (e :: es) = false :=
  rfl

/-- A list with items is not equal to one without any. -/
@[simp] theorem equalItems_cons_nil {d : Dump} {ds : List Dump} : equalItems (d :: ds) [] = false :=
  rfl

/-- Records are compared by their fields, of which there must be as many. -/
@[simp] theorem equal_record :
    (record fs).equal (record gs) = (fs.length == gs.length && equalFields fs gs) :=
  rfl

/-- No fields have all of their equals. -/
@[simp] theorem equalFields_nil : equalFields [] gs = true :=
  rfl

/-- A field has its equal if the other record has one under its name. -/
theorem equalFields_cons_any {f : String × Dump} :
    equalFields (f :: fs) gs = ((gs.lookup f.1).any f.2.equal && equalFields fs gs) :=
  rfl

/-! ## Records

Two records are equal if each field of one has an equal of its name in the
other, and there are as many. Where no name comes twice, this goes for both of
them.
-/

/-- **Every field has its equal**: a dump under the same name that is equal. -/
theorem equalFields_iff : equalFields fs gs = true ↔
    ∀ f ∈ fs, ∃ e, gs.lookup f.1 = some e ∧ f.2.equal e = true := by
  induction fs with
  | nil => simp
  | cons f fs ih =>
    rw [equalFields_cons_any, Bool.and_eq_true, ih, List.forall_mem_cons]
    cases gs.lookup f.1 <;> simp

/-- Nothing is found under a name that no field has. -/
theorem lookup_eq_none_iff : fs.lookup name = none ↔ name ∉ fs.map Prod.fst := by
  rw [List.lookup_eq_none_iff, List.mem_map]
  grind

/-- What is found under a name is a field of that name. -/
theorem mem_of_lookup {d : Dump} (h : fs.lookup name = some d) : (name, d) ∈ fs := by
  obtain ⟨before, after, rfl, -⟩ := List.lookup_eq_some_iff.1 h
  exact List.mem_append_right _ List.mem_cons_self

/-- Records that are equal have the same names. -/
theorem equal_names (hlength : fs.length = gs.length) (h : equalFields fs gs = true)
    (hfs : (fs.map Prod.fst).Nodup) : name ∈ fs.map Prod.fst ↔ name ∈ gs.map Prod.fst := by
  have hsubset : fs.map Prod.fst ⊆ gs.map Prod.fst := by
    intro name hname
    obtain ⟨f, hf, rfl⟩ := List.mem_map.1 hname
    obtain ⟨e, he, -⟩ := equalFields_iff.1 h f hf
    exact List.mem_map.2 ⟨_, mem_of_lookup he, rfl⟩
  -- no name is there twice, so the names of one record fill those of the other
  have hperm := (List.subperm_of_subset hfs hsubset).perm_of_length_le (by simp [hlength])
  exact hperm.mem_iff

/-- What one of two equal dumps has under a name, the other has an equal of. -/
theorem exists_get? {d e part : Dump} (h : d.equal e = true) (hpart : d.get? name = some part) :
    ∃ part', e.get? name = some part' ∧ part.equal part' = true := by
  cases d with
  | record fs =>
    cases e with
    | record gs =>
      rw [equal_record, Bool.and_eq_true] at h
      exact equalFields_iff.1 h.2 _ (mem_of_lookup hpart)
    | _ => exact absurd h Bool.false_ne_true
  | _ => exact absurd hpart (Option.some_ne_none _).symm

/-- What one of two equal dumps has not, the other has not either, if no name is
in the first one twice. -/
theorem get?_eq_none {d e : Dump} (h : d.equal e = true) (hd : d.Keyed)
    (hnone : d.get? name = none) : e.get? name = none := by
  cases e with
  | record gs =>
    cases d with
    | record fs =>
      rw [equal_record, Bool.and_eq_true, beq_iff_eq] at h
      exact lookup_eq_none_iff.2 ((equal_names h.1 h.2 hd).not.1 (lookup_eq_none_iff.1 hnone))
    | _ => exact absurd h Bool.false_ne_true
  | _ => rfl

/-- **Equal dumps hold equal dumps under each name.** -/
theorem equal_get? {d e : Dump} (h : d.equal e = true) (hd : d.Keyed) (name : String) :
    sameOption equal (d.get? name) (e.get? name) = true := by
  cases hpart : d.get? name with
  | some part =>
    obtain ⟨part', hpart', hequal⟩ := exists_get? h hpart
    rw [hpart']
    exact hequal
  | none =>
    rw [get?_eq_none h hd hpart]
    rfl

/-- Fields in front that others do not need. -/
theorem equalFields_skip {e : Dump} (hname : ∀ f ∈ fs, f.1 ≠ name) :
    equalFields fs ((name, e) :: gs) = equalFields fs gs := by
  rw [Bool.eq_iff_iff, equalFields_iff, equalFields_iff]
  refine forall₂_congr fun f hf => ?_
  rw [List.lookup_cons, beq_false_of_ne (hname f hf)]

/-- Fields of one name in front. -/
@[simp] theorem equalFields_cons {d e : Dump} (hname : ∀ f ∈ fs, f.1 ≠ name) :
    equalFields ((name, d) :: fs) ((name, e) :: gs) = (d.equal e && equalFields fs gs) := by
  rw [equalFields_cons_any, List.lookup_cons_self, equalFields_skip hname, Option.any_some]

/-- Dumps of nodes that are equal have the kind, the line and the other fields
in common. -/
theorem equal_node {t u : String} {k l : Nat}
    (hnames : ∀ f ∈ fs, f.1 ≠ "type" ∧ f.1 ≠ "line") :
    (node t k fs).equal (node u l gs) = true ↔
      t = u ∧ k = l ∧ fs.length = gs.length ∧ equalFields fs gs = true := by
  have hline : equalFields (("line", .line k) :: fs) (("line", .line l) :: gs) =
      ((line k).equal (line l) && equalFields fs gs) :=
    equalFields_cons fun f hf => (hnames f hf).2
  have htype : ∀ f ∈ ("line", Dump.line k) :: fs, f.1 ≠ "type" :=
    List.forall_mem_cons.2 ⟨by simp, fun f hf => (hnames f hf).1⟩
  rw [node, node, equal_record, equalFields_cons htype, hline]
  simp [and_left_comm]

end Dump
end Shank
