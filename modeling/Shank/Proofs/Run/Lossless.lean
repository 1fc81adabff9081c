/-
# Values move without loss

A value moves by way of its text. Integers of 64 bits, reals of single
precision, strings, characters and booleans come out as they were, white space
included, in every variable of their kind that may hold them
(`ScalarType.read_text`).

| what moves a value | what comes of it |
| --- | --- |
| an assignment | the scalar at the target (`Run.assign_apply_of_read`) |
| passing by value | a new variable with an equal value, or an error (`Run.bindParameter_exact`) |
| copying | an equal value (`Store.same_copyAt`) |
-/

import Shank.Proofs.Numeral.Shortest
import Shank.Proofs.Run.Assignment
import Shank.Proofs.Run.Counting
import Shank.Proofs.Run.Entering

namespace Shank

/-! ## Scalars and their texts

What a variable of a kind can hold is read back from its text as it was. For
reals this is what the fewest digits are for.
-/

/-- Scalars that are what a variable of their kind can hold: integers of 64 bits
and reals of single precision, and all others. -/
def Scalar.Exact : Scalar → Prop
  | integer n => minInteger ≤ n ∧ n ≤ maxInteger
  | real x => x.IsSingle
  | _ => True

namespace Ieee

/-- There is no white space in the text of a real. -/
theorem stripped_singleText {x : Ieee} (hx : x.IsSingle) : Text.stripped x.singleText = x.singleText := by
  cases x with
  | nan => exact absurd rfl hx.number
  | infinity negative => cases negative <;> decide
  | negativeZero => decide
  | finite q =>
    by_cases hq : q = 0
    · subst hq
      decide
    · obtain ⟨d, h⟩ := exists_isShortest hx hq
      obtain ⟨w, htext, -⟩ := h.exists_written hq
      rw [← htext, w.stripped_text]

end Ieee

namespace Scalar

variable {v w : Scalar}

/-- **A scalar is read back from its text.** -/
theorem ofText_text (hv : v.Exact) : ofText v.kind v.text = .ok v := by
  cases v with
  | integer n => exact ofText_integerText (isWritableInteger_of_le hv.1 hv.2)
  | real x =>
    obtain ⟨y, hy, hx⟩ := Option.map_eq_some_iff.1 (Ieee.exists_isRendered hv).2
    unfold ofText
    dsimp only [kind, text]
    rw [Ieee.stripped_singleText hv, hy]
    dsimp only
    rw [hx]
  | string s => rfl
  | character c =>
    unfold ofText
    dsimp only [kind, text]
    rw [Char.toString_eq_singleton, String.toList_singleton]
  | boolean b => cases b <;> decide +kernel

/-- A scalar that moves without loss is the same as itself, since it is not a
NaN. -/
theorem Exact.same_self (hv : v.Exact) : v.same v = true := by
  cases v with
  | real x => exact (Ieee.eq_self_iff x).2 hv.number
  | integer | string | character | boolean => exact beq_self_eq_true _

end Scalar

namespace ScalarType

variable {type : ScalarType} {v w : Scalar}

/-- What a type may hold passes its check unchanged. -/
theorem check_of_holds (h : type.Holds v) : type.check v = .ok v := by
  cases type <;> cases v <;> first | exact h.elim | skip
  case integer.integer range n =>
    obtain ⟨hlow, hhigh, hrange⟩ := h
    have hbits : ¬(n < Scalar.minInteger ∨ Scalar.maxInteger < n) := by omega
    cases range with
    | none => exact if_neg hbits
    | some r => exact (if_neg hbits).trans (if_pos (by simpa [Interval.contains] using hrange r rfl))
  case real.real range x =>
    cases range with
    | none => rfl
    | some r => exact if_pos (by simpa [RealInterval.contains] using (h r rfl).2)
  case string.string lengths s =>
    cases lengths with
    | none => rfl
    | some r => exact if_pos (by simpa [Interval.contains] using h r rfl)
  all_goals rfl

/-- **A text is read as the scalar that it is the text of**, if the variable may
hold that. -/
theorem read_text (hv : v.Exact) (hkind : type.kind = v.kind) :
    type.read v.text = .ok w ↔ type.Holds v ∧ w = v := by
  have hread : type.read v.text = type.check v := by
    unfold read
    rw [hkind, Scalar.ofText_text hv]
    rfl
  rw [hread]
  constructor
  · intro h
    obtain rfl := check_eq h
    exact ⟨holds_of_check hkind.symm h, rfl⟩
  · rintro ⟨h, rfl⟩
    exact check_of_holds h

end ScalarType

/-! ## Copies

An array is copied cell by cell into a new one, and compared item by item.
-/

/-- An operand all of whose scalars are `Scalar.Exact`. -/
def Operand.Exact (s : Store) : Operand → Prop
  | .scalar v => v.Exact
  | .array i => (s.cell i).type.tag = .array ∧ ∀ v ∈ s.items i, v.Exact

namespace Store

variable {s : Store} {q : Place} {i : Nat}

/-- A copy of an array is equal to it. -/
theorem same_add_cell (hi : (Operand.array i).Exact s) :
    (s.add (s.cell i)).1.get ⟨s.cells.size, none⟩ = .array s.cells.size ∧
      (s.add (s.cell i)).1.same (.array i) (.array s.cells.size) = true := by
  obtain ⟨htag, hitems⟩ := hi
  have hold : (s.add (s.cell i)).1.items i = s.items i := by
    rw [items, cell_add_of_lt (lt_size_of_tag htag), items]
  have hnew : (s.add (s.cell i)).1.items s.cells.size = s.items i := by
    rw [items, cell_add_self, items]
  refine ⟨?_, ?_⟩
  · simp only [get, cell_add_self]
    cases hc : s.cell i with
    | scalar type v =>
      rw [hc] at htag
      cases htag
    | array bounds element items => rfl
  -- every item is equal to itself, as it moves without loss
  · have hpairs : ∀ p ∈ (s.items i).toList.zip (s.items i).toList, p.1.same p.2 = true := by
      have hzip : (s.items i).toList.zip (s.items i).toList = (s.items i).toList.map fun v => (v, v) := by
        simpa using List.zip_map' (f := id) (g := id) (l := (s.items i).toList)
      intro p hp
      rw [hzip] at hp
      obtain ⟨v, hv, rfl⟩ := List.mem_map.1 hp
      exact (hitems v (Array.mem_def.2 hv)).same_self
    simp only [same, hold, hnew, beq_self_eq_true, Bool.true_and, List.all_eq_true.2 hpairs,
      Bool.or_true]

/-- **A copy is equal to what was copied.** -/
theorem same_copyAt (hq : (s.get q).Exact s) :
    (s.add (s.copyAt q)).1.same (s.get q) ((s.add (s.copyAt q)).1.get (s.add (s.copyAt q)).2) = true := by
  change (s.add (s.copyAt q)).1.same (s.get q) ((s.add (s.copyAt q)).1.get ⟨s.cells.size, none⟩) = true
  cases hc : s.cell q.cell with
  | scalar type v =>
    have hget : s.get q = .scalar v := by simp only [get, hc]
    rw [hget] at hq ⊢
    have hcopy : s.copyAt q = .scalar type v := by simp only [copyAt, hc]
    simp only [get, cell_add_self, hcopy]
    exact hq.same_self
  | array bounds element items =>
    -- an item is copied as a variable of its own, a whole array as an array
    cases hslot : q.slot with
    | some k =>
      have hget : s.get q = .scalar (items.getD k (.initial element)) := by simp only [get, hc, hslot]
      rw [hget] at hq ⊢
      have hcopy : s.copyAt q = .plain (items.getD k (.initial element)) := by
        simp only [copyAt, hc, hslot]
      simp only [get, cell_add_self, hcopy, Cell.plain]
      exact hq.same_self
    | none =>
      have hget : s.get q = .array q.cell := by simp only [get, hc, hslot]
      have hcopy : s.copyAt q = s.cell q.cell := by simp only [copyAt, hc, hslot]
      rw [hget] at hq ⊢
      rw [hcopy, (same_add_cell hq).1]
      exact (same_add_cell hq).2

end Store

/-! ## Assignments and parameters

Each of them hands over the text of a value. What is read from it is what is
stored.
-/

namespace Run

variable {f f' : Frame} {m m' : Machine}

/-- An assignment stores what the text of its value is read as. -/
theorem assign_apply_of_read {t : Target} {e : Expr} {q : Place} {x : Operand} {type : ScalarType}
    {v : Scalar} (hconstant : f.isConstant t.name = false) (hq : t.locate m.store f = .ok q)
    (hx : e.evaluate m.store f = .ok x) (htype : m.store.typeAt? q = some type)
    (hread : type.read (m.store.text x) = .ok v) (hsteps : 0 < m.steps) :
    ∃ steps, assign f t e m = .ok () { m with store := m.store.put q v, steps } := by
  have htakes : t.Takes m.store f e q v := ⟨hconstant, hq, x, type, hx, htype, hread⟩
  obtain ⟨m', hm'⟩ := assign_of_takes htakes hsteps
  obtain ⟨q', v', htakes', steps, rfl⟩ := assign_ok hm'
  obtain ⟨rfl, rfl⟩ := htakes.unique htakes'
  exact ⟨steps, hm'⟩

/-- With a step left, a new cell is added behind the others, and its place is
the whole of it. -/
theorem allocate_apply (c : Cell) {steps : Nat} (h : m.steps = steps + 1) :
    allocate c m = .ok ⟨m.store.cells.size, none⟩ { m with store := (m.store.add c).1, steps } := by
  have htick : tick m = .ok () { m with steps } := by
    simp only [tick, h]
  rw [allocate, bind_eq htick, modifyGet_apply]
  rfl

/-- Passing by value is to copy the argument, if it is of the right kind. -/
theorem bindParameter_of_value (function : String) {p : Variable} {a : Actual} (hvar : p.isVar = false)
    (htag : Store.tag (a.operand m.store) = p.type.tag) :
    bindParameter function f p a m =
      (copyArgument p.type (a.operand m.store) >>= fun q => pure (f.bind p.name q)) m := by
  unfold bindParameter
  rw [bind_eq (x := store) rfl]
  rw [if_neg (not_not.2 htag), hvar]
  rfl

/-- A scalar is passed if a variable of its type can be made and may hold it. -/
theorem bindParameter_apply_of_read (function : String) {p : Variable} {a : Actual} {type : ScalarType}
    {u v w : Scalar} (hvar : p.isVar = false) (htype : p.type = .scalar type)
    (ha : a.operand m.store = .scalar v) (hkind : v.kind = type.kind) (hinitial : type.initial = .ok u)
    (hread : type.read v.text = .ok w) (hsteps : 0 < m.steps) :
    ∃ steps, bindParameter function f p a m = .ok (f.bind p.name ⟨m.store.cells.size, none⟩)
      { m with store := (m.store.add (.scalar type w)).1, steps } := by
  obtain ⟨steps, hsteps⟩ := Nat.exists_eq_add_of_lt hsteps
  rw [Nat.zero_add] at hsteps
  refine ⟨steps, ?_⟩
  have htag : Store.tag (a.operand m.store) = p.type.tag := by
    rw [ha, htype, Store.tag, hkind, DeclaredType.tag]
  have hcopy : copyArgument (.scalar type) (.scalar v) m = .ok ⟨m.store.cells.size, none⟩
      { m with store := (m.store.add (.scalar type w)).1, steps } := by
    rw [copyArgument, hinitial, hread]
    exact allocate_apply _ hsteps
  rw [bindParameter_of_value function hvar htag, ha, htype, bind_eq hcopy]
  rfl

/-- **What is passed by value is equal to the argument.** -/
theorem bindParameter_exact {function : String} {p : Variable} {a : Actual} (hvar : p.isVar = false)
    (hexact : (a.operand m.store).Exact m.store) (h : bindParameter function f p a m = .ok f' m') :
    f' = f.bind p.name ⟨m.store.cells.size, none⟩ ∧
      m'.store.same (a.operand m.store) (m'.store.get ⟨m.store.cells.size, none⟩) = true := by
  have htag : Store.tag (a.operand m.store) = p.type.tag := by
    obtain ⟨-, -, htag, -⟩ := bindParameter_ok h
    exact htag
  rw [bindParameter_of_value function hvar htag] at h
  obtain ⟨q, m₁, hcopy, h⟩ := bind_ok h
  cases h
  generalize a.operand m.store = o at htag hexact hcopy ⊢
  generalize p.type = type at htag hcopy
  -- an array is copied as it is, a scalar by way of its text
  unfold copyArgument at hcopy
  split at hcopy
  case h_1 i =>
    obtain ⟨s, m₁, hs, halloc⟩ := bind_ok hcopy
    cases hs
    obtain ⟨rfl, hstore⟩ := allocate_ok halloc
    rw [hstore]
    exact ⟨rfl, (Store.same_add_cell hexact).1 ▸ (Store.same_add_cell hexact).2⟩
  case h_2 type v =>
    obtain ⟨_, m₁, h₁, hrest⟩ := bind_ok hcopy
    obtain ⟨w, m₂, h₂, halloc⟩ := bind_ok hrest
    obtain ⟨-, rfl⟩ := ofExcept_ok h₁
    obtain ⟨hw, rfl⟩ := ofCause_ok h₂
    obtain ⟨rfl, hstore⟩ := allocate_ok halloc
    obtain ⟨-, rfl⟩ := (ScalarType.read_text hexact (by simpa [Store.tag, DeclaredType.tag] using htag.symm)).1 hw
    refine ⟨rfl, ?_⟩
    rw [hstore]
    simp only [Store.get, Store.cell_add_self]
    exact Scalar.Exact.same_self hexact
  case h_3 hne =>
    -- an array is passed to an array only, so there is no third case
    cases o with
    | scalar v => cases htag
    | array i => exact (hne i rfl).elim

end Run

/-! ## What moves without loss

The two results, for reals with what is known of their texts, and for all
scalars.
-/

/-- **The text of a real is lossless.** Take a real of single precision that is
a number: finite, one of the zeros with its sign, or an infinity. Its text is
the usual rendering to some number of digits, at most nine, with `.0` where
nothing else shows that it is a real. It is read as the same real, rendered to
no fewer digits it is not, and so an assignment and a parameter passed by value
leave it as it is where there is no range. -/
theorem Ieee.real_moves_without_loss {x : Ieee} (hx : x.IsSingle) :
    (∃ d, x.IsRendered d) ∧ readSingle? x.singleText = some x ∧
    (∀ (f : Frame) (t : Target) (e : Expr) (m : Machine) (q : Place), f.isConstant t.name = false →
      t.locate m.store f = .ok q → m.store.typeAt? q = some (.real none) →
      e.evaluate m.store f = .ok (.scalar (.real x)) → 0 < m.steps →
      ∃ steps, Run.assign f t e m = .ok () { m with store := m.store.put q (.real x), steps }) ∧
    ∀ (function : String) (f : Frame) (p : Variable) (a : Actual) (m : Machine), p.isVar = false →
      p.type = .scalar (.real none) → a.operand m.store = .scalar (.real x) → 0 < m.steps →
      ∃ steps, Run.bindParameter function f p a m =
        .ok (f.bind p.name ⟨m.store.cells.size, none⟩)
          { m with store := (m.store.add (.scalar (.real none) (.real x))).1, steps } := by
  obtain ⟨hrendered, hback⟩ := exists_isRendered hx
  have hread : (ScalarType.real none).read x.singleText = .ok (.real x) :=
    (ScalarType.read_text (v := .real x) hx rfl).2 ⟨nofun, rfl⟩
  exact ⟨hrendered, hback,
    fun f t e m q hconstant hq htype he => Run.assign_apply_of_read hconstant hq he htype hread,
    fun function f p a m hvar htype ha =>
      Run.bindParameter_apply_of_read function hvar htype ha rfl rfl hread⟩

/-- The hypotheses of `Ieee.real_moves_without_loss` are satisfiable: for the
single nearest to a tenth, which is assigned to a variable and passed to a
parameter. -/
theorem Ieee.real_moves_without_loss_tenth :
    let x : Ieee := finite (13421773 / 134217728)
    let m : Machine :=
      { store := { cells := #[.scalar (.real none) (.real (finite 0))] }, steps := 1 }
    let f : Frame := { bindings := [("r", ⟨0, none⟩)] }
    let p : Variable := { line := 1, name := "p", type := .scalar (.real none), isVar := false }
    (∃ d, x.IsRendered d) ∧
      (∃ m', Run.assign f ⟨1, "r", none⟩ (.literal 1 (.real x)) m = .ok () m' ∧
        m'.store.get ⟨0, none⟩ = .scalar (.real x)) ∧
      ∃ f' m', Run.bindParameter "g" {} p (.value (.scalar (.real x))) m = .ok f' m' ∧
        m'.store.get ⟨1, none⟩ = .scalar (.real x) := by
  intro x m f p
  have hx : x.IsSingle := ⟨nofun, by decide +kernel⟩
  obtain ⟨hrendered, -, hassign, hbind⟩ := real_moves_without_loss hx
  obtain ⟨steps, hassigned⟩ :=
    hassign f ⟨1, "r", none⟩ (.literal 1 (.real x)) m ⟨0, none⟩ rfl rfl rfl rfl (by decide)
  obtain ⟨steps', hbound⟩ := hbind "g" {} p (.value (.scalar (.real x))) m rfl rfl rfl (by decide)
  exact ⟨hrendered, ⟨_, hassigned, rfl⟩, _, _, hbound, rfl⟩

/-- **No text of a value is lossy**, that of integers, strings, characters and
booleans least of all. A scalar that is what variables of its kind can hold is
read from its text by those variables of its kind whose range it is in, and by
no others, and comes out as it was. So what a parameter is bound to when such a
scalar is passed by value, or an array of them, is equal to the argument, if the
parameter is bound at all; it is if it may hold the argument and can be made,
and there is a step for it. And a copy is equal to what was copied. -/
theorem Scalar.moves_without_loss :
    (∀ (v : Scalar) (type : ScalarType), v.Exact → type.kind = v.kind →
      ∀ w, type.read v.text = .ok w ↔ type.Holds v ∧ w = v) ∧
    (∀ (function : String) (f f' : Frame) (p : Variable) (a : Actual) (m m' : Machine), p.isVar = false →
      (a.operand m.store).Exact m.store → Run.bindParameter function f p a m = .ok f' m' →
      ∃ q, f'.find? p.name = some q ∧ m'.store.same (a.operand m.store) (m'.store.get q) = true) ∧
    (∀ (function : String) (f : Frame) (p : Variable) (a : Actual) (m : Machine) (type : ScalarType)
      (u v : Scalar), p.isVar = false → p.type = .scalar type → a.operand m.store = .scalar v → v.Exact →
      type.Holds v → type.initial = .ok u → 0 < m.steps →
      ∃ f' m', Run.bindParameter function f p a m = .ok f' m') ∧
    ∀ (s : Store) (q : Place), (s.get q).Exact s →
      let t := s.add (s.copyAt q)
      t.1.same (s.get q) (t.1.get t.2) = true := by
  refine ⟨fun v type hv hkind w => ScalarType.read_text hv hkind,
    fun function f f' p a m m' hvar hexact h => ?_,
    fun function f p a m type u v hvar htype ha hv hholds hinitial hsteps => ?_,
    fun s q hq => Store.same_copyAt hq⟩
  · obtain ⟨rfl, hsame⟩ := Run.bindParameter_exact hvar hexact h
    exact ⟨_, by simp [Frame.find?_bind], hsame⟩
  · have hkind := ScalarType.kind_of_holds hholds
    obtain ⟨steps, h⟩ := Run.bindParameter_apply_of_read function hvar htype ha hkind hinitial
      ((ScalarType.read_text hv hkind.symm).2 ⟨hholds, rfl⟩) hsteps
    exact ⟨_, _, h⟩

/-- The hypotheses of `Scalar.moves_without_loss` are satisfiable: for a string
of white space, and for an array with the smallest integer in it, which is
passed and copied. -/
theorem Scalar.moves_without_loss_blank :
    let blank : Scalar := .string " \t\n"
    let items : Cell := .array ⟨1, 2⟩ .integer #[.integer minInteger, .integer 7]
    let m : Machine := { store := { cells := #[items] }, steps := 1 }
    let array : Variable := { line := 1, name := "a", type := .array ⟨1, 2⟩ .integer }
    let text : Variable := { line := 1, name := "s", type := .scalar (.string (some ⟨3, 9⟩)) }
    (ScalarType.string (some ⟨3, 9⟩)).read blank.text = .ok blank ∧
      (∃ f m', Run.bindParameter "g" {} array (.value (.array 0)) m = .ok f m' ∧
        m'.store.same (.array 0) (m'.store.get ⟨1, none⟩) = true) ∧
      (∃ f m', Run.bindParameter "g" {} text (.value (.scalar blank)) m = .ok f m') ∧
      (m.store.add items).1.same (.array 0) (.array 1) = true := by
  intro blank items m array text
  obtain ⟨hread, hbind, hbinds, hcopy⟩ := moves_without_loss
  have hitems : (Operand.array 0).Exact m.store :=
    ⟨rfl, fun v hv => by
      rcases List.mem_cons.1 (Array.mem_def.1 hv) with rfl | hv
      · exact ⟨by decide, by decide⟩
      · rw [List.mem_singleton.1 hv]
        exact ⟨by decide, by decide⟩⟩
  -- the blanks are three characters, as many as the range allows
  have hholds : (ScalarType.string (some ⟨3, 9⟩)).Holds blank := by
    rintro _ ⟨⟩
    decide
  refine ⟨(hread blank _ trivial rfl _).2 ⟨hholds, rfl⟩, ⟨_, _, rfl, ?_⟩,
    hbinds "g" {} text _ m _ _ blank rfl rfl rfl trivial hholds rfl (by decide),
    hcopy m.store ⟨0, none⟩ hitems⟩
  obtain ⟨q, hq, hsame⟩ := hbind "g" {} _ array (.value (.array 0)) m _ rfl hitems rfl
  cases hq
  exact hsame

end Shank
