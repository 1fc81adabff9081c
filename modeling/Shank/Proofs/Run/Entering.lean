/-
# Entering a function

A call binds the parameters of a function, then declares its locals. Up to there
the store only gains cells, and everything that was in it stays as it was
(`steady_enter` gives no place to write at).

The frame that comes of it is `Bound`: each of its names stands for a cell that
was added on the way, or for a place that was passed with `var`; and the last
declaration of a name is of the kind of what the name is bound to.

Parameters and locals are bound one after the other, and each binds one name
more to a frame that is bound (`Frame.Bound.snoc`). Both loops are inductions
with that as their step.
-/

import Shank.Proofs.Run.Steady

namespace Shank

open Machine

/-- Are the arguments of a call what they claim to be: is the cell of a whole
array an array? -/
def Actual.Genuine (s : Store) (args : List Actual) : Prop :=
  ∀ i, .value (.array i) ∈ args → (s.cell i).type.tag = .array

/-- What is known of a frame once the names of `decls` are bound, `base` being
the number of cells there were at the start. -/
structure Frame.Bound (f : Frame) (decls : List (String × DeclaredType)) (base : Nat)
    (args : List Actual) (s : Store) : Prop where
  inside : ∀ name q, f.find? name = some q →
    base ≤ q.cell ∧ q.cell < s.cells.size ∨ .reference q ∈ args
  typed : (∀ q, .reference q ∈ args → q.cell < base) → ∀ name type,
    decls.reverse.lookup name = some type →
      ∃ q, f.find? name = some q ∧ Store.tag (s.get q) = type.tag

/-- A store that has all the cells of another one, unchanged, and perhaps more. -/
structure Store.Widens (s t : Store) : Prop where
  size_le : s.cells.size ≤ t.cells.size
  cell_eq : ∀ i < s.cells.size, t.cell i = s.cell i

namespace Store.Widens

/-- A store widens itself. -/
theorem refl (s : Store) : s.Widens s :=
  ⟨le_rfl, fun _ _ => rfl⟩

/-- A store that is widened twice is widened. -/
theorem trans {s t u : Store} (h : s.Widens t) (h' : t.Widens u) : s.Widens u :=
  ⟨h.size_le.trans h'.size_le,
    fun i hi => (h'.cell_eq i (hi.trans_le h.size_le)).trans (h.cell_eq i hi)⟩

/-- A cell that is added widens the store. -/
theorem add (s : Store) (c : Cell) : s.Widens (s.add c).1 :=
  ⟨by simp, fun _ hi => cell_add_of_lt hi c⟩

/-- What a place stands for stays the same in a wider store, if its cell was
there. -/
theorem get_eq {s t : Store} (h : s.Widens t) {q : Place} (hq : q.cell < s.cells.size) :
    t.get q = s.get q := by
  simp only [Store.get, h.cell_eq _ hq]

end Store.Widens

namespace Frame.Bound

variable {f f' : Frame} {decls : List (String × DeclaredType)} {base : Nat} {args : List Actual}
  {s t : Store}

/-- The empty frame binds nothing, so it is bound for no declarations. -/
theorem empty (base : Nat) (args : List Actual) (s : Store) :
    Frame.Bound {} [] base args s :=
  ⟨fun _ _ h => (nomatch h), fun _ _ _ h => (nomatch h)⟩

/-- **One name more is bound**, to something new or to something that was
passed. What other names stand for is not changed by a wider store. -/
theorem snoc (h : f.Bound decls base args s) (hst : s.Widens t) (hbase : base ≤ s.cells.size)
    {name : String} {type : DeclaredType} {q : Place}
    (hf : ∀ n, f'.find? n = if n == name then some q else f.find? n)
    (hq : base ≤ q.cell ∧ q.cell < t.cells.size ∨ .reference q ∈ args)
    (htag : (∀ q, .reference q ∈ args → q.cell < base) → Store.tag (t.get q) = type.tag) :
    f'.Bound (decls ++ [(name, type)]) base args t := by
  refine ⟨fun n r hr => ?_, fun hin n type' hn => ?_⟩
  · rw [hf] at hr
    split at hr
    · cases hr
      exact hq
    · exact (h.inside n r hr).imp_left fun hb => ⟨hb.1, hb.2.trans_le hst.size_le⟩
  · rw [List.reverse_append, List.reverse_singleton, List.singleton_append, List.lookup_cons] at hn
    rw [hf]
    split at hn
    · cases hn
      exact ⟨q, by simp_all, htag hin⟩
    -- another name keeps its place, and what is there keeps its kind
    · obtain ⟨r, hr, hrtag⟩ := h.typed hin n type' hn
      have hlt : r.cell < s.cells.size :=
        (h.inside n r hr).elim And.right fun hr => (hin r hr).trans_le hbase
      exact ⟨r, by simp_all, by rw [hst.get_eq hlt, hrtag]⟩

end Frame.Bound

/-- What an added cell holds is of the kind of its type. -/
theorem Store.tag_get_add (s : Store) {c : Cell} (h : c.Fits ∨ c.type.tag = .array) :
    tag ((s.add c).1.get ⟨s.cells.size, none⟩) = c.type.tag := by
  simp only [get, cell_add_self]
  cases c with
  | scalar type v =>
    rcases h with h | h
    · simp [tag, Cell.type, DeclaredType.tag, ScalarType.kind_of_holds h]
    · cases h
  | array bounds element items => rfl

/-- Only the whole of an array cell stands for an array. -/
theorem Store.get_eq_array {s : Store} {q : Place} {i : Nat} (h : s.get q = .array i) :
    q = ⟨i, none⟩ ∧ (s.cell i).type.tag = .array := by
  obtain ⟨j, slot⟩ := q
  simp only [get] at h
  split at h
  case h_1 => cases h
  case h_2 => cases h
  case h_3 hc =>
    cases h
    exact ⟨rfl, by rw [hc]; rfl⟩

/-- Binding a name changes what that name stands for, and no other. -/
theorem Frame.find?_bind (f : Frame) (name : String) (q : Place) (n : String) :
    (f.bind name q).find? n = if n == name then some q else f.find? n := by
  simp only [find?, bind, List.lookup_cons]
  split <;> simp_all

/-- Binding a constant changes what its name stands for, and no other. -/
theorem Frame.find?_bindConstant (f : Frame) (name : String) (q : Place) (n : String) :
    (f.bindConstant name q).find? n = if n == name then some q else f.find? n :=
  f.find?_bind name q n

/-- A whole array that is passed is one, in whatever way it is passed. -/
theorem Actual.Genuine.operand {s : Store} {args : List Actual} (h : Genuine s args) {a : Actual}
    (ha : a ∈ args) {i : Nat} (hi : a.operand s = .array i) : (s.cell i).type.tag = .array := by
  cases a with
  | value v =>
    cases hi
    exact h i ha
  | reference q => exact (Store.get_eq_array hi).2

/-- Arguments that were genuine stay so as the store widens. -/
theorem Actual.Genuine.mono {s t : Store} {args : List Actual} (h : Genuine s args)
    (hst : s.Widens t) : Genuine t args := by
  intro i hi
  have hlt : i < s.cells.size := by
    by_contra hge
    have := h i hi
    rw [Store.cell_of_le (Nat.le_of_not_lt hge)] at this
    cases this
  rw [hst.cell_eq i hlt]
  exact h i hi

namespace Local

/-- The cell that a declaration adds. -/
def initial : Local → Except Halt Cell
  | constant c => Cell.plain <$> c.value.evaluate
  | var v => Cell.initial v.type

/-- Binds the name that is declared. -/
def bindIn (f : Frame) (q : Place) : Local → Frame
  | constant c => f.bindConstant c.name q
  | var v => f.bind v.name q

/-- A declaration binds its own name and leaves the others. -/
theorem find?_bindIn (f : Frame) (q : Place) (d : Local) (name : String) :
    (d.bindIn f q).find? name = if name == d.name then some q else f.find? name := by
  cases d with
  | constant c => exact f.find?_bindConstant c.name q name
  | var v => exact f.find?_bind v.name q name

end Local

namespace Run

variable {p : Program} {base : Nat} {given : Place → Prop} {m m' : Machine} {f f' : Frame}
  {decls : List (String × DeclaredType)} {args : List Actual}

/-! ## Parameters

A parameter with `var` is bound to the place that was passed, and any other one
to a copy. Either way the store keeps all that it had.
-/

/-- A parameter's own variable is a new cell: a copy of the array, or a scalar
that was read. -/
theorem copyArgument_ok {type : DeclaredType} {v : Operand} {q : Place}
    (h : copyArgument type v m = .ok q m') : ∃ c, q = ⟨m.store.cells.size, none⟩ ∧
      m'.store = (m.store.add c).1 ∧
        ((∃ i, v = .array i ∧ c = m.store.cell i) ∨ c.Fits ∧ c.type = type) := by
  -- the three ways to make the cell, by the type and the value
  unfold copyArgument at h
  split at h
  case h_1 i =>
    obtain ⟨s, m₁, hs, halloc⟩ := bind_ok h
    cases hs
    obtain ⟨hq, hstore⟩ := allocate_ok halloc
    exact ⟨_, hq, hstore, .inl ⟨i, rfl, rfl⟩⟩
  case h_2 type v =>
    obtain ⟨_, m₁, h₁, hrest⟩ := bind_ok h
    obtain ⟨w, m₂, h₂, halloc⟩ := bind_ok hrest
    obtain ⟨-, rfl⟩ := ofExcept_ok h₁
    obtain ⟨hw, rfl⟩ := ofCause_ok h₂
    obtain ⟨hq, hstore⟩ := allocate_ok halloc
    exact ⟨.scalar type w, hq, hstore, .inr ⟨ScalarType.holds_of_read hw, rfl⟩⟩
  case h_3 =>
    obtain ⟨c, m₁, h₁, halloc⟩ := bind_ok h
    obtain ⟨hc, rfl⟩ := ofExcept_ok h₁
    obtain ⟨hq, hstore⟩ := allocate_ok halloc
    exact ⟨c, hq, hstore, .inr (Cell.fits_of_initial hc)⟩

/-- Passing by value is steady if the program declares the type: it adds one
cell and stores nowhere else. -/
theorem steady_copyArgument {type : DeclaredType} (ht : p.Declares type) (v : Operand) :
    Steady p base given (copyArgument type v) := by
  unfold copyArgument
  split
  case h_1 i =>
    refine fun m hm => (steady_store m hm).bind fun d s m' h => ?_
    cases h
    exact steadyAt_copy (m := m.more d) hm i
  case h_2 type v =>
    exact (steady_ofExcept _).bind fun _ => Steady.ofCause_bind fun w hw =>
      steady_allocate (ScalarType.holds_of_read hw) ht
  case h_3 bounds element _ =>
    refine Steady.ofExcept_bind fun c hc => ?_
    obtain ⟨fits, type_eq⟩ := Cell.fits_of_initial hc
    exact steady_allocate fits (type_eq ▸ ht)

/-- **What binding a parameter does.** The name is bound to the place that was
passed, which leaves the machine alone, or to a copy of the value. Either is of
the kind that the parameter declares. -/
theorem bindParameter_ok {function : String} {v : Variable} {a : Actual}
    (h : bindParameter function f v a m = .ok f' m') : ∃ q, f' = f.bind v.name q ∧
      Store.tag (a.operand m.store) = v.type.tag ∧
        (a = .reference q ∧ m' = m ∨ copyArgument v.type (a.operand m.store) m = .ok q m') := by
  obtain ⟨s, m₁, hs, h⟩ := bind_ok h
  cases hs
  dsimp only at h
  split at h
  · cases h
  · have htag := not_not.1 ‹_›
    split at h
    · cases a with
      | reference q =>
        cases h
        exact ⟨q, rfl, htag, .inl ⟨rfl, rfl⟩⟩
      | value _ => cases h
    · obtain ⟨q, m₁, hq, hpure⟩ := bind_ok h
      cases hpure
      exact ⟨q, rfl, htag, .inr hq⟩

/-- Binding a parameter is steady. -/
theorem steady_bindParameter {function : String} {v : Variable} (hv : p.Declares v.type)
    (f : Frame) (a : Actual) : Steady p base given (bindParameter function f v a) := by
  refine steady_store.bind fun s => ?_
  dsimp only
  split
  · exact steady_fail _
  · split
    · cases a with
      | reference q => exact steady_pure _
      | value _ => exact steady_fail _
    · exact (steady_copyArgument hv _).bind fun _ => steady_pure _

/-- **Binding a parameter adds its name to those that are bound.** -/
theorem bound_bindParameter {function : String} {v : Variable} {a : Actual}
    (h : bindParameter function f v a m = .ok f' m') (hf : f.Bound decls base args m.store)
    (hbase : base ≤ m.store.cells.size) (ha : a ∈ args) (hargs : Actual.Genuine m.store args) :
    f'.Bound (decls ++ [(v.name, v.type)]) base args m'.store ∧ m.store.Widens m'.store := by
  obtain ⟨q, rfl, htag, ⟨rfl, rfl⟩ | hcopy⟩ := bindParameter_ok h
  · exact ⟨hf.snoc (.refl _) hbase (f.find?_bind v.name q) (.inr ha) fun _ => htag, .refl _⟩
  · obtain ⟨c, rfl, hstore, hc⟩ := copyArgument_ok hcopy
    have hw : m.store.Widens m'.store := hstore ▸ .add _ c
    have hlt : m.store.cells.size < m'.store.cells.size := by rw [hstore]; simp
    refine ⟨hf.snoc hw hbase (f.find?_bind _ _) (.inl ⟨hbase, hlt⟩) fun _ => ?_, hw⟩
    rw [hstore]
    rcases hc with ⟨i, hi, rfl⟩ | ⟨fits, type_eq⟩
    · rw [Store.tag_get_add _ (.inr (hargs.operand ha hi)), hargs.operand ha hi, ← htag, hi]
      rfl
    · rw [Store.tag_get_add _ (.inl fits), type_eq]

/-! ## Locals

A local declaration adds a cell with what its type starts with, or with the
value of a constant.
-/

/-- A literal within the range of its type is its own value, and fits a plain
cell. -/
theorem evaluate_literal {v w : Scalar} (h : v.evaluate = .ok w) :
    w = v ∧ (Cell.plain w).Fits := by
  unfold Scalar.evaluate at h
  split at h
  · rename_i hc
    cases h
    obtain rfl := ScalarType.check_eq hc
    exact ⟨rfl, ScalarType.holds_of_check (ScalarType.kind_ofKind _).symm hc⟩
  · cases h

/-- A local declaration binds its name to the cell that it adds. -/
theorem declareLocal_bindIn {d : Local} (h : declareLocal f d m = .ok f' m') :
    ∃ c, d.initial = .ok c ∧ f' = d.bindIn f ⟨m.store.cells.size, none⟩ ∧
      m'.store = (m.store.add c).1 := by
  cases d with
  | constant c =>
    obtain ⟨v, m₁, h₁, hrest⟩ := bind_ok h
    obtain ⟨q, m₂, h₂, hpure⟩ := bind_ok hrest
    cases hpure
    obtain ⟨hv, rfl⟩ := ofExcept_ok h₁
    obtain ⟨rfl, hstore⟩ := allocate_ok h₂
    exact ⟨.plain v, by rw [Local.initial, hv]; rfl, rfl, hstore⟩
  | var d =>
    obtain ⟨c, m₁, h₁, hrest⟩ := bind_ok h
    obtain ⟨q, m₂, h₂, hpure⟩ := bind_ok hrest
    cases hpure
    obtain ⟨hc, rfl⟩ := ofExcept_ok h₁
    obtain ⟨rfl, hstore⟩ := allocate_ok h₂
    exact ⟨c, hc, rfl, hstore⟩

/-- A local declaration binds its name to a new cell of its type. -/
theorem declareLocal_ok {d : Local} (h : declareLocal f d m = .ok f' m') : ∃ c,
    (∀ n, f'.find? n = if n == d.name then some ⟨m.store.cells.size, none⟩ else f.find? n) ∧
      m'.store = (m.store.add c).1 ∧ c.Fits ∧ c.type = d.type := by
  obtain ⟨c, hc, rfl, hstore⟩ := declareLocal_bindIn h
  refine ⟨c, d.find?_bindIn f _, hstore, ?_⟩
  cases d with
  | constant k =>
    obtain ⟨v, hv, rfl⟩ := Except.map_ok hc
    obtain ⟨rfl, fits⟩ := evaluate_literal hv
    exact ⟨fits, rfl⟩
  | var v => exact Cell.fits_of_initial hc

/-- Declaring a local is steady: it adds one cell, with the value it starts
with. -/
theorem steady_declareLocal {d : Local} (hd : p.Declares d.type) (f : Frame) :
    Steady p base given (declareLocal f d) := by
  cases d with
  | constant c =>
    refine Steady.ofExcept_bind fun v hv => ?_
    obtain ⟨rfl, fits⟩ := evaluate_literal hv
    exact (steady_allocate fits hd).bind fun _ => steady_pure _
  | var v =>
    refine Steady.ofExcept_bind fun c hc => ?_
    obtain ⟨fits, type_eq⟩ := Cell.fits_of_initial hc
    exact (steady_allocate fits (by rwa [type_eq])).bind fun _ => steady_pure _

/-- **Declaring a local adds its name to those that are bound.** -/
theorem bound_declareLocal {d : Local} (h : declareLocal f d m = .ok f' m')
    (hf : f.Bound decls base args m.store) (hbase : base ≤ m.store.cells.size) :
    f'.Bound (decls ++ [(d.name, d.type)]) base args m'.store ∧ m.store.Widens m'.store := by
  obtain ⟨c, hfind, hstore, fits, type_eq⟩ := declareLocal_ok h
  have hw : m.store.Widens m'.store := hstore ▸ .add _ c
  have hlt : m.store.cells.size < m'.store.cells.size := by rw [hstore]; simp
  refine ⟨hf.snoc hw hbase hfind (.inl ⟨hbase, hlt⟩) fun _ => ?_, hw⟩
  rw [hstore, Store.tag_get_add _ (.inl fits), type_eq]

/-! ## The whole frame

Parameters come first, then the locals, each binding one name more. A later
declaration of a name takes over from an earlier one.
-/

/-- Binding all parameters is steady. -/
theorem steady_bindParameters {function : String} {ps : List Variable}
    (hp : ∀ v ∈ ps, p.Declares v.type) (f : Frame) (as : List Actual) :
    Steady p base given (bindParameters function f ps as) := by
  induction ps generalizing f as with
  | nil => exact steady_pure f
  | cons v ps ih =>
    cases as with
    | nil => exact steady_pure f
    | cons a as =>
      exact (steady_bindParameter (hp v (List.mem_cons_self ..)) f a).bind fun f =>
        ih (fun w hw => hp w (List.mem_cons_of_mem _ hw)) f as

/-- Declaring all locals is steady. -/
theorem steady_declareLocals {ds : List Local} (hp : ∀ d ∈ ds, p.Declares d.type) (f : Frame) :
    Steady p base given (declareLocals f ds) := by
  induction ds generalizing f with
  | nil => exact steady_pure f
  | cons d ds ih =>
    exact (steady_declareLocal (hp d (List.mem_cons_self ..)) f).bind fun f =>
      ih (fun d hd => hp d (List.mem_cons_of_mem _ hd)) f

/-- **The frame is bound once the parameters are.** This is by induction on the
parameters; each binds its name and widens the store, which the bindings before
it survive. -/
theorem bound_bindParameters {function : String} {ps : List Variable} {as : List Actual}
    (h : bindParameters function f ps as m = .ok f' m') (hlen : as.length = ps.length)
    (hf : f.Bound decls base args m.store) (hbase : base ≤ m.store.cells.size)
    (has : ∀ a ∈ as, a ∈ args) (hargs : Actual.Genuine m.store args) :
    f'.Bound (decls ++ ps.map fun v => (v.name, v.type)) base args m'.store ∧
      m.store.Widens m'.store := by
  induction ps generalizing f decls as m with
  | nil =>
    cases h
    exact ⟨by simpa using hf, .refl _⟩
  | cons v ps ih =>
    cases as with
    | nil => cases hlen
    | cons a as =>
      obtain ⟨f₁, m₁, h₁, hrest⟩ := bind_ok h
      obtain ⟨hf₁, hw⟩ := bound_bindParameter h₁ hf hbase (has a (List.mem_cons_self ..)) hargs
      obtain ⟨hf', hw'⟩ := ih hrest (Nat.succ.inj hlen) hf₁ (hbase.trans hw.size_le)
        (fun b hb => has b (List.mem_cons_of_mem _ hb)) (hargs.mono hw)
      exact ⟨by simpa using hf', hw.trans hw'⟩

/-- **The frame stays bound as the locals are declared.** Each gets a cell of
its own. -/
theorem bound_declareLocals {ds : List Local} (h : declareLocals f ds m = .ok f' m')
    (hf : f.Bound decls base args m.store) (hbase : base ≤ m.store.cells.size) :
    f'.Bound (decls ++ ds.map fun d => (d.name, d.type)) base args m'.store ∧
      m.store.Widens m'.store := by
  induction ds generalizing f decls m with
  | nil =>
    cases h
    exact ⟨by simpa using hf, .refl _⟩
  | cons d ds ih =>
    obtain ⟨f₁, m₁, h₁, hrest⟩ := bind_ok h
    obtain ⟨hf₁, hw⟩ := bound_declareLocal h₁ hf hbase
    obtain ⟨hf', hw'⟩ := ih hrest hf₁ (hbase.trans hw.size_le)
    exact ⟨by simpa using hf', hw.trans hw'⟩

/-- **Entering a function only adds cells**, of types that the program declares. -/
theorem steady_enter {function : Function} (hf : function ∈ p.functions) (args : List Actual) :
    Steady p base given (enter function args) := by
  have hdecl : ∀ d ∈ function.declarations, p.Declares d.2 :=
    fun d hd => .inr ⟨function, hf, d, hd, rfl⟩
  unfold enter
  split
  · exact steady_fail _
  · refine (steady_bindParameters (fun v hv => ?_) {} args).bind fun f =>
      steady_declareLocals (fun d hd => ?_) f
    · exact hdecl (v.name, v.type) (List.mem_append_left _ (List.mem_map_of_mem hv))
    · exact hdecl (d.name, d.type) (List.mem_append_right _ (List.mem_map_of_mem hd))

/-- **The frame of a call binds what the function declares.** -/
theorem bound_enter {function : Function} (h : enter function args m = .ok f m')
    (hargs : Actual.Genuine m.store args) :
    f.Bound function.declarations m.store.cells.size args m'.store ∧ m.store.Widens m'.store := by
  unfold enter at h
  split at h
  · cases h
  · obtain ⟨f₁, m₁, h₁, hrest⟩ := bind_ok h
    obtain ⟨hf₁, hw⟩ := bound_bindParameters h₁ (not_not.1 ‹_›) (.empty _ args _) le_rfl
      (fun _ ha => ha) hargs
    obtain ⟨hf', hw'⟩ := bound_declareLocals hrest hf₁ hw.size_le
    exact ⟨hf', hw.trans hw'⟩

end Run
end Shank
