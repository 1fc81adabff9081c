/-
# Constants keep their values

A name that a function declares constant stands for one cell as long as the
function is active, and nothing is stored there. That is not for the cell's
sake, which is like any other. It takes two things:

| what | where it comes from |
| --- | --- |
| a frame does not grant the places of its constants | statements look a name up among the constants before they store there, or pass it on |
| the cell goes by no other name, in no frame | every local declaration adds a cell of its own, and what is passed with `var` was granted |

A name may be declared more than once, also as a parameter and as a variable.
One declaration as a constant makes it one, and it stands for what its last
declaration added (`Local.last?`).

A machine is `Sealed` when all this is so for all of its activations. Statements
keep it, given that the frame they run in is one of these; and a run starts on a
machine that has none.
-/

import Shank.Proofs.Run.Congruence
import Shank.Proofs.Run.Invariant

namespace Shank

/-! ## Locals

A name may be declared more than once. What it stands for is told by its last
declaration, and whether it is a constant by any of them.
-/

namespace Local

/-- The last declaration of a name. -/
def last? (ds : List Local) (name : String) : Option Local :=
  ds.reverse.find? fun d => d.name == name

/-- Is it the declaration of a constant of this name? -/
def declaresConstant (name : String) : Local → Bool
  | constant c => c.name == name
  | var _ => false

/-- One more declaration is the last one of its name, and of no other. -/
theorem last?_snoc (ds : List Local) (d : Local) (name : String) :
    last? (ds ++ [d]) name = if d.name == name then some d else last? ds name := by
  simp only [last?, List.reverse_append, List.reverse_singleton, List.singleton_append,
    List.find?_cons]
  split <;> simp_all

/-- A declaration makes its name a constant if it declares one. What is a
constant already remains one. -/
theorem isConstant_bindIn (f : Frame) (q : Place) (d : Local) (name : String) :
    (d.bindIn f q).isConstant name = (d.declaresConstant name || f.isConstant name) := by
  cases d with
  | constant c =>
    simp only [bindIn, Frame.bindConstant, Frame.isConstant, declaresConstant, List.contains_cons,
      BEq.comm]
  | var v => simp [bindIn, Frame.bind, Frame.isConstant, declaresConstant]

/-- A constant is declared under its own name. -/
theorem name_of_declaresConstant {d : Local} {name : String} (h : d.declaresConstant name = true) :
    d.name = name := by
  cases d with
  | constant c => exact beq_iff_eq.1 h
  | var v => cases h

end Local

/-! ## The constants of a new frame

The invariant of entering a function, kept by each declaration. A constant has a
cell of its own, which was added for its last declaration and which no other
name stands for.
-/

namespace Frame

/-- A name stands for a cell of its own: one from `base` on, that holds what the
last declaration of the name added, and that no other name of the frame stands
for. -/
structure Seals (f : Frame) (ds : List Local) (base : Nat) (s : Store) (name : String)
    (q : Place) : Prop where
  find : f.find? name = some q
  whole : q.slot = none
  base_le : base ≤ q.cell
  holds : ∃ d, Local.last? ds name = some d ∧ d.initial = .ok (s.cell q.cell)
  alone : ∀ n g, n ≠ name → f.find? n = some g → g.cell ≠ q.cell

/-- What is known of a frame once the locals `ds` are declared. `base` is the
number of cells there were at the start, and `args` are the arguments. -/
structure Declares (f : Frame) (ds : List Local) (base : Nat) (args : List Actual)
    (s : Store) : Prop where
  inside : ∀ name q, f.find? name = some q →
    base ≤ q.cell ∧ q.cell < s.cells.size ∨ .reference q ∈ args
  isConstant_iff : ∀ name, f.isConstant name = true ↔ ∃ d ∈ ds, d.declaresConstant name = true
  sealed : ∀ name, f.isConstant name = true → ∃ q, f.Seals ds base s name q

variable {f : Frame} {ds : List Local} {base : Nat} {args : List Actual} {s t : Store} {q : Place}

/-- Before anything is declared, the empty frame has neither names nor
constants. -/
theorem declares_nil (base : Nat) (args : List Actual) (s : Store) :
    Declares {} [] base args s :=
  ⟨fun _ _ h => (nomatch h), by simp [isConstant], fun _ h => (nomatch h)⟩

/-- What a frame binds is in the store: it was added, or passed from there. -/
theorem Declares.lt_size (h : f.Declares ds base args s) (hbase : base ≤ s.cells.size)
    (hargs : ∀ q, .reference q ∈ args → q.cell < base) {name : String}
    (hq : f.find? name = some q) : q.cell < s.cells.size :=
  (h.inside name q hq).elim And.right fun hr => (hargs q hr).trans_le hbase

/-- A parameter is bound. There are no constants yet. -/
theorem Declares.bind (h : f.Declares [] base args s) (hst : s.Widens t) (name : String)
    (hq : base ≤ q.cell ∧ q.cell < t.cells.size ∨ .reference q ∈ args) :
    (f.bind name q).Declares [] base args t := by
  have hnone (n : String) : (f.bind name q).isConstant n ≠ true := by
    intro hn
    obtain ⟨_, hd, -⟩ := (h.isConstant_iff n).1 hn
    cases hd
  refine ⟨fun n r hr => ?_, fun n => ⟨fun hn => absurd hn (hnone n), by simp⟩,
    fun n hn => absurd hn (hnone n)⟩
  rw [find?_bind] at hr
  split at hr
  · cases hr
    exact hq
  · exact (h.inside n r hr).imp_left fun hr => ⟨hr.1, hr.2.trans_le hst.size_le⟩

/-- The name that a declaration binds stands for the cell that it adds. -/
theorem seals_bindIn {d : Local} {c : Cell} (hc : d.initial = .ok c) (hbase : base ≤ s.cells.size)
    (hlt : ∀ n g, f.find? n = some g → g.cell < s.cells.size) :
    (d.bindIn f ⟨s.cells.size, none⟩).Seals (ds ++ [d]) base (s.add c).1 d.name
      ⟨s.cells.size, none⟩ where
  find := by simp [Local.find?_bindIn]
  whole := rfl
  base_le := hbase
  holds := ⟨d, by simp [Local.last?_snoc], by rw [Store.cell_add_self, hc]⟩
  alone n g hn hg := by
    have hn' : (n == d.name) = false := by simpa using hn
    rw [Local.find?_bindIn, hn'] at hg
    exact (hlt n g hg).ne

/-- Another name keeps its cell to itself. -/
theorem Seals.bindIn {name : String} (h : f.Seals ds base s name q) (hq : q.cell < s.cells.size)
    {d : Local} (hd : d.name ≠ name) (c : Cell) :
    (d.bindIn f ⟨s.cells.size, none⟩).Seals (ds ++ [d]) base (s.add c).1 name q where
  find := by
    have hname : (name == d.name) = false := by simpa using hd.symm
    rw [Local.find?_bindIn, hname]
    exact h.find
  whole := h.whole
  base_le := h.base_le
  holds := by
    have hname : (d.name == name) = false := by simpa using hd
    rw [Local.last?_snoc, hname, Store.cell_add_of_lt hq]
    exact h.holds
  alone n g hn hg := by
    rw [Local.find?_bindIn] at hg
    split at hg
    · cases hg
      exact hq.ne'
    · exact h.alone n g hn hg

/-- **One declaration more.** The new cell goes by no other name, and another
constant keeps its own; a name that is declared again leaves its old cell for
the new one. -/
theorem Declares.snoc (h : f.Declares ds base args s) (hbase : base ≤ s.cells.size)
    (hargs : ∀ q, .reference q ∈ args → q.cell < base) {d : Local} {c : Cell}
    (hc : d.initial = .ok c) :
    (d.bindIn f ⟨s.cells.size, none⟩).Declares (ds ++ [d]) base args (s.add c).1 := by
  refine ⟨fun name q hq => ?_, fun name => ?_, fun name hname => ?_⟩
  · rw [Local.find?_bindIn] at hq
    split at hq
    · cases hq
      exact .inl ⟨hbase, by simp⟩
    · exact (h.inside name q hq).imp_left fun hq => ⟨hq.1, by rw [Store.size_add]; omega⟩
  · rw [Local.isConstant_bindIn, Bool.or_eq_true, h.isConstant_iff]
    simp [or_and_right, exists_or, or_comm]
  -- the name that is declared here, or one that was declared before
  · by_cases hd : d.name = name
    · subst hd
      exact ⟨_, seals_bindIn hc hbase fun n g hg => h.lt_size hbase hargs hg⟩
    · have hconstant : f.isConstant name = true := by
        rw [Local.isConstant_bindIn, Bool.or_eq_true] at hname
        exact hname.resolve_left fun hdeclares => hd (Local.name_of_declaresConstant hdeclares)
      obtain ⟨q, hq⟩ := h.sealed name hconstant
      exact ⟨q, hq.bindIn (h.lt_size hbase hargs hq.find) hd c⟩

end Frame

namespace Run

variable {m m' : Machine} {f f' : Frame} {args : List Actual} {base : Nat}

/-- Binding parameters declares no constants. -/
theorem declares_bindParameters {function : String} {ps : List Variable} {as : List Actual}
    (h : bindParameters function f ps as m = .ok f' m') (has : ∀ a ∈ as, a ∈ args)
    (hbase : base ≤ m.store.cells.size) (hf : f.Declares [] base args m.store) :
    f'.Declares [] base args m'.store ∧ m.store.Widens m'.store := by
  induction ps generalizing f as m with
  | nil =>
    cases h
    exact ⟨hf, .refl _⟩
  | cons v ps ih =>
    cases as with
    | nil =>
      cases h
      exact ⟨hf, .refl _⟩
    | cons a as =>
      obtain ⟨f₁, m₁, h₁, hrest⟩ := bind_ok h
      obtain ⟨q, rfl, -, hq⟩ := bindParameter_ok h₁
      obtain ⟨hw, hinside⟩ : m.store.Widens m₁.store ∧
          (base ≤ q.cell ∧ q.cell < m₁.store.cells.size ∨ .reference q ∈ args) := by
        -- what was passed with `var`, or a copy of it
        rcases hq with ⟨rfl, rfl⟩ | hcopy
        · exact ⟨.refl _, .inr (has _ (List.mem_cons_self ..))⟩
        · obtain ⟨c, rfl, hstore, -⟩ := copyArgument_ok hcopy
          rw [hstore]
          exact ⟨.add _ c, .inl ⟨hbase, by simp⟩⟩
      obtain ⟨hf', hw'⟩ := ih hrest (fun b hb => has b (List.mem_cons_of_mem _ hb))
        (hbase.trans hw.size_le) (hf.bind hw v.name hinside)
      exact ⟨hf', hw.trans hw'⟩

/-- **All locals are declared, and the constants among them are sealed.** This
is by induction on the locals that are left, each of which is one declaration
more (`Frame.Declares.snoc`). -/
theorem declares_declareLocals {ds es : List Local} (h : declareLocals f es m = .ok f' m')
    (hbase : base ≤ m.store.cells.size) (hargs : ∀ q, .reference q ∈ args → q.cell < base)
    (hf : f.Declares ds base args m.store) :
    f'.Declares (ds ++ es) base args m'.store ∧ m.store.Widens m'.store := by
  induction es generalizing f ds m with
  | nil =>
    cases h
    exact ⟨by rwa [List.append_nil], .refl _⟩
  | cons e es ih =>
    obtain ⟨f₁, m₁, h₁, hrest⟩ := bind_ok h
    obtain ⟨c, hc, rfl, hstore⟩ := declareLocal_bindIn h₁
    have hw : m.store.Widens m₁.store := hstore ▸ .add _ c
    have hf₁ := hf.snoc hbase hargs hc
    rw [← hstore] at hf₁
    obtain ⟨hf', hw'⟩ := ih hrest (hbase.trans hw.size_le) hf₁
    exact ⟨by rwa [List.append_cons], hw.trans hw'⟩

/-- **Entering a function gives each constant a cell to itself.** -/
theorem declares_enter {function : Function} (h : enter function args m = .ok f m')
    (hargs : ∀ q, .reference q ∈ args → q.cell < m.store.cells.size) :
    f.Declares function.locals m.store.cells.size args m'.store ∧ m.store.Widens m'.store := by
  unfold enter at h
  split at h
  · cases h
  · obtain ⟨f₁, m₁, h₁, hrest⟩ := bind_ok h
    obtain ⟨hf₁, hw⟩ := declares_bindParameters h₁ (fun _ ha => ha) le_rfl
      (Frame.declares_nil _ args _)
    obtain ⟨hf, hw'⟩ := declares_declareLocals hrest hw.size_le hargs hf₁
    exact ⟨hf, hw.trans hw'⟩

end Run

/-! ## Sealed machines

The invariant of the whole run. It speaks of all activations at once, as what
one of them grants could be the cell of a constant of another.
-/

/-- A name that an activation has for a constant stands for a cell that holds
what its last declaration added, and no activation grants a place in that cell. -/
structure Activation.Seals (as : List Activation) (a : Activation) (s : Store) (name : String)
    (q : Place) : Prop where
  find : a.frame.find? name = some q
  whole : q.slot = none
  holds : ∃ d, Local.last? a.function.locals name = some d ∧ d.initial = .ok (s.cell q.cell)
  alone : ∀ b ∈ as, ∀ g, b.frame.Grants g → g.cell ≠ q.cell

/-- A constant stays sealed when a function is entered: what the new frame
grants is new, or was granted to its caller. -/
theorem Activation.Seals.entered {as : List Activation} {a b : Activation} {s t : Store} {name : String}
    {q : Place} (h : a.Seals as s name q) (hw : s.Widens t) (hq : q.cell < s.cells.size)
    (hb : ∀ g, b.frame.Grants g → s.cells.size ≤ g.cell ∨ ∃ c ∈ as, c.frame.Grants g) :
    a.Seals (b :: as) t name q where
  find := h.find
  whole := h.whole
  holds := by
    rw [hw.cell_eq _ hq]
    exact h.holds
  alone c hc g hg := by
    rcases List.mem_cons.1 hc with rfl | hc
    · rcases hb g hg with hnew | ⟨d, hd, hlent⟩
      · exact (hq.trans_le hnew).ne'
      · exact h.alone d hd g hlent
    · exact h.alone c hc g hg

/-- A constant of the frame that is entered is sealed: what others grant was
there before. -/
theorem Frame.Seals.entered {as : List Activation} {function : Function} {f : Frame} {base : Nat}
    {s : Store} {name : String} {q : Place} (h : f.Seals function.locals base s name q)
    (hname : f.isConstant name = true)
    (has : ∀ b ∈ as, ∀ g, b.frame.Grants g → g.cell < base) :
    Activation.Seals (⟨function, f⟩ :: as) ⟨function, f⟩ s name q where
  find := h.find
  whole := h.whole
  holds := h.holds
  alone b hb g hg := by
    rcases List.mem_cons.1 hb with rfl | hb
    · obtain ⟨n, hn, hng⟩ := hg
      refine h.alone n g (fun e => ?_) hng
      rw [e, hname] at hn
      cases hn
    · exact ((has b hb g hg).trans_le h.base_le).ne

/-- The constants of all activations are sealed. -/
structure Machine.Sealed (m : Machine) : Prop where
  inside : ∀ a ∈ m.activations, ∀ name q, a.frame.find? name = some q →
    q.cell < m.store.cells.size
  isConstant_iff : ∀ a ∈ m.activations, ∀ name, a.frame.isConstant name = true ↔
    ∃ d ∈ a.function.locals, d.declaresConstant name = true
  seals : ∀ a ∈ m.activations, ∀ name, a.frame.isConstant name = true →
    ∃ q, a.Seals m.activations m.store name q

/-- A machine that has not entered a function yet has no constants to seal. -/
theorem Machine.sealed_of_nil {m : Machine} (h : m.activations = []) : m.Sealed := by
  constructor <;> simp [h]

/-- What stays in the cells of activations stays sealed. -/
theorem Machine.Sealed.mono {m m' : Machine} (h : m.Sealed) (hm : m'.activations = m.activations)
    (hsize : m.store.cells.size ≤ m'.store.cells.size)
    (hcell : ∀ a ∈ m.activations, ∀ name q, a.Seals m.activations m.store name q →
      m'.store.cell q.cell = m.store.cell q.cell) : m'.Sealed := by
  refine ⟨fun a ha name q hq => ?_, fun a ha => ?_, fun a ha name hname => ?_⟩ <;> rw [hm] at ha
  · exact (h.inside a ha name q hq).trans_le hsize
  · exact h.isConstant_iff a ha
  · obtain ⟨q, hq⟩ := h.seals a ha name hname
    refine ⟨q, hq.find, hq.whole, ?_, by rw [hm]; exact hq.alone⟩
    rw [hcell a ha name q hq]
    exact hq.holds

/-- A machine that has these activations, and is sealed. -/
structure Machine.Guarded (as : List Activation) (m : Machine) : Prop where
  sealed : m.Sealed
  subset : as ⊆ m.activations

/-- All places of a frame are granted by these activations. -/
def Frame.GrantedBy (f : Frame) (as : List Activation) : Prop :=
  ∀ g, f.Grants g → ∃ b ∈ as, b.frame.Grants g

namespace Run

variable {as : List Activation}

/-- **The pieces of statements keep a machine sealed** that has activations to
grant the places of their frame. -/
theorem congruence_guarded {f : Frame} (hf : f.GrantedBy as) :
    Congruence f fun _ x _ => Preserves (Machine.Guarded as) x := by
  refine congruence_preserves
    (fun m _ _ _ h => ⟨h.sealed.mono rfl le_rfl fun _ _ _ _ _ => rfl, h.subset⟩)
    (fun m _ _ h => ⟨h.sealed.mono rfl le_rfl fun _ _ _ _ _ => rfl, h.subset⟩)
    (fun m c h => ⟨h.sealed.mono rfl (by simp) fun a ha name q hq => ?_, h.subset⟩)
    fun m q v hq h => ⟨h.sealed.mono rfl (by simp) fun a ha name r hr => ?_, h.subset⟩
  · exact Store.cell_add_of_lt (h.sealed.inside a ha name q hq.find) c
  · -- an activation grants a place in the cell that is stored to
    obtain ⟨g, hg, hcell, -⟩ := hq
    obtain ⟨b, hb, hg⟩ := hf g hg
    exact Store.cell_put_of_ne (hcell ▸ hr.alone b (h.subset hb) g hg) v

/-- A run in a frame keeps every machine sealed that has activations to grant
the places of the frame. -/
def Guards (f : Frame) (α : Type) (x : Run α) : Prop :=
  ∀ as : { as : List Activation // f.GrantedBy as }, Preserves (Machine.Guarded as) x

/-- Pieces of statements guard the constants of whatever activations there are. -/
theorem congruence_guards (f : Frame) : Congruence f fun α x _ => Guards f α x :=
  .all fun as : { as : List Activation // f.GrantedBy as } => congruence_guarded as.2

/-- Entering a function adds no activation by itself. -/
theorem activations_enter {function : Function} {args : List Actual} {frame : Frame} {m m' : Machine}
    (h : enter function args m = .ok frame m') : m'.activations = m.activations := by
  have hafter := (congruence_activations m.activations {}).enter function args m rfl
  rwa [after, h] at hafter

/-- **A function that is entered is sealed**, and leaves the others so. What its
frame grants is new or was granted by a frame there was, and the constants of
those are in none of these places; its own constants are in new cells. -/
theorem sealed_entered {function : Function} {args : List Actual} {frame : Frame} {m m' : Machine}
    (h : enter function args m = .ok frame m') (hm : m.Sealed)
    (hargs : ∀ q, .reference q ∈ args → ∃ b ∈ m.activations, b.frame.Grants q) (depth : Nat) :
    (m'.entered ⟨function, frame⟩ depth).Sealed := by
  have hinside {b : Activation} {g : Place} (hb : b ∈ m.activations) (hg : b.frame.Grants g) :
      g.cell < m.store.cells.size := by
    obtain ⟨name, -, hname⟩ := hg
    exact hm.inside b hb name g hname
  have hstill : m'.activations = m.activations := activations_enter h
  obtain ⟨hframe, hw⟩ := declares_enter h fun q hq => by
    obtain ⟨b, hb, hg⟩ := hargs q hq
    exact hinside hb hg
  have hfind {name : String} {q : Place} (hq : frame.find? name = some q) :
      m.store.cells.size ≤ q.cell ∧ q.cell < m'.store.cells.size ∨
        ∃ b ∈ m.activations, b.frame.Grants q :=
    (hframe.inside name q hq).imp_right (hargs q)
  have hlist : (m'.entered ⟨function, frame⟩ depth).activations =
      ⟨function, frame⟩ :: m.activations :=
    congrArg _ hstill
  -- each time of the new activation first, and then of the others
  refine ⟨fun a ha name q hq => ?_, fun a ha name => ?_, fun a ha name hname => ?_⟩ <;>
    rw [hlist] at * <;> rcases List.mem_cons.1 ha with rfl | ha
  · rcases hfind hq with hnew | ⟨b, hb, hg⟩
    · exact hnew.2
    · exact (hinside hb hg).trans_le hw.size_le
  · exact (hm.inside a ha name q hq).trans_le hw.size_le
  · exact hframe.isConstant_iff name
  · exact hm.isConstant_iff a ha name
  · obtain ⟨q, hq⟩ := hframe.sealed name hname
    exact ⟨q, hq.entered hname fun b hb g hg => hinside hb hg⟩
  · obtain ⟨q, hq⟩ := hm.seals a ha name hname
    refine ⟨q, hq.entered hw (hm.inside a ha name q hq.find) fun g hg => ?_⟩
    obtain ⟨n, -, hng⟩ := hg
    exact (hfind hng).imp_left And.left

/-- **A call keeps a machine sealed**, if what is passed with `var` is granted
by activations that it has. -/
theorem guarded_activate {limit : Int} {body : List String → Frame → List Stmt → Run Unit}
    (hbody : ∀ stack f ss, Guards f Unit (body stack f ss)) (stack : List String)
    (function : Function) (args : List Actual)
    (hargs : ∀ q, .reference q ∈ args → ∃ b ∈ as, b.frame.Grants q) :
    Preserves (Machine.Guarded as) (activate limit body stack function args) := by
  intro m hm
  rw [after, activate_apply]
  split
  · exact hm
  · cases hr : enter function args m with
    | error h m' =>
      -- an empty frame will do, as nothing is stored before the function is entered
      have hempty : ({} : Frame).GrantedBy as := by
        rintro _ ⟨_, _, h⟩
        cases h
      have hentered := (congruence_guarded hempty).enter function args m hm
      rwa [after, hr] at hentered
    | ok frame m' =>
      -- what was passed is granted by some frame, so no constant is reached by it
      have hlent (q : Place) (hq : .reference q ∈ args) : ∃ b ∈ m.activations, b.frame.Grants q := by
        obtain ⟨b, hb, hg⟩ := hargs q hq
        exact ⟨b, hm.subset hb, hg⟩
      have hsealed := sealed_entered hr hm.sealed hlent (stack.length + 1)
      have hrun : Preserves (Machine.Guarded (⟨function, frame⟩ :: as))
          (inFrames (function.name :: stack) (body (function.name :: stack) frame function.body)) :=
        (hbody _ frame function.body
          ⟨_, fun g hg => ⟨_, List.mem_cons_self .., hg⟩⟩).rethrow
      have hsubset : ⟨function, frame⟩ :: as ⊆
          (m'.entered ⟨function, frame⟩ (stack.length + 1)).activations := by
        refine List.cons_subset_cons _ ?_
        rw [activations_enter hr]
        exact hm.subset
      have hleft := hrun _ ⟨hsealed, hsubset⟩
      exact ⟨hleft.sealed, fun _ hb => hleft.subset (List.mem_cons_of_mem _ hb)⟩

/-- **Statements keep a machine sealed.** -/
theorem guards_statement (setting : Setting) (room : Nat) (stack : List String) (f : Frame)
    (s : Stmt) : Guards f Unit (statement setting room stack f s) :=
  statement_of_pieces congruence_guards (fun _ _ _ h as => (h as).rethrow)
    (fun _ hbody stack _ _ function args hargs as =>
      guarded_activate hbody stack function args fun q hq => as.2 q (hargs q hq).grants)
    room stack f s

/-- **A run keeps a machine sealed.** -/
theorem sealed_entry (setting : Setting) (name : String) :
    Preserves (Machine.Guarded []) (entry setting name) := by
  unfold entry
  cases setting.program.find? name with
  | none => exact preserves_throw _
  | some f =>
    dsimp only
    rw [function_eq]
    refine (guarded_activate (fun stack g ss => ?_) [] f [] fun _ h => nomatch h).rethrow
    exact (congruence_guards g).block_self ss fun s _ as =>
      (guards_statement setting _ stack g s as).rethrow

/-! ## Attempts

Each of the three ways to store at what a name stands for looks it up among the
constants of the frame first. What else could go wrong before that is told as
well.
-/

/-- What is tagged as an integer is one. -/
theorem integer_of_tag {v : Operand} (h : Store.tag v = .scalar .integer) :
    ∃ a, v = .scalar (.integer a) := by
  cases v with
  | scalar v => cases v <;> cases h; exact ⟨_, rfl⟩
  | array i => cases h

/-- What is tagged as a real is one. -/
theorem real_of_tag {v : Operand} (h : Store.tag v = .scalar .real) :
    ∃ x, v = .scalar (.real x) := by
  cases v with
  | scalar v => cases v <;> cases h; exact ⟨_, rfl⟩
  | array i => cases h

/-- A run that stops, and leaves the machine as it was: for this cause, if it
gets so far. -/
def Refused (x : Run Unit) (m : Machine) (far : Prop) (c : Cause) : Prop :=
  ∃ h, x m = .error h m ∧ (far → h = .of c)

variable {f : Frame} {name : String} {m : Machine}

/-- Evaluating an argument leaves the machine alone, also when it fails. -/
theorem actual_keeps (f : Frame) (a : Argument) (m : Machine) :
    (∃ x, actual f a m = .ok x m) ∨ ∃ h, actual f a m = .error h m := by
  cases a with
  | value _ e =>
    rw [actual, bind_apply, evaluate_apply]
    cases e.evaluate m.store f with
    | ok v => exact .inl ⟨_, rfl⟩
    | error h => exact .inr ⟨h, rfl⟩
  | reference _ name _ =>
    rw [actual]
    split
    · exact .inr ⟨_, rfl⟩
    · rw [bind_apply]
      cases f.place name with
      | ok q => exact .inl ⟨_, rfl⟩
      | error h => exact .inr ⟨h, rfl⟩

/-- A constant among the arguments that are passed with `var` refuses the call.
If the arguments before it have values, that is what the fault tells; else
theirs comes first. -/
theorem actuals_constant (hc : f.isConstant name = true) (before after : List Argument)
    (line nameLine : Nat) : ∃ h,
    actuals f (before ++ .reference line name nameLine :: after) m = .error h m ∧
      ((∃ as, actuals f before m = .ok as m) → h = .of (.constantPassed name)) := by
  induction before with
  | nil =>
    refine ⟨.of (.constantPassed name), ?_, fun _ => rfl⟩
    rw [List.nil_append, actuals, actual, if_pos hc]
    rfl
  | cons a rest ih =>
    rw [List.cons_append, actuals, actuals]
    rcases actual_keeps f a m with ⟨x, hx⟩ | ⟨h, hx⟩
    · obtain ⟨h, hrest, hcause⟩ := ih
      refine ⟨h, by rw [bind_eq hx, bind_apply, hrest], ?_⟩
      rintro ⟨as, has⟩
      rw [bind_eq hx] at has
      obtain ⟨as', m', has', hpure⟩ := bind_ok has
      cases hpure
      exact hcause ⟨as', has'⟩
    · refine ⟨h, by rw [bind_apply, hx], ?_⟩
      rintro ⟨as, has⟩
      rw [bind_apply, hx] at has
      cases has

/-- A constant for the variable of a `for` loop refuses the loop. The bounds are
evaluated first, and if they are numbers of one kind, the constant is what the
fault tells. -/
theorem forLoop_constant (hc : f.isConstant name = true) (start stop : Expr) (body : Run Unit) :
    Refused (forLoop f name start stop body) m
      (∃ v w, start.evaluate m.store f = .ok v ∧ stop.evaluate m.store f = .ok w ∧
        Store.tag v = Store.tag w ∧
          (Store.tag v = .scalar .integer ∨ Store.tag v = .scalar .real))
      (.constantCounted name) := by
  unfold forLoop Refused
  rw [bind_apply, evaluate_apply]
  cases hstart : start.evaluate m.store f with
  | error h => exact ⟨h, rfl, by rintro ⟨_, _, ⟨⟩, _⟩⟩
  | ok v =>
    dsimp only
    rw [bind_apply, evaluate_apply]
    cases hstop : stop.evaluate m.store f with
    | error h => exact ⟨h, rfl, by rintro ⟨_, _, _, ⟨⟩, _⟩⟩
    | ok w =>
      simp only [hc, if_true]
      split
      · exact ⟨_, rfl, fun _ => rfl⟩
      · exact ⟨_, rfl, fun _ => rfl⟩
      · -- bounds that are not numbers of one kind
        rename_i hinteger hreal
        refine ⟨_, rfl, ?_⟩
        rintro ⟨_, _, ⟨⟩, ⟨⟩, htag, hv | hv⟩
        · obtain ⟨a, rfl⟩ := integer_of_tag hv
          obtain ⟨b, rfl⟩ := integer_of_tag htag.symm
          exact (hinteger a b rfl rfl).elim
        · obtain ⟨x, rfl⟩ := real_of_tag hv
          obtain ⟨y, rfl⟩ := real_of_tag htag.symm
          exact (hreal x y rfl rfl).elim

/-- A statement whose head refuses a constant. -/
theorem refused_statement {setting : Setting} {room : Nat} {stack : List String} {s : Stmt} {far : Prop}
    {c : Cause} (h : ∀ p inner looped activate room, ¬room < s.headDepth →
      Refused (level p inner looped activate room f s) m far c) :
    Refused (statement setting room stack f s) m (5 + s.headDepth ≤ room ∧ far) c := by
  rcases Nat.lt_or_ge room 5 with hroom | hroom
  · rw [statement_of_lt hroom]
    exact ⟨.tooDeep, rfl, fun hfar => by omega⟩
  · obtain ⟨room, rfl⟩ := Nat.exists_eq_add_of_le' hroom
    rw [statement_eq]
    by_cases hdepth : room < s.headDepth
    · refine ⟨.tooDeep, ?_, fun hfar => by omega⟩
      unfold level
      rw [if_pos hdepth]
      rfl
    · obtain ⟨e, he, hcause⟩ := h setting.program _ _ _ room hdepth
      exact ⟨e, he, fun hfar => hcause hfar.2⟩

/-- The statements that would store at what a name stands for are refused, in a
frame and on a machine: to assign to it or to an item of it, to pass it with
`var`, to count in it. -/
structure Refuses (setting : Setting) (room : Nat) (stack : List String) (f : Frame) (name : String)
    (m : Machine) : Prop where
  assign : ∀ line targetLine index e, let s := Stmt.assign line ⟨targetLine, name, index⟩ e
    Refused (statement setting room stack f s) m (5 + s.headDepth ≤ room) (.constantAssigned name)
  /-- A call gets so far if the arguments before it have values. -/
  call : ∀ line callee before l nameLine after,
    let s := Stmt.call line callee (before ++ .reference l name nameLine :: after)
    Refused (statement setting room stack f s) m
      (5 + s.headDepth ≤ room ∧ ∃ as, actuals f before m = .ok as m) (.constantPassed name)
  /-- A loop gets so far if its bounds are both integers, or both reals. -/
  forLoop : ∀ line nameLine start stop body,
    let s := Stmt.forLoop line name nameLine start stop body
    Refused (statement setting room stack f s) m
      (5 + s.headDepth ≤ room ∧ ∃ v w, start.evaluate m.store f = .ok v ∧
        stop.evaluate m.store f = .ok w ∧ Store.tag v = Store.tag w ∧
          (Store.tag v = .scalar .integer ∨ Store.tag v = .scalar .real))
      (.constantCounted name)

/-- **Every attempt to store at a constant ends in a fault**, and changes
nothing. -/
theorem refuses_constant (setting : Setting) (room : Nat) (stack : List String)
    (hc : f.isConstant name = true) (m : Machine) : Refuses setting room stack f name m := by
  refine ⟨fun line targetLine index e => ?_, fun line callee before l nameLine after => ?_,
    fun line nameLine start stop body => ?_⟩
  · obtain ⟨h, hs, hcause⟩ := refused_statement (m := m) (s := .assign line ⟨targetLine, name, index⟩ e)
      fun p inner looped activate room hdepth => by
        rw [level, if_neg hdepth, assign, if_pos hc]
        exact ⟨_, rfl, fun _ => rfl⟩
    exact ⟨h, hs, fun hfar => hcause ⟨hfar, trivial⟩⟩
  · refine refused_statement fun p inner looped activate room hdepth => ?_
    rw [level, if_neg hdepth]
    obtain ⟨h, hactuals, hcause⟩ := actuals_constant hc before after l nameLine
    refine ⟨h, ?_, hcause⟩
    rw [callWith, bind_apply, hactuals]
  · refine refused_statement fun p inner looped activate room hdepth => ?_
    rw [level, if_neg hdepth]
    exact forLoop_constant hc start stop (inner body)

end Run

namespace Program

/-- At every moment of a run the constants of all activations are sealed. -/
theorem sealed_reached (p : Program) (entry input : String) (limits : Limits) (random : Random)
    (n : Nat) : (p.reached entry input limits random n).Sealed := by
  have h := Run.sealed_entry ⟨p, limits⟩ entry { input := Text.textLines input, random, steps := n }
    ⟨Machine.sealed_of_nil rfl, List.nil_subset _⟩
  rw [← machine_of] at h
  exact h.sealed

/-- **Constants keep their values in every run.** The constants of a frame are
the names that its function declares so, once at least. From the moment that a
function is entered, to any later one, such a name stands for a variable that
holds what its last declaration gave it.

And in a frame that has a name for a constant, every attempt to store there ends
in a fault. -/
theorem constants_keep (p : Program) (entry input : String) (limits : Limits) (random : Random) :
    (∀ n, ∀ a ∈ (p.reached entry input limits random n).activations, ∀ name,
      a.frame.isConstant name = true ↔ ∃ d ∈ a.function.locals, d.declaresConstant name = true) ∧
    (∀ n k, n ≤ k → ∀ a ∈ (p.reached entry input limits random n).activations, ∀ name,
      a.frame.isConstant name = true → ∃ q d, a.frame.find? name = some q ∧ q.slot = none ∧
        Local.last? a.function.locals name = some d ∧
        d.initial = .ok ((p.reached entry input limits random n).store.cell q.cell) ∧
        (p.reached entry input limits random k).store.cell q.cell =
          (p.reached entry input limits random n).store.cell q.cell) ∧
    ∀ (f : Frame) (name : String), f.isConstant name = true →
      ∀ (room : Nat) (stack : List String) (m : Machine),
        Run.Refuses ⟨p, limits⟩ room stack f name m := by
  have hsealed := p.sealed_reached entry input limits random
  refine ⟨fun n a ha name => (hsealed n).isConstant_iff a ha name, fun n k hnk a ha name hname => ?_,
    fun f name hname room stack m => Run.refuses_constant _ room stack hname m⟩
  obtain ⟨d, rfl⟩ := Nat.exists_eq_add_of_le hnk
  have hstays : (p.reached entry input limits random n).activations ⊆
      (p.reached entry input limits random (n + d)).activations :=
    (leads_reached_more entry input limits random n d).activations.subset
  -- at both moments the cell holds what the last declaration gives
  obtain ⟨q, hq⟩ := (hsealed n).seals a ha name hname
  obtain ⟨q', hq'⟩ := (hsealed (n + d)).seals a (hstays ha) name hname
  obtain rfl : q' = q := Option.some.inj (hq'.find.symm.trans hq.find)
  obtain ⟨e, hlast, he⟩ := hq.holds
  obtain ⟨e', hlast', he'⟩ := hq'.holds
  obtain rfl : e' = e := Option.some.inj (hlast'.symm.trans hlast)
  exact ⟨q', e', hq.find, hq.whole, hlast, he, Except.ok.inj (he'.symm.trans he)⟩

/-- A name that is declared constant, then as a variable, and assigned to. -/
def assignedProgram : Program :=
  let locals : List Local :=
    [.constant ⟨2, "c", .integer 3, 2⟩, .var { line := 3, name := "c", type := .scalar (.integer none) }]
  { functions := [⟨1, "main", [], locals, [.assign 4 ⟨4, "c", none⟩ (.literal 4 (.integer 5))]⟩] }

/-- The hypotheses of `constants_keep` are satisfiable: once declared constant
the name is one, though it stands for the variable. -/
theorem constants_keep_assigned :
    (assignedProgram.runOn "main" {} { steps := 9 }).halt =
      some (.fault ⟨.constantAssigned "c", some 4, ["main"]⟩) ∧
    ∃ a ∈ (assignedProgram.reached "main" "" {} {} 2).activations,
      a.frame.isConstant "c" = true ∧ ∃ q, a.frame.find? "c" = some q ∧
        (assignedProgram.reached "main" "" {} {} 9).store.cell q.cell =
          (assignedProgram.reached "main" "" {} {} 2).store.cell q.cell := by
  have hframes : (assignedProgram.reached "main" "" {} {} 2).activations.map (·.frame) =
      [⟨[("c", ⟨1, none⟩), ("c", ⟨0, none⟩)], ["c"]⟩] := by decide +kernel
  refine ⟨by decide +kernel, ?_⟩
  obtain ⟨a, ha, hframe⟩ := List.mem_map.1 (hframes ▸ List.mem_singleton_self _)
  have hconstant : a.frame.isConstant "c" = true := by rw [hframe]; rfl
  obtain ⟨q, d, hq, -, -, -, hcell⟩ :=
    (assignedProgram.constants_keep "main" "" {} {}).2.1 2 9 (by decide) a ha "c" hconstant
  exact ⟨a, ha, hconstant, q, hq, hcell⟩

end Program
end Shank
