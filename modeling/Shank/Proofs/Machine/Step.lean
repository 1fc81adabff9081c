/-
# What one step can do to a machine

`Machine.Step` lists everything that a piece of a run can do to the machine, one
constructor to each kind of change, with all that is known when it happens.
Whatever holds along steps of these kinds holds along every run, so each
invariant of a run is a case analysis over `Step` and nothing else.

A piece of a run does not come at the store from nowhere. It finds `base` cells
there, and is handed some of the places in them (`given`): the places of its
frame's variables, or those that a call passes with `var`. It stores scalars
only

* in cells that were added since, from `base` on, and
* at places that are `given`, or parts of them.

| invariant | from |
| --- | --- |
| no cell is lost, each keeps its type | `Leads.grows` |
| every cell fits | `Leads.fits` |
| the types of cells are declared in the program | `Leads.declared` |
| what is not given is not changed | `Leads.get_eq`, `Leads.cell_eq` |
| declared names keep the kind of their declaration | `Leads.settled` |
-/

import Shank.Machine
import Shank.Proofs.Declarations
import Shank.Proofs.Store.Update
import Mathlib.Logic.Relation

namespace Shank

/-- Every declared name is bound, to something of the kind that its declaration
asks for. -/
def Activation.Typed (a : Activation) (s : Store) : Prop :=
  ∀ name type, a.function.typeOf? name = some type →
    ∃ q, a.frame.find? name = some q ∧ Store.tag (s.get q) = type.tag

/-- Every declared name is bound to a place of the store, and the type of its
cell is of the kind that the declaration asks for. -/
def Activation.Settled (a : Activation) (s : Store) : Prop :=
  ∀ name type, a.function.typeOf? name = some type →
    ∃ q, a.frame.find? name = some q ∧ q.cell < s.cells.size ∧
      (s.cell q.cell).type.tagAt q.slot = type.tag

/-- A settled activation stays settled as the store grows: no cell it names is
lost or retyped. -/
theorem Activation.Settled.mono {a : Activation} {s t : Store} (h : a.Settled s)
    (hst : s.Grows t) : a.Settled t := by
  intro name type hname
  obtain ⟨q, hq, hlt, htag⟩ := h name type hname
  exact ⟨q, hq, hlt.trans_le hst.size_le, by rw [hst.type_eq _ hlt, htag]⟩

namespace Machine

variable {p : Program} {base : Nat} {given given' : Place → Prop} {m m' m'' : Machine}

/-- The places that a piece of a run may store at. -/
def Writable (base : Nat) (given : Place → Prop) (q : Place) : Prop :=
  base ≤ q.cell ∨ ∃ g, given g ∧ g.covers q

/-- One change of a machine. -/
inductive Step (p : Program) (base : Nat) (given : Place → Prop) : Machine → Machine → Prop
  /-- Input is read, random numbers are drawn, steps are spent. -/
  | idle (m : Machine) (input : List String) (random : Random) {steps : Nat}
      (spent : steps ≤ m.steps) : Step p base given m { m with input, random, steps }
  /-- An event is recorded. -/
  | record (m : Machine) (e : Event) : Step p base given m { m with events := m.events.push e }
  /-- A cell is added for a declaration. -/
  | declare (m : Machine) {c : Cell} (fits : c.Fits) (declared : p.Declares c.type) :
      Step p base given m { m with store := (m.store.add c).1 }
  /-- A cell is added that is a copy of another one. -/
  | copy (m : Machine) (i : Nat) :
      Step p base given m { m with store := (m.store.add (m.store.cell i)).1 }
  /-- A text is stored. -/
  | write (m : Machine) {q : Place} {text : String} {v : Scalar}
      (writable : Writable base given q) (reads : m.store.reading q text = .ok v) :
      Step p base given m { m with store := m.store.put q v }
  /-- A function is entered. If the places given lie in the cells found, its
  names are typed. -/
  | enter (m : Machine) {a : Activation}
      (typed : (∀ q, given q → q.cell < base) → a.Typed m.store)
      (inside : ∀ name q, a.frame.find? name = some q → q.cell < m.store.cells.size ∨ given q) :
      Step p base given m { m with activations := a :: m.activations }

/-- What some steps, one after the other, can do to a machine. -/
def Leads (p : Program) (base : Nat) (given : Place → Prop) : Machine → Machine → Prop :=
  Relation.ReflTransGen (Step p base given)

/-- No step at all leads a machine to itself. -/
theorem Leads.refl (m : Machine) : Leads p base given m m :=
  Relation.ReflTransGen.refl

/-- Steps after steps are steps. -/
theorem Leads.trans (h : Leads p base given m m') (h' : Leads p base given m' m'') :
    Leads p base given m m'' :=
  Relation.ReflTransGen.trans h h'

/-- One step is a sequence of steps. -/
theorem Step.leads (h : Step p base given m m') : Leads p base given m m' :=
  Relation.ReflTransGen.single h

/-! ## What holds along all steps

Each of these is shown for one step, with a case for each kind, and then for any
number of them in a row.
-/

/-- **A step loses no cell and retypes none.** -/
theorem Step.grows (h : Step p base given m m') : m.store.Grows m'.store := by
  cases h with
  | idle | record | enter => exact Store.Grows.refl _
  | declare _ _ => exact Store.grows_add _ _
  | copy i => exact Store.grows_add _ _
  | write _ _ => exact Store.grows_put _ _ _

/-- **No cell is lost, and none changes its type.** -/
theorem Leads.grows (h : Leads p base given m m') : m.store.Grows m'.store := by
  induction h with
  | refl => exact Store.Grows.refl _
  | tail _ h ih => exact ih.trans h.grows

/-- Steps are spent, never gained. -/
theorem Leads.steps_le (h : Leads p base given m m') : m'.steps ≤ m.steps := by
  induction h with
  | refl => exact le_rfl
  | tail _ h ih =>
    cases h with
    | idle _ _ spent => exact spent.trans ih
    | _ => exact ih

/-- **A step keeps the cells fitting**: what it adds fits, and what it stores
was converted to the type of the cell. -/
theorem Step.fits (h : Step p base given m m') (hm : m.store.Fits) : m'.store.Fits := by
  cases h with
  | idle | record | enter => exact hm
  | declare fits _ => exact hm.add fits
  | copy i => exact hm.add (hm i)
  | write _ reads => exact hm.put reads

/-- **Every cell keeps holding what its type asks for.** -/
theorem Leads.fits (h : Leads p base given m m') (hm : m.store.Fits) : m'.store.Fits := by
  induction h with
  | refl => exact hm
  | tail _ h ih => exact h.fits ih

/-- **The types of cells are those that the program declares.** -/
theorem Leads.declared (h : Leads p base given m m')
    (hm : ∀ i, p.Declares (m.store.cell i).type) (i : Nat) :
    p.Declares (m'.store.cell i).type := by
  have added {s : Store} {c : Cell} (hs : ∀ i, p.Declares (s.cell i).type)
      (hc : p.Declares c.type) (i : Nat) : p.Declares ((s.add c).1.cell i).type := by
    rcases lt_trichotomy i s.cells.size with hi | rfl | hi
    · rw [Store.cell_add_of_lt hi]
      exact hs i
    · rwa [Store.cell_add_self]
    · rw [Store.cell_of_le (by rw [Store.size_add]; exact hi)]
      exact .inl ⟨.boolean, rfl⟩
  induction h generalizing i with
  | refl => exact hm i
  | tail _ h ih =>
    cases h with
    | idle | record | enter => exact ih i
    | declare _ declared => exact added ih declared i
    | copy j => exact added ih (ih j) i
    | write _ _ =>
      rw [Store.type_cell_put]
      exact ih i

/-! ## What is left alone

What steps may write at is what was added on the way and what was given.
Everything else in the store is as it was.
-/

/-- A place from before `base` that no given place covers is not covered by
anything that may be written. So the steps of a call leave it alone. -/
theorem not_writable_covers {q r : Place} (hq : q.cell < base)
    (hgiven : ∀ g, given g → ¬g.covers q) (hr : Writable base given r) : ¬r.covers q := by
  rintro ⟨hcell, hslot⟩
  rcases hr with hr | ⟨g, hg, hcell', hslot'⟩
  · omega
  · refine hgiven g hg ⟨hcell'.trans hcell, ?_⟩
    rcases hslot' with h | h
    · exact .inl h
    · exact hslot.imp (h.trans ·) (h.trans ·)

/-- **A place that is not given keeps what it holds.** -/
theorem Leads.get_eq (h : Leads p base given m m') (hbase : base ≤ m.store.cells.size) {q : Place}
    (hq : q.cell < base) (hgiven : ∀ g, given g → ¬g.covers q) :
    m'.store.get q = m.store.get q := by
  induction h with
  | refl => rfl
  | @tail b _ hb h ih =>
    have hlt : q.cell < b.store.cells.size := by
      have := Leads.grows hb
      exact hq.trans_le (hbase.trans this.size_le)
    cases h with
    | idle | record | enter => exact ih
    | declare _ _ => simpa only [Store.get, Store.cell_add_of_lt hlt] using ih
    | copy i => simpa only [Store.get, Store.cell_add_of_lt hlt] using ih
    | write writable _ => rw [Store.get_put (not_writable_covers hq hgiven writable), ih]

/-- A cell with no place given in it keeps all that it holds. -/
theorem Leads.cell_eq (h : Leads p base given m m') (hbase : base ≤ m.store.cells.size) {i : Nat}
    (hi : i < base) (hgiven : ∀ g, given g → g.cell ≠ i) :
    m'.store.cell i = m.store.cell i := by
  induction h with
  | refl => rfl
  | @tail b _ hb h ih =>
    have hlt : i < b.store.cells.size := by
      have := Leads.grows hb
      exact hi.trans_le (hbase.trans this.size_le)
    cases h with
    | idle | record | enter => exact ih
    | declare _ _ => rwa [Store.cell_add_of_lt hlt]
    | copy j => rwa [Store.cell_add_of_lt hlt]
    | write writable _ =>
      rw [Store.cell_put_of_ne, ih]
      rcases writable with h | ⟨g, hg, hcell, _⟩
      · omega
      · exact fun e => hgiven g hg (hcell.trans e)

/-! ## Handing places on

A piece of a run that calls another one hands cells and places on to it. What
the other one does with them counts as done by the first.
-/

/-- **Whoever adds cells and hands them on**, together with places given to him,
to a piece that finds them all in the store, does no more that way than he may. -/
theorem Leads.hand_on {base' : Nat} (h : Leads p base' given m m') (hm : base' ≤ m.store.cells.size)
    (hb : base ≤ base') (hg : ∀ q, given q → base ≤ q.cell ∧ q.cell < base' ∨ given' q) :
    Leads p base given' m m' := by
  induction h with
  | refl => exact .refl _
  | @tail b _ hleads h ih =>
    have hsize : base' ≤ b.store.cells.size := hm.trans (Leads.grows hleads).size_le
    refine ih.trans (Step.leads ?_)
    cases h with
    | idle input random spent => exact .idle _ input random spent
    | record e => exact .record _ e
    | declare fits declared => exact .declare _ fits declared
    | copy i => exact .copy _ i
    | write writable reads =>
      refine .write _ ?_ reads
      rcases writable with hw | ⟨g, hgiven, hcell, hslot⟩
      · exact .inl (hb.trans hw)
      · rcases hg g hgiven with ⟨hw, _⟩ | hg'
        · exact .inl (hcell ▸ hw)
        · exact .inr ⟨g, hg', hcell, hslot⟩
    | enter typed inside =>
      refine .enter _ (fun hin => typed fun q hq => ?_) fun name q hq => ?_
      · exact (hg q hq).elim And.right fun hg' => (hin q hg').trans_le hb
      · rcases inside name q hq with hlt | hgq
        · exact .inl hlt
        · exact (hg q hgq).imp (fun hlt => hlt.2.trans_le hsize) id

/-! ## Activations

Activations are kept when they end, so what is said of all of them is said of
every function that was entered up to then.
-/

/-- Activations stay once they are begun. -/
theorem Leads.activations (h : Leads p base given m m') : m.activations <:+ m'.activations := by
  induction h with
  | refl => exact List.suffix_rfl
  | tail _ h ih =>
    cases h with
    | enter _ _ => exact ih.trans (List.suffix_cons _ _)
    | _ => exact ih

/-- **Every activation stays settled**, if the places given lie in the store. -/
theorem Leads.settled (h : Leads p base given m m') (hfits : m.store.Fits)
    (hbase : base ≤ m.store.cells.size) (hin : ∀ q, given q → q.cell < base)
    (hm : ∀ a ∈ m.activations, a.Settled m.store) : ∀ a ∈ m'.activations, a.Settled m'.store := by
  induction h with
  | refl => exact hm
  | @tail b _ hb h ih =>
    have hsize := (Leads.grows hb).size_le
    have hkept := fun a ha => (ih a ha).mono h.grows
    cases h with
    | enter typed inside =>
      intro a ha
      rcases List.mem_cons.1 ha with rfl | ha
      · intro name type hname
        obtain ⟨q, hq, htag⟩ := typed hin name type hname
        have hlt : q.cell < b.store.cells.size :=
          (inside name q hq).elim id fun hg => (hin q hg).trans_le (hbase.trans hsize)
        exact ⟨q, hq, hlt, by rw [← Store.tag_get (Leads.fits hb hfits), htag]⟩
      · exact hkept a ha
    | _ => exact hkept

end Machine
end Shank
