/-
# One line of input for each variable

`read` takes a line for each of its variables, in their order, and stores it
before it takes the next one. Past the end of the input all lines are empty. The
first line that does not convert ends the call.

| | all lines convert | the first `j` convert, the next one does not |
| --- | --- | --- |
| stored | every line, in order | the first `j`, in order |
| lines taken, as far as there are any | one for each variable | `j + 1` |
| reported | nothing | one line |

The variables may be of any kind and have ranges, and one may come twice. For an
array a line is taken as for any other variable; it never converts, so the call
ends there.
-/

import Shank.Proofs.Run.Assignment
import Shank.Proofs.Run.Misuse
import Shank.Proofs.Run.Reports

namespace Shank

/-! ## Lines

Past its last line an input goes on with empty lines, so there is a line for
every variable. How many were taken counts no further than the input goes.
-/

/-- A line of some input as it is read; past the last one it is empty. -/
def inputLine (input : List String) (i : Nat) : String :=
  match input[i]? with
  | some line => Text.chomped line
  | none => ""

/-- After `i` lines the next one is line `i`. -/
theorem nextLine_drop (input : List String) (i : Nat) : nextLine (input.drop i) = inputLine input i := by
  rw [inputLine, ← List.head?_drop]
  cases input.drop i <;> rfl

/-- Without its first line, the lines of an input are numbered from the one
after it. -/
theorem inputLine_drop (input : List String) (i : Nat) :
    inputLine (input.drop 1) i = inputLine input (i + 1) := by
  rw [← nextLine_drop, List.drop_drop, Nat.add_comm, nextLine_drop]

/-- Every line that is read is plain if the lines of the input are. The empty
ones past the end are. -/
theorem isPlain_inputLine {input : List String} (h : ∀ line ∈ input, IsPlain line) (i : Nat) :
    IsPlain (inputLine input i) := by
  unfold inputLine
  split
  · rename_i line hline
    exact (h line (List.mem_of_getElem? hline)).chomped
  · decide

/-! ## Scalars stored one after the other

The same variable may come more than once. Then a later line is stored over an
earlier one, and what is left is the last.
-/

namespace Store

variable {s t : Store} {q r : Place} {v : Scalar} {writes : List (Place × Scalar)}

/-- Another scalar keeps what it holds. What is stored at the whole of its array
is not stored at all. -/
theorem HasScalar.get_put_of_ne (hr : s.HasScalar r) (h : q ≠ r) (v : Scalar) :
    (s.put q v).get r = s.get r := by
  by_cases hcovers : q.covers r
  · obtain ⟨hcell, hslot⟩ := hcovers
    have hnone : q.slot = none := hslot.resolve_right fun e => h (Place.eq_of_cell_of_slot hcell e)
    obtain ⟨hlt, hr⟩ := hr
    have hput : (s.put q v).cell r.cell = (s.cell r.cell).put none v := by
      rw [← hcell, ← hnone]
      exact cell_put_self (hcell ▸ hlt) v
    have hsome : r.slot ≠ none := fun e => h (Place.eq_of_cell_of_slot hcell (hnone.trans e.symm))
    obtain ⟨k, hk⟩ := Option.ne_none_iff_exists'.1 hsome
    unfold get
    rw [hput]
    rw [hk] at hr ⊢
    cases hc : s.cell r.cell with
    | scalar type w =>
      rw [hc] at hr
      exact hr.elim
    | array bounds element items => rfl
  · exact get_put hcovers v

/-- Scalars are stored at places, one after the other. -/
def putAll (s : Store) (writes : List (Place × Scalar)) : Store :=
  writes.foldl (fun s w => s.put w.1 w.2) s

/-- Storing scalars keeps the scalars of a store where they are. -/
theorem hasScalar_putAll (s : Store) (writes : List (Place × Scalar)) (r : Place) :
    (s.putAll writes).HasScalar r ↔ s.HasScalar r := by
  induction writes generalizing s with
  | nil => rfl
  | cons w rest ih => exact (ih (s.put w.1 w.2)).trans (hasScalar_put s w.1 w.2 r)

/-- From `s` to `t` scalars are stored at places, one after the other, and
nothing else is. -/
structure Stored (s t : Store) (writes : List (Place × Scalar)) : Prop where
  eq_putAll : t = s.putAll writes
  /-- A scalar that is written is what is written last. -/
  get_last : ∀ earlier q v later, writes = earlier ++ (q, v) :: later → q ∉ later.map Prod.fst →
    s.HasScalar q → t.get q = .scalar v
  /-- Every other one is what it was. -/
  get_eq : ∀ r, r ∉ writes.map Prod.fst → s.HasScalar r → t.get r = s.get r

/-- A scalar that is not among those written stays what it was. -/
theorem get_putAll (hr : s.HasScalar r) (h : r ∉ writes.map Prod.fst) :
    (s.putAll writes).get r = s.get r := by
  induction writes generalizing s with
  | nil => rfl
  | cons w rest ih =>
    rw [List.map_cons, List.mem_cons, not_or] at h
    have hrest := ih ((hasScalar_put s w.1 w.2 r).2 hr) h.2
    exact hrest.trans (hr.get_put_of_ne (Ne.symm h.1) w.2)

/-- **What writes after each other leave behind**: what was written last where
something was, and elsewhere what was there before. -/
theorem stored_putAll (s : Store) (writes : List (Place × Scalar)) : s.Stored (s.putAll writes) writes where
  eq_putAll := rfl
  get_last := by
    rintro earlier q v later rfl hlater hq
    have hsplit : s.putAll (earlier ++ (q, v) :: later) = ((s.putAll earlier).put q v).putAll later :=
      List.foldl_append
    have hq' : (s.putAll earlier).HasScalar q := (hasScalar_putAll s earlier q).2 hq
    rw [hsplit, get_putAll ((hasScalar_put _ q v q).2 hq') hlater]
    exact hq'.get_put_self v
  get_eq _ hr hscalar := get_putAll hscalar hr

/-- Line after line of the input converts for place after place, those before it
being stored; with each place comes the scalar that its line is. -/
def Converts (s : Store) (input : List String) (writes : List (Place × Scalar)) : Prop :=
  ∀ i w, writes[i]? = some w →
    (s.putAll (writes.take i)).reading w.1 (inputLine input i) = .ok w.2

/-- The first line converts in the store as it is. -/
theorem Converts.head {input : List String} (h : s.Converts input ((q, v) :: writes)) :
    s.reading q (inputLine input 0) = .ok v :=
  h 0 (q, v) rfl

/-- The other lines convert in the store that the first one leaves behind. -/
theorem Converts.tail {input : List String} (h : s.Converts input ((q, v) :: writes)) :
    (s.put q v).Converts (input.drop 1) writes := by
  intro i w hw
  rw [inputLine_drop]
  exact h (i + 1) w hw

/-- The two parts together. -/
theorem Converts.cons {input : List String} (hhead : s.reading q (inputLine input 0) = .ok v)
    (htail : (s.put q v).Converts (input.drop 1) writes) : s.Converts input ((q, v) :: writes) := by
  intro i w hw
  cases i with
  | zero =>
    obtain rfl := Option.some.inj hw
    exact hhead
  | succ i =>
    rw [← inputLine_drop]
    exact htail i w hw

/-- Either all lines convert, each for its place, or they do up to a first one
that does not. -/
theorem exists_converts (s : Store) (input : List String) (qs : List Place) :
    ∃ writes, s.Converts input writes ∧ (qs = writes.map Prod.fst ∨
      ∃ q later c, qs = writes.map Prod.fst ++ q :: later ∧
        (s.putAll writes).reading q (inputLine input writes.length) = .error c) := by
  induction qs generalizing s input with
  | nil => exact ⟨[], nofun, .inl rfl⟩
  | cons q rest ih =>
    cases hq : s.reading q (inputLine input 0) with
    | error c => exact ⟨[], nofun, .inr ⟨q, rest, c, rfl, hq⟩⟩
    | ok v =>
      obtain ⟨writes, hwrites, hall | ⟨q', later, c, hsplit, herror⟩⟩ := ih (s.put q v) (input.drop 1)
      · exact ⟨(q, v) :: writes, hwrites.cons hq, .inl (congrArg (q :: ·) hall)⟩
      · rw [inputLine_drop] at herror
        exact ⟨(q, v) :: writes, hwrites.cons hq, .inr ⟨q', later, c, congrArg (q :: ·) hsplit, herror⟩⟩

end Store

/-- The machine when `n` lines of input were asked for, and scalars stored at
places. -/
def Machine.reading (m : Machine) (n : Nat) (writes : List (Place × Scalar)) : Machine :=
  { m with store := m.store.putAll writes, input := m.input.drop n, steps := m.steps - n }

/-- On the way from `m` to `m'` so many lines of input are asked for, and
scalars are stored at places. Of the machine nothing else is changed but the
record of what happened. -/
structure Machine.Reads (m m' : Machine) (n : Nat) (writes : List (Place × Scalar)) : Prop where
  stored : m.store.Stored m'.store writes
  input_eq : m'.input = m.input.drop n
  /-- That many lines are taken, or all that there are. -/
  length_input : m'.input.length + min n m.input.length = m.input.length
  eq_with : m' = { m with store := m'.store, input := m'.input, events := m'.events, steps := m.steps - n }

/-- The machine after `n` lines and some writes is one that is got to by
reading, whatever was recorded. -/
theorem Machine.reads_reading (m : Machine) (n : Nat) (writes : List (Place × Scalar)) (events : Array Event) :
    m.Reads { m.reading n writes with events } n writes where
  stored := m.store.stored_putAll writes
  input_eq := rfl
  length_input := by
    show (m.input.drop n).length + min n m.input.length = m.input.length
    rw [List.length_drop]
    omega
  eq_with := rfl

/-- Reading in two parts is reading at once. -/
theorem Machine.reading_reading (m : Machine) (n n' : Nat) (writes writes' : List (Place × Scalar)) :
    (m.reading n writes).reading n' writes' = m.reading (n + n') (writes ++ writes') := by
  simp only [reading, Store.putAll, List.foldl_append, List.drop_drop, Nat.sub_sub]

namespace Builtin

open Run

variable {m : Machine} {writes : List (Place × Scalar)} {q : Place} {later : List Place} {c : Cause}

/-! ## Place by place

Each line is converted in the store that the lines before it left, and a line
that does not convert ends the reading.
-/

/-- What the next line comes to: it is stored and the other places are come to,
or it does not convert. -/
theorem readInto_cons (q : Place) (rest : List Place) (hsteps : 0 < m.steps) :
    readInto (q :: rest) m = match m.store.reading q (inputLine m.input 0) with
      | .ok v => readInto rest (m.reading 1 [(q, v)])
      | .error c => .ok (some (.fault c)) (m.reading 1 []) := by
  let m₁ : Machine := { m with input := m.input.tail }
  obtain ⟨steps, hsucc⟩ : ∃ steps, m₁.steps = steps + 1 := Nat.exists_eq_add_one.2 hsteps
  have hmachine (writes : List (Place × Scalar)) :
      m.reading 1 writes = { m₁ with store := m.store.putAll writes, steps } := by
    have hleft : m.steps - 1 = steps := Nat.sub_eq_of_eq_add hsucc
    simp only [Machine.reading, hleft, List.drop_one, m₁]
  have hline : nextLine m.input = inputLine m.input 0 := nextLine_drop m.input 0
  have hwrite : tryWrite q (inputLine m.input 0) m₁ = match m.store.reading q (inputLine m.input 0) with
      | .ok v => .ok none (m.reading 1 [(q, v)])
      | .error c => .ok (some c) (m.reading 1 []) := by
    simp only [hmachine]
    exact tryWrite_apply q _ hsucc
  rw [readInto, bind_eq (readLine_apply m), hline, bind_apply, hwrite]
  cases m.store.reading q (inputLine m.input 0) <;> rfl

/-- The lines that convert are stored before the other places are come to. -/
theorem readInto_append (later : List Place) (hwrites : m.store.Converts m.input writes)
    (hsteps : writes.length ≤ m.steps) :
    readInto (writes.map Prod.fst ++ later) m = readInto later (m.reading writes.length writes) := by
  induction writes generalizing m with
  | nil => rfl
  | cons w rest ih =>
    obtain ⟨q, v⟩ := w
    rw [List.length_cons] at hsteps
    have hsteps' : rest.length ≤ (m.reading 1 [(q, v)]).steps := Nat.le_sub_of_add_le hsteps
    rw [List.map_cons, List.cons_append, readInto_cons q _ (by omega), hwrites.head]
    dsimp only
    have hrest := ih (m := m.reading 1 [(q, v)]) hwrites.tail hsteps'
    rw [Machine.reading_reading, Nat.add_comm 1 rest.length] at hrest
    exact hrest

/-- A line does not convert that comes behind some that do. -/
theorem readInto_of_error (later : List Place) (hwrites : m.store.Converts m.input writes)
    (herror : (m.store.putAll writes).reading q (inputLine m.input writes.length) = .error c)
    (hsteps : writes.length < m.steps) :
    readInto (writes.map Prod.fst ++ q :: later) m =
      .ok (some (.fault c)) (m.reading (writes.length + 1) writes) := by
  have hsteps' : 0 < (m.reading writes.length writes).steps := Nat.sub_pos_of_lt hsteps
  have hline : (m.store.putAll writes).reading q (inputLine (m.input.drop writes.length) 0) = .error c := by
    rw [← nextLine_drop, List.drop_zero, nextLine_drop]
    exact herror
  rw [readInto_append _ hwrites hsteps.le, readInto_cons q later hsteps']
  show (match (m.store.putAll writes).reading q (inputLine (m.input.drop writes.length) 0) with
    | .ok v => _
    | .error c => _) = _
  rw [hline, Machine.reading_reading, List.append_nil]

/-! ## The call

A call of `read` with variables for its arguments is not refused, whatever their
kinds are. So it reads, and tells what is wrong if a line does not convert.
-/

/-- Variables suit `read`, whatever they are. -/
theorem check_read (s : Store) (qs : List Place) : read.check s (qs.map .reference) = none := by
  have hall (position : Nat) (as : List Place) :
      checkArguments s position ((as.map Actual.reference).flatMap fun _ => read.parameters)
        (as.map .reference) = none := by
    induction as generalizing position with
    | nil => rfl
    | cons a as ih => exact ih (position + 1)
  exact hall 1 qs

/-- Places that are all passed with `var` are the places of the call. -/
theorem places_reference (qs : List Place) : places (qs.map .reference) = qs := by
  induction qs with
  | nil => rfl
  | cons q rest ih => exact congrArg (q :: ·) ih

/-- The call reads into its variables, and tells what is wrong. -/
theorem invoke_read (qs : List Place) {o : Option Problem} {m' : Machine}
    (h : readInto qs m = .ok o m') :
    read.invoke (qs.map .reference) m = match o with
      | some problem => read.refuse problem m'
      | none => .ok () m' := by
  have hperform : read.perform (qs.map .reference) m = .ok o m' := by
    unfold perform
    rw [bind_eq (x := Run.store) rfl]
    dsimp only
    rw [places_reference, h]
  unfold invoke
  rw [bind_eq (x := Run.store) rfl, check_read]
  dsimp only
  rw [bind_eq hperform]
  cases o <;> rfl

/-- **`read` stores line after line, up to the first that does not convert.**
Take any variables, and any lines of input left. Either the lines convert in
order, each for its variable, or they do up to a first one that does not. If all
do, then they are stored in order, one line is taken for each variable as far as
there are any, and nothing is told. If one does not, then those before it are
stored, so that its variable has what it had then, and the variables behind it
are not written. The line that does not convert is taken with those before it,
as far as there are any, and one line is told. -/
theorem reads_up_to_failure {qs : List Place} (hsteps : qs.length ≤ m.steps) :
    (∃ writes, m.store.Converts m.input writes ∧ (qs = writes.map Prod.fst ∨
      ∃ q later c, qs = writes.map Prod.fst ++ q :: later ∧
        (m.store.putAll writes).reading q (inputLine m.input writes.length) = .error c)) ∧
    ∀ writes, m.store.Converts m.input writes →
      (qs = writes.map Prod.fst →
        ∃ m', read.invoke (qs.map .reference) m = .ok () m' ∧ m.Reads m' writes.length writes ∧
          m'.events = m.events) ∧
      ∀ q later c, qs = writes.map Prod.fst ++ q :: later →
        (m.store.putAll writes).reading q (inputLine m.input writes.length) = .error c →
        ∃ m' line, read.invoke (qs.map .reference) m = .ok () m' ∧
          m.Reads m' (writes.length + 1) writes ∧ line = s!"{read.signature}: {c.message}" ∧
          m'.events.toList =
            m.events.toList ++ [.noticed (.builtinRefused read.name c.message), .reported line] ∧
          ((∀ l ∈ m.input, IsPlain l) → IsPlain line) := by
  refine ⟨m.store.exists_converts m.input qs, fun writes hwrites => ⟨?_, ?_⟩⟩
  · rintro rfl
    rw [List.length_map] at hsteps
    have hread := readInto_append [] hwrites hsteps
    rw [List.append_nil] at hread
    exact ⟨_, invoke_read _ hread, m.reads_reading _ writes m.events, rfl⟩
  · rintro q later c rfl herror
    rw [List.length_append, List.length_map, List.length_cons] at hsteps
    have hread := readInto_of_error later hwrites herror (by omega)
    obtain ⟨events, line, hrefuse, hevents, hline, hplain⟩ :=
      read.refuse_fault c (m.reading (writes.length + 1) writes)
    exact ⟨_, line, (invoke_read _ hread).trans hrefuse, m.reads_reading _ writes events, hline, hevents,
      fun hinput => hplain (Store.isPlain_of_reading (isPlain_inputLine hinput _) herror)⟩

/-- The hypotheses of `reads_up_to_failure` are satisfiable: of two lines for an
integer that comes twice and a string the first is stored, and the second, which
is not there, is no integer. -/
theorem reads_up_to_failure_missing :
    let m : Machine :=
      { store := ⟨#[.plain (.integer 0), .plain (.string "old")]⟩, input := ["5\r"], steps := 3 }
    ∃ m' line, read.invoke ([⟨0, none⟩, ⟨0, none⟩, ⟨1, none⟩].map .reference) m = .ok () m' ∧
      m'.input = [] ∧ m'.events.toList.filterMap Event.report? = [line] ∧
      m'.store.get ⟨0, none⟩ = .scalar (.integer 5) ∧ m'.store.get ⟨1, none⟩ = .scalar (.string "old") := by
  intro m
  have hwrites : m.store.Converts m.input [(⟨0, none⟩, .integer 5)] := by
    intro i w hw
    obtain ⟨rfl, rfl⟩ : i = 0 ∧ w = (⟨0, none⟩, .integer 5) := by
      cases i with
      | zero => exact ⟨rfl, (Option.some.inj hw).symm⟩
      | succ i => cases hw
    decide +kernel
  have hsteps : ([⟨0, none⟩, ⟨0, none⟩, ⟨1, none⟩] : List Place).length ≤ m.steps := by decide
  obtain ⟨m', line, hinvoke, hreads, -, hevents, -⟩ := ((reads_up_to_failure hsteps).2 _ hwrites).2
    ⟨0, none⟩ [⟨1, none⟩] (.notConvertible "" .integer) rfl (by decide +kernel)
  refine ⟨m', line, hinvoke, hreads.input_eq, by rw [hevents]; rfl, ?_, ?_⟩
  · exact hreads.stored.get_last [] ⟨0, none⟩ (.integer 5) [] rfl nofun ⟨by decide, trivial⟩
  · exact hreads.stored.get_eq ⟨1, none⟩ (by decide) ⟨by decide, trivial⟩

end Builtin
end Shank
