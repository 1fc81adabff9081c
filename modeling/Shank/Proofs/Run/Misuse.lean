/-
# Misused built-in functions

A built-in function never stops a run with a fault. When it is misused it tells
so in one line of report and prints nothing, and it leaves the store as it was,
with one exception:

| | what is left in the store |
| --- | --- |
| the arguments do not suit the parameters | what was there |
| a text cannot be made, or does not fit into the place for it | what was there |
| a line that `read` is given does not fit | the lines before it, each at its place |

So `read` with one place is all or nothing, and with more of them it is not.
-/

import Shank.Proofs.Run.Faults
import Shank.Proofs.Run.Storing

namespace Shank

/-- The line that is read next from some input; past the end it is empty. -/
def nextLine : List String → String
  | [] => ""
  | line :: _ => Text.chomped line

/-- Lines of input are stored at places, one line to a place, and what is left
then. -/
inductive Store.Reads : Store → List String → List Place → Store → List String → Prop
  | nil {s : Store} {input : List String} : Reads s input [] s input
  | cons {s t : Store} {input rest : List String} {q : Place} {qs : List Place} {v : Scalar} :
    s.reading q (nextLine input) = .ok v → Reads (s.put q v) input.tail qs t rest →
      Reads s input (q :: qs) t rest

/-- Where nothing is read the store stays as it is. -/
theorem Store.Reads.eq_of_nil {s t : Store} {input rest : List String}
    (h : s.Reads input [] t rest) : t = s := by
  cases h
  rfl

namespace Run

/-- What taking a line does: the first line of the input is given, and the rest
is left. -/
theorem readLine_apply (m : Machine) :
    readLine m = .ok (nextLine m.input) { m with input := m.input.tail } := by
  obtain ⟨store, input, events, activations, random, steps⟩ := m
  cases input with
  | nil => rfl
  | cons line rest => rfl

/-- Drawing a number changes nothing but what is left of the random numbers. -/
theorem draw_apply (low high : Int) (m : Machine) :
    ∃ n random, draw low high m = .ok n { m with random } :=
  ⟨(m.random.between low high).1, (m.random.between low high).2, rfl⟩

end Run

namespace Builtin

open Run

variable {b : Builtin} {args : List Actual} {m m' : Machine}

/-! ## What a built-in does

A built-in function either prints, or stores a result, or is refused, and each
of these is told by what it leaves in the store and in the record of events.
-/

/-- Some places that lines are stored at, and one at which the next line does
not fit. -/
def ReadsUpTo (m m' : Machine) (earlier : List Place) (q : Place) (c : Cause) : Prop :=
  ∃ rest, m.store.Reads m.input earlier m'.store rest ∧
    m'.store.reading q (nextLine rest) = .error c

/-- **What reading lines comes to**: they all fit, or those before one that does
not. Nothing is printed or told. -/
theorem readInto_ok {qs : List Place} {o : Option Problem} (h : readInto qs m = .ok o m') :
    m'.events = m.events ∧
      ((o = none ∧ m.store.Reads m.input qs m'.store m'.input) ∨
        ∃ earlier q later c, qs = earlier ++ q :: later ∧ ReadsUpTo m m' earlier q c ∧
          o = some (.fault c)) := by
  induction qs generalizing m with
  | nil =>
    cases h
    exact ⟨rfl, .inl ⟨rfl, .nil⟩⟩
  | cons q rest ih =>
    unfold readInto at h
    rw [bind_eq (readLine_apply m)] at h
    obtain ⟨o₁, m₁, hwrite, hrest⟩ := bind_ok h
    obtain ⟨hevents, hinput, ⟨v, rfl, hreading, hstore⟩ | ⟨c, rfl, hreading, hstore⟩⟩ :=
      tryWrite_ok hwrite
    · obtain ⟨hevents', hall | ⟨earlier, r, later, c, rfl, ⟨input, hreads, hlast⟩, rfl⟩⟩ := ih hrest
      · rw [hstore, hinput] at hall
        exact ⟨hevents'.trans hevents, .inl ⟨hall.1, .cons hreading hall.2⟩⟩
      · rw [hstore, hinput] at hreads
        exact ⟨hevents'.trans hevents, .inr ⟨q :: earlier, r, later, c, rfl,
          ⟨input, .cons hreading hreads, hlast⟩, rfl⟩⟩
    -- this line does not fit, so none before it was the first
    · cases hrest
      refine ⟨hevents, .inr ⟨[], q, rest, c, rfl, ⟨m.input, ?_, ?_⟩, rfl⟩⟩
      · rw [hstore]
        exact .nil
      · rw [hstore]
        exact hreading

/-- What storing a result comes to: a result that does not fit changes nothing. -/
theorem storeResult_ok {q : Place} {x : Except Problem String} {o : Option Problem}
    (h : storeResult q x m = .ok o m') :
    m'.events = m.events ∧ (o ≠ none → m'.store = m.store) := by
  cases x with
  | error problem =>
    cases h
    exact ⟨rfl, fun _ => rfl⟩
  | ok text =>
    obtain ⟨o₁, m₁, hwrite, hrest⟩ := bind_ok h
    cases hrest
    obtain ⟨hevents, -, ⟨v, rfl, -⟩ | ⟨c, rfl, -, hstore⟩⟩ := tryWrite_ok hwrite
    · exact ⟨hevents, fun h => absurd rfl h⟩
    · exact ⟨hevents, fun _ => hstore⟩

/-- What is left in the store when something is wrong: what was there, or for
`read` with more than one place the lines that fitted. -/
def Remains (b : Builtin) (args : List Actual) (m m' : Machine) : Prop :=
  m'.store = m.store ∨
    b = .read ∧ ∃ earlier q later c, places args = earlier ++ q :: later ∧ earlier ≠ [] ∧
      ReadsUpTo m m' earlier q c

/-- Lines of output were printed, and nothing was told. -/
def Prints (m m' : Machine) : Prop :=
  ∃ lines : List String, m'.events.toList = m.events.toList ++ lines.map Event.printed

/-- Where nothing happened, no lines of output were printed: an empty list of
them. -/
theorem prints_of_eq (h : m'.events = m.events) : Prints m m' :=
  ⟨[], by rw [h, List.map_nil, List.append_nil]⟩

/-- What a built-in comes to whose arguments suit: it prints, or something is
wrong and it does not. -/
theorem perform_ok {o : Option Problem} (h : b.perform args m = .ok o m') :
    Prints m m' ∧ (o ≠ none → m'.events = m.events ∧ Remains b args m m') := by
  -- a result is stored whole or not at all
  have hstored {q : Place} {x : Except Problem String} {m₁ : Machine}
      (h : storeResult q x m₁ = .ok o m') (hm₁ : m₁.store = m.store)
      (hevents₁ : m₁.events = m.events) :
      Prints m m' ∧ (o ≠ none → m'.events = m.events ∧ Remains b args m m') := by
    obtain ⟨hevents, hstore⟩ := storeResult_ok h
    rw [hevents₁] at hevents
    exact ⟨prints_of_eq hevents, fun ho => ⟨hevents, .inl ((hstore ho).trans hm₁)⟩⟩
  obtain ⟨s, m₁, hs, hrest⟩ := bind_ok h
  cases hs
  cases b with
  | read =>
    obtain ⟨hevents, ⟨rfl, -⟩ | ⟨earlier, q, later, c, hplaces, hreads, rfl⟩⟩ := readInto_ok hrest
    · exact ⟨prints_of_eq hevents, fun h => absurd rfl h⟩
    · refine ⟨prints_of_eq hevents, fun _ => ⟨hevents, ?_⟩⟩
      by_cases hearlier : earlier = []
      · -- the first line did not fit, so nothing was stored before it
        obtain ⟨rest, hnone, -⟩ := hreads
        rw [hearlier] at hnone
        exact .inl hnone.eq_of_nil
      · exact .inr ⟨rfl, earlier, q, later, c, hplaces, hearlier, hreads⟩
  | write =>
    obtain ⟨u, m₂, hrecord, hpure⟩ := bind_ok hrest
    cases hrecord
    cases hpure
    refine ⟨⟨[" ".intercalate (args.map fun a => m.store.text (a.operand m.store))], ?_⟩,
      fun h => absurd rfl h⟩
    simp only [Array.toList_push, List.map_cons, List.map_nil]
  | getRandom =>
    dsimp only at hrest
    generalize (divide .getRandom m.store args).2 = output at hrest
    cases output with
    | some q =>
      obtain ⟨n, random, hdraw⟩ := draw_apply (drawRange m.store q).low (drawRange m.store q).high m
      dsimp only at hrest
      rw [bind_eq hdraw] at hrest
      exact hstored hrest rfl rfl
    | none =>
      cases hrest
      exact ⟨prints_of_eq rfl, fun h => absurd rfl h⟩
  | _ =>
    dsimp only at hrest
    generalize divide _ m.store args = division at hrest
    obtain ⟨operands, _ | q⟩ := division
    · cases hrest
      exact ⟨prints_of_eq rfl, fun h => absurd rfl h⟩
    · exact hstored hrest rfl rfl

/-! ## How long it takes

A built-in takes a step for each text that it stores, and has an argument for
each of these.
-/

/-- Lines are read to an end if there is a step for each place, else the run
stops unfinished. -/
theorem readInto_ends (qs : List Place) (m : Machine) :
    (∃ o m', readInto qs m = .ok o m') ∨
      m.steps < qs.length ∧ ∃ m', readInto qs m = .error .unfinished m' := by
  induction qs generalizing m with
  | nil => exact .inl ⟨none, m, rfl⟩
  | cons q rest ih =>
    have hread := readLine_apply m
    unfold readInto
    rw [bind_eq hread]
    rcases tryWrite_ends q (nextLine m.input) { m with input := m.input.tail } with
      ⟨o, m₁, hwrite, hsteps⟩ | ⟨hsteps, m₁, hwrite⟩
    -- a line that does not fit ends the reading, a step is taken for one that does
    · rw [bind_eq hwrite]
      cases o with
      | some c => exact .inl ⟨_, _, rfl⟩
      | none =>
        refine (ih m₁).imp_right fun ⟨hlt, hstuck⟩ => ⟨?_, hstuck⟩
        have hsteps' : m.steps ≤ m₁.steps + 1 := hsteps
        rw [List.length_cons]
        omega
    · refine .inr ⟨?_, m₁, ?_⟩
      · have hsteps' : m.steps = 0 := hsteps
        rw [List.length_cons]
        omega
      · rw [bind_apply, hwrite]

/-- A result is stored, or told not to fit, if there is a step for it. -/
theorem storeResult_ends (q : Place) (x : Except Problem String) (m : Machine) :
    (∃ o m', storeResult q x m = .ok o m') ∨
      m.steps = 0 ∧ ∃ m', storeResult q x m = .error .unfinished m' := by
  cases x with
  | error problem => exact .inl ⟨_, _, rfl⟩
  | ok text =>
    have hresult : storeResult q (.ok text) =
        tryWrite q text >>= fun o => pure (o.map Problem.fault) := rfl
    rw [hresult]
    rcases tryWrite_ends q text m with ⟨o, m₁, hwrite, -⟩ | ⟨hsteps, m₁, hwrite⟩
    · rw [bind_eq hwrite]
      exact .inl ⟨_, _, rfl⟩
    · refine .inr ⟨hsteps, m₁, ?_⟩
      rw [bind_apply, hwrite]

/-- There are no more places than arguments. -/
theorem length_places_le (args : List Actual) : (places args).length ≤ args.length :=
  List.length_filterMap_le ..

/-- A built-in whose arguments suit takes at most as many steps as it has
arguments. -/
theorem perform_ends (b : Builtin) (args : List Actual) (m : Machine) :
    (∃ o m', b.perform args m = .ok o m') ∨
      m.steps < args.length ∧ ∃ m', b.perform args m = .error .unfinished m' := by
  -- a result takes one step, and its place is among the arguments
  have hstored {q : Place} (hq : (b.divide m.store args).2 = some q) (x : Except Problem String)
      {m₁ : Machine} (hm₁ : m₁.steps = m.steps) :
      (∃ o m', storeResult q x m₁ = .ok o m') ∨
        m.steps < args.length ∧ ∃ m', storeResult q x m₁ = .error .unfinished m' := by
    refine (storeResult_ends q x m₁).imp_right fun ⟨hsteps, hstuck⟩ => ⟨?_, hstuck⟩
    have hpos := List.length_pos_of_mem (mem_of_divide hq)
    omega
  have hstore : Run.store m = .ok m.store m := rfl
  unfold perform
  rw [bind_eq hstore]
  cases b with
  | read =>
    refine (readInto_ends (places args) m).imp_right fun ⟨hsteps, hstuck⟩ => ⟨?_, hstuck⟩
    exact hsteps.trans_le (length_places_le args)
  | write => exact .inl ⟨_, _, rfl⟩
  | getRandom =>
    dsimp only
    cases houtput : (divide .getRandom m.store args).2 with
    | some q =>
      obtain ⟨n, random, hdraw⟩ := draw_apply (drawRange m.store q).low (drawRange m.store q).high m
      dsimp only
      rw [bind_eq hdraw]
      exact hstored houtput _ rfl
    | none => exact .inl ⟨_, _, rfl⟩
  | _ =>
    dsimp only
    generalize hdivide : divide _ m.store args = division
    obtain ⟨operands, _ | q⟩ := division
    · exact .inl ⟨_, _, rfl⟩
    · exact hstored (congrArg Prod.snd hdivide) _ rfl

/-- The events of a refusal: a notice, and one line of report. -/
def refusal (b : Builtin) (problem : Problem) : List Event :=
  [.noticed (.builtinRefused b.name problem.message),
    .reported s!"{b.signature}: {problem.message}"]

/-- A refusal leaves the store alone and records its one line of report. -/
theorem refuse_apply (b : Builtin) (problem : Problem) (m : Machine) :
    ∃ m', b.refuse problem m = .ok () m' ∧ m'.store = m.store ∧
      m'.events.toList = m.events.toList ++ b.refusal problem := by
  refine ⟨_, rfl, rfl, ?_⟩
  simp only [Array.toList_push, List.append_assoc]
  rfl

/-- A scalar passes the check for what is read of its kind. -/
theorem checkArgument_input {s : Store} {a : Actual} {v : Scalar} (ha : a.operand s = .scalar v)
    (position : Nat) : checkArgument s position (.input v.kind) a = none := by
  simp [checkArgument, Parameter.input, ha, Store.tag]

/-- A place passes the check for what is written if it holds the kind that is
asked for. -/
theorem checkArgument_output {s : Store} {q : Place} {k : Kind} (hq : Store.tag (s.get q) = .scalar k)
    (position : Nat) : checkArgument s position (.output k) (.reference q) = none := by
  simp [checkArgument, Parameter.output, Actual.operand, hq, Actual.isReference]

/-- A built-in function that computes a text stores it, or tells why not. Either
way it takes one step, and of the machine nothing else is changed. -/
theorem invoke_of_result (hb : b ∉ [read, write, getRandom]) (hcheck : b.check m.store args = none)
    {operands : List Operand} {q : Place} {text : String}
    (hdivide : b.divide m.store args = (operands, some q))
    (hresult : b.result m.store operands = .ok text) (hsteps : 0 < m.steps) :
    b.invoke args m = match m.store.reading q text with
      | .ok v => .ok () { m with store := m.store.put q v, steps := m.steps - 1 }
      | .error c => b.refuse (.fault c) { m with steps := m.steps - 1 } := by
  obtain ⟨steps, hsucc⟩ := Nat.exists_eq_add_one.2 hsteps
  have hperform : b.perform args m = storeResult q (.ok text) m := by
    unfold perform
    rw [bind_eq (x := Run.store) rfl]
    cases b with
    | read | write | getRandom => exact absurd (by decide) hb
    | left | right | substring | squareRoot | integerToReal | realToInteger | start | end_ =>
      dsimp only
      rw [hdivide]
      dsimp only
      rw [hresult]
  have hleft : m.steps - 1 = steps := Nat.sub_eq_of_eq_add hsucc
  unfold invoke
  rw [bind_eq (x := Run.store) rfl, hcheck]
  dsimp only
  rw [bind_apply, hperform, storeResult, bind_apply, tryWrite_apply q text hsucc, hleft]
  cases m.store.reading q text <;> rfl

/-- **A built-in function comes to an end**, in at most as many steps as it has
arguments. -/
theorem invoke_ends (b : Builtin) (args : List Actual) (m : Machine) :
    (∃ m', b.invoke args m = .ok () m') ∨
      m.steps < args.length ∧ ∃ m', b.invoke args m = .error .unfinished m' := by
  have hstore : Run.store m = .ok m.store m := rfl
  unfold invoke
  rw [bind_eq hstore]
  cases hcheck : b.check m.store args with
  | some problem =>
    obtain ⟨m₁, hrefuse, -⟩ := refuse_apply b problem m
    exact .inl ⟨m₁, hrefuse⟩
  | none =>
    dsimp only
    rcases b.perform_ends args m with ⟨o, m₁, hperform⟩ | ⟨hsteps, m₁, hstuck⟩
    · rw [bind_eq hperform]
      cases o with
      | none => exact .inl ⟨m₁, rfl⟩
      | some problem =>
        obtain ⟨m₂, hrefuse, -⟩ := refuse_apply b problem m₁
        exact .inl ⟨m₂, hrefuse⟩
    · rw [bind_apply, hstuck]
      exact .inr ⟨hsteps, m₁, rfl⟩

/-- What a built-in function leaves behind: it printed, or it was refused. -/
theorem invoke_ok (h : b.invoke args m = .ok () m') :
    Prints m m' ∨ ∃ problem,
      m'.events.toList = m.events.toList ++ b.refusal problem ∧ Remains b args m m' := by
  have hstore : Run.store m = .ok m.store m := rfl
  unfold invoke at h
  rw [bind_eq hstore] at h
  cases hcheck : b.check m.store args with
  | some problem =>
    rw [hcheck] at h
    obtain ⟨m₁, hrefuse, hkeeps, hevents⟩ := refuse_apply b problem m
    dsimp only at h
    rw [hrefuse] at h
    cases h
    exact .inr ⟨problem, hevents, .inl hkeeps⟩
  -- the arguments suit, so what is wrong is found on the way
  | none =>
    rw [hcheck] at h
    obtain ⟨o, m₁, hperform, hrest⟩ := bind_ok h
    obtain ⟨hprints, hwrong⟩ := perform_ok hperform
    cases o with
    | none =>
      cases hrest
      exact .inl hprints
    | some problem =>
      obtain ⟨hevents₁, hremains⟩ := hwrong (by simp)
      obtain ⟨m₂, hrefuse, hkeeps, hevents⟩ := refuse_apply b problem m₁
      dsimp only at hrest
      rw [hrefuse] at hrest
      cases hrest
      refine .inr ⟨problem, by rw [hevents, hevents₁], ?_⟩
      unfold Remains ReadsUpTo
      rw [hkeeps]
      exact hremains

/-- **A misused built-in function tells once, and does nothing else**, except
that `read` keeps the lines that fitted before one that does not. No fault ever
comes of it, and it comes to an end. -/
theorem invoke_misuse (b : Builtin) (args : List Actual) (m : Machine) :
    ((∃ m', b.invoke args m = .ok () m') ∨
      m.steps < args.length ∧ ∃ m', b.invoke args m = .error .unfinished m') ∧
    ∀ m', b.invoke args m = .ok () m' →
      Prints m m' ∨ ∃ problem,
        m'.events.toList = m.events.toList ++ b.refusal problem ∧ Remains b args m m' :=
  ⟨b.invoke_ends args m, fun _ h => invoke_ok h⟩

/-- Two integer variables, and two lines of which only the first is an integer. -/
def readingMachine : Machine :=
  { store := ⟨#[.plain (.integer 0), .plain (.integer 0)]⟩, input := ["5", "abc"] }

/-- Both variables of `readingMachine`, passed with `var`. -/
def readingArgs : List Actual :=
  [.reference ⟨0, none⟩, .reference ⟨1, none⟩]

/-- A refused call may leave an argument changed: `read` tells that the second
line is no integer, and keeps the first one. -/
theorem read_keeps_first :
    ∃ m', read.invoke readingArgs readingMachine = .ok () m' ∧
      m'.events.toList = read.refusal (.fault (.notConvertible "abc" .integer)) ∧
      m'.store.get ⟨0, none⟩ = .scalar (.integer 5) ∧
      readingMachine.store.get ⟨0, none⟩ = .scalar (.integer 0) := by
  refine ⟨_, rfl, ?_, ?_, rfl⟩
  · decide +kernel
  · decide +kernel

/-- The hypothesis of `invoke_misuse` is satisfiable: this call comes to an end,
and what it leaves is told. -/
theorem invoke_misuse_read :
    ∃ m', read.invoke readingArgs readingMachine = .ok () m' ∧
      (Prints readingMachine m' ∨ ∃ problem,
        m'.events.toList = readingMachine.events.toList ++ read.refusal problem ∧
          Remains .read readingArgs readingMachine m') := by
  refine ⟨_, rfl, ?_⟩
  exact (invoke_misuse read readingArgs readingMachine).2 _ rfl

end Builtin
end Shank
