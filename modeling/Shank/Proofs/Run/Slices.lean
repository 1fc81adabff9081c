/-
# Parts of a string

`left`, `right` and `substring` store the characters of a string between two
offsets.

| call | from | up to |
| --- | --- | --- |
| `left s, n` | the start | `n`, or the end if that is nearer |
| `right s, n` | `n` before the end, or the start if that is nearer | the end |
| `substring s, i, n` | `i` | `i + n`, or the end if that is nearer |

So each of `left` and `right` is a `substring`, and where one of them stops the
other one may start (`IsSlice.append`). The string may be the one in the
variable that is written to: it is looked up before anything is stored.
-/

import Shank.Proofs.Run.Lossless
import Shank.Proofs.Run.Misuse
import Shank.Proofs.Run.Reports

namespace Shank

/-! ## Characters between two offsets

A slice is told by what is in front of it and how long it is, and not by how it
is taken out of the string.
-/

/-- The characters of `s` from the offset `start` up to the offset `stop`. -/
def IsSlice (s t : String) (start stop : Nat) : Prop :=
  ∀ k, t.toList[k]? = if start + k < stop then s.toList[start + k]? else none

namespace IsSlice

variable {s t u : String} {start stop : Nat}

/-- The characters of a slice, as those of the string up to its stop with the
ones before its start dropped. -/
theorem toList_eq (h : IsSlice s t start stop) : t.toList = (s.toList.take stop).drop start := by
  refine List.ext_getElem? fun k => ?_
  rw [h k, List.getElem?_drop, List.getElem?_take]

/-- There is only one slice between two offsets. -/
theorem unique (ht : IsSlice s t start stop) (hu : IsSlice s u start stop) : t = u :=
  String.toList_injective (ht.toList_eq.trans hu.toList_eq.symm)

/-- Characters that are counted, from an offset on. -/
theorem take_drop (s : String) (i n : Nat) :
    IsSlice s (String.ofList ((s.toList.drop i).take n)) i (min (i + n) s.length) := by
  intro k
  rw [String.toList_ofList, List.getElem?_take, List.getElem?_drop]
  by_cases hn : k < n
  · rw [if_pos hn]
    split
    · rfl
    · refine List.getElem?_eq_none ?_
      rw [String.length_toList]
      omega
  · rw [if_neg hn, if_neg (by omega)]

/-- Characters up to an offset, and those from there on. -/
theorem append (ht : IsSlice s t 0 stop) (hu : IsSlice s u stop s.length) : t ++ u = s := by
  refine String.toList_injective ?_
  rw [String.toList_append, ht.toList_eq, hu.toList_eq, List.drop_zero, ← String.length_toList,
    List.take_length, List.take_append_drop]

end IsSlice

/-- A string variable, or an item of an array of strings, with the range of its
length. -/
structure Store.IsString (s : Store) (q : Place) (lengths : Option Interval) : Prop where
  hasScalar : s.HasScalar q
  tag_get : Store.tag (s.get q) = .scalar .string
  typeAt : s.typeAt? q = some (.string lengths)

namespace Builtin

/-! ## The texts

Each of the three functions has an expression of its own for its text. All of
them are slices.
-/

section Texts

variable (s : String) {n i : Int}

/-- The text of `left` is the slice from the start. -/
theorem exists_leftText (hn : 0 ≤ n) :
    ∃ t, leftText s n = .ok t ∧ IsSlice s t 0 (min n.toNat s.length) := by
  refine ⟨_, if_neg (not_lt.2 hn), ?_⟩
  have h := IsSlice.take_drop s 0 n.toNat
  rwa [List.drop_zero, Nat.zero_add] at h

/-- The text of `right` is the slice up to the end. -/
theorem exists_rightText (hn : 0 ≤ n) :
    ∃ t, rightText s n = .ok t ∧ IsSlice s t (s.length - n.toNat) s.length := by
  refine ⟨_, if_neg (not_lt.2 hn), fun k => ?_⟩
  rw [String.toList_ofList, List.getElem?_drop, String.length_toList]
  split
  · rfl
  · refine List.getElem?_eq_none ?_
    rw [String.length_toList]
    omega

/-- The text of `substring` is the slice from its offset on. -/
theorem exists_sliceText (hi : 0 ≤ i) (hn : 0 ≤ n) :
    ∃ t, sliceText s i n = .ok t ∧ IsSlice s t i.toNat (min (i + n).toNat s.length) := by
  refine ⟨_, if_neg (by omega), ?_⟩
  rw [Int.toNat_add hi hn]
  exact IsSlice.take_drop s i.toNat n.toNat

end Texts

/-! ## Arguments that are read, and a variable for the result

The three functions differ in what they read, and all of them store a text in a
string variable. So the check and the division of the arguments are shown once
for any list of parameters.
-/

variable {b : Builtin} {m : Machine} {q : Place} {text : String}

/-- The parameters that suit arguments, which come with the scalars that they
are. -/
def inputs (given : List (Actual × Scalar)) : List Parameter :=
  given.map fun g => .input g.2.kind

/-- Scalars for its parameters and a variable of the kind of its result suit a
built-in function. -/
theorem checkArguments_inputs {s : Store} {given : List (Actual × Scalar)} {k : Kind}
    (hgiven : ∀ g ∈ given, g.1.operand s = .scalar g.2) (hq : Store.tag (s.get q) = .scalar k)
    (position : Nat) :
    checkArguments s position (inputs given ++ [.output k]) (given.map Prod.fst ++ [.reference q]) =
      none := by
  induction given generalizing position with
  | nil =>
    show checkArguments s position [.output k] [.reference q] = none
    rw [checkArguments, checkArgument_output hq]
    rfl
  | cons g rest ih =>
    show checkArguments s position (.input g.2.kind :: (inputs rest ++ [.output k]))
      (g.1 :: (rest.map Prod.fst ++ [.reference q])) = none
    rw [checkArguments, checkArgument_input (hgiven g List.mem_cons_self)]
    exact ih (fun g' hg' => hgiven g' (List.mem_cons_of_mem g hg')) (position + 1)

/-- **Arguments of the right kinds pass the check**: scalars for what is read,
then a variable for the result. -/
theorem check_inputs (hb : b.isVariadic = false) {s : Store} {given : List (Actual × Scalar)} {k : Kind}
    (hparameters : b.parameters = inputs given ++ [.output k])
    (hgiven : ∀ g ∈ given, g.1.operand s = .scalar g.2) (hq : Store.tag (s.get q) = .scalar k) :
    b.check s (given.map Prod.fst ++ [.reference q]) = none := by
  unfold check
  rw [hb, hparameters, if_neg Bool.false_ne_true, if_neg (by simp [inputs])]
  exact checkArguments_inputs hgiven hq 1

/-- Arguments of the right kinds are divided into their scalars and the place
for the result. -/
theorem divide_inputs {s : Store} {given : List (Actual × Scalar)} {k : Kind}
    (hparameters : b.parameters = inputs given ++ [.output k])
    (hgiven : ∀ g ∈ given, g.1.operand s = .scalar g.2) :
    b.divide s (given.map Prod.fst ++ [.reference q]) =
      (given.map fun g => .scalar g.2, some q) := by
  let pairs : List (Parameter × Actual) := given.map fun g => (.input g.2.kind, g.1)
  have hzip : b.parameters.zip (given.map Prod.fst ++ [.reference q]) =
      pairs ++ [(Parameter.output k, Actual.reference q)] := by
    rw [hparameters, List.zip_append (by simp [inputs]), inputs, List.zip_map']
    rfl
  unfold divide
  rw [hzip]
  dsimp only
  rw [List.filterMap_append, List.filterMap_append]
  simpa [pairs, Parameter.input, Parameter.output, places] using hgiven

/-! ## The calls

What is stored is the slice, if the variable takes a string of that length. The
variable may be the one that the string was read from, as it is read before
anything is stored.
-/

/-- A call stores a text in a string variable, and nothing else. If there is a
range, and the length is out of it, then the call stores nothing, and one line
is told. -/
structure StoresText (b : Builtin) (args : List Actual) (m : Machine) (q : Place)
    (lengths : Option Interval) (t : String) : Prop where
  stored : (∀ r ∈ lengths, r.contains t.length = true) →
    ∃ m', b.invoke args m = .ok () m' ∧ m.store.Sets m'.store q (.string t) ∧
      m' = { m with store := m'.store, steps := m.steps - 1 }
  refused : ∀ r ∈ lengths, r.contains t.length = false →
    ∃ m' line, b.invoke args m = .ok () m' ∧ m' = { m with events := m'.events, steps := m.steps - 1 } ∧
      m'.events.toList = m.events.toList ++
        [.noticed (.builtinRefused b.name (Cause.lengthOutside t.length r).message), .reported line] ∧
      line = s!"{b.signature}: {(Cause.lengthOutside t.length r).message}" ∧ IsPlain line

section Calls

variable {s : String} {n i : Int} {a d c : Actual} {lengths : Option Interval}

/-- What such a function computes from its arguments is stored in the string
variable that it is given. -/
theorem storesText_of_inputs (hb : b ∈ [left, right, substring]) (given : List (Actual × Scalar))
    (hparameters : b.parameters = inputs given ++ [.output .string])
    (hgiven : ∀ g ∈ given, g.1.operand m.store = .scalar g.2) (hq : m.store.IsString q lengths)
    (hsteps : 0 < m.steps) (hresult : b.result m.store (given.map fun g => .scalar g.2) = .ok text) :
    b.StoresText (given.map Prod.fst ++ [.reference q]) m q lengths text := by
  have hnot : b.isVariadic = false ∧ b ∉ [read, write, getRandom] := by
    revert hb
    cases b <;> decide
  have hinvoke := invoke_of_result hnot.2 (check_inputs hnot.1 hparameters hgiven hq.tag_get)
    (divide_inputs hparameters hgiven) hresult hsteps
  have hreading : m.store.reading q text = (ScalarType.string lengths).check (.string text) := by
    rw [Store.reading, hq.typeAt]
    rfl
  rw [hreading] at hinvoke
  refine ⟨fun hfits => ?_, fun r hr hout => ?_⟩
  · rw [ScalarType.check_of_holds] at hinvoke
    · exact ⟨_, hinvoke, hq.hasScalar.sets_put (.string text), rfl⟩
    · intro r hr
      simpa [Interval.contains] using hfits r hr
  · obtain rfl : lengths = some r := hr
    have hcheck' : (ScalarType.string (some r)).check (.string text) = .error (.lengthOutside text.length r) :=
      if_neg (by rw [hout]; decide)
    rw [hcheck'] at hinvoke
    obtain ⟨events, line, hrefuse, hevents, hline, hplain⟩ :=
      b.refuse_fault (.lengthOutside text.length r) { m with steps := m.steps - 1 }
    exact ⟨_, line, hinvoke.trans hrefuse, rfl, hevents, hline, hplain (ScalarType.isPlain_of_check hcheck')⟩

/-- **`left`, `right` and `substring` store parts of a string.** Take a string,
a length and an offset that are not negative, and a string variable, which may
be the one that the string is in. `left` stores the first characters, `right`
the last ones, and `substring` those from the offset on, as many as the length
says or as there are. The first ones are also what `substring` stores from the
offset 0, the last ones what it stores from as far before the end as the length
says, or from the start. What `left` stores, followed by what `right` stores for
the rest of the length, is the string. A variable with a range is written to
only if the length of the part is in it (`StoresText`). -/
theorem slices_stored (ha : a.operand m.store = .scalar (.string s))
    (hd : d.operand m.store = .scalar (.integer n)) (hc : c.operand m.store = .scalar (.integer i))
    (hn : 0 ≤ n) (hi : 0 ≤ i) (hq : m.store.IsString q lengths) (hsteps : 0 < m.steps) :
    ∃ t u v,
      (IsSlice s t 0 (min n.toNat s.length) ∧
        left.StoresText [a, d, .reference q] m q lengths t) ∧
      (IsSlice s u (s.length - n.toNat) s.length ∧
        right.StoresText [a, d, .reference q] m q lengths u) ∧
      (IsSlice s v i.toNat (min (i + n).toNat s.length) ∧
        substring.StoresText [a, c, d, .reference q] m q lengths v) ∧
      (i = 0 → v = t) ∧ (i = max (s.length - n) 0 → v = u) ∧
      ∀ rest : Actual, rest.operand m.store = .scalar (.integer (s.length - n)) → n ≤ s.length →
        ∃ w, right.StoresText [a, rest, .reference q] m q lengths w ∧ t ++ w = s := by
  obtain ⟨t, htext, ht⟩ := exists_leftText s hn
  obtain ⟨u, hutext, hu⟩ := exists_rightText s hn
  obtain ⟨v, hvtext, hv⟩ := exists_sliceText s hi hn
  have htwo {e : Actual} {k : Int} (he : e.operand m.store = .scalar (.integer k)) :
      ∀ g ∈ [(a, Scalar.string s), (e, .integer k)], g.1.operand m.store = .scalar g.2 := by
    simp [ha, he]
  have hthree : ∀ g ∈ [(a, Scalar.string s), (c, .integer i), (d, .integer n)],
      g.1.operand m.store = .scalar g.2 := by
    simp [ha, hc, hd]
  refine ⟨t, u, v, ⟨ht, ?_⟩, ⟨hu, ?_⟩, ⟨hv, ?_⟩, ?_, ?_, fun rest hrest hle => ?_⟩
  · exact storesText_of_inputs (by decide) _ rfl (htwo hd) hq hsteps htext
  · exact storesText_of_inputs (by decide) _ rfl (htwo hd) hq hsteps hutext
  · exact storesText_of_inputs (by decide) _ rfl hthree hq hsteps hvtext
  · rintro rfl
    rw [Int.zero_add] at hv
    exact hv.unique ht
  · intro hstart
    have hoffset : i.toNat = s.length - n.toNat := by omega
    have hend : s.length ≤ (i + n).toNat := by omega
    rw [hoffset, min_eq_right hend] at hv
    exact hv.unique hu
  · obtain ⟨w, hwtext, hw⟩ := exists_rightText s (n := s.length - n) (by omega)
    refine ⟨w, storesText_of_inputs (by decide) _ rfl (htwo hrest) hq hsteps hwtext, ?_⟩
    have hstop : min n.toNat s.length = s.length - ((s.length : Int) - n).toNat := by omega
    rw [← hstop] at hw
    exact ht.append hw

/-- The hypotheses of `slices_stored` are satisfiable: the first two characters
of a string are stored in the variable that it is in, and so are the last two. -/
theorem slices_stored_own :
    let q : Place := ⟨0, none⟩
    let m : Machine := { store := ⟨#[.scalar (.string (some ⟨0, 3⟩)) (.string "wör")]⟩, steps := 1 }
    (∃ m', left.invoke [.reference q, .value (.scalar (.integer 2)), .reference q] m = .ok () m' ∧
      m'.store.get q = .scalar (.string "wö")) ∧
    ∃ m', right.invoke [.reference q, .value (.scalar (.integer 2)), .reference q] m = .ok () m' ∧
      m'.store.get q = .scalar (.string "ör") := by
  intro q m
  have hq : m.store.IsString q (some ⟨0, 3⟩) := ⟨⟨by decide, trivial⟩, rfl, rfl⟩
  have hfits {t : String} (h : t.length = 2) : ∀ r ∈ some (⟨0, 3⟩ : Interval), r.contains t.length = true := by
    rintro r ⟨⟩
    rw [h]
    decide
  obtain ⟨t, u, v, ⟨ht, hleft⟩, ⟨hu, hright⟩, -⟩ := slices_stored (a := .reference q)
    (d := .value (.scalar (.integer 2))) (c := .value (.scalar (.integer 1))) rfl rfl rfl (by decide)
    (by decide) hq (by decide)
  obtain rfl : t = "wö" := String.toList_injective (ht.toList_eq.trans (by decide))
  obtain rfl : u = "ör" := String.toList_injective (hu.toList_eq.trans (by decide))
  obtain ⟨m', hinvoke, hsets, -⟩ := hleft.stored (hfits (by decide))
  obtain ⟨m'', hinvoke', hsets', -⟩ := hright.stored (hfits (by decide))
  exact ⟨⟨m', hinvoke, hsets.get_self⟩, m'', hinvoke', hsets'.get_self⟩

end Calls

end Builtin
end Shank
