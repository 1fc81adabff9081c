/-
# What a program defines

A program is a list of functions, and what counts about it is the names in their
order (`names`) and the function of each name (`find?`). Two programs without a
name twice are equal if they have both in common (`Program.ext_of_find`).

| program | names | function of a name |
| --- | --- | --- |
| `p.insert f` | those of `p`, then that of `f` if it is new | `f` for its name, else that of `p` |
| `p.merge q` | those of `p`, then those of `q` that are new | that of `q` if there is one, else that of `p` |
| `ofList fs` | those of `fs`, each where it is first | the last of `fs` |
-/

import Shank.Syntax
import Mathlib.Data.List.Induction
import Mathlib.Data.List.Nodup

namespace Shank
namespace Program

variable {p q : Program} {f : Function} {fs gs : List Function} {name : String}

/-- The names of the functions, in order. -/
def names (p : Program) : List String :=
  p.functions.map Function.name

/-- A program has a function of a name if the name is one of its names. -/
theorem contains_iff : p.contains name = true ↔ name ∈ p.names := by
  simp [contains, names]

/-- What is found under a name has this name. -/
theorem find?_name (h : p.find? name = some f) : f.name = name := by
  simpa using List.find?_some h

/-- Nothing is found under a name exactly if it is none of the names. -/
theorem find?_eq_none_iff : p.find? name = none ↔ name ∉ p.names := by
  simp [find?, names]

/-- A function is found by its name, if no other one has it. -/
theorem find?_of_mem (hnames : p.names.Nodup) (hf : f ∈ p.functions) : p.find? f.name = some f := by
  obtain ⟨fs⟩ := p
  simp only [find?, names] at *
  induction fs with
  | nil => cases hf
  | cons g rest ih =>
    rw [List.map_cons, List.nodup_cons] at hnames
    rcases List.mem_cons.1 hf with rfl | hf
    · simp
    · have hne : g.name ≠ f.name := fun e => hnames.1 (e ▸ List.mem_map_of_mem hf)
      rw [List.find?_cons_of_neg (by simpa using hne)]
      exact ih hnames.2 hf

/-- Where no name comes twice, what is found under a name is the function of
this name. -/
theorem find?_iff (hnames : p.names.Nodup) :
    p.find? name = some f ↔ f ∈ p.functions ∧ f.name = name := by
  constructor
  · exact fun h => ⟨List.mem_of_find?_eq_some h, find?_name h⟩
  · rintro ⟨hf, rfl⟩
    exact find?_of_mem hnames hf

/-- **Programs are told apart by their names and the functions of these.** -/
theorem ext_of_find (hp : p.names.Nodup) (hnames : p.names = q.names)
    (hfind : ∀ name ∈ p.names, p.find? name = q.find? name) : p = q := by
  have hq : q.names.Nodup := hnames ▸ hp
  obtain ⟨fs⟩ := p
  obtain ⟨gs⟩ := q
  have hlength : fs.length = gs.length := by
    simpa [names] using congrArg List.length hnames
  congr 1
  refine List.ext_getElem hlength fun i hi hi' => ?_
  have hname : fs[i].name = gs[i].name := by
    have := congrArg (·[i]?) hnames
    simpa [names, hi, hi'] using this
  have hfs := find?_of_mem hp (List.getElem_mem hi)
  have hgs := find?_of_mem hq (List.getElem_mem hi')
  rw [hfind _ (List.mem_map_of_mem (List.getElem_mem hi)), hname, hgs] at hfs
  exact (Option.some.inj hfs).symm

/-! ## Functions that are added

A program is a list of functions without two of one name. To add one puts it in
the place of the one of its name, or behind the others.
-/

/-- A function of a name that is there comes in the place of the other one. -/
theorem insert_of_mem (h : f.name ∈ p.names) :
    p.insert f = ⟨p.functions.map fun g => if g.name = f.name then f else g⟩ :=
  if_pos (contains_iff.2 h)

/-- A function of a new name comes behind the others. -/
theorem insert_of_not_mem (h : f.name ∉ p.names) : p.insert f = ⟨p.functions ++ [f]⟩ :=
  if_neg (mt contains_iff.1 h)

/-- The function of a name takes over the name. -/
theorem name_replace (f g : Function) : (if g.name = f.name then f else g).name = g.name := by
  split
  · exact Eq.symm ‹_›
  · rfl

/-- **How a function that is added changes the names**: a new one comes behind,
one that is there stays in its place. -/
theorem names_insert :
    (p.insert f).names = if f.name ∈ p.names then p.names else p.names ++ [f.name] := by
  split
  · rw [insert_of_mem ‹_›, names, names, List.map_map]
    exact List.map_congr_left fun g _ => name_replace f g
  · rw [insert_of_not_mem ‹_›, names, names, List.map_append]
    rfl

/-- **How a function that is added changes what is found**: it is found under
its name, and everything else as before. -/
theorem find?_insert :
    (p.insert f).find? name = if name = f.name then some f else p.find? name := by
  by_cases h : f.name ∈ p.names
  · have hreplace : (p.insert f).find? name =
        (p.find? name).map fun g => if g.name = f.name then f else g := by
      rw [insert_of_mem h, find?, find?, List.find?_map]
      simp only [Function.comp_def, name_replace]
    rw [hreplace]
    cases hfind : p.find? name with
    | none =>
      rw [if_neg (by rintro rfl; exact find?_eq_none_iff.1 hfind h)]
      rfl
    | some g =>
      rw [Option.map_some, find?_name hfind]
      split <;> rfl
  · rw [insert_of_not_mem h, find?, List.find?_append, ← find?, List.find?_singleton]
    by_cases hname : name = f.name
    · rw [find?_eq_none_iff.2 (hname ▸ h), if_pos hname, if_pos (by simp [hname])]
      rfl
    · rw [if_neg hname, if_neg (by simpa using Ne.symm hname), Option.or_none]

/-! ## Definitions in a row

A list of definitions is put into a program one by one. So each name has its
last definition, at the position of the first.
-/

/-- To merge one function more, add it behind the others. -/
theorem merge_concat : p.merge ⟨fs ++ [f]⟩ = (p.merge ⟨fs⟩).insert f :=
  List.foldl_concat ..

/-- One definition more is one function added. -/
theorem ofList_concat : ofList (fs ++ [f]) = (ofList fs).insert f :=
  List.foldl_concat ..

/-- Definitions behind others are merged into the program of these. -/
theorem ofList_append : ofList (fs ++ gs) = (ofList fs).merge ⟨gs⟩ :=
  List.foldl_append

/-- The last definition of a name counts. -/
theorem find?_merge_list :
    (p.merge ⟨fs⟩).find? name = (fs.reverse.find? fun f => f.name == name).or (p.find? name) := by
  induction fs using List.reverseRecOn with
  | nil => rfl
  | append_singleton fs f ih =>
    rw [merge_concat, find?_insert, ih, List.reverse_append, List.reverse_singleton,
      List.singleton_append, List.find?_cons]
    by_cases hname : f.name = name
    · simp [hname]
    · rw [if_neg (Ne.symm hname), beq_eq_false_iff_ne.2 hname]

/-- **The last definition of a name counts.** -/
theorem find?_ofList : (ofList fs).find? name = fs.reverse.find? fun f => f.name == name :=
  find?_merge_list.trans Option.or_none

/-- A name more behind others comes in if it is new. -/
theorem eraseDups_concat (names : List String) (name : String) :
    (names ++ [name]).eraseDups =
      if name ∈ names then names.eraseDups else names.eraseDups ++ [name] := by
  rw [List.eraseDups_append]
  split <;> simp [List.removeAll, *, List.eraseDups_cons]

/-- Where no name comes twice, none is left out. -/
theorem eraseDups_of_nodup {names : List String} (h : names.Nodup) : names.eraseDups = names := by
  induction names using List.reverseRecOn with
  | nil => rfl
  | append_singleton names name ih =>
    obtain ⟨hname, hnames⟩ : name ∉ names ∧ names.Nodup :=
      List.nodup_cons.1 (List.nodup_append_comm.1 h)
    rw [eraseDups_concat, if_neg hname, ih hnames]

/-- The first definition of a name gives its position. -/
theorem names_merge_list :
    (p.merge ⟨fs⟩).names = p.names ++ ((fs.map Function.name).filter (· ∉ p.names)).eraseDups := by
  induction fs using List.reverseRecOn with
  | nil => exact (List.append_nil _).symm
  | append_singleton fs f ih =>
    rw [merge_concat, names_insert, ih, List.map_append, List.filter_append]
    by_cases hp : f.name ∈ p.names
    · simp [hp]
    · rw [List.map_singleton, List.filter_cons_of_pos (by simpa using hp), List.filter_nil,
        eraseDups_concat]
      simp only [List.mem_append, List.mem_eraseDups, List.mem_filter, decide_eq_true_eq, hp,
        not_false_eq_true, and_true, false_or]
      split
      · rfl
      · exact List.append_assoc ..

/-- **The names of definitions in a row** are theirs, each where it comes first. -/
theorem names_ofList : (ofList fs).names = (fs.map Function.name).eraseDups := by
  refine (names_merge_list (p := {})).trans ?_
  simp [names]

/-- To add a function leaves no name twice. -/
theorem nodup_insert (h : p.names.Nodup) : (p.insert f).names.Nodup := by
  rw [names_insert]
  split
  · exact h
  · exact List.nodup_append_comm.1 (h.cons ‹_›)

/-- To merge functions leaves no name twice. -/
theorem nodup_merge (h : p.names.Nodup) : (p.merge ⟨fs⟩).names.Nodup := by
  induction fs using List.reverseRecOn with
  | nil => exact h
  | append_singleton fs f ih => exact merge_concat ▸ nodup_insert ih

/-- No program that is built from definitions has a name twice. -/
theorem nodup_ofList (fs : List Function) : (ofList fs).names.Nodup :=
  nodup_merge (p := {}) List.nodup_nil

/-- Different functions keep their order. -/
theorem ofList_of_nodup (h : (fs.map Function.name).Nodup) : ofList fs = ⟨fs⟩ := by
  refine ext_of_find (nodup_ofList fs) (names_ofList.trans (eraseDups_of_nodup h)) fun name _ => ?_
  have hreverse : (⟨fs.reverse⟩ : Program).names.Nodup := by
    rw [names, List.map_reverse]
    exact List.nodup_reverse.2 h
  rw [find?_ofList]
  refine Option.ext fun f => (find?_iff hreverse).trans ?_
  rw [List.mem_reverse, find?_iff h]

/-- A program without a name twice is the program of its functions. -/
theorem ofList_functions (h : p.names.Nodup) : ofList p.functions = p :=
  ofList_of_nodup h

/-! ## Programs that are merged

To merge two programs is to add the functions of the second one to the first. As
names and functions tell a program, two ways of merging are compared by these.
-/

/-- **A merged program has the functions of the second one**, and those of the
first one beside them. -/
theorem find?_merge (hq : q.names.Nodup) :
    (p.merge q).find? name = (q.find? name).or (p.find? name) := by
  rw [← ofList_functions hq, find?_ofList, ofList_functions hq]
  exact find?_merge_list

/-- **A merged program has the names of the first one**, and behind them the new
ones of the second. -/
theorem names_merge (hq : q.names.Nodup) :
    (p.merge q).names = p.names ++ q.names.filter (· ∉ p.names) :=
  names_merge_list.trans (congrArg (p.names ++ ·) (eraseDups_of_nodup (hq.filter _)))

/-- To merge a program that a function was added to is to merge it, and then to
add the function. -/
theorem merge_insert (hp : p.names.Nodup) (hq : q.names.Nodup) :
    p.merge (q.insert f) = (p.merge q).insert f := by
  refine ext_of_find (nodup_merge hp) ?_ fun name _ => ?_
  · rw [names_merge (nodup_insert hq), names_insert, names_insert, names_merge hq]
    by_cases hfq : f.name ∈ q.names <;> by_cases hfp : f.name ∈ p.names <;> simp [hfq, hfp]
  · rw [find?_merge (nodup_insert hq), find?_insert, find?_insert, find?_merge hq]
    split <;> rfl

/-- To merge the program of some definitions is to merge these one by one. -/
theorem merge_ofList (hp : p.names.Nodup) : p.merge (ofList fs) = p.merge ⟨fs⟩ := by
  induction fs using List.reverseRecOn with
  | nil => rfl
  | append_singleton fs f ih => rw [ofList_concat, merge_insert hp (nodup_ofList fs), ih, merge_concat]

/-- **Definitions in a row come to programs that are merged.** -/
theorem ofList_append_eq_merge : ofList (fs ++ gs) = (ofList fs).merge (ofList gs) := by
  rw [ofList_append, merge_ofList (nodup_ofList fs)]

end Program
end Shank
