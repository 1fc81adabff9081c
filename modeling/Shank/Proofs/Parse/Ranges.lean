/-
# No range of a parsed program is empty

The parser refuses a range whose lower bound is above its upper one, so every
type it gives is `Ordered`, and with the types all declarations of the functions
it accepts (`Program.ordered_of_parse`). An array of a parsed program has at
least one item.

What types are like is followed from the parser of types to the declarations, to
the functions, and into the program, by `Yields`: what a parser gives whenever
it gives anything. The same way is taken for other properties of what is parsed.
-/

import Shank.Parse.Program
import Shank.Proofs.Declarations
import Shank.Proofs.Definitions
import Shank.Proofs.Sequencing

namespace Shank

namespace Parse

variable {α β : Type}

/-- What a parser gives, whenever it gives anything. -/
def Yields (Q : α → Prop) (x : Parse α) : Prop :=
  ∀ c a c', x c = .ok a c' → Q a

/-- A parser that takes nothing yields what its result is like. -/
theorem yields_pure {Q : α → Prop} {a : α} (h : Q a) : Yields Q (pure a) := by
  rintro c _ _ ⟨⟩
  exact h

/-- A parser that fails yields anything. -/
theorem yields_failAt {Q : α → Prop} (problem : SyntaxProblem) (t : Option Token) :
    Yields Q (failAt problem t) :=
  fun _ _ _ h => (nomatch h)

/-- Every parser gives something of which nothing is said. -/
theorem yields_trivial (x : Parse α) : Yields (fun _ => True) x :=
  fun _ _ _ _ => trivial

/-- Two parsers in a row yield what the second one does on all that the first
one may give. -/
theorem Yields.bind {P : α → Prop} {Q : β → Prop} {x : Parse α} {f : α → Parse β}
    (hx : Yields P x) (hf : ∀ a, P a → Yields Q (f a)) : Yields Q (x >>= f) := by
  intro c b c' h
  obtain ⟨a, c₁, ha, hb⟩ := bind_ok h
  exact hf a (hx c a c₁ ha) c₁ b c' hb

/-- Whatever the first parser gives, the second one yields. -/
theorem Yields.after {Q : β → Prop} {x : Parse α} {f : α → Parse β}
    (hf : ∀ a, Yields Q (f a)) : Yields Q (x >>= f) :=
  (yields_trivial x).bind fun a _ => hf a

/-! ## Types

The parser compares the bounds of a range when it has both, and refuses them if
they are not in order. So nothing else has to be looked at.
-/

/-- Bounds of integers are in order, or refused. -/
theorem yields_interval : Yields (fun r => r.low ≤ r.high) interval := by
  refine .after fun ⟨start, low, high⟩ => ?_
  split
  · split
    · exact yields_failAt _ _
    · exact yields_pure (Int.not_lt.1 ‹_›)
  · exact yields_failAt _ _

/-- Bounds of reals are in order, or refused. -/
theorem yields_realInterval : Yields (fun r => r.high.lt r.low = false) realInterval := by
  refine .after fun ⟨start, low, high⟩ => ?_
  dsimp only
  split
  · exact yields_failAt _ _
  · exact yields_pure (Bool.eq_false_iff.2 ‹_›)

/-- A range that may be left out yields what it does when it is there. -/
theorem Yields.ifRange {Q : α → Prop} {x : Parse α} (h : Yields Q x) :
    Yields (fun o => ∀ r ∈ o, Q r) (ifRange x) := by
  refine .after fun b => ?_
  split
  · rw [map_eq_pure_bind]
    refine h.bind fun a ha => yields_pure fun r hr => ?_
    cases hr
    exact ha
  · exact yields_pure fun _ hr => (nomatch hr)

/-- What holds of each form of type, whatever range is parsed for it, holds of
all types that are parsed. -/
theorem yields_type_of {Q : DeclaredType → Prop} {R : RealInterval → Prop} (hR : Yields R realInterval)
    (harray : ∀ r k, r.low ≤ r.high → Q (.array r k))
    (hinteger : ∀ r : Option Interval, (∀ i ∈ r, i.low ≤ i.high) → Q (.scalar (.integer r)))
    (hreal : ∀ r : Option RealInterval, (∀ i ∈ r, R i) → Q (.scalar (.real r)))
    (hstring : ∀ r : Option Interval, (∀ i ∈ r, i.low ≤ i.high) → Q (.scalar (.string r)))
    (hcharacter : Q (.scalar .character)) (hboolean : Q (.scalar .boolean)) : Yields Q type := by
  refine .after fun array => ?_
  cases array with
  | some _ =>
    exact yields_interval.bind fun r hr => .after fun _ => .after fun k => yields_pure (harray r k hr)
  | none =>
    refine .after fun k => ?_
    cases k with
    | integer => exact yields_interval.ifRange.bind fun r hr => yields_pure (hinteger r hr)
    | real => exact hR.ifRange.bind fun r hr => yields_pure (hreal r hr)
    | string => exact yields_interval.ifRange.bind fun r hr => yields_pure (hstring r hr)
    | character => exact .after fun _ => yields_pure hcharacter
    | boolean => exact .after fun _ => yields_pure hboolean

/-- **A type that is parsed has no empty range.** -/
theorem yields_type : Yields DeclaredType.Ordered type :=
  yields_type_of yields_realInterval (fun _ _ h => h) (fun _ h => h) (fun _ h => h) (fun _ h => h) trivial
    trivial

/-! ## Declarations

What holds of each type that is parsed holds of each declared variable, since a
declaration passes its type on to all of its names. Constants have a type of
their own, without a range.
-/

/-- What each group yields, all the groups behind the first do. The induction is
on the rounds. -/
theorem Yields.groupsFrom {Q : α → Prop} {group : Parse (List α)}
    (h : Yields (fun as => ∀ a ∈ as, Q a) group) (terminator : Token.Kind) (ts : List Token) :
    Yields (fun as => ∀ a ∈ as, Q a) (groupsFrom group terminator ts) := by
  have none : Yields (fun as => ∀ a ∈ as, Q a) (pure []) := yields_pure fun _ ha => (nomatch ha)
  induction ts with
  | nil => exact h
  | cons _ rounds ih =>
    refine .after fun b => ?_
    split
    · exact none
    · refine h.bind fun first hfirst => .after fun sep => ?_
      cases sep with
      | none => exact yields_pure hfirst
      | some _ =>
        refine ih.bind fun rest hrest => yields_pure fun a ha => ?_
        exact (List.mem_append.1 ha).elim (hfirst a) (hrest a)

/-- What each group yields, the declarations up to their terminator do. -/
theorem Yields.groups {Q : α → Prop} {group : Parse (List α)}
    (h : Yields (fun as => ∀ a ∈ as, Q a) group) (terminator : Token.Kind) :
    Yields (fun as => ∀ a ∈ as, Q a) (groups group terminator) :=
  .after fun ts => h.groupsFrom terminator ts

section Declarations

variable {Q : DeclaredType → Prop} (htype : Yields Q type)

include htype

/-- Variables that are declared have types that are parsed. -/
theorem Yields.variableGroup : Yields (fun vs => ∀ v ∈ vs, Q v.type) variableGroup := by
  refine .after fun _ => .after fun names => .after fun _ => htype.bind fun type ht =>
    yields_pure fun v hv => ?_
  obtain ⟨t, _, rfl⟩ := List.mem_map.1 hv
  exact ht

variable (hkind : ∀ k, Q (.scalar (.ofKind k)))

include hkind

/-- Local declarations have types that are parsed, or those of constants, which
have no range. -/
theorem Yields.localsFrom (ts : List Token) :
    Yields (fun ds => ∀ d ∈ ds, Q d.type) (localsFrom ts) := by
  induction ts with
  | nil => exact yields_pure fun _ hd => (nomatch hd)
  | cons _ rounds ih =>
    refine .after fun constants => ?_
    cases constants with
    | some _ =>
      refine .after fun cs => .after fun _ => ih.bind fun rest hrest => yields_pure fun d hd => ?_
      -- it is declared on this line, or on a later one
      rcases List.mem_append.1 hd with hd | hd
      · obtain ⟨c, _, rfl⟩ := List.mem_map.1 hd
        exact hkind _
      · exact hrest d hd
    | none =>
      refine .after fun declares => ?_
      cases declares with
      | none => exact yields_pure fun _ hd => (nomatch hd)
      | some _ =>
        refine (htype.variableGroup.groups _).bind fun vs hvs => .after fun _ =>
          ih.bind fun rest hrest => yields_pure fun d hd => ?_
        rcases List.mem_append.1 hd with hd | hd
        · obtain ⟨v, hv, rfl⟩ := List.mem_map.1 hd
          exact hvs v hv
        · exact hrest d hd

/-- What types are like that are parsed, and those of constants, all types of a
function are. -/
theorem Yields.function (room : Nat) :
    Yields (fun f => ∀ d ∈ f.declarations, Q d.2) (function room) := by
  refine .after fun start => .after fun name => .after fun _ =>
    (htype.variableGroup.groups _).bind fun ps hps => .after fun _ => .after fun _ =>
    .after fun ts => (htype.localsFrom hkind ts).bind fun ds hds => .after fun indented => ?_
  have made (body : List Stmt) : Yields (fun f : Function => ∀ d ∈ f.declarations, Q d.2)
      (pure ⟨start.line, name.text, ps, ds, body⟩) := by
    refine yields_pure fun d hd => ?_
    rcases List.mem_append.1 hd with hd | hd
    · obtain ⟨v, hv, rfl⟩ := List.mem_map.1 hd
      exact hps v hv
    · obtain ⟨l, hl, rfl⟩ := List.mem_map.1 hd
      exact hds l hl
  cases indented <;> exact .after made

end Declarations

end Parse

/-! ## Programs

A program is made of its functions by inserting them, and inserting replaces and
adds but makes up nothing. So what every function that is parsed satisfies,
those of the program do.
-/

/-- What every parsed function is like holds of all that are parsed. -/
theorem Parsing.forall_functionsFrom {Q : Function → Prop} {room : Nat}
    (h : Parse.Yields Q (Parse.function room)) (ts : List Token) (c : Cursor) :
    ∀ f ∈ (functionsFrom room ts c).functions, Q f := by
  induction ts generalizing c with
  | nil => exact fun _ hf => (nomatch hf)
  | cons _ rounds ih =>
    unfold functionsFrom
    split
    · exact fun _ hf => (nomatch hf)
    · split
      · rename_i f c' hf
        obtain ⟨g, c₁, hg, hrest⟩ := bind_ok hf
        obtain ⟨_, _, _, hpure⟩ := bind_ok hrest
        cases hpure
        intro g' hg'
        rcases List.mem_cons.1 hg' with rfl | hmem
        · exact h c _ c₁ hg
        · exact ih c' g' hmem
      · exact fun _ hf => (nomatch hf)

/-- A program is made of functions that are parsed up to the end. -/
theorem Parsing.program_ok {r : Parsing} {p : Program} (h : r.program = .ok p) :
    r.halt = none ∧ r.stop.level = 0 ∧ p = Program.ofList r.functions := by
  unfold program at h
  split at h
  · cases h
  · split at h
    · cases h
      exact ⟨‹_›, ‹_›, rfl⟩
    · cases h

namespace Program

/-- A program to which a function is added has this one, and functions that it
had. -/
theorem mem_insert {p : Program} {f g : Function} (h : g ∈ (p.insert f).functions) :
    g = f ∨ g ∈ p.functions := by
  unfold insert at h
  split at h
  · obtain ⟨g', hg', rfl⟩ := List.mem_map.1 h
    split
    · exact .inl rfl
    · exact .inr hg'
  · exact (List.mem_append.1 h).symm.imp List.mem_singleton.1 id

/-- A program that is merged has functions of the two. -/
theorem mem_merge {p q : Program} {f : Function} (h : f ∈ (p.merge q).functions) :
    f ∈ q.functions ∨ f ∈ p.functions := by
  obtain ⟨fs⟩ := q
  unfold merge at h
  induction fs generalizing p with
  | nil => exact .inr h
  | cons g rest ih =>
    rcases ih h with hf | hf
    · exact .inl (List.mem_cons_of_mem g hf)
    · rcases mem_insert hf with rfl | hf
      · exact .inl (List.mem_cons_self ..)
      · exact .inr hf

/-- The functions of a program are among those it was made of. -/
theorem mem_ofList {fs : List Function} {f : Function} (h : f ∈ (ofList fs).functions) : f ∈ fs :=
  (mem_merge (p := {}) (q := ⟨fs⟩) h).elim id fun hf => (nomatch hf)

/-- **The functions of a parsed program** are all parsed from its tokens, and up
to their end. -/
theorem parse_ok {tokens : List Token} {p : Program} (h : parse tokens = .ok p) :
    (Parsing.ofTokens tokens).halt = none ∧ (Parsing.ofTokens tokens).stop.level = 0 ∧
      p = ofList (Parsing.ofTokens tokens).functions :=
  Parsing.program_ok h

/-- A parsed program has no two functions of one name. -/
theorem nodup_of_parsing {r : Parsing} {p : Program} (h : r.program = .ok p) : p.names.Nodup := by
  obtain ⟨-, -, rfl⟩ := Parsing.program_ok h
  exact nodup_ofList _

/-- **No declaration of a parsed program has an empty range.** -/
theorem ordered_of_parse {tokens : List Token} {p : Program} (h : parse tokens = .ok p)
    {type : DeclaredType} (ht : p.Declares type) : type.Ordered := by
  rcases ht with ⟨k, rfl⟩ | ⟨f, hf, d, hd, rfl⟩
  · exact DeclaredType.ordered_ofKind k
  · obtain ⟨-, -, rfl⟩ := parse_ok h
    exact Parsing.forall_functionsFrom (Parse.yields_type.function DeclaredType.ordered_ofKind _) _ _ f
      (mem_ofList hf) d hd

end Program
end Shank
