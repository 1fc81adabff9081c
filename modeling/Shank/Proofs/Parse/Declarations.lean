/-
# Declarations are read back

What is written for a type, a group of one variable or one constant, a list of
parameters and the local declarations is read as these.

Of a group that declares several names at once nothing is written, so the loop
over names ends with the first one. The loop over groups is read back for groups
of any kind (`reads_groups`), and parameters, variables and constants are read
by it.
-/

import Shank.Parse.Program
import Shank.Proofs.Parse.Expressions
import Shank.Proofs.Print.Stream

namespace Shank
namespace Parse

variable {spell : Ieee → String} {N : Option Token.Kind → Prop}

/-! ## Ranges

A bound is written in a form of its own, with or without a point, and this form
is part of what is read back: the two forms of one number are different bounds.
-/

/-- A minus in front of a bound is the same as a negative bound. -/
theorem boundOf_signed (negative : Bool) (u : Scalar) :
    boundOf negative u = boundOf false (if negative then negated u else u) := by
  cases negative <;> rfl

/-- The lexemes of a number are the bound of it. -/
theorem reads_bound_of_denotes {ls : List Lexeme} {v : Scalar} (h : Denotes ls v) :
    Reads ls N (fun b => b = boundOf false v) bound := by
  obtain ⟨negative, l, u, rfl, hl, hnumber, rfl⟩ := h
  have hrest : Reads [l] N (fun b => b = boundOf negative u) (do
      let t ← expect .number .number
      pure (boundOf negative (← number t))) :=
    reads_expect_bind hl fun t ht => reads_number ht hnumber (reads_pure rfl)
  rw [← boundOf_signed]
  cases negative with
  | false => exact reads_take_none_bind (fun _ _ => by simp [signed, nextOf, hl]) hrest
  | true => exact reads_take_bind rfl fun _ _ => hrest

/-- What is written for a bound is read as this bound, in its own form. -/
theorem reads_bound (hspell : Ieee.IsSpelling spell) {b : Bound} (h : b.WellFormed) :
    Reads (b.lexemes spell) N (fun a => a = b) bound := by
  cases b with
  | whole n => exact reads_bound_of_denotes (denotes_integer h)
  | real x => exact reads_bound_of_denotes (denotes_real hspell h)

/-- What is written for a range is read as its two bounds. -/
theorem reads_bounds (hspell : Ieee.IsSpelling spell) {low high : Bound} (hlow : low.WellFormed)
    (hhigh : high.WellFormed) :
    Reads (rangeLexemes spell low high) N (fun r => r.2 = (low, high)) bounds := by
  refine reads_expect_bind rfl fun _ _ => reads_peek_bind fun _ _ => ?_
  refine (reads_bound (N := fun _ => True) hspell hlow).bind
    (fun a ha => reads_expect_bind rfl fun _ _ => ?_) fun _ _ => trivial
  exact (reads_bound hspell hhigh).map fun b hb => by rw [ha, hb]

/-- What is written for bounds of integers is read as these, if they are in
order. -/
theorem reads_interval (hspell : Ieee.IsSpelling spell) {r : Interval} (h : r.WellFormed)
    (hr : r.low ≤ r.high) : Reads (r.lexemes spell) N (fun a => a = r) interval := by
  have hbounds : Reads (rangeLexemes spell (.whole r.low) (.whole r.high)) N
      (fun a => a.2 = (.whole r.low, .whole r.high)) bounds := reads_bounds hspell h.1 h.2
  rw [Interval.lexemes, ← List.append_nil (rangeLexemes ..)]
  refine hbounds.bind (fun a ha => ?_) fun _ h => h
  obtain ⟨start, low, high⟩ := a
  cases ha
  simp only [if_neg (Int.not_lt.2 hr)]
  exact reads_pure rfl

/-- What is written for bounds of reals is read as these, if they are in order.
A bound keeps the form that it was written in. -/
theorem reads_realInterval (hspell : Ieee.IsSpelling spell) {r : RealInterval}
    (hlow : r.low.WellFormed) (hhigh : r.high.WellFormed) (hr : r.high.lt r.low = false) :
    Reads (rangeLexemes spell r.low r.high) N (fun a => a = r) realInterval := by
  rw [← List.append_nil (rangeLexemes ..)]
  refine (reads_bounds hspell hlow hhigh).bind (fun a ha => ?_) fun _ h => h
  obtain ⟨start, low, high⟩ := a
  cases ha
  simp only [hr, Bool.false_eq_true, if_false]
  exact reads_pure rfl

/-! ## Types

A type ends where no range follows it. What is written for a type with a range
is told by its `from`, and behind one without a range no `from` may come.
-/

/-- A range that may be left out is read as what is written of it. If there is
one, `from` tells so; if there is none, nothing is written, and what follows
must not be taken for one. -/
theorem reads_ifRange {α : Type} {a : Option α} {ls : List Lexeme} {p : Parse α}
    (hsome : ∀ r, a = some r → nextOf ls none = some .from_ ∧ Reads ls (· ≠ some .from_) (· = r) p)
    (hnone : a = none → ls = []) :
    Reads ls (· ≠ some .from_) (fun b => b = a) (ifRange p) := by
  rw [ifRange]
  cases a with
  | none =>
    rw [hnone rfl]
    exact reads_at_bind (b := false) (fun k hk => by simp [nextOf, hk]) (reads_pure rfl)
  | some r =>
    obtain ⟨hfrom, hp⟩ := hsome r rfl
    -- what is written starts with `from`, whatever comes behind it
    have hnext : ∀ k, nextOf ls k = some .from_ := by
      cases ls with
      | nil => cases hfrom
      | cons l ls => exact fun _ => hfrom
    refine reads_at_bind (b := true) (fun k _ => by simp [hnext k]) ?_
    rw [if_pos rfl, map_eq_pure_bind]
    exact hp.map fun b hb => by rw [hb]

/-- The word of a kind is read as this kind. -/
theorem reads_kind (k : Kind) {β : Type} {Q : β → Prop} {ls : List Lexeme} {f : Kind → Parse β}
    (hf : Reads ls N Q (f k)) : Reads (k.lexeme :: ls) N Q (kind >>= f) := by
  rw [kind, bind_assoc]
  refine reads_peek_cons_bind fun t ht => ?_
  have hk : kind? t.kind = some k := by
    rw [show t.kind = k.lexeme.kind from congrArg Lexeme.kind ht]
    cases k <;> rfl
  simp only [Option.bind_some, hk, bind_assoc, pure_bind]
  exact reads_skip_bind hf

/-- Where no range comes, none is refused. -/
theorem reads_noRange (k : Kind) {β : Type} {Q : β → Prop} {f : Unit → Parse β}
    (hf : Reads [] (· ≠ some .from_) Q (f ())) :
    Reads [] (· ≠ some .from_) Q (noRange k >>= f) := by
  rw [noRange, bind_assoc]
  refine reads_at_bind (b := false) (fun k hk => by simp [nextOf, hk]) ?_
  simpa using hf

/-- The word of a kind is not `array`. -/
theorem ScalarType.lexeme_ne_array (k : Kind) : k.lexeme.kind ≠ .array := by
  cases k <;> decide

/-- **What is written for a type is read as this type**, with the same range.
Texts of reals in it may be spelled in any way that reads back. -/
theorem reads_type (hspell : Ieee.IsSpelling spell) {type : DeclaredType} (ho : type.Ordered)
    (hb : type.HasWritableBounds) :
    Reads (type.lexemes spell) (· ≠ some .from_) (fun a => a = type) Parse.type := by
  cases type with
  | array bounds element =>
    refine reads_take_bind rfl fun _ _ => ?_
    refine (reads_interval (N := fun _ => True) hspell hb ho).bind
      (fun b hb => reads_expect_bind rfl fun _ _ => reads_kind element (reads_pure ?_))
      fun _ _ => trivial
    rw [hb]
  -- the word of a scalar type is not `array`, and is followed by its range if it may
  -- have one
  | scalar type =>
    refine reads_take_none_bind
      (fun _ _ h => ScalarType.lexeme_ne_array type.kind (Option.some.inj h)) ?_
    refine reads_kind type.kind ?_
    cases type with
    | integer range =>
      refine Reads.map (reads_ifRange (a := range) ?_ ?_) fun b hb => by rw [hb]
      · rintro r rfl
        exact ⟨rfl, reads_interval hspell (hb r rfl) (ho r rfl)⟩
      · rintro rfl
        rfl
    | real range =>
      refine Reads.map (reads_ifRange (a := range) ?_ ?_) fun b hb => by rw [hb]
      · rintro r rfl
        exact ⟨rfl, reads_realInterval hspell (hb r rfl).1 (hb r rfl).2 (ho r rfl)⟩
      · rintro rfl
        rfl
    | string lengths =>
      refine Reads.map (reads_ifRange (a := lengths) ?_ ?_) fun b hb => by rw [hb]
      · rintro r rfl
        exact ⟨rfl, reads_interval hspell (hb r rfl) (ho r rfl)⟩
      · rintro rfl
        rfl
    | character => exact reads_noRange .character (reads_pure rfl)
    | boolean => exact reads_noRange .boolean (reads_pure rfl)

/-! ## Groups of one

What is written declares each variable by itself, though the parser knows lists
of names with one type. So only lists of one name have to be read back.
-/

/-- A name is a list of one name, if no comma follows. -/
theorem reads_names (name : String) :
    Reads [.name name] (· ≠ some .comma) (fun ts => ∃ t : Token, ts = [t] ∧ t.text = name) names := by
  refine reads_expect_bind rfl fun t ht => reads_remaining_bind fun rounds _ _ => ?_
  have hmore : Reads [] (· ≠ some .comma) (fun ts => ts = []) (moreNames rounds) := by
    cases rounds with
    | nil => exact reads_pure rfl
    | cons _ rounds => exact reads_take_none_bind (fun _ h => h) (reads_pure rfl)
  exact hmore.map fun ts hts => ⟨t, by rw [hts], congrArg Lexeme.text ht⟩

/-- **A variable is read as a group of one.** It is written without others of
its type, while a group may name several. -/
theorem reads_variable (hspell : Ieee.IsSpelling spell) {v : Variable} (h : v.WellFormed) :
    Reads (v.lexemes spell) (· ≠ some .from_) (fun vs => vs.map Variable.bare = [v.bare])
      variableGroup := by
  -- behind `var` both forms are the same
  have hrest : Reads (.name v.name :: .colon :: v.type.lexemes spell) (· ≠ some .from_)
      (fun vs => vs.map Variable.bare = [v.bare]) (do
        let names ← names
        let _ ← expect .colon .colon
        let type ← Parse.type
        pure (names.map fun t => { line := t.line, name := t.text, type, isVar := v.isVar })) := by
    refine (reads_names v.name).bind (fun ts hts => reads_expect_bind rfl fun _ _ => ?_)
      fun _ _ => by simp [nextOf, Lexeme.colon]
    obtain ⟨t, rfl, htext⟩ := hts
    refine (reads_type hspell h.ordered h.bounds).map fun type htype => ?_
    simp [Variable.bare, htext, htype]
  rw [Variable.lexemes]
  cases hv : v.isVar with
  | false =>
    rw [hv] at hrest
    exact reads_take_none_bind (fun _ _ => by simp [nextOf, Lexeme.name]) hrest
  | true =>
    rw [hv] at hrest
    exact reads_take_bind rfl fun _ _ => hrest

/-- A group of one constant. -/
theorem reads_constant (hspell : Ieee.IsSpelling spell) {c : Constant} (h : c.value.WellFormed) :
    Reads (c.lexemes spell) N (fun cs => cs.map Constant.bare = [c.bare]) constantGroup := by
  refine reads_take_none_bind (fun _ _ => by simp [Constant.lexemes, nextOf, Lexeme.name]) ?_
  refine (reads_names c.name).bind (r := Lexeme.equals :: c.value.lexemes spell)
    (fun ts hts => ?_) fun _ _ => by simp [nextOf, Lexeme.equals]
  obtain ⟨t, rfl, htext⟩ := hts
  simp only [Option.isSome_none, Bool.false_eq_true, if_false]
  refine reads_expect_bind rfl fun _ _ => ?_
  refine (reads_constantValue hspell h).map fun r hr => ?_
  simp [Constant.bare, htext, hr]

/-! ## Lists of groups

The loop over groups asks for a group, then for a semicolon, and then looks for
the terminator. It is read back for any kind of group, so parameters, variables
and constants share the argument.
-/

/-- **Groups with semicolons between them are read up to what ends the list.**
Nothing is asked of a group but that it is read, does not start with the
terminator, and may stand before a semicolon and before the end. Parameters and
variables are such groups. -/
theorem reads_groupsFrom {α : Type} {f : α → List Lexeme} {g : α → α} {group : Parse (List α)}
    {terminator : Token.Kind} {items : List α} {M : Option Token.Kind → Prop}
    (hgroup : ∀ a ∈ items, Reads (f a) M (fun as => as.map g = [g a]) group)
    (hhead : ∀ a ∈ items, ∀ k, nextOf (f a) k ≠ some terminator)
    (hterminator : terminator ≠ .semicolon) (hM : M (some terminator)) (hM' : M (some .semicolon))
    {rounds : List Token} (h : (separated .semicolon (items.map f)).length < rounds.length) :
    Reads (separated .semicolon (items.map f)) (· = some terminator)
      (fun as => as.map g = items.map g) (groupsFrom group terminator rounds) := by
  induction items generalizing rounds with
  | nil =>
    cases rounds with
    | nil => simp at h
    | cons _ rounds =>
      exact reads_at_bind (b := true) (fun k hk => by simp [separated, nextOf, hk]) (reads_pure rfl)
  | cons a rest ih =>
    cases rounds with
    | nil => simp at h
    | cons _ rounds =>
      have ha := hgroup a (List.mem_cons_self ..)
      simp only [List.map_cons, separated, List.length_cons, List.length_append] at h
      refine reads_at_bind (b := false) (fun k _ => ?_) ?_
      · simp only [List.map_cons, separated, nextOf_append, Bool.false_eq_true, iff_false]
        exact hhead a (List.mem_cons_self ..) _
      -- the last group has no semicolon behind it, and the loop ends there
      · cases rest with
        | nil =>
          refine ha.bind (fun as has => reads_take_none_bind (fun k hk => ?_) (reads_pure ?_))
            fun k hk => ?_
          · rw [List.map_nil, List.flatMap_nil, nextOf, hk]
            exact fun h => hterminator (Option.some.inj h)
          · simpa using has
          · rw [List.map_nil, List.flatMap_nil, nextOf, hk]
            exact hM
        | cons b rest =>
          have hrest : Reads _ _ _ (groupsFrom group terminator rounds) :=
            ih (fun a ha => hgroup a (List.mem_cons_of_mem _ ha))
              (fun a ha => hhead a (List.mem_cons_of_mem _ ha)) (by
                simp only [List.map_cons, List.flatMap_cons, separated, List.length_cons,
                  List.length_append] at h ⊢
                omega)
          refine ha.bind (r := Lexeme.semicolon :: separated .semicolon ((b :: rest).map f))
            (fun as has => reads_take_bind rfl fun _ _ => hrest.map fun bs hbs => ?_) fun _ _ => hM'
          simp [has, hbs]

/-- **A list of groups is read group by group**, up to what ends it, if no group
starts with that. -/
theorem reads_groups {α : Type} {f : α → List Lexeme} {g : α → α} {group : Parse (List α)}
    {terminator : Token.Kind} {items : List α} {M : Option Token.Kind → Prop}
    (hgroup : ∀ a ∈ items, Reads (f a) M (fun as => as.map g = [g a]) group)
    (hhead : ∀ a ∈ items, ∀ k, nextOf (f a) k ≠ some terminator)
    (hterminator : terminator ≠ .semicolon) (hM : M (some terminator))
    (hM' : M (some .semicolon)) :
    Reads (separated .semicolon (items.map f)) (· = some terminator)
      (fun as => as.map g = items.map g) (groups group terminator) :=
  reads_remaining_bind fun _ _ h =>
    reads_groupsFrom hgroup hhead hterminator hM hM' (h fun h => nomatch h)

/-- What is written for a variable starts with `var` or with its name. -/
theorem variable_head (spell : Ieee → String) (v : Variable) (k : Option Token.Kind) :
    nextOf (v.lexemes spell) k = some .var ∨ nextOf (v.lexemes spell) k = some .identifier := by
  cases hv : v.isVar <;> simp [Variable.lexemes, hv, nextOf, Lexeme.var, Lexeme.name]

/-- The parameters of a function. -/
theorem reads_parameters (hspell : Ieee.IsSpelling spell) {vs : List Variable}
    (h : ∀ v ∈ vs, v.WellFormed) :
    Reads (separated .semicolon (vs.map (·.lexemes spell))) (· = some .closeParen)
      (fun ws => ws.map Variable.bare = vs.map Variable.bare)
      (groups variableGroup .closeParen) :=
  reads_groups (fun v hv => reads_variable hspell (h v hv))
    (fun v _ k => by rcases variable_head spell v k with h | h <;> simp [h])
    (by decide) (by decide) (by decide)

/-- A local variable by itself is a list of one group. -/
theorem reads_variables (hspell : Ieee.IsSpelling spell) {v : Variable} (h : v.WellFormed) :
    Reads (v.lexemes spell) (· = some .endOfLine) (fun ws => ws.map Variable.bare = [v.bare])
      (groups variableGroup .endOfLine) := by
  have h : Reads (separated .semicolon ([v].map (·.lexemes spell))) _ _
      (groups variableGroup .endOfLine) :=
    reads_groups (fun w hw => List.mem_singleton.1 hw ▸ reads_variable hspell h)
      (fun v _ k => by rcases variable_head spell v k with h | h <;> simp [h])
      (by decide) (by decide) (by decide)
  simpa [separated] using h

/-- A constant by itself is a list of one group. -/
theorem reads_constants (hspell : Ieee.IsSpelling spell) {c : Constant} (h : c.value.WellFormed) :
    Reads (c.lexemes spell) (· = some .endOfLine) (fun cs => cs.map Constant.bare = [c.bare])
      (groups constantGroup .endOfLine) := by
  have h : Reads (separated .semicolon ([c].map (·.lexemes spell))) _ _
      (groups constantGroup .endOfLine) :=
    reads_groups (M := fun _ => True)
      (fun d hd => List.mem_singleton.1 hd ▸ reads_constant hspell h)
      (fun c _ k => by simp [Constant.lexemes, nextOf, Lexeme.name]) (by decide) trivial trivial
  simpa [separated] using h

/-! ## Local declarations

Each declaration is written on a line of its own, and the loop over them is left
at the first line that starts with neither of the two words.
-/

/-- The local declarations of a function are read, a line for each. A
declaration of constants and one of variables are told apart by their first
word, and what is neither ends the declarations. -/
theorem reads_locals (hspell : Ieee.IsSpelling spell) {locals : List Local}
    (h : ∀ d ∈ locals, d.WellFormed) {rounds : List Token}
    (hrounds : (locals.flatMap fun d => d.lexemes spell ++ [.lineEnd]).length ≤ rounds.length) :
    Reads (locals.flatMap fun d => d.lexemes spell ++ [.lineEnd])
      (NoneOf [.constants, .variables_, .endOfLine])
      (fun ds => ds.map Local.bare = locals.map Local.bare) (localsFrom rounds) := by
  induction locals generalizing rounds with
  | nil =>
    cases rounds with
    | nil => exact reads_pure rfl
    | cons _ rounds =>
      exact reads_take_none_bind (fun k hk => hk _ (by simp))
        (reads_take_none_bind (fun k hk => hk _ (by simp)) (reads_pure rfl))
  | cons d rest ih =>
    cases rounds with
    | nil => simp at hrounds
    | cons _ rounds =>
      have hrest : Reads _ _ _ (localsFrom rounds) :=
        ih (fun d hd => h d (List.mem_cons_of_mem _ hd)) (by
          simp only [List.flatMap_cons, List.length_append, List.length_cons] at hrounds
          omega)
      have hd := h d (List.mem_cons_self ..)
      rw [List.flatMap_cons, List.append_assoc]
      -- no declaration is followed by an empty line
      have hend : ∀ k, NoneOf [.constants, .variables_, .endOfLine] k →
          nextOf (rest.flatMap fun d => d.lexemes spell ++ [.lineEnd]) k ≠ some .endOfLine := by
        intro k hk
        cases rest with
        | nil => exact hk _ (by simp)
        | cons e rest => cases e <;> simp [Local.lexemes, nextOf]
      -- a declaration is read as a list of one, and the lists are put together
      cases d with
      | constant c =>
        refine reads_take_bind rfl fun _ _ => ?_
        refine (reads_constants hspell hd.2).bind (fun cs hcs => ?_) fun _ _ => rfl
        refine reads_endLine_bind rfl hend (hrest.map fun ds hds => ?_)
        have hcs' := congrArg (List.map Local.constant) hcs
        rw [List.map_map] at hcs'
        rw [List.map_append, List.map_map, hds, List.map_cons, ← List.singleton_append]
        exact congrArg (· ++ _) hcs'
      | var v =>
        refine reads_take_none_bind (fun _ _ => by simp [Local.lexemes, nextOf]) ?_
        refine reads_take_bind rfl fun _ _ => ?_
        refine (reads_variables hspell hd).bind (fun vs hvs => ?_) fun _ _ => rfl
        refine reads_endLine_bind rfl hend (hrest.map fun ds hds => ?_)
        have hvs' := congrArg (List.map Local.var) hvs
        rw [List.map_map] at hvs'
        rw [List.map_append, List.map_map, hds, List.map_cons, ← List.singleton_append]
        exact congrArg (· ++ _) hvs'

end Parse
end Shank
