/-
# What is taken within a line

The parsers of types, groups of declarations and arguments take tokens of one
line, and what they give is what these tokens say:

| parser | takes |
| --- | --- |
| `type` | tokens of one line |
| `names` | names with commas between them |
| `variableGroup`, `constantGroup` | the names of a group with its type or value |
| `groups` | groups with semicolons between them |
| `arguments` | nothing, or arguments with commas between them |

Names and arguments are read one by one, each with a comma in front
(`moreItems`); so what the induction over the rounds carries is that they make a
list with any item in front of them.
-/

import Shank.Proofs.Parse.Heads

namespace Shank
namespace Parse

variable {α β : Type} {P P' : List Token → α → Prop}

/-- A parser takes tokens of which less is said. -/
theorem Takes.mono {x : Parse α} (h : Takes x P) (hP : ∀ ts a, P ts a → P' ts a) : Takes x P' := by
  intro c a c' hx
  obtain ⟨ts, hts, hlevel, h⟩ := h c a c' hx
  exact ⟨ts, hts, hlevel, hP ts a h⟩

/-- To ask for the kind of the next token takes nothing. -/
theorem takes_at (kind : Token.Kind) : Takes (at_ kind) fun ts _ => ts = [] := by
  rintro c _ _ ⟨⟩
  exact ⟨[], rfl, rfl, rfl⟩

/-- To look at the next token takes nothing. -/
theorem takes_peek : Takes peek fun ts _ => ts = [] := by
  rintro c _ _ ⟨⟩
  exact ⟨[], rfl, rfl, rfl⟩

/-- A parser takes tokens of one line. -/
def TakesInline (x : Parse α) : Prop :=
  Takes x fun ts _ => Inline ts

/-- A parser that takes nothing stays within the line. -/
theorem takesInline_pure (a : α) : TakesInline (pure a) :=
  takes_pure inline_nil

/-- Two parsers in a row stay within the line if each of them does. -/
theorem TakesInline.bind {x : Parse α} {f : α → Parse β} (hx : TakesInline x)
    (hf : ∀ a, TakesInline (f a)) : TakesInline (x >>= f) :=
  Takes.bind hx fun _ a hts => (hf a).mono fun _ _ hus => inline_append.2 ⟨hts, hus⟩

/-- What is no layout is no level, as levels are layout. -/
theorem not_isLevel_of_not_isLayout {kind : Token.Kind} (hkind : ¬kind.IsLayout) : ¬IsLevel kind := by
  rintro (rfl | rfl) <;> exact hkind (by decide)

/-- A token that has to come, and is no layout, is taken within the line. -/
theorem takesInline_expect {kind : Token.Kind} (item : Item) (hkind : ¬kind.IsLayout) :
    TakesInline (expect kind item) :=
  (takes_expect item (not_isLevel_of_not_isLayout hkind)).mono fun _ _ h => by simp [h.1, h.2, hkind]

/-- A token that is taken if it comes, and is no layout, is taken within the
line. -/
theorem takesInline_take? {kind : Token.Kind} (hkind : ¬kind.IsLayout) :
    TakesInline (take? kind) := by
  refine (takes_take? (not_isLevel_of_not_isLayout hkind)).mono fun ts o h => ?_
  cases o with
  | none => simp [show ts = [] from h]
  | some t =>
    obtain ⟨rfl, ht⟩ := h
    simp [ht, hkind]

/-- To ask for the kind of the next token stays within the line. -/
theorem takesInline_at (kind : Token.Kind) : TakesInline (at_ kind) :=
  (takes_at kind).mono fun _ _ h => h ▸ inline_nil

/-- To look at the next token stays within the line. -/
theorem takesInline_peek : TakesInline peek :=
  takes_peek.mono fun _ _ h => h ▸ inline_nil

/-! ## Types

A type is not followed further than that its tokens stay on the line, since no
node of a type has a line.
-/

/-- The name of a kind is no layout. -/
theorem not_isLayout_of_kind? {k : Kind} {kind : Token.Kind} (h : kind? kind = some k) :
    ¬kind.IsLayout := by
  cases kind <;> cases h <;> decide

/-- The name of a kind is taken within the line. -/
theorem takesInline_kind : TakesInline kind := by
  refine takes_peek_bind (takes_failHere _) fun t rest level => ?_
  split
  · rename_i k hk
    have hlayout : ¬t.kind.IsLayout := not_isLayout_of_kind? (k := k) hk
    refine takesAt_skip_bind rfl (not_isLevel_of_not_isLayout hlayout) (takes_pure ?_)
    simpa using hlayout
  · exact takes_failHere _ _

/-- A bound is taken within the line. -/
theorem takesInline_bound : TakesInline bound := by
  refine (takesInline_take? (by decide)).bind fun _ => ?_
  refine (takes_expect _ (by decide)).bind fun ts t ⟨hts, ht⟩ => ?_
  refine (takes_number ht).bind fun us v ⟨hus, _⟩ => takes_pure ?_
  simp [hts, hus, ht, Token.Kind.IsLayout]

/-- Two bounds are taken within the line. -/
theorem takesInline_bounds : TakesInline bounds :=
  (takesInline_expect _ (by decide)).bind fun _ => takesInline_peek.bind fun _ =>
    takesInline_bound.bind fun _ => (takesInline_expect _ (by decide)).bind fun _ =>
      takesInline_bound.bind fun _ => takesInline_pure _

/-- Bounds of integers are taken within the line. -/
theorem takesInline_interval : TakesInline interval := by
  refine takesInline_bounds.bind fun b => ?_
  split
  · split
    · exact takes_failAt _ _
    · exact takesInline_pure _
  · exact takes_failAt _ _

/-- Bounds of reals are taken within the line. -/
theorem takesInline_realInterval : TakesInline realInterval := by
  refine takesInline_bounds.bind fun ⟨start, low, high⟩ => ?_
  dsimp only
  split
  · exact takes_failAt _ _
  · exact takesInline_pure _

/-- A range that may be left out is taken within the line if it is when it is
there. -/
theorem TakesInline.ifRange {x : Parse α} (h : TakesInline x) : TakesInline (ifRange x) := by
  refine (takesInline_at _).bind fun comes => ?_
  split
  · rw [map_eq_pure_bind]
    exact h.bind fun _ => takesInline_pure _
  · exact takesInline_pure none

/-- That there is no range is seen without taking anything. -/
theorem takesInline_noRange (k : Kind) : TakesInline (noRange k) := by
  refine (takesInline_at _).bind fun comes => ?_
  split
  · exact takes_failHere _
  · exact takesInline_pure ()

/-- **A type is taken within the line**, with its range, bounds and elements. -/
theorem takesInline_type : TakesInline type := by
  refine (takesInline_take? (by decide)).bind fun array => ?_
  cases array with
  | some _ =>
    exact takesInline_interval.bind fun _ => (takesInline_expect _ (by decide)).bind fun _ =>
      takesInline_kind.bind fun _ => takesInline_pure _
  | none =>
    refine takesInline_kind.bind fun k => ?_
    cases k with
    | integer | string => exact takesInline_interval.ifRange.bind fun _ => takesInline_pure _
    | real => exact takesInline_realInterval.ifRange.bind fun _ => takesInline_pure _
    | character | boolean => exact (takesInline_noRange _).bind fun _ => takesInline_pure _

/-! ## Lists with commas

Names and arguments are both lists with commas between the items, parsed by two
loops of the same form. They are shown to be one loop, and what it takes is
shown once.
-/

/-- Parses the items after the first of a list, each with a comma in front. -/
def moreItems (item : Parse α) : List Token → Parse (List α)
  | [] => pure []
  | _ :: rounds => do
    match ← take? .comma with
    | none => pure []
    | some _ =>
      let a ← item
      return a :: (← moreItems item rounds)

/-- Further names are further items. -/
theorem moreNames_eq (rounds : List Token) :
    moreNames rounds = moreItems (expect .identifier .variableName) rounds := by
  induction rounds with
  | nil => rfl
  | cons _ rounds ih =>
    unfold moreNames moreItems
    exact bind_congr fun comma => by
      cases comma with
      | none => rfl
      | some _ => simp only [ih]

/-- Further arguments are further items. -/
theorem moreArguments_eq (room : Nat) (rounds : List Token) :
    moreArguments room rounds = moreItems (argument room) rounds := by
  induction rounds with
  | nil => rfl
  | cons _ rounds ih =>
    unfold moreArguments moreItems
    exact bind_congr fun comma => by
      cases comma with
      | none => rfl
      | some _ => simp only [ih]

/-- Behind the first item, they make a list with it. -/
theorem Takes.moreItems {item : Parse α} {Item : List Token → α → Prop} (h : Takes item Item)
    (rounds : List Token) : Takes (moreItems item rounds) fun us as =>
      ∀ ts a, Item ts a → Listed .comma Item (ts ++ us) (a :: as) := by
  have hend : Takes (pure []) fun us as =>
      ∀ ts a, Item ts a → Listed .comma Item (ts ++ us) (a :: as) :=
    takes_pure fun ts a ha => by simpa using Listed.one ha
  induction rounds with
  | nil => exact hend
  | cons _ rounds ih =>
    refine (takes_take? (by decide)).bind fun ts comma hcomma => ?_
    cases comma with
    | none =>
      obtain rfl : ts = [] := hcomma
      exact hend
    | some comma =>
      obtain ⟨rfl, hkind⟩ := hcomma
      refine h.bind fun us b hb => ih.bind fun vs as hmore => takes_pure fun ts a ha => ?_
      simpa using Listed.cons ha hkind (hmore us b hb)

/-! ## Declarations

A group takes the tokens of its names and of its type or literal. Groups with
semicolons between them may go on over the line, so they are put together
elsewhere.
-/

/-- Names are taken as a list with commas. -/
theorem takes_names : Takes names (Listed .comma OneName) := by
  have hname : Takes (expect .identifier .variableName) OneName := takes_expect _ (by decide)
  refine hname.bind fun ts t ht => takes_remaining.bind fun _ rounds hnil => ?_
  subst hnil
  rw [moreNames_eq]
  refine (hname.moreItems rounds).bind fun us names hmore => takes_pure ?_
  simpa using hmore ts t ht

/-- **Variables of one type are taken as they are declared**: perhaps a `var`,
names, a colon and tokens of the type, all on one line. -/
theorem takes_variableGroup : Takes variableGroup VariableGroup := by
  refine (takes_take? (by decide)).bind fun vs word hword => ?_
  refine takes_names.bind fun ts names hnames => ?_
  refine (takes_expect _ (by decide)).bind fun _ colon ⟨hcolon, hkind⟩ => ?_
  refine Takes.bind takesInline_type fun us type htype => takes_pure ?_
  subst hcolon
  cases word with
  | none =>
    obtain rfl : vs = [] := hword
    simpa using VariableGroup.plain hnames hkind htype
  | some word =>
    obtain ⟨rfl, hvar⟩ := hword
    simpa using VariableGroup.var hvar hnames hkind htype

/-- The literal of a constant is taken as a factor. -/
theorem takes_constantValue : Takes constantValue fun ts value =>
    Derives .factor ts (.literal value.1 value.2) := by
  refine takes_peek_bind (takes_failHere _) fun t rest level => ?_
  dsimp only
  split
  all_goals try rename_i hk
  · -- a negative number
    refine takesAt_skip_bind hk (by decide) ?_
    refine (takes_expect _ (by decide)).bind fun us u ⟨hus, hu⟩ => ?_
    refine (takes_number hu).bind fun vs v ⟨hvs, hv⟩ => takes_pure ?_
    subst hus hvs
    exact .negative hk hu hv
  · refine takesAt_skip_bind hk (by decide) ((takes_number hk).bind fun us v ⟨hus, hv⟩ => ?_)
    subst hus
    exact takes_pure (.literal hv)
  · exact takesAt_skip_bind hk (by decide) (takes_pure (.literal (.string hk)))
  · refine takesAt_skip_bind hk (by decide) ((takes_character hk).bind fun us v ⟨hus, hv⟩ => ?_)
    subst hus
    exact takes_pure (.literal hv)
  · exact takesAt_skip_bind hk (by decide) (takes_pure (.literal (.true_ hk)))
  · exact takesAt_skip_bind hk (by decide) (takes_pure (.literal (.false_ hk)))
  · exact takes_failHere _ _

/-- **Constants of one value are taken as they are declared**: names, an equals
sign and a literal. -/
theorem takes_constantGroup : Takes constantGroup ConstantGroup := by
  refine (takes_take? (by decide)).bind fun vs word hword => takes_names.bind fun ts names hnames => ?_
  cases word with
  | some _ => exact takes_failAt _ _
  | none =>
    obtain rfl : vs = [] := hword
    refine (takes_expect _ (by decide)).bind fun _ equals ⟨hequals, hkind⟩ => ?_
    refine takes_constantValue.bind fun us value hvalue => takes_pure ?_
    subst hequals
    simpa using ConstantGroup.mk hnames hkind hvalue

/-- Groups behind the first are taken as groups with semicolons. The induction
is on the rounds. -/
theorem Takes.groupsFrom {group : Parse (List α)} {Group : List Token → List α → Prop}
    (h : Takes group Group) (terminator : Token.Kind) (rounds : List Token) :
    Takes (groupsFrom group terminator rounds) (Grouped Group) := by
  induction rounds with
  | nil => exact h.mono fun _ _ => .last
  | cons _ rounds ih =>
    refine (takes_at terminator).bind fun _ terminated hnil => ?_
    subst hnil
    split
    · exact takes_pure .nil
    · refine h.bind fun ts first hfirst => (takes_take? (by decide)).bind fun us sep hsep => ?_
      cases sep with
      | none =>
        obtain rfl : us = [] := hsep
        refine takes_pure ?_
        simpa using Grouped.last hfirst
      | some sep =>
        obtain ⟨rfl, hkind⟩ := hsep
        refine ih.bind fun vs rest hrest => takes_pure ?_
        simpa using Grouped.cons hfirst hkind hrest

/-- Groups are taken with semicolons between them; there may be none, and one
semicolon at the end. -/
theorem Takes.groups {group : Parse (List α)} {Group : List Token → List α → Prop}
    (h : Takes group Group) (terminator : Token.Kind) :
    Takes (groups group terminator) (Grouped Group) :=
  takes_remaining.bind fun _ rounds hnil => hnil ▸ h.groupsFrom terminator rounds

/-! ## Arguments

The line of an argument is that of its first token, be this `var` or the start
of a condition; with all its tokens on one line that is the line of each.
-/

/-- An argument has the line of its first token, which is the first one of its
condition or `var`. -/
theorem takes_argument (room : Nat) : Takes (argument room) Argument.Written := by
  have hvalue (line : Nat) (c : Cursor) (hline : ∀ t ∈ c.rest.head?, line = t.line) :
      TakesAt c (condition room >>= fun e => pure (Argument.value line e)) Argument.Written := by
    intro a c' h
    obtain ⟨e, c₁, he, ha⟩ := bind_ok h
    cases ha
    obtain ⟨ts, hts, hlevel, hderives⟩ := takes_condition room c e c' he
    obtain ⟨t, ts, rfl⟩ := List.exists_cons_of_ne_nil hderives.ne_nil
    obtain rfl : line = t.line := hline t (by rw [hts]; rfl)
    exact ⟨t :: ts, hts, hlevel, .value hderives⟩
  rintro ⟨rest, level⟩ a c' h
  rw [argument, bind_eq (x := peek) rfl] at h
  cases rest with
  | nil =>
    rw [take_none_bind (by decide)] at h
    exact hvalue 0 _ (by simp) a c' h
  | cons t rest =>
    by_cases ht : t.kind = .var
    · have hname : Takes (expect .identifier .variableAfterVar >>= fun name =>
          pure (Argument.reference t.line name.text name.line))
          fun us a => Argument.Written (t :: us) a := by
        refine (takes_expect _ (by decide)).bind fun us name ⟨hus, hkind⟩ => takes_pure ?_
        subst hus
        exact .reference ht hkind
      rw [take_bind ht (by decide)] at h
      obtain ⟨us, hus, hlevel, hwritten⟩ := hname _ a c' h
      exact ⟨t :: us, congrArg (t :: ·) hus, hlevel, hwritten⟩
    · rw [take_none_bind (by simpa [next] using ht)] at h
      exact hvalue t.line _ (by simp) a c' h

/-- Arguments are taken as a list with commas, or there are none. -/
theorem takes_arguments (room : Nat) : Takes (arguments room) fun ts args =>
    ts = [] ∧ args = [] ∨ Listed .comma Argument.Written ts args := by
  refine (takes_at _).bind fun _ ended hnil => ?_
  subst hnil
  split
  · exact takes_pure (.inl ⟨rfl, rfl⟩)
  · refine (takes_argument room).bind fun ts a ha => takes_remaining.bind fun _ rounds hnil => ?_
    subst hnil
    rw [moreArguments_eq]
    refine ((takes_argument room).moreItems rounds).bind fun us args hmore => takes_pure (.inr ?_)
    simpa using hmore ts a ha

end Parse
end Shank
