/-
# Two runs of a parser

A parser is run on two token streams that are coupled: their next tokens are the
same up to the numbers of lines, as long as the first stream is not over, and
what is left of them is coupled again (`Coupling`). There are two exceptions.

| the streams | differ in |
| --- | --- |
| line ends | one of them may stand for several, so streams need only be coupled when all line ends in front of them are taken |
| `elsif` | the second stream may have `else if` for it, if all faults count as the same (`Respelled`) |

Two parsers are alike (`Alike`) if, on such streams, the first one gets to where
its stream is over, or both come to the same up to the numbers of lines. What is
compared of their results is up to a function `f`.

| pieces | condition |
| --- | --- |
| `peek`, then something | alike when nothing is left, and from each pair of next tokens (`From`) |
| `skip`, `take?`, then something | alike within one token less (`Within`), unless what it takes is loose (`IsLoose`) |
| `remaining`, then something | alike within as many tokens as it gives |
| `endLine`, `skipLineEnds` | none |

The bounds on the tokens left are for loops, whose rounds are the tokens that
were left before them: with a round for each of them, neither loop ends before
its stream.
-/

import Shank.Proofs.Parse.Advance
import Shank.Proofs.Parse.Inversion
import Shank.Proofs.Renumber

namespace Shank
namespace Parse

variable {α β γ δ : Type}

/-- Tokens without the line ends in front of them. -/
def pastLineEnds (ts : List Token) : List Token :=
  ts.dropWhile fun t => t.kind == .endOfLine

/-- To skip line ends leaves what is behind them, on the same level. -/
theorem skipLineEnds_apply (c : Cursor) :
    skipLineEnds c = .ok () ⟨pastLineEnds c.rest, c.level⟩ :=
  rfl

/-- What is behind the line ends is the end of the tokens. -/
theorem pastLineEnds_suffix (ts : List Token) : pastLineEnds ts <:+ ts :=
  List.dropWhile_suffix _

/-- A line end in front is skipped. -/
theorem pastLineEnds_cons {t : Token} {ts : List Token} (h : t.kind = .endOfLine) :
    pastLineEnds (t :: ts) = pastLineEnds ts :=
  List.dropWhile_cons_of_pos (by simp [h])

/-- Another token in front stays, with all that is behind it. -/
theorem pastLineEnds_of_ne {t : Token} {ts : List Token} (h : t.kind ≠ .endOfLine) :
    pastLineEnds (t :: ts) = t :: ts :=
  List.dropWhile_cons_of_neg (by simpa using h)

/-- What comes behind line ends is none. -/
theorem kind_of_pastLineEnds {ts rest : List Token} {t : Token} (h : pastLineEnds ts = t :: rest) :
    t.kind ≠ .endOfLine := by
  have hhead := List.head?_dropWhile_not (fun t : Token => t.kind == .endOfLine) ts
  rw [show ts.dropWhile _ = t :: rest from h] at hhead
  simpa using hhead

/-- A line that ends here is ended, with the line ends behind. -/
theorem endLine_of_eq {t : Token} (h : t.kind = .endOfLine) (rest : List Token) (level : Int) :
    endLine ⟨t :: rest, level⟩ = .ok () ⟨pastLineEnds (t :: rest), level⟩ := by
  have hlevel : t.levelChange = 0 := levelChange_of_kind (by rw [h]; decide)
  rw [endLine, bind_eq (expect_of_eq h rest level), skipLineEnds_apply, pastLineEnds_cons h, hlevel,
    add_zero]

/-- A line that does not end here is refused at the next token. -/
theorem endLine_of_ne {t : Token} (h : t.kind ≠ .endOfLine) (rest : List Token) (level : Int) :
    endLine ⟨t :: rest, level⟩ =
      .error (.fault ⟨.expected .endOfLine, some t⟩) ⟨t :: rest, level⟩ := by
  rw [endLine, bind_apply, expect_of_ne h]

/-- A token is taken if it comes next. -/
theorem take?_cons {kind : Token.Kind} (hkind : ¬IsLevel kind) (t : Token) (rest : List Token)
    (level : Int) : take? kind ⟨t :: rest, level⟩ =
      if t.kind = kind then .ok (some t) ⟨rest, level⟩ else .ok none ⟨t :: rest, level⟩ := by
  unfold take?
  dsimp only
  split
  · rename_i hk
    rw [levelChange_of_kind (hk ▸ hkind), add_zero]
  · rfl

/-- A parser leaves the end of what it starts on. -/
def Shrinks (x : Parse α) : Prop :=
  ∀ c, (stop (x c)).rest <:+ c.rest

/-- Two parsers in a row leave the end of what they start on if each of them
does. -/
theorem Shrinks.bind {x : Parse α} {k : α → Parse β} (hx : Shrinks x) (hk : ∀ a, Shrinks (k a)) :
    Shrinks (x >>= k) := by
  intro c
  have hfirst := hx c
  rw [bind_apply]
  cases hr : x c with
  | ok a c₁ =>
    rw [hr] at hfirst
    exact (hk a c₁).trans hfirst
  | error h c₁ =>
    rw [hr] at hfirst
    exact hfirst

/-- What does not move the cursor leaves all of it. -/
theorem shrinks_still {x : Parse α} (h : ∀ c, stop (x c) = c) : Shrinks x := by
  intro c
  have hrest : (stop (x c)).rest = c.rest := congrArg Cursor.rest (h c)
  exact hrest ▸ List.suffix_rfl

/-- To skip a token leaves those behind it. -/
theorem shrinks_skip : Shrinks skip := by
  rintro ⟨rest, level⟩
  cases rest with
  | nil => exact List.suffix_rfl
  | cons t rest => exact List.suffix_cons t rest

/-- To take a token leaves those behind it, or all. -/
theorem shrinks_take? (kind : Token.Kind) : Shrinks (take? kind) := by
  rintro ⟨rest, level⟩
  cases rest with
  | nil => exact List.suffix_rfl
  | cons t rest =>
    unfold take?
    dsimp only
    split
    · exact List.suffix_cons t rest
    · exact List.suffix_rfl

/-- **Every parser leaves the end of what it starts on.** -/
theorem compositional_shrinks : Compositional Shrinks where
  pure _ := shrinks_still fun _ => rfl
  bind := Shrinks.bind
  peek := shrinks_still fun _ => rfl
  at_ _ := shrinks_still fun _ => rfl
  skip := shrinks_skip
  take? := shrinks_take?
  skipLineEnds c := pastLineEnds_suffix c.rest
  remaining := shrinks_still fun _ => rfl
  failAt _ _ := shrinks_still fun _ => rfl
  numeral _ := shrinks_still fun _ => rfl
  tooDeep := shrinks_still fun _ => rfl

/-- A parser that leaves a suffix leaves no more tokens than there were. -/
theorem Shrinks.length_le {x : Parse α} (h : Shrinks x) {c c₁ : Cursor} {a : α}
    (hr : x c = .ok a c₁) : c₁.rest.length ≤ c.rest.length := by
  have hsuffix := h c
  rw [hr] at hsuffix
  exact hsuffix.length_le

/-- A parser that takes a token when it succeeds. -/
def Consumes (x : Parse α) : Prop :=
  ∀ c a c₁, x c = .ok a c₁ → c₁.rest.length < c.rest.length

/-- What takes a token that has to come. -/
theorem consumes_expect_bind {kind : Token.Kind} {item : Item} {k : Token → Parse β}
    (hk : ∀ t, Shrinks (k t)) : Consumes (expect kind item >>= k) := by
  rintro ⟨ts, level⟩ b c₁ h
  obtain ⟨t, c₂, hexpect, hrest⟩ := bind_ok h
  obtain ⟨rest, rfl, -, rfl⟩ := expect_ok hexpect
  exact ((hk t).length_le hrest).trans_lt (Nat.lt_succ_self _)

/-! ## Coupled streams

A coupling says which streams belong together, what their next tokens are like,
and when the first of them is over, from where on nothing is said. Two parsers
are alike when they keep it. The theorems that compare two parsings are about
couplings of their own: other tokens behind a fault, others behind all tokens,
more line ends between statements, and another spelling of `elsif`.
-/

/-- The kinds that coupled streams may differ in. -/
def IsLoose (kind : Token.Kind) : Prop :=
  kind = .endOfLine ∨ kind = .elsif ∨ kind = .else_

instance (kind : Token.Kind) : Decidable (IsLoose kind) :=
  inferInstanceAs (Decidable (_ ∨ _))

/-- The first stream goes on with `elsif` and the second one with `else if`, all
on the same line. -/
inductive Respelled (lines : Nat → Nat) (Rel : List Token → List Token → Prop) :
    List Token → List Token → Prop
  | intro {t e u : Token} {rest rest' : List Token} (ht : t.kind = .elsif) (he : e.kind = .else_)
      (hu : u.kind = .if_) (hline : lines t.line = lines e.line) (hline' : lines t.line = lines u.line)
      (hrest : Rel rest rest') : Respelled lines Rel (t :: rest) (e :: u :: rest')

/-- A relation between token streams whose next tokens are the same up to the
numbers of lines. -/
structure Coupling where
  /-- What the numbers are compared by. -/
  lines : Nat → Nat
  /-- Is there nothing left of the first stream that may be compared? -/
  Over : List Token → Prop
  Rel : List Token → List Token → Prop
  /-- The halts that count as the same. -/
  Halts : ParseHalt → ParseHalt → Prop := fun h h' => h.renumber lines = h'.renumber lines
  halts_of_eq {h h' : ParseHalt} : h.renumber lines = h'.renumber lines → Halts h h' := by
    exact fun h => h
  over_suffix {ts us : List Token} : us <:+ ts → Over ts → Over us
  head {ts us : List Token} : Rel ts us → Over ts ∨ ts = [] ∧ us = [] ∨
    (∃ t rest u rest', ts = t :: rest ∧ us = u :: rest' ∧ t.renumber lines = u.renumber lines ∧
      (t.kind ≠ .endOfLine → Rel rest rest')) ∨
    Respelled lines Rel ts us ∧ ∀ h h', Halts h h'
  lineEnds {ts us : List Token} : Rel ts us →
    Over (pastLineEnds ts) ∨ Rel (pastLineEnds ts) (pastLineEnds us)

namespace Coupling

variable (κ : Coupling) {n n' : Nat}

/-- All halts count as the same. -/
def Lax : Prop :=
  ∀ h h', κ.Halts h h'

/-- Coupled streams of at most so many tokens. -/
structure Within (n n' : Nat) (ts us : List Token) : Prop where
  rel : κ.Rel ts us
  le : ts.length ≤ n
  le' : us.length ≤ n'

/-- Coupled streams with these next tokens. -/
structure From (n n' : Nat) (t u : Token) (ts us : List Token) : Prop extends
    κ.Within n n' ts us where
  head : ts.head? = some t
  head' : us.head? = some u

/-- Two runs come to the same up to the numbers of lines, and if they succeed,
to coupled streams. -/
inductive Similar (f : α → γ) :
    EStateM.Result ParseHalt Cursor α → EStateM.Result ParseHalt Cursor α → Prop
  | ok {a a' : α} {c c' : Cursor} (ha : f a = f a') (hrel : κ.Rel c.rest c'.rest)
      (hlevel : c.level = c'.level) : Similar f (.ok a c) (.ok a' c')
  | error {h h' : ParseHalt} {c c' : Cursor} (hh : κ.Halts h h') :
      Similar f (.error h c) (.error h' c')

/-- On streams of a relation, the first parser gets to where its stream is over,
or the two parsers come to the same. -/
structure Alike (R : List Token → List Token → Prop) (f : α → γ) (x x' : Parse α) : Prop where
  shrinks : Shrinks x
  shrinks' : Shrinks x'
  along : ∀ c c', R c.rest c'.rest → c.level = c'.level →
    κ.Over (stop (x c)).rest ∨ κ.Similar f (x c) (x' c')

variable {κ} {R S : List Token → List Token → Prop} {f : α → γ} {g : β → δ} {x x' : Parse α}

/-- Parsers that are alike on some streams are so on fewer. -/
theorem Alike.mono (h : κ.Alike R f x x') (hS : ∀ ts us, S ts us → R ts us) : κ.Alike S f x x' :=
  ⟨h.shrinks, h.shrinks', fun c c' hc => h.along c c' (hS _ _ hc)⟩

/-- What does not depend on the next tokens. -/
theorem Alike.from {t u : Token} (h : κ.Alike (κ.Within n n') f x x') :
    κ.Alike (κ.From n n' t u) f x x' :=
  h.mono fun _ _ h => h.toWithin

/-- Streams that are over stay so. -/
theorem over_stop (hx : Shrinks x) {c : Cursor} (h : κ.Over c.rest) : κ.Over (stop (x c)).rest :=
  κ.over_suffix (hx c) h

/-- Parsers that take nothing are alike if their results are. -/
theorem alike_pure {a a' : α} (ha : f a = f a') :
    κ.Alike (κ.Within n n') f (pure a) (pure a') where
  shrinks := compositional_shrinks.pure a
  shrinks' := compositional_shrinks.pure a'
  along _ _ hc hlevel := .inr (.ok ha hc.rel hlevel)

/-- Parsers that halt are alike if their halts count as the same. -/
theorem alike_throw {h h' : ParseHalt} (hh : κ.Halts h h') :
    κ.Alike R f (throw h) (throw h') where
  shrinks := shrinks_still fun _ => rfl
  shrinks' := shrinks_still fun _ => rfl
  along _ _ _ _ := .inr (.error hh)

/-- Parsers that fail at tokens are alike if these differ in their places only. -/
theorem alike_failAt {problem : SyntaxProblem} {t u : Option Token}
    (h : t.map (Token.renumber κ.lines) = u.map (Token.renumber κ.lines)) :
    κ.Alike R f (failAt problem t) (failAt problem u) :=
  alike_throw (κ.halts_of_eq (by simp only [ParseHalt.renumber, SyntaxFault.renumber, h]))

/-- What follows need only be alike within the tokens that are left for it. -/
theorem Alike.bind_within {m m' : Nat} {k k' : α → Parse β} (hx : κ.Alike (κ.Within n n') f x x')
    (hm : ∀ c a c₁, x c = .ok a c₁ → c.rest.length ≤ n → c₁.rest.length ≤ m)
    (hm' : ∀ c a c₁, x' c = .ok a c₁ → c.rest.length ≤ n' → c₁.rest.length ≤ m')
    (hk : ∀ a a', f a = f a' → κ.Alike (κ.Within m m') g (k a) (k' a')) :
    κ.Alike (κ.Within n n') g (x >>= k) (x' >>= k') where
  shrinks := hx.shrinks.bind fun a => (hk a a rfl).shrinks
  shrinks' := hx.shrinks'.bind fun a => (hk a a rfl).shrinks'
  along c c' hc hlevel := by
    have h := hx.along c c' hc hlevel
    have hle (a c₁) (hr : x c = .ok a c₁) : c₁.rest.length ≤ m := hm c a c₁ hr hc.le
    have hle' (a c₁) (hr : x' c' = .ok a c₁) : c₁.rest.length ≤ m' := hm' c' a c₁ hr hc.le'
    rw [bind_apply, bind_apply]
    generalize x c = r at h hle
    generalize x' c' = r' at h hle'
    rcases h with hover | hsimilar
    · cases r with
      | ok a c₁ => exact .inl (over_stop (hk a a rfl).shrinks hover)
      | error h c₁ => exact .inl hover
    · cases hsimilar with
      | ok ha hrel hlevel =>
        exact (hk _ _ ha).along _ _ ⟨hrel, hle _ _ rfl, hle' _ _ rfl⟩ hlevel
      | error hh => exact .inr (.error hh)

/-- **Two parsers in a row are alike** if the first ones are, and the second
ones on results that are alike. -/
theorem Alike.bind {k k' : α → Parse β} (hx : κ.Alike (κ.Within n n') f x x')
    (hk : ∀ a a', f a = f a' → κ.Alike (κ.Within n n') g (k a) (k' a')) :
    κ.Alike (κ.Within n n') g (x >>= k) (x' >>= k') :=
  hx.bind_within (fun _ _ _ hr => (hx.shrinks.length_le hr).trans)
    (fun _ _ _ hr => (hx.shrinks'.length_le hr).trans) hk

/-- What follows on parsers that take a token. -/
theorem Alike.bind_consumes {k k' : α → Parse β} (hx : κ.Alike (κ.Within n n') f x x')
    (hlt : Consumes x) (hlt' : Consumes x')
    (hk : ∀ a a', f a = f a' → κ.Alike (κ.Within (n - 1) (n' - 1)) g (k a) (k' a')) :
    κ.Alike (κ.Within n n') g (x >>= k) (x' >>= k') :=
  hx.bind_within (fun c a c₁ hr hle => Nat.le_sub_one_of_lt ((hlt c a c₁ hr).trans_le hle))
    (fun c a c₁ hr hle => Nat.le_sub_one_of_lt ((hlt' c a c₁ hr).trans_le hle)) hk

/-- Something is made of what two parsers give. -/
theorem Alike.map {k k' : α → β} (hx : κ.Alike (κ.Within n n') f x x')
    (hk : ∀ a a', f a = f a' → g (k a) = g (k' a')) :
    κ.Alike (κ.Within n n') g (x >>= fun a => pure (k a)) (x' >>= fun a => pure (k' a)) :=
  hx.bind fun a a' ha => alike_pure (hk a a' ha)

/-! ## Next tokens

What a parser does next depends on the next token of its stream, so the rules
for parsers that look at it have a case for each way in which the next tokens of
coupled streams may be related.
-/

/-- Coupled streams that are not over end together, or go on with a token each,
or are spelled differently. -/
theorem Within.cases {ts us : List Token} (h : κ.Within n n' ts us) :
    κ.Over ts ∨ ts = [] ∧ us = [] ∨
    (∃ t rest u rest', ts = t :: rest ∧ us = u :: rest' ∧ t.renumber κ.lines = u.renumber κ.lines ∧
      (t.kind ≠ .endOfLine → κ.Within (n - 1) (n' - 1) rest rest')) ∨
    Respelled κ.lines (κ.Within (n - 1) (n' - 1)) ts us ∧ κ.Lax := by
  rcases κ.head h.rel with hover | hnil | ⟨t, rest, u, rest', rfl, rfl, htu, hrest⟩ |
    ⟨⟨ht, he, hu, hline, hline', hrest⟩, hlax⟩
  · exact .inl hover
  · exact .inr (.inl hnil)
  · have hle := h.le
    have hle' := h.le'
    simp only [List.length_cons] at hle hle'
    exact .inr (.inr (.inl ⟨t, rest, u, rest', rfl, rfl, htu, fun ht =>
      ⟨hrest ht, Nat.le_sub_one_of_lt hle, Nat.le_sub_one_of_lt hle'⟩⟩))
  · have hle := h.le
    have hle' := h.le'
    simp only [List.length_cons] at hle hle'
    exact .inr (.inr (.inr ⟨⟨ht, he, hu, hline, hline', hrest, by omega, by omega⟩, hlax⟩))

/-- Coupled streams that are not over end together, or go on. -/
theorem Within.ends_or_goes_on {ts us : List Token} (h : κ.Within n n' ts us) :
    κ.Over ts ∨ ts = [] ∧ us = [] ∨ ∃ t rest u rest', ts = t :: rest ∧ us = u :: rest' := by
  rcases h.cases with hover | hnil | ⟨t, rest, u, rest', rfl, rfl, -⟩ | ⟨⟨-, -, -, -, -, -⟩, -⟩
  · exact .inl hover
  · exact .inr (.inl hnil)
  · exact .inr (.inr ⟨_, _, _, _, rfl, rfl⟩)
  · exact .inr (.inr ⟨_, _, _, _, rfl, rfl⟩)

/-- Parsers are alike if they are so where both streams end, where both go on
with the same, and where one goes on with `elsif` and the other with `else if`. -/
theorem alike_of_head (hx : Shrinks x) (hx' : Shrinks x')
    (hnil : ∀ level, κ.Within n n' [] [] →
      κ.Over (stop (x ⟨[], level⟩)).rest ∨ κ.Similar f (x ⟨[], level⟩) (x' ⟨[], level⟩))
    (hcons : ∀ t rest u rest' level, κ.From n n' t u (t :: rest) (u :: rest') →
      t.renumber κ.lines = u.renumber κ.lines →
      (t.kind ≠ .endOfLine → κ.Within (n - 1) (n' - 1) rest rest') →
      κ.Over (stop (x ⟨t :: rest, level⟩)).rest ∨
        κ.Similar f (x ⟨t :: rest, level⟩) (x' ⟨u :: rest', level⟩))
    (hrespelled : ∀ t rest e u rest' level, κ.From n n' t e (t :: rest) (e :: u :: rest') →
      Respelled κ.lines (κ.Within (n - 1) (n' - 1)) (t :: rest) (e :: u :: rest') → κ.Lax →
      κ.Over (stop (x ⟨t :: rest, level⟩)).rest ∨
        κ.Similar f (x ⟨t :: rest, level⟩) (x' ⟨e :: u :: rest', level⟩)) :
    κ.Alike (κ.Within n n') f x x' := by
  refine ⟨hx, hx', ?_⟩
  rintro ⟨ts, level⟩ ⟨us, _⟩ hc (rfl : level = _)
  rcases hc.cases with hover | ⟨rfl, rfl⟩ | ⟨t, rest, u, rest', rfl, rfl, htu, hrest⟩ | ⟨h, hlax⟩
  · exact .inl (over_stop hx hover)
  · exact hnil level hc
  · exact hcons t rest u rest' level ⟨hc, rfl, rfl⟩ htu hrest
  · obtain ⟨ht, he, hu, hline, hline', hrest⟩ := h
    exact hrespelled _ _ _ _ _ level ⟨hc, rfl, rfl⟩ ⟨ht, he, hu, hline, hline', hrest⟩ hlax

/-- Parsers that fail at their next tokens, if all halts count as the same. -/
theorem alike_of_fails (hlax : κ.Lax) {t u : Token} (hx : Shrinks x) (hx' : Shrinks x')
    (h : ∀ rest level, ∃ e c, x ⟨t :: rest, level⟩ = .error e c)
    (h' : ∀ rest level, ∃ e c, x' ⟨u :: rest, level⟩ = .error e c) :
    κ.Alike (κ.From n n' t u) f x x' := by
  refine ⟨hx, hx', ?_⟩
  rintro ⟨ts, level⟩ ⟨us, level'⟩ hc -
  obtain ⟨rest, rfl⟩ := List.head?_eq_some_iff.1 hc.head
  obtain ⟨rest', rfl⟩ := List.head?_eq_some_iff.1 hc.head'
  obtain ⟨e, c, he⟩ := h rest level
  obtain ⟨e', c', he'⟩ := h' rest' level'
  rw [he, he']
  exact .inr (.error (hlax e e'))

/-- Where one of the streams has ended. -/
theorem alike_at_end (hn : n = 0 ∨ n' = 0) (hx : Shrinks x) (hx' : Shrinks x')
    (h : ∀ level, κ.Rel [] [] → κ.Similar f (x ⟨[], level⟩) (x' ⟨[], level⟩)) :
    κ.Alike (κ.Within n n') f x x' := by
  have hcontra {t u : Token} {rest rest' : List Token} (hc : κ.Within n n' (t :: rest) (u :: rest')) :
      False := by
    have hle := hc.le
    have hle' := hc.le'
    simp only [List.length_cons] at hle hle'
    omega
  exact alike_of_head hx hx' (fun level hc => .inr (h level hc.rel))
    (fun _ _ _ _ _ hc _ _ => (hcontra hc.toWithin).elim)
    fun _ _ _ _ _ _ hc _ _ => (hcontra hc.toWithin).elim

/-- A loop is taken round by round on both sides, as long as there are tokens. -/
theorem alike_rounds {loop : List Token → Parse α} (hshrinks : ∀ rounds, Shrinks (loop rounds))
    (hend : ∀ rounds rounds' level, κ.Rel [] [] →
      κ.Similar f (loop rounds ⟨[], level⟩) (loop rounds' ⟨[], level⟩))
    (hround : ∀ t rounds t' rounds',
      κ.Alike (κ.Within rounds.length rounds'.length) f (loop rounds) (loop rounds') →
      κ.Alike (κ.Within (t :: rounds).length (t' :: rounds').length) f (loop (t :: rounds))
        (loop (t' :: rounds'))) (rounds rounds' : List Token) :
    κ.Alike (κ.Within rounds.length rounds'.length) f (loop rounds) (loop rounds') := by
  induction rounds generalizing rounds' with
  | nil => exact alike_at_end (.inl rfl) (hshrinks _) (hshrinks _) (hend _ _)
  | cons t rounds ih =>
    cases rounds' with
    | nil => exact alike_at_end (.inr rfl) (hshrinks _) (hshrinks _) (hend _ _)
    | cons t' rounds' => exact hround t rounds t' rounds' (ih rounds')

/-- What follows on a look at the next tokens. There are none on both sides, or
they differ in their places only, or they are an `elsif` and an `else`, if all
faults count as the same. -/
theorem alike_peek_bind {k k' : Option Token → Parse β}
    (hnone : κ.Alike (κ.Within n n') g (k none) (k' none))
    (hsome : ∀ kind text line column line' column', κ.lines line = κ.lines line' →
      (⟨kind, text, line, column⟩ : Token).renumber κ.lines =
        (⟨kind, text, line', column'⟩ : Token).renumber κ.lines →
      κ.Alike (κ.From n n' ⟨kind, text, line, column⟩ ⟨kind, text, line', column'⟩) g
        (k (some ⟨kind, text, line, column⟩)) (k' (some ⟨kind, text, line', column'⟩)))
    (hrespelled : κ.Lax → ∀ text line column text' line' column', κ.lines line = κ.lines line' →
      κ.Alike (κ.From n n' ⟨.elsif, text, line, column⟩ ⟨.else_, text', line', column'⟩) g
        (k (some ⟨.elsif, text, line, column⟩)) (k' (some ⟨.else_, text', line', column'⟩))) :
    κ.Alike (κ.Within n n') g (peek >>= k) (peek >>= k') := by
  refine alike_of_head (compositional_shrinks.peek.bind fun o => ?_)
    (compositional_shrinks.peek.bind fun o => ?_)
    (fun level hc => hnone.along ⟨[], level⟩ ⟨[], level⟩ hc rfl)
    (fun t rest u rest' level hc htu _ => ?_) fun t rest e u rest' level hc h hlax => ?_
  · cases o with
    | none => exact hnone.shrinks
    | some t => exact (hsome t.kind t.text t.line t.column _ _ rfl rfl).shrinks
  · cases o with
    | none => exact hnone.shrinks'
    | some t => exact (hsome t.kind t.text t.line t.column _ _ rfl rfl).shrinks'
  · obtain ⟨kind, text, line, column⟩ := t
    obtain ⟨_, _, line', column'⟩ := u
    obtain ⟨rfl, rfl, hline, -⟩ := Token.renumber_eq htu
    exact (hsome kind text line column line' column' hline htu).along ⟨_, level⟩ ⟨_, level⟩ hc rfl
  · obtain ⟨kind, text, line, column⟩ := t
    obtain ⟨kind', text', line', column'⟩ := e
    obtain ⟨ht, he, -, hline, -, -⟩ := h
    obtain rfl : kind = .elsif := ht
    obtain rfl : kind' = .else_ := he
    exact (hrespelled hlax text line column text' line' column' hline).along ⟨_, level⟩ ⟨_, level⟩ hc rfl

/-- Tokens of one kind change the level alike. -/
theorem levelChange_eq {t u : Token} (h : t.kind = u.kind) : t.levelChange = u.levelChange := by
  simp only [Token.levelChange, h]

/-- What follows on a token that is skipped. -/
theorem Alike.skip_bind {kind : Token.Kind} {text : String} {line line' column column' : Nat}
    {k k' : Unit → Parse β} (hkind : ¬IsLoose kind)
    (hk : κ.Alike (κ.Within (n - 1) (n' - 1)) g (k ()) (k' ())) :
    κ.Alike (κ.From n n' ⟨kind, text, line, column⟩ ⟨kind, text, line', column'⟩) g
      (skip >>= k) (skip >>= k') := by
  have hshrinks : Shrinks (skip >>= k) := shrinks_skip.bind fun _ => hk.shrinks
  refine ⟨hshrinks, shrinks_skip.bind fun _ => hk.shrinks', ?_⟩
  rintro ⟨ts, level⟩ ⟨us, _⟩ hc (rfl : level = _)
  rcases hc.toWithin.cases with hover | ⟨rfl, rfl⟩ | ⟨t, rest, u, rest', rfl, rfl, -, hrest⟩ |
    ⟨⟨ht, -, -, -, -, -⟩, -⟩
  · exact .inl (over_stop hshrinks hover)
  · cases hc.head
  · cases hc.head
    cases hc.head'
    exact hk.along ⟨rest, _⟩ ⟨rest', _⟩ (hrest fun h => hkind (.inl h)) rfl
  · cases hc.head
    exact (hkind (.inr (.inl ht))).elim

/-- What follows on a token that is taken if it comes next. -/
theorem alike_take?_bind {kind : Token.Kind} {k k' : Option Token → Parse β}
    (hkind : ¬IsLoose kind)
    (hsome : ∀ t u, t.renumber κ.lines = u.renumber κ.lines →
      κ.Alike (κ.Within (n - 1) (n' - 1)) g (k (some t)) (k' (some u)))
    (hnone : κ.Alike (κ.Within n n') g (k none) (k' none)) :
    κ.Alike (κ.Within n n') g (take? kind >>= k) (take? kind >>= k') := by
  refine alike_of_head ((shrinks_take? kind).bind fun o => ?_) ((shrinks_take? kind).bind fun o => ?_)
    (fun level hc => hnone.along ⟨[], level⟩ ⟨[], level⟩ hc rfl)
    (fun t rest u rest' level hc htu hrest => ?_) fun t rest e u rest' level hc h hlax => ?_
  · cases o with
    | none => exact hnone.shrinks
    | some t => exact (hsome t t rfl).shrinks
  · cases o with
    | none => exact hnone.shrinks'
    | some t => exact (hsome t t rfl).shrinks'
  · have hku : t.kind = u.kind := (Token.renumber_eq htu).1
    rw [bind_apply, bind_apply]
    by_cases ht : t.kind = kind
    · have hlevel : level + t.levelChange = level + u.levelChange := by rw [levelChange_eq hku]
      simp only [take?, if_pos ht, if_pos (hku ▸ ht)]
      exact (hsome t u htu).along ⟨rest, _⟩ ⟨rest', _⟩ (hrest fun h => hkind (.inl (ht ▸ h))) hlevel
    · simp only [take?, if_neg ht, if_neg (hku ▸ ht)]
      exact hnone.along ⟨_, level⟩ ⟨_, level⟩ hc.toWithin rfl
  · obtain ⟨ht, he, -, -, -, -⟩ := h
    have htake : t.kind ≠ kind := fun h => hkind (.inr (.inl (h ▸ ht)))
    have htake' : e.kind ≠ kind := fun h => hkind (.inr (.inr (h ▸ he)))
    rw [bind_apply, bind_apply]
    simp only [take?, if_neg htake, if_neg htake']
    exact hnone.along ⟨_, level⟩ ⟨_, level⟩ hc.toWithin rfl

/-- What follows on a question for a kind that the streams have in common. -/
theorem alike_at_bind {kind : Token.Kind} {k k' : Bool → Parse β}
    (hkind : kind ≠ .elsif ∧ kind ≠ .else_) (hk : ∀ b, κ.Alike (κ.Within n n') g (k b) (k' b)) :
    κ.Alike (κ.Within n n') g (at_ kind >>= k) (at_ kind >>= k') := by
  have hsame {t u : Token} {rest rest' : List Token} {level : Int}
      (hc : κ.Within n n' (t :: rest) (u :: rest')) (hb : (t.kind == kind) = (u.kind == kind)) :
      κ.Over (stop ((at_ kind >>= k) ⟨t :: rest, level⟩)).rest ∨
        κ.Similar g ((at_ kind >>= k) ⟨t :: rest, level⟩) ((at_ kind >>= k') ⟨u :: rest', level⟩) := by
    rw [bind_apply, bind_apply]
    simp only [at_, List.head?_cons, Option.any_some, ← hb]
    exact (hk _).along ⟨_, level⟩ ⟨_, level⟩ hc rfl
  refine alike_of_head ((compositional_shrinks.at_ kind).bind fun b => (hk b).shrinks)
    ((compositional_shrinks.at_ kind).bind fun b => (hk b).shrinks')
    (fun level hc => (hk false).along ⟨[], level⟩ ⟨[], level⟩ hc rfl)
    (fun t rest u rest' level hc htu _ => hsame hc.toWithin (by rw [(Token.renumber_eq htu).1]))
    fun t rest e u rest' level hc h _ => hsame hc.toWithin ?_
  obtain ⟨ht, he, -, -, -, -⟩ := h
  rw [ht, he, beq_eq_false_iff_ne.2 hkind.1.symm, beq_eq_false_iff_ne.2 hkind.2.symm]

/-- What follows on all tokens that are left, which may be used to count rounds. -/
theorem alike_remaining_bind {k k' : List Token → Parse β}
    (hk : ∀ ts us, κ.Alike (κ.Within ts.length us.length) g (k ts) (k' us)) :
    κ.Alike (κ.Within n n') g (remaining >>= k) (remaining >>= k') where
  shrinks := compositional_shrinks.remaining.bind fun ts => (hk ts ts).shrinks
  shrinks' := compositional_shrinks.remaining.bind fun ts => (hk ts ts).shrinks'
  along c c' hc hlevel := (hk c.rest c'.rest).along c c' ⟨hc.rel, le_rfl, le_rfl⟩ hlevel

/-- To fail at the next tokens is alike. -/
theorem alike_failHere (problem : SyntaxProblem) :
    κ.Alike (κ.Within n n') f (failHere problem : Parse α) (failHere problem) :=
  alike_peek_bind (alike_failAt rfl) (fun _ _ _ _ _ _ _ ht => alike_failAt (congrArg some ht))
    fun hlax _ _ _ _ _ _ _ => alike_throw (hlax _ _)

/-- To take a token that has to come is alike, if it is of a kind that the
streams have in common. -/
theorem alike_expect {kind : Token.Kind} (hkind : ¬IsLoose kind) (item : Item) :
    κ.Alike (κ.Within n n') (Token.renumber κ.lines) (expect kind item) (expect kind item) :=
  alike_take?_bind hkind (fun _ _ htu => alike_pure htu) (alike_failHere _)

/-- To skip line ends is alike, be there one or more of them. -/
theorem alike_skipLineEnds : κ.Alike (κ.Within n n') id skipLineEnds skipLineEnds where
  shrinks := compositional_shrinks.skipLineEnds
  shrinks' := compositional_shrinks.skipLineEnds
  along _ _ hc hlevel := (κ.lineEnds hc.rel).imp id fun hrel => .ok rfl hrel hlevel

/-- To end a line is alike. -/
theorem alike_endLine : κ.Alike (κ.Within n n') id endLine endLine := by
  refine alike_of_head compositional_shrinks.endLine compositional_shrinks.endLine
    (fun level hc => .inr (.error (κ.halts_of_eq rfl))) (fun t rest u rest' level hc htu _ => ?_)
    fun t rest e u rest' level hc h hlax => ?_
  · have hku : t.kind = u.kind := (Token.renumber_eq htu).1
    by_cases ht : t.kind = .endOfLine
    · rw [endLine_of_eq ht, endLine_of_eq (hku ▸ ht)]
      exact (κ.lineEnds hc.rel).imp id fun hrel => .ok rfl hrel rfl
    · rw [endLine_of_ne ht, endLine_of_ne (hku ▸ ht)]
      refine .inr (.error (κ.halts_of_eq ?_))
      simp only [ParseHalt.renumber, SyntaxFault.renumber, Option.map_some, htu]
  · obtain ⟨ht, he, -, -, -, -⟩ := h
    rw [endLine_of_ne (by rw [ht]; decide), endLine_of_ne (by rw [he]; decide)]
    exact .inr (.error (hlax _ _))

end Coupling
end Parse
end Shank
