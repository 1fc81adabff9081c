/-
# Streams one after the other

Tokens that are parsed without a fault are parsed in the same way when others
are put behind them, and the others are then parsed as they are alone. Nothing
in the first tokens takes any of the others, for two reasons.

| a function ends with | why it is not led on |
| --- | --- |
| the line of its head, or of a local declaration | all that can follow is a declaration or an `INDENT`, and the other tokens start with a `define` |
| the `DEDENT` of its body | it is taken, and nothing is looked at behind it |

A body does not end in another way: the level never falls below the one a
statement starts on (`Rises`), so where the tokens end within a block the level
stays above zero, and there is no program.
-/

import Shank.Proofs.Definitions
import Shank.Proofs.Parse.Alike

namespace Shank
namespace Parse

open Token (balance)

variable {α β : Type} {tokens more : List Token} {i : Nat}

/-! ## Levels

Where the tokens end before a block does, the level stays above that of the
block. So a parse that comes back to the level it started on has closed each
block with a `DEDENT` of its own. That is what the rest of the module needs to
know of levels.
-/

/-- A parser does not end on a lower level than it started on. -/
def Rises (x : Parse α) : Prop :=
  ∀ tokens i a c, x (cursor tokens i) = .ok a c →
    ∃ j, i ≤ j ∧ c = cursor tokens j ∧ balance (tokens.take i) ≤ balance (tokens.take j)

/-- A parser that stays on its level does not fall below it. -/
theorem Flat.rises {x : Parse α} (h : Flat x) : Rises x := by
  intro tokens i a c ha
  obtain ⟨j, hij, rfl, hj⟩ := h tokens i a c ha
  exact ⟨j, hij, rfl, by omega⟩

/-- Two parsers in a row do not fall below their level if neither does. -/
theorem Rises.bind {x : Parse α} {k : α → Parse β} (hx : Rises x) (hk : ∀ a, Rises (k a)) :
    Rises (x >>= k) := by
  intro tokens i b c h
  obtain ⟨a, c₁, ha, hb⟩ := bind_ok h
  obtain ⟨j, hij, rfl, hj⟩ := hx tokens i a c₁ ha
  obtain ⟨l, hjl, rfl, hl⟩ := hk a tokens j b c hb
  exact ⟨l, hij.trans hjl, rfl, by omega⟩

/-- Behind a flat parser it is the second one that counts. -/
theorem Flat.rises_bind {x : Parse α} {k : α → Parse β} (hx : Flat x) (hk : ∀ a, Rises (k a)) :
    Rises (x >>= k) :=
  hx.rises.bind hk

/-- What takes nothing stays where it is. -/
theorem rises_pure (a : α) : Rises (pure a : Parse α) :=
  (flat_pure a).rises

section Block

variable {st : Parse Stmt} (hst : Rises st)

include hst

/-- Only the `DEDENT` at the end of a block leads to a lower level. -/
theorem rises_blockFrom (rounds : List Token) {ss : List Stmt} {c : Cursor}
    (h : blockFrom st rounds (cursor tokens i) = .ok ss c) :
    ∃ j, i ≤ j ∧ c = cursor tokens j ∧ balance (tokens.take i) - 1 ≤ balance (tokens.take j) := by
  induction rounds generalizing i ss c with
  | nil =>
    cases h
    exact ⟨i, le_rfl, rfl, by omega⟩
  | cons r rounds ih =>
    cases blockFrom_ok h with
    | ended => exact ⟨i, le_rfl, rfl, by omega⟩
    | lineEnd ht hk h =>
      obtain ⟨j, hij, hc, hj⟩ := ih h
      rw [balance_of_kind ht (by rw [hk]; decide)] at hj
      exact ⟨j, by omega, hc, hj⟩
    | closed ht hk => exact ⟨i + 1, Nat.le_succ i, rfl, Int.le_of_eq (balance_of_dedent ht hk).symm⟩
    | @statement s _ c₁ _ hs hmore =>
      obtain ⟨j, hij, rfl, hj⟩ := hst tokens i s c₁ hs
      obtain ⟨l, hjl, hc, hl⟩ := ih hmore
      exact ⟨l, hij.trans hjl, hc, by omega⟩

/-- A block does not fall below its level: it goes up by one before it may go
down by one. -/
theorem rises_block : Rises (block st) := by
  intro tokens i ss c h
  obtain ⟨t, ht, hk, hblock⟩ := block_ok h
  obtain ⟨j, hij, hc, hj⟩ := rises_blockFrom hst _ hblock
  rw [balance_of_indent ht hk] at hj
  exact ⟨j, by omega, hc, by omega⟩

end Block

section Body

variable {body : Parse (List Stmt)} (hbody : Rises body)

include hbody

/-- A branch does not fall below its level if its body does not. -/
theorem rises_branch (room line : Nat) : Rises (branch room body line) :=
  (flat_condition room).rises_bind fun _ => (flat_expect _ (by decide)).rises_bind fun _ =>
    flat_endLine.rises_bind fun _ => hbody.bind fun _ => rises_pure _

/-- Further branches do not fall below their level, each behind the one before.
The induction is on the rounds. -/
theorem rises_moreBranches (room : Nat) (rounds : List Token) :
    Rises (moreBranches room body rounds) := by
  induction rounds with
  | nil => exact rises_pure []
  | cons _ rounds ih =>
    -- what follows the word of a branch with a condition
    have more (line : Nat) : Rises (do
        let b ← branch room body line
        return b :: (← moreBranches room body rounds)) :=
      (rises_branch hbody room line).bind fun _ => ih.bind fun _ => rises_pure _
    refine (flat_take? (by decide)).rises_bind fun elsif => ?_
    cases elsif with
    | some t => exact more t.line
    | none =>
      refine (flat_take? (by decide)).rises_bind fun else? => ?_
      cases else? with
      | none => exact rises_pure []
      | some e =>
        refine (flat_take? (by decide)).rises_bind fun if? => ?_
        cases if? with
        | some t => exact more t.line
        | none => exact flat_endLine.rises_bind fun _ => hbody.bind fun _ => rises_pure _

/-- An if chain does not fall below its level if bodies do not. -/
theorem rises_ifChain (room line : Nat) : Rises (ifChain room body line) :=
  (rises_branch hbody room line).bind fun _ => flat_remaining.rises_bind fun ts =>
    (rises_moreBranches hbody room ts).bind fun _ => rises_pure _

/-- A `while` loop does not fall below its level if its body does not. -/
theorem rises_whileLoop (room line : Nat) : Rises (whileLoop room body line) :=
  (flat_condition room).rises_bind fun _ => flat_endLine.rises_bind fun _ =>
    hbody.bind fun _ => rises_pure _

/-- A `repeat` loop does not fall below its level if its body does not. -/
theorem rises_repeatLoop (room line : Nat) : Rises (repeatLoop room body line) :=
  (flat_expect _ (by decide)).rises_bind fun _ => (flat_condition room).rises_bind fun _ =>
    flat_endLine.rises_bind fun _ => hbody.bind fun _ => rises_pure _

/-- A `for` loop does not fall below its level if its body does not. -/
theorem rises_forLoop (room line : Nat) : Rises (forLoop room body line) :=
  (flat_expect _ (by decide)).rises_bind fun _ => (flat_expect _ (by decide)).rises_bind fun _ =>
    (flat_expression room).rises_bind fun _ => (flat_expect _ (by decide)).rises_bind fun _ =>
    (flat_expression room).rises_bind fun _ => flat_endLine.rises_bind fun _ =>
    hbody.bind fun _ => rises_pure _

end Body

/-- **No statement ends below the level it starts on.** The induction is on the
room: bodies have less of it. -/
theorem rises_statement (room : Nat) : Rises (statement room) := by
  induction room using Nat.strong_induction_on with
  | _ room ih =>
    intro tokens i s c h
    obtain ⟨k, t, x, rfl, ht, hx, hs⟩ := statement_cursor_ok h
    have hblock {r : Nat} (hr : r < k + 4) : Rises (block (statement r)) := rises_block (ih r hr)
    have hrises : Rises x := by
      cases hx with
      | ifChain => exact rises_ifChain (hblock (by omega)) k _
      | whileLoop => exact rises_whileLoop (hblock (by omega)) k _
      | forLoop => exact rises_forLoop (hblock (by omega)) k _
      | repeatLoop => exact rises_repeatLoop (hblock (by omega)) k _
      | nameStatement => exact (flat_nameStatement k t).rises
    obtain ⟨j, hij, hc, hj⟩ := hrises tokens (i + 1) s c hs
    rw [balance_of_kind ht hx.not_isLevel] at hj
    exact ⟨j, by omega, hc, hj⟩

/-- **Every cursor is a position in a token list**: what is left, behind as many
`INDENT`s or `DEDENT`s as its level asks for. -/
theorem exists_cursor (c : Cursor) : ∃ tokens i, cursor tokens i = c := by
  have hat (pre : List Token) (h : balance pre = c.level) : ∃ tokens i, cursor tokens i = c :=
    ⟨pre ++ c.rest, pre.length, by rw [cursor, List.drop_left, List.take_left, h]⟩
  rcases Int.le_total 0 c.level with hlevel | hlevel
  · refine hat (List.replicate c.level.toNat ⟨.indent, "", 0, 0⟩) ?_
    rw [Token.balance_replicate]
    simp only [Token.levelChange]
    omega
  · refine hat (List.replicate (-c.level).toNat ⟨.dedent, "", 0, 0⟩) ?_
    rw [Token.balance_replicate]
    simp only [Token.levelChange]
    omega

/-- How a parser moves the level is told by the positions of token lists: a
relation between the level it starts on and the one it ends on that holds at
each of them holds on every cursor. -/
theorem level_of_positions {x : Parse α} {R : Int → Int → Prop}
    (hx : ∀ tokens i a c, x (cursor tokens i) = .ok a c →
      ∃ j, i ≤ j ∧ c = cursor tokens j ∧ R (balance (tokens.take i)) (balance (tokens.take j)))
    {c c₁ : Cursor} {a : α} (h : x c = .ok a c₁) : R c.level c₁.level := by
  obtain ⟨tokens, i, rfl⟩ := exists_cursor c
  obtain ⟨j, -, rfl, hj⟩ := hx tokens i a c₁ h
  exact hj

/-- A parser that rises does not end below the level of its cursor. -/
theorem Rises.le {x : Parse α} (hx : Rises x) {c c₁ : Cursor} {a : α} (h : x c = .ok a c₁) :
    c.level ≤ c₁.level :=
  level_of_positions (R := (· ≤ ·)) hx h

/-- A parser that is flat ends on the level of its cursor. -/
theorem Flat.level_eq {x : Parse α} (hx : Flat x) {c c₁ : Cursor} {a : α} (h : x c = .ok a c₁) :
    c₁.level = c.level :=
  level_of_positions (R := fun before after => after = before) hx h

/-- The head of a function is parsed on its level. -/
theorem flat_functionHead : Flat functionHead :=
  (flat_expect _ (by decide)).bind fun _ => (flat_expect _ (by decide)).bind fun _ =>
    (flat_expect _ (by decide)).bind fun _ => (flat_variableGroup.groups _).bind fun _ =>
    (flat_expect _ (by decide)).bind fun _ => flat_pure _

/-- What stands behind the head does not fall below the level of the function. -/
theorem rises_functionBody (room : Nat) (head : Token × Token × List Variable) :
    Rises (functionBody room head) := by
  refine flat_remaining.rises_bind fun ts => (flat_localsFrom ts).rises_bind fun ds =>
    (flat_at _).rises_bind fun indented => ?_
  cases indented with
  | true => exact (rises_block (rises_statement room)).bind fun _ => rises_pure _
  | false => exact (rises_pure []).bind fun _ => rises_pure _

/-- A function does not fall below its level together with the line ends behind
it. -/
theorem rises_functionRound (room : Nat) : Rises (functionRound room) := by
  have hfunction : Rises (function room) := by
    rw [function_eq_parts]
    exact flat_functionHead.rises_bind fun head => flat_endLine.rises_bind fun _ =>
      rises_functionBody room head
  exact hfunction.bind fun _ => flat_skipLineEnds.rises_bind fun _ => rises_pure _

/-! ## Other tokens behind

A parser that stops within the first tokens does not see that others are behind
them. This is the coupling of a stream with the same stream and more behind it,
which is over where the first one is.
-/

/-- A stream, and the same one with other tokens behind it. -/
def Coupling.appended (more : List Token) : Coupling where
  lines := id
  Over ts := ts = []
  Rel ts us := us = ts ++ more
  over_suffix hsuffix hnil := by
    subst hnil
    exact List.suffix_nil.1 hsuffix
  head {ts us} h := by
    cases ts with
    | nil => exact .inl rfl
    | cons t rest => exact .inr (.inr (.inl ⟨t, rest, t, rest ++ more, rfl, h, rfl, fun _ => rfl⟩))
  lineEnds {ts us} h := by
    by_cases hnil : pastLineEnds ts = []
    · exact .inl hnil
    · refine .inr ?_
      rw [h, pastLineEnds, List.dropWhile_append, if_neg (by simpa [pastLineEnds] using hnil)]
      rfl

/-- A parser that does not get to the end of the tokens comes to the same with
other tokens behind. -/
def Extends (more : List Token) (x : Parse α) : Prop :=
  ∀ ts level a c, x ⟨ts, level⟩ = .ok a c → c.rest ≠ [] →
    x ⟨ts ++ more, level⟩ = .ok a ⟨c.rest ++ more, c.level⟩

/-- **What is parsed alike in both streams extends**: the coupling is kept until
the first tokens are at their end, and says that results are the same up to
there. `f` is injective, so that results that are alike are equal. -/
theorem extends_of_alike {γ : Type} {f : α → γ} (hf : Function.Injective f) {x : Parse α}
    (hx : ∀ n n', (Coupling.appended more).Alike ((Coupling.appended more).Within n n') f x x) :
    Extends more x := by
  intro ts level a c ha hc
  have h := (hx ts.length (ts ++ more).length).along ⟨ts, level⟩ ⟨ts ++ more, level⟩
    ⟨rfl, le_rfl, le_rfl⟩ rfl
  rw [ha] at h
  rcases h with hover | hsimilar
  · exact absurd hover hc
  · generalize hr : x ⟨ts ++ more, level⟩ = r at hsimilar
    cases hsimilar with
    | @ok _ a' _ c' haa hrel hlevel =>
      obtain rfl : a = a' := hf haa
      obtain ⟨rest', level'⟩ := c'
      obtain rfl : rest' = c.rest ++ more := hrel
      obtain rfl : c.level = level' := hlevel
      rfl

/-- A statement within the first tokens is the same with others behind them. -/
theorem extends_statement (room : Nat) : Extends more (statement room) :=
  extends_of_alike (f := Stmt.renumber id) (fun s t h => by simpa [Stmt.renumber_id] using h)
    fun n n' => Coupling.alike_statement room n n'

/-- The declarations of variables within the first tokens are the same with
others behind them. -/
theorem extends_variables {terminator : Token.Kind}
    (hterminator : terminator ≠ .elsif ∧ terminator ≠ .else_) :
    Extends more (groups variableGroup terminator) :=
  extends_of_alike (f := List.map (Variable.renumber id))
    (fun vs ws h => by simpa [Variable.renumber_id] using h)
    fun n n' => Coupling.alike_variables hterminator

/-- The declarations of constants within the first tokens are the same with
others behind them. -/
theorem extends_constants {terminator : Token.Kind}
    (hterminator : terminator ≠ .elsif ∧ terminator ≠ .else_) :
    Extends more (groups constantGroup terminator) :=
  extends_of_alike (f := List.map (Constant.renumber id))
    (fun cs ds h => by simpa [Constant.renumber_id] using h)
    fun n n' => Coupling.alike_constants hterminator

/-- The head of a function within the first tokens is the same with others
behind them. -/
theorem extends_functionHead : Extends more functionHead :=
  extends_of_alike (f := fun h : Token × Token × List Variable => (h.1.renumber id,
    h.2.1.renumber id, h.2.2.map (Variable.renumber id)))
    (fun h h' he => by simpa [Variable.renumber_id, Token.renumber_id, Prod.ext_iff] using he)
    fun n n' => Coupling.alike_functionHead

/-! ## Where the first tokens end

At the end of the first tokens one side sees nothing and the other side sees a
`define`. Line ends are the only tokens that may be skipped over that place, as
they stand behind a function and in front of the next one.
-/

/-- The one parser is in the first tokens alone, and the other one at the same
place with the others behind them. At the end of the first, it may have taken
the line ends in front of the others. -/
structure Joins (more : List Token) (c c' : Cursor) : Prop where
  level : c'.level = c.level
  rest : c'.rest = c.rest ++ more ∨ c.rest = [] ∧ c'.rest = pastLineEnds more

/-- Tokens that start with a function, or with nothing. -/
def Opens (more : List Token) : Prop :=
  ∀ t ∈ (pastLineEnds more).head?, t.kind = .define

/-- The line ends in front of two lists of tokens go on into the second one only
if the first holds nothing else. -/
theorem pastLineEnds_append (ts us : List Token) : pastLineEnds (ts ++ us) =
    if pastLineEnds ts = [] then pastLineEnds us else pastLineEnds ts ++ us := by
  rw [pastLineEnds, List.dropWhile_append]
  simp only [List.isEmpty_iff]
  rfl

/-- Behind the line ends there are none to skip. -/
theorem pastLineEnds_idem (ts : List Token) : pastLineEnds (pastLineEnds ts) = pastLineEnds ts := by
  cases h : pastLineEnds ts with
  | nil => rfl
  | cons t rest => exact pastLineEnds_of_ne (kind_of_pastLineEnds h)

/-- Where the first tokens have only line ends left, behind them all come the
other ones. -/
theorem Joins.pastLineEnds_eq {c c' : Cursor} (h : Joins more c c') (hnil : pastLineEnds c.rest = []) :
    pastLineEnds c'.rest = pastLineEnds more := by
  rcases h.rest with hrest | ⟨-, hrest⟩
  · rw [hrest, pastLineEnds_append, if_pos hnil]
  · rw [hrest, pastLineEnds_idem]

/-- Where something else is left of them, the line ends are skipped within the
first tokens. -/
theorem Joins.pastLineEnds_append {c c' : Cursor} (h : Joins more c c')
    (hne : pastLineEnds c.rest ≠ []) : pastLineEnds c'.rest = pastLineEnds c.rest ++ more := by
  rcases h.rest with hrest | ⟨hnil, -⟩
  · rw [hrest, Parse.pastLineEnds_append, if_neg hne]
  · rw [hnil] at hne
    exact absurd rfl hne

/-- Where a token is left, the others are behind it. -/
theorem Joins.eq_append {t : Token} {rest : List Token} {level : Int} {c' : Cursor}
    (h : Joins more ⟨t :: rest, level⟩ c') : c' = ⟨t :: rest ++ more, level⟩ := by
  obtain ⟨us, level'⟩ := c'
  obtain rfl : level' = level := h.level
  rcases h.rest with hrest | ⟨hnil, -⟩
  · rw [show us = t :: rest ++ more from hrest]
  · cases hnil

/-- Line ends may be skipped on both sides. -/
theorem Joins.skipped {c c' : Cursor} (h : Joins more c c') :
    Joins more ⟨pastLineEnds c.rest, c.level⟩ ⟨pastLineEnds c'.rest, c'.level⟩ := by
  refine ⟨h.level, ?_⟩
  by_cases hnil : pastLineEnds c.rest = []
  · exact .inr ⟨hnil, h.pastLineEnds_eq hnil⟩
  · exact .inl (h.pastLineEnds_append hnil)

/-- Behind the first tokens no function goes on. -/
theorem Joins.head_of_nil (hmore : Opens more) {c c' : Cursor} (h : Joins more c c')
    (hnil : c.rest = []) : ∀ t ∈ c'.rest.head?, t.kind = .endOfLine ∨ t.kind = .define := by
  intro t ht
  rcases h.rest with hrest | ⟨-, hrest⟩
  · rw [hrest, hnil, List.nil_append] at ht
    by_cases heol : t.kind = .endOfLine
    · exact .inl heol
    · obtain ⟨rest, rfl⟩ := List.head?_eq_some_iff.1 ht
      exact .inr (hmore t (by rw [pastLineEnds_of_ne heol]; rfl))
  · exact .inr (hmore t (hrest ▸ ht))

/-- At the end of the first tokens no declaration follows, as the others start
with a `define`. -/
theorem Joins.no_declaration (hmore : Opens more) {c c' : Cursor} (h : Joins more c c')
    (hnil : c.rest = []) : ∀ t ∈ c'.rest.head?, t.kind ≠ .constants ∧ t.kind ≠ .variables_ := by
  intro t ht
  rcases h.head_of_nil hmore hnil t ht with hk | hk <;> simp [hk]

/-- **What it takes to end a line**: a token, and then the line ends are
skipped, with others behind as without. -/
theorem endLine_ok {ts : List Token} {level : Int} {u : Unit} {c : Cursor}
    (h : endLine ⟨ts, level⟩ = .ok u c) : ts ≠ [] ∧ c = ⟨pastLineEnds ts, level⟩ ∧
      ∀ more, endLine ⟨ts ++ more, level⟩ = .ok u ⟨pastLineEnds (ts ++ more), level⟩ := by
  cases ts with
  | nil => cases h
  | cons t rest =>
    by_cases ht : t.kind = .endOfLine
    · rw [endLine_of_eq ht] at h
      cases h
      exact ⟨List.cons_ne_nil _ _, rfl, fun more => endLine_of_eq ht _ _⟩
    · rw [endLine_of_ne ht] at h
      cases h

/-! ## Local declarations

A function without a body ends with its last declaration. Both sides then look
for a further one, and neither the end of the tokens nor a `define` starts any.
-/

/-- Declarations up to the end of their line, and those of the lines after it. -/
def declared (declare : α → Local) (group : Parse (List α)) (rounds : List Token) :
    Parse (List Local) := do
  let decls ← group
  endLine
  return decls.map declare ++ (← localsFrom rounds)

/-- What a round of local declarations does, by its next token. -/
theorem localsFrom_cons (r : Token) (rounds : List Token) (t : Token) (rest : List Token)
    (level : Int) : localsFrom (r :: rounds) ⟨t :: rest, level⟩ =
      if t.kind = .constants then
        declared .constant (groups constantGroup .endOfLine) rounds ⟨rest, level⟩
      else if t.kind = .variables_ then
        declared .var (groups variableGroup .endOfLine) rounds ⟨rest, level⟩
      else .ok [] ⟨t :: rest, level⟩ := by
  rw [localsFrom, bind_apply, take?_cons (by decide)]
  by_cases hconstants : t.kind = .constants
  · rw [if_pos hconstants, if_pos hconstants]
    rfl
  · rw [if_neg hconstants, if_neg hconstants]
    dsimp only
    rw [bind_apply, take?_cons (by decide)]
    by_cases hvariables : t.kind = .variables_
    · rw [if_pos hvariables, if_pos hvariables]
      rfl
    · rw [if_neg hvariables, if_neg hvariables]
      rfl

/-- Where no declaration starts, there are no others. -/
theorem localsFrom_none (rounds ts : List Token) (level : Int)
    (h : ∀ t ∈ ts.head?, t.kind ≠ .constants ∧ t.kind ≠ .variables_) :
    localsFrom rounds ⟨ts, level⟩ = .ok [] ⟨ts, level⟩ := by
  cases rounds with
  | nil => rfl
  | cons r rounds =>
    cases ts with
    | nil => rfl
    | cons t rest =>
      obtain ⟨hconstants, hvariables⟩ := h t rfl
      rw [localsFrom_cons, if_neg hconstants, if_neg hvariables]

/-- **A list of declarations is not led on.** Within the first tokens it is
parsed as before, and the rounds for the lists behind it are enough on either
side. -/
theorem joins_declared {declare : α → Local} {group : Parse (List α)} (hgroup : Extends more group)
    (hshrinks : Shrinks group) {rounds rounds' ts : List Token} {level : Int} {ds : List Local}
    {c : Cursor}
    (hlocals : ∀ {c c' ds c₁}, c.rest.length ≤ ts.length → c'.rest.length ≤ (ts ++ more).length →
      Joins more c c' → localsFrom rounds c = .ok ds c₁ →
      ∃ c₁', localsFrom rounds' c' = .ok ds c₁' ∧ Joins more c₁ c₁')
    (h : declared declare group rounds ⟨ts, level⟩ = .ok ds c) :
    ∃ c', declared declare group rounds' ⟨ts ++ more, level⟩ = .ok ds c' ∧ Joins more c c' := by
  obtain ⟨decls, ⟨us, level₁⟩, hdecls, hrest⟩ := bind_ok h
  obtain ⟨u, c₂, hend, hrest⟩ := bind_ok hrest
  obtain ⟨ds', c₃, hlocal, hpure⟩ := bind_ok hrest
  cases hpure
  obtain ⟨hne, rfl, hend'⟩ := endLine_ok hend
  have hus : us.length ≤ ts.length := hshrinks.length_le hdecls
  have hle : (pastLineEnds us).length ≤ ts.length := (pastLineEnds_suffix us).length_le.trans hus
  have hle' : (pastLineEnds (us ++ more)).length ≤ (ts ++ more).length := by
    refine (pastLineEnds_suffix _).length_le.trans ?_
    rw [List.length_append, List.length_append]
    exact Nat.add_le_add_right hus _
  -- behind the declarations, both streams go on with the same tokens
  have hjoins : Joins more ⟨us, level₁⟩ ⟨us ++ more, level₁⟩ := ⟨rfl, .inl rfl⟩
  obtain ⟨c₃', hlocal', hjoins'⟩ := hlocals hle hle' hjoins.skipped hlocal
  refine ⟨c₃', ?_, hjoins'⟩
  rw [declared, bind_eq (hgroup _ _ _ _ hdecls hne), bind_eq (hend' more), bind_eq hlocal']
  rfl

/-- **Local declarations are not led on**, since what is behind opens with no
word of theirs. The induction is on the rounds of the first side. -/
theorem joins_localsFrom (hmore : Opens more) (rounds rounds' : List Token) {c c' c₁ : Cursor}
    {ds : List Local} (hle : c.rest.length ≤ rounds.length) (hle' : c'.rest.length ≤ rounds'.length)
    (hjoins : Joins more c c') (h : localsFrom rounds c = .ok ds c₁) :
    ∃ c₁', localsFrom rounds' c' = .ok ds c₁' ∧ Joins more c₁ c₁' := by
  induction rounds generalizing rounds' c c' ds c₁ with
  | nil =>
    have hnil : c.rest = [] := List.eq_nil_of_length_eq_zero (Nat.le_zero.1 hle)
    cases h
    exact ⟨c', localsFrom_none _ _ _ (hjoins.no_declaration hmore hnil), hjoins⟩
  | cons r rounds ih =>
    obtain ⟨ts, level⟩ := c
    obtain ⟨us, level'⟩ := c'
    cases ts with
    | nil =>
      cases h
      exact ⟨_, localsFrom_none _ _ _ (hjoins.no_declaration hmore rfl), hjoins⟩
    | cons t rest =>
      -- there are tokens left, so the others stand behind them
      cases hjoins.eq_append
      cases rounds' with
      | nil => simp at hle'
      | cons r' rounds' =>
        have hrest : rest.length ≤ rounds.length := Nat.le_of_succ_le_succ hle
        have hrest' : (rest ++ more).length ≤ rounds'.length := Nat.le_of_succ_le_succ hle'
        rw [localsFrom_cons] at h
        rw [List.cons_append, localsFrom_cons]
        split at h
        · rename_i hconstants
          rw [if_pos hconstants]
          exact joins_declared (extends_constants (by decide))
            (compositional_shrinks.groups compositional_shrinks.constantGroup _)
            (fun hc hc' => ih rounds' (hc.trans hrest) (hc'.trans hrest')) h
        · rename_i hconstants
          rw [if_neg hconstants]
          split at h
          · rename_i hvariables
            rw [if_pos hvariables]
            exact joins_declared (extends_variables (by decide))
              (compositional_shrinks.groups compositional_shrinks.variableGroup _)
              (fun hc hc' => ih rounds' (hc.trans hrest) (hc'.trans hrest')) h
          · rename_i hvariables
            rw [if_neg hvariables]
            cases h
            exact ⟨_, rfl, hjoins⟩

/-! ## Bodies

A block with other tokens behind it could go on into them, if it ended with its
tokens. It does not, as it comes back to its level: its last token is the
`DEDENT` that closes it.
-/

/-- A block that ends with its `DEDENT` ends there with other tokens behind as
well. That it ends so is seen from the level, which is lower than at its start:
no statement lowers it. -/
theorem blockFrom_closed (room : Nat) (rounds rounds' : List Token)
    (hrounds : rounds.length ≤ rounds'.length) {ts : List Token} {level : Int} {ss : List Stmt}
    {c : Cursor} (h : blockFrom (statement room) rounds ⟨ts, level⟩ = .ok ss c)
    (hlevel : c.level < level) :
    blockFrom (statement room) rounds' ⟨ts ++ more, level⟩ = .ok ss ⟨c.rest ++ more, c.level⟩ := by
  induction rounds generalizing rounds' ts level ss c with
  | nil =>
    cases h
    exact absurd hlevel (Int.lt_irrefl _)
  | cons r rounds ih =>
    cases rounds' with
    | nil => simp at hrounds
    | cons r' rounds' =>
      have hrounds : rounds.length ≤ rounds'.length := Nat.le_of_succ_le_succ hrounds
      cases ts with
      | nil =>
        rw [blockFrom_nil] at h
        cases h
        exact absurd hlevel (Int.lt_irrefl _)
      | cons t rest =>
        rw [List.cons_append]
        by_cases heol : t.kind = .endOfLine
        · rw [blockFrom_lineEnd _ _ _ _ heol] at h ⊢
          exact ih rounds' hrounds h hlevel
        · rw [blockFrom_cons _ _ _ _ heol] at h ⊢
          by_cases hdedent : t.kind = .dedent
          · rw [if_pos hdedent] at h ⊢
            cases h
            rfl
          · rw [if_neg hdedent] at h ⊢
            obtain ⟨s, ⟨us, level₁⟩, hs, hrest⟩ := bind_ok h
            obtain ⟨rest', c₂, hmore, hpure⟩ := bind_ok hrest
            cases hpure
            have hrises : level ≤ level₁ := (rises_statement room).le hs
            -- a block whose tokens end has not come down to its dedent
            have hne : us ≠ [] := by
              rintro rfl
              rw [blockFrom_nil] at hmore
              cases hmore
              exact absurd hlevel (Int.not_lt.2 hrises)
            have hs' : statement room ⟨t :: (rest ++ more), level⟩ = .ok s ⟨us ++ more, level₁⟩ :=
              extends_statement room _ _ _ _ hs hne
            rw [bind_eq hs', bind_eq (ih rounds' hrounds hmore (by omega))]
            rfl

/-- A block that comes back to its level is the same with other tokens behind
it. It has ended with its own `DEDENT`, which cannot be seen from the statements
alone. -/
theorem block_closed (room : Nat) {ts : List Token} {level : Int} {ss : List Stmt} {c : Cursor}
    (h : block (statement room) ⟨ts, level⟩ = .ok ss c) (hlevel : c.level ≤ level) :
    block (statement room) ⟨ts ++ more, level⟩ = .ok ss ⟨c.rest ++ more, c.level⟩ := by
  obtain ⟨t, c₁, ht, hrest⟩ := bind_ok h
  obtain ⟨rest, rfl, hkind, rfl⟩ := expect_ok ht
  obtain ⟨rounds, _, hremaining, hblock⟩ := bind_ok hrest
  cases hremaining
  have hchange : t.levelChange = 1 := by simp only [Token.levelChange, hkind]
  have hremaining' : remaining ⟨rest ++ more, level + t.levelChange⟩ =
      .ok (rest ++ more) ⟨rest ++ more, level + t.levelChange⟩ := rfl
  rw [block, List.cons_append, bind_eq (expect_of_eq hkind _ _), bind_eq hremaining']
  refine blockFrom_closed room rest (rest ++ more) ?_ hblock (by omega)
  rw [List.length_append]
  exact Nat.le_add_right _ _

/-! ## Functions

The rounds of the longer stream first parse the functions of the first tokens,
and then have as many left as the others need. So the two loops in a row are the
one loop over both.
-/

/-- What is asked of a next token that is there. -/
theorem at_cons (kind : Token.Kind) (t : Token) (rest : List Token) (level : Int) :
    at_ kind ⟨t :: rest, level⟩ = .ok (t.kind == kind) ⟨t :: rest, level⟩ :=
  rfl

/-- What is not of a kind is not found to be of it, at the end of the tokens as
well. -/
theorem at_of_ne {kind : Token.Kind} {ts : List Token} (h : ∀ t ∈ ts.head?, t.kind ≠ kind)
    (level : Int) : at_ kind ⟨ts, level⟩ = .ok false ⟨ts, level⟩ := by
  cases ts with
  | nil => rfl
  | cons t rest => rw [at_cons, beq_eq_false_iff_ne.2 (h t rfl)]

/-- **A body is not led on.** Either it is a block, which ends with its
`DEDENT`; or there is none, and what follows is no `INDENT`, since the others
start with a `define`. -/
theorem joins_functionBody (hmore : Opens more) (room : Nat) {head : Token × Token × List Variable}
    {c c' c₁ : Cursor} {f : Function} (hjoins : Joins more c c')
    (h : functionBody room head c = .ok f c₁) (hlevel : c₁.level ≤ c.level) :
    ∃ c₁', functionBody room head c' = .ok f c₁' ∧ Joins more c₁ c₁' := by
  obtain ⟨rounds, _, hremaining, h⟩ := bind_ok h
  cases hremaining
  obtain ⟨ds, ⟨ts, level⟩, hlocals, h⟩ := bind_ok h
  obtain ⟨⟨us, level'⟩, hlocals', hjoins₂⟩ :=
    joins_localsFrom hmore c.rest c'.rest le_rfl le_rfl hjoins hlocals
  obtain rfl : level' = level := hjoins₂.level
  have hlevel₂ : level' = c.level := (flat_localsFrom c.rest).level_eq hlocals
  have hremaining' : remaining c' = .ok c'.rest c' := rfl
  rw [functionBody, bind_eq hremaining', bind_eq hlocals']
  cases ts with
  | nil =>
    -- the tokens of this function end here, and what is behind starts with no indent
    have hne : ∀ t ∈ us.head?, t.kind ≠ .indent := by
      intro t ht
      rcases hjoins₂.head_of_nil hmore rfl t ht with hk | hk <;> simp [hk]
    cases h
    exact ⟨_, by rw [bind_eq (at_of_ne hne level')]; rfl, hjoins₂⟩
  | cons t rest =>
    cases hjoins₂.eq_append
    rw [bind_eq (at_cons ..)] at h
    rw [List.cons_append, bind_eq (at_cons ..)]
    by_cases hk : (t.kind == .indent) = true
    · rw [if_pos hk] at h ⊢
      obtain ⟨ss, c₃, hblock, hpure⟩ := bind_ok h
      cases hpure
      have hblock' : block (statement room) ⟨t :: (rest ++ more), level'⟩ =
          .ok ss ⟨c₁.rest ++ more, c₁.level⟩ := block_closed room hblock (by omega)
      rw [bind_eq hblock']
      exact ⟨_, rfl, rfl, .inl rfl⟩
    · rw [if_neg hk] at h ⊢
      cases h
      exact ⟨_, rfl, hjoins₂⟩

/-- **A function takes none of the tokens behind.** -/
theorem joins_functionRound (hmore : Opens more) (room : Nat) {ts : List Token} {level : Int}
    {c : Cursor} {f : Function} (h : functionRound room ⟨ts, level⟩ = .ok f c)
    (hlevel : c.level ≤ level) :
    ∃ c₁ c₁', Joins more c₁ c₁' ∧ c = ⟨pastLineEnds c₁.rest, c₁.level⟩ ∧
      functionRound room ⟨ts ++ more, level⟩ = .ok f ⟨pastLineEnds c₁'.rest, c₁'.level⟩ := by
  obtain ⟨g, c₁, hg, hrest⟩ := bind_ok h
  obtain ⟨u, c₂, hskip, hpure⟩ := bind_ok hrest
  cases hpure
  cases hskip
  -- a function is its head, the end of that line, and what stands behind it
  rw [function_eq_parts] at hg
  obtain ⟨head, ⟨us, level₁⟩, hhead, hg⟩ := bind_ok hg
  obtain ⟨v, c₃, hend, hbody⟩ := bind_ok hg
  obtain ⟨hne, rfl, hend'⟩ := endLine_ok hend
  obtain rfl : level₁ = level := flat_functionHead.level_eq hhead
  have hjoins : Joins more ⟨us, level₁⟩ ⟨us ++ more, level₁⟩ := ⟨rfl, .inl rfl⟩
  obtain ⟨c₁', hbody', hjoins'⟩ := joins_functionBody hmore room hjoins.skipped hbody hlevel
  refine ⟨c₁, c₁', hjoins', rfl, ?_⟩
  have hfunction : function room ⟨ts ++ more, level₁⟩ = .ok f c₁' := by
    rw [function_eq_parts, bind_eq (extends_functionHead _ _ _ _ hhead hne), bind_eq (hend' more)]
    exact hbody'
  rw [functionRound, bind_eq hfunction, bind_eq (skipLineEnds_apply _)]
  rfl

/-- Functions that are parsed without a fault end on no lower level. -/
theorem rises_functionsFrom (room : Nat) (rounds : List Token) (c : Cursor)
    (h : (Parsing.functionsFrom room rounds c).halt = none) :
    c.level ≤ (Parsing.functionsFrom room rounds c).stop.level := by
  induction rounds generalizing c with
  | nil => exact Int.le_refl _
  | cons r rounds ih =>
    obtain ⟨ts, level⟩ := c
    cases ts with
    | nil => exact Int.le_refl _
    | cons t rest =>
      rw [functionsFrom_cons] at h ⊢
      cases hr : functionRound room ⟨t :: rest, level⟩ with
      | ok f c =>
        rw [hr] at h
        exact Int.le_trans ((rises_functionRound room).le hr) (ih c h)
      | error e c =>
        rw [hr] at h
        cases h

/-- **Functions are parsed in front of others**: first the same ones as alone,
then those behind. The induction is on the rounds of the first side, each of
which ends on the level it starts on, as none ends on a lower one and all
together come back to it. -/
theorem joins_functionsFrom (hmore : Opens more) (room : Nat) (rounds rounds' : List Token)
    {c c' : Cursor} (hjoins : Joins more c c') (hle : (pastLineEnds c.rest).length ≤ rounds.length)
    (hle' : (pastLineEnds c'.rest).length ≤ rounds'.length)
    (hhalt : (Parsing.functionsFrom room rounds ⟨pastLineEnds c.rest, c.level⟩).halt = none)
    (hlevel : (Parsing.functionsFrom room rounds ⟨pastLineEnds c.rest, c.level⟩).stop.level ≤ c.level) :
    ∃ rest : List Token, (pastLineEnds more).length ≤ rest.length ∧
      Parsing.functionsFrom room rounds' ⟨pastLineEnds c'.rest, c'.level⟩ =
        { Parsing.functionsFrom room rest ⟨pastLineEnds more, c.level⟩ with
          functions := (Parsing.functionsFrom room rounds ⟨pastLineEnds c.rest, c.level⟩).functions ++
            (Parsing.functionsFrom room rest ⟨pastLineEnds more, c.level⟩).functions } := by
  induction rounds generalizing rounds' c c' with
  | nil =>
    have hnil : pastLineEnds c.rest = [] := List.eq_nil_of_length_eq_zero (Nat.le_zero.1 hle)
    have hrest := hjoins.pastLineEnds_eq hnil
    rw [hrest] at hle' ⊢
    exact ⟨rounds', hle', by rw [hjoins.level]; rfl⟩
  | cons r rounds ih =>
    cases hts : pastLineEnds c.rest with
    | nil =>
      have hrest := hjoins.pastLineEnds_eq hts
      rw [hrest] at hle' ⊢
      exact ⟨rounds', hle', by rw [hjoins.level]; rfl⟩
    | cons t ts =>
      have hrest := hjoins.pastLineEnds_append (by rw [hts]; exact List.cons_ne_nil _ _)
      rw [hts, List.cons_append] at hrest
      rw [hrest] at hle' ⊢
      rw [hts] at hle hhalt hlevel
      rw [functionsFrom_cons] at hhalt hlevel ⊢
      cases hr : functionRound room ⟨t :: ts, c.level⟩ with
      | error e c₁ =>
        rw [hr] at hhalt
        cases hhalt
      | ok f c₁ =>
        rw [hr] at hhalt hlevel
        dsimp only at hhalt hlevel ⊢
        have hstop := rises_functionsFrom room rounds c₁ hhalt
        have hround : c.level ≤ c₁.level := (rises_functionRound room).le (c := ⟨t :: ts, _⟩) hr
        -- neither this function nor the ones behind it fall below their level
        have hlevel₁ : c₁.level = c.level := Int.le_antisymm (Int.le_trans hstop hlevel) hround
        obtain ⟨c₂, c₂', hjoins₂, rfl, hr'⟩ := joins_functionRound hmore room hr (Int.le_of_eq hlevel₁)
        cases rounds' with
        | nil => simp at hle'
        | cons r' rounds' =>
          have hlt := consumes_functionRound room _ _ _ hr
          have hlt' := consumes_functionRound room _ _ _ hr'
          simp only [List.length_cons, List.cons_append] at hle hle' hlt hlt'
          dsimp only at hlevel₁
          -- each function takes a token, so there are rounds for the others
          obtain ⟨rest, hlength, heq⟩ := ih rounds' hjoins₂ (by omega) (by omega) hhalt (by omega)
          refine ⟨rest, hlength, ?_⟩
          rw [List.cons_append, ← hjoins.level] at hr'
          rw [functionsFrom_cons, hr']
          dsimp only
          rw [heq, hlevel₁]
          rfl

/-- Equal streams. -/
def Coupling.same : Coupling where
  lines := id
  Over _ := False
  Rel ts us := ts = us
  over_suffix _ h := h
  head {ts us} h := by
    subst h
    cases ts with
    | nil => exact .inr (.inl ⟨rfl, rfl⟩)
    | cons t rest => exact .inr (.inr (.inl ⟨t, rest, t, rest, rfl, rfl, rfl, fun _ => rfl⟩))
  lineEnds h := .inr (h ▸ rfl)

/-- Rounds that are enough are as good as others. -/
theorem sameParsing_of_rounds (room : Nat) {rounds rounds' ts : List Token} (level : Int)
    (h : ts.length ≤ rounds.length) (h' : ts.length ≤ rounds'.length) :
    Coupling.same.SameParsing (Parsing.functionsFrom room rounds ⟨ts, level⟩)
      (Parsing.functionsFrom room rounds' ⟨ts, level⟩) :=
  have hw : Coupling.same.Within rounds.length rounds'.length ts ts := ⟨rfl, h, h'⟩
  (Coupling.alike_functionsFrom room rounds rounds' hw level).resolve_left id

end Parse

open Parse

namespace Parsing

variable {ts us : List Token} {room : Nat} {p q : Program}

/-- What is parsed starts with a function. -/
theorem opens_of_halt (h : (ofTokens ts room).halt = none) : Opens ts := by
  intro t ht
  obtain ⟨rest, hrest⟩ := List.head?_eq_some_iff.1 ht
  have hts : ofTokens ts room =
      functionsFrom room (pastLineEnds ts) ⟨pastLineEnds ts, 0⟩ := rfl
  rw [hts, hrest, functionsFrom_cons] at h
  cases hr : functionRound room ⟨t :: rest, 0⟩ with
  | error e c =>
    rw [hr] at h
    cases h
  | ok f c =>
    obtain ⟨g, c₁, hg, -⟩ := bind_ok hr
    rw [function_eq] at hg
    obtain ⟨u, c₂, hu, -⟩ := bind_ok hg
    obtain ⟨_, heq, hk, -⟩ := expect_ok hu
    cases heq
    exact hk

/-- What is parsed without a fault and ends on level zero is a program. -/
theorem program_eq {r : Parsing} (hhalt : r.halt = none) (hlevel : r.stop.level = 0) :
    r.program = .ok (Program.ofList r.functions) := by
  rw [program, hhalt]
  exact if_pos hlevel

/-- **The functions of tokens in a row** are those of the first ones, and then
those of the others. -/
theorem program_append (hp : (ofTokens ts room).program = .ok p)
    (hq : (ofTokens us room).program = .ok q) : (ofTokens (ts ++ us) room).program =
      .ok (Program.ofList ((ofTokens ts room).functions ++ (ofTokens us room).functions)) := by
  obtain ⟨hhalt, hlevel, -⟩ := program_ok hp
  obtain ⟨hhalt', hlevel', -⟩ := program_ok hq
  have hjoins : Joins us ⟨ts, 0⟩ ⟨ts ++ us, 0⟩ := ⟨rfl, .inl rfl⟩
  obtain ⟨rest, hrest, heq⟩ := joins_functionsFrom (opens_of_halt hhalt') room (pastLineEnds ts)
    (pastLineEnds (ts ++ us)) hjoins le_rfl le_rfl hhalt (Int.le_of_eq hlevel)
  have hall : ofTokens (ts ++ us) room =
      ⟨(ofTokens ts room).functions ++ (functionsFrom room rest ⟨pastLineEnds us, 0⟩).functions,
        (functionsFrom room rest ⟨pastLineEnds us, 0⟩).halt,
        (functionsFrom room rest ⟨pastLineEnds us, 0⟩).stop⟩ := heq
  -- what the rounds are made of does not matter, if they are enough
  have hsame : Coupling.same.SameParsing (ofTokens us room)
      (functionsFrom room rest ⟨pastLineEnds us, 0⟩) := sameParsing_of_rounds room 0 le_rfl hrest
  have hhalt₂ : (functionsFrom room rest ⟨pastLineEnds us, 0⟩).halt = none := by
    have h := hsame.halt
    rw [hhalt'] at h
    generalize (functionsFrom room rest ⟨pastLineEnds us, 0⟩).halt = halt at h
    cases h
    rfl
  have hfunctions : (ofTokens us room).functions =
      (functionsFrom room rest ⟨pastLineEnds us, 0⟩).functions := by
    have h := hsame.functions
    rwa [show Coupling.same.lines = id from rfl, Function.renumber_id, List.map_id, List.map_id] at h
  have hlevel₂ : (functionsFrom room rest ⟨pastLineEnds us, 0⟩).stop.level = 0 :=
    (hsame.level hhalt').symm.trans hlevel'
  rw [hfunctions, hall]
  exact program_eq hhalt₂ hlevel₂

end Parsing
end Shank
