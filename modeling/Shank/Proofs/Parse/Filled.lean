/-
# Blocks of a text are not empty

A token list may open a block and close it at once. The tokens of a source text
do not: an `INDENT` is only given in front of a line that has tokens of its own,
so behind it comes another `INDENT` or one of these (`Token.Filled`). And where
a block is opened on such tokens, a statement comes next.

The parser leaves the end of the tokens it starts on, and the end of filled
tokens is filled, so the property is handed on along a parse (`Fills`). What it
says is used at one place, in front of the statements of a block
(`fills_block`).
-/

import Shank.Proofs.Parse.Alike
import Shank.Proofs.Run.Congruence
import Shank.Proofs.Token.Depth

namespace Shank
namespace Token

/-- Behind every `INDENT` comes a token that neither closes a block nor ends a
line. -/
def Filled (ts : List Token) : Prop :=
  ∀ t rest, t :: rest <:+ ts → t.kind = .indent →
    ∃ u ∈ rest.head?, u.kind ≠ .dedent ∧ u.kind ≠ .endOfLine

/-- The end of filled tokens is filled: what comes behind an `INDENT` is told by
what follows only. -/
theorem Filled.suffix {ts us : List Token} (h : Filled ts) (hsuffix : us <:+ ts) : Filled us :=
  fun t rest hrest => h t rest (hrest.trans hsuffix)

/-- Tokens without an `INDENT` are filled. -/
theorem filled_of_no_indent {ts : List Token} (h : ∀ t ∈ ts, t.kind ≠ .indent) : Filled ts :=
  fun t _ hrest ht => absurd ht (h t (hrest.subset (List.mem_cons_self ..)))

/-- Filled tokens behind filled tokens are filled. -/
theorem Filled.append {ts us : List Token} (hts : Filled ts) (hus : Filled us) : Filled (ts ++ us) := by
  induction ts with
  | nil => exact hus
  | cons t ts ih =>
    intro u rest hrest hu
    rcases List.suffix_cons_iff.1 hrest with heq | hrest
    · obtain ⟨rfl, rfl⟩ := List.cons.inj heq
      obtain ⟨v, hv, hkind⟩ := hts u ts List.suffix_rfl hu
      obtain ⟨ts', rfl⟩ := List.head?_eq_some_iff.1 hv
      exact ⟨v, rfl, hkind⟩
    · exact ih (hts.suffix (List.suffix_cons t ts)) u rest hrest hu

/-- `INDENT`s in front of a token that goes on. -/
theorem filled_replicate {u t : Token} {ts : List Token} (hu : u.kind = .indent) (n : Nat)
    (ht : t.kind ≠ .dedent ∧ t.kind ≠ .endOfLine) (h : Filled (t :: ts)) :
    Filled (List.replicate n u ++ t :: ts) := by
  induction n with
  | zero => exact h
  | succ n ih =>
    intro v rest hrest hv
    rw [List.replicate_succ, List.cons_append] at hrest
    rcases List.suffix_cons_iff.1 hrest with heq | hrest
    · obtain ⟨rfl, rfl⟩ := List.cons.inj heq
      cases n with
      | zero => exact ⟨t, rfl, ht⟩
      | succ n => exact ⟨v, rfl, by simp [hv]⟩
    · exact ih v rest hrest hv

namespace Layout

/-- A change of depth in front of a token that goes on. -/
theorem filled_step (line d d' : Nat) {t : Token} {ts : List Token}
    (ht : t.kind ≠ .dedent ∧ t.kind ≠ .endOfLine) (h : ∀ u ∈ t :: ts, u.kind ≠ .indent) :
    Filled (step line d d' ++ t :: ts) := by
  rw [step, List.append_assoc]
  rcases Nat.le_total d' d with hle | hle
  · rw [Nat.sub_eq_zero_of_le hle, List.replicate_zero, List.nil_append]
    refine filled_of_no_indent fun u hu => ?_
    rcases List.mem_append.1 hu with hu | hu
    · simp [(List.mem_replicate.1 hu).2]
    · exact h u hu
  · rw [Nat.sub_eq_zero_of_le hle, List.replicate_zero, List.nil_append]
    exact filled_replicate rfl _ ht (filled_of_no_indent h)

/-- **The tokens of a line are filled.** There are `INDENT`s among them only if
it sets another depth, and then it has tokens of its own. -/
theorem filled_added (s : Layout) (raw : List Char) : Filled (s.readLine raw).added := by
  refine s.readLine_elim raw (fun _ _ _ _ => filled_of_no_indent fun _ ht => nomatch ht)
    fun content _ depth _ hcontent hdepth => ?_
  have hnone : ∀ t ∈ content ++ [(⟨.endOfLine, "", s.line + 1, (Text.chomp raw).length + 1⟩ : Token)],
      t.kind ≠ .indent := by
    intro t ht
    rcases List.mem_append.1 ht with ht | ht
    · exact fun hk => (hcontent t ht).kind (by rw [hk]; decide)
    · simp [List.mem_singleton.1 ht]
  cases content with
  | nil =>
    simp only [hdepth, List.isEmpty_nil, Bool.true_or, if_true, step, Nat.sub_self, List.replicate_zero]
    exact filled_of_no_indent hnone
  | cons t content =>
    have ht := (hcontent t (List.mem_cons_self ..)).kind
    have hgoes : t.kind ≠ .dedent ∧ t.kind ≠ .endOfLine :=
      ⟨fun hk => ht (by rw [hk]; decide), fun hk => ht (by rw [hk]; decide)⟩
    rw [List.append_assoc]
    exact filled_step _ _ _ hgoes hnone

end Layout

/-- **The tokens of a source text are filled.** -/
theorem filled_readSource (source : String) : Filled (readSource source).tokens := by
  have hlines (s : Layout) (ls : List (List Char)) :
      Filled ((s.readLines ls).flatMap LineReport.added) := by
    induction ls generalizing s with
    | nil => exact filled_of_no_indent fun _ ht => nomatch ht
    | cons raw rest ih => exact (s.filled_added raw).append (ih _)
  refine (hlines _ _).append (filled_of_no_indent fun t ht => ?_)
  rw [Layout.closing, Layout.step, Nat.zero_sub, List.replicate_zero, List.nil_append] at ht
  simp [(List.mem_replicate.1 ht).2]

end Token

namespace Parse

open Token (Filled)

variable {α β : Type} {P : α → Prop} {Q : β → Prop}

/-- What a parser gives on tokens that are filled. -/
def Fills (Q : α → Prop) (x : Parse α) : Prop :=
  ∀ c a c', Filled c.rest → x c = .ok a c' → Q a ∧ Filled c'.rest

/-- What a parser yields on any tokens it gives on filled ones; and it leaves
the end of what it started on, so that the next one starts on filled tokens
again. -/
theorem Shrinks.fills {x : Parse α} (h : Shrinks x) (hx : Yields P x) : Fills P x := by
  intro c a c' hc ha
  have hsuffix := h c
  rw [ha] at hsuffix
  exact ⟨hx c a c' ha, hc.suffix hsuffix⟩

/-- Two parsers in a row give on filled tokens what the second one gives behind
the first. -/
theorem Fills.bind {x : Parse α} {k : α → Parse β} (hx : Fills P x) (hk : ∀ a, P a → Fills Q (k a)) :
    Fills Q (x >>= k) := by
  intro c b c' hc h
  obtain ⟨a, c₁, ha, hb⟩ := bind_ok h
  obtain ⟨hP, hc₁⟩ := hx c a c₁ hc ha
  exact hk a hP c₁ b c' hc₁ hb

/-- What follows on a parser that leaves the end of what it starts on. -/
theorem Shrinks.fills_bind {x : Parse α} {k : α → Parse β} (hx : Shrinks x) (hk : ∀ a, Fills Q (k a)) :
    Fills Q (x >>= k) :=
  (hx.fills (yields_trivial x)).bind fun a _ => hk a

/-- A parser that takes nothing gives what its result is like. -/
theorem fills_pure {a : α} (h : P a) : Fills P (pure a) := by
  rintro c _ _ hc ⟨⟩
  exact ⟨h, hc⟩

/-- **A block is not empty.** -/
theorem fills_block {st : Parse Stmt} (hst : Shrinks st) : Fills (fun ss => ss ≠ []) (block st) := by
  intro c ss c' hc h
  refine ⟨?_, ((compositional_shrinks.block hst).fills (yields_trivial _) c ss c' hc h).2⟩
  obtain ⟨ts, level⟩ := c
  obtain ⟨t, c₁, ht, hrest⟩ := bind_ok h
  obtain ⟨rest, rfl, hkind, rfl⟩ := expect_ok ht
  obtain ⟨u, hu, hdedent, heol⟩ := hc t rest List.suffix_rfl hkind
  obtain ⟨rest, rfl⟩ := List.head?_eq_some_iff.1 hu
  obtain ⟨rounds, c₂, hremaining, hblock⟩ := bind_ok hrest
  cases hremaining
  rw [blockFrom_cons _ _ _ _ heol, if_neg hdedent] at hblock
  obtain ⟨s, c₃, -, hmore⟩ := bind_ok hblock
  obtain ⟨more, c₄, -, hpure⟩ := bind_ok hmore
  cases hpure
  exact List.cons_ne_nil _ _

section Body

variable {body : Parse (List Stmt)} (hbody : Fills (fun ss => ss ≠ []) body)

include hbody

/-- The body of a branch is not empty. -/
theorem fills_branch (room line : Nat) : Fills (fun b => b.body ≠ []) (branch room body line) :=
  (compositional_shrinks.condition room).fills_bind fun _ =>
    (compositional_shrinks.expect _ _).fills_bind fun _ => compositional_shrinks.endLine.fills_bind
    fun _ => hbody.bind fun _ hss => fills_pure hss

/-- The bodies of further branches are not empty. The induction is on the
rounds. -/
theorem fills_moreBranches (room : Nat) (rounds : List Token) :
    Fills (fun branches => ∀ b ∈ branches, b.body ≠ []) (moreBranches room body rounds) := by
  induction rounds with
  | nil => exact fills_pure fun _ hb => nomatch hb
  | cons _ rounds ih =>
    -- what follows the word of a branch with a condition
    have hmore (line : Nat) : Fills (fun branches => ∀ b ∈ branches, b.body ≠ []) (do
        let b ← branch room body line
        return b :: (← moreBranches room body rounds)) :=
      (fills_branch hbody room line).bind fun b hb => ih.bind fun rest hrest =>
        fills_pure (List.forall_mem_cons.2 ⟨hb, hrest⟩)
    refine (shrinks_take? _).fills_bind fun elsif? => ?_
    cases elsif? with
    | some t => exact hmore t.line
    | none =>
      refine (shrinks_take? _).fills_bind fun else? => ?_
      cases else? with
      | none => exact fills_pure fun _ hb => nomatch hb
      | some e =>
        refine (shrinks_take? _).fills_bind fun if? => ?_
        cases if? with
        | some t => exact hmore t.line
        | none =>
          exact compositional_shrinks.endLine.fills_bind fun _ => hbody.bind fun _ hss =>
            fills_pure (List.forall_mem_singleton.2 hss)

/-- The bodies of an if chain are not empty. -/
theorem fills_ifChain (room line : Nat) :
    Fills (fun s => ∀ b ∈ s.blocks, b ≠ []) (ifChain room body line) := by
  refine (fills_branch hbody room line).bind fun b hb => compositional_shrinks.remaining.fills_bind
    fun ts => (fills_moreBranches hbody room ts).bind fun rest hrest => fills_pure fun ss hss => ?_
  have hbodies : ∀ b' ∈ b :: rest, b'.body ≠ [] := List.forall_mem_cons.2 ⟨hb, hrest⟩
  obtain ⟨b', hb', rfl⟩ := List.mem_map.1 hss
  exact hbodies b' hb'

/-- The body of a `while` loop is not empty. -/
theorem fills_whileLoop (room line : Nat) :
    Fills (fun s => ∀ b ∈ s.blocks, b ≠ []) (whileLoop room body line) :=
  (compositional_shrinks.condition room).fills_bind fun _ => compositional_shrinks.endLine.fills_bind
    fun _ => hbody.bind fun _ hss => fills_pure (List.forall_mem_singleton.2 hss)

/-- The body of a `repeat` loop is not empty. -/
theorem fills_repeatLoop (room line : Nat) :
    Fills (fun s => ∀ b ∈ s.blocks, b ≠ []) (repeatLoop room body line) :=
  (compositional_shrinks.expect _ _).fills_bind fun _ =>
    (compositional_shrinks.condition room).fills_bind fun _ => compositional_shrinks.endLine.fills_bind
    fun _ => hbody.bind fun _ hss => fills_pure (List.forall_mem_singleton.2 hss)

/-- The body of a `for` loop is not empty. -/
theorem fills_forLoop (room line : Nat) :
    Fills (fun s => ∀ b ∈ s.blocks, b ≠ []) (forLoop room body line) :=
  (compositional_shrinks.expect _ _).fills_bind fun _ => (compositional_shrinks.expect _ _).fills_bind
    fun _ => (compositional_shrinks.expression room).fills_bind fun _ =>
    (compositional_shrinks.expect _ _).fills_bind fun _ =>
    (compositional_shrinks.expression room).fills_bind fun _ =>
    compositional_shrinks.endLine.fills_bind fun _ => hbody.bind fun _ hss =>
    fills_pure (List.forall_mem_singleton.2 hss)

end Body

/-- **The blocks of a statement are not empty.** -/
theorem fills_statement (room : Nat) :
    Fills (fun s => ∀ b ∈ s.blocks, b ≠ []) (statement room) := by
  rintro ⟨ts, level⟩ s c hc h
  obtain ⟨k, t, rest, x, -, rfl, hx, hs⟩ := statement_ok h
  have hblock (r : Nat) : Fills (fun ss => ss ≠ []) (block (statement r)) :=
    fills_block (compositional_shrinks.statement r)
  have hfills : Fills (fun s => ∀ b ∈ s.blocks, b ≠ []) x := by
    cases hx with
    | ifChain => exact fills_ifChain (hblock _) k _
    | whileLoop => exact fills_whileLoop (hblock _) k _
    | forLoop => exact fills_forLoop (hblock _) k _
    | repeatLoop => exact fills_repeatLoop (hblock _) k _
    | nameStatement =>
      exact (compositional_shrinks.nameStatement k t).fills
        (.nameStatement (fun _ _ hb => nomatch hb) (fun _ _ _ hb => nomatch hb) k)
  exact hfills ⟨rest, level⟩ s c (hc.suffix (List.suffix_cons t rest)) hs

end Parse
end Shank
