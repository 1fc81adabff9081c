/-
# Reading back what was written

`Reads ls N Q x`: given tokens for the lexemes `ls`, wherever they stand, and
behind them something that may come there (`N` tells by its kind), the parser
`x` takes exactly these tokens and gives what `Q` says. Each way to put parsers
together has a rule; what is written is then read back by applying them along
the parser.

What may come behind a parser that stops by looking ahead depends on where it is
used: a term goes on when `*` comes next, an expression when `+` does. So the
rule for two parsers in a row asks that what the second one reads may come
behind the first (`nextOf`).
-/

import Shank.Parse.Program
import Shank.Proofs.Print.Source
import Shank.Proofs.Sequencing
import Shank.Proofs.Token.Balance

namespace Shank
namespace Parse

open Token (balance)

variable {α β : Type}

/-- The kind of the next token. -/
def next (rest : List Token) : Option Token.Kind :=
  rest.head?.map Token.kind

/-- The kind of what comes next, if `ls` comes and then something of kind `k`. -/
def nextOf (ls : List Lexeme) (k : Option Token.Kind) : Option Token.Kind :=
  match ls with
  | [] => k
  | l :: _ => some l.kind

/-- None of these comes next. -/
def NoneOf (kinds : List Token.Kind) (k : Option Token.Kind) : Prop :=
  ∀ kind ∈ kinds, k ≠ some kind

instance (kinds : List Token.Kind) (k : Option Token.Kind) : Decidable (NoneOf kinds k) :=
  inferInstanceAs (Decidable (∀ kind ∈ kinds, _))

/-- A parser takes exactly the tokens of `ls`, if `N` holds of what comes next. -/
def Reads (ls : List Lexeme) (N : Option Token.Kind → Prop) (Q : α → Prop) (x : Parse α) : Prop :=
  ∀ ts rest level, ts.map Token.lexeme = ls → N (next rest) →
    ∃ a, x ⟨ts ++ rest, level⟩ = .ok a ⟨rest, level + balance ts⟩ ∧ Q a

variable {ls r : List Lexeme} {l : Lexeme} {M N : Option Token.Kind → Prop} {P : α → Prop}
  {Q : β → Prop}

/-- What comes next, when the tokens of some lexemes are put in front. -/
theorem next_append {ts rest : List Token} (h : ts.map Token.lexeme = ls) :
    next (ts ++ rest) = nextOf ls (next rest) := by
  subst h
  cases ts <;> rfl

/-- What comes next, when two lists of lexemes are put in front. -/
theorem nextOf_append (ls ls' : List Lexeme) (k : Option Token.Kind) :
    nextOf (ls ++ ls') k = nextOf ls (nextOf ls' k) := by
  cases ls <;> rfl

/-- A parser reads under less that may follow, and gives what holds of more. -/
theorem Reads.mono {x : Parse α} {N' : Option Token.Kind → Prop} {P' : α → Prop}
    (h : Reads ls N P x) (hN : ∀ k, N' k → N k) (hP : ∀ a, P a → P' a) : Reads ls N' P' x := by
  intro ts rest level hts hn
  obtain ⟨a, hx, ha⟩ := h ts rest level hts (hN _ hn)
  exact ⟨a, hx, hP a ha⟩

/-- A parser that takes nothing reads no lexemes, whatever follows. -/
theorem reads_pure {a : α} (h : P a) : Reads [] N P (pure a) := by
  intro ts rest level hts _
  cases List.map_eq_nil_iff.1 hts
  exact ⟨a, by simp [balance, pure, EStateM.pure], h⟩

/-- **Two parsers in a row read what one reads and then what the other reads.** -/
theorem Reads.bind {x : Parse α} {f : α → Parse β} (hx : Reads ls M P x)
    (hf : ∀ a, P a → Reads r N Q (f a)) (hnext : ∀ k, N k → M (nextOf r k)) :
    Reads (ls ++ r) N Q (x >>= f) := by
  intro ts rest level hts hn
  obtain ⟨us, vs, rfl, hus, hvs⟩ := List.map_eq_append_iff.1 hts
  obtain ⟨a, ha, hP⟩ := hx us (vs ++ rest) level hus (by rw [next_append hvs]; exact hnext _ hn)
  obtain ⟨b, hb, hQ⟩ := hf a hP vs rest (level + balance us) hvs hn
  refine ⟨b, ?_, hQ⟩
  rw [List.append_assoc, bind_eq ha, hb, Token.balance_append, add_assoc]

/-- What reads nothing comes last. -/
theorem Reads.map {x : Parse α} {g : α → β} (hx : Reads ls N P x) (hg : ∀ a, P a → Q (g a)) :
    Reads ls N Q (x >>= fun a => pure (g a)) := by
  have h := hx.bind (f := fun a => pure (g a)) (r := []) (N := N)
    (fun a ha => reads_pure (hg a ha)) fun _ hn => hn
  rwa [List.append_nil] at h

/-! ## One token

The rules for a parser with lexemes in front of it: what it sees next is the
first of them, or what follows if there is none.
-/

/-- A token more is counted by the level, be it taken now or with the others. -/
theorem cursor_cons {t : Token} {ts : List Token} {level : Int} :
    level + t.levelChange + balance ts = level + balance (t :: ts) := by
  simp [balance, add_assoc]

/-- A token that is skipped is read, of whatever kind. -/
theorem reads_skip_bind {f : Unit → Parse β} (hf : Reads ls N Q (f ())) :
    Reads (l :: ls) N Q (skip >>= f) := by
  intro ts rest level hts hn
  obtain ⟨t, us, rfl, -, hus⟩ := List.map_eq_cons_iff.1 hts
  obtain ⟨b, hb, hQ⟩ := hf us rest (level + t.levelChange) hus hn
  refine ⟨b, ?_, hQ⟩
  rw [← cursor_cons, ← hb]
  exact bind_eq rfl

/-- A token of the kind that is asked for is taken. -/
theorem reads_take_bind {kind : Token.Kind} {f : Option Token → Parse β} (hl : l.kind = kind)
    (hf : ∀ t, t.lexeme = l → Reads ls N Q (f (some t))) :
    Reads (l :: ls) N Q (take? kind >>= f) := by
  intro ts rest level hts hn
  obtain ⟨t, us, rfl, ht, hus⟩ := List.map_eq_cons_iff.1 hts
  obtain ⟨b, hb, hQ⟩ := hf t ht us rest (level + t.levelChange) hus hn
  refine ⟨b, ?_, hQ⟩
  have hk : t.kind = kind := by rw [← hl, ← ht]; rfl
  rw [← cursor_cons, ← hb]
  refine bind_eq ?_
  simp only [take?, List.cons_append, if_pos hk]

/-- A parser that takes nothing, whatever it looks at, is passed. -/
theorem reads_still_bind {γ : Type} {x : Parse γ} {c : γ} {f : γ → Parse β}
    (hx : ∀ rest level, (∃ k, N k ∧ next rest = nextOf ls k) → x ⟨rest, level⟩ = .ok c ⟨rest, level⟩)
    (hf : Reads ls N Q (f c)) : Reads ls N Q (x >>= f) := by
  intro ts rest level hts hn
  obtain ⟨b, hb, hQ⟩ := hf ts rest level hts hn
  exact ⟨b, (bind_eq (hx _ _ ⟨_, hn, next_append hts⟩)).trans hb, hQ⟩

/-- A token of another kind is left, if what may follow is not of the kind
either. -/
theorem reads_take_none_bind {kind : Token.Kind} {f : Option Token → Parse β}
    (hnext : ∀ k, N k → nextOf ls k ≠ some kind) (hf : Reads ls N Q (f none)) :
    Reads ls N Q (take? kind >>= f) := by
  refine reads_still_bind (fun rest level ⟨k, hk, hrest⟩ => ?_) hf
  cases rest with
  | nil => rfl
  | cons t us =>
    have hne : t.kind ≠ kind := fun e => hnext k hk (hrest.symm.trans (congrArg some e))
    simp only [take?, if_neg hne]

/-- A token that has to come, and does, is taken. -/
theorem reads_expect_bind {kind : Token.Kind} {item : Item} {f : Token → Parse β}
    (hl : l.kind = kind) (hf : ∀ t, t.lexeme = l → Reads ls N Q (f t)) :
    Reads (l :: ls) N Q (expect kind item >>= f) := by
  rw [expect, bind_assoc]
  exact reads_take_bind hl fun t ht => by rw [pure_bind]; exact hf t ht

/-- What is asked about the next token is answered by its kind. -/
theorem reads_at_bind {kind : Token.Kind} {f : Bool → Parse β} {b : Bool}
    (hnext : ∀ k, N k → (nextOf ls k = some kind ↔ b = true)) (hf : Reads ls N Q (f b)) :
    Reads ls N Q (at_ kind >>= f) := by
  refine reads_still_bind (fun rest level ⟨k, hk, hrest⟩ => ?_) hf
  have hany : (rest.head?.any fun t => t.kind == kind) = true ↔ b = true := by
    rw [← hnext k hk, ← hrest, next, Option.map_eq_some_iff, Option.any_eq_true]
    simp only [beq_iff_eq]
  rw [at_, Bool.eq_iff_iff.2 hany]

/-- To look ahead shows the kind of what comes next, which is the lexeme in
front, or else what may follow. -/
theorem reads_peek_bind {f : Option Token → Parse β}
    (hf : ∀ o, (∃ k, N k ∧ o.map Token.kind = nextOf ls k) → Reads ls N Q (f o)) :
    Reads ls N Q (peek >>= f) := by
  intro ts rest level hts hn
  obtain ⟨b, hb, hQ⟩ := hf (ts ++ rest).head? ⟨_, hn, next_append hts⟩ ts rest level hts hn
  exact ⟨b, (bind_eq rfl).trans hb, hQ⟩

/-- The next token is of one of some kinds. -/
theorem reads_peek_some_bind {kinds : List Token.Kind} {f : Option Token → Parse β}
    (hnext : ∀ k, ∃ kind ∈ kinds, nextOf ls k = some kind)
    (hf : ∀ t : Token, t.kind ∈ kinds → Reads ls N Q (f (some t))) : Reads ls N Q (peek >>= f) := by
  refine reads_peek_bind fun o ⟨k, _, hok⟩ => ?_
  obtain ⟨kind, hkind, hk⟩ := hnext k
  cases o with
  | none => cases hok.trans hk
  | some t =>
    have ht : t.kind = kind := Option.some.inj (hok.trans hk)
    exact hf t (ht ▸ hkind)

/-- The next token is known. -/
theorem reads_peek_cons_bind {f : Option Token → Parse β}
    (hf : ∀ t, t.lexeme = l → Reads (l :: ls) N Q (f (some t))) :
    Reads (l :: ls) N Q (peek >>= f) := by
  intro ts rest level hts hn
  obtain ⟨t, us, rfl, ht, hus⟩ := List.map_eq_cons_iff.1 hts
  obtain ⟨b, hb, hQ⟩ := hf t ht (t :: us) rest level hts hn
  exact ⟨b, (bind_eq rfl).trans hb, hQ⟩

/-- A loop gets at least as many rounds as there are tokens to be read, and one
more if there is something behind them. -/
theorem reads_remaining_bind {f : List Token → Parse β}
    (hf : ∀ rounds : List Token, ls.length ≤ rounds.length →
      (¬N none → ls.length < rounds.length) → Reads ls N Q (f rounds)) :
    Reads ls N Q (remaining >>= f) := by
  intro ts rest level hts hn
  have hlength : ls.length = ts.length := by rw [← hts, List.length_map]
  obtain ⟨b, hb, hQ⟩ := hf (ts ++ rest) (by simp [hlength]) (fun hnone => by
    cases rest with
    | nil => exact absurd hn hnone
    | cons t us => simp [hlength]) ts rest level hts hn
  exact ⟨b, (bind_eq rfl).trans hb, hQ⟩

/-- No line ends are skipped where none comes. -/
theorem reads_skipLineEnds_bind {f : Unit → Parse β}
    (hnext : ∀ k, N k → nextOf ls k ≠ some .endOfLine) (hf : Reads ls N Q (f ())) :
    Reads ls N Q (skipLineEnds >>= f) := by
  refine reads_still_bind (fun rest level ⟨k, hk, hrest⟩ => ?_) hf
  cases rest with
  | nil => rfl
  | cons t us =>
    have hne : t.kind ≠ .endOfLine := fun e => hnext k hk (hrest.symm.trans (congrArg some e))
    rw [skipLineEnds, List.dropWhile_cons_of_neg (by simpa using hne)]

/-- The end of a line is read, if no other one may follow: it would be skipped
too. -/
theorem reads_endLine_bind {f : Unit → Parse β} (hl : l.kind = .endOfLine)
    (hnext : ∀ k, N k → nextOf ls k ≠ some .endOfLine) (hf : Reads ls N Q (f ())) :
    Reads (l :: ls) N Q (endLine >>= f) := by
  rw [endLine, bind_assoc]
  exact reads_expect_bind hl fun _ _ => reads_skipLineEnds_bind hnext hf

end Parse
end Shank
