/-
# The grammar of expressions

`Derives p ts e`: the tokens `ts` are a phrase `p` with the tree `e`.

| phrase | rules |
| --- | --- |
| condition | expression; expression compare-op expression |
| expression | term; expression `+` term; expression `-` term |
| term | factor; term `*` factor; term `/` factor; term `mod` factor |
| factor | literal; `-` number; name; name `[` expression `]`; `(` expression `)` |

A rule that starts with its own phrase makes operators associate to the left. A
node has the line of its first token, an operation that of its operator. A
number that stands for nothing, and a character token that does not hold one
character, is no literal.

Main statement: the parser of conditions takes the tokens of a phrase and gives
its tree; and it does so for every phrase that nothing goes on with, if there is
room for it (`condition_derives`).

The grammar meets the operators of a chain from the right and the parser meets
them from the left, so what the induction over derivations carries is that a
phrase can be read as the left operand of what comes next (`Chains`).
-/

import Shank.Proofs.Parse.Expressions
import Shank.Proofs.Parse.Flat

namespace Shank

/-- What stands in one token and denotes a value. -/
inductive Token.Denotes : Token → Scalar → Prop
  | integer {t : Token} {n : Int} (kind : t.kind = .number) (point : '.' ∉ t.text.toList)
      (value : Numeral.integer? t.text = .ok n) : Denotes t (.integer n)
  | real {t : Token} {x : Ieee} (kind : t.kind = .number) (point : '.' ∈ t.text.toList)
      (value : Numeral.real? t.text = some x) : Denotes t (.real (Format.single.round x))
  | string {t : Token} (kind : t.kind = .stringLiteral) : Denotes t (.string t.text)
  | character {t : Token} {c : Char} (kind : t.kind = .characterLiteral)
      (text : t.text.toList = [c]) : Denotes t (.character c)
  | true_ {t : Token} (kind : t.kind = .true_) : Denotes t (.boolean true)
  | false_ {t : Token} (kind : t.kind = .false_) : Denotes t (.boolean false)

/-- The phrases of the grammar. -/
inductive Phrase
  | condition | expression | term | factor
  deriving DecidableEq, Repr

/-- The grammar. -/
inductive Derives : Phrase → List Token → Expr → Prop
  | compare {ts us : List Token} {t : Token} {op : CompareOp} {left right : Expr}
      (kind : t.kind = op.lexeme.kind) (hleft : Derives .expression ts left)
      (hright : Derives .expression us right) :
      Derives .condition (ts ++ t :: us) (.comparison t.line op left right)
  | plain {ts : List Token} {e : Expr} (h : Derives .expression ts e) : Derives .condition ts e
  | sum {ts us : List Token} {t : Token} {op : ArithOp} {left right : Expr}
      (mem : op ∈ [ArithOp.add, .sub]) (kind : t.kind = op.lexeme.kind)
      (hleft : Derives .expression ts left) (hright : Derives .term us right) :
      Derives .expression (ts ++ t :: us) (.arithmetic t.line op left right)
  | term {ts : List Token} {e : Expr} (h : Derives .term ts e) : Derives .expression ts e
  | product {ts us : List Token} {t : Token} {op : ArithOp} {left right : Expr}
      (mem : op ∈ [ArithOp.mul, .div, .mod]) (kind : t.kind = op.lexeme.kind)
      (hleft : Derives .term ts left) (hright : Derives .factor us right) :
      Derives .term (ts ++ t :: us) (.arithmetic t.line op left right)
  | factor {ts : List Token} {e : Expr} (h : Derives .factor ts e) : Derives .term ts e
  | literal {t : Token} {v : Scalar} (denotes : t.Denotes v) :
      Derives .factor [t] (.literal t.line v)
  | negative {sign t : Token} {v : Scalar} (kind : sign.kind = .minus) (number : t.kind = .number)
      (denotes : t.Denotes v) : Derives .factor [sign, t] (.literal sign.line (Parse.negated v))
  | name {t : Token} (kind : t.kind = .identifier) : Derives .factor [t] (.var t.line t.text)
  | element {t opening closing : Token} {ts : List Token} {index : Expr} (kind : t.kind = .identifier)
      (opens : opening.kind = .openBracket) (closes : closing.kind = .closeBracket)
      (h : Derives .expression ts index) :
      Derives .factor (t :: opening :: (ts ++ [closing])) (.element t.line t.text index)
  | parentheses {opening closing : Token} {ts : List Token} {e : Expr}
      (opens : opening.kind = .openParen) (closes : closing.kind = .closeParen)
      (h : Derives .expression ts e) : Derives .factor (opening :: (ts ++ [closing])) e

/-- An arithmetic operator is no level. -/
theorem ArithOp.not_isLevel (op : ArithOp) : ¬Parse.IsLevel op.lexeme.kind := by
  cases op <;> decide

/-- A comparison is no level. -/
theorem CompareOp.not_isLevel (op : CompareOp) : ¬Parse.IsLevel op.lexeme.kind := by
  cases op <;> decide

namespace Parse

variable {α β : Type} {room : Nat} {ts us rest : List Token} {level : Int} {e : Expr}

/-! ## What the parser takes

A parser is described by a relation between the tokens it takes and what it
gives. The relation of two parsers in a row is that of the first one, put in
front of that of the second, so a description is put together along the
definition of the parser.
-/

/-- With a stream in front of it, a parser takes tokens of which `P` holds,
together with what it gives, and comes back to the level it started on. -/
def TakesAt (c : Cursor) (x : Parse α) (P : List Token → α → Prop) : Prop :=
  ∀ a c', x c = .ok a c' → ∃ ts, c.rest = ts ++ c'.rest ∧ c'.level = c.level ∧ P ts a

/-- Whatever stream is in front of it. -/
def Takes (x : Parse α) (P : List Token → α → Prop) : Prop :=
  ∀ c, TakesAt c x P

variable {c : Cursor} {P : List Token → α → Prop} {Q : List Token → β → Prop} {t : Token}

/-- A parser that takes nothing gives its result for no tokens. -/
theorem takes_pure {a : α} (h : P [] a) : Takes (pure a) P := by
  rintro c _ _ ⟨⟩
  exact ⟨[], rfl, rfl, h⟩

/-- A parser that halts takes nothing that anything is said of. -/
theorem takes_throw (h : ParseHalt) : Takes (throw h : Parse α) P :=
  fun _ _ _ h => nomatch h

/-- A parser that fails at a token takes nothing that anything is said of. -/
theorem takes_failAt (problem : SyntaxProblem) (t : Option Token) :
    Takes (failAt problem t : Parse α) P :=
  takes_throw _

/-- A parser that fails where it stands takes nothing that anything is said of. -/
theorem takes_failHere (problem : SyntaxProblem) : Takes (failHere problem : Parse α) P :=
  fun _ _ _ h => nomatch h

/-- Two parsers in a row take the tokens of both, in front of some stream. -/
theorem TakesAt.bind {x : Parse α} {f : α → Parse β} (hx : TakesAt c x P)
    (hf : ∀ ts a, P ts a → Takes (f a) fun us b => Q (ts ++ us) b) : TakesAt c (x >>= f) Q := by
  intro b c' h
  obtain ⟨a, c₁, ha, hb⟩ := bind_ok h
  obtain ⟨ts, hts, hlevel, hP⟩ := hx a c₁ ha
  obtain ⟨us, hus, hlevel', hQ⟩ := hf ts a hP c₁ b c' hb
  exact ⟨ts ++ us, by rw [hts, hus, List.append_assoc], hlevel'.trans hlevel, hQ⟩

/-- **Two parsers in a row take the tokens of both**, one behind the other. -/
theorem Takes.bind {x : Parse α} {f : α → Parse β} (hx : Takes x P)
    (hf : ∀ ts a, P ts a → Takes (f a) fun us b => Q (ts ++ us) b) : Takes (x >>= f) Q :=
  fun c => (hx c).bind hf

/-- A parser that looks at the next token. -/
theorem takes_peek_bind {f : Option Token → Parse α} (hnone : Takes (f none) P)
    (hsome : ∀ t rest level, TakesAt ⟨t :: rest, level⟩ (f (some t)) P) : Takes (peek >>= f) P := by
  rintro ⟨rest, level⟩ a c' h
  rw [bind_eq (x := peek) rfl] at h
  cases rest with
  | nil => exact hnone _ a c' h
  | cons t rest => exact hsome t rest level a c' h

/-- A token that was looked at is skipped. -/
theorem takesAt_skip_bind {f : Unit → Parse α} {kind : Token.Kind} (ht : t.kind = kind)
    (hk : ¬IsLevel kind) (hf : Takes (f ()) fun us a => P (t :: us) a) :
    TakesAt ⟨t :: rest, level⟩ (skip >>= f) P := by
  intro a c' h
  obtain ⟨us, hus, hlevel, hP⟩ := hf _ a c' h
  refine ⟨t :: us, congrArg (t :: ·) hus, ?_, hP⟩
  rw [hlevel, levelChange_of_kind (ht ▸ hk)]
  simp

/-- A token of a kind that is no level is taken, or nothing. -/
theorem takes_take? {kind : Token.Kind} (hkind : ¬IsLevel kind) :
    Takes (take? kind) fun ts o => match o with
      | none => ts = []
      | some t => ts = [t] ∧ t.kind = kind := by
  rintro ⟨rest, level⟩ o c' h
  cases rest with
  | nil =>
    cases h
    exact ⟨[], rfl, rfl, rfl⟩
  | cons t rest =>
    simp only [take?] at h
    split at h
    · rename_i hk
      cases h
      exact ⟨[t], rfl, by simp [levelChange_of_kind (hk ▸ hkind)], rfl, hk⟩
    · cases h
      exact ⟨[], rfl, rfl, rfl⟩

/-- A token that has to come is taken, of a kind that is no level. -/
theorem takes_expect {kind : Token.Kind} (item : Item) (hkind : ¬IsLevel kind) :
    Takes (expect kind item) fun ts t => ts = [t] ∧ t.kind = kind := by
  refine (takes_take? hkind).bind fun ts o ho => ?_
  cases o with
  | none => exact takes_failHere _
  | some t =>
    obtain ⟨rfl, hk⟩ := ho
    exact takes_pure ⟨rfl, hk⟩

/-- To count the rounds of a loop takes nothing. -/
theorem takes_remaining : Takes remaining fun ts _ => ts = [] := by
  rintro c _ _ ⟨⟩
  exact ⟨[], rfl, rfl, rfl⟩

/-- To read the number of a token takes nothing, and gives what the token
denotes. -/
theorem takes_number (ht : t.kind = .number) :
    Takes (number t) fun us v => us = [] ∧ t.Denotes v := by
  unfold number
  split
  · rename_i hpoint
    split
    · exact takes_pure ⟨rfl, .real ht hpoint ‹_›⟩
    · exact takes_throw _
  · rename_i hpoint
    split
    · exact takes_pure ⟨rfl, .integer ht hpoint ‹_›⟩
    · exact takes_throw _

/-- To read the character of a token takes nothing, and gives what the token
denotes. -/
theorem takes_character (ht : t.kind = .characterLiteral) :
    Takes (character t) fun us v => us = [] ∧ t.Denotes v := by
  unfold character
  split
  · exact takes_pure ⟨rfl, .character ht ‹_›⟩
  · exact takes_failAt _ _

/-! ## What is taken is a phrase

The one direction: what the parser takes is derived by the grammar. A rule of
the grammar is found for each step of the parser, and for the loop over
operators a derivation that grows to the right.
-/

/-- **What is taken as a factor is one**, if what is taken in its brackets or
parentheses is an expression. -/
theorem takes_factor {inner : Parse Expr} (h : Takes inner (Derives .expression)) :
    Takes (factor inner) (Derives .factor) := by
  refine takes_peek_bind (takes_failHere _) fun t rest level => ?_
  dsimp only
  split
  all_goals try rename_i hk
  · -- in parentheses
    refine takesAt_skip_bind hk (by decide) (h.bind fun ts e he => ?_)
    refine (takes_expect _ (by decide)).bind fun us closing hc => ?_
    obtain ⟨rfl, hclose⟩ := hc
    refine takes_pure ?_
    simpa using Derives.parentheses hk hclose he
  · -- a number
    refine takesAt_skip_bind hk (by decide)
      ((takes_number hk).bind fun us v hv => ?_)
    obtain ⟨rfl, hv⟩ := hv
    exact takes_pure (.literal hv)
  · -- a negative number
    refine takesAt_skip_bind hk (by decide) ?_
    refine (takes_expect _ (by decide)).bind fun us u hu => ?_
    obtain ⟨rfl, hu⟩ := hu
    refine (takes_number hu).bind fun us v hv => ?_
    obtain ⟨rfl, hv⟩ := hv
    exact takes_pure (.negative hk hu hv)
  · -- a name, perhaps with an index
    refine takesAt_skip_bind hk (by decide) ?_
    refine (takes_take? (by decide)).bind fun us o ho => ?_
    cases o with
    | none =>
      obtain rfl : us = [] := ho
      exact takes_pure (.name hk)
    | some opening =>
      obtain ⟨rfl, hopen⟩ := ho
      refine h.bind fun ts index hindex => ?_
      refine (takes_expect _ (by decide)).bind fun us closing hc => ?_
      obtain ⟨rfl, hclose⟩ := hc
      refine takes_pure ?_
      simpa using Derives.element hk hopen hclose hindex
  · exact takesAt_skip_bind hk (by decide) (takes_pure (.literal (.string hk)))
  · refine takesAt_skip_bind hk (by decide)
      ((takes_character hk).bind fun us v hv => ?_)
    obtain ⟨rfl, hv⟩ := hv
    exact takes_pure (.literal hv)
  · exact takesAt_skip_bind hk (by decide) (takes_pure (.literal (.true_ hk)))
  · exact takesAt_skip_bind hk (by decide) (takes_pure (.literal (.false_ hk)))
  · exact takes_failHere _ _

/-- A chain of operators is read from the left: whatever was read so far is the
left operand of the next one. -/
theorem takes_chain {operand : Parse Expr} {op? : Token.Kind → Option ArithOp} {p q : Phrase}
    (hlevel : Levelless op?)
    (hop : ∀ {t : Token} {op ts us left right}, op? t.kind = some op → Derives p ts left →
      Derives q us right → Derives p (ts ++ t :: us) (.arithmetic t.line op left right))
    (hone : ∀ {ts e}, Derives q ts e → Derives p ts e) (h : Takes operand (Derives q)) :
    Takes (chain operand op?) (Derives p) := by
  -- the rounds, with the tokens `ts` of what was read so far
  have hfrom : ∀ rounds ts left, Derives p ts left →
      Takes (chainFrom operand op? rounds left) fun us e => Derives p (ts ++ us) e := by
    intro rounds
    induction rounds with
    | nil =>
      intro ts left hleft
      refine takes_pure ?_
      rwa [List.append_nil]
    | cons _ rounds ih =>
      intro ts left hleft
      have hend : Takes (pure left : Parse Expr) fun us e => Derives p (ts ++ us) e :=
        takes_pure (by rwa [List.append_nil])
      rw [chainFrom]
      refine takes_peek_bind hend fun t rest level => ?_
      dsimp only
      split
      · exact hend _
      · rename_i op ht
        refine takesAt_skip_bind rfl (hlevel _ (by rw [ht]; rfl)) (h.bind fun us right hright => ?_)
        simpa only [List.append_assoc, List.cons_append] using
          ih (ts ++ t :: us) _ (hop ht hleft hright)
  rw [chain_eq]
  refine h.bind fun ts left hleft => takes_remaining.bind fun us rounds hus => ?_
  subst hus
  exact hfrom rounds ts left (hone hleft)

/-- The operators of a sum are `+` and `-`, as they are written. -/
theorem sumOp?_eq_some {kind : Token.Kind} {op : ArithOp} (h : sumOp? kind = some op) :
    op ∈ [ArithOp.add, .sub] ∧ kind = op.lexeme.kind := by
  cases kind <;> cases h <;> decide

/-- The operators of a term are `*`, `/` and `mod`, as they are written. -/
theorem termOp?_eq_some {kind : Token.Kind} {op : ArithOp} (h : termOp? kind = some op) :
    op ∈ [ArithOp.mul, .div, .mod] ∧ kind = op.lexeme.kind := by
  cases kind <;> cases h <;> decide

/-- A comparison is read as it is written. -/
theorem compareOp?_eq_some {kind : Token.Kind} {op : CompareOp} (h : compareOp? kind = some op) :
    kind = op.lexeme.kind := by
  cases kind <;> cases h <;> rfl

/-- **What is taken as an expression is one.** The induction is on the room. -/
theorem takes_expression (room : Nat) : Takes (expression room) (Derives .expression) := by
  match room with
  | 0 | 1 | 2 => exact takes_throw _
  | room + 3 =>
    have hterm : Takes (chain (factor (expression room)) termOp?) (Derives .term) :=
      takes_chain levelless_termOp? (fun ht => (termOp?_eq_some ht).elim .product) .factor
        (takes_factor (takes_expression room))
    exact takes_chain levelless_sumOp? (fun ht => (sumOp?_eq_some ht).elim .sum) .term hterm

/-- **What is taken as a condition is one.** -/
theorem takes_condition (room : Nat) : Takes (condition room) (Derives .condition) := by
  refine (takes_expression room).bind fun ts left hleft => ?_
  have hend : Takes (pure left : Parse Expr) fun us e => Derives .condition (ts ++ us) e :=
    takes_pure (by rw [List.append_nil]; exact .plain hleft)
  refine takes_peek_bind hend fun t rest level => ?_
  dsimp only
  split
  · exact hend _
  · rename_i op ht
    refine takesAt_skip_bind rfl (levelless_compareOp? _ (by rw [ht]; rfl))
      ((takes_expression room).bind fun us right hright => takes_pure ?_)
    simpa using Derives.compare (compareOp?_eq_some ht) hleft hright

/-! ## What a phrase is taken for

The other direction starts here. A phrase is read as its tree in front of tokens
that do not go on with it, and which those are depends on the phrase.
-/

variable {kind : Token.Kind}

/-- What follows on a token that is skipped, and is no level. -/
theorem skip_bind {f : Unit → Parse α} (ht : t.kind = kind) (hk : ¬IsLevel kind) :
    (skip >>= f) ⟨t :: rest, level⟩ = f () ⟨rest, level⟩ := by
  refine bind_eq ?_
  simp [skip, levelChange_of_kind (ht ▸ hk)]

/-- What follows on a look at the next token. -/
theorem peek_bind {f : Option Token → Parse α} :
    (peek >>= f) ⟨t :: rest, level⟩ = f (some t) ⟨t :: rest, level⟩ :=
  bind_eq rfl

/-- What follows on a token that is taken. -/
theorem take_bind {f : Option Token → Parse α} (ht : t.kind = kind)
    (hk : ¬IsLevel kind) :
    (take? kind >>= f) ⟨t :: rest, level⟩ = f (some t) ⟨rest, level⟩ := by
  refine bind_eq ?_
  simp [take?, ht, levelChange_of_kind (ht ▸ hk)]

/-- What follows on a token that is left. -/
theorem take_none_bind {f : Option Token → Parse α} (hk : next rest ≠ some kind) :
    (take? kind >>= f) ⟨rest, level⟩ = f none ⟨rest, level⟩ := by
  refine bind_eq ?_
  cases rest with
  | nil => rfl
  | cons t rest => simp only [take?, if_neg fun e : t.kind = kind => hk (congrArg some e)]

/-- What follows on a token that has to come, and does. -/
theorem expect_bind {item : Item} {f : Token → Parse α} (ht : t.kind = kind)
    (hk : ¬IsLevel kind) :
    (expect kind item >>= f) ⟨t :: rest, level⟩ = f t ⟨rest, level⟩ := by
  rw [expect, bind_assoc, take_bind ht hk]
  rfl

/-- A number token is read as what it denotes. -/
theorem number_eq {v : Scalar} (hk : t.kind = .number) (h : t.Denotes v) : number t = pure v := by
  cases h with
  | integer _ point value => simp only [number, if_neg point, value]
  | real _ point value => simp only [number, if_pos point, value]
  | string kind | character kind | true_ kind | false_ kind => simp [hk] at kind

/-- Where nothing goes on with it, a phrase is read as its tree. -/
def Parses (k room : Nat) (ts : List Token) (e : Expr) : Prop :=
  ∀ rest level, NoneOf (continuing k) (next rest) →
    operand (expression room) k ⟨ts ++ rest, level⟩ = .ok e ⟨rest, level⟩

/-- A phrase is read as the left operand of a chain that may go on. -/
def Chains (k room : Nat) (ts : List Token) (e : Expr) : Prop :=
  ∀ rest level, NoneOf (continuing (k + 1)) (next rest) →
    ∃ rounds : List Token, rest.length ≤ rounds.length ∧
      operand (expression room) k ⟨ts ++ rest, level⟩ =
        chainFrom (operand (expression room) (k + 1)) (levelOp? k) rounds e ⟨rest, level⟩

variable {k : Nat}

/-- A phrase of the next level is an operand, and starts a chain. -/
theorem Parses.chains (hk : k < 2) (h : Parses (k + 1) room ts e) : Chains k room ts e := by
  intro rest level hnext
  refine ⟨rest, le_rfl, ?_⟩
  rw [operand_eq_chain _ hk, chain_eq, bind_eq (h rest level hnext), bind_eq (x := remaining) rfl]

/-- A chain that nothing goes on with is read as its tree. -/
theorem Chains.parses (hk : k < 2) (h : Chains k room ts e) : Parses k room ts e := by
  intro rest level hnext
  obtain ⟨rounds, -, hrounds⟩ := h rest level (noneOf_mono (continuing_subset hk) hnext)
  rw [hrounds]
  cases rounds with
  | nil => rfl
  | cons _ rounds =>
    cases rest with
    | nil => rfl
    | cons t rest =>
      rw [chainFrom, peek_bind]
      simp only [levelOp?_eq_none hk hnext]
      rfl

/-- A chain with one more operand is a chain: the parser has what came before to
the left. -/
theorem Chains.arithmetic {op : ArithOp} {left right : Expr} (hop : op.level = k)
    (ht : t.kind = op.lexeme.kind) (hleft : Chains k room ts left)
    (hright : Parses (k + 1) room us right) :
    Chains k room (ts ++ t :: us) (.arithmetic t.line op left right) := by
  subst hop
  intro rest level hnext
  have hoperator : NoneOf (continuing (op.level + 1)) (next (t :: us ++ rest)) := by
    simpa only [next, List.cons_append, List.head?_cons, Option.map_some, ht] using noneOf_lexeme op
  obtain ⟨rounds, hlength, hrounds⟩ := hleft (t :: us ++ rest) level hoperator
  rw [List.append_assoc, hrounds]
  cases rounds with
  | nil => simp at hlength
  | cons _ rounds =>
    refine ⟨rounds, by simp at hlength; omega, ?_⟩
    rw [chainFrom, List.cons_append, peek_bind]
    simp only [ht, levelOp?_lexeme]
    rw [skip_bind ht op.not_isLevel, bind_eq (hright rest level hnext)]

/-! ## Factors

A factor is told by its first token, and a name by the token behind it as well.
-/

/-- The operands of the last level are factors. -/
theorem operand_two (inner : Parse Expr) : operand inner 2 = factor inner :=
  rfl

/-- A literal is read as this literal. -/
theorem parses_literal {v : Scalar} (h : t.Denotes v) : Parses 2 room [t] (.literal t.line v) := by
  intro rest level _
  rw [List.singleton_append, operand_two, factor, peek_bind]
  cases h with
  | integer kind point value =>
    simp only [kind]
    rw [skip_bind kind (by decide), number_eq kind (.integer kind point value)]
    rfl
  | real kind point value =>
    simp only [kind]
    rw [skip_bind kind (by decide), number_eq kind (.real kind point value)]
    rfl
  | character kind text =>
    simp only [kind]
    rw [skip_bind kind (by decide), character]
    simp only [text]
    rfl
  | string kind | true_ kind | false_ kind =>
    simp only [kind]
    rw [skip_bind kind (by decide)]
    rfl

/-- A number behind a minus is read as the literal of its negative. -/
theorem parses_negative {sign : Token} {v : Scalar} (hsign : sign.kind = .minus)
    (hk : t.kind = .number) (h : t.Denotes v) :
    Parses 2 room [sign, t] (.literal sign.line (negated v)) := by
  intro rest level _
  rw [List.cons_append, List.singleton_append, operand_two, factor, peek_bind]
  simp only [hsign]
  rw [skip_bind hsign (by decide), expect_bind hk (by decide), number_eq hk h]
  rfl

/-- A name that no bracket follows is read as a variable. -/
theorem parses_name (hk : t.kind = .identifier) : Parses 2 room [t] (.var t.line t.text) := by
  intro rest level hnext
  rw [List.singleton_append, operand_two, factor, peek_bind]
  simp only [hk]
  rw [skip_bind hk (by decide), take_none_bind (hnext _ (by decide))]
  rfl

/-- A phrase between brackets or parentheses. -/
theorem Parses.inside {closing : Token} {kind : Token.Kind} (h : Parses 0 room ts e)
    (hclose : closing.kind = kind) (hkind : NoneOf (continuing 0) (some kind)) (rest : List Token)
    (level : Int) :
    expression (room + 3) ⟨ts ++ closing :: rest, level⟩ = .ok e ⟨closing :: rest, level⟩ := by
  refine h (closing :: rest) level ?_
  rwa [next, List.head?_cons, Option.map_some, hclose]

/-- A name with an index in brackets is read as an element of an array. -/
theorem parses_element {opening closing : Token} {index : Expr} (hk : t.kind = .identifier)
    (hopen : opening.kind = .openBracket) (hclose : closing.kind = .closeBracket)
    (h : Parses 0 room ts index) :
    Parses 2 (room + 3) (t :: opening :: (ts ++ [closing])) (.element t.line t.text index) := by
  intro rest level _
  rw [List.cons_append, List.cons_append, List.append_assoc, List.singleton_append, operand_two,
    factor, peek_bind]
  simp only [hk]
  rw [skip_bind hk (by decide), take_bind hopen (by decide)]
  simp only
  rw [bind_eq (h.inside hclose (by decide) rest level),
    expect_bind hclose (by decide)]
  rfl

/-- A phrase in parentheses is read as its tree, and leaves no node of its own. -/
theorem parses_parentheses {opening closing : Token} (hopen : opening.kind = .openParen)
    (hclose : closing.kind = .closeParen) (h : Parses 0 room ts e) :
    Parses 2 (room + 3) (opening :: (ts ++ [closing])) e := by
  intro rest level _
  rw [List.cons_append, List.append_assoc, List.singleton_append, operand_two, factor, peek_bind]
  simp only [hopen]
  rw [skip_bind hopen (by decide),
    bind_eq (h.inside hclose (by decide) rest level),
    expect_bind hclose (by decide)]
  rfl

end Parse

open Parse

/-! ## Every phrase

The two directions are put together. Room is only asked for in the second of
them: a derivation may nest parentheses deeper than any parser has room for.
-/

/-- What is carried along a derivation. Every pair of parentheses or brackets
takes two tokens, and three of the room. -/
def Phrase.Parsed : Phrase → List Token → Expr → Prop
  | .condition, _, _ => True
  | .expression, ts, e => ∀ room, 3 * ts.length ≤ room + 3 → Chains 0 room ts e
  | .term, ts, e => ∀ room, 3 * ts.length ≤ room + 3 → Chains 1 room ts e
  | .factor, ts, e => ∀ room, 3 * ts.length ≤ room + 3 → Parses 2 room ts e

/-- **Every phrase is read as its tree.** The induction is on the derivation;
operations go by chains, since a rule that starts with its own phrase is not how
the parser reads it. -/
theorem Derives.parsed {p : Phrase} {ts : List Token} {e : Expr} (h : Derives p ts e) :
    Phrase.Parsed p ts e := by
  induction h with
  | compare | plain => trivial
  -- the left side of a sum is a sum as well, so the chain goes on behind it
  | sum mem kind _ _ ihl ihr =>
    intro room hroom
    simp only [List.length_append, List.length_cons] at hroom
    have hop := (by decide : ∀ op ∈ [ArithOp.add, .sub], op.level = 0) _ mem
    exact (ihl room (by omega)).arithmetic hop kind ((ihr room (by omega)).parses (by decide))
  | term _ ih => exact fun room hroom => ((ih room hroom).parses (by decide)).chains (by decide)
  | product mem kind _ _ ihl ihr =>
    intro room hroom
    simp only [List.length_append, List.length_cons] at hroom
    have hop := (by decide : ∀ op ∈ [ArithOp.mul, .div, .mod], op.level = 1) _ mem
    exact (ihl room (by omega)).arithmetic hop kind (ihr room (by omega))
  | factor _ ih => exact fun room hroom => (ih room hroom).chains (by decide)
  | literal denotes => exact fun room _ => parses_literal denotes
  | negative kind number denotes => exact fun room _ => parses_negative kind number denotes
  | name kind => exact fun room _ => parses_name kind
  | element kind opens closes _ ih =>
    intro room hroom
    simp only [List.length_append, List.length_cons, List.length_nil] at hroom
    obtain ⟨room, rfl⟩ : ∃ r, room = r + 3 := ⟨room - 3, by omega⟩
    exact parses_element kind opens closes ((ih room (by omega)).parses (by decide))
  -- the parentheses take tokens, so there is room for the levels inside
  | parentheses opens closes _ ih =>
    intro room hroom
    simp only [List.length_append, List.length_cons, List.length_nil] at hroom
    obtain ⟨room, rfl⟩ : ∃ r, room = r + 3 := ⟨room - 3, by omega⟩
    exact parses_parentheses opens closes ((ih room (by omega)).parses (by decide))

/-- No phrase is empty. -/
theorem Derives.ne_nil {p : Phrase} {ts : List Token} {e : Expr} (h : Derives p ts e) : ts ≠ [] := by
  induction h with
  | plain _ ih | term _ ih | factor _ ih => exact ih
  | compare | sum | product | literal | negative | name | element | parentheses => simp

/-- An expression that nothing goes on with is taken as its tree. -/
theorem Derives.expression_ok {ts rest : List Token} {e : Expr} {room : Nat} {level : Int}
    (h : Derives .expression ts e) (hroom : 3 * ts.length ≤ room)
    (hnext : NoneOf (continuing 0) (next rest)) :
    expression room ⟨ts ++ rest, level⟩ = .ok e ⟨rest, level⟩ := by
  have hlength := List.length_pos_of_ne_nil h.ne_nil
  obtain ⟨room, rfl⟩ : ∃ r, room = r + 3 := ⟨room - 3, by omega⟩
  exact (h.parsed room (by omega)).parses (by decide) rest level hnext

/-- **A condition that nothing goes on with is taken as its tree.** -/
theorem Derives.condition_ok {ts rest : List Token} {e : Expr} {room : Nat} {level : Int}
    (h : Derives .condition ts e) (hroom : 3 * ts.length ≤ room)
    (hnext : NoneOf continuingCondition (next rest)) :
    condition room ⟨ts ++ rest, level⟩ = .ok e ⟨rest, level⟩ := by
  have hexpression : NoneOf (continuing 0) (next rest) :=
    noneOf_mono (List.subset_append_left _ _) hnext
  cases h with
  | @compare ts us t op left right kind hleft hright =>
    simp only [List.length_append, List.length_cons] at hroom
    -- the left side is followed by the operator, which no expression goes on with
    have hoperator : NoneOf (continuing 0) (next (t :: us ++ rest)) := by
      simpa only [next, List.cons_append, List.head?_cons, Option.map_some, kind] using
        noneOf_compare op
    rw [condition, List.append_assoc, bind_eq (hleft.expression_ok (by omega) hoperator),
      List.cons_append, peek_bind]
    simp only [kind, compareOp?_lexeme]
    rw [skip_bind kind op.not_isLevel,
      bind_eq (hright.expression_ok (by omega) hexpression)]
    rfl
  | plain h =>
    rw [condition, bind_eq (h.expression_ok hroom hexpression)]
    cases rest with
    | nil => rfl
    | cons t rest =>
      rw [peek_bind]
      simp only [compareOp?_eq_none hnext]
      rfl

/-- **Conditions are parsed by the grammar.** What the parser takes, whatever
room it has, is a condition with the tree that it gives; and a condition with
room enough, in front of the end of the tokens or of one that does not go on
with it, is taken and given. -/
theorem condition_derives (room : Nat) (c : Cursor) :
    (∀ e c', condition room c = .ok e c' →
      ∃ ts, c.rest = ts ++ c'.rest ∧ c'.level = c.level ∧ Derives .condition ts e) ∧
    (∀ ts rest e, c.rest = ts ++ rest → Derives .condition ts e →
      NoneOf continuingCondition (next rest) → 3 * ts.length ≤ room →
      condition room c = .ok e ⟨rest, c.level⟩) := by
  refine ⟨takes_condition room c, fun ts rest e hrest h hnext hroom => ?_⟩
  obtain ⟨_, level⟩ := c
  obtain rfl : _ = ts ++ rest := hrest
  exact h.condition_ok hroom hnext

/-- The hypotheses of `condition_derives` are satisfiable: `a - b - c` in front
of a parenthesis. -/
theorem condition_derives_difference :
    condition 15 ⟨[⟨.identifier, "a", 1, 1⟩, ⟨.minus, "-", 1, 3⟩, ⟨.identifier, "b", 1, 5⟩,
        ⟨.minus, "-", 1, 7⟩, ⟨.identifier, "c", 1, 9⟩, ⟨.closeParen, ")", 1, 10⟩], 0⟩ =
      .ok (.arithmetic 1 .sub (.arithmetic 1 .sub (.var 1 "a") (.var 1 "b")) (.var 1 "c"))
        ⟨[⟨.closeParen, ")", 1, 10⟩], 0⟩ := by
  have hname : ∀ t : Token, t.kind = .identifier → Derives .factor [t] (.var t.line t.text) :=
    fun _ => .name
  have hleft : Derives .expression _ _ :=
    @Derives.sum [⟨.identifier, "a", 1, 1⟩] [⟨.identifier, "b", 1, 5⟩] ⟨.minus, "-", 1, 3⟩ .sub _ _
      (by decide) rfl (.term (.factor (hname _ rfl))) (.factor (hname _ rfl))
  have hsum : Derives .expression _ _ :=
    @Derives.sum _ [⟨.identifier, "c", 1, 9⟩] ⟨.minus, "-", 1, 7⟩ .sub _ _
      (by decide) rfl hleft (.factor (hname _ rfl))
  exact (condition_derives 15 _).2 _ [⟨.closeParen, ")", 1, 10⟩] _ rfl (.plain hsum) (by decide)
    (by decide)

end Shank
