/-
# Expressions are read back

What is written for an expression is read as this expression, lines apart,
wherever an expression of its level is read (`reads_operand`) and there is room
enough: three for each pair of parentheses or brackets around something
(`Expr.nesting`).

The induction is on the expression. Operators of one level associate to the
left, so the parser meets the operands of a chain from the left while the tree
has the last one on top; what carries the induction is that a chain can be read
as the left operand of whatever comes next (`ReadsOn`).
-/

import Shank.Proofs.Parse.Reads
import Shank.Proofs.Print.Bare
import Shank.Proofs.Print.Numerals

namespace Shank

/-- How deep parentheses and brackets are nested in what is written for an
expression. -/
def Expr.nesting (level : Nat) : Expr → Nat
  | literal _ _ => 0
  | var _ _ => 0
  | element _ _ index => index.nesting 0 + 1
  | arithmetic _ op left right =>
    let inside := max (left.nesting op.level) (right.nesting (op.level + 1))
    if level ≤ op.level then inside else inside + 1
  | comparison _ _ left right => max (left.nesting 0) (right.nesting 0)

/-- The room that an expression takes. -/
def Expr.room (e : Expr) : Nat :=
  3 * e.nesting 0 + 3

/-- There are two levels of operators. -/
theorem ArithOp.level_lt (op : ArithOp) : op.level < 2 := by
  cases op <;> decide

namespace Parse

/-- The kinds of tokens that go on with an expression of a level. -/
def continuing : Nat → List Token.Kind
  | 0 => [.openBracket, .multiply, .divide, .modulus, .plus, .minus]
  | 1 => [.openBracket, .multiply, .divide, .modulus]
  | _ => [.openBracket]

/-- The operators of a level. -/
def levelOp? : Nat → Token.Kind → Option ArithOp
  | 0 => sumOp?
  | _ => termOp?

/-- The parser of expressions of a level. -/
def operand (inner : Parse Expr) : Nat → Parse Expr
  | 0 => chain (chain (factor inner) termOp?) sumOp?
  | 1 => chain (factor inner) termOp?
  | _ => factor inner

/-- Below the factors, the parser of a level is a chain of operands of the next
one. -/
theorem operand_eq_chain (inner : Parse Expr) {level : Nat} (h : level < 2) :
    operand inner level = chain (operand inner (level + 1)) (levelOp? level) := by
  match level, h with
  | 0, _ => rfl
  | 1, _ => rfl

/-- An operator is one of its level, as it is written. -/
theorem levelOp?_lexeme (op : ArithOp) : levelOp? op.level op.lexeme.kind = some op := by
  cases op <;> rfl

/-- An operator does not go on with an operand of the next level, so the operand
in front of it ends there. -/
theorem noneOf_lexeme (op : ArithOp) : NoneOf (continuing (op.level + 1)) (some op.lexeme.kind) := by
  cases op <;> decide

/-- What does not go on with an expression of a level is none of its operators. -/
theorem levelOp?_eq_none {level : Nat} {kind : Token.Kind} (h : level < 2)
    (hk : NoneOf (continuing level) (some kind)) : levelOp? level kind = none := by
  match level, h with
  | 0, _ => cases kind <;> first | rfl | exact absurd hk (by decide)
  | 1, _ => cases kind <;> first | rfl | exact absurd hk (by decide)

/-! ## Chains

The two levels of operators are parsed by one loop that reads from the left. So
what is written for the left operand of an operation is read first, as a chain
that has not ended; that is the form in which the induction carries it.
-/

/-- A chain need not look at what comes next before it goes on. -/
theorem chain_eq (x : Parse Expr) (op? : Token.Kind → Option ArithOp) :
    chain x op? = x >>= fun left => remaining >>= fun rounds => chainFrom x op? rounds left := by
  rw [chain]
  congr 1
  funext left
  funext c
  obtain ⟨rest, level⟩ := c
  cases rest with
  | nil => rfl
  | cons t rest =>
    rw [bind_eq (x := peek) rfl, bind_eq (x := remaining) rfl, chainFrom, bind_eq (x := peek) rfl]
    cases h : op? t.kind with
    | none => simp only [List.head?_cons, Option.bind_some, h]
    | some op =>
      simp only [List.head?_cons, Option.bind_some, h]
      rw [bind_eq (x := remaining) rfl, chainFrom, bind_eq (x := peek) rfl]
      simp only [List.head?_cons, h]

/-- **A chain is read** as its first operand and what the operators behind it
make of it. -/
theorem reads_chain {ls ls' : List Lexeme} {M N : Option Token.Kind → Prop} {P Q : Expr → Prop}
    {x : Parse Expr} {op? : Token.Kind → Option ArithOp} (hx : Reads ls M P x)
    (hnext : ∀ k, N k → M (nextOf ls' k))
    (hf : ∀ left, P left → ∀ rounds, ls'.length ≤ rounds.length →
      Reads ls' N Q (chainFrom x op? rounds left)) :
    Reads (ls ++ ls') N Q (chain x op?) := by
  rw [chain_eq]
  exact hx.bind (fun left hleft => reads_remaining_bind fun rounds h _ => hf left hleft rounds h) hnext

variable {spell : Ieee → String} {e : Expr} {level room : Nat}

/-- What is written for an expression of a level is read by the parser of this
level. -/
def ReadsAt (spell : Ieee → String) (e : Expr) (level room : Nat) : Prop :=
  Reads (e.lexemes spell level) (NoneOf (continuing level)) (fun a => a.bare = e.bare)
    (operand (expression room) level)

/-- What is written for an expression is read as the left operand of a chain,
and then whatever goes on with the chain. -/
def ReadsOn (spell : Ieee → String) (e : Expr) (level room : Nat) : Prop :=
  ∀ (ls : List Lexeme) (N : Option Token.Kind → Prop) (Q : Expr → Prop),
    (∀ k, N k → NoneOf (continuing (level + 1)) (nextOf ls k)) →
    (∀ left : Expr, left.bare = e.bare → ∀ rounds : List Token, ls.length ≤ rounds.length →
      Reads ls N Q (chainFrom (operand (expression room) (level + 1)) (levelOp? level) rounds left)) →
    Reads (e.lexemes spell level ++ ls) N Q (operand (expression room) level)

/-- An operand by itself starts a chain. -/
theorem ReadsAt.readsOn (h : ReadsAt spell e (level + 1) room) (hlevel : level < 2)
    (hlexemes : e.lexemes spell level = e.lexemes spell (level + 1)) : ReadsOn spell e level room := by
  intro ls N Q hnext hf
  rw [operand_eq_chain _ hlevel, hlexemes]
  exact reads_chain h hnext hf

/-- Where none of some kinds comes next, none of fewer does. -/
theorem noneOf_mono {kinds kinds' : List Token.Kind} (h : kinds ⊆ kinds') {k : Option Token.Kind}
    (hk : NoneOf kinds' k) : NoneOf kinds k :=
  fun kind hkind => hk kind (h hkind)

/-- What goes on with an operand goes on with the chain that it is in. -/
theorem continuing_subset (hlevel : level < 2) : continuing (level + 1) ⊆ continuing level := by
  match level, hlevel with
  | 0, _ => decide
  | 1, _ => decide

/-- A chain may end where no operator of its level comes next. -/
theorem ReadsOn.readsAt (h : ReadsOn spell e level room) (hlevel : level < 2) :
    ReadsAt spell e level room := by
  have hend := h [] (NoneOf (continuing level)) (fun a => a.bare = e.bare)
    (fun k hk => noneOf_mono (continuing_subset hlevel) hk) fun left hleft rounds _ => by
      cases rounds with
      | nil => exact reads_pure hleft
      | cons t rounds =>
        rw [chainFrom]
        refine reads_peek_bind fun o ho => ?_
        obtain ⟨k, hk, hok⟩ := ho
        cases o with
        | none => exact reads_pure hleft
        | some u =>
          have hkind : k = some u.kind := hok.symm
          simp only [levelOp?_eq_none hlevel (hkind ▸ hk)]
          exact reads_pure hleft
  rwa [List.append_nil] at hend

/-- Reading on after an operator of the level. The left operand is what was read
before the operator, so the rest is a round of the chain. -/
theorem ReadsOn.arithmetic {left right : Expr} {line : Nat} {op : ArithOp}
    (hleft : ReadsOn spell left op.level room) (hright : ReadsAt spell right (op.level + 1) room) :
    ReadsOn spell (.arithmetic line op left right) op.level room := by
  intro ls N Q hnext hf
  rw [Expr.lexemes, if_pos (Nat.le_refl _), List.append_assoc]
  refine hleft _ N Q (fun k _ => noneOf_lexeme op) fun left' hleft' rounds hrounds => ?_
  cases rounds with
  | nil => simp at hrounds
  | cons t rounds =>
    rw [chainFrom]
    refine reads_peek_cons_bind fun u hu => ?_
    -- the operator is one of this chain's level
    have hop : levelOp? op.level u.kind = some op := by
      rw [← levelOp?_lexeme op, ← hu]
      rfl
    simp only [hop]
    refine reads_skip_bind (Reads.bind hright (fun right' hright' => ?_) hnext)
    refine hf _ ?_ rounds ?_
    · simp only [Expr.bare, hleft', hright']
    · simp only [List.cons_append, List.length_cons, List.length_append] at hrounds
      omega

/-! ## Factors

Whatever is no operation is read by the parser of factors, from its first token.
A literal may start with a minus, and then the number behind it is negated.
-/

/-- A number that was taken is read, and takes nothing more. -/
theorem reads_number {l : Lexeme} {u : Scalar} {ls : List Lexeme} {N : Option Token.Kind → Prop}
    {β : Type} {Q : β → Prop} {f : Scalar → Parse β} {t : Token} (ht : t.lexeme = l)
    (hnumber : ∀ t : Token, t.lexeme = l → number t = pure u) (hf : Reads ls N Q (f u)) :
    Reads ls N Q (number t >>= f) := by
  rw [hnumber t ht, pure_bind]
  exact hf

/-- A character literal of one character is this one. -/
theorem character_of_lexeme {c : Char} {t : Token}
    (ht : t.lexeme = ⟨.characterLiteral, c.toString⟩) : character t = pure (.character c) := by
  have htext : t.text = c.toString := congrArg Lexeme.text ht
  rw [character, htext]
  simp

/-- The lexemes of a scalar are the literal of a constant of it, whichever form
they take. -/
theorem reads_constantValue_of_denotes {ls : List Lexeme} {v : Scalar} {N : Option Token.Kind → Prop}
    (h : Denotes ls v) :
    Reads ls N (fun r => r.2 = v) constantValue := by
  obtain ⟨negative, l, u, rfl, hl, hnumber, rfl⟩ := h
  cases negative with
  | false =>
    refine reads_peek_cons_bind fun t ht => ?_
    have hk : t.kind = .number := (congrArg Lexeme.kind ht).trans hl
    simp only [hk]
    exact reads_skip_bind (reads_number ht hnumber (reads_pure rfl))
  | true =>
    refine reads_peek_cons_bind fun t ht => ?_
    have hk : t.kind = .minus := congrArg Lexeme.kind ht
    simp only [hk]
    exact reads_skip_bind (reads_expect_bind hl fun t ht =>
      reads_number ht hnumber (reads_pure rfl))

/-- What is written for a scalar is read as a constant of this scalar. Numbers
may have a minus in front. -/
theorem reads_constantValue (hspell : Ieee.IsSpelling spell) {v : Scalar} (h : v.WellFormed)
    {N : Option Token.Kind → Prop} :
    Reads (v.lexemes spell) N (fun r => r.2 = v) constantValue := by
  cases v with
  | integer n => exact reads_constantValue_of_denotes (denotes_integer h)
  | real x => exact reads_constantValue_of_denotes (denotes_real hspell h)
  | string s =>
    refine reads_peek_cons_bind fun t ht => ?_
    have hk : t.kind = .stringLiteral := congrArg Lexeme.kind ht
    have htext : t.text = s := congrArg Lexeme.text ht
    simp only [hk, htext]
    exact reads_skip_bind (reads_pure rfl)
  | character c =>
    refine reads_peek_cons_bind fun t ht => ?_
    have hk : t.kind = .characterLiteral := congrArg Lexeme.kind ht
    simp only [hk]
    refine reads_skip_bind ?_
    rw [character_of_lexeme ht, pure_bind]
    exact reads_pure rfl
  | boolean b =>
    refine reads_peek_cons_bind fun t ht => ?_
    have hk : t.kind = if b then .true_ else .false_ := by
      have h := congrArg Lexeme.kind ht
      cases b <;> exact h
    cases b <;> simp only [hk, Bool.false_eq_true, if_false, if_true] <;>
      exact reads_skip_bind (reads_pure rfl)

/-- The kinds of tokens that a literal starts with. -/
def literalHeads : List Token.Kind :=
  [.minus, .number, .stringLiteral, .characterLiteral, .true_, .false_]

/-- Lexemes that denote a scalar are not empty, and start as a literal does. -/
theorem Denotes.head {ls : List Lexeme} {v : Scalar} (h : Denotes ls v) :
    ∃ l rest, ls = l :: rest ∧ l.kind ∈ literalHeads := by
  obtain ⟨negative, l, u, rfl, hl, -, -⟩ := h
  cases negative with
  | false => exact ⟨l, [], rfl, by rw [hl]; decide⟩
  | true => exact ⟨.minus, [l], rfl, by decide⟩

/-- What is written for a scalar starts as a literal does. -/
theorem literal_head (hspell : Ieee.IsSpelling spell) {v : Scalar} (h : v.WellFormed) :
    ∃ l rest, v.lexemes spell = l :: rest ∧ l.kind ∈ literalHeads := by
  cases v with
  | integer n => exact (denotes_integer h).head
  | real x => exact (denotes_real hspell h).head
  | string s => exact ⟨_, [], rfl, (by decide : Token.Kind.stringLiteral ∈ literalHeads)⟩
  | character c => exact ⟨_, [], rfl, (by decide : Token.Kind.characterLiteral ∈ literalHeads)⟩
  | boolean b => cases b <;> exact ⟨_, [], rfl, by decide⟩

/-- A factor that starts as a literal does is that literal. -/
theorem factor_of_literalHead (inner : Parse Expr) {t : Token} (h : t.kind ∈ literalHeads)
    (ts : List Token) (level : Int) : factor inner ⟨t :: ts, level⟩ =
      (constantValue >>= fun r => pure (.literal r.1 r.2)) ⟨t :: ts, level⟩ := by
  obtain ⟨kind, text, line, column⟩ := t
  have hpeek : peek ⟨⟨kind, text, line, column⟩ :: ts, level⟩ =
      .ok (some ⟨kind, text, line, column⟩) ⟨⟨kind, text, line, column⟩ :: ts, level⟩ := rfl
  rw [factor, constantValue, bind_assoc, bind_eq hpeek, bind_eq hpeek]
  simp only [literalHeads, List.mem_cons, List.not_mem_nil, or_false] at h
  rcases h with rfl | rfl | rfl | rfl | rfl | rfl <;> simp only [bind_assoc, pure_bind]

/-- A literal is a factor. -/
theorem reads_literal (hspell : Ieee.IsSpelling spell) {v : Scalar} (h : v.WellFormed) {line : Nat}
    (inner : Parse Expr) (N : Option Token.Kind → Prop) :
    Reads (v.lexemes spell) N (fun a => a.bare = (Expr.literal line v).bare) (factor inner) := by
  have hconstant : Reads (v.lexemes spell) N (fun e : Expr => e.bare = (Expr.literal line v).bare)
      (constantValue >>= fun r => pure (Expr.literal r.1 r.2)) :=
    (reads_constantValue hspell h).map fun r hr => by rw [hr]; rfl
  obtain ⟨l, ls, hls, hhead⟩ := literal_head hspell h
  rw [hls] at hconstant ⊢
  intro ts rest level hts hn
  obtain ⟨t, us, rfl, rfl, -⟩ := List.map_eq_cons_iff.1 hts
  rw [List.cons_append, factor_of_literalHead inner hhead]
  exact hconstant _ rest level hts hn

/-- A name by itself is a variable, unless a bracket follows. -/
theorem reads_name {name : String} {line : Nat} (inner : Parse Expr) :
    Reads [.name name] (NoneOf [.openBracket]) (fun a => a.bare = (Expr.var line name).bare)
      (factor inner) := by
  refine reads_peek_cons_bind fun t ht => ?_
  have hk : t.kind = .identifier := congrArg Lexeme.kind ht
  have htext : t.text = name := congrArg Lexeme.text ht
  simp only [hk, htext]
  exact reads_skip_bind (reads_take_none_bind (fun k hk => hk _ (by simp)) (reads_pure rfl))

/-- A name with an index in brackets is an element of an array, whatever
follows. -/
theorem reads_element {ls : List Lexeme} {M N : Option Token.Kind → Prop} {name : String} {line : Nat}
    {index : Expr} {inner : Parse Expr} (h : Reads ls M (fun a => a.bare = index.bare) inner)
    (hM : M (some .closeBracket)) :
    Reads (.name name :: .openBracket :: (ls ++ [.closeBracket])) N
      (fun a => a.bare = (Expr.element line name index).bare) (factor inner) := by
  refine reads_peek_cons_bind fun t ht => ?_
  have hk : t.kind = .identifier := congrArg Lexeme.kind ht
  have htext : t.text = name := congrArg Lexeme.text ht
  simp only [hk, htext]
  refine reads_skip_bind (reads_take_bind rfl fun _ _ => ?_)
  refine h.bind (fun index' hindex => reads_expect_bind rfl fun _ _ => reads_pure ?_) fun _ _ => hM
  simp only [Expr.bare, hindex]

/-- What stands in parentheses is read as it is read by itself. -/
theorem reads_parens {ls : List Lexeme} {M N : Option Token.Kind → Prop} {P : Expr → Prop}
    {inner : Parse Expr} (h : Reads ls M P inner) (hM : M (some .closeParen)) :
    Reads (.openParen :: (ls ++ [.closeParen])) N P (factor inner) := by
  refine reads_peek_cons_bind fun t ht => ?_
  have hk : t.kind = .openParen := congrArg Lexeme.kind ht
  simp only [hk]
  exact reads_skip_bind (h.bind (fun a ha => reads_expect_bind rfl fun _ _ => reads_pure ha)
    fun _ _ => hM)

/-! ## Every expression

An operand that would not be read at the level where it stands is written in
parentheses, and these take room. `Expr.room` counts how deep they are nested.
-/

/-- An expression that needs no parentheses anywhere. -/
theorem reads_of_factor (hfactor : ∀ level, ReadsAt spell e (level + 2) room)
    (hlexemes : ∀ level, e.lexemes spell level = e.lexemes spell (level + 1)) (level : Nat) :
    ReadsAt spell e level room ∧ (level < 2 → ReadsOn spell e level room) := by
  have h1 : ReadsOn spell e 1 room := (hfactor 0).readsOn (by decide) (hlexemes 1)
  have h0 : ReadsOn spell e 0 room := (h1.readsAt (by decide)).readsOn (by decide) (hlexemes 0)
  match level with
  | 0 => exact ⟨h0.readsAt (by decide), fun _ => h0⟩
  | 1 => exact ⟨h1.readsAt (by decide), fun _ => h1⟩
  | n + 2 => exact ⟨hfactor n, fun h => by omega⟩

/-- An operation is read at its own level without parentheses, and in
parentheses at every higher one. -/
theorem reads_of_arithmetic {line : Nat} {op : ArithOp} {left right : Expr}
    (h : ∀ room', 3 * max (left.nesting op.level) (right.nesting (op.level + 1)) ≤ room' →
      ReadsOn spell (.arithmetic line op left right) op.level room')
    (hroom : 3 * (Expr.arithmetic line op left right).nesting level ≤ room) :
    ReadsAt spell (.arithmetic line op left right) level room ∧
      (level < 2 → ReadsOn spell (.arithmetic line op left right) level room) := by
  have hop := op.level_lt
  -- without parentheses, the lexemes are those of the operator's own level
  have hplain : ∀ level' room', level' ≤ op.level →
      3 * max (left.nesting op.level) (right.nesting (op.level + 1)) ≤ room' →
      ReadsOn spell (.arithmetic line op left right) level' room' := by
    intro level' room' hle hroom'
    rcases Nat.lt_or_eq_of_le hle with hlt | rfl
    · obtain rfl : level' = 0 := by omega
      have hone : op.level = 0 + 1 := by omega
      have hat := (h room' hroom').readsAt hop
      rw [hone] at hat
      refine hat.readsOn (by decide) ?_
      rw [Expr.lexemes, Expr.lexemes, if_pos (Nat.zero_le _), if_pos (by omega)]
    · exact h room' hroom'
  rw [Expr.nesting] at hroom
  -- in parentheses the levels start over, and room is needed for them
  rcases Nat.lt_or_ge op.level level with hlt | hle
  · rw [if_neg (by omega)] at hroom
    obtain ⟨room, rfl⟩ : ∃ r, room = r + 3 := ⟨room - 3, by omega⟩
    have hinside := (hplain 0 room (Nat.zero_le _) (by omega)).readsAt (by decide)
    have hparens : ∀ n, ReadsAt spell (.arithmetic line op left right) (n + 2) (room + 3) := by
      intro n
      rw [ReadsAt, Expr.lexemes, if_neg (by omega)]
      rw [ReadsAt, Expr.lexemes, if_pos (Nat.zero_le _)] at hinside
      exact reads_parens hinside (by decide)
    match level, hlt with
    | 1, hlt =>
      have hon : ReadsOn spell (.arithmetic line op left right) 1 (room + 3) :=
        (hparens 0).readsOn (by decide) (by
        rw [Expr.lexemes, Expr.lexemes, if_neg (by omega), if_neg (by omega)])
      exact ⟨hon.readsAt (by decide), fun _ => hon⟩
    | n + 2, _ => exact ⟨hparens n, fun h => by omega⟩
  · rw [if_pos hle] at hroom
    have hon := hplain level room hle hroom
    exact ⟨hon.readsAt (by omega), fun _ => hon⟩

/-- What is written for an expression of a level is read at this level. The
induction is on the expression. What is no operation is a factor, and is read so
at every level. -/
theorem reads_operand (hspell : Ieee.IsSpelling spell) (h : e.WellFormed)
    (hroom : 3 * e.nesting level ≤ room) :
    ReadsAt spell e level room ∧ (level < 2 → ReadsOn spell e level room) := by
  induction e generalizing level room with
  | literal line v =>
    exact reads_of_factor (e := .literal line v) (fun _ => reads_literal hspell h _ _)
      (fun _ => rfl) level
  | var line name =>
    exact reads_of_factor (e := .var line name) (fun _ => reads_name _) (fun _ => rfl) level
  | element line name index ih =>
    rw [Expr.nesting] at hroom
    obtain ⟨room, rfl⟩ : ∃ r, room = r + 3 := ⟨room - 3, by omega⟩
    have hindex : Reads (index.lexemes spell 0) (NoneOf (continuing 0))
        (fun a => a.bare = index.bare) (expression (room + 3)) := (ih h.2 (by omega)).1
    exact reads_of_factor (e := .element line name index)
      (fun _ => reads_element hindex (by decide)) (fun _ => rfl) level
  | arithmetic line op left right ihl ihr =>
    refine reads_of_arithmetic (fun room' h' => ?_) hroom
    exact ReadsOn.arithmetic ((ihl h.1 (by omega)).2 op.level_lt) (ihr h.2 (by omega)).1
  | comparison => exact h.elim

/-- **What is written for an expression is read as this expression.** -/
theorem reads_expression (hspell : Ieee.IsSpelling spell) (h : e.WellFormed)
    (hroom : e.room ≤ room) :
    Reads (e.lexemes spell 0) (NoneOf (continuing 0)) (fun a => a.bare = e.bare)
      (expression room) := by
  rw [Expr.room] at hroom
  obtain ⟨room, rfl⟩ : ∃ r, room = r + 3 := ⟨room - 3, by omega⟩
  exact (reads_operand hspell h (by omega)).1

/-- The kinds of tokens that go on with a condition. -/
def continuingCondition : List Token.Kind :=
  continuing 0 ++
    [.equals, .notEqual, .lessThan, .greaterThan, .lessOrEqual, .greaterOrEqual]

/-- A comparison is read as it is written. -/
theorem compareOp?_lexeme (op : CompareOp) : compareOp? op.lexeme.kind = some op := by
  cases op <;> rfl

/-- A comparison does not go on with an expression, so the one in front of it
ends there. -/
theorem noneOf_compare (op : CompareOp) : NoneOf (continuing 0) (some op.lexeme.kind) := by
  cases op <;> decide

/-- What does not go on with a condition is no comparison. -/
theorem compareOp?_eq_none {kind : Token.Kind} (hk : NoneOf continuingCondition (some kind)) :
    compareOp? kind = none := by
  cases kind <;> first | rfl | exact absurd hk (by decide)

/-- **What is written for a condition is read as this condition.** A comparison
is its two sides with the operator between them; any other expression must not
be followed by one. -/
theorem reads_condition (hspell : Ieee.IsSpelling spell) (h : e.WellFormedCondition)
    (hroom : e.room ≤ room) :
    Reads (e.lexemes spell 0) (NoneOf continuingCondition) (fun a => a.bare = e.bare)
      (condition room) := by
  -- an expression alone, where what follows is no operator that compares
  have hplain : e.WellFormed → Reads (e.lexemes spell 0) (NoneOf continuingCondition)
      (fun a => a.bare = e.bare) (condition room) := fun h => by
    rw [← List.append_nil (e.lexemes spell 0)]
    refine (reads_expression hspell h hroom).bind (fun a ha => reads_peek_bind fun o ho => ?_)
      fun k hk => noneOf_mono (List.subset_append_left _ _) hk
    obtain ⟨k, hk, hok⟩ := ho
    cases o with
    | none => exact reads_pure ha
    | some u =>
      have hkind : k = some u.kind := hok.symm
      simp only [compareOp?_eq_none (hkind ▸ hk)]
      exact reads_pure ha
  cases e with
  | comparison line op left right =>
    rw [Expr.room, Expr.nesting] at hroom
    have hleft : left.room ≤ room := by
      rw [Expr.room]
      omega
    have hright : right.room ≤ room := by
      rw [Expr.room]
      omega
    refine (reads_expression hspell h.1 hleft).bind
      (fun left' hleft => reads_peek_cons_bind fun t ht => ?_) fun _ _ => noneOf_compare op
    have hop : compareOp? t.kind = some op := by
      rw [← compareOp?_lexeme op, ← ht]
      rfl
    simp only [hop]
    refine reads_skip_bind (((reads_expression hspell h.2 hright).map
      (fun right' hright => ?_)).mono
      (fun k hk => noneOf_mono (List.subset_append_left _ _) hk) fun _ h => h)
    simp only [Expr.bare, hleft, hright]
  | _ => exact hplain h

/-! ## What an expression starts with

A loop that asks for a further item looks at one token. What an expression
starts with is none of the tokens that would end such a loop.
-/

/-- The kinds of tokens that an expression can start with. -/
def starters : List Token.Kind :=
  [.openParen, .number, .minus, .identifier, .stringLiteral, .characterLiteral, .true_, .false_]

/-- A number starts with a minus or with itself. -/
theorem starts_signed {negative : Bool} {l : Lexeme} (hl : l.kind = .number)
    (k : Option Token.Kind) : ∃ kind ∈ starters, nextOf (signed negative l) k = some kind := by
  cases negative with
  | false => exact ⟨.number, by decide, by simp [signed, nextOf, hl]⟩
  | true => exact ⟨.minus, by decide, rfl⟩

/-- **Every expression starts with one of a few kinds of tokens**, in
parentheses or not. The parsers that look ahead tell expressions from other
things by them. -/
theorem starts_expression (spell : Ieee → String) (e : Expr) (level : Nat) (k : Option Token.Kind) :
    ∃ kind ∈ starters, nextOf (e.lexemes spell level) k = some kind := by
  induction e generalizing level k with
  | literal _ v =>
    cases v with
    | integer n => exact starts_signed rfl k
    | real x => exact starts_signed rfl k
    | string s => exact ⟨.stringLiteral, by decide, rfl⟩
    | character c => exact ⟨.characterLiteral, by decide, rfl⟩
    | boolean b => cases b with
      | false => exact ⟨.false_, by decide, rfl⟩
      | true => exact ⟨.true_, by decide, rfl⟩
  | var | element => exact ⟨.identifier, by decide, rfl⟩
  -- an operation starts as its left operand does, or with a parenthesis
  | arithmetic _ op left right ihl =>
    rw [Expr.lexemes]
    split
    · rw [nextOf_append]
      exact ihl _ _
    · exact ⟨.openParen, by decide, rfl⟩
  | comparison _ op left right ihl =>
    rw [Expr.lexemes, nextOf_append]
    exact ihl _ _

end Parse
end Shank
