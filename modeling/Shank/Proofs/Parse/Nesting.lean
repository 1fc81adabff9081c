/-
# Blocks nest as the tokens say

Where a statement starts, the tokens before it hold as many more `INDENT`s than
`DEDENT`s as there are blocks around it, the body of its function included. So
no block ends too early or too late.

The statements of a function are listed with their depths, each before those in
its blocks (`Function.nodes`). They start at positions that grow along that list
(`Laid`): each has its own place in the token stream, at which the parser finds
it. What the parsers of blocks come to, `Nests`, is that the statements they
give are laid, and that they end on the level they started on, or at the end of
the tokens, where nothing is left to be parsed on a wrong level.
-/

import Shank.Proofs.Parse.Inversion
import Shank.Proofs.Parse.Ranges
import Mathlib.Data.List.Forall2

namespace Shank

/-! ## Statements with their depths

The nodes of a tree in the order of the text, each with the number of blocks
around it. The four functions recur on each other as statements, blocks,
branches and chains do.
-/

mutual

/-- The statements in the blocks of a statement at depth `d`. -/
def Stmt.nested (d : Nat) : Stmt → List (Nat × Stmt)
  | .assign _ _ _ => []
  | .ifChain _ branches => Branch.nestedInChain d branches
  | .whileLoop _ _ body => Stmt.nodesOfBlock (d + 1) body
  | .repeatLoop _ _ body => Stmt.nodesOfBlock (d + 1) body
  | .forLoop _ _ _ _ _ body => Stmt.nodesOfBlock (d + 1) body
  | .call _ _ _ => []

/-- The statements of a block at depth `d`, each with its depth and before those
nested in it. -/
def Stmt.nodesOfBlock (d : Nat) : List Stmt → List (Nat × Stmt)
  | [] => []
  | s :: rest => (d, s) :: (Stmt.nested d s ++ Stmt.nodesOfBlock d rest)

/-- The statements in a branch of a chain at depth `d`. -/
def Branch.nested (d : Nat) : Branch → List (Nat × Stmt)
  | .mk _ _ body => Stmt.nodesOfBlock (d + 1) body

/-- The statements in the branches of a chain at depth `d`. -/
def Branch.nestedInChain (d : Nat) : List Branch → List (Nat × Stmt)
  | [] => []
  | b :: rest => Branch.nested d b ++ Branch.nestedInChain d rest

end

/-- All statements of a function, in order, each with the number of blocks
around it. -/
def Function.nodes (f : Function) : List (Nat × Stmt) :=
  Stmt.nodesOfBlock 1 f.body

namespace Parse

open Token (balance)

variable {α β : Type} {tokens : List Token} {i j k : Nat} {ns ms : List (Nat × Stmt)}

/-! ## Positions of statements

A statement starts at a position where the balance is its depth. A list of
statements is laid in the tokens when each starts behind the one before, so no
two of them share a position.
-/

/-- A statement with its depth starts at a position. -/
structure Starts (tokens : List Token) (i : Nat) (n : Nat × Stmt) : Prop where
  /-- The parser finds the statement there. -/
  parsed : ∃ room c, statement room (cursor tokens i) = .ok n.2 c
  /-- The depth is the balance of the tokens before it. -/
  depth : balance (tokens.take i) = n.1

/-- The tokens that a statement can start with. -/
def StartsStatement (kind : Token.Kind) : Prop :=
  kind ∈ [.if_, .while_, .for_, .repeat_, .identifier]

instance (kind : Token.Kind) : Decidable (StartsStatement kind) :=
  inferInstanceAs (Decidable (_ ∈ _))

/-- Statements start one after the other at positions from `i` on and before
`j`. -/
def Laid (tokens : List Token) (i j : Nat) (ns : List (Nat × Stmt)) : Prop :=
  ∃ starts : List Nat, starts.Pairwise (· < ·) ∧ (∀ s ∈ starts, i ≤ s ∧ s < j) ∧
    List.Forall₂ (Starts tokens) starts ns

/-- Where there are no statements none has to be laid. -/
theorem laid_nil : Laid tokens i j [] :=
  ⟨[], .nil, fun _ h => (nomatch h), .nil⟩

/-- Statements behind others are laid together with them, if the latter end
where the former begin. -/
theorem Laid.append (h : Laid tokens i j ns) (h' : Laid tokens j k ms) (hij : i ≤ j)
    (hjk : j ≤ k) : Laid tokens i k (ns ++ ms) := by
  obtain ⟨ss, hss, hin, hns⟩ := h
  obtain ⟨ts, hts, hin', hms⟩ := h'
  refine ⟨ss ++ ts, List.pairwise_append.2 ⟨hss, hts, fun a ha b hb => ?_⟩, fun s hs => ?_,
    List.rel_append hns hms⟩
  · have := (hin a ha).2
    have := (hin' b hb).1
    omega
  · rcases List.mem_append.1 hs with hs | hs
    · have := hin s hs
      omega
    · have := hin' s hs
      omega

/-- Statements that are laid from a position on are laid from an earlier one on. -/
theorem Laid.mono {i' : Nat} (h : Laid tokens i j ns) (hi : i' ≤ i) : Laid tokens i' j ns := by
  obtain ⟨ss, hss, hin, hns⟩ := h
  exact ⟨ss, hss, fun s hs => ⟨hi.trans (hin s hs).1, (hin s hs).2⟩, hns⟩

/-- A statement is laid in front of those in its blocks. -/
theorem Laid.cons {n : Nat × Stmt} (hn : Starts tokens i n) (h : Laid tokens (i + 1) j ns)
    (hij : i < j) : Laid tokens i j (n :: ns) := by
  obtain ⟨ss, hss, hin, hns⟩ := h
  refine ⟨i :: ss, List.pairwise_cons.2 ⟨fun s hs => (hin s hs).1, hss⟩, fun s hs => ?_,
    .cons hn hns⟩
  rcases List.mem_cons.1 hs with rfl | hs
  · exact ⟨le_rfl, hij⟩
  · have := hin s hs
    omega

/-- Where a statement is laid there is a position for it. -/
theorem Laid.lt {n : Nat × Stmt} (h : Laid tokens i j (n :: ns)) : i < j := by
  obtain ⟨ss, -, hin, hns⟩ := h
  cases hns with
  | @cons s _ _ _ _ _ =>
    have := hin s (List.mem_cons_self ..)
    omega

/-- A statement of a list that is laid has its own position. -/
theorem exists_starts_of_mem {tokens : List Token} {starts : List Nat} {ns : List (Nat × Stmt)}
    (h : List.Forall₂ (Starts tokens) starts ns) {n : Nat × Stmt} (hn : n ∈ ns) :
    ∃ i, Starts tokens i n := by
  induction h with
  | nil => cases hn
  | @cons i m _ _ hm _ ih =>
    rcases List.mem_cons.1 hn with rfl | hn
    · exact ⟨i, hm⟩
    · exact ih hn

/-! ## Nesting parsers

The invariant of the parsers: started on a level, they lay the statements that
they give and come back to that level. At the end of the tokens it cannot be
asked for, since an open block ends there as well.
-/

/-- A parser that starts on level `d` lays the statements it gives, and ends on
that level, or at the end of the tokens. -/
def Nests (nodes : Nat → α → List (Nat × Stmt)) (x : Parse α) : Prop :=
  ∀ tokens i (d : Nat) a c, balance (tokens.take i) = d → x (cursor tokens i) = .ok a c →
    ∃ j, i ≤ j ∧ c = cursor tokens j ∧ (tokens.length ≤ j ∨ balance (tokens.take j) = d) ∧
      Laid tokens i j (nodes d a)

/-- A parser that gives no statement at the end of the tokens. -/
def Idle (nodes : Nat → α → List (Nat × Stmt)) (x : Parse α) : Prop :=
  ∀ tokens i a c, tokens.length ≤ i → x (cursor tokens i) = .ok a c →
    c = cursor tokens i ∧ ∀ d, nodes d a = []

/-- A flat parser nests, if what it gives holds no statement. -/
theorem Flat.nests {nodes : Nat → α → List (Nat × Stmt)} {x : Parse α} (hx : Flat x)
    (h : Yields (fun a => ∀ d, nodes d a = []) x) : Nests nodes x := by
  intro tokens i d a c hd ha
  obtain ⟨j, hij, rfl, hj⟩ := hx tokens i a c ha
  exact ⟨j, hij, rfl, .inr (hj.trans hd), by rw [h _ a _ ha d]; exact laid_nil⟩

/-- What is parsed behind a flat parser is on its level, and lays what it lays. -/
theorem Flat.nests_bind {nodes : Nat → β → List (Nat × Stmt)} {x : Parse α} {f : α → Parse β}
    (hx : Flat x) (hf : ∀ a, Nests nodes (f a)) : Nests nodes (x >>= f) := by
  intro tokens i d b c hd h
  obtain ⟨a, c₁, ha, hb⟩ := bind_ok h
  obtain ⟨j, hij, rfl, hj⟩ := hx tokens i a c₁ ha
  obtain ⟨k, hjk, hc, hend, hlaid⟩ := hf a tokens j d b c (hj.trans hd) hb
  exact ⟨k, hij.trans hjk, hc, hend, hlaid.mono hij⟩

/-- Two parsers in a row: the second one starts on the level of the first one,
or finds no tokens. -/
theorem Nests.bind_map {γ : Type} {nodes : Nat → α → List (Nat × Stmt)}
    {more : Nat → β → List (Nat × Stmt)} {all : Nat → γ → List (Nat × Stmt)} {x : Parse α}
    {y : Parse β} {g : α → β → γ} (hx : Nests nodes x) (hy : Nests more y) (hend : Idle more y)
    (hall : ∀ d a b, all d (g a b) = nodes d a ++ more d b) :
    Nests all (x >>= fun a => y >>= fun b => pure (g a b)) := by
  intro tokens i d r c hd h
  obtain ⟨a, c₁, ha, hrest⟩ := bind_ok h
  obtain ⟨b, c₂, hb, hpure⟩ := bind_ok hrest
  cases hpure
  obtain ⟨j, hij, rfl, hj, hlaid⟩ := hx tokens i d a c₁ hd ha
  rw [hall]
  rcases hj with hj | hj
  · obtain ⟨rfl, hnone⟩ := hend tokens j b _ hj hb
    exact ⟨j, hij, rfl, .inl hj, by rw [hnone d, List.append_nil]; exact hlaid⟩
  · obtain ⟨k, hjk, rfl, hk, hmore⟩ := hy tokens j d b _ hj hb
    exact ⟨k, hij.trans hjk, rfl, hk, hlaid.append hmore hij hjk⟩

/-- A parser nests when what it gives is put into a node that has the same
statements. -/
theorem Nests.map {nodes : Nat → α → List (Nat × Stmt)} {nodes' : Nat → β → List (Nat × Stmt)}
    {x : Parse α} {g : α → β} (hx : Nests nodes x) (hg : ∀ d a, nodes' d (g a) = nodes d a) :
    Nests nodes' (x >>= fun a => pure (g a)) := by
  intro tokens i d b c hd h
  obtain ⟨a, c₁, ha, hb⟩ := bind_ok h
  cases hb
  rw [hg]
  exact hx tokens i d a c hd ha

/-! ## Blocks

An `INDENT` raises the level by one for the statements of a block, and the loop
over them goes on until a `DEDENT` lowers it again.
-/

section Block

variable {st : Parse Stmt}

/-- What a statement parser lays: the statement, then those nested in it. -/
def stmtNodes (d : Nat) (s : Stmt) : List (Nat × Stmt) :=
  (d, s) :: s.nested d

/-- **A block goes up to its own end**: to the first `DEDENT` that no block in
it takes, or to the end of the tokens. The induction is on the rounds; each
takes a token, so they last. -/
theorem laid_blockFrom (hst : Nests stmtNodes st) (ts : List Token) {d : Nat} {ss : List Stmt}
    {c : Cursor} (hts : tokens.length ≤ i + ts.length)
    (hd : balance (tokens.take i) = (d + 1 : Nat))
    (h : blockFrom st ts (cursor tokens i) = .ok ss c) :
    ∃ j, i ≤ j ∧ c = cursor tokens j ∧ (tokens.length ≤ j ∨ balance (tokens.take j) = d) ∧
      Laid tokens i j (Stmt.nodesOfBlock (d + 1) ss) := by
  induction ts generalizing i ss c with
  | nil =>
    cases h
    exact ⟨i, le_rfl, rfl, .inl (by simpa using hts), laid_nil⟩
  | cons _ rounds ih =>
    rw [List.length_cons] at hts
    cases blockFrom_ok h with
    | ended hi => exact ⟨i, le_rfl, rfl, .inl hi, laid_nil⟩
    | lineEnd ht hk h =>
      have hd' : balance (tokens.take (i + 1)) = (d + 1 : Nat) :=
        (balance_of_kind ht (by rw [hk]; decide)).trans hd
      obtain ⟨j, hij, hc, hj, hlaid⟩ := ih (by omega) hd' h
      exact ⟨j, by omega, hc, hj, hlaid.mono (Nat.le_succ i)⟩
    | closed ht hk =>
      refine ⟨i + 1, Nat.le_succ i, rfl, .inr ?_, laid_nil⟩
      rw [balance_of_dedent ht hk, hd]
      push_cast
      omega
    -- a statement leaves the level as it was, or takes the last token
    | @statement s rest c₁ c hs hmore =>
      obtain ⟨j, hij, rfl, hj, hlaid⟩ := hst tokens i (d + 1) s c₁ hd hs
      have hlt := hlaid.lt
      rcases hj with hj | hj
      · rw [blockFrom_end _ hj] at hmore
        cases hmore
        refine ⟨j, hij, rfl, .inl hj, ?_⟩
        rw [Stmt.nodesOfBlock, Stmt.nodesOfBlock, List.append_nil]
        exact hlaid
      · obtain ⟨k, hjk, hc, hk, hmore⟩ := ih (by omega) hj hmore
        exact ⟨k, hij.trans hjk, hc, hk, hlaid.append hmore hij hjk⟩

/-- **A block nests**: its statements are one level higher, and behind it the
level is that of before. -/
theorem nests_block (hst : Nests stmtNodes st) :
    Nests (fun d ss => Stmt.nodesOfBlock (d + 1) ss) (block st) := by
  intro tokens i d ss c hd h
  obtain ⟨t, ht, hk, hblock⟩ := block_ok h
  have hd' : balance (tokens.take (i + 1)) = (d + 1 : Nat) := by
    rw [balance_of_indent ht hk, hd]
    push_cast
    rfl
  have hlength : tokens.length ≤ i + 1 + (tokens.drop (i + 1)).length := by
    rw [List.length_drop]
    omega
  obtain ⟨j, hij, hc, hj, hlaid⟩ := laid_blockFrom hst _ hlength hd' hblock
  exact ⟨j, by omega, hc, hj, hlaid.mono (Nat.le_succ i)⟩

end Block

/-! ## Statements

A statement lays itself at its first token and what is in its blocks behind
that. Behind a block the level is that of the statement again, so branches in a
row are all on the same level.
-/

section Statement

variable {body : Parse (List Stmt)}
  (hbody : Nests (fun d ss => Stmt.nodesOfBlock (d + 1) ss) body)

include hbody in
/-- A branch nests if its body does. -/
theorem nests_branch (room line : Nat) : Nests Branch.nested (branch room body line) :=
  (flat_condition room).nests_bind fun _ => (flat_expect _ (by decide)).nests_bind fun _ =>
    flat_endLine.nests_bind fun _ => hbody.map fun _ _ => by rw [Branch.nested]

/-- At the end of the tokens there are no further branches. -/
theorem moreBranches_end (room : Nat) (ts : List Token) (hi : tokens.length ≤ i) :
    moreBranches room body ts (cursor tokens i) = .ok [] (cursor tokens i) := by
  have hnone (kind : Token.Kind) : take? kind (cursor tokens i) = .ok none (cursor tokens i) := by
    simp only [take?, rest_eq_nil (List.getElem?_eq_none hi)]
  cases ts with
  | nil => rfl
  | cons _ rounds =>
    rw [moreBranches, bind_eq (hnone _)]
    dsimp only
    rw [bind_eq (hnone _)]
    rfl

/-- At the end of the tokens the further branches hold no statement, so they may
be asked for where a body has taken the last token. -/
theorem idle_moreBranches (room : Nat) (ts : List Token) :
    Idle Branch.nestedInChain (moreBranches room body ts) := by
  intro tokens i bs c hi h
  rw [moreBranches_end room ts hi] at h
  cases h
  exact ⟨rfl, fun _ => rfl⟩

include hbody in
/-- Further branches nest, one behind the other, if bodies do. The induction is
on the rounds. -/
theorem nests_moreBranches (room : Nat) (ts : List Token) :
    Nests Branch.nestedInChain (moreBranches room body ts) := by
  induction ts with
  | nil => exact (flat_pure []).nests (yields_pure fun _ => rfl)
  | cons _ rounds ih =>
    -- what follows the word of a branch with a condition
    have more (line : Nat) : Nests Branch.nestedInChain
        (branch room body line >>= fun b => moreBranches room body rounds >>= fun bs =>
          pure (b :: bs)) :=
      (nests_branch hbody room line).bind_map ih (idle_moreBranches room rounds) fun _ _ _ => by
        rw [Branch.nestedInChain]
    refine (flat_take? (by decide)).nests_bind fun elsif => ?_
    cases elsif with
    | some t => exact more t.line
    | none =>
      refine (flat_take? (by decide)).nests_bind fun else? => ?_
      cases else? with
      | none => exact (flat_pure []).nests (yields_pure fun _ => rfl)
      | some e =>
        refine (flat_take? (by decide)).nests_bind fun if? => ?_
        cases if? with
        | some t => exact more t.line
        | none =>
          refine flat_endLine.nests_bind fun _ => hbody.map fun _ _ => ?_
          rw [Branch.nestedInChain, Branch.nestedInChain, Branch.nested, List.append_nil]

include hbody in
/-- An if chain nests if bodies do. -/
theorem nests_ifChain (room line : Nat) : Nests Stmt.nested (ifChain room body line) := by
  have hmore : Nests Branch.nestedInChain (remaining >>= moreBranches room body) :=
    flat_remaining.nests_bind (nests_moreBranches hbody room)
  have hidle : Idle Branch.nestedInChain (remaining >>= moreBranches room body) :=
    fun tokens i bs c hi h => idle_moreBranches room _ tokens i bs c hi h
  have h : Nests Stmt.nested (branch room body line >>= fun first =>
      (remaining >>= moreBranches room body) >>= fun rest =>
        pure (Stmt.ifChain line (first :: rest))) :=
    (nests_branch hbody room line).bind_map hmore hidle fun _ _ _ => by
      rw [Stmt.nested, Branch.nestedInChain]
  simp only [bind_assoc] at h
  exact h

include hbody in
/-- A `while` loop nests if its body does. -/
theorem nests_whileLoop (room line : Nat) : Nests Stmt.nested (whileLoop room body line) :=
  (flat_condition room).nests_bind fun _ => flat_endLine.nests_bind fun _ =>
    hbody.map fun _ _ => by rw [Stmt.nested]

include hbody in
/-- A `repeat` loop nests if its body does. -/
theorem nests_repeatLoop (room line : Nat) : Nests Stmt.nested (repeatLoop room body line) :=
  (flat_expect _ (by decide)).nests_bind fun _ => (flat_condition room).nests_bind fun _ =>
    flat_endLine.nests_bind fun _ => hbody.map fun _ _ => by rw [Stmt.nested]

include hbody in
/-- A `for` loop nests if its body does. -/
theorem nests_forLoop (room line : Nat) : Nests Stmt.nested (forLoop room body line) :=
  (flat_expect _ (by decide)).nests_bind fun _ => (flat_expect _ (by decide)).nests_bind fun _ =>
    (flat_expression room).nests_bind fun _ => (flat_expect _ (by decide)).nests_bind fun _ =>
    (flat_expression room).nests_bind fun _ => flat_endLine.nests_bind fun _ =>
    hbody.map fun _ _ => by rw [Stmt.nested]

end Statement

/-- A name starts a call or an assignment, and nothing else. -/
theorem Yields.nameStatement {Q : Stmt → Prop} {t : Token}
    (hcall : ∀ args, Q (.call t.line t.text args))
    (hassign : ∀ target value, Q (.assign t.line target value)) (room : Nat) :
    Yields Q (nameStatement room t) := by
  have hc : Yields Q (call room t) := .after fun args => .after fun _ => yields_pure (hcall args)
  -- an assignment to a name, with an index or without
  have hrest (index : Option Expr) : Yields Q (do
      let _ ← expect .assigner .assigner
      let value ← condition room
      endLine
      pure (Stmt.assign t.line { line := t.line, name := t.text, index } value)) :=
    .after fun _ => .after fun value => .after fun _ => yields_pure (hassign _ value)
  have ha : Yields Q (assignment room t) := by
    refine .after fun open? => ?_
    cases open? with
    | some _ => exact .after fun index => .after fun _ => hrest (some index)
    | none => exact hrest none
  refine .after fun next => ?_
  cases next with
  | none => exact hc
  | some u =>
    dsimp only
    split
    · exact ha
    · exact hc

/-- A statement that starts with a name has no statements in it. -/
theorem nests_nameStatement (room : Nat) (t : Token) :
    Nests Stmt.nested (nameStatement room t) :=
  (flat_nameStatement room t).nests
    (.nameStatement (fun _ _ => by rw [Stmt.nested]) (fun _ _ _ => by rw [Stmt.nested]) room)

/-- **A statement starts on the level of its depth**, and so do all statements
in its blocks. -/
theorem nests_statement (room : Nat) : Nests stmtNodes (statement room) := by
  induction room using Nat.strong_induction_on with
  | _ room ih =>
    intro tokens i d s c hd h
    obtain ⟨k, t, x, rfl, ht, hx, hs⟩ := statement_cursor_ok h
    have hblock {r : Nat} (hr : r < k + 4) :
        Nests (fun d ss => Stmt.nodesOfBlock (d + 1) ss) (block (statement r)) :=
      nests_block (ih r hr)
    have hnests : Nests Stmt.nested x := by
      cases hx with
      | ifChain => exact nests_ifChain (hblock (by omega)) k _
      | whileLoop => exact nests_whileLoop (hblock (by omega)) k _
      | forLoop => exact nests_forLoop (hblock (by omega)) k _
      | repeatLoop => exact nests_repeatLoop (hblock (by omega)) k _
      | nameStatement => exact nests_nameStatement k t
    have hd' : balance (tokens.take (i + 1)) = d := (balance_of_kind ht hx.not_isLevel).trans hd
    obtain ⟨j, hij, hc, hj, hlaid⟩ := hnests tokens (i + 1) d s c hd' hs
    exact ⟨j, by omega, hc, hj, hlaid.cons ⟨⟨_, c, h⟩, hd⟩ hij⟩

/-! ## First tokens

The position of a statement is that of its first token, from which it also has
its line.
-/

/-- A statement has the line of its first token. -/
theorem AfterFirst.yields_line {room : Nat} {t : Token} {x : Parse Stmt} (h : AfterFirst room t x) :
    Yields (fun s => s.line = t.line) x := by
  cases h with
  | ifChain => exact .after fun _ => .after fun _ => .after fun _ => yields_pure rfl
  | whileLoop => exact .after fun _ => .after fun _ => .after fun _ => yields_pure rfl
  | forLoop =>
    exact .after fun _ => .after fun _ => .after fun _ => .after fun _ => .after fun _ =>
      .after fun _ => .after fun _ => yields_pure rfl
  | repeatLoop => exact .after fun _ => .after fun _ => .after fun _ => .after fun _ => yields_pure rfl
  | nameStatement => exact .nameStatement (fun _ => rfl) (fun _ _ => rfl) room

/-- A statement takes its first token from where it starts; this is one that a
statement can start with, and has the line of the statement. -/
theorem statement_token {room : Nat} {s : Stmt} {c : Cursor}
    (h : statement room (cursor tokens i) = .ok s c) :
    ∃ t, tokens[i]? = some t ∧ StartsStatement t.kind ∧ t.line = s.line := by
  obtain ⟨k, t, x, -, ht, hx, hs⟩ := statement_cursor_ok h
  have hkind : StartsStatement t.kind := by
    cases hx with
    | ifChain hk | whileLoop hk | forLoop hk | repeatLoop hk | nameStatement hk =>
      rw [hk]
      decide
  exact ⟨t, ht, hkind, (hx.yields_line _ _ _ hs).symm⟩

/-- Where a statement starts there is the token that it starts with. -/
theorem Starts.token {n : Nat × Stmt} (h : Starts tokens i n) :
    ∃ t, tokens[i]? = some t ∧ StartsStatement t.kind ∧ t.line = n.2.line := by
  obtain ⟨room, c, hs⟩ := h.parsed
  exact statement_token hs

/-! ## Functions

The functions of a program are laid one after the other, each from level zero;
that the level comes back to zero behind each of them follows from the body
being a block.
-/

/-- The statements of a function that is parsed on level `d`. -/
def bodyNodes (d : Nat) (f : Function) : List (Nat × Stmt) :=
  Stmt.nodesOfBlock (d + 1) f.body

/-- **A function nests**: its statements stand on the levels of their depths,
and it ends on its own. -/
theorem nests_function (room : Nat) : Nests bodyNodes (function room) := by
  refine (flat_expect _ (by decide)).nests_bind fun start =>
    (flat_expect _ (by decide)).nests_bind fun name => (flat_expect _ (by decide)).nests_bind fun _ =>
    (flat_variableGroup.groups _).nests_bind fun ps =>
    (flat_expect _ (by decide)).nests_bind fun _ => flat_endLine.nests_bind fun _ =>
    flat_remaining.nests_bind fun ts => (flat_localsFrom ts).nests_bind fun ds =>
    (flat_at _).nests_bind fun indented => ?_
  cases indented with
  | true => exact (nests_block (nests_statement room)).map fun _ _ => rfl
  | false =>
    have h : Nests (fun d ss => Stmt.nodesOfBlock (d + 1) ss) (pure []) :=
      (flat_pure []).nests (yields_pure fun _ => rfl)
    exact h.map fun _ _ => rfl

/-- What follows a nesting parser on its level may be skipped. -/
theorem Nests.flat_bind {nodes : Nat → α → List (Nat × Stmt)} {x : Parse α} {y : Parse β}
    (hx : Nests nodes x) (hy : Flat y) : Nests nodes (x >>= fun a => y >>= fun _ => pure a) := by
  intro tokens i d a c hd h
  obtain ⟨_, c₁, ha, hrest⟩ := bind_ok h
  obtain ⟨u, c₂, hu, hpure⟩ := bind_ok hrest
  cases hpure
  obtain ⟨j, hij, rfl, hj, hlaid⟩ := hx tokens i d a c₁ hd ha
  obtain ⟨k, hjk, rfl, hk⟩ := hy tokens j u _ hu
  refine ⟨k, hij.trans hjk, rfl, hj.imp (fun hj => hj.trans hjk) fun hj => hk.trans hj, ?_⟩
  have h := hlaid.append (laid_nil (i := j) (j := k)) hij hjk
  rwa [List.append_nil] at h

end Parse

open Parse

/-- The functions that are parsed one after the other each start on level 0. A
function starts at the end of the one before, where the level is that of its
start again. -/
theorem Parsing.laid_functionsFrom {tokens : List Token} (room : Nat) (ts : List Token) {i : Nat}
    (hi : tokens.length ≤ i ∨ Token.balance (tokens.take i) = (0 : Nat)) :
    ∀ f ∈ (functionsFrom room ts (cursor tokens i)).functions,
      ∃ j k, Laid tokens j k f.nodes := by
  induction ts generalizing i with
  | nil => exact fun _ hf => absurd hf List.not_mem_nil
  | cons _ rounds ih =>
    unfold functionsFrom
    split
    · exact fun _ hf => absurd hf List.not_mem_nil
    · rename_i hrest
      have hlevel : Token.balance (tokens.take i) = (0 : Nat) := by
        refine hi.resolve_left fun hle => hrest ?_
        simp only [cursor, List.drop_eq_nil_of_le hle, List.isEmpty_nil]
      split
      · rename_i f c hf
        obtain ⟨j, -, rfl, hj, hlaid⟩ :=
          (nests_function room).flat_bind flat_skipLineEnds tokens i 0 f c hlevel hf
        intro g hg
        rcases List.mem_cons.1 hg with rfl | hg
        · exact ⟨i, j, hlaid⟩
        · exact ih hj g hg
      · exact fun _ hf => absurd hf List.not_mem_nil

/-- **The statements of a parsed program are laid in its tokens**, each at the
depth that the tokens before it say. -/
theorem Parsing.laid_of_program {tokens : List Token} {room : Nat} {p : Program}
    (h : (ofTokens tokens room).program = .ok p) {f : Function} (hf : f ∈ p.functions) :
    ∃ i j, Laid tokens i j f.nodes := by
  obtain ⟨-, -, rfl⟩ := program_ok h
  obtain ⟨j, -, hc, hj⟩ := flat_skipLineEnds tokens 0 () _ rfl
  have hlaid := laid_functionsFrom room (cursor tokens j).rest (.inr hj) f
  rw [← hc] at hlaid
  exact hlaid (Program.mem_ofList hf)

/-- **The nodes of each function are laid out as the tokens are**, for the
parser as it is called, with its own room. -/
theorem Program.laid_of_parse {tokens : List Token} {p : Program} (h : parse tokens = .ok p)
    {f : Function} (hf : f ∈ p.functions) : ∃ i j, Laid tokens i j f.nodes :=
  Parsing.laid_of_program h hf

/-- Each statement of a parsed program starts at a position of the tokens. -/
theorem Parsing.starts_of_program {tokens : List Token} {room : Nat} {p : Program}
    (h : (ofTokens tokens room).program = .ok p) {f : Function} (hf : f ∈ p.functions)
    {n : Nat × Stmt} (hn : n ∈ f.nodes) : ∃ i, Starts tokens i n := by
  obtain ⟨_, _, starts, -, -, hstarts⟩ := laid_of_program h hf
  exact exists_starts_of_mem hstarts hn

end Shank
