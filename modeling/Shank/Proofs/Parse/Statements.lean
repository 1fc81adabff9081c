/-
# Statements are read back

What is written for a statement is read as this statement, lines apart, wherever
a statement is read and there is room enough (`Stmt.room`); what comes next must
not go on with an if chain.

For each function of the parser that reads the rest of a statement there is a
lemma, given that the bodies in it are read. The induction is on the statement,
together with blocks and chains of branches.

The word of a statement is taken before its lemma begins, so the lemmas speak of
what stands behind it. Blocks and chains are loops that look at one token to see
whether there is more; what a statement starts with (`starts_statement`) answers
that.
-/

import Shank.Parse.Stmt
import Shank.Proofs.Parse.Expressions
import Shank.Proofs.Print.Stream

namespace Shank

/-! ## Room

The parser asks for room where statements are nested, and where expressions are.
`Stmt.room` adds up what is asked for on the deepest way into a statement.
-/

/-- The room that the index of a target takes. -/
def Target.room (t : Target) : Nat :=
  (t.index.map Expr.room).getD 0

/-- The room that an argument takes. -/
def Argument.room : Argument → Nat
  | value _ e => e.room
  | reference _ _ _ => 0

/-- The room that arguments take: as much as any of them. -/
def Argument.roomOfList (arguments : List Argument) : Nat :=
  (arguments.map room).foldr max 0

mutual

/-- The room that a statement takes. -/
def Stmt.room : Stmt → Nat
  | .assign _ target value => max target.room value.room + 4
  | .ifChain _ branches => Branch.roomOfChain branches + 4
  | .whileLoop _ condition body => max (condition.room + 4) (Stmt.roomOfBlock body + 3)
  | .repeatLoop _ condition body => max (condition.room + 4) (Stmt.roomOfBlock body + 3)
  | .forLoop _ _ _ start stop body =>
    max (max start.room stop.room + 4) (Stmt.roomOfBlock body + 3)
  | .call _ _ arguments => Argument.roomOfList arguments + 4

/-- The room that a block takes: as much as any of its statements. -/
def Stmt.roomOfBlock : List Stmt → Nat
  | [] => 0
  | s :: rest => max (Stmt.room s) (Stmt.roomOfBlock rest)

/-- The room that a branch takes. -/
def Branch.room : Branch → Nat
  | .mk _ (some condition) body => max condition.room (Stmt.roomOfBlock body)
  | .mk _ none body => Stmt.roomOfBlock body

/-- The room that the branches of an if chain take: as much as any of them. -/
def Branch.roomOfChain : List Branch → Nat
  | [] => 0
  | b :: rest => max (Branch.room b) (Branch.roomOfChain rest)

end

/-- A statement takes the room that the parser asks for before it looks at a
statement. -/
theorem Stmt.four_le_room (s : Stmt) : 4 ≤ s.room := by
  cases s <;> rw [Stmt.room] <;> omega

namespace Parse

variable {spell : Ieee → String} {N : Option Token.Kind → Prop} {room : Nat}

/-! ## Arguments

The arguments of a call have commas between them and nothing behind them, so the
loop ends at the end of the line.
-/

/-- What is written for an argument is read as this argument. Only one that is
passed with `var` starts with that word, so the first token tells which of the
two forms is there. -/
theorem reads_argument (hspell : Ieee.IsSpelling spell) {a : Argument} (h : a.WellFormed)
    (hroom : a.room ≤ room) :
    Reads (a.lexemes spell) (NoneOf continuingCondition) (fun b => b.bare = a.bare)
      (argument room) := by
  refine reads_peek_bind fun start _ => ?_
  cases a with
  | value line e =>
    -- no expression starts with `var`
    refine reads_take_none_bind (fun k _ => ?_) ?_
    · obtain ⟨kind, hkind, hnext⟩ := starts_expression spell e 0 k
      rw [Argument.lexemes, hnext]
      rintro ⟨⟩
      exact absurd hkind (by decide)
    · refine (reads_condition hspell h hroom).map fun e' he' => ?_
      simp only [Argument.bare, he']
  | reference line name nameLine =>
    refine reads_take_bind rfl fun _ _ => reads_expect_bind rfl fun t ht => reads_pure ?_
    have htext : t.text = name := congrArg Lexeme.text ht
    simp only [Argument.bare, htext]

/-- What is room enough for some arguments is so for each. -/
theorem room_le_of_cons {a : Argument} {rest : List Argument}
    (h : Argument.roomOfList (a :: rest) ≤ room) :
    a.room ≤ room ∧ Argument.roomOfList rest ≤ room :=
  Nat.max_le.1 h

/-- The arguments after the first. Each starts with its comma, and the list of
rounds bounds how many of them are looked for. -/
theorem reads_moreArguments (hspell : Ieee.IsSpelling spell) {as : List Argument}
    (h : ∀ a ∈ as, a.WellFormed) (hroom : Argument.roomOfList as ≤ room) {rounds : List Token}
    (hrounds : ((as.map (·.lexemes spell)).flatMap (.comma :: ·)).length ≤ rounds.length) :
    Reads ((as.map (·.lexemes spell)).flatMap (.comma :: ·)) (· = some .endOfLine)
      (fun bs => bs.map Argument.bare = as.map Argument.bare) (moreArguments room rounds) := by
  induction as generalizing rounds with
  | nil =>
    cases rounds with
    | nil => exact reads_pure rfl
    | cons _ rounds =>
      exact reads_take_none_bind (fun k hk => by simp [nextOf, hk]) (reads_pure rfl)
  | cons a rest ih =>
    cases rounds with
    | nil => simp at hrounds
    | cons _ rounds =>
      obtain ⟨ha, hrest⟩ := room_le_of_cons hroom
      have hmore : Reads _ _ _ (moreArguments room rounds) :=
        ih (fun b hb => h b (List.mem_cons_of_mem _ hb)) hrest (by
          simp only [List.map_cons, List.flatMap_cons, List.length_append, List.length_cons] at hrounds
          omega)
      rw [List.map_cons, List.flatMap_cons]
      refine reads_take_bind rfl fun _ _ => ?_
      refine (reads_argument hspell (h a (List.mem_cons_self ..)) ha).bind
        (fun b hb => hmore.map fun bs hbs => by simp [hb, hbs]) fun k hk => ?_
      -- an argument may end in an expression, which nothing behind it may continue
      cases rest with
      | nil => rw [List.map_nil, List.flatMap_nil, nextOf, hk]; decide
      | cons => exact show NoneOf _ (some Token.Kind.comma) by decide

/-- An argument starts with `var` or as an expression does. -/
theorem starts_argument (spell : Ieee → String) (a : Argument) (k : Option Token.Kind) :
    ∃ kind ∈ Token.Kind.var :: starters, nextOf (a.lexemes spell) k = some kind := by
  cases a with
  | value _ e =>
    obtain ⟨kind, hkind, hnext⟩ := starts_expression spell e 0 k
    exact ⟨kind, List.mem_cons_of_mem _ hkind, hnext⟩
  | reference => exact ⟨.var, by decide, rfl⟩

/-- **What is written for the arguments of a call is read as these**, up to the
end of the line. Whether there are any is told by the first token: no argument
starts with the end of a line. -/
theorem reads_arguments (hspell : Ieee.IsSpelling spell) {as : List Argument}
    (h : ∀ a ∈ as, a.WellFormed) (hroom : Argument.roomOfList as ≤ room) :
    Reads (separated .comma (as.map (·.lexemes spell))) (· = some .endOfLine)
      (fun bs => bs.map Argument.bare = as.map Argument.bare) (arguments room) := by
  cases as with
  | nil =>
    exact reads_at_bind (b := true) (fun k hk => by simp [separated, nextOf, hk]) (reads_pure rfl)
  | cons a rest =>
    obtain ⟨ha, hrest⟩ := room_le_of_cons hroom
    refine reads_at_bind (b := false) (fun k _ => ?_) ?_
    -- what an argument starts with is no end of a line
    · obtain ⟨kind, hkind, hnext⟩ := starts_argument spell a
        (nextOf ((rest.map (·.lexemes spell)).flatMap (.comma :: ·)) k)
      rw [List.map_cons, separated, nextOf_append, hnext]
      simp only [Option.some.injEq, Bool.false_eq_true, iff_false]
      rintro rfl
      exact absurd hkind (by decide)
    · refine (reads_argument hspell (h a (List.mem_cons_self ..)) ha).bind
        (fun b hb => reads_remaining_bind fun rounds hrounds _ =>
          (reads_moreArguments hspell (fun b hb => h b (List.mem_cons_of_mem _ hb)) hrest hrounds).map
            fun bs hbs => by simp [hb, hbs]) fun k hk => ?_
      cases rest with
      | nil => rw [List.map_nil, List.flatMap_nil, nextOf, hk]; decide
      | cons => exact show NoneOf _ (some Token.Kind.comma) by decide

/-! ## Assignments and calls

Both start with a name, and the token behind it tells them apart. So it has to
be shown that no argument starts like an assignment goes on.
-/

/-- Lexemes of a line, and what comes on the lines after it. -/
theorem reads_line {α β : Type} {ls rest : List Lexeme} {M : Option Token.Kind → Prop} {P : α → Prop}
    {Q : β → Prop} {x : Parse α} {f : α → Parse β} (hx : Reads ls M P x) (hM : M (some .endOfLine))
    (hnext : ∀ k, N k → nextOf rest k ≠ some .endOfLine) (hf : ∀ a, P a → Reads rest N Q (f a)) :
    Reads (ls ++ .lineEnd :: rest) N Q (x >>= fun a => endLine >>= fun _ => f a) :=
  hx.bind (fun a ha => reads_endLine_bind rfl hnext (hf a ha)) fun _ _ => hM

/-- What is written behind the name of a call is read as this call. -/
theorem reads_call (hspell : Ieee.IsSpelling spell) {as : List Argument}
    (h : ∀ a ∈ as, a.WellFormed) (hroom : Argument.roomOfList as ≤ room) {t : Token} {line : Nat} :
    Reads (separated .comma (as.map (·.lexemes spell)) ++ [.lineEnd]) (NoneOf [.endOfLine])
      (fun s => s.bare = (Stmt.call line t.text as).bare) (call room t) :=
  reads_line (reads_arguments hspell h hroom) rfl (fun _ hk => hk _ (by simp)) fun bs hbs =>
    reads_pure (by simp only [Stmt.bare, hbs])

/-- What is written behind the name of a target is read as the assignment. The
index comes first if the target has one; what follows is the same either way. -/
theorem reads_assignment (hspell : Ieee.IsSpelling spell) {target : Target} {value : Expr}
    (htarget : target.WellFormed) (hvalue : value.WellFormedCondition)
    (hroom : target.room ≤ room) (hroom' : value.room ≤ room) {t : Token} {line : Nat}
    (ht : t.text = target.name) :
    Reads (target.indexLexemes spell ++ .assigner :: (value.lexemes spell 0 ++ [.lineEnd]))
      (NoneOf [.endOfLine]) (fun s => s.bare = (Stmt.assign line target value).bare)
      (assignment room t) := by
  -- from `:=` on it does not matter what the index was written as
  have hrest : ∀ index : Option Expr, index.map Expr.bare = target.index.map Expr.bare →
      Reads (.assigner :: (value.lexemes spell 0 ++ [.lineEnd])) (NoneOf [.endOfLine])
        (fun s => s.bare = (Stmt.assign line target value).bare) (do
          let _ ← expect .assigner .assigner
          let value ← condition room
          endLine
          pure (Stmt.assign t.line { line := t.line, name := t.text, index } value)) := by
    intro index hindex
    refine reads_expect_bind rfl fun _ _ => ?_
    refine reads_line (reads_condition hspell hvalue hroom') (by decide)
      (fun _ hk => hk _ (by simp)) fun v hv => reads_pure ?_
    simp only [Stmt.bare, Target.bare, ht, hindex, hv]
  rw [assignment, Target.indexLexemes]
  cases hindex : target.index with
  | none =>
    exact reads_take_none_bind (fun _ _ => by simp [nextOf, Lexeme.assigner])
      (by simpa only [pure_bind, List.nil_append] using hrest none (by rw [hindex]))
  | some index =>
    have hroom : index.room ≤ room := by simpa [Target.room, hindex] using hroom
    rw [List.cons_append, List.append_assoc]
    refine reads_take_bind rfl fun _ _ => ?_
    simp only [pure_bind]
    refine (reads_expression hspell (htarget.2 index hindex) hroom).bind
      (r := [Lexeme.closeBracket] ++ Lexeme.assigner :: (value.lexemes spell 0 ++ [Lexeme.lineEnd]))
      (fun e he => reads_expect_bind rfl fun _ _ => ?_)
      fun _ _ => show NoneOf (continuing 0) (some Token.Kind.closeBracket) by decide
    exact hrest (some e) (by rw [hindex, Option.map_some, Option.map_some, he])

/-- **A name with arguments behind it is read as a call.** No argument starts
with `:=` or a bracket, nor does the end of a line, and these two are what would
make it an assignment. -/
theorem reads_nameStatement_call (hspell : Ieee.IsSpelling spell) {as : List Argument}
    (h : ∀ a ∈ as, a.WellFormed) (hroom : Argument.roomOfList as ≤ room) {t : Token} {line : Nat} :
    Reads (separated .comma (as.map (·.lexemes spell)) ++ [.lineEnd]) (NoneOf [.endOfLine])
      (fun s => s.bare = (Stmt.call line t.text as).bare) (nameStatement room t) := by
  -- whatever is behind the name, it is none of the tokens that assign
  have hstart : ∀ k, ∃ kind ∈ Token.Kind.endOfLine :: .var :: starters,
      nextOf (separated .comma (as.map (·.lexemes spell)) ++ [.lineEnd]) k = some kind := by
    intro k
    cases as with
    | nil => exact ⟨.endOfLine, by decide, rfl⟩
    | cons a rest =>
      rw [List.map_cons, separated, List.append_assoc, nextOf_append]
      obtain ⟨kind, hkind, hnext⟩ := starts_argument spell a _
      exact ⟨kind, List.mem_cons_of_mem _ hkind, hnext⟩
  refine reads_peek_some_bind hstart fun u hu => ?_
  have hassigns : assigns u = false :=
    (by decide : ∀ kind ∈ Token.Kind.endOfLine :: .var :: starters,
      (kind == .assigner || kind == .openBracket) = false) u.kind hu
  simp only [hassigns, Bool.false_eq_true, if_false]
  exact reads_call hspell h hroom

/-- Behind a name, `:=` or a bracket makes an assignment. -/
theorem reads_nameStatement_assign (hspell : Ieee.IsSpelling spell) {target : Target} {value : Expr}
    (htarget : target.WellFormed) (hvalue : value.WellFormedCondition)
    (hroom : target.room ≤ room) (hroom' : value.room ≤ room) {t : Token} {line : Nat}
    (ht : t.text = target.name) :
    Reads (target.indexLexemes spell ++ .assigner :: (value.lexemes spell 0 ++ [.lineEnd]))
      (NoneOf [.endOfLine]) (fun s => s.bare = (Stmt.assign line target value).bare)
      (nameStatement room t) := by
  have hstart : ∀ k, ∃ kind ∈ [Token.Kind.assigner, .openBracket],
      nextOf (target.indexLexemes spell ++ .assigner :: (value.lexemes spell 0 ++ [.lineEnd])) k =
        some kind := by
    intro k
    rw [Target.indexLexemes]
    cases target.index with
    | none => exact ⟨.assigner, by decide, rfl⟩
    | some index => exact ⟨.openBracket, by decide, rfl⟩
  refine reads_peek_some_bind hstart fun u hu => ?_
  have hassigns : assigns u = true :=
    (by decide : ∀ kind ∈ [Token.Kind.assigner, .openBracket],
      (kind == .assigner || kind == .openBracket) = true) u.kind hu
  simp only [hassigns, if_true]
  exact reads_assignment hspell htarget hvalue hroom hroom' ht

/-! ## Blocks

A block is written one level higher than the statement it is in. The lexemes of
its lines are followed by the `DEDENT`s that the next line asks for, the first
of which closes it.
-/

/-- The kinds of tokens that a statement starts with. -/
def statementStarters : List Token.Kind :=
  [.identifier, .if_, .while_, .for_, .repeat_]

/-- A statement starts with one of a few kinds of tokens, whatever lines are
behind it. None of them is an `else` or an `elsif`, nor ends a block. So the
loop over the statements of a block, and that over the branches of a chain, see
at the first token that there is one more to read. -/
theorem starts_statement (spell : Ieee → String) {s : Stmt} (h : s.WellFormed) (d d' : Nat) (rest : List Line)
    (k : Option Token.Kind) :
    ∃ kind ∈ statementStarters, nextOf (stream d (s.lines spell d ++ rest) d') k = some kind := by
  cases s with
  | ifChain line branches =>
    cases branches with
    | nil => exact h.1.elim
    | cons b bs =>
      obtain ⟨bline, condition, body⟩ := b
      cases condition with
      | none => exact absurd h.1.1 (by simp [Branch.condition])
      | some condition =>
        refine ⟨.if_, by decide, ?_⟩
        rw [Stmt.lines, Branch.linesOfChain, Branch.lines, List.cons_append, List.cons_append,
          stream_cons_self]
        rfl
  | assign | call =>
    refine ⟨.identifier, by decide, ?_⟩
    rw [Stmt.lines, List.cons_append, stream_cons_self]
    rfl
  | whileLoop =>
    refine ⟨.while_, by decide, ?_⟩
    rw [Stmt.lines, List.cons_append, stream_cons_self]
    rfl
  | repeatLoop =>
    refine ⟨.repeat_, by decide, ?_⟩
    rw [Stmt.lines, List.cons_append, stream_cons_self]
    rfl
  | forLoop =>
    refine ⟨.for_, by decide, ?_⟩
    rw [Stmt.lines, List.cons_append, stream_cons_self]
    rfl

/-- A statement is not written with nothing. -/
theorem stream_statement_pos {s : Stmt} (h : s.WellFormed) (d : Nat) :
    0 < (stream d (s.lines spell d) d).length := by
  cases hs : stream d (s.lines spell d) d with
  | nil =>
    obtain ⟨kind, -, hnone⟩ := starts_statement spell h d d [] none
    rw [List.append_nil, hs] at hnone
    cases hnone
  | cons => exact Nat.succ_pos _

/-- What comes in a block after a statement does not go on with an if chain. -/
theorem nextOf_block {ss : List Stmt} (h : Stmt.WellFormedBlock ss) (d : Nat)
    (k : Option Token.Kind) :
    NoneOf [.elsif, .else_, .endOfLine]
      (nextOf (stream d (Stmt.linesOfBlock spell d ss) d ++ [.dedent]) k) := by
  rw [nextOf_append]
  cases ss with
  | nil =>
    rw [Stmt.linesOfBlock, stream_nil_self]
    exact show NoneOf _ (some Token.Kind.dedent) by decide
  | cons s rest =>
    obtain ⟨kind, hkind, hnext⟩ := starts_statement spell h.1 d d
      (Stmt.linesOfBlock spell d rest) (nextOf [Lexeme.dedent] k)
    rw [Stmt.linesOfBlock, hnext]
    exact (by decide : ∀ kind ∈ statementStarters,
      NoneOf [.elsif, .else_, .endOfLine] (some kind)) kind hkind

/-- The body of a statement, and the block that is read of it. -/
theorem stream_body {ss : List Stmt} (hne : ss ≠ []) (h : Stmt.WellFormedBlock ss) (d : Nat) :
    stream d (Stmt.linesOfBlock spell (d + 1) ss) d =
      .indent :: (stream (d + 1) (Stmt.linesOfBlock spell (d + 1) ss) (d + 1) ++ [.dedent]) := by
  refine stream_block (Stmt.le_depth_of_mem_block spell (d + 1) ss) ?_
  cases ss with
  | nil => exact absurd rfl hne
  | cons s rest => exact Stmt.depthOfFirst_lines spell h.1 (d + 1) _ d

/-- In a block the lexemes of a statement stand in front of those of the
statements behind. -/
theorem stream_statement_append {s : Stmt} {rest : List Stmt} (h : Stmt.WellFormedBlock rest) (d : Nat) :
    stream d (s.lines spell d ++ Stmt.linesOfBlock spell d rest) d =
      stream d (s.lines spell d) d ++ stream d (Stmt.linesOfBlock spell d rest) d :=
  stream_append (Nat.le_refl d) (Stmt.le_depth_of_mem spell d s)
    (Stmt.depthOfFirst_block spell h d).le

/-- In an if chain the lexemes of a branch stand in front of those of the
others. -/
theorem stream_branch_append {b : Branch} {rest : List Branch} {word word' : Lexeme} (d : Nat) :
    stream d (b.lines spell d word ++ Branch.linesOfChain spell d word' rest) d =
      stream d (b.lines spell d word) d ++ stream d (Branch.linesOfChain spell d word' rest) d := by
  refine stream_append (Nat.le_refl d) (Branch.le_depth_of_mem spell d word b) ?_
  cases rest with
  | nil => exact Nat.le_refl d
  | cons c rest => exact (Branch.depthOfFirst_lines spell d word' c _ d).le

/-- A branch with a condition, its body as a block. -/
theorem stream_branch {line : Nat} {condition : Expr} {body : List Stmt} (hne : body ≠ [])
    (h : Stmt.WellFormedBlock body) (word : Lexeme) (d : Nat) :
    stream d ((Branch.mk line (some condition) body).lines spell d word) d =
      word :: (condition.lexemes spell 0 ++ ⟨.then_, "then"⟩ :: .lineEnd :: .indent ::
        (stream (d + 1) (Stmt.linesOfBlock spell (d + 1) body) (d + 1) ++ [.dedent])) := by
  rw [Branch.lines, stream_cons_self, stream_body hne h]
  simp only [List.cons_append, List.append_assoc, List.nil_append]

/-- An `else`, its body as a block. -/
theorem stream_else {line : Nat} {body : List Stmt} (hne : body ≠ []) (h : Stmt.WellFormedBlock body)
    (word : Lexeme) (d : Nat) :
    stream d ((Branch.mk line none body).lines spell d word) d =
      ⟨.else_, "else"⟩ :: .lineEnd :: .indent ::
        (stream (d + 1) (Stmt.linesOfBlock spell (d + 1) body) (d + 1) ++ [.dedent]) := by
  rw [Branch.lines, stream_cons_self, stream_body hne h]
  rfl

/-! ## Statements

A statement is read if its bodies are, and a body if its statements are. Each
form of statement has a lemma that takes the reading of its body for granted;
the last four tie the knot, by recursion over statements, blocks, chains and
branches.
-/

/-- A branch with a condition, given that its body is read. -/
theorem reads_branch (hspell : Ieee.IsSpelling spell) {condition : Expr} {body : List Stmt}
    {ls : List Lexeme} {x : Parse (List Stmt)} (h : condition.WellFormedCondition)
    (hroom : condition.room ≤ room)
    (hbody : Reads (.indent :: ls) N (fun b => Stmt.bareBlock b = Stmt.bareBlock body) x)
    {line : Nat} :
    Reads (condition.lexemes spell 0 ++ ⟨.then_, "then"⟩ :: .lineEnd :: .indent :: ls) N
      (fun b => b.bare = .mk 0 (some condition.bare) (Stmt.bareBlock body)) (branch room x line) := by
  refine (reads_condition hspell h hroom).bind (fun c hc => reads_expect_bind rfl fun _ _ => ?_)
    fun _ _ => show NoneOf continuingCondition (some Token.Kind.then_) by decide
  refine reads_endLine_bind rfl (fun _ _ => by simp [nextOf, Lexeme.indent]) ?_
  refine hbody.map fun b hb => ?_
  simp only [Branch.bare, Option.map_some, hc, hb]

/-- The chain goes on with the branches after the first one. -/
theorem continues_tail {b : Branch} {rest : List Branch} (h : Branch.Continues (b :: rest)) :
    (b.condition = none → rest = []) ∧ Branch.Continues rest := by
  cases rest with
  | nil => exact ⟨fun _ => rfl, fun c hc => nomatch hc⟩
  | cons c rest =>
    rw [Branch.Continues, List.dropLast_cons_cons] at h
    refine ⟨fun hb => ?_, fun d hd => h d (List.mem_cons_of_mem _ hd)⟩
    have := h b (List.mem_cons_self ..)
    rw [hb] at this
    cases this

/-- A block is read if its statements are, in as many rounds as there are tokens
left. -/
theorem reads_block {ls : List Lexeme} {P : List Stmt → Prop} {st : Parse Stmt}
    (h : ∀ rounds : List Token, (ls ++ [Lexeme.dedent]).length ≤ rounds.length →
      Reads (ls ++ [.dedent]) N P (blockFrom st rounds)) :
    Reads (.indent :: (ls ++ [.dedent])) N P (block st) :=
  reads_expect_bind rfl fun _ _ => reads_remaining_bind fun rounds hrounds _ => h rounds hrounds

section Loops

/-! What is read after the word of a statement, given that its body is read. -/

variable {body : List Stmt} {ls : List Lexeme} {x : Parse (List Stmt)} {line line' : Nat}

/-- What is written behind `while` is read as the loop. -/
theorem reads_whileLoop (hspell : Ieee.IsSpelling spell) {condition : Expr}
    (h : condition.WellFormedCondition) (hroom : condition.room ≤ room)
    (hbody : Reads (.indent :: ls) N (fun b => Stmt.bareBlock b = Stmt.bareBlock body) x) :
    Reads (condition.lexemes spell 0 ++ .lineEnd :: .indent :: ls) N
      (fun s => s.bare = (Stmt.whileLoop line condition body).bare) (whileLoop room x line') := by
  refine reads_line (reads_condition hspell h hroom) (by decide)
    (fun _ _ => by simp [nextOf, Lexeme.indent]) fun c hc => hbody.map fun b hb => ?_
  simp only [Stmt.bare, hc, hb]

/-- What is written behind `repeat` is read as the loop. -/
theorem reads_repeatLoop (hspell : Ieee.IsSpelling spell) {condition : Expr}
    (h : condition.WellFormedCondition) (hroom : condition.room ≤ room)
    (hbody : Reads (.indent :: ls) N (fun b => Stmt.bareBlock b = Stmt.bareBlock body) x) :
    Reads (⟨.until_, "until"⟩ :: (condition.lexemes spell 0 ++ .lineEnd :: .indent :: ls)) N
      (fun s => s.bare = (Stmt.repeatLoop line condition body).bare) (repeatLoop room x line') := by
  refine reads_expect_bind rfl fun _ _ => ?_
  refine reads_line (reads_condition hspell h hroom) (by decide)
    (fun _ _ => by simp [nextOf, Lexeme.indent]) fun c hc => hbody.map fun b hb => ?_
  simp only [Stmt.bare, hc, hb]

/-- What is written behind `for` is read as the loop. -/
theorem reads_forLoop (hspell : Ieee.IsSpelling spell) {name : String} {nameLine : Nat}
    {start stop : Expr} (hstart : start.WellFormed) (hstop : stop.WellFormed)
    (hroom : start.room ≤ room) (hroom' : stop.room ≤ room)
    (hbody : Reads (.indent :: ls) N (fun b => Stmt.bareBlock b = Stmt.bareBlock body) x) :
    Reads (.name name :: .from_ :: (start.lexemes spell 0 ++
        .to_ :: (stop.lexemes spell 0 ++ .lineEnd :: .indent :: ls))) N
      (fun s => s.bare = (Stmt.forLoop line name nameLine start stop body).bare)
      (forLoop room x line') := by
  refine reads_expect_bind rfl fun n hn => reads_expect_bind rfl fun _ _ => ?_
  have hname : n.text = name := congrArg Lexeme.text hn
  refine (reads_expression hspell hstart hroom).bind
    (fun e he => reads_expect_bind rfl fun _ _ => ?_)
    fun _ _ => show NoneOf (continuing 0) (some Token.Kind.to_) by decide
  refine reads_line (reads_expression hspell hstop hroom') (by decide)
    (fun _ _ => by simp [nextOf, Lexeme.indent]) fun e' he' => hbody.map fun b hb => ?_
  simp only [Stmt.bare, hname, he, he', hb]

/-- The first branch of a chain, and then the others. -/
theorem reads_ifChain (hspell : Ieee.IsSpelling spell) {condition : Expr} {rest : List Branch}
    {rs : List Lexeme} (h : condition.WellFormedCondition) (hroom : condition.room ≤ room)
    (hbody : Reads (.indent :: ls) (fun _ => True)
      (fun b => Stmt.bareBlock b = Stmt.bareBlock body) x)
    (hrest : ∀ rounds : List Token, rs.length ≤ rounds.length →
      Reads rs N (fun cs => Branch.bareChain cs = Branch.bareChain rest) (moreBranches room x rounds))
    {branchLine : Nat} :
    Reads ((condition.lexemes spell 0 ++ ⟨.then_, "then"⟩ :: .lineEnd :: .indent :: ls) ++ rs) N
      (fun s => s.bare =
        (Stmt.ifChain line (.mk branchLine (some condition) body :: rest)).bare)
      (ifChain room x line') := by
  refine (reads_branch hspell h hroom hbody).bind (fun b hb => ?_) fun _ _ => trivial
  refine reads_remaining_bind fun rounds hrounds _ => (hrest rounds hrounds).map fun bs hbs => ?_
  simp only [Stmt.bare, Branch.bareChain, Branch.bare, Option.map_some, hb, hbs]

end Loops

mutual

/-- **What is written for a statement is read as this statement.** This is by
induction on the statement, with its blocks, branches and chains. It takes four
levels of room for itself, and for what is in it as much as `Stmt.room` counts. -/
theorem reads_statement (hspell : Ieee.IsSpelling spell) (s : Stmt) (h : s.WellFormed)
    {room : Nat} (hroom : s.room ≤ room) (d : Nat) :
    Reads (stream d (s.lines spell d) d) (NoneOf [.elsif, .else_, .endOfLine])
      (fun a => a.bare = s.bare) (statement room) := by
  obtain ⟨room, rfl⟩ := Nat.exists_eq_add_of_le' (s.four_le_room.trans hroom)
  cases s with
  -- a name is looked at and not taken, as both of its statements start with it
  | assign line target value =>
    rw [Stmt.room] at hroom
    rw [Stmt.lines, stream_cons_self, stream_nil_self, Target.lexemes]
    simp only [List.cons_append, List.append_assoc]
    refine reads_peek_cons_bind fun t ht => ?_
    have hk : t.kind = .identifier := congrArg Lexeme.kind ht
    have htext : t.text = target.name := congrArg Lexeme.text ht
    simp only [hk]
    exact reads_skip_bind ((reads_nameStatement_assign hspell h.1 h.2 (by omega) (by omega)
      htext).mono (fun _ => noneOf_mono (by decide)) fun _ h => h)
  | call line name arguments =>
    rw [Stmt.room] at hroom
    rw [Stmt.lines, stream_cons_self, stream_nil_self, List.cons_append]
    refine reads_peek_cons_bind fun t ht => ?_
    have hk : t.kind = .identifier := congrArg Lexeme.kind ht
    have htext : t.text = name := congrArg Lexeme.text ht
    simp only [hk]
    refine reads_skip_bind ?_
    rw [← htext]
    exact (reads_nameStatement_call hspell h.2 (by omega)).mono
      (fun _ => noneOf_mono (by decide)) fun _ h => h
  -- the three loops differ in their heads; their bodies are blocks one level deeper
  | whileLoop line condition body =>
    obtain ⟨hcondition, hne, hwell⟩ := h
    rw [Stmt.room] at hroom
    have hbody := reads_block (N := NoneOf [.elsif, .else_, .endOfLine]) fun _ hrounds =>
      reads_blockFrom hspell body hwell (by omega : _ ≤ room + 1) (d + 1) hrounds
    rw [Stmt.lines, stream_cons_self, List.cons_append, stream_body hne hwell]
    refine reads_peek_cons_bind fun t ht => ?_
    have hk : t.kind = .while_ := congrArg Lexeme.kind ht
    simp only [hk]
    exact reads_skip_bind (reads_whileLoop hspell hcondition (by omega) hbody)
  | repeatLoop line condition body =>
    obtain ⟨hcondition, hne, hwell⟩ := h
    rw [Stmt.room] at hroom
    have hbody := reads_block (N := NoneOf [.elsif, .else_, .endOfLine]) fun _ hrounds =>
      reads_blockFrom hspell body hwell (by omega : _ ≤ room + 1) (d + 1) hrounds
    rw [Stmt.lines, stream_cons_self, List.cons_append, stream_body hne hwell]
    refine reads_peek_cons_bind fun t ht => ?_
    have hk : t.kind = .repeat_ := congrArg Lexeme.kind ht
    simp only [hk]
    exact reads_skip_bind (reads_repeatLoop hspell hcondition (by omega) hbody)
  | forLoop line name nameLine start stop body =>
    obtain ⟨⟨-, hstart, hstop⟩, hne, hwell⟩ := h
    rw [Stmt.room] at hroom
    have hbody := reads_block (N := NoneOf [.elsif, .else_, .endOfLine]) fun _ hrounds =>
      reads_blockFrom hspell body hwell (by omega : _ ≤ room + 1) (d + 1) hrounds
    rw [Stmt.lines, stream_cons_self, stream_body hne hwell]
    simp only [List.cons_append, List.append_assoc]
    refine reads_peek_cons_bind fun t ht => ?_
    have hk : t.kind = .for_ := congrArg Lexeme.kind ht
    simp only [hk]
    exact reads_skip_bind (reads_forLoop hspell hstart hstop (by omega) (by omega) hbody)
  -- the first branch has a condition, as the chain is well formed
  | ifChain line branches =>
    rw [Stmt.room] at hroom
    cases branches with
    | nil => exact h.1.elim
    | cons b rest =>
      obtain ⟨⟨hcondition, hcontinues⟩, hb, hrest⟩ := h
      rw [Branch.roomOfChain] at hroom
      have hroom' : Branch.roomOfChain rest ≤ room := by omega
      have hbody := reads_body hspell b hb (by omega : b.room ≤ room) d (N := fun _ => True)
      obtain ⟨line', condition, body⟩ := b
      cases condition with
      | none => cases hcondition
      | some condition =>
        rw [Branch.room] at hroom
        rw [Stmt.lines, Branch.linesOfChain, stream_branch_append, stream_branch hb.2.1 hb.2.2]
        refine reads_peek_cons_bind fun t ht => ?_
        have hk : t.kind = .if_ := congrArg Lexeme.kind ht
        simp only [hk]
        exact reads_skip_bind ((reads_ifChain hspell (hb.1 condition rfl) (by omega) hbody
          fun rounds hrounds => reads_moreBranches hspell rest hrest hcontinues hroom' d hrounds).mono
            (fun _ => noneOf_mono (by decide)) fun _ h => h)

/-- The statements of a block are read up to its dedent. Each of them is at
least one token long, so there is a round for each of them. -/
theorem reads_blockFrom (hspell : Ieee.IsSpelling spell) (ss : List Stmt)
    (h : Stmt.WellFormedBlock ss) {room : Nat} (hroom : Stmt.roomOfBlock ss ≤ room) (d : Nat)
    {N : Option Token.Kind → Prop} {rounds : List Token}
    (hrounds : (stream d (Stmt.linesOfBlock spell d ss) d ++ [Lexeme.dedent]).length ≤ rounds.length) :
    Reads (stream d (Stmt.linesOfBlock spell d ss) d ++ [.dedent]) N
      (fun b => Stmt.bareBlock b = Stmt.bareBlock ss) (blockFrom (statement room) rounds) := by
  cases rounds with
  | nil => simp at hrounds
  | cons _ rounds =>
    cases ss with
    | nil =>
      rw [Stmt.linesOfBlock, stream_nil_self, List.nil_append]
      refine reads_peek_cons_bind fun t ht => ?_
      have hk : t.kind = .dedent := congrArg Lexeme.kind ht
      simp only [hk]
      exact reads_skip_bind (reads_pure rfl)
    | cons s rest =>
      rw [Stmt.linesOfBlock, stream_statement_append h.2, List.append_assoc] at hrounds ⊢
      rw [Stmt.roomOfBlock] at hroom
      have hstatement := reads_statement hspell s h.1 (Nat.le_trans (Nat.le_max_left _ _) hroom) d
      have hstart : ∀ k, ∃ kind ∈ statementStarters, nextOf (stream d (s.lines spell d) d ++
          (stream d (Stmt.linesOfBlock spell d rest) d ++ [.dedent])) k = some kind := by
        intro k
        have hfirst := starts_statement spell h.1 d d []
          (nextOf (stream d (Stmt.linesOfBlock spell d rest) d ++ [.dedent]) k)
        rwa [List.append_nil, ← nextOf_append] at hfirst
      refine reads_peek_some_bind hstart fun t ht => ?_
      have hkinds := (by decide : ∀ kind ∈ statementStarters,
        kind ≠ Token.Kind.endOfLine ∧ kind ≠ Token.Kind.dedent) t.kind ht
      simp only [if_neg hkinds.1, if_neg hkinds.2]
      refine hstatement.bind (fun a ha => ?_) fun k _ => nextOf_block h.2 d k
      refine (reads_blockFrom hspell rest h.2 (Nat.le_trans (Nat.le_max_right _ _) hroom) d
        ?_).map fun b hb => ?_
      -- a statement takes a token, so a round fewer is enough for the others
      · have hpos : 0 < (stream d (s.lines spell d) d).length := stream_statement_pos h.1 d
        rw [List.length_append, List.length_cons] at hrounds
        omega
      · simp only [Stmt.bareBlock, ha, hb]

/-- The branches after the first are read up to the end of the chain: any number
with a condition, then at most one without. -/
theorem reads_moreBranches (hspell : Ieee.IsSpelling spell) (bs : List Branch)
    (h : Branch.WellFormedChain bs) (hcontinues : Branch.Continues bs) {room : Nat}
    (hroom : Branch.roomOfChain bs ≤ room) (d : Nat) {rounds : List Token}
    (hrounds : (stream d (Branch.linesOfChain spell d ⟨.elsif, "elsif"⟩ bs) d).length ≤
      rounds.length) :
    Reads (stream d (Branch.linesOfChain spell d ⟨.elsif, "elsif"⟩ bs) d) (NoneOf [.elsif, .else_])
      (fun cs => Branch.bareChain cs = Branch.bareChain bs)
      (moreBranches room (block (statement room)) rounds) := by
  cases bs with
  | nil =>
    rw [Branch.linesOfChain, stream_nil_self]
    cases rounds with
    | nil => exact reads_pure rfl
    | cons _ rounds =>
      exact reads_take_none_bind (fun k hk => hk _ (by simp))
        (reads_take_none_bind (fun k hk => hk _ (by simp)) (reads_pure rfl))
  | cons b rest =>
    obtain ⟨hlast, hrest⟩ := continues_tail hcontinues
    rw [Branch.roomOfChain] at hroom
    have hroom' : Branch.roomOfChain rest ≤ room := by omega
    have hbody := fun N => reads_body hspell b h.1 (by omega : b.room ≤ room) d (N := N)
    rw [Branch.linesOfChain, stream_branch_append] at hrounds ⊢
    obtain ⟨line, condition, body⟩ := b
    cases condition with
    | some condition =>
      rw [Branch.room] at hroom
      rw [stream_branch h.1.2.1 h.1.2.2, List.cons_append] at hrounds ⊢
      cases rounds with
      | nil => simp at hrounds
      | cons _ rounds =>
        rw [List.length_cons, List.length_cons, List.length_append] at hrounds
        refine reads_take_bind rfl fun _ _ => ?_
        refine (reads_branch hspell (h.1.1 condition rfl) (by omega) (hbody fun _ => True)).bind
          (fun b' hb' => (reads_moreBranches hspell rest h.2 hrest hroom' d
            (by omega)).map fun bs hbs => ?_) fun _ _ => trivial
        simp only [Branch.bareChain, Branch.bare, Option.map_some, hb', hbs]
        rfl
    -- an `else` is the last one, so nothing is left to be read behind its block
    | none =>
      obtain rfl := hlast rfl
      rw [Branch.linesOfChain, stream_nil_self, List.append_nil, stream_else h.1.2.1 h.1.2.2]
        at hrounds ⊢
      cases rounds with
      | nil => simp at hrounds
      | cons _ rounds =>
        refine reads_take_none_bind (fun _ _ => by simp [nextOf]) (reads_take_bind rfl fun _ _ => ?_)
        refine reads_take_none_bind (fun _ _ => by simp [nextOf, Lexeme.lineEnd]) ?_
        refine reads_endLine_bind rfl (fun _ _ => by simp [nextOf, Lexeme.indent]) ?_
        refine (hbody _).map fun b hb => ?_
        simp only [Branch.body] at hb
        simp only [Branch.bareChain, Branch.bare, Option.map_none, hb]

/-- The body of a branch. -/
theorem reads_body (hspell : Ieee.IsSpelling spell) (b : Branch) (h : b.WellFormed) {room : Nat}
    (hroom : b.room ≤ room) (d : Nat) {N : Option Token.Kind → Prop} :
    Reads (.indent :: (stream (d + 1) (Stmt.linesOfBlock spell (d + 1) b.body) (d + 1) ++ [.dedent]))
      N (fun ss => Stmt.bareBlock ss = Stmt.bareBlock b.body) (block (statement room)) := by
  cases b with
  | mk line condition body =>
    have hroom' : Stmt.roomOfBlock body ≤ room := by
      cases condition <;> rw [Branch.room] at hroom <;> omega
    exact reads_block fun _ hrounds => reads_blockFrom hspell body h.2.2 hroom' (d + 1) hrounds

end

end Parse
end Shank
