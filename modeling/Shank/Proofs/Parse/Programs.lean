/-
# Programs are read back

Tokens for the lines of a well-formed program are accepted, and what they stand
for is this program, lines apart (`parse_of_lexemes`): the functions are read
one after the other, and since no two of them have one name, they stay in their
order.

The level is zero in front of each function and behind the last, so the level at
the end is that of a program.
-/

import Shank.Proofs.Definitions
import Shank.Proofs.Parse.Declarations
import Shank.Proofs.Parse.Statements

namespace Shank

/-- The room that a function takes. -/
def Function.room (f : Function) : Nat :=
  Stmt.roomOfBlock f.body

/-- The room that a program takes: as much as any function of it. -/
def Program.room (p : Program) : Nat :=
  (p.functions.map Function.room).foldr max 0

namespace Parse

open Token (balance)

variable {spell : Ieee → String} {room : Nat}

/-! ## Functions

A function is written as its head, a line for each declaration, and its body one
level higher. A body that is empty is not written at all.
-/

/-- The lexemes of local declarations, line by line, stand in front of those of
the body. -/
theorem stream_locals (locals : List Local) (rest : List Line) :
    stream 0 (locals.map (fun d => ⟨0, d.lexemes spell⟩) ++ rest) 0 =
      (locals.flatMap fun d => d.lexemes spell ++ [.lineEnd]) ++ stream 0 rest 0 := by
  induction locals with
  | nil => rfl
  | cons d locals ih =>
    rw [List.map_cons, List.cons_append, stream_cons_self, ih, List.flatMap_cons]
    simp only [List.append_assoc, List.cons_append, List.nil_append]

/-- What may come behind a function. -/
def afterFunction : List Token.Kind :=
  [.constants, .variables_, .endOfLine, .indent]

/-- What is written for the body of a function is read as this body. One that is
empty leaves no lexemes, and then no block is asked for. -/
theorem reads_functionBody (hspell : Ieee.IsSpelling spell) {body : List Stmt}
    (h : Stmt.WellFormedBlock body) (hroom : Stmt.roomOfBlock body ≤ room) {β : Type} {Q : β → Prop}
    {g : List Stmt → β} (hg : ∀ b, Stmt.bareBlock b = Stmt.bareBlock body → Q (g b)) :
    Reads (stream 0 (Stmt.linesOfBlock spell 1 body) 0) (NoneOf afterFunction) Q (do
      let body ← if ← at_ .indent then block (statement room) else pure []
      pure (g body)) := by
  cases body with
  | nil =>
    rw [Stmt.linesOfBlock, stream_nil_self]
    refine reads_at_bind (b := false) (fun k hk => ?_) (reads_pure (hg [] rfl))
    simpa [nextOf] using hk .indent (by decide)
  | cons s rest =>
    have hbody := reads_block (N := NoneOf afterFunction) fun _ hrounds =>
      reads_blockFrom hspell (s :: rest) h hroom 1 hrounds
    rw [stream_body (List.cons_ne_nil _ _) h]
    exact reads_at_bind (b := true) (fun _ _ => by simp [nextOf, Lexeme.indent]) (hbody.map hg)

/-- What is written for a body does not go on with the declarations in front of
it. -/
theorem starts_functionBody (spell : Ieee → String) {body : List Stmt} (h : Stmt.WellFormedBlock body)
    {k : Option Token.Kind} (hk : NoneOf afterFunction k) :
    NoneOf [.constants, .variables_, .endOfLine]
      (nextOf (stream 0 (Stmt.linesOfBlock spell 1 body) 0) k) := by
  cases body with
  | nil =>
    rw [Stmt.linesOfBlock, stream_nil_self]
    exact noneOf_mono (by decide) hk
  | cons s rest =>
    rw [stream_body (List.cons_ne_nil _ _) h]
    exact show NoneOf _ (some Token.Kind.indent) by decide

/-- **What is written for a function is read as this function.** The head is
read first, then the declarations up to the first word that starts none, then
the block if there is an indent. -/
theorem reads_function (hspell : Ieee.IsSpelling spell) {f : Function} (h : f.WellFormed)
    (hroom : f.room ≤ room) :
    Reads (stream 0 (f.lines spell) 0) (NoneOf afterFunction) (fun g => g.bare = f.bare)
      (function room) := by
  rw [Function.lines, stream_cons_self, stream_locals, Function.headLexemes]
  simp only [List.cons_append, List.append_assoc, List.nil_append]
  refine reads_expect_bind rfl fun _ _ => reads_expect_bind rfl fun n hn => ?_
  have hname : n.text = f.name := congrArg Lexeme.text hn
  refine reads_expect_bind rfl fun _ _ => ?_
  refine (reads_parameters hspell h.parameters).bind (fun vs hvs => reads_expect_bind rfl fun _ _ => ?_)
    fun _ _ => rfl
  refine reads_endLine_bind rfl (fun k hk => ?_) (reads_remaining_bind fun rounds hrounds _ => ?_)
  -- the line of the head is over, and what follows it starts no line that is empty
  · have hbody := starts_functionBody spell h.body hk
    cases hlocals : f.locals with
    | nil => exact hbody _ (by decide)
    | cons d rest => cases d <;> simp [Local.lexemes, nextOf]
  · rw [List.length_append] at hrounds
    refine (reads_locals hspell h.locals (by omega)).bind (fun ds hds => ?_)
      fun k hk => starts_functionBody spell h.body hk
    refine reads_functionBody hspell h.body hroom fun b hb => ?_
    simp only [Function.bare, hname, hvs, hds, hb]

/-! ## Programs

Functions are written one after the other on level zero. What was open is closed
by the `DEDENT`s in front of the next one, so each function is read up to there.
-/

/-- Functions start on level zero. -/
theorem depthOfFirst_functions (fs : List Function) :
    depthOfFirst (fs.flatMap (·.lines spell)) 0 = 0 := by
  cases fs <;> rfl

/-- The lexemes of functions are those of one after the other, as the next one
starts on level zero and so closes what is open. -/
theorem stream_functions (fs : List Function) :
    stream 0 (fs.flatMap (·.lines spell)) 0 = fs.flatMap fun f => stream 0 (f.lines spell) 0 := by
  induction fs with
  | nil => rfl
  | cons f rest ih =>
    rw [List.flatMap_cons, List.flatMap_cons, stream_append (Nat.le_refl 0)
      (fun _ _ => Nat.zero_le _) (depthOfFirst_functions rest).le, ih]

/-- What is written for a function starts with `define`. -/
theorem stream_function_cons (spell : Ieee → String) (f : Function) :
    ∃ ls, stream 0 (f.lines spell) 0 = ⟨.define, "define"⟩ :: ls := by
  rw [Function.lines, stream_cons_self, Function.headLexemes]
  exact ⟨_, rfl⟩

/-- Behind a function comes another one, or nothing. -/
theorem nextOf_functions (spell : Ieee → String) (fs : List Function) :
    nextOf (fs.flatMap fun f => stream 0 (f.lines spell) 0) none ∈ [none, some .define] := by
  cases fs with
  | nil => simp [nextOf]
  | cons f rest =>
    obtain ⟨ls, hls⟩ := stream_function_cons spell f
    rw [List.flatMap_cons, hls]
    simp [nextOf]

/-- **Functions are read one after the other**, each up to the word that starts
the next one. The level is told as well: it is what the tokens balance to. -/
theorem functionsFrom_of_lexemes (hspell : Ieee.IsSpelling spell) {fs : List Function}
    (h : ∀ f ∈ fs, f.WellFormed) (hroom : (fs.map Function.room).foldr max 0 ≤ room)
    (tokens rounds : List Token) (level : Int)
    (htokens : tokens.map Token.lexeme = fs.flatMap fun f => stream 0 (f.lines spell) 0)
    (hrounds : tokens.length ≤ rounds.length) :
    ∃ gs, Parsing.functionsFrom room rounds ⟨tokens, level⟩ =
        ⟨gs, none, ⟨[], level + balance tokens⟩⟩ ∧
      gs.map Function.bare = fs.map Function.bare := by
  induction fs generalizing tokens rounds level with
  | nil =>
    cases List.map_eq_nil_iff.1 htokens
    refine ⟨[], ?_, rfl⟩
    cases rounds <;> simp [Parsing.functionsFrom, balance]
  | cons f rest ih =>
    rw [List.flatMap_cons] at htokens
    rw [List.map_cons, List.foldr_cons] at hroom
    obtain ⟨us, vs, rfl, hus, hvs⟩ := List.map_eq_append_iff.1 htokens
    -- a function has a token, so this is a round
    obtain ⟨u, us, rfl⟩ : ∃ u us', us = u :: us' := by
      obtain ⟨ls, hls⟩ := stream_function_cons spell f
      rw [hls] at hus
      obtain ⟨u, us', rfl, -⟩ := List.map_eq_cons_iff.1 hus
      exact ⟨u, us', rfl⟩
    cases rounds with
    | nil => simp at hrounds
    | cons _ rounds =>
      have hread : Reads (stream 0 (f.lines spell) 0) (NoneOf afterFunction)
          (fun g => g.bare = f.bare) (do let f ← function room; skipLineEnds; pure f) := by
        rw [← List.append_nil (stream 0 (f.lines spell) 0)]
        exact (reads_function hspell (h f (List.mem_cons_self ..)) (by omega)).bind
          (fun g hg => reads_skipLineEnds_bind (fun k hk => hk _ (by decide)) (reads_pure hg))
          fun _ hk => hk
      -- behind a function comes another one, or nothing
      have hnext : NoneOf afterFunction (next vs) := by
        have hvs' : next vs = nextOf (rest.flatMap fun f => stream 0 (f.lines spell) 0) none := by
          rw [← List.append_nil vs, next_append hvs]
          rfl
        rw [hvs']
        exact (by decide : ∀ k ∈ [none, some .define], NoneOf afterFunction k) _
          (nextOf_functions spell rest)
      obtain ⟨g, hg, hbare⟩ := hread (u :: us) vs level hus hnext
      obtain ⟨gs, hgs, hbares⟩ := ih (fun f hf => h f (List.mem_cons_of_mem _ hf)) (by omega) vs
        rounds (level + balance (u :: us)) hvs (by
          simp only [List.length_append, List.length_cons] at hrounds
          omega)
      refine ⟨g :: gs, ?_, by rw [List.map_cons, List.map_cons, hbare, hbares]⟩
      rw [Parsing.functionsFrom]
      simp only [hg, hgs]
      rw [if_neg (by simp), Token.balance_append, add_assoc]

/-- **Tokens for the lines of a program are parsed as this program.** -/
theorem parse_of_lexemes (hspell : Ieee.IsSpelling spell) {p : Program} (h : p.WellFormed)
    (hroom : p.room ≤ room) {tokens : List Token}
    (htokens : tokens.map Token.lexeme = stream 0 (p.lines spell) 0) (hbalance : balance tokens = 0) :
    ∃ q, (Parsing.ofTokens tokens room).program = .ok q ∧ q.bare = p.bare := by
  rw [Program.lines, stream_functions] at htokens
  have hdrop : tokens.dropWhile (fun t => t.kind == .endOfLine) = tokens := by
    cases tokens with
    | nil => rfl
    | cons t ts =>
      have hk := nextOf_functions spell p.functions
      rw [← htokens] at hk
      -- a program starts with no line end, as its first line defines a function
      have hne : t.kind ≠ .endOfLine := by
        rintro he
        rw [List.map_cons, nextOf, show t.lexeme.kind = t.kind from rfl, he] at hk
        exact absurd hk (by decide)
      rw [List.dropWhile_cons_of_neg (by simpa using hne)]
  obtain ⟨gs, hgs, hbare⟩ := functionsFrom_of_lexemes hspell h.functions hroom tokens
    tokens 0 htokens (Nat.le_refl _)
  -- the names are those of the program, so no function replaces another one
  have hnames : (gs.map Function.name).Nodup := by
    have hmap : gs.map Function.name = p.functions.map Function.name := by
      have := congrArg (List.map Function.name) hbare
      rwa [List.map_map, List.map_map] at this
    rw [hmap]
    exact h.names
  refine ⟨⟨gs⟩, ?_, by rw [Program.bare, Program.bare, hbare]⟩
  rw [Parsing.ofTokens, hdrop]
  simp only [hgs, Parsing.program, hbalance, add_zero, if_true, Program.ofList_of_nodup hnames]

end Parse
end Shank
