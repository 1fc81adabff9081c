/-
# Programs are written line by line

What is parsed as a program is a row for each of its headings, in order: the
tokens of the heading, and the end of the line. All other tokens are layout
(`Rows`).

| what is parsed | its headings |
| --- | --- |
| a function | its own, those of its declarations, those of its body |
| a block | for each statement its own, then those inside of it (`Stmt.headingsOfBlock`) |
| an if chain | its own, which is its first branch's; each other branch's, in front of those of its body |

A parser `Eats` tokens of which something holds together with what it gives.
What parsers within a line eat are headings, and what the others eat are rows of
them; so all of a program's tokens are rows of its headings
(`Parsing.exists_rows`).
-/

import Shank.Proofs.Parse.Advance
import Shank.Proofs.Parse.Inline
import Shank.Proofs.Parse.Inversion

namespace Shank

/-! ## Rows

Tokens are rows of headings if they are layout, a heading, the end of a line,
layout, and so on. Rows may be put behind rows, and layout may be put in front
of them, which is all that is needed to build them.
-/

/-- Tokens that tell of lines and depths only. -/
def AllLayout (ts : List Token) : Prop :=
  ∀ t ∈ ts, t.kind.IsLayout

/-- No tokens are all layout. -/
@[simp] theorem allLayout_nil : AllLayout [] :=
  List.forall_mem_nil _

/-- A token and others are layout if it is and they are. -/
@[simp] theorem allLayout_cons {t : Token} {ts : List Token} :
    AllLayout (t :: ts) ↔ t.kind.IsLayout ∧ AllLayout ts :=
  List.forall_mem_cons

/-- Two lists of tokens are layout if both are. -/
@[simp] theorem allLayout_append {ts us : List Token} :
    AllLayout (ts ++ us) ↔ AllLayout ts ∧ AllLayout us :=
  List.forall_mem_append

/-- The tokens are a row for each of the headings: layout, the heading, and the
end of its line. -/
inductive Rows : List Token → List Heading → Prop
  | nil {ts : List Token} (h : AllLayout ts) : Rows ts []
  | cons {gap ts us : List Token} {last : Token} {h : Heading} {hs : List Heading}
      (hgap : AllLayout gap) (written : h.Written ts) (hlast : last.kind = .endOfLine)
      (more : Rows us hs) : Rows (gap ++ ts ++ last :: us) (h :: hs)

/-- The end of a line, and layout behind it. -/
def LineEnd (ts : List Token) : Prop :=
  ∃ t us, ts = t :: us ∧ t.kind = .endOfLine ∧ AllLayout us

namespace Rows

variable {ts us es : List Token} {h : Heading} {hs hs' : List Heading}

/-- Layout may stand in front of rows. -/
theorem gap (hts : AllLayout ts) (hus : Rows us hs) : Rows (ts ++ us) hs := by
  cases hus with
  | nil hus => exact .nil (allLayout_append.2 ⟨hts, hus⟩)
  | cons hgap written hlast more =>
    rw [← List.append_assoc, ← List.append_assoc]
    exact .cons (allLayout_append.2 ⟨hts, hgap⟩) written hlast more

/-- Rows may stand in front of rows. -/
theorem append (hts : Rows ts hs) (hus : Rows us hs') : Rows (ts ++ us) (hs ++ hs') := by
  induction hts with
  | nil hts => exact hus.gap hts
  | cons hgap written hlast _ ih =>
    rw [List.append_assoc, List.cons_append, List.cons_append]
    exact .cons hgap written hlast ih

/-- A heading with the end of its line stands in front of other rows. -/
theorem line (written : h.Written ts) (hes : LineEnd es) (hus : Rows us hs) :
    Rows (ts ++ (es ++ us)) (h :: hs) := by
  obtain ⟨t, gap, rfl, ht, hgap⟩ := hes
  exact .cons allLayout_nil written ht (hus.gap hgap)

end Rows

/-! ## Headings of a program

The headings that a tree asks for, in the order in which they stand in a text.
The first branch of an if chain shares the line of its statement, so it has no
heading of its own.
-/

mutual

/-- The headings inside of a statement. The first branch of a chain has none of
its own. -/
def Stmt.headingsInside : Stmt → List Heading
  | .assign _ _ _ => []
  | .ifChain _ branches => (Branch.headingsOfChain branches).tail
  | .whileLoop _ _ body => Stmt.headingsOfBlock body
  | .repeatLoop _ _ body => Stmt.headingsOfBlock body
  | .forLoop _ _ _ _ _ body => Stmt.headingsOfBlock body
  | .call _ _ _ => []

/-- The headings of the statements of a block, each in front of those inside of
it. -/
def Stmt.headingsOfBlock : List Stmt → List Heading
  | [] => []
  | s :: rest => .statement s :: (Stmt.headingsInside s ++ Stmt.headingsOfBlock rest)

/-- The headings inside of a branch. -/
def Branch.headingsInside : Branch → List Heading
  | .mk _ _ body => Stmt.headingsOfBlock body

/-- The headings of branches, each in front of those inside of it. -/
def Branch.headingsOfChain : List Branch → List Heading
  | [] => []
  | b :: rest => .branch b :: (Branch.headingsInside b ++ Branch.headingsOfChain rest)

end

/-- The headings of a function whose declarations are on so many lines. -/
def Function.headings (f : Function) (declared : List (List Local)) : List Heading :=
  .function f :: (declared.map .locals ++ Stmt.headingsOfBlock f.body)

/-- The headings of a function, on whatever lines its declarations are. -/
def Function.Headed (f : Function) (hs : List Heading) : Prop :=
  ∃ declared : List (List Local), declared.flatten = f.locals ∧ hs = f.headings declared

/-- The headings of a statement. -/
def Stmt.headings (s : Stmt) : List Heading :=
  .statement s :: s.headingsInside

namespace Parse

variable {α β : Type} {ts us rest : List Token} {room line : Nat} {hs : List Heading}

/-! ## Eating

A parser eats its tokens when they satisfy a property together with what it
gives. In contrast to `Takes`, the level may change on the way, as it does in a
block.
-/

/-- A parser eats tokens of which `P` holds, together with what it gives. -/
def Eats (x : Parse α) (P : List Token → α → Prop) : Prop :=
  ∀ c a c', x c = .ok a c' → ∃ ts, c.rest = ts ++ c'.rest ∧ P ts a

variable {P : List Token → α → Prop} {Q : List Token → β → Prop}

/-- What a parser takes on its line it eats. -/
theorem Takes.eats {x : Parse α} (h : Takes x P) : Eats x P := by
  intro c a c' hx
  obtain ⟨ts, hts, -, hP⟩ := h c a c' hx
  exact ⟨ts, hts, hP⟩

/-- A parser eats tokens of which less is said. -/
theorem Eats.mono {x : Parse α} {P' : List Token → α → Prop} (h : Eats x P)
    (hP : ∀ ts a, P ts a → P' ts a) : Eats x P' := by
  intro c a c' hx
  obtain ⟨ts, hts, h⟩ := h c a c' hx
  exact ⟨ts, hts, hP ts a h⟩

/-- A parser that takes nothing eats no tokens. -/
theorem eats_pure {a : α} (h : P [] a) : Eats (pure a) P :=
  (takes_pure h).eats

/-- **Two parsers in a row eat the tokens of both**, one behind the other. -/
theorem Eats.bind {x : Parse α} {f : α → Parse β} (hx : Eats x P)
    (hf : ∀ ts a, P ts a → Eats (f a) fun us b => Q (ts ++ us) b) : Eats (x >>= f) Q := by
  intro c b c' h
  obtain ⟨a, c₁, ha, hb⟩ := bind_ok h
  obtain ⟨ts, hts, hP⟩ := hx c a c₁ ha
  obtain ⟨us, hus, hQ⟩ := hf ts a hP c₁ b c' hb
  exact ⟨ts ++ us, by rw [hts, hus, List.append_assoc], hQ⟩

/-- A token that has to come is eaten, also one that leads to another level. -/
theorem eats_expect (kind : Token.Kind) (item : Item) :
    Eats (expect kind item) fun ts t => ts = [t] ∧ t.kind = kind := by
  rintro ⟨ts, level⟩ t c' h
  obtain ⟨rest, rfl, ht, rfl⟩ := expect_ok h
  exact ⟨[t], rfl, rfl, ht⟩

/-- Line ends that are skipped are layout. -/
theorem eats_skipLineEnds : Eats skipLineEnds fun ts _ => AllLayout ts := by
  rintro c _ _ ⟨⟩
  refine ⟨c.rest.takeWhile fun t => t.kind == .endOfLine, List.takeWhile_append_dropWhile.symm,
    fun t ht => ?_⟩
  have hkind : t.kind = .endOfLine := by simpa using List.mem_takeWhile_imp ht
  rw [hkind]
  decide

/-- The end of a line is eaten with the line ends behind it. -/
theorem eats_endLine : Eats endLine fun ts _ => LineEnd ts := by
  refine (eats_expect _ _).bind fun _ t ⟨hts, ht⟩ => ?_
  subst hts
  intro c a c' h
  obtain ⟨us, hus, hlayout⟩ := eats_skipLineEnds c a c' h
  exact ⟨us, hus, t, us, rfl, ht, hlayout⟩

/-! ## If chains

A branch is a word, a condition, the end of the line, and a body. Its heading
differs with the word in front, so that is left open until the chain is put
together.
-/

variable {body : Parse (List Stmt)}

/-- What stands behind the word of a branch: its condition, and the rows of its
body. -/
inductive BranchRest (line : Nat) : List Token → Branch → Prop
  | mk {ts es us : List Token} {thenWord : Token} {condition : Expr} {body : List Stmt}
      (h : Derives .condition ts condition) (hthen : thenWord.kind = .then_) (hend : LineEnd es)
      (hbody : Rows us (Stmt.headingsOfBlock body)) :
      BranchRest line (ts ++ thenWord :: (es ++ us)) (.mk line (some condition) body)

/-- With words in front that make a heading `H b` of the condition, it is the
rows of the branch `b`. -/
theorem BranchRest.rows {w : List Token} {H : Branch → Heading} {b : Branch} (h : BranchRest line ts b)
    (hwritten : ∀ us t e ss, t.kind = .then_ → Derives .condition us e →
      (H (.mk line (some e) ss)).Written (w ++ (us ++ [t]))) (hrest : Rows rest hs) :
    Rows (w ++ (ts ++ rest)) (H b :: (b.headingsInside ++ hs)) := by
  cases h with
  | @mk ts es us thenWord e ss h hthen hend hbody =>
    have hrow := Rows.line (hwritten ts thenWord e ss hthen h) hend (hbody.append hrest)
    simpa [Branch.headingsInside] using hrow

/-- A branch is eaten if its body is: its condition, the end of the line, and
the rows of the body. -/
theorem eats_branch (hbody : Eats body fun ts ss => Rows ts (Stmt.headingsOfBlock ss)) :
    Eats (branch room body line) (BranchRest line) := by
  refine (takes_condition room).eats.bind fun ts condition hcondition => ?_
  refine (eats_expect _ _).bind fun _ thenWord ⟨hts, hthen⟩ => ?_
  refine eats_endLine.bind fun es _ hend => hbody.bind fun us ss hss => eats_pure ?_
  subst hts
  simpa using BranchRest.mk hcondition hthen hend hss

/-- The branches after the first, each with the word that it starts with. -/
theorem eats_moreBranches (hbody : Eats body fun ts ss => Rows ts (Stmt.headingsOfBlock ss))
    (rounds : List Token) : Eats (moreBranches room body rounds) fun ts bs =>
      Rows ts (Branch.headingsOfChain bs) := by
  have hend : Eats (pure []) fun ts bs => Rows ts (Branch.headingsOfChain bs) :=
    eats_pure (.nil allLayout_nil)
  induction rounds with
  | nil => exact hend
  | cons _ rounds ih =>
    refine (takes_take? (by decide)).eats.bind fun ts elsif helsif => ?_
    cases elsif with
    | some t =>
      obtain ⟨rfl, ht⟩ := helsif
      refine (eats_branch hbody).bind fun us b hb => ih.bind fun vs bs hbs => eats_pure ?_
      rw [List.append_nil]
      exact BranchRest.rows (w := [t]) hb (fun _ _ _ _ hthen h => .elsif ht hthen h) hbs
    | none =>
      obtain rfl : ts = [] := helsif
      refine (takes_take? (by decide)).eats.bind fun ts else_ helse => ?_
      cases else_ with
      | none =>
        obtain rfl : ts = [] := helse
        exact hend
      | some e =>
        obtain ⟨rfl, he⟩ := helse
        refine (takes_take? (by decide)).eats.bind fun ts if_ hif => ?_
        cases if_ with
        -- an `else if` starts the row with two words
        | some t =>
          obtain ⟨rfl, ht⟩ := hif
          refine (eats_branch hbody).bind fun us b hb => ih.bind fun vs bs hbs => eats_pure ?_
          rw [List.append_nil]
          exact BranchRest.rows (w := [e, t]) hb (fun _ _ _ _ hthen h => .elseIf he ht hthen h) hbs
        | none =>
          obtain rfl : ts = [] := hif
          refine eats_endLine.bind fun es _ hes => hbody.bind fun us ss hss => eats_pure ?_
          simpa [Branch.headingsOfChain, Branch.headingsInside] using Rows.line (.else_ he) hes hss

/-! ## Statements

Each statement is its first line, and then the rows of its blocks. What is
behind the first token is shown to complete that line.
-/

variable {word name : Token}

/-- What is behind the first token of a statement makes, with it, the rows of
the statement. -/
def RowsBehind (word : Token) (ts : List Token) (s : Stmt) : Prop :=
  Rows (word :: ts) s.headings

/-- An if chain is made of the rows of its headings. Its own heading is that of
its first branch. -/
theorem eats_ifChain (hbody : Eats body fun ts ss => Rows ts (Stmt.headingsOfBlock ss))
    (hk : word.kind = .if_) : Eats (ifChain room body word.line) (RowsBehind word) := by
  refine (eats_branch hbody).bind fun ts b hb => takes_remaining.eats.bind fun _ rounds hnil => ?_
  subst hnil
  refine (eats_moreBranches hbody rounds).bind fun us bs hbs => eats_pure ?_
  rw [RowsBehind, List.append_nil, List.nil_append]
  exact BranchRest.rows (w := [word]) (H := fun b => .statement (.ifChain word.line (b :: bs))) hb
    (fun _ _ _ _ hthen h => .ifChain hk hthen h) hbs

/-- A `while` loop is made of the rows of its headings. -/
theorem eats_whileLoop (hbody : Eats body fun ts ss => Rows ts (Stmt.headingsOfBlock ss))
    (hk : word.kind = .while_) : Eats (whileLoop room body word.line) (RowsBehind word) := by
  refine (takes_condition room).eats.bind fun ts condition hcondition => ?_
  refine eats_endLine.bind fun es _ hend => hbody.bind fun us ss hss => eats_pure ?_
  rw [List.append_nil]
  exact Rows.line (.whileLoop hk hcondition) hend hss

/-- A `repeat` loop is made of the rows of its headings. -/
theorem eats_repeatLoop (hbody : Eats body fun ts ss => Rows ts (Stmt.headingsOfBlock ss))
    (hk : word.kind = .repeat_) : Eats (repeatLoop room body word.line) (RowsBehind word) := by
  refine (eats_expect _ _).bind fun _ untilWord ⟨hts, huntil⟩ => ?_
  refine (takes_condition room).eats.bind fun ts condition hcondition => ?_
  refine eats_endLine.bind fun es _ hend => hbody.bind fun us ss hss => eats_pure ?_
  subst hts
  rw [List.append_nil]
  exact Rows.line (.repeatLoop hk huntil hcondition) hend hss

/-- A `for` loop is made of the rows of its headings. -/
theorem eats_forLoop (hbody : Eats body fun ts ss => Rows ts (Stmt.headingsOfBlock ss))
    (hk : word.kind = .for_) : Eats (forLoop room body word.line) (RowsBehind word) := by
  refine (eats_expect _ _).bind fun _ name ⟨hname, hidentifier⟩ => ?_
  refine (eats_expect _ _).bind fun _ fromWord ⟨hfromWord, hfrom⟩ => ?_
  refine (takes_expression room).eats.bind fun ts start hstart => ?_
  refine (eats_expect _ _).bind fun _ toWord ⟨htoWord, hto⟩ => ?_
  refine (takes_expression room).eats.bind fun us stop hstop => ?_
  refine eats_endLine.bind fun es _ hend => hbody.bind fun vs ss hss => eats_pure ?_
  subst hname hfromWord htoWord
  have hwritten : Heading.Written (word :: name :: fromWord :: (ts ++ toWord :: us))
      (.statement (.forLoop word.line name.text name.line start stop ss)) :=
    .forLoop hk hidentifier hfrom hto hstart hstop
  simpa [RowsBehind, Stmt.headings, Stmt.headingsInside] using Rows.line hwritten hend hss

/-- What may stand behind the name of a target: nothing, or an index in
brackets. -/
inductive IndexWritten : List Token → Option Expr → Prop
  | none : IndexWritten [] none
  | some {opening closing : Token} {ts : List Token} {index : Expr} (opens : opening.kind = .openBracket)
      (closes : closing.kind = .closeBracket) (h : Derives .expression ts index) :
      IndexWritten (opening :: (ts ++ [closing])) (some index)

/-- A name, what stands behind it as an index, `:=` and a value are the heading
of an assignment. -/
theorem IndexWritten.assign {op : Token} {index : Option Expr} {value : Expr} (h : IndexWritten ts index)
    (hk : name.kind = .identifier) (assigns : op.kind = .assigner) (hvalue : Derives .condition us value) :
    Heading.Written (name :: (ts ++ op :: us))
      (.statement (.assign name.line ⟨name.line, name.text, index⟩ value)) := by
  cases h with
  | none => exact .assign hk assigns hvalue
  | some opens closes h =>
    rw [List.cons_append, List.append_assoc]
    exact .assignElement hk opens closes assigns h hvalue

/-- An assignment is one row. -/
theorem eats_assignment (hk : name.kind = .identifier) :
    Eats (assignment room name) (RowsBehind name) := by
  refine (takes_take? (by decide)).eats.bind fun ts bracket hbracket => ?_
  -- the row goes on behind the index, if there is one
  have hrest (index : Option Expr) : Eats (expect .assigner .assigner >>= fun _ =>
      condition room >>= fun value => endLine >>= fun _ =>
        pure (Stmt.assign name.line ⟨name.line, name.text, index⟩ value))
      fun us s => ∀ ts, IndexWritten ts index → RowsBehind name (ts ++ us) s := by
    refine (eats_expect _ _).bind fun _ op ⟨hop, hassigns⟩ => ?_
    refine (takes_condition room).eats.bind fun vs value hvalue => ?_
    refine eats_endLine.bind fun es _ hend => eats_pure fun ts hindex => ?_
    subst hop
    have hrow := Rows.line (hindex.assign hk hassigns hvalue) hend (.nil allLayout_nil)
    simpa [RowsBehind, Stmt.headings, Stmt.headingsInside] using hrow
  cases bracket with
  | none =>
    obtain rfl : ts = [] := hbracket
    exact (hrest none).mono fun us s hs => hs [] .none
  | some opening =>
    obtain ⟨rfl, hopening⟩ := hbracket
    refine (takes_expression room).eats.bind fun us e he => ?_
    refine (eats_expect _ _).bind fun _ closing ⟨hclosing, hcloses⟩ => ?_
    subst hclosing
    refine (hrest (some e)).mono fun vs s hs => ?_
    simpa using hs _ (.some hopening hcloses he)

/-- A call is one row. -/
theorem eats_call (hk : name.kind = .identifier) : Eats (call room name) (RowsBehind name) := by
  refine (takes_arguments room).eats.bind fun ts args hargs => eats_endLine.bind fun es _ hend => ?_
  refine eats_pure ?_
  have hwritten : Heading.Written (name :: ts) (.statement (.call name.line name.text args)) := by
    rcases hargs with ⟨rfl, rfl⟩ | hargs
    · exact .callPlain hk
    · exact .call hk hargs
  exact Rows.line hwritten hend (.nil allLayout_nil)

/-- A statement that starts with a name is one row, whichever of the two it is. -/
theorem eats_nameStatement (hk : name.kind = .identifier) :
    Eats (nameStatement room name) (RowsBehind name) := by
  refine takes_peek.eats.bind fun _ next hnil => ?_
  subst hnil
  cases next with
  | none => exact eats_call hk
  | some next =>
    dsimp only
    split
    · exact eats_assignment hk
    · exact eats_call hk

/-- The statements of a block are made of the rows of their headings. Its
`DEDENT`, and the line ends between statements, are layout. The induction is on
the rounds. -/
theorem eats_blockFrom {st : Parse Stmt} (hst : Eats st fun ts s => Rows ts s.headings)
    (rounds : List Token) :
    Eats (blockFrom st rounds) fun ts ss => Rows ts (Stmt.headingsOfBlock ss) := by
  have hend : Rows [] (Stmt.headingsOfBlock []) := .nil allLayout_nil
  induction rounds with
  | nil => exact eats_pure hend
  | cons r rounds ih =>
    rintro ⟨rest, level⟩ ss c' h
    cases rest with
    | nil =>
      rw [blockFrom_nil] at h
      cases h
      exact ⟨[], rfl, hend⟩
    | cons t rest =>
      by_cases heol : t.kind = .endOfLine
      · rw [blockFrom_lineEnd _ _ _ _ heol] at h
        obtain ⟨ts, hts, hrows⟩ := ih _ ss c' h
        have ht : AllLayout [t] := by simp [heol, Token.Kind.IsLayout]
        exact ⟨t :: ts, congrArg (t :: ·) hts, hrows.gap ht⟩
      · rw [blockFrom_cons _ _ _ _ heol] at h
        split at h
        · rename_i hdedent
          cases h
          exact ⟨[t], rfl, .nil (by simp [hdedent, Token.Kind.IsLayout])⟩
        -- a statement gives its rows, and those of the others come behind them
        · have hround : Eats (st >>= fun s => blockFrom st rounds >>= fun ss => pure (s :: ss))
              fun ts ss => Rows ts (Stmt.headingsOfBlock ss) :=
            hst.bind fun ts s hs => ih.bind fun us ss hss => eats_pure (by
              simpa [Stmt.headingsOfBlock, Stmt.headings] using hs.append hss)
          exact hround _ ss c' h

/-- **A block is made of the rows of its headings**, with its `INDENT` as layout
in front. -/
theorem eats_block {st : Parse Stmt} (hst : Eats st fun ts s => Rows ts s.headings) :
    Eats (block st) fun ts ss => Rows ts (Stmt.headingsOfBlock ss) := by
  refine (eats_expect _ _).bind fun _ indent ⟨hts, hk⟩ => takes_remaining.eats.bind fun _ rounds hnil => ?_
  subst hts hnil
  intro c ss c' h
  obtain ⟨us, hus, hrows⟩ := eats_blockFrom hst rounds c ss c' h
  have hindent : AllLayout [indent] := by simp [hk, Token.Kind.IsLayout]
  exact ⟨us, hus, hrows.gap hindent⟩

/-- **A statement is parsed from the rows of its headings.** -/
theorem eats_statement (room : Nat) : Eats (statement room) fun ts s => Rows ts s.headings := by
  induction room using Nat.strong_induction_on with
  | h room ih =>
    rintro ⟨ts, level⟩ s c' h
    obtain ⟨k, t, rest, x, rfl, rfl, hx, hs⟩ := statement_ok h
    have hbehind : Eats x (RowsBehind t) := by
      cases hx with
      | ifChain hk => exact eats_ifChain (eats_block (ih _ (by omega))) hk
      | whileLoop hk => exact eats_whileLoop (eats_block (ih _ (by omega))) hk
      | forLoop hk => exact eats_forLoop (eats_block (ih _ (by omega))) hk
      | repeatLoop hk => exact eats_repeatLoop (eats_block (ih _ (by omega))) hk
      | nameStatement hk => exact eats_nameStatement hk
    obtain ⟨us, hus, hrows⟩ := hbehind _ s c' hs
    exact ⟨t :: us, congrArg (t :: ·) hus, hrows⟩

/-! ## Functions

The head of a function is the heading of the first row. Its declarations are one
row for each list, whatever number of variables that declares.
-/

/-- Each list of declarations is on a line of its own. What one list declares
are several declarations, so they are told as a list of lists. -/
theorem eats_localsFrom (rounds : List Token) : Eats (localsFrom rounds) fun ts ds =>
    ∃ declared : List (List Local), declared.flatten = ds ∧ Rows ts (declared.map .locals) := by
  have hend : Eats (pure []) fun ts ds =>
      ∃ declared : List (List Local), declared.flatten = ds ∧ Rows ts (declared.map .locals) :=
    eats_pure ⟨[], rfl, .nil allLayout_nil⟩
  induction rounds with
  | nil => exact hend
  | cons _ rounds ih =>
    refine (takes_take? (by decide)).eats.bind fun ts constants hconstants => ?_
    cases constants with
    | some word =>
      obtain ⟨rfl, hk⟩ := hconstants
      refine (takes_constantGroup.groups _).eats.bind fun ts cs hcs => ?_
      refine eats_endLine.bind fun es _ hend => ih.bind fun us ds ⟨declared, hds, hrows⟩ => eats_pure ?_
      refine ⟨cs.map .constant :: declared, by simp [hds], ?_⟩
      simpa using Rows.line (.constants_ hk hcs) hend hrows
    | none =>
      obtain rfl : ts = [] := hconstants
      refine (takes_take? (by decide)).eats.bind fun ts variables_ hvariables => ?_
      cases variables_ with
      | some word =>
        obtain ⟨rfl, hk⟩ := hvariables
        refine (takes_variableGroup.groups _).eats.bind fun ts vs hvs => ?_
        refine eats_endLine.bind fun es _ hend => ih.bind fun us ds ⟨declared, hds, hrows⟩ => eats_pure ?_
        refine ⟨vs.map .var :: declared, by simp [hds], ?_⟩
        simpa using Rows.line (.variables_ hk hvs) hend hrows
      | none =>
        obtain rfl : ts = [] := hvariables
        exact hend

/-- **A function is parsed from the rows of its headings.** The head is the
first row; the declarations and the block are the others. -/
theorem eats_function (room : Nat) : Eats (function room) fun ts f =>
    ∃ hs, f.Headed hs ∧ Rows ts hs := by
  refine (eats_expect _ _).bind fun _ define ⟨hdefineWord, hdefine⟩ => ?_
  refine (eats_expect _ _).bind fun _ name ⟨hnameWord, hname⟩ => ?_
  refine (eats_expect _ _).bind fun _ opening ⟨hopening, hopens⟩ => ?_
  refine (takes_variableGroup.groups _).eats.bind fun ts parameters hparameters => ?_
  refine (eats_expect _ _).bind fun _ closing ⟨hclosing, hcloses⟩ => ?_
  refine eats_endLine.bind fun es _ hend => takes_remaining.eats.bind fun _ rounds hnil => ?_
  refine (eats_localsFrom rounds).bind fun us locals ⟨declared, hlocals, hrows⟩ => ?_
  subst hdefineWord hnameWord hopening hclosing hnil
  -- with or without a block, the rows are put together in the same way
  have hmade {vs : List Token} {body : List Stmt} (hbody : Rows vs (Stmt.headingsOfBlock body)) :
      ∃ hs, Function.Headed ⟨define.line, name.text, parameters, locals, body⟩ hs ∧
        Rows (define :: name :: opening :: (ts ++ (closing :: (es ++ (us ++ vs))))) hs := by
    refine ⟨_, ⟨declared, hlocals, rfl⟩, ?_⟩
    have hrow := Rows.line (.function (f := ⟨define.line, name.text, parameters, locals, body⟩) hdefine
      hname hopens hcloses rfl rfl hparameters) hend (hrows.append hbody)
    simpa [Function.headings] using hrow
  refine (takes_at _).eats.bind fun _ indented hnil => ?_
  subst hnil
  split
  · refine (eats_block (eats_statement room)).bind fun vs body hbody => eats_pure ?_
    simpa using hmade hbody
  · refine eats_pure ?_
    simpa using @hmade [] [] (.nil allLayout_nil)

end Parse

open Parse

/-! ## Programs

Between two functions there may be line ends, which are layout. So the rows of
all functions are the rows of the program, up to where the parser stops.
-/

namespace Parsing

variable {room : Nat} {tokens : List Token}

/-- A function and the line ends behind it are rows. -/
theorem eats_round (room : Nat) :
    Eats (do let f ← function room; skipLineEnds; pure f) fun ts f => ∃ hs, f.Headed hs ∧ Rows ts hs := by
  refine (eats_function room).bind fun ts f ⟨hs, hheaded, hrows⟩ => ?_
  refine eats_skipLineEnds.bind fun us _ hus => eats_pure ⟨hs, hheaded, ?_⟩
  simpa using hrows.append (.nil hus)

/-- Functions that are parsed without a fault are rows, as far as the tokens
were taken. -/
theorem functionsFrom_rows (rounds : List Token) (c : Cursor)
    (h : (functionsFrom room rounds c).halt = none) :
    ∃ ts gs, c.rest = ts ++ (functionsFrom room rounds c).stop.rest ∧
      List.Forall₂ Function.Headed (functionsFrom room rounds c).functions gs ∧ Rows ts gs.flatten := by
  have hend (c : Cursor) : ∃ ts gs, c.rest = ts ++ c.rest ∧ List.Forall₂ Function.Headed [] gs ∧
      Rows ts gs.flatten := ⟨[], [], rfl, .nil, .nil allLayout_nil⟩
  induction rounds generalizing c with
  | nil => exact hend c
  | cons _ rounds ih =>
    unfold functionsFrom at h ⊢
    split at h
    · rename_i hrest
      rw [if_pos hrest]
      exact hend c
    · rename_i hrest
      rw [if_neg hrest]
      split at h
      -- the rows of a function come before those of the others
      · rename_i f c' hf
        obtain ⟨ts, hts, hs, hheaded, hrows⟩ := eats_round room c f c' hf
        obtain ⟨us, gs, hus, hall, hmore⟩ := ih c' h
        exact ⟨ts ++ us, hs :: gs, by rw [hts, hus, List.append_assoc], .cons hheaded hall,
          hrows.append hmore⟩
      · cases h

/-- **What is parsed without a fault is rows of headings**, those of one
function after those of another. -/
theorem exists_rows (h : (ofTokens tokens room).halt = none) :
    ∃ gs, List.Forall₂ Function.Headed (ofTokens tokens room).functions gs ∧ Rows tokens gs.flatten := by
  obtain ⟨gap, hgap, hlayout⟩ := eats_skipLineEnds ⟨tokens, 0⟩ () _ rfl
  obtain ⟨ts, gs, hts, hheaded, hrows⟩ := functionsFrom_rows _ _ h
  have hstop := congrArg Cursor.rest (stop_eq h)
  refine ⟨gs, hheaded, ?_⟩
  obtain rfl : tokens = gap ++ ts := by
    refine hgap.trans (congrArg (gap ++ ·) (hts.trans ?_))
    exact (congrArg (ts ++ ·) hstop).trans (List.append_nil ts)
  exact hrows.gap hlayout

end Parsing
end Shank
