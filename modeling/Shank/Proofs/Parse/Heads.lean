/-
# What is written on a line

A program is made of lines, and each line that is not empty holds one heading:

| heading | written |
| --- | --- |
| of a function | `define`, its name and its parameters |
| of declarations | `constants` or `variables`, and the declarations |
| of a statement | all of an assignment or a call; a loop or an if chain up to its first body |
| of a branch after the first | `elsif` or `else if` with a condition, or `else` |

`Heading.Written ts h`: the tokens `ts` are the heading `h`. No heading goes on
over the end of a line (`Heading.Written.inline`), and all nodes of a heading
whose tokens are on one line are on that line (`Heading.Written.onLine`).
-/

import Shank.Proofs.Parse.Grammar
import Shank.Proofs.Token.Depth

namespace Shank

/-! ## Nodes on a line

A node has the line of its first token. That all nodes of a heading are on one
line is therefore a statement about all tokens of it, and about every node of
the tree.
-/

/-- All nodes of an expression are on a line. -/
def Expr.OnLine (l : Nat) : Expr → Prop
  | literal line _ => line = l
  | var line _ => line = l
  | element line _ index => line = l ∧ index.OnLine l
  | arithmetic line _ left right => line = l ∧ left.OnLine l ∧ right.OnLine l
  | comparison line _ left right => line = l ∧ left.OnLine l ∧ right.OnLine l

/-- A target and its index are on a line. -/
def Target.OnLine (l : Nat) (t : Target) : Prop :=
  t.line = l ∧ ∀ e ∈ t.index, e.OnLine l

/-- An argument with what it holds is on a line. -/
def Argument.OnLine (l : Nat) : Argument → Prop
  | value line e => line = l ∧ e.OnLine l
  | reference line _ nameLine => line = l ∧ nameLine = l

/-- A branch and its condition are on a line. -/
def Branch.OnLine (l : Nat) (b : Branch) : Prop :=
  b.line = l ∧ ∀ e ∈ b.condition, e.OnLine l

/-- A statement and all nodes up to its first body are on a line. -/
def Stmt.OnLine (l : Nat) : Stmt → Prop
  | assign line target value => line = l ∧ target.OnLine l ∧ value.OnLine l
  | ifChain line branches => line = l ∧ ∀ b ∈ branches.head?, b.OnLine l
  | whileLoop line condition _ => line = l ∧ condition.OnLine l
  | repeatLoop line condition _ => line = l ∧ condition.OnLine l
  | forLoop line _ nameLine start stop _ => line = l ∧ nameLine = l ∧ start.OnLine l ∧ stop.OnLine l
  | call line _ arguments => line = l ∧ ∀ a ∈ arguments, a.OnLine l

/-- A declaration is on a line, and so is the literal of a constant. -/
def Local.OnLine (l : Nat) : Local → Prop
  | constant c => c.line = l ∧ c.valueLine = l
  | var v => v.line = l

/-- What is written on one line. -/
inductive Heading
  | function (f : Function)
  | locals (ds : List Local)
  | statement (s : Stmt)
  | branch (b : Branch)

/-- All nodes of a heading are on a line. -/
def Heading.OnLine (l : Nat) : Heading → Prop
  | function f => f.line = l ∧ ∀ v ∈ f.parameters, v.line = l
  | locals ds => ∀ d ∈ ds, d.OnLine l
  | statement s => s.OnLine l
  | branch b => b.OnLine l

/-! ## The grammar of headings

A heading is what stands on one line of a program: the head of a function, a
list of declarations, or a statement without its blocks. The grammar says which
tokens these are, as that of `Derives` does for expressions; of the type in a
declaration it only says that it stays within the line.
-/

/-- Items with a token of one kind between any two. -/
inductive Listed {α : Type} (separator : Token.Kind) (Item : List Token → α → Prop) :
    List Token → List α → Prop
  | one {ts : List Token} {a : α} (h : Item ts a) : Listed separator Item ts [a]
  | cons {ts us : List Token} {t : Token} {a : α} {as : List α} (h : Item ts a)
      (kind : t.kind = separator) (more : Listed separator Item us as) :
      Listed separator Item (ts ++ t :: us) (a :: as)

/-- Groups of declarations with semicolons between them; one more may stand at
the end. -/
inductive Grouped {α : Type} (Group : List Token → List α → Prop) : List Token → List α → Prop
  | nil : Grouped Group [] []
  | last {ts : List Token} {as : List α} (h : Group ts as) : Grouped Group ts as
  | cons {ts us : List Token} {t : Token} {as bs : List α} (h : Group ts as)
      (kind : t.kind = .semicolon) (more : Grouped Group us bs) :
      Grouped Group (ts ++ t :: us) (as ++ bs)

/-- Tokens that do not go over the end of a line. -/
def Inline (ts : List Token) : Prop :=
  ∀ t ∈ ts, ¬t.kind.IsLayout

/-- A name stands in one token. -/
def OneName (ts : List Token) (t : Token) : Prop :=
  ts = [t] ∧ t.kind = .identifier

/-- Variables of one type, perhaps with `var` in front. Of the type only that it
stands on the line. -/
inductive VariableGroup : List Token → List Variable → Prop
  | plain {ts type : List Token} {colon : Token} {names : List Token} {declared : DeclaredType}
      (hnames : Listed .comma OneName ts names) (kind : colon.kind = .colon) (htype : Inline type) :
      VariableGroup (ts ++ colon :: type)
        (names.map fun t => { line := t.line, name := t.text, type := declared, isVar := false })
  | var {word : Token} {ts type : List Token} {colon : Token} {names : List Token}
      {declared : DeclaredType} (var : word.kind = .var) (hnames : Listed .comma OneName ts names)
      (kind : colon.kind = .colon) (htype : Inline type) :
      VariableGroup (word :: (ts ++ colon :: type))
        (names.map fun t => { line := t.line, name := t.text, type := declared, isVar := true })

/-- Constants of one value. -/
inductive ConstantGroup : List Token → List Constant → Prop
  | mk {ts us : List Token} {equals : Token} {names : List Token} {valueLine : Nat} {value : Scalar}
      (hnames : Listed .comma OneName ts names) (kind : equals.kind = .equals)
      (hvalue : Derives .factor us (.literal valueLine value)) :
      ConstantGroup (ts ++ equals :: us)
        (names.map fun t => { line := t.line, name := t.text, value, valueLine })

/-- The grammar of arguments. -/
inductive Argument.Written : List Token → Argument → Prop
  | value {t : Token} {ts : List Token} {e : Expr} (h : Derives .condition (t :: ts) e) :
      Written (t :: ts) (.value t.line e)
  | reference {word name : Token} (var : word.kind = .var) (kind : name.kind = .identifier) :
      Written [word, name] (.reference word.line name.text name.line)

/-- The grammar of headings. -/
inductive Heading.Written : List Token → Heading → Prop
  | function {define name opening closing : Token} {ts : List Token} {f : Function}
      (hdefine : define.kind = .define) (hname : name.kind = .identifier)
      (opens : opening.kind = .openParen) (closes : closing.kind = .closeParen)
      (line : f.line = define.line) (text : f.name = name.text)
      (h : Grouped VariableGroup ts f.parameters) :
      Written (define :: name :: opening :: (ts ++ [closing])) (.function f)
  | constants_ {word : Token} {ts : List Token} {cs : List Constant} (kind : word.kind = .constants)
      (h : Grouped ConstantGroup ts cs) : Written (word :: ts) (.locals (cs.map .constant))
  | variables_ {word : Token} {ts : List Token} {vs : List Variable} (kind : word.kind = .variables_)
      (h : Grouped VariableGroup ts vs) : Written (word :: ts) (.locals (vs.map .var))
  | assign {name op : Token} {ts : List Token} {value : Expr} (kind : name.kind = .identifier)
      (assigns : op.kind = .assigner) (h : Derives .condition ts value) :
      Written (name :: op :: ts) (.statement (.assign name.line ⟨name.line, name.text, none⟩ value))
  | assignElement {name opening closing op : Token} {ts us : List Token} {index value : Expr}
      (kind : name.kind = .identifier) (opens : opening.kind = .openBracket)
      (closes : closing.kind = .closeBracket) (assigns : op.kind = .assigner)
      (hindex : Derives .expression ts index) (h : Derives .condition us value) :
      Written (name :: opening :: (ts ++ closing :: op :: us))
        (.statement (.assign name.line ⟨name.line, name.text, some index⟩ value))
  | callPlain {name : Token} (kind : name.kind = .identifier) :
      Written [name] (.statement (.call name.line name.text []))
  | call {name : Token} {ts : List Token} {args : List Argument} (kind : name.kind = .identifier)
      (h : Listed .comma Argument.Written ts args) :
      Written (name :: ts) (.statement (.call name.line name.text args))
  | whileLoop {word : Token} {ts : List Token} {condition : Expr} {body : List Stmt}
      (kind : word.kind = .while_) (h : Derives .condition ts condition) :
      Written (word :: ts) (.statement (.whileLoop word.line condition body))
  | repeatLoop {word untilWord : Token} {ts : List Token} {condition : Expr} {body : List Stmt}
      (kind : word.kind = .repeat_) (huntil : untilWord.kind = .until_)
      (h : Derives .condition ts condition) :
      Written (word :: untilWord :: ts) (.statement (.repeatLoop word.line condition body))
  | forLoop {word name fromWord toWord : Token} {ts us : List Token} {start stop : Expr} {body : List Stmt}
      (kind : word.kind = .for_) (hname : name.kind = .identifier) (hfrom : fromWord.kind = .from_)
      (hto : toWord.kind = .to_) (hstart : Derives .expression ts start)
      (hstop : Derives .expression us stop) :
      Written (word :: name :: fromWord :: (ts ++ toWord :: us))
        (.statement (.forLoop word.line name.text name.line start stop body))
  | ifChain {word thenWord : Token} {ts : List Token} {condition : Expr} {body : List Stmt}
      {branches : List Branch} (kind : word.kind = .if_) (hthen : thenWord.kind = .then_)
      (h : Derives .condition ts condition) :
      Written (word :: (ts ++ [thenWord]))
        (.statement (.ifChain word.line (.mk word.line (some condition) body :: branches)))
  | elsif {word thenWord : Token} {ts : List Token} {condition : Expr} {body : List Stmt}
      (kind : word.kind = .elsif) (hthen : thenWord.kind = .then_)
      (h : Derives .condition ts condition) :
      Written (word :: (ts ++ [thenWord])) (.branch (.mk word.line (some condition) body))
  | elseIf {word ifWord thenWord : Token} {ts : List Token} {condition : Expr} {body : List Stmt}
      (kind : word.kind = .else_) (hif : ifWord.kind = .if_) (hthen : thenWord.kind = .then_)
      (h : Derives .condition ts condition) :
      Written (word :: ifWord :: (ts ++ [thenWord])) (.branch (.mk ifWord.line (some condition) body))
  | else_ {word : Token} {body : List Stmt} (kind : word.kind = .else_) :
      Written [word] (.branch (.mk word.line none body))

/-! ## Headings stay within their line

No token of a heading ends a line or opens or closes a block. So a heading lies
between two line ends, and the tokens of a line hold no more than one.
-/

/-- No tokens stay within their line. -/
@[simp] theorem inline_nil : Inline [] :=
  List.forall_mem_nil _

/-- A token and others stay within their line if it is no layout and they do. -/
@[simp] theorem inline_cons {t : Token} {ts : List Token} :
    Inline (t :: ts) ↔ ¬t.kind.IsLayout ∧ Inline ts :=
  List.forall_mem_cons

/-- Two lists of tokens stay within their line if both do. -/
@[simp] theorem inline_append {ts us : List Token} : Inline (ts ++ us) ↔ Inline ts ∧ Inline us :=
  List.forall_mem_append

/-- An arithmetic operator is no layout. -/
@[simp] theorem ArithOp.not_isLayout (op : ArithOp) : ¬op.lexeme.kind.IsLayout := by
  cases op <;> decide

/-- A comparison is no layout. -/
@[simp] theorem CompareOp.not_isLayout (op : CompareOp) : ¬op.lexeme.kind.IsLayout := by
  cases op <;> decide

section Inline

variable {α : Type} {ts : List Token}

/-- A literal is no layout. -/
theorem Token.Denotes.not_isLayout {t : Token} {v : Scalar} (h : t.Denotes v) :
    ¬t.kind.IsLayout := by
  cases h <;> simp_all [Token.Kind.IsLayout]

/-- A phrase stays within its line. -/
theorem Derives.inline {p : Phrase} {e : Expr} (h : Derives p ts e) : Inline ts := by
  induction h with
  | literal denotes => simpa using denotes.not_isLayout
  | compare kind | sum _ kind | product _ kind => simp [*]
  | negative | name | element | parentheses => simp [Token.Kind.IsLayout, *]
  | plain _ ih | term _ ih | factor _ ih => exact ih

/-- Items with separators stay within their line if the items do, and the
separators are no layout. -/
theorem Listed.inline {separator : Token.Kind} {Item : List Token → α → Prop} {as : List α}
    (hseparator : ¬separator.IsLayout) (hitem : ∀ {ts a}, Item ts a → Inline ts)
    (h : Listed separator Item ts as) : Inline ts := by
  induction h with
  | one h => exact hitem h
  | cons h kind _ ih => simp [hitem h, kind, hseparator, ih]

/-- Groups with semicolons stay within their line if the groups do. -/
theorem Grouped.inline {Group : List Token → List α → Prop} {as : List α}
    (hgroup : ∀ {ts as}, Group ts as → Inline ts) (h : Grouped Group ts as) : Inline ts := by
  induction h with
  | nil => exact inline_nil
  | last h => exact hgroup h
  | cons h kind _ ih => simp [hgroup h, kind, Token.Kind.IsLayout, ih]

/-- A name stays within its line. -/
theorem OneName.inline {t : Token} (h : OneName ts t) : Inline ts := by
  obtain ⟨rfl, kind⟩ := h
  simp [kind, Token.Kind.IsLayout]

/-- A group of variables stays within its line, with its type. -/
theorem VariableGroup.inline {vs : List Variable} (h : VariableGroup ts vs) : Inline ts := by
  cases h with
  | plain hnames kind htype =>
    simp [hnames.inline (by decide) OneName.inline, kind, htype, Token.Kind.IsLayout]
  | var var hnames kind htype =>
    simp [hnames.inline (by decide) OneName.inline, var, kind, htype, Token.Kind.IsLayout]

/-- A group of constants stays within its line, with its literal. -/
theorem ConstantGroup.inline {cs : List Constant} (h : ConstantGroup ts cs) : Inline ts := by
  cases h with
  | mk hnames kind hvalue =>
    simp [hnames.inline (by decide) OneName.inline, kind, hvalue.inline, Token.Kind.IsLayout]

/-- An argument stays within its line. -/
theorem Argument.Written.inline {a : Argument} (h : a.Written ts) : Inline ts := by
  cases h with
  | value h => exact h.inline
  | reference var kind => simp [var, kind, Token.Kind.IsLayout]

/-- **No heading goes on over the end of a line.** -/
theorem Heading.Written.inline {h : Heading} (hw : h.Written ts) : Inline ts := by
  cases hw with
  | function hdefine hname opens closes _ _ h =>
    simp [hdefine, hname, opens, closes, h.inline VariableGroup.inline, Token.Kind.IsLayout]
  | constants_ kind h => simp [kind, h.inline ConstantGroup.inline, Token.Kind.IsLayout]
  | variables_ kind h => simp [kind, h.inline VariableGroup.inline, Token.Kind.IsLayout]
  | assign kind assigns h => simp [kind, assigns, h.inline, Token.Kind.IsLayout]
  | assignElement kind opens closes assigns hindex h =>
    simp [kind, opens, closes, assigns, hindex.inline, h.inline, Token.Kind.IsLayout]
  | callPlain kind | else_ kind => simp [kind, Token.Kind.IsLayout]
  | call kind h =>
    simp [kind, h.inline (by decide) Argument.Written.inline, Token.Kind.IsLayout]
  | whileLoop kind h => simp [kind, h.inline, Token.Kind.IsLayout]
  | repeatLoop kind huntil h => simp [kind, huntil, h.inline, Token.Kind.IsLayout]
  | forLoop kind hname hfrom hto hstart hstop =>
    simp [kind, hname, hfrom, hto, hstart.inline, hstop.inline, Token.Kind.IsLayout]
  | ifChain kind hthen h | elsif kind hthen h => simp [kind, hthen, h.inline, Token.Kind.IsLayout]
  | elseIf kind hif hthen h => simp [kind, hif, hthen, h.inline, Token.Kind.IsLayout]

/-- No heading is written with nothing. -/
theorem Heading.Written.ne_nil {h : Heading} (hw : h.Written ts) : ts ≠ [] := by
  cases hw <;> exact List.cons_ne_nil _ _

end Inline

/-! ## Nodes have the line of their tokens

What is parsed of tokens on one line has that line in all of its nodes. It takes
the line from its tokens, and these are all on it.
-/

section OnLine

variable {α : Type} {l : Nat} {ts : List Token}

/-- All tokens are on a line. -/
def AllOn (l : Nat) (ts : List Token) : Prop :=
  ∀ t ∈ ts, t.line = l

/-- No tokens are on every line. -/
@[simp] theorem allOn_nil : AllOn l [] :=
  List.forall_mem_nil _

/-- A token and others are on a line if it is and they are. -/
@[simp] theorem allOn_cons {t : Token} : AllOn l (t :: ts) ↔ t.line = l ∧ AllOn l ts :=
  List.forall_mem_cons

/-- Two lists of tokens are on a line if both are. -/
@[simp] theorem allOn_append {us : List Token} : AllOn l (ts ++ us) ↔ AllOn l ts ∧ AllOn l us :=
  List.forall_mem_append

/-- The nodes of a phrase are on the line of its tokens. -/
theorem Derives.onLine {p : Phrase} {e : Expr} (h : Derives p ts e) (hl : AllOn l ts) :
    e.OnLine l := by
  induction h with
  | compare _ _ _ ihleft ihright | sum _ _ _ _ ihleft ihright | product _ _ _ _ ihleft ihright =>
    simp only [allOn_append, allOn_cons] at hl
    exact ⟨hl.2.1, ihleft hl.1, ihright hl.2.2⟩
  | plain _ ih | term _ ih | factor _ ih => exact ih hl
  | literal | negative | name => exact (allOn_cons.1 hl).1
  | element _ _ _ _ ih =>
    simp only [allOn_append, allOn_cons] at hl
    exact ⟨hl.1, ih hl.2.2.1⟩
  | parentheses _ _ _ ih =>
    simp only [allOn_append, allOn_cons] at hl
    exact ih hl.2.1

/-- What holds of an item whose tokens are on a line holds of all items of a
list that is on it. -/
theorem Listed.allOn {separator : Token.Kind} {Item : List Token → α → Prop} {Q : α → Prop}
    {as : List α} (hitem : ∀ {ts a}, Item ts a → AllOn l ts → Q a) (h : Listed separator Item ts as)
    (hl : AllOn l ts) : ∀ a ∈ as, Q a := by
  induction h with
  | one h => simpa using hitem h hl
  | cons h _ _ ih =>
    simp only [allOn_append, allOn_cons] at hl
    exact List.forall_mem_cons.2 ⟨hitem h hl.1, ih hl.2.2⟩

/-- What holds of a group whose tokens are on a line holds of all groups that
are on it. -/
theorem Grouped.allOn {Group : List Token → List α → Prop} {Q : α → Prop} {as : List α}
    (hgroup : ∀ {ts as}, Group ts as → AllOn l ts → ∀ a ∈ as, Q a) (h : Grouped Group ts as)
    (hl : AllOn l ts) : ∀ a ∈ as, Q a := by
  induction h with
  | nil => exact List.forall_mem_nil _
  | last h => exact hgroup h hl
  | cons h _ _ ih =>
    simp only [allOn_append, allOn_cons] at hl
    exact List.forall_mem_append.2 ⟨hgroup h hl.1, ih hl.2.2⟩

/-- Names in a list on a line are on this line. -/
theorem Listed.names_allOn {names : List Token} (h : Listed .comma OneName ts names)
    (hl : AllOn l ts) : ∀ t ∈ names, t.line = l :=
  h.allOn (fun ⟨hts, _⟩ hl => (allOn_cons.1 (hts ▸ hl)).1) hl

/-- Variables that are declared on a line have this line. -/
theorem VariableGroup.onLine {vs : List Variable} (h : VariableGroup ts vs) (hl : AllOn l ts) :
    ∀ v ∈ vs, v.line = l := by
  cases h with
  | plain hnames | var _ hnames =>
    simp only [allOn_append, allOn_cons] at hl
    simpa using hnames.names_allOn (by tauto)

/-- Constants that are declared on a line have this line, and so have their
literals. -/
theorem ConstantGroup.onLine {cs : List Constant} (h : ConstantGroup ts cs) (hl : AllOn l ts) :
    ∀ c ∈ cs, c.line = l ∧ c.valueLine = l := by
  cases h with
  | mk hnames _ hvalue =>
    simp only [allOn_append, allOn_cons] at hl
    have hline : _ = l := hvalue.onLine hl.2.2
    simpa [hline] using hnames.names_allOn hl.1

/-- An argument that is written on a line is on this line. -/
theorem Argument.Written.onLine {a : Argument} (h : a.Written ts) (hl : AllOn l ts) : a.OnLine l := by
  cases h with
  | value h => exact ⟨(allOn_cons.1 hl).1, h.onLine hl⟩
  | reference => simpa [OnLine] using hl

/-- **All nodes of a heading are on the line of its tokens.** -/
theorem Heading.Written.onLine {h : Heading} (hw : h.Written ts) (hl : AllOn l ts) : h.OnLine l := by
  cases hw with
  | function _ _ _ _ line _ h =>
    simp only [allOn_append, allOn_cons] at hl
    exact ⟨line.trans hl.1, h.allOn VariableGroup.onLine hl.2.2.2.1⟩
  | constants_ _ h =>
    simpa [Heading.OnLine, Local.OnLine] using h.allOn ConstantGroup.onLine (allOn_cons.1 hl).2
  | variables_ _ h =>
    simpa [Heading.OnLine, Local.OnLine] using h.allOn VariableGroup.onLine (allOn_cons.1 hl).2
  | assign _ _ h =>
    simp only [allOn_cons] at hl
    exact ⟨hl.1, ⟨hl.1, nofun⟩, h.onLine hl.2.2⟩
  | assignElement _ _ _ _ hindex h =>
    simp only [allOn_append, allOn_cons] at hl
    obtain ⟨hname, -, his, -, -, hvs⟩ := hl
    exact ⟨hname, ⟨hname, fun e he => Option.some.inj he ▸ hindex.onLine his⟩, h.onLine hvs⟩
  | callPlain => exact ⟨(allOn_cons.1 hl).1, List.forall_mem_nil _⟩
  | call _ h =>
    simp only [allOn_cons] at hl
    exact ⟨hl.1, h.allOn Argument.Written.onLine hl.2⟩
  | whileLoop _ h =>
    simp only [allOn_cons] at hl
    exact ⟨hl.1, h.onLine hl.2⟩
  | repeatLoop _ _ h =>
    simp only [allOn_cons] at hl
    exact ⟨hl.1, h.onLine hl.2.2⟩
  | forLoop _ _ _ _ hstart hstop =>
    simp only [allOn_append, allOn_cons] at hl
    obtain ⟨hword, hname, -, hts, -, hus⟩ := hl
    exact ⟨hword, hname, hstart.onLine hts, hstop.onLine hus⟩
  | ifChain _ _ h =>
    simp only [allOn_append, allOn_cons] at hl
    refine ⟨hl.1, fun b hb => ?_⟩
    obtain rfl := Option.some.inj hb
    exact ⟨hl.1, fun e he => Option.some.inj he ▸ h.onLine hl.2.1⟩
  | elsif _ _ h =>
    simp only [allOn_append, allOn_cons] at hl
    exact ⟨hl.1, fun e he => Option.some.inj he ▸ h.onLine hl.2.1⟩
  | elseIf _ _ _ h =>
    simp only [allOn_append, allOn_cons] at hl
    exact ⟨hl.2.1, fun e he => Option.some.inj he ▸ h.onLine hl.2.2.1⟩
  | else_ => exact ⟨(allOn_cons.1 hl).1, nofun⟩

end OnLine

end Shank
