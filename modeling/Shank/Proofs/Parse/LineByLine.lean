/-
# Every heading has a line of its own

In the tokens of a source text, a token is on the line of the one before, unless
that one ends its line (`LineByLine`). Rows of headings in such tokens are on
lines that grow, one heading on each of them, and each is all that is written on
its line (`Rows.lines`).

The induction is over the rows. A heading does not go on over the end of a line,
so it is on one line; and the line ends behind it, so whatever comes then is on
later ones.

The line of a function, and those of its statements in order, are among those of
its headings. So in the tokens of a text they grow, from one function to the
next as well (`headings_lines`).
-/

import Shank.Proofs.Parse.Nesting
import Shank.Proofs.Parse.Rows

namespace Shank

variable {l : Nat} {t u : Token} {ts us : List Token} {h : Heading} {hs : List Heading}

/-! ## Tokens line by line

The tokens of a text go from line to line, and from one to the next only behind
the end of a line. This is all that is used of the text below.
-/

/-- A token is on the line of the one before, or on a later one if that one ends
its line. -/
def Token.Next (t u : Token) : Prop :=
  if t.kind = .endOfLine then t.line < u.line else u.line = t.line

/-- Each token is where the one before says. -/
def LineByLine (ts : List Token) : Prop :=
  ts.IsChain Token.Next

namespace Token.Next

/-- Behind the end of a line comes a later line. -/
theorem line_lt (hn : t.Next u) (ht : t.kind = .endOfLine) : t.line < u.line := by
  rwa [Next, if_pos ht] at hn

/-- Behind any other token the line goes on. -/
theorem line_eq (hn : t.Next u) (ht : t.kind ≠ .endOfLine) : t.line = u.line := by
  rw [Next, if_neg ht] at hn
  exact hn.symm

/-- In either case the line is not an earlier one. -/
theorem line_le (hn : t.Next u) : t.line ≤ u.line := by
  by_cases ht : t.kind = .endOfLine
  · exact (hn.line_lt ht).le
  · exact (hn.line_eq ht).le

end Token.Next

namespace LineByLine

/-- **Lines do not go back**, from any token to any later one. -/
theorem line_le (h : LineByLine ts) : ts.Pairwise fun t u => t.line ≤ u.line :=
  List.isChain_iff_pairwise.1 (List.IsChain.imp (fun _ _ hn => hn.line_le) h)

/-- Behind the end of a line come later lines. -/
theorem line_lt (h : LineByLine (t :: us)) (ht : t.kind = .endOfLine) (hu : u ∈ us) :
    t.line < u.line := by
  cases us with
  | nil => cases hu
  | cons v vs =>
    obtain ⟨hnext, hrest⟩ := List.isChain_cons_cons.1 h
    rcases List.mem_cons.1 hu with rfl | hu
    · exact hnext.line_lt ht
    · exact (hnext.line_lt ht).trans_le ((List.pairwise_cons.1 (line_le hrest)).1 u hu)

/-- Tokens with no end of a line among them are on the line of what comes
behind. -/
theorem allOn (hts : Inline ts) (h : LineByLine (ts ++ t :: us)) : AllOn t.line ts := by
  induction ts with
  | nil => exact allOn_nil
  | cons v vs ih =>
    obtain ⟨hv, hvs⟩ := inline_cons.1 hts
    have hkind : v.kind ≠ .endOfLine := fun e => hv (by rw [e]; decide)
    have hall := ih hvs (List.IsChain.tail h)
    refine allOn_cons.2 ⟨?_, hall⟩
    cases vs with
    | nil => exact (List.isChain_cons_cons.1 h).1.line_eq hkind
    | cons w ws => exact ((List.isChain_cons_cons.1 h).1.line_eq hkind).trans (allOn_cons.1 hall).1

end LineByLine

/-! ## Rows line by line

What the parser took are rows, each a heading and the end of its line. Between
the ends of two lines there is one heading, so each heading is all that is
written on its line, layout aside.
-/

/-- What is written on a line. -/
def contentOf (ts : List Token) (l : Nat) : List Token :=
  ts.filter fun t => t.line = l ∧ ¬t.kind.IsLayout

/-- What is written on a line is on this line. -/
theorem allOn_contentOf : AllOn l (contentOf ts l) := fun t ht => by
  have := (List.mem_filter.1 ht).2
  simp only [decide_eq_true_eq] at this
  exact this.1

/-- Where only layout is on a line, nothing is written on it. -/
theorem contentOf_eq_nil (h : ∀ t ∈ ts, t.line = l → t.kind.IsLayout) : contentOf ts l = [] := by
  refine List.filter_eq_nil_iff.2 fun t ht he => ?_
  obtain ⟨hline, hkind⟩ := of_decide_eq_true he
  exact hkind (h t ht hline)

/-- Where all of some tokens are on a line and none is layout, they are all that
they write on it. -/
theorem contentOf_eq_self (hline : AllOn l ts) (hkind : Inline ts) : contentOf ts l = ts :=
  List.filter_eq_self.2 fun t ht => decide_eq_true ⟨hline t ht, hkind t ht⟩

/-- What is written on a line in two lists of tokens is what each of them has of
it. -/
theorem contentOf_append : contentOf (ts ++ us) l = contentOf ts l ++ contentOf us l :=
  List.filter_append ..

/-- What is written in a row is its heading; what is around it is layout. -/
theorem contentOf_row {gap : List Token} (hgap : AllLayout gap) (ht : t.kind = .endOfLine) (l : Nat) :
    contentOf (gap ++ (ts ++ t :: us)) l = contentOf ts l ++ contentOf us l := by
  have hend : contentOf [t] l = [] := contentOf_eq_nil fun u hu _ => by
    rw [List.mem_singleton.1 hu, ht]
    decide
  rw [contentOf_append, contentOf_append, contentOf_eq_nil fun t ht _ => hgap t ht, List.nil_append,
    ← List.singleton_append, contentOf_append, hend, List.nil_append]

/-- **The headings are on lines that grow**, and each is what is written on its
line. -/
theorem Rows.lines (hrows : Rows ts hs) (hts : LineByLine ts) : ∃ numbered : List (Heading × Nat),
    numbered.map Prod.fst = hs ∧ (numbered.map Prod.snd).Pairwise (· < ·) ∧
      ∀ n ∈ numbered, n.1.Written (contentOf ts n.2) := by
  induction hrows with
  | nil => exact ⟨[], rfl, .nil, List.forall_mem_nil _⟩
  | @cons gap ts us last h hs hgap written hlast more ih =>
    rw [List.append_assoc] at hts ⊢
    have hrow : LineByLine (ts ++ last :: us) := List.IsChain.right_of_append hts
    have hbehind : LineByLine (last :: us) := List.IsChain.right_of_append hrow
    obtain ⟨numbered, hmap, hgrow, hall⟩ := ih (List.IsChain.tail hbehind)
    have hon : AllOn last.line ts := LineByLine.allOn written.inline hrow
    have hlater : ∀ u ∈ us, last.line < u.line := fun u hu => hbehind.line_lt hlast hu
    -- a heading is not empty, so its line is that of one of the tokens behind
    have hlines : ∀ n ∈ numbered, last.line < n.2 := fun n hn => by
      obtain ⟨u, hu⟩ := List.exists_mem_of_ne_nil _ (hall n hn).ne_nil
      exact (hlater u (List.mem_of_mem_filter hu)).trans_eq (allOn_contentOf u hu)
    refine ⟨(h, last.line) :: numbered, by rw [List.map_cons, hmap], ?_, ?_⟩
    · refine List.pairwise_cons.2 ⟨fun l hl => ?_, hgrow⟩
      obtain ⟨n, hn, rfl⟩ := List.mem_map.1 hl
      exact hlines n hn
    · refine List.forall_mem_cons.2 ⟨?_, fun n hn => ?_⟩
      · rw [contentOf_row hgap hlast, contentOf_eq_self hon written.inline,
          contentOf_eq_nil fun u hu he => absurd he (hlater u hu).ne', List.append_nil]
        exact written
      · rw [contentOf_row hgap hlast, contentOf_eq_nil fun t ht he =>
          absurd ((hon t ht).symm.trans he) (hlines n hn).ne, List.nil_append]
        exact hall n hn

/-! ## Lines of statements

The headings of a function come in the order of its statements, with those of
declarations and branches among them. Left out, they leave the statements and
their lines in order.
-/

/-- The line of a function or statement. -/
def Heading.line? : Heading → Option Nat
  | function f => some f.line
  | statement s => some s.line
  | locals _ => none
  | branch _ => none

/-- A statement that is on a line with all of its parts has this line. -/
theorem Stmt.OnLine.line_eq {s : Stmt} (h : s.OnLine l) : s.line = l := by
  cases s <;> exact h.1

/-- A heading that is on a line has no other one. -/
theorem Heading.OnLine.line?_eq (hon : h.OnLine l) : ∀ k ∈ h.line?, k = l := by
  cases h with
  | function f => exact fun k hk => (Option.some.inj hk).symm.trans hon.1
  | statement s => exact fun k hk => (Option.some.inj hk).symm.trans (Stmt.OnLine.line_eq hon)
  | locals | branch => exact fun _ hk => nomatch hk

section Nodes

variable {β : Type} {F : Heading → Option β}

mutual

/-- Where branches give nothing, what the headings inside of a statement give is
what the statements in its blocks give. -/
theorem Stmt.filterMap_headingsInside (hF : ∀ b, F (.branch b) = none) (d : Nat) : ∀ s : Stmt,
    s.headingsInside.filterMap F = (Stmt.nested d s).filterMap fun n => F (.statement n.2)
  | .assign _ _ _ => rfl
  | .ifChain _ branches => by
    rw [Stmt.headingsInside, Stmt.nested, ← Branch.filterMap_headingsOfChain hF d branches]
    cases branches with
    | nil => rfl
    | cons b rest => exact (List.filterMap_cons_none (hF b)).symm
  | .whileLoop _ _ body => Stmt.filterMap_headingsOfBlock hF (d + 1) body
  | .repeatLoop _ _ body => Stmt.filterMap_headingsOfBlock hF (d + 1) body
  | .forLoop _ _ _ _ _ body => Stmt.filterMap_headingsOfBlock hF (d + 1) body
  | .call _ _ _ => rfl

/-- What the headings of a block give is what its statements give, and those
inside of them. -/
theorem Stmt.filterMap_headingsOfBlock (hF : ∀ b, F (.branch b) = none) (d : Nat) : ∀ ss : List Stmt,
    (Stmt.headingsOfBlock ss).filterMap F =
      (Stmt.nodesOfBlock d ss).filterMap fun n => F (.statement n.2)
  | [] => rfl
  | s :: rest => by
    rw [Stmt.headingsOfBlock, Stmt.nodesOfBlock, List.filterMap_cons, List.filterMap_cons,
      List.filterMap_append, List.filterMap_append, Stmt.filterMap_headingsInside hF d s,
      Stmt.filterMap_headingsOfBlock hF d rest]

/-- What the headings inside of a branch give is what the statements of its body
give. -/
theorem Branch.filterMap_headingsInside (hF : ∀ b, F (.branch b) = none) (d : Nat) : ∀ b : Branch,
    b.headingsInside.filterMap F = (Branch.nested d b).filterMap fun n => F (.statement n.2)
  | .mk _ _ body => Stmt.filterMap_headingsOfBlock hF (d + 1) body

/-- What the headings of branches give is what the statements of their bodies
give. The four recur on each other as the headings do. -/
theorem Branch.filterMap_headingsOfChain (hF : ∀ b, F (.branch b) = none) (d : Nat) : ∀ bs : List Branch,
    (Branch.headingsOfChain bs).filterMap F =
      (Branch.nestedInChain d bs).filterMap fun n => F (.statement n.2)
  | [] => rfl
  | b :: rest => by
    rw [Branch.headingsOfChain, Branch.nestedInChain, List.filterMap_cons_none (hF b),
      List.filterMap_append, List.filterMap_append, Branch.filterMap_headingsInside hF d b,
      Branch.filterMap_headingsOfChain hF d rest]

end

end Nodes

/-- The lines of a function: its own, and those of its statements in order. -/
def Function.lineNumbers (f : Function) : List Nat :=
  f.line :: f.nodes.map fun n => n.2.line

/-- **The lines of the headings of a function are its lines**: those of its
declarations and branches are left out. -/
theorem Function.Headed.lineNumbers_eq {f : Function} (h : f.Headed hs) :
    hs.filterMap Heading.line? = f.lineNumbers := by
  obtain ⟨declared, -, rfl⟩ := h
  have hdeclared : (declared.map Heading.locals).filterMap Heading.line? = [] := by
    simp [List.filterMap_eq_nil_iff, Heading.line?]
  have hbody := Stmt.filterMap_headingsOfBlock (F := Heading.line?) (fun _ => rfl) 1 f.body
  have hrest : (declared.map Heading.locals ++ Stmt.headingsOfBlock f.body).filterMap Heading.line? =
      f.nodes.map fun n => n.2.line := by
    rw [List.filterMap_append, hdeclared, List.nil_append, hbody]
    exact congrFun List.filterMap_eq_map _
  exact congrArg (f.line :: ·) hrest

/-- The statement that a heading is of. -/
def Heading.statement? : Heading → Option Stmt
  | statement s => some s
  | _ => none

/-- The statements of a function are among its headings. -/
theorem Function.Headed.statement_mem {f : Function} {n : Nat × Stmt} (h : f.Headed hs)
    (hn : n ∈ f.nodes) : .statement n.2 ∈ hs := by
  obtain ⟨declared, -, rfl⟩ := h
  have hbody := Stmt.filterMap_headingsOfBlock (F := Heading.statement?) (fun _ => rfl) 1 f.body
  have hmem : n.2 ∈ (Stmt.headingsOfBlock f.body).filterMap Heading.statement? := by
    rw [hbody]
    exact List.mem_filterMap.2 ⟨n, hn, rfl⟩
  obtain ⟨h, hh, he⟩ := List.mem_filterMap.1 hmem
  obtain rfl : h = .statement n.2 := by
    cases h <;> cases he
    rfl
  exact List.mem_cons_of_mem _ (List.mem_append_right _ hh)

/-- The lines of the headings of functions are their lines. -/
theorem lineNumbers_of_headed {fs : List Function} {gs : List (List Heading)}
    (h : List.Forall₂ Function.Headed fs gs) :
    gs.flatten.filterMap Heading.line? = fs.flatMap Function.lineNumbers := by
  induction h with
  | nil => rfl
  | cons h _ ih => rw [List.flatten_cons, List.filterMap_append, h.lineNumbers_eq, ih, List.flatMap_cons]

/-- Each of several functions has headings among those of all. -/
theorem exists_headed {fs : List Function} {gs : List (List Heading)} {f : Function}
    (h : List.Forall₂ Function.Headed fs gs) (hf : f ∈ fs) : ∃ hs ∈ gs, f.Headed hs := by
  induction h with
  | nil => cases hf
  | @cons g hs fs gs h _ ih =>
    rcases List.mem_cons.1 hf with rfl | hf
    · exact ⟨hs, List.mem_cons_self .., h⟩
    · obtain ⟨hs', hmem, hheaded⟩ := ih hf
      exact ⟨hs', List.mem_cons_of_mem hs hmem, hheaded⟩

/-- Headings on lines that grow have lines that grow. -/
theorem pairwise_lines {numbered : List (Heading × Nat)}
    (hgrow : (numbered.map Prod.snd).Pairwise (· < ·)) (hon : ∀ n ∈ numbered, n.1.OnLine n.2) :
    ((numbered.map Prod.fst).filterMap Heading.line?).Pairwise (· < ·) := by
  refine hgrow.sublist ?_
  clear hgrow
  induction numbered with
  | nil => exact .slnil
  | cons n rest ih =>
    obtain ⟨hn, hrest⟩ := List.forall_mem_cons.1 hon
    rw [List.map_cons, List.filterMap_cons, List.map_cons]
    cases hline : n.1.line? with
    | none => exact (ih hrest).cons _
    | some k =>
      obtain rfl := hn.line?_eq k hline
      exact (ih hrest).cons_cons _

/-! ## Lines of a program

The headings of all functions are in order over the whole text. So no line has
two of them, be they of one function or of two.
-/

namespace Parsing

variable {room : Nat} {tokens : List Token}

/-- **Headings of what is parsed stand alone on their lines**, all their nodes
are on it, and the lines of functions and statements grow. -/
theorem headings_lines (h : (ofTokens tokens room).halt = none) (htokens : LineByLine tokens) :
    (∀ f ∈ (ofTokens tokens room).functions, ∃ hs, f.Headed hs ∧
      ∀ h ∈ hs, ∃ l, h.Written (contentOf tokens l) ∧ h.OnLine l) ∧
    ((ofTokens tokens room).functions.flatMap Function.lineNumbers).Pairwise (· < ·) := by
  obtain ⟨gs, hheaded, hrows⟩ := exists_rows h
  obtain ⟨numbered, hmap, hgrow, hall⟩ := hrows.lines htokens
  have hon : ∀ n ∈ numbered, n.1.OnLine n.2 := fun n hn => (hall n hn).onLine allOn_contentOf
  refine ⟨fun f hf => ?_, ?_⟩
  · obtain ⟨hs, hhs, hf⟩ := exists_headed hheaded hf
    refine ⟨hs, hf, fun h hh => ?_⟩
    have hmem : h ∈ numbered.map Prod.fst := by
      rw [hmap]
      exact List.mem_flatten_of_mem hhs hh
    obtain ⟨n, hn, rfl⟩ := List.mem_map.1 hmem
    exact ⟨n.2, hall n hn, hon n hn⟩
  · rw [← lineNumbers_of_headed hheaded, ← hmap]
    exact pairwise_lines hgrow hon

end Parsing
end Shank
