/-
# The lines of a program are readable

Every lexeme that is written for a well-formed program is readable: the words
and symbols of the language are, names are no such words, and literals hold
nothing that ends them early or indents their line. So every line of the program
is (`Program.readable_lines`).

A lexeme is readable for its own sake, whatever stands next to it on the line,
so the proofs go along the functions that write a program and put readable parts
together.
-/

import Mathlib.Data.Bool.AllAny
import Mathlib.Data.List.TakeWhile
import Shank.Proofs.Print.Numerals
import Shank.Proofs.Token.Written

namespace Shank

namespace Lexeme

/-- The words and symbols of the language. -/
def fixed : List Lexeme :=
  Token.Kind.words.map (fun p => ⟨p.2, p.1⟩) ++
    Token.Kind.symbols.map fun p => ⟨p.2, String.ofList p.1⟩

/-- The words of the table are readable. -/
theorem readable_of_mem_words :
    ∀ p ∈ Token.Kind.words, (⟨p.2, p.1⟩ : Lexeme).Readable := by
  have h : ∀ p ∈ Token.Kind.words, (⟨p.2, p.1⟩ : Lexeme).written = p.1.toList ∧
      p.1.toList.head?.any Token.isLetter = true ∧ p.1.toList.all Token.isWordChar = true ∧
      Token.Kind.ofWord p.1 = p.2 := by
    decide
  intro p hp
  obtain ⟨hw, hhead, hchars, hkind⟩ := h p hp
  exact readable_word hw ((Option.any_eq_true _ _).1 hhead) (List.all_eq_true.1 hchars) hkind

/-- The symbols of the table are readable: behind each of them a blank comes,
and no longer symbol has a blank in it. -/
theorem readable_of_mem_symbols :
    ∀ p ∈ Token.Kind.symbols, (⟨p.2, String.ofList p.1⟩ : Lexeme).Readable := by
  intro p hp
  simp only [Token.Kind.symbols, List.mem_cons, List.not_mem_nil, or_false] at hp
  rcases hp with rfl | rfl | rfl | rfl | rfl | rfl | rfl | rfl | rfl | rfl | rfl | rfl | rfl | rfl |
    rfl | rfl | rfl | rfl <;>
  exact readable_symbol rfl (List.all_iff_forall_prop.1 rfl) (by decide) fun _ => rfl

/-- Every word or symbol of the language is readable. -/
theorem readable_fixed {l : Lexeme} (h : l ∈ fixed) : l.Readable := by
  rcases List.mem_append.1 h with h | h
  · obtain ⟨p, hp, rfl⟩ := List.mem_map.1 h
    exact readable_of_mem_words p hp
  · obtain ⟨p, hp, rfl⟩ := List.mem_map.1 h
    exact readable_of_mem_symbols p hp

end Lexeme

open Lexeme (readable_fixed readable_name readable_number)

/-- Are all of some lexemes readable? -/
def AllReadable (ls : List Lexeme) : Prop :=
  ∀ l ∈ ls, l.Readable

/-- No lexemes are all readable. -/
theorem AllReadable.nil : AllReadable [] :=
  fun _ hl => nomatch hl

/-- A readable lexeme in front of readable ones. -/
theorem AllReadable.cons {l : Lexeme} {ls : List Lexeme} (h : l.Readable) (hs : AllReadable ls) :
    AllReadable (l :: ls) :=
  List.forall_mem_cons.2 ⟨h, hs⟩

/-- Readable lexemes in front of readable ones. -/
theorem AllReadable.append {ls ls' : List Lexeme} (h : AllReadable ls) (h' : AllReadable ls') :
    AllReadable (ls ++ ls') :=
  List.forall_mem_append.2 ⟨h, h'⟩

/-- A word or symbol in front. -/
theorem AllReadable.cons_fixed {l : Lexeme} {ls : List Lexeme} (h : l ∈ Lexeme.fixed)
    (hs : AllReadable ls) : AllReadable (l :: ls) :=
  hs.cons (readable_fixed h)

/-- Parts that are readable are so with words or symbols between them. -/
theorem AllReadable.separated {separator : Lexeme} (h : separator ∈ Lexeme.fixed)
    {parts : List (List Lexeme)} (hparts : ∀ p ∈ parts, AllReadable p) :
    AllReadable (separated separator parts) := by
  cases parts with
  | nil => exact .nil
  | cons p rest =>
    refine (hparts p (List.mem_cons_self ..)).append fun l hl => ?_
    obtain ⟨q, hq, hl⟩ := List.mem_flatMap.1 hl
    exact AllReadable.cons_fixed h (hparts q (List.mem_cons_of_mem _ hq)) l hl

/-! ## Expressions

What is written for an expression is words, symbols, names and literals with
blanks between them. Only the literals have to be looked into, for what their
texts may hold.
-/

/-- The digits of a magnitude have the form of a number. -/
theorem Numeral.isNumber_integerText (n : Int) :
    Token.isNumber (integerText n.natAbs).toList = true := by
  have hdecimal : ∀ c ∈ (integerText n.natAbs).toList, Text.isDecimal c = true := fun c hc => by
    rw [Text.isDecimal, Text.digit?_of_isDigit (isDigit_integerText hc)]
    rfl
  have htake : (integerText n.natAbs).toList.takeWhile Text.isDecimal =
      (integerText n.natAbs).toList := List.takeWhile_eq_self_iff.2 hdecimal
  have hdrop : (integerText n.natAbs).toList.dropWhile Text.isDecimal = [] :=
    List.dropWhile_eq_nil_iff.2 hdecimal
  have hne : (integerText n.natAbs).toList ≠ [] := by
    rw [integerText_natAbs]
    exact Nat.toDigits_ne_nil
  rw [Token.isNumber, htake, hdrop]
  cases h : (integerText n.natAbs).toList with
  | nil => exact absurd h hne
  | cons => rfl

/-- A readable numeral is so with a minus in front of it. -/
theorem readable_signed {negative : Bool} {l : Lexeme} (h : l.Readable) :
    AllReadable (signed negative l) := by
  cases negative with
  | false => exact .cons h .nil
  | true => exact .cons_fixed (by decide) (.cons h .nil)

/-- What is written for an integer is readable. -/
theorem readable_integer (n : Int) : AllReadable (integerLexemes n) :=
  readable_signed (readable_number (Numeral.isNumber_integerText n))

variable {spell : Ieee → String}

/-- What is written for a real is readable, in any spelling. -/
theorem Ieee.readable (hspell : Ieee.IsSpelling spell) {x : Ieee} (h : x.IsSingle) :
    AllReadable (x.lexemes spell) := by
  cases hx : x.isNegative with
  | false =>
    rw [Ieee.lexemes, hx]
    exact readable_signed (readable_number (hspell x h hx).isNumber)
  | true =>
    rw [Ieee.lexemes, hx]
    exact readable_signed (readable_number (hspell x.neg h.neg (Ieee.isNegative_neg hx)).isNumber)

/-- **What is written for a literal is readable**: a text stands between its
quotes if it holds neither these nor a line end, and no indentation. -/
theorem Scalar.readable (hspell : Ieee.IsSpelling spell) {v : Scalar} (h : v.WellFormed) :
    AllReadable (v.lexemes spell) := by
  cases v with
  | integer n => exact readable_integer n
  | real x => exact Ieee.readable hspell h
  | string s => exact .cons (Lexeme.readable_quoted h (by decide) rfl fun _ => rfl) .nil
  | character c => exact .cons (Lexeme.readable_quoted h (by decide) rfl fun _ => rfl) .nil
  | boolean b => cases b <;> exact .cons_fixed (by decide) .nil

/-- What is written for an expression is readable, with its parentheses. The
induction is on the expression. -/
theorem Expr.readable (hspell : Ieee.IsSpelling spell) {e : Expr} (h : e.WellFormed) (level : Nat) :
    AllReadable (e.lexemes spell level) := by
  induction e generalizing level with
  | literal _ v => exact Scalar.readable hspell h
  | var _ name => exact .cons (readable_name h) .nil
  | element _ name index ih =>
    exact .cons (readable_name h.1) (.cons_fixed (by decide)
      ((ih h.2 0).append (.cons_fixed (by decide) .nil)))
  | arithmetic _ op left right ihl ihr =>
    have hop : op.lexeme ∈ Lexeme.fixed := by cases op <;> decide
    have hinside := (ihl h.1 op.level).append (.cons_fixed hop (ihr h.2 (op.level + 1)))
    rw [Expr.lexemes]
    split
    · exact hinside
    · exact .cons_fixed (by decide) (hinside.append (.cons_fixed (by decide) .nil))
  | comparison => exact h.elim

/-- What is written for a condition is readable. -/
theorem Expr.readable_condition (hspell : Ieee.IsSpelling spell) {e : Expr}
    (h : e.WellFormedCondition) :
    AllReadable (e.lexemes spell 0) := by
  cases e with
  | comparison _ op left right =>
    have hop : op.lexeme ∈ Lexeme.fixed := by cases op <;> decide
    exact (Expr.readable hspell h.1 0).append (.cons_fixed hop (Expr.readable hspell h.2 0))
  | _ => exact Expr.readable hspell h 0

/-- What is written for a target is readable. -/
theorem Target.readable (hspell : Ieee.IsSpelling spell) {t : Target} (h : t.WellFormed) :
    AllReadable (t.lexemes spell) := by
  refine .cons (readable_name h.1) ?_
  rw [Target.indexLexemes]
  cases ht : t.index with
  | none => exact .nil
  | some index =>
    exact .cons_fixed (by decide) ((Expr.readable hspell (h.2 index ht) 0).append
      (.cons_fixed (by decide) .nil))

/-- What is written for an argument is readable. -/
theorem Argument.readable (hspell : Ieee.IsSpelling spell) {a : Argument} (h : a.WellFormed) :
    AllReadable (a.lexemes spell) := by
  cases a with
  | value _ e => exact Expr.readable_condition hspell h
  | reference _ name _ => exact .cons_fixed (by decide) (.cons (readable_name h) .nil)

/-! ## Statements

The lines of a statement are those of its parts, one level further in for its
blocks. Each of them has a lexeme on it.
-/

/-- A line is readable if its lexemes are and there is one. -/
theorem Line.readable_of_cons {d : Nat} {l : Lexeme} {ls : List Lexeme}
    (h : AllReadable (l :: ls)) :
    (⟨d, l :: ls⟩ : Line).Readable :=
  ⟨List.cons_ne_nil _ _, h⟩

mutual

/-- **Every line of a statement is readable.** This recurs with blocks, branches
and chains, as the lines are written. -/
theorem Stmt.readable_lines (hspell : Ieee.IsSpelling spell) (s : Stmt) (h : s.WellFormed)
    (d : Nat) : ∀ l ∈ s.lines spell d, l.Readable := by
  cases s with
  | assign _ target value =>
    have hline := (Target.readable hspell h.1).append
      (.cons_fixed (by decide) (Expr.readable_condition hspell h.2) :
        AllReadable (.assigner :: value.lexemes spell 0))
    exact List.forall_mem_singleton.2 (Line.readable_of_cons hline)
  | call _ name arguments =>
    refine List.forall_mem_singleton.2 (Line.readable_of_cons (.cons (readable_name h.1) ?_))
    refine .separated (by decide) fun p hp => ?_
    obtain ⟨a, ha, rfl⟩ := List.mem_map.1 hp
    exact Argument.readable hspell (h.2 a ha)
  -- the lines of a chain start with the words of its branches
  | ifChain _ branches => exact Branch.readable_chain hspell branches h.2 (by decide) d
  | whileLoop _ condition body =>
    exact List.forall_mem_cons.2 ⟨Line.readable_of_cons (.cons_fixed (by decide)
      (Expr.readable_condition hspell h.1)), Stmt.readable_block hspell body h.2.2 (d + 1)⟩
  | repeatLoop _ condition body =>
    exact List.forall_mem_cons.2 ⟨Line.readable_of_cons (.cons_fixed (by decide)
      (.cons_fixed (by decide) (Expr.readable_condition hspell h.1))),
      Stmt.readable_block hspell body h.2.2 (d + 1)⟩
  | forLoop _ name _ start stop body =>
    obtain ⟨⟨hname, hstart, hstop⟩, -, hbody⟩ := h
    exact List.forall_mem_cons.2 ⟨Line.readable_of_cons (.cons_fixed (by decide)
      (.cons (readable_name hname) (.cons_fixed (by decide) ((Expr.readable hspell hstart 0).append
        (.cons_fixed (by decide) (Expr.readable hspell hstop 0)))))),
      Stmt.readable_block hspell body hbody (d + 1)⟩

/-- Every line of a block is readable. -/
theorem Stmt.readable_block (hspell : Ieee.IsSpelling spell) (ss : List Stmt)
    (h : Stmt.WellFormedBlock ss) (d : Nat) : ∀ l ∈ Stmt.linesOfBlock spell d ss, l.Readable := by
  cases ss with
  | nil => exact fun _ hl => nomatch hl
  | cons s rest =>
    exact List.forall_mem_append.2 ⟨Stmt.readable_lines hspell s h.1 d,
      Stmt.readable_block hspell rest h.2 d⟩

/-- Every line of a branch is readable, whatever word starts it. -/
theorem Branch.readable_lines (hspell : Ieee.IsSpelling spell) (b : Branch) (h : b.WellFormed)
    {word : Lexeme} (hword : word ∈ Lexeme.fixed) (d : Nat) :
    ∀ l ∈ b.lines spell d word, l.Readable := by
  cases b with
  | mk _ condition body =>
    have hbody := Stmt.readable_block hspell body h.2.2 (d + 1)
    cases condition with
    | none =>
      exact List.forall_mem_cons.2 ⟨Line.readable_of_cons (.cons_fixed (by decide) .nil), hbody⟩
    | some condition =>
      exact List.forall_mem_cons.2 ⟨Line.readable_of_cons (.cons_fixed hword
        ((Expr.readable_condition hspell (h.1 condition rfl)).append
          (.cons_fixed (by decide) .nil))), hbody⟩

/-- Every line of an if chain is readable. -/
theorem Branch.readable_chain (hspell : Ieee.IsSpelling spell) (bs : List Branch)
    (h : Branch.WellFormedChain bs) {word : Lexeme} (hword : word ∈ Lexeme.fixed) (d : Nat) :
    ∀ l ∈ Branch.linesOfChain spell d word bs, l.Readable := by
  cases bs with
  | nil => exact fun _ hl => nomatch hl
  | cons b rest =>
    exact List.forall_mem_append.2 ⟨Branch.readable_lines hspell b h.1 hword d,
      Branch.readable_chain hspell rest h.2 (by decide) d⟩

end

/-! ## Declarations

The bounds of a range are written as numbers, and those of reals in the spelling
that was given.
-/

/-- What is written for a bound is readable. -/
theorem Bound.readable (hspell : Ieee.IsSpelling spell) {b : Bound} (h : b.WellFormed) :
    AllReadable (b.lexemes spell) := by
  cases b with
  | whole n => exact readable_integer n
  | real x => exact Ieee.readable hspell h

/-- What is written for a range is readable. -/
theorem readable_range (hspell : Ieee.IsSpelling spell) {low high : Bound} (hlow : low.WellFormed)
    (hhigh : high.WellFormed) :
    AllReadable (rangeLexemes spell low high) :=
  .cons_fixed (by decide) ((Bound.readable hspell hlow).append
    (.cons_fixed (by decide) (Bound.readable hspell hhigh)))

/-- What is written for integer bounds is readable. -/
theorem Interval.readable (r : Interval) : AllReadable (r.lexemes spell) :=
  .cons_fixed (by decide) ((readable_integer r.low).append
    (.cons_fixed (by decide) (readable_integer r.high)))

/-- What is written for a type is readable if its bounds can be written. -/
theorem DeclaredType.readable (hspell : Ieee.IsSpelling spell) {type : DeclaredType}
    (h : type.HasWritableBounds) :
    AllReadable (type.lexemes spell) := by
  -- the words of the kinds are among the fixed ones
  have hkind : ∀ k : Kind, k.lexeme ∈ Lexeme.fixed := fun k => by cases k <;> decide
  cases type with
  | array bounds element =>
    exact .cons_fixed (by decide) ((Interval.readable bounds).append
      (.cons_fixed (by decide) (.cons_fixed (hkind element) .nil)))
  | scalar type =>
    refine .cons_fixed (hkind type.kind) ?_
    cases type with
    | integer range =>
      cases range with
      | none => exact .nil
      | some r => exact Interval.readable r
    | real range =>
      cases range with
      | none => exact .nil
      | some r => exact readable_range hspell (h r rfl).1 (h r rfl).2
    | string lengths =>
      cases lengths with
      | none => exact .nil
      | some r => exact Interval.readable r
    | character | boolean => exact .nil

/-- What is written for a declared variable is readable. -/
theorem Variable.readable (hspell : Ieee.IsSpelling spell) {v : Variable} (h : v.WellFormed) :
    AllReadable (v.lexemes spell) := by
  refine AllReadable.append ?_ (.cons (readable_name h.name)
    (.cons_fixed (by decide) (DeclaredType.readable hspell h.bounds)))
  cases v.isVar with
  | false => exact .nil
  | true => exact .cons_fixed (by decide) .nil

/-- The line of a local declaration is readable. -/
theorem Local.readable (hspell : Ieee.IsSpelling spell) {d : Local} (h : d.WellFormed) :
    (⟨0, d.lexemes spell⟩ : Line).Readable := by
  cases d with
  | constant c =>
    exact Line.readable_of_cons (.cons_fixed (by decide) (.cons (readable_name h.1)
      (.cons_fixed (by decide) (Scalar.readable hspell h.2))))
  | var v => exact Line.readable_of_cons (.cons_fixed (by decide) (Variable.readable hspell h))

/-- Every line of a function is readable. -/
theorem Function.readable_lines (hspell : Ieee.IsSpelling spell) {f : Function} (h : f.WellFormed) :
    ∀ l ∈ f.lines spell, l.Readable := by
  refine List.forall_mem_cons.2 ⟨?_, List.forall_mem_append.2 ⟨?_, ?_⟩⟩
  · refine Line.readable_of_cons (.cons_fixed (by decide) (.cons (readable_name h.name)
      (.cons_fixed (by decide) (.append (.separated (by decide) fun p hp => ?_)
        (.cons_fixed (by decide) .nil)))))
    obtain ⟨v, hv, rfl⟩ := List.mem_map.1 hp
    exact Variable.readable hspell (h.parameters v hv)
  · intro l hl
    obtain ⟨d, hd, rfl⟩ := List.mem_map.1 hl
    exact Local.readable hspell (h.locals d hd)
  · exact Stmt.readable_block hspell f.body h.body 1

/-- **Every line of a well-formed program is readable.** -/
theorem Program.readable_lines (hspell : Ieee.IsSpelling spell) {p : Program} (h : p.WellFormed) :
    ∀ l ∈ p.lines spell, l.Readable := by
  intro l hl
  obtain ⟨f, hf, hl⟩ := List.mem_flatMap.1 hl
  exact Function.readable_lines hspell (h.functions f hf) l hl

end Shank
