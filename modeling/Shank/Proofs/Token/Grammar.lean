/-
# The lexical grammar

A line is divided into pieces with nothing left over (`Divides`). Which pieces
there are, and where each of them ends, is said here without the scanner, by
what may follow a piece on its line:

| piece | characters | ends |
| --- | --- | --- |
| word | a letter, then letters and digits | where no letter or digit follows |
| number | decimal digits, then perhaps a point with more of them or none | where no digit or point follows |
| symbol | one of the table | where no longer one of the table fits |
| literal | a quote, anything but that quote, that quote | with the quote |
| unterminated literal | a quote, anything but that quote | with the line |
| comment | a left brace, anything but a right one, a right brace | with the brace |
| open comment | a left brace, anything but a right one | with the line |
| white space | one character | with it |

A line that starts inside a comment has the rest of it for its first piece. The
tokens of a division are its words, numbers, symbols and literals, each at the
column where it starts (`Segment.tokens`).

Main statement: a line is read exactly if it has a division, and then as the
tokens of that division (`Layout.readLine_iff_divides`). So whatever is read
loses and repeats no character.
-/

import Shank.Proofs.Token.Written
import Mathlib.Data.List.TakeWhile

namespace Shank
namespace Token

/-! ## The pieces of a line

The grammar is told without a scanner: what characters a piece has, and what
must not come behind it. A word, for one, is a run of letters and digits that
ends where no more of them come.
-/

/-- Does a run of characters of this class end in front of `rest`? -/
def Stops (class_ : Char → Bool) (rest : List Char) : Prop :=
  ∀ c ∈ rest.head?, class_ c = false

/-- The numbers: decimal digits, then perhaps a point, with more digits behind
it or none. -/
def IsNumeral (cs : List Char) : Prop :=
  ∃ whole : List Char, whole ≠ [] ∧ (∀ c ∈ whole, Text.isDecimal c = true) ∧
    (cs = whole ∨
      ∃ fraction : List Char, (∀ c ∈ fraction, Text.isDecimal c = true) ∧
        cs = whole ++ '.' :: fraction)

/-- A word of the table has the kind that stands there; every other one is an
identifier. -/
def Kind.IsOfWord (kind : Kind) (word : String) : Prop :=
  (word, kind) ∈ words ∨ kind = identifier ∧ ∀ k, (word, k) ∉ words

/-- The quotes, each with the kind of its literals. -/
def Kind.quotes : List (Char × Kind) :=
  [('"', stringLiteral), ('\'', characterLiteral)]

/-- `IsLexeme cs kind text rest`: the characters `cs` are a lexeme of this kind
and text, when `rest` is what follows on the line. -/
inductive IsLexeme : List Char → Kind → String → List Char → Prop
  | word {c : Char} {cs rest : List Char} {kind : Kind} (letter : isLetter c = true)
      (chars : ∀ d ∈ cs, isWordChar d = true) (ends : Stops isWordChar rest)
      (ofWord : kind.IsOfWord (String.ofList (c :: cs))) :
      IsLexeme (c :: cs) kind (String.ofList (c :: cs)) rest
  | number {cs rest : List Char} (numeral : IsNumeral cs) (ends : Stops isNumberChar rest) :
      IsLexeme cs .number (String.ofList cs) rest
  | symbol {symbol rest : List Char} {kind : Kind} (mem : (symbol, kind) ∈ Kind.symbols)
      (longest : ∀ s ∈ Kind.symbols, s.1 <+: symbol ++ rest → s.1.length ≤ symbol.length) :
      IsLexeme symbol kind (String.ofList symbol) rest
  | literal {quote : Char} {kind : Kind} {body rest : List Char} (mem : (quote, kind) ∈ Kind.quotes)
      (inside : quote ∉ body) :
      IsLexeme (quote :: (body ++ [quote])) kind (String.ofList body) rest
  | unterminated {quote : Char} {kind : Kind} {body : List Char} (mem : (quote, kind) ∈ Kind.quotes)
      (inside : quote ∉ body) : IsLexeme (quote :: body) kind "" []

/-- `EndsComment cs closed rest`: a comment goes on in `cs` and no further, when
`rest` is what follows on the line; it is closed there or stays open. -/
inductive EndsComment : List Char → Bool → List Char → Prop
  | closed {body rest : List Char} (inside : '\x7d' ∉ body) :
      EndsComment (body ++ ['\x7d']) true rest
  | open_ {body : List Char} (inside : '\x7d' ∉ body) : EndsComment body false []

/-- A piece of a line, with its characters. -/
inductive Segment
  | lexeme (chars : List Char) (kind : Kind) (text : String)
  | blank (char : Char)
  | comment (chars : List Char) (closed : Bool)
  deriving DecidableEq, Repr

namespace Segment

/-- The characters of a piece. -/
def chars : Segment → List Char
  | lexeme cs _ _ => cs
  | blank c => [c]
  | comment cs _ => cs

/-- The token of a piece that starts at a column, if it is a lexeme. -/
def token (line column : Nat) : Segment → List Token
  | lexeme _ kind text => [⟨kind, text, line, column⟩]
  | _ => []

/-- Does a comment stay open? -/
def isOpen : Segment → Bool
  | comment _ closed => !closed
  | _ => false

/-- The characters of some pieces, one after the other. -/
def text (segments : List Segment) : List Char :=
  segments.flatMap chars

/-- The tokens of some pieces, the first of which starts at a column. -/
def tokens (line : Nat) : Nat → List Segment → List Token
  | _, [] => []
  | column, s :: rest => s.token line column ++ tokens line (column + s.chars.length) rest

/-- Is the last of some pieces a comment that stays open? -/
def endsOpen (segments : List Segment) : Bool :=
  segments.getLast?.any isOpen

/-- Is this a piece, when `rest` is what follows on the line? -/
def IsPiece : Segment → List Char → Prop
  | lexeme cs kind text, rest => IsLexeme cs kind text rest
  | blank c, _ => Text.isBlank c = true
  | comment cs closed, rest => ∃ more, cs = '\x7b' :: more ∧ EndsComment more closed rest

/-- Is each of these a piece, with the others that follow it? -/
def ArePieces : List Segment → Prop
  | [] => True
  | s :: rest => s.IsPiece (text rest) ∧ ArePieces rest

end Segment

/-- The divisions of a line. If it starts inside a comment, its first piece is
what is left of that. -/
inductive Divides : Bool → List Char → List Segment → Prop
  | plain {segments : List Segment} (pieces : Segment.ArePieces segments) :
      Divides false (Segment.text segments) segments
  | resumed {cs : List Char} {closed : Bool} {rest : List Segment}
      (first : EndsComment cs closed (Segment.text rest)) (pieces : Segment.ArePieces rest) :
      Divides true (cs ++ Segment.text rest) (.comment cs closed :: rest)

/-! ## Runs of characters

The grammar says that a run ends in front of what follows, and the scanner takes
characters while it can. Both have the same runs.
-/

/-- A run ends where no more of it can be taken. -/
theorem stops_iff_takeWhile {p : Char → Bool} {rest : List Char} :
    Stops p rest ↔ rest.takeWhile p = [] := by
  cases rest with
  | nil => simp [Stops]
  | cons c rest => cases h : p c <;> simp [Stops, h]

/-- A run that goes on as far as it can. -/
theorem takeWhile_of_stops {p : Char → Bool} {cs rest : List Char} (h : ∀ c ∈ cs, p c = true)
    (hrest : Stops p rest) : (cs ++ rest).takeWhile p = cs := by
  rw [List.takeWhile_append_of_pos h, stops_iff_takeWhile.1 hrest, List.append_nil]

/-- What a run leaves. -/
theorem exists_run (p : Char → Bool) (cs : List Char) :
    ∃ rest, cs = cs.takeWhile p ++ rest ∧ Stops p rest := by
  refine ⟨cs.dropWhile p, List.takeWhile_append_dropWhile.symm, fun c hc => ?_⟩
  have := List.head?_dropWhile_not p cs
  rwa [Option.mem_def.1 hc] at this

/-- Up to a mark that is not there, all is taken. -/
theorem takeWhile_of_not_mem {mark : Char} {cs : List Char} (h : mark ∉ cs) :
    cs.takeWhile (· != mark) = cs := by
  refine List.takeWhile_eq_self_iff.2 fun c hc => ?_
  rw [bne_iff_ne]
  exact fun e => h (e ▸ hc)

/-- Up to a mark, what stands before it is taken. -/
theorem takeWhile_append_mark {mark : Char} {body : List Char} (h : mark ∉ body)
    (rest : List Char) : (body ++ mark :: rest).takeWhile (· != mark) = body :=
  takeWhile_of_stops (List.takeWhile_eq_self_iff.1 (takeWhile_of_not_mem h)) (by simp [Stops])

/-! ## Words and numbers

A word has one kind, and whether it is of this kind is looked up in a table. A
number has its form when at most one point stands behind its first digits.
-/

/-- The kind that a word is read as is one of its kinds. -/
theorem Kind.isOfWord_ofWord (word : String) : (ofWord word).IsOfWord word := by
  unfold ofWord
  cases h : words.lookup word with
  | some kind => exact .inl (mem_of_lookup h)
  | none => exact .inr ⟨rfl, fun k hk => by simpa using List.lookup_eq_none_iff.1 h _ hk⟩

/-- **A word has one kind**: the table has no word twice. -/
theorem Kind.ofWord_eq {kind : Kind} {word : String} (h : kind.IsOfWord word) :
    ofWord word = kind := by
  have hkinds : ∀ p ∈ words, ofWord p.1 = p.2 := by decide
  rcases h with hmem | ⟨rfl, hnone⟩
  · exact hkinds _ hmem
  · rcases isOfWord_ofWord word with hmem | ⟨h, -⟩
    · exact absurd hmem (hnone _)
    · exact h

/-- What the scanner tests a number for is the form of the grammar: the first
point ends the digits before it, and behind it there are digits only. -/
theorem isNumber_iff {cs : List Char} : isNumber cs = true ↔ IsNumeral cs := by
  have hpoint : Text.isDecimal '.' = false := by decide
  constructor
  · intro h
    rw [isNumber, Bool.and_eq_true] at h
    obtain ⟨hwhole, hrest⟩ := h
    -- the run of digits is the whole part, and the rest is the fraction or nothing
    have hsplit : cs = cs.takeWhile Text.isDecimal ++ cs.dropWhile Text.isDecimal :=
      List.takeWhile_append_dropWhile.symm
    refine ⟨cs.takeWhile Text.isDecimal, by simpa using hwhole,
      List.all_eq_true.1 List.all_takeWhile, ?_⟩
    generalize cs.dropWhile Text.isDecimal = rest at hrest hsplit
    cases rest with
    | nil => exact .inl (by simpa using hsplit)
    | cons c ds =>
      simp only [Bool.and_eq_true, beq_iff_eq, List.all_eq_true] at hrest
      obtain ⟨rfl, hds⟩ := hrest
      exact .inr ⟨ds, hds, hsplit⟩
  · rintro ⟨whole, hne, hwhole, rfl | ⟨fraction, hfraction, rfl⟩⟩
    · have hrun := List.takeWhile_eq_self_iff.2 hwhole
      have hrest := List.dropWhile_eq_nil_iff.2 hwhole
      simpa [isNumber, hrun, hrest] using hne
    -- a point is no digit, so the run of digits ends before it
    · have hstops : Stops Text.isDecimal ('.' :: fraction) := by simpa [Stops] using hpoint
      have hrun := takeWhile_of_stops hwhole hstops
      have hrest : (whole ++ '.' :: fraction).dropWhile Text.isDecimal = '.' :: fraction := by
        rw [List.dropWhile_append_of_pos hwhole, List.dropWhile_cons_of_neg (by simp [hpoint])]
      simpa [isNumber, hrun, hrest] using ⟨hne, hfraction⟩

/-! ## Symbols

The scanner takes the first symbol of the table that the text starts with. The
table has longer symbols first, so this is the longest one, which is what the
grammar asks for.
-/

/-- What is found among the symbols is one that the text starts with, and none
that it starts with is longer. The table is in an order that brings longer ones
first. -/
theorem Kind.find?_symbols {symbol : List Char} {kind : Kind} {cs : List Char}
    (h : symbols.find? (fun s => s.1.isPrefixOf cs) = some (symbol, kind)) :
    (symbol, kind) ∈ symbols ∧ symbol <+: cs ∧
      ∀ s ∈ symbols, s.1 <+: cs → s.1.length ≤ symbol.length := by
  -- a longer symbol never stands behind a shorter one
  have hsorted : symbols.Pairwise fun s t => t.1.length ≤ s.1.length := by decide
  have hprefix := List.find?_some h
  refine ⟨List.mem_of_find?_eq_some h, List.isPrefixOf_iff_prefix.1 hprefix,
    fun s hs hprefix => ?_⟩
  obtain ⟨-, before, after, hsplit, hbefore⟩ := List.find?_eq_some_iff_append.1 h
  rw [hsplit] at hs hsorted
  rcases List.mem_append.1 hs with hs | hs
  · have := hbefore s hs
    simp only [Bool.not_eq_true', ← Bool.not_eq_true, List.isPrefixOf_iff_prefix] at this
    exact absurd hprefix this
  · rcases List.mem_cons.1 hs with rfl | hs
    · exact le_rfl
    · exact List.rel_of_pairwise_cons (List.pairwise_append.1 hsorted).2.1 hs

/-- **The longest symbol is found**: among two symbols that a text starts with,
those of one length are the same. -/
theorem Kind.find?_symbols_eq {symbol rest : List Char} {kind : Kind}
    (hmem : (symbol, kind) ∈ symbols)
    (hlongest : ∀ s ∈ symbols, s.1 <+: symbol ++ rest → s.1.length ≤ symbol.length) :
    symbols.find? (fun s => s.1.isPrefixOf (symbol ++ rest)) = some (symbol, kind) := by
  have hkeys : ∀ s ∈ symbols, ∀ t ∈ symbols, s.1 = t.1 → s = t := by decide
  have hprefix : symbol <+: symbol ++ rest := List.prefix_append ..
  cases hfind : symbols.find? (fun s => s.1.isPrefixOf (symbol ++ rest)) with
  | none =>
    have := List.find?_eq_none.1 hfind _ hmem
    exact absurd (List.isPrefixOf_iff_prefix.2 hprefix) this
  | some s =>
    obtain ⟨hs, hsprefix, hslongest⟩ := find?_symbols hfind
    have hlength := le_antisymm (hlongest _ hs hsprefix) (hslongest _ hmem hprefix)
    have hchars := (List.prefix_of_prefix_length_le hsprefix hprefix hlength.le).eq_of_length hlength
    exact congrArg some (hkeys _ hs _ hmem hchars)

/-! ## Literals and comments

A literal goes up to the next quote of its kind, and a comment up to the next
closing brace, if there is one on the line. If there is none, the literal is
empty, and the comment stays open.
-/

/-- A text with a mark in it is divided at the first one. -/
theorem exists_mark {mark : Char} {cs : List Char} (h : mark ∈ cs) :
    ∃ body rest, mark ∉ body ∧ cs = body ++ mark :: rest := by
  obtain ⟨body, rest, hcs, hbody⟩ := List.eq_append_cons_of_mem h
  exact ⟨body, rest, hbody, hcs⟩

/-- A literal that is closed is what stands between the quotes. -/
theorem literal_closed {quote : Char} {body : List Char} (h : quote ∉ body) (kind : Kind)
    (rest : List Char) :
    literal quote kind (body ++ quote :: rest) =
      .lexeme kind (String.ofList body) (body.length + 1) := by
  simp [literal, takeWhile_append_mark h]

/-- A literal that is not closed takes the rest of the line, and is empty. -/
theorem literal_open {quote : Char} {cs : List Char} (h : quote ∉ cs) (kind : Kind) :
    literal quote kind cs = .lexeme kind "" cs.length := by
  simp [literal, takeWhile_of_not_mem h]

/-- A comment goes on to its first closing brace, or to the end of the line. -/
theorem commentEnd_append {cs rest : List Char} {closed : Bool} (h : EndsComment cs closed rest) :
    commentEnd (cs ++ rest) = (cs.length, closed) := by
  cases h with
  | closed inside => simp [commentEnd, takeWhile_append_mark inside]
  | open_ inside => simp [commentEnd, takeWhile_of_not_mem inside]

/-- Every comment ends in one of the two ways. -/
theorem exists_endsComment (cs : List Char) :
    ∃ more closed rest, cs = more ++ rest ∧ EndsComment more closed rest := by
  by_cases h : '\x7d' ∈ cs
  · obtain ⟨body, rest, hbody, rfl⟩ := exists_mark h
    exact ⟨body ++ ['\x7d'], true, rest, by simp, .closed hbody⟩
  · exact ⟨cs, false, [], by simp, .open_ h⟩

/-! ## One piece

The tests of the scanner are made in an order, while the grammar has a rule for
each kind of piece. What starts a piece of one kind is no start of another, so
the order does not matter.
-/

/-- A quote starts a literal of its kind. -/
theorem piece_quote {quote : Char} {kind : Kind} (h : (quote, kind) ∈ Kind.quotes) (cs : List Char) :
    piece quote cs = literal quote kind cs := by
  simp only [Kind.quotes, List.mem_cons, Prod.mk.injEq, List.not_mem_nil, or_false] at h
  rcases h with ⟨rfl, rfl⟩ | ⟨rfl, rfl⟩ <;> rfl

/-- An opening brace starts a comment. -/
theorem piece_brace (cs : List Char) :
    piece '\x7b' cs = .comment (commentEnd cs).1 (commentEnd cs).2 := rfl

/-- The code points of white space. -/
def blanks : List Nat :=
  List.range' 0x09 5 ++ List.range' 0x1C 5 ++ [0x85, 0xA0, 0x1680] ++ List.range' 0x2000 11 ++
    [0x2028, 0x2029, 0x202F, 0x205F, 0x3000]

/-- White space has one of these code points. -/
theorem mem_blanks {c : Char} (h : Text.isBlank c = true) : c.toNat ∈ blanks := by
  simp only [Text.isBlank, Text.isSeparator, Text.isPadding, Bool.or_eq_true, Bool.and_eq_true,
    decide_eq_true_eq, beq_iff_eq] at h
  simp only [blanks, List.mem_append, List.mem_range'_1, List.mem_cons, List.not_mem_nil]
  omega

/-- White space is skipped, character by character. -/
theorem piece_blank {c : Char} (h : Text.isBlank c = true) (cs : List Char) :
    piece c cs = .blank := by
  have hblanks : ∀ n ∈ blanks, isLetter (Char.ofNat n) = false ∧
      Text.isDigit (Char.ofNat n) = false ∧ Char.ofNat n ≠ '"' ∧ Char.ofNat n ≠ '\'' ∧
      Char.ofNat n ≠ '\x7b' := by decide
  have hc := hblanks _ (mem_blanks h)
  rw [Char.ofNat_toNat] at hc
  obtain ⟨hletter, hdigit, hstring, hcharacter, hbrace⟩ := hc
  simp [piece, hletter, hdigit, hstring, hcharacter, hbrace, h]

/-- A symbol is read if no longer one of the table stands there. The point of
the argument is the table: no symbol starts with a quote, a brace, white space,
a letter or a digit. -/
theorem piece_symbol {c : Char} {symbol rest : List Char} {kind : Kind}
    (hmem : (c :: symbol, kind) ∈ Kind.symbols)
    (hlongest : ∀ s ∈ Kind.symbols, s.1 <+: c :: symbol ++ rest → s.1.length ≤ (c :: symbol).length) :
    piece c (symbol ++ rest) = .lexeme kind (String.ofList (c :: symbol)) symbol.length := by
  have hfirst : ∀ s ∈ Kind.symbols, isLetter (s.1.headD ' ') = false ∧
      Text.isDigit (s.1.headD ' ') = false ∧ s.1.headD ' ' ≠ '"' ∧ s.1.headD ' ' ≠ '\'' ∧
      s.1.headD ' ' ≠ '\x7b' ∧ Text.isBlank (s.1.headD ' ') = false := by decide
  obtain ⟨hletter, hdigit, hstring, hcharacter, hbrace, hblank⟩ :
      isLetter c = false ∧ Text.isDigit c = false ∧ c ≠ '"' ∧ c ≠ '\'' ∧ c ≠ '\x7b' ∧
        Text.isBlank c = false := hfirst _ hmem
  have hfind := Kind.find?_symbols_eq hmem hlongest
  rw [List.cons_append] at hfind
  simp [piece, hletter, hdigit, hstring, hcharacter, hbrace, hblank, hfind]

/-- A word is read up to the first character that is neither a letter nor a
digit. -/
theorem piece_word {c : Char} {cs rest : List Char} {kind : Kind} (hletter : isLetter c = true)
    (hchars : ∀ d ∈ cs, isWordChar d = true) (hends : Stops isWordChar rest)
    (hkind : kind.IsOfWord (String.ofList (c :: cs))) :
    piece c (cs ++ rest) = .lexeme kind (String.ofList (c :: cs)) cs.length := by
  simp only [piece, hletter, if_true, takeWhile_of_stops hchars hends, Kind.ofWord_eq hkind]

/-- A number is read up to the first character that is neither a digit nor a
point. -/
theorem piece_number {c : Char} {cs rest : List Char} (hnumeral : IsNumeral (c :: cs))
    (hends : Stops isNumberChar rest) :
    piece c (cs ++ rest) = .lexeme .number (String.ofList (c :: cs)) cs.length := by
  have hnumber := isNumber_iff.2 hnumeral
  have hdecimal : Text.isDecimal c = true := by
    by_contra hc
    rw [isNumber, List.takeWhile_cons_of_neg hc] at hnumber
    cases hnumber
  have hchars : ∀ d ∈ cs, isNumberChar d = true := fun d hd =>
    Lexeme.isNumberChar_of_isNumber hnumber d (List.mem_cons_of_mem _ hd)
  simp [piece, Lexeme.not_isLetter_of_isDecimal hdecimal, Text.isDigit_of_isDecimal hdecimal,
    takeWhile_of_stops hchars hends, hnumber]

namespace Segment

/-- A piece as the scanner tells it. -/
def told : Segment → Piece
  | lexeme cs kind text => .lexeme kind text (cs.length - 1)
  | blank _ => .blank
  | comment cs closed => .comment (cs.length - 1) closed

/-- **The pieces of the grammar are found**: the scanner takes the characters of
a piece, and of nothing behind it. -/
theorem IsPiece.piece_eq {s : Segment} {rest : List Char} (h : s.IsPiece rest) :
    ∃ c cs, s.chars = c :: cs ∧ piece c (cs ++ rest) = s.told := by
  cases s with
  | lexeme cs kind text =>
    cases (h : IsLexeme cs kind text rest) with
    | word letter chars ends ofWord => exact ⟨_, _, rfl, piece_word letter chars ends ofWord⟩
    | number numeral ends =>
      obtain ⟨c, cs, rfl⟩ : ∃ c ds, cs = c :: ds := by
        refine List.exists_cons_of_ne_nil ?_
        rintro rfl
        cases isNumber_iff.2 numeral
      exact ⟨c, cs, rfl, piece_number numeral ends⟩
    | symbol mem longest =>
      obtain ⟨c, cs, rfl⟩ : ∃ c ds, cs = c :: ds := by
        -- no symbol is empty
        have hne : ∀ s ∈ Kind.symbols, s.1 ≠ [] := by decide
        exact List.exists_cons_of_ne_nil (hne _ mem)
      exact ⟨c, cs, rfl, piece_symbol mem longest⟩
    | @literal quote _ body _ mem inside =>
      refine ⟨quote, body ++ [quote], rfl, ?_⟩
      rw [piece_quote mem, List.append_assoc, List.singleton_append, literal_closed inside]
      simp [told]
    | @unterminated quote _ body mem inside =>
      refine ⟨quote, body, rfl, ?_⟩
      rw [piece_quote mem, List.append_nil, literal_open inside]
      simp [told]
  | blank c => exact ⟨c, [], rfl, piece_blank h rest⟩
  | comment cs closed =>
    obtain ⟨more, rfl, hends⟩ := h
    refine ⟨'\x7b', more, rfl, ?_⟩
    rw [piece_brace, commentEnd_append hends]
    simp [told]

end Segment

/-- What starts with a quote is a literal of the grammar. -/
theorem exists_literal {quote : Char} {kind : Kind} (h : (quote, kind) ∈ Kind.quotes)
    (cs : List Char) :
    ∃ (s : Segment) (rest : List Char), quote :: cs = s.chars ++ rest ∧ s.IsPiece rest := by
  by_cases hmem : quote ∈ cs
  · obtain ⟨body, rest, hbody, rfl⟩ := exists_mark hmem
    exact ⟨.lexeme (quote :: (body ++ [quote])) kind (String.ofList body), rest,
      by simp [Segment.chars], .literal h hbody⟩
  · exact ⟨.lexeme (quote :: cs) kind "", [], by simp [Segment.chars], .unterminated h hmem⟩

/-- **What is found is a piece of the grammar**, if it is readable. The cases
are the tests of `piece`, in its order. -/
theorem exists_segment {c : Char} {cs : List Char} (h : ∀ p, piece c cs ≠ .unreadable p) :
    ∃ (s : Segment) (rest : List Char), c :: cs = s.chars ++ rest ∧ s.IsPiece rest := by
  unfold piece at h
  split at h
  · rename_i hletter
    obtain ⟨rest, hcs, hrest⟩ := exists_run isWordChar cs
    exact ⟨.lexeme (c :: cs.takeWhile isWordChar) _ _, rest, congrArg (c :: ·) hcs,
      .word hletter (List.all_eq_true.1 List.all_takeWhile) hrest (Kind.isOfWord_ofWord _)⟩
  split at h
  · dsimp only at h
    split at h
    · rename_i hnumber
      obtain ⟨rest, hcs, hrest⟩ := exists_run isNumberChar cs
      exact ⟨.lexeme (c :: cs.takeWhile isNumberChar) _ _, rest, congrArg (c :: ·) hcs,
        .number (isNumber_iff.1 hnumber) hrest⟩
    · exact absurd rfl (h _)
  split at h
  · rename_i hquote
    subst hquote
    exact exists_literal (List.mem_cons_self ..) cs
  split at h
  · rename_i hquote
    subst hquote
    exact exists_literal (List.mem_cons_of_mem _ (List.mem_cons_self ..)) cs
  split at h
  · rename_i hbrace
    subst hbrace
    obtain ⟨more, closed, rest, rfl, hends⟩ := exists_endsComment cs
    exact ⟨.comment ('\x7b' :: more) closed, rest, rfl, more, rfl, hends⟩
  split at h
  · rename_i hblank
    exact ⟨.blank c, cs, rfl, hblank⟩
  split at h
  · rename_i symbol kind hfind
    obtain ⟨hmem, ⟨rest, hrest⟩, hlongest⟩ := Kind.find?_symbols hfind
    exact ⟨.lexeme symbol kind _, rest, hrest.symm, .symbol hmem (by rwa [hrest])⟩
  · exact absurd rfl (h _)

/-! ## A line

A line is read piece by piece, and the pieces are a division of it. Each step of
the induction takes the first piece off, in one direction from what is read and
in the other from the division.
-/

/-- What ends a line that is read. -/
def LineEnd.ofOpen (inComment : Bool) : LineEnd :=
  if inComment then .inComment else .plain

namespace Segment

/-- The characters of some pieces are those of the first one, and then the
others. -/
theorem text_cons (s : Segment) (rest : List Segment) : text (s :: rest) = s.chars ++ text rest :=
  rfl

/-- Whether a comment stays open is told by the last piece. -/
theorem endsOpen_cons {s : Segment} (h : s.isOpen = false) (rest : List Segment) :
    endsOpen (s :: rest) = endsOpen rest := by
  cases rest with
  | nil => simp [endsOpen, h]
  | cons t rest => simp [endsOpen]

/-- Nothing stands behind the end of a line. -/
theorem eq_nil_of_text {segments : List Segment} (h : ArePieces segments)
    (htext : text segments = []) : segments = [] := by
  cases segments with
  | nil => rfl
  | cons s rest =>
    obtain ⟨c, cs, hchars, -⟩ := h.1.piece_eq
    rw [text_cons, hchars] at htext
    cases htext

end Segment

/-- A comment that is not closed has nothing behind it on its line. -/
theorem EndsComment.eq_nil {cs rest : List Char} (h : EndsComment cs false rest) : rest = [] := by
  cases h
  rfl

/-- A comment that stays open ends the line. -/
theorem scan_open (line column : Nat) {s : Segment} {rest : List Char} (h : s.IsPiece rest)
    (hopen : s.isOpen = true) : rest = [] ∧ scan line column s.chars = ([], .inComment) := by
  obtain ⟨c, cs, hchars, hpiece⟩ := h.piece_eq
  cases s with
  | lexeme | blank => cases hopen
  | comment chars closed =>
    obtain rfl : closed = false := by simpa [Segment.isOpen] using hopen
    obtain ⟨more, -, hends⟩ := h
    obtain rfl := hends.eq_nil
    rw [List.append_nil] at hpiece
    refine ⟨rfl, ?_⟩
    rw [hchars, scan, hpiece]
    rfl

/-- Behind any other piece the rest of the line is read. -/
theorem scan_append (line column : Nat) {s : Segment} {rest : List Char} (h : s.IsPiece rest)
    (hopen : s.isOpen = false) :
    scan line column (s.chars ++ rest) =
      (s.token line column ++ (scan line (column + s.chars.length) rest).1,
        (scan line (column + s.chars.length) rest).2) := by
  obtain ⟨c, cs, hchars, hpiece⟩ := h.piece_eq
  have hcolumn : column + s.chars.length = column + 1 + cs.length := by
    rw [hchars, List.length_cons]
    omega
  rw [hcolumn, hchars, List.cons_append, scan, hpiece]
  cases s with
  | lexeme chars kind t =>
    obtain rfl : chars = c :: cs := hchars
    simp only [Segment.told, List.length_cons, Nat.add_sub_cancel, List.drop_left]
    rfl
  | blank d =>
    obtain ⟨-, rfl⟩ := List.cons.inj hchars
    rfl
  | comment chars closed =>
    obtain rfl : chars = c :: cs := hchars
    -- a comment that is not open is closed, so the line goes on behind it
    obtain rfl : closed = true := by simpa [Segment.isOpen] using hopen
    simp only [Segment.told, List.length_cons, Nat.add_sub_cancel, List.drop_left, if_true]
    rfl

/-- **The pieces of a line are what is read on it.** -/
theorem scan_text (line column : Nat) {segments : List Segment} (h : Segment.ArePieces segments) :
    scan line column (Segment.text segments) =
      (Segment.tokens line column segments, .ofOpen (Segment.endsOpen segments)) := by
  induction segments generalizing column with
  | nil => simp [Segment.text, scan, Segment.tokens, Segment.endsOpen, LineEnd.ofOpen]
  | cons s rest ih =>
    obtain ⟨hs, hrest⟩ := h
    rw [Segment.text_cons]
    cases hopen : s.isOpen with
    | true =>
      obtain ⟨htext, hscan⟩ := scan_open line column hs hopen
      obtain rfl := Segment.eq_nil_of_text hrest htext
      have htoken : s.token line column = [] := by cases s <;> first | rfl | cases hopen
      rw [htext, List.append_nil, hscan]
      simp [Segment.tokens, htoken, Segment.endsOpen, hopen, LineEnd.ofOpen]
    | false =>
      rw [scan_append line column hs hopen, ih _ hrest, Segment.endsOpen_cons hopen]
      rfl

/-- **What is read is a sequence of pieces.** The induction is over the length
of the line: behind its first piece there is less of it. -/
theorem exists_pieces (line column : Nat) (cs : List Char)
    (h : ∀ problem c, (scan line column cs).2 ≠ .stuck problem c) :
    ∃ segments, cs = Segment.text segments ∧ Segment.ArePieces segments := by
  match cs with
  | [] => exact ⟨[], rfl, trivial⟩
  | c :: cs =>
    have hreadable : ∀ p, piece c cs ≠ .unreadable p := by
      intro p hp
      rw [scan, hp] at h
      exact h p column rfl
    obtain ⟨s, rest, hsplit, hs⟩ := exists_segment hreadable
    cases hopen : s.isOpen with
    -- nothing stands behind a literal or a comment that is open
    | true =>
      obtain ⟨rfl, -⟩ := scan_open line column hs hopen
      exact ⟨[s], by simpa [Segment.text] using hsplit, hs, trivial⟩
    | false =>
      rw [hsplit, scan_append line column hs hopen] at h
      have hshorter : rest.length < (c :: cs).length := by
        obtain ⟨d, ds, hchars, -⟩ := hs.piece_eq
        rw [hsplit, hchars, List.length_append, List.length_cons]
        omega
      obtain ⟨segments, rfl, hsegments⟩ := exists_pieces line _ rest h
      exact ⟨s :: segments, hsplit, hs, hsegments⟩
termination_by cs.length
decreasing_by exact hshorter

/-! ## Lines that start in a comment

Where a comment was open at the end of the line before, the first piece is what
is left of it. Behind that the line is read as any other.
-/

/-- **The tokens of a line are those of its division**, and the line is read to
its end. -/
theorem scanLine_divides (line : Nat) {inComment : Bool} {cs : List Char} {segments : List Segment}
    (h : Divides inComment cs segments) :
    scanLine line inComment cs =
      (Segment.tokens line 1 segments, .ofOpen (Segment.endsOpen segments)) := by
  cases h with
  | plain pieces => exact scan_text line 1 pieces
  | @resumed cs closed rest first pieces =>
    unfold scanLine
    rw [if_pos rfl, commentEnd_append first]
    cases closed with
    | true =>
      rw [Segment.endsOpen_cons rfl]
      simp only [if_true, List.drop_left]
      exact scan_text line (1 + cs.length) pieces
    | false =>
      obtain rfl := Segment.eq_nil_of_text pieces first.eq_nil
      rfl

/-- **A line that is read to its end has a division.** So the two ways to tell a
line agree on which lines can be read. -/
theorem exists_divides (line : Nat) {inComment : Bool} {cs : List Char}
    (h : ∀ problem c, (scanLine line inComment cs).2 ≠ .stuck problem c) :
    ∃ segments, Divides inComment cs segments := by
  cases inComment with
  | false =>
    obtain ⟨segments, rfl, hsegments⟩ := exists_pieces line 1 cs h
    exact ⟨segments, .plain hsegments⟩
  | true =>
    obtain ⟨more, closed, rest, rfl, hends⟩ := exists_endsComment cs
    unfold scanLine at h
    rw [if_pos rfl, commentEnd_append hends] at h
    cases closed with
    | true =>
      simp only [if_true, List.drop_left] at h
      obtain ⟨segments, rfl, hsegments⟩ := exists_pieces line _ rest h
      exact ⟨_, .resumed hends hsegments⟩
    | false =>
      -- the comment goes on to the end of the line
      obtain rfl := hends.eq_nil
      have hrest : Segment.ArePieces [] := trivial
      exact ⟨[.comment more false], .resumed hends hrest⟩

namespace Layout

/-- What a line adds besides its layout. -/
def contentOf (s : Layout) (raw : List Char) : List Token :=
  (s.readLine raw).added.filter fun t => ¬t.kind.IsLayout

/-- What comes of a line that is scanned to its end: nothing is told, its tokens
are added, and the comment is open as the scan left it. -/
theorem readLine_of_scanLine {s : Layout} {raw : List Char} {content : List Token}
    {inComment : Bool} (hscan : scanLine (s.line + 1) s.inComment (Text.chomp raw) =
      (content, .ofOpen inComment)) :
    (s.readLine raw).fault = none ∧ s.contentOf raw = content ∧
      (s.readLine raw).next.inComment = inComment := by
  have hcontent : ∀ t ∈ content, ¬t.kind.IsLayout := fun t ht =>
    (isContent_scanLine (by rw [hscan]; exact ht)).kind
  have hfilter : content.filter (fun t => !decide t.kind.IsLayout) = content :=
    List.filter_eq_self.2 fun t ht => by simpa using hcontent t ht
  have hstep (d d' : Nat) :
      (step (s.line + 1) d d').filter (fun t => !decide t.kind.IsLayout) = [] :=
    List.filter_eq_nil_iff.2 fun t ht => by simpa using isLayout_step ht
  have hclose : Kind.endOfLine.IsLayout := by decide
  unfold contentOf readLine
  cases inComment <;> simp [hscan, LineEnd.ofOpen, hfilter, hstep, hclose]

/-- **A line is read exactly if it has a division, and then as the tokens of
that division.** A division says what each part of the line is and where it
ends, without the order in which a lexer looks for that, and it tells whether a
comment is left open. A line without one cannot be read. -/
theorem readLine_iff_divides (s : Layout) (raw : List Char) (content : List Token)
    (inComment : Bool) :
    ((s.readLine raw).fault = none ∧ s.contentOf raw = content ∧
        (s.readLine raw).next.inComment = inComment) ↔
      ∃ segments, Divides s.inComment (Text.chomp raw) segments ∧
        content = Segment.tokens (s.line + 1) 1 segments ∧
        inComment = Segment.endsOpen segments := by
  constructor
  · rintro ⟨hfault, rfl, rfl⟩
    have hread : ∀ problem c,
        (scanLine (s.line + 1) s.inComment (Text.chomp raw)).2 ≠ .stuck problem c := by
      intro problem c hstuck
      simp [readLine, hstuck] at hfault
    obtain ⟨segments, hsegments⟩ := exists_divides (s.line + 1) hread
    obtain ⟨-, hcontent, hinComment⟩ :=
      readLine_of_scanLine (scanLine_divides (s.line + 1) hsegments)
    exact ⟨segments, hsegments, hcontent, hinComment⟩
  · rintro ⟨segments, hsegments, rfl, rfl⟩
    exact readLine_of_scanLine (scanLine_divides (s.line + 1) hsegments)

end Layout
end Token
end Shank
