/-
# The turns of a scanner end

What a scanner that is ready will have found at the end of its line is known at
every moment (`Scanner.outcome`): no turn changes it. So when the turns are
over, the line has been read as `scanLine` reads it, and between two lines the
mode is `between` or `comment`.

The outcome is stated by the functions that read a line by pieces, so that it
does not change is what makes the scanner agree with them. That the turns are
over at some time is shown in `Shank.Proofs.Token.Scanner`.
-/

import Shank.Proofs.Token.History
import Shank.Proofs.Token.Scanner

namespace Shank
namespace Token

/-- The tokens of the text that starts at `column` of a line and inside a
comment, and how the line ends. -/
def scanComment (line column : Nat) (cs : List Char) : List Token × LineEnd :=
  if (commentEnd cs).2 then scan line (column + (commentEnd cs).1) (cs.drop (commentEnd cs).1)
  else ([], .inComment)

/-- A line is scanned as text or as a comment, depending on how it starts. -/
theorem scanLine_eq (line : Nat) (inComment : Bool) (cs : List Char) :
    scanLine line inComment cs = if inComment then scanComment line 1 cs else scan line 1 cs :=
  rfl

/-- Behind an opening brace a text is scanned as a comment. -/
theorem scan_brace (line column : Nat) (cs : List Char) :
    scan line column ('\x7b' :: cs) = scanComment line (column + 1) cs := by
  rw [scan, piece_brace]
  rfl

/-- Tokens in front of what is found in the rest of a line. -/
def onto (found : List Token) (rest : List Token × LineEnd) : List Token × LineEnd :=
  (found ++ rest.1, rest.2)

namespace Scanner

variable {line : Nat} {text : List Char} {s t : Scanner}

/-- How the line ends for a scanner that is at the end of it, or refuses it. -/
def finish (s : Scanner) : LineEnd :=
  match s.stuck with
  | some (problem, column) => .stuck problem column
  | none => if s.mode = .comment then .inComment else .plain

/-- The tokens of the line and its end, as a scanner will have found them when
its turns are over. -/
def outcome (line : Nat) (text : List Char) (s : Scanner) : List Token × LineEnd :=
  if s.stuck = none then
    onto s.found (if s.mode = .comment then scanComment line (s.place + 1) (s.ahead text)
      else scan line (s.place + 1) (s.ahead text))
  else (s.found, s.finish)

/-- Outside of a comment the outcome is what was found, and what is found in the
rest of the line. A mode that takes a lexeme has not taken it yet. -/
theorem outcome_scan {mode : Mode} (h : mode ≠ .comment) (place : Nat) (found : List Token) :
    outcome line text ⟨mode, place, found, none⟩ =
      onto found (scan line (place + 1) (text.drop place)) := by
  rw [outcome, if_pos rfl, if_neg h, ahead]

/-- Between lexemes the outcome is what was found, and what is found in the rest
of the line. -/
theorem outcome_between (place : Nat) (found : List Token) :
    outcome line text ⟨.between, place, found, none⟩ =
      onto found (scan line (place + 1) (text.drop place)) := by
  have hmode : Mode.between ≠ .comment := by decide
  exact outcome_scan hmode place found

/-- In a comment the outcome is what was found, and what is found behind the
comment. -/
theorem outcome_comment (place : Nat) (found : List Token) :
    outcome line text ⟨.comment, place, found, none⟩ =
      onto found (scanComment line (place + 1) (text.drop place)) := by
  rw [outcome, if_pos rfl, if_pos rfl, ahead]

/-! ## No turn changes the outcome

The outcome of a scanner is stated by the functions that read a whole line. A
turn finds the next piece of it or gets ready to, and what is left over is the
rest of the line.
-/

section Turn

variable {mode : Mode} {place : Nat} {found : List Token} {c : Char} {cs : List Char}

/-- Behind the character at the place the line goes on with what follows it. -/
theorem drop_ahead (h : text.drop place = c :: cs) (n : Nat) :
    text.drop (place + (n + 1)) = cs.drop n := by
  rw [← List.drop_drop, h, List.drop_succ_cons]

/-- How long the line is, told by what is left of it. -/
theorem length_of_drop (h : text.drop place = c :: cs) : place + (cs.length + 1) = text.length := by
  have hlength := congrArg List.length h
  rw [List.length_drop, List.length_cons] at hlength
  omega

/-- A lexeme that is taken at the place is the piece which starts there. -/
theorem outcome_find {kind : Kind} {lexeme : String} {more place' : Nat}
    (hahead : text.drop place = c :: cs) (hpiece : piece c cs = .lexeme kind lexeme more)
    (hplace : place' = place + (more + 1)) :
    (find line kind lexeme place' ⟨mode, place, found, none⟩).outcome line text =
      onto found (scan line (place + 1) (c :: cs)) := by
  have hcolumn : place + (more + 1) + 1 = place + 1 + 1 + more := by omega
  rw [find, outcome_between, hplace, drop_ahead hahead, hcolumn, scan, hpiece, onto, onto,
    List.append_assoc]
  rfl

/-- To look at a character leaves the outcome: the mode that is entered takes
what `scan` takes there. The tests are made in the order of `piece`. -/
theorem outcome_look (h : text.drop place = c :: cs) :
    (look line text ⟨.between, place, found, none⟩).outcome line text =
      onto found (scan line (place + 1) (c :: cs)) := by
  -- to enter a mode but that of a comment takes nothing yet
  have henter {mode : Mode} (hne : mode ≠ .comment) :
      outcome line text ⟨mode, place, found, none⟩ = onto found (scan line (place + 1) (c :: cs)) := by
    rw [outcome_scan hne, h]
  have hnext : text.drop (place + 1) = cs := drop_ahead h 0
  rw [look, ahead, h]
  dsimp only
  split
  · exact henter (by decide)
  split
  · exact henter (by decide)
  split
  · exact henter (by decide)
  split
  · exact henter (by decide)
  split
  · rename_i hbrace
    subst hbrace
    rw [outcome_comment, hnext, scan_brace]
  split
  · rename_i hblank
    rw [outcome_between, hnext, scan, piece_blank hblank]
  split
  · rename_i hletter hdigit hstring hcharacter hbrace hblank _ symbol kind hfind
    -- a symbol is at least one character, and is taken at once
    have hpos : 0 < symbol.length := by
      have hsymbols : ∀ p ∈ Kind.symbols, 0 < p.1.length := by decide
      exact hsymbols _ (Kind.find?_symbols hfind).1
    have hpiece : piece c cs = .lexeme kind (String.ofList symbol) (symbol.length - 1) := by
      simp [piece, hletter, hdigit, hstring, hcharacter, hbrace, hblank, hfind]
    refine outcome_find h hpiece ?_
    show place + symbol.length = _
    omega
  · rename_i hletter hdigit hstring hcharacter hbrace hblank _ hfind
    have hpiece : piece c cs = .unreadable (.unknownCharacter c) := by
      simp [piece, hletter, hdigit, hstring, hcharacter, hbrace, hblank, hfind]
    rw [outcome, if_neg (Option.some_ne_none _), scan, hpiece, onto, List.append_nil]
    rfl

/-- To take a word leaves the outcome. -/
theorem outcome_readWord (h : text.drop place = c :: cs) (hc : isLetter c = true) :
    (readWord line text ⟨.word, place, found, none⟩).outcome line text =
      onto found (scan line (place + 1) (c :: cs)) := by
  have hrun : (c :: cs).takeWhile isWordChar = c :: cs.takeWhile isWordChar :=
    List.takeWhile_cons_of_pos (by simp [isWordChar, hc])
  have hpiece : piece c cs = .lexeme (Kind.ofWord (String.ofList (c :: cs.takeWhile isWordChar)))
      (String.ofList (c :: cs.takeWhile isWordChar)) (cs.takeWhile isWordChar).length := by
    simp only [piece, hc, if_true]
  rw [readWord, ahead, h, hrun]
  exact outcome_find h hpiece rfl

/-- To take a number leaves the outcome, also where the digits and points are no
number. -/
theorem outcome_readNumber (h : text.drop place = c :: cs) (hletter : isLetter c = false)
    (hc : Text.isDigit c = true) :
    (readNumber line text ⟨.number, place, found, none⟩).outcome line text =
      onto found (scan line (place + 1) (c :: cs)) := by
  have hrun : (c :: cs).takeWhile isNumberChar = c :: cs.takeWhile isNumberChar :=
    List.takeWhile_cons_of_pos (by simp [isNumberChar, hc])
  rw [readNumber, ahead, h, hrun]
  dsimp only
  split
  · rename_i hnumber
    refine outcome_find h ?_ rfl
    simp [piece, hletter, hc, hnumber]
  · rename_i hnumber
    have hpiece : piece c cs =
        .unreadable (.malformedNumber (String.ofList (c :: cs.takeWhile isNumberChar))) := by
      simp [piece, hletter, hc, hnumber]
    rw [outcome, if_neg (Option.some_ne_none _), scan, hpiece, onto, List.append_nil]
    rfl

/-- To take a literal leaves the outcome, be it closed or not. -/
theorem outcome_readLiteral {quote : Char} {kind : Kind} (hquote : (quote, kind) ∈ Kind.quotes)
    (h : text.drop place = quote :: cs) :
    (readLiteral quote kind line text ⟨mode, place, found, none⟩).outcome line text =
      onto found (scan line (place + 1) (quote :: cs)) := by
  have hlength := length_of_drop h
  rw [readLiteral, ahead, h, List.drop_one, List.tail_cons]
  dsimp only
  split
  · rename_i hclose
    have hpiece : piece quote cs = .lexeme kind (String.ofList (cs.takeWhile (· != quote)))
        ((cs.takeWhile (· != quote)).length + 1) := by
      rw [piece_quote hquote, literal, if_pos (by omega)]
    exact outcome_find h hpiece (by omega)
  · rename_i hclose
    have hpiece : piece quote cs = .lexeme kind "" cs.length := by
      rw [piece_quote hquote, literal, if_neg (by omega)]
    exact outcome_find h hpiece hlength.symm

/-- To skip a comment leaves the outcome, whether it ends on the line or goes on
behind it. -/
theorem outcome_eatComment (h : place < text.length) :
    (eatComment text ⟨.comment, place, found, none⟩).outcome line text =
      onto found (scanComment line (place + 1) (text.drop place)) := by
  have hlength : place + (text.drop place).length = text.length := by
    rw [List.length_drop]
    omega
  rw [eatComment, ahead]
  dsimp only
  split
  · rename_i hclose
    have hend : commentEnd (text.drop place) =
        (((text.drop place).takeWhile (· != '\x7d')).length + 1, true) := by
      rw [commentEnd, if_pos (by omega)]
    rw [scanComment, hend, if_pos rfl, outcome_between, List.drop_drop]
    congr 2
    omega
  · rename_i hclose
    have hend : commentEnd (text.drop place) = ((text.drop place).length, false) := by
      rw [commentEnd, if_neg (by omega)]
    rw [scanComment, hend, if_neg Bool.false_ne_true, outcome_comment, List.drop_length]
    rfl

end Turn

/-- **No turn changes the outcome.** There is one case for each mode. -/
theorem outcome_turn (h : s.Goes text) (hready : s.Ready text) :
    (s.turn line text).outcome line text = s.outcome line text := by
  obtain ⟨c, cs, hahead⟩ := exists_ahead h.inside
  obtain ⟨mode, place, found, stuck⟩ := s
  obtain rfl : stuck = none := h.free
  have hdrop : text.drop place = c :: cs := hahead
  have hrest (mode : Mode) (hmode : mode ≠ .comment) : outcome line text ⟨mode, place, found, none⟩ =
      onto found (scan line (place + 1) (c :: cs)) := by
    rw [outcome_scan hmode, hdrop]
  -- in each mode, the character it was entered for is still ahead
  have hentered := hready.entered rfl
  rw [hahead] at hentered
  cases mode with
  | between => exact (outcome_look hdrop).trans (hrest .between (by decide)).symm
  | comment => exact (outcome_eatComment h.inside).trans (outcome_comment place found).symm
  | word =>
    have hopens : isLetter c = true := by simpa [Mode.Opens] using hentered
    exact (outcome_readWord hdrop hopens).trans (hrest .word (by decide)).symm
  | number =>
    obtain ⟨hletter, hdigit⟩ : isLetter c = false ∧ Text.isDigit c = true := by
      simpa [Mode.Opens] using hentered
    exact (outcome_readNumber hdrop hletter hdigit).trans (hrest .number (by decide)).symm
  | string =>
    obtain rfl : c = '"' := by simpa [Mode.Opens] using hentered
    exact (outcome_readLiteral (by decide) hdrop).trans (hrest .string (by decide)).symm
  | character =>
    obtain rfl : c = '\'' := by simpa [Mode.Opens] using hentered
    exact (outcome_readLiteral (by decide) hdrop).trans (hrest .character (by decide)).symm

/-! ## The end of a line

When no turn is left the outcome is what was found, so that is what the
functions read.
-/

/-- The turns of a scanner are over after `n` of them. -/
structure Ends (line : Nat) (text : List Char) (n : Nat) (s t : Scanner) : Prop where
  turns : Turns line text n s t
  ended : ¬t.Goes text

/-- **The turns of a line end**, since each of them has fewer after it. -/
theorem exists_ends (line : Nat) {text : List Char} {s : Scanner} (hready : s.Ready text) :
    ∃ n t, Ends line text n s t := by
  by_cases h : s.Goes text
  · have hdoes : Does text s (s.turn line text) := does_turn h hready
    have hless := weight_does h hdoes
    obtain ⟨n, t, hturns, hover⟩ := exists_ends line (hready.does hdoes)
    exact ⟨n + 1, t, .succ h hturns, hover⟩
  · exact ⟨0, s, .zero, h⟩
termination_by s.weight text

/-- Any number of turns leave the outcome. -/
theorem outcome_turns {n : Nat} (hready : s.Ready text) (hturns : Turns line text n s t) :
    t.outcome line text = s.outcome line text := by
  induction hturns with
  | zero => rfl
  | succ goes rest ih =>
    rw [ih (hready.does (does_turn goes hready)), outcome_turn goes hready]

/-- A scanner whose turns are over is at the end of the line in one of two
modes, or refuses the line. -/
theorem Ready.over (hready : t.Ready text) (hover : ¬t.Goes text) (hfree : t.stuck = none) :
    t.place = text.length ∧ (t.mode = .between ∨ t.mode = .comment) := by
  have hplace : t.place = text.length :=
    Nat.le_antisymm hready.within (Nat.not_lt.1 fun hinside => hover ⟨hfree, hinside⟩)
  refine ⟨hplace, ?_⟩
  simpa [ahead, hplace] using hready.entered hfree

/-- When the turns are over the outcome is what was found, and how the line
ended. -/
theorem Ready.outcome_over (hready : t.Ready text) (hover : ¬t.Goes text) :
    t.outcome line text = (t.found, t.finish) := by
  by_cases hfree : t.stuck = none
  · obtain ⟨hplace, hmode⟩ := hready.over hover hfree
    have hahead : t.ahead text = [] := by rw [ahead, hplace, List.drop_length]
    rw [outcome, if_pos hfree, hahead, finish, hfree]
    rcases hmode with hmode | hmode
    · rw [hmode, if_neg (by decide), if_neg (by decide), scan, onto, List.append_nil]
    · rw [hmode, if_pos rfl, if_pos rfl]
      exact congrArg (·, LineEnd.inComment) (List.append_nil _)
  · exact if_neg hfree

end Scanner

/-! ## Calls

Between two lines the mode is either `between` or `comment`, and which of them
is known from whether a comment is open. So a lexer that is kept with its mode
goes the same way as one without.
-/

/-- A lexer that is kept together with the mode it is left in. -/
structure ModeLexer where
  line : Nat := 0
  depth : Nat := 0
  mode : Mode := .between
  tokens : List Token := []
  deriving DecidableEq, Repr

namespace ModeLexer

open Scanner

/-- The scanner that starts on the next line. -/
def start (l : ModeLexer) : Scanner :=
  { mode := l.mode }

/-- The lexer behind a line, when the turns of the scanner are over. -/
def behind (l : ModeLexer) (text : List Char) (t : Scanner) : ModeLexer :=
  match t.stuck with
  | some _ => { l with line := l.line + 1, mode := .between }
  | none =>
    let depth := if t.found.isEmpty || l.mode = .comment then l.depth else indentCount text
    { line := l.line + 1
      depth
      mode := t.mode
      tokens := l.tokens ++ (Layout.step (l.line + 1) l.depth depth ++ t.found ++
        [⟨.endOfLine, "", l.line + 1, text.length + 1⟩]) }

/-- The lexer when its levels are closed. -/
def closed (l : ModeLexer) : ModeLexer :=
  { line := l.line, tokens := l.tokens ++ Layout.step (l.line + 1) l.depth 0 }

/-- What is reached by calls, each line gone over turn by turn. -/
inductive Reached : List Lexer.Call → ModeLexer → Prop
  | new : Reached [] {}
  | lex {calls : List Lexer.Call} {l : ModeLexer} {raw : List Char} {n : Nat} {t : Scanner}
      (before : Reached calls l) (ends : Ends (l.line + 1) (Text.chomp raw) n l.start t) :
      Reached (calls ++ [.lex raw]) (l.behind (Text.chomp raw) t)
  | finish {calls : List Lexer.Call} {l : ModeLexer} (before : Reached calls l) :
      Reached (calls ++ [.finish]) l.closed

/-- A lexer, with the mode it is in. -/
def ofLexer (s : Lexer) : ModeLexer where
  line := s.layout.line
  depth := s.layout.depth
  mode := if s.layout.inComment then .comment else .between
  tokens := s.tokens

/-- Between two lines the mode is `between` or `comment`. -/
theorem mode_ofLexer (s : Lexer) : (ofLexer s).mode = .between ∨ (ofLexer s).mode = .comment := by
  unfold ofLexer
  cases s.layout.inComment with
  | true => exact .inr rfl
  | false => exact .inl rfl

/-- The mode is `comment` if one was left open. -/
theorem mode_ofLexer_iff (s : Lexer) : (ofLexer s).mode = .comment ↔ s.layout.inComment = true := by
  unfold ofLexer
  cases s.layout.inComment <;> simp

section Line

variable {l : ModeLexer} {line n : Nat} {text : List Char} {t : Scanner}

/-- A scanner at the start of a line is ready. -/
theorem ready_start (h : l.mode = .between ∨ l.mode = .comment) (text : List Char) :
    l.start.Ready text where
  within := Nat.zero_le _
  entered _ := h.imp_right .inl

/-- A line is read as the scanner at its start will have found it. -/
theorem outcome_start (l : ModeLexer) (line : Nat) (text : List Char) :
    l.start.outcome line text = scanLine line (l.mode = .comment) text := by
  rw [scanLine_eq]
  by_cases hcomment : l.mode = .comment <;> simp [outcome, start, hcomment, onto, ahead]

/-- **What the turns find is what `scanLine` reads**, whether the line starts in
a comment or not. -/
theorem scanLine_ends (h : l.mode = .between ∨ l.mode = .comment)
    (hends : Ends line text n l.start t) :
    scanLine line (l.mode = .comment) text = (t.found, t.finish) := by
  have hready := ready_start h text
  rw [← outcome_start, ← outcome_turns hready hends.turns,
    (hready.turns hends.turns).1.outcome_over hends.ended]

end Line

/-- **A call by turns is a call**: what is carried to the next line is what the
lexer carries. -/
theorem behind_ofLexer {s : Lexer} {raw : List Char} {n : Nat} {t : Scanner}
    (h : Ends (s.layout.line + 1) (Text.chomp raw) n (ofLexer s).start t) :
    (ofLexer s).behind (Text.chomp raw) t = ofLexer (s.step (.lex raw)) := by
  have hscan := scanLine_ends (mode_ofLexer s) h
  have hover := ((ready_start (mode_ofLexer s) _).turns h.turns).1.over h.ended
  simp only [mode_ofLexer_iff, Bool.decide_coe] at hscan
  rw [Lexer.step, Layout.readLine, hscan, behind, finish]
  cases hstuck : t.stuck with
  | some problem => simp [ofLexer]
  | none =>
    simp only [mode_ofLexer_iff, Bool.decide_coe]
    rcases (hover hstuck).2 with hmode | hmode
    · rw [hmode]
      rfl
    · rw [hmode]
      rfl

/-- The states that are reached by turns are those of a lexer after the same
calls. Modes are nowhere looked at from outside, so the states can be put side
by side call by call. -/
theorem reached_iff {calls : List Lexer.Call} {l : ModeLexer} :
    Reached calls l ↔ l = ofLexer (Lexer.run calls) := by
  constructor
  · intro h
    induction h with
    | new => rfl
    | lex before ends ih =>
      subst ih
      rw [Lexer.run_snoc]
      exact behind_ofLexer ends
    | finish before ih =>
      subst ih
      rw [Lexer.run_snoc]
      rfl
  · rintro rfl
    -- every sequence of calls leads somewhere, as the turns of every line end
    induction calls using List.reverseRecOn with
    | nil => exact .new
    | append_singleton calls call ih =>
      rw [Lexer.run_snoc]
      cases call with
      | lex raw =>
        obtain ⟨n, t, hends⟩ := exists_ends ((Lexer.run calls).layout.line + 1)
          (ready_start (mode_ofLexer (Lexer.run calls)) (Text.chomp raw))
        rw [← behind_ofLexer hends]
        exact .lex ih hends
      | finish => exact .finish ih

/-- **Every line is gone over in a bounded number of turns.** Any calls of a
lexer lead somewhere, and to one lexer only, that which takes lines by pieces;
and its mode is then one of two. From each of these, for every line, there are
at most two turns for each character: they end at the end of the line, or where
the line cannot be read, with what is read on it by pieces; and each of them
moves on, or enters a mode whose turn moves on, or refuses the line. -/
theorem scanning_ends :
    (∀ calls, ∃ l, Reached calls l) ∧
    (∀ calls l, Reached calls l →
      (l.mode = .between ∨ l.mode = .comment) ∧ l = ofLexer (Lexer.run calls)) ∧
    ∀ l : ModeLexer, l.mode = .between ∨ l.mode = .comment → ∀ raw,
      let text := Text.chomp raw
      (∃ n t, n ≤ 2 * text.length ∧ Ends (l.line + 1) text n l.start t ∧
        (t.stuck = none → t.place = text.length) ∧
        scanLine (l.line + 1) (l.mode = .comment) text = (t.found, t.finish)) ∧
      ∀ n s, Turns (l.line + 1) text n l.start s →
        n ≤ 2 * text.length ∧ (s.Goes text → s.Advances (l.line + 1) text) := by
  refine ⟨fun calls => ⟨_, reached_iff.2 rfl⟩, fun calls l hl => ?_, fun l hmode raw => ?_⟩
  · obtain rfl := reached_iff.1 hl
    exact ⟨mode_ofLexer _, rfl⟩
  · intro text
    have hready := ready_start hmode text
    -- each turn takes some of the weight, which is twice the length at most
    have hbound {n : Nat} {s : Scanner} (h : Turns (l.line + 1) text n l.start s) :
        n ≤ 2 * text.length := by
      have hturns := (hready.turns h).2
      have hweight := weight_le text l.start
      omega
    obtain ⟨n, t, hends⟩ := exists_ends (l.line + 1) hready
    have hend : t.stuck = none → t.place = text.length := fun hfree =>
      ((hready.turns hends.turns).1.over hends.ended hfree).1
    exact ⟨⟨n, t, hbound hends.turns, hends, hend, scanLine_ends hmode hends⟩,
      fun n s hturns => ⟨hbound hturns, (hready.turns hturns).1.advances⟩⟩

/-- The hypotheses of `scanning_ends` are satisfiable: a comment is left open by
a first line, and its rest ends in front of a number on the second one, whose
first turn enters a mode and does not move. -/
theorem scanning_ends_comment :
    let l := ofLexer (Lexer.run [.lex "x \x7b".toList])
    let text := "y\x7d1.5".toList
    let s : Scanner := { place := 2 }
    Reached [.lex "x \x7b".toList] l ∧ l.mode = .comment ∧
      (∃ n t, n ≤ 2 * 5 ∧ Ends (l.line + 1) text n l.start t) ∧
      Turns (l.line + 1) text 1 l.start s ∧ s.Goes text ∧ s.Advances (l.line + 1) text := by
  intro l text s
  obtain ⟨hreached, hlexer, hline⟩ := scanning_ends
  obtain ⟨l', hl⟩ := hreached [.lex "x \x7b".toList]
  obtain rfl : l' = l := (hlexer _ _ hl).2
  have hmode : l.mode = .comment := by decide +kernel
  have hgoes : s.Goes text := ⟨rfl, by decide⟩
  have hturns : Turns (l.line + 1) text 1 l.start s := by
    have hturn : l.start.turn (l.line + 1) text = s := by decide +kernel
    exact .succ ⟨rfl, by decide⟩ (hturn ▸ .zero)
  obtain ⟨⟨n, t, hn, hends, -⟩, hall⟩ := hline l (.inr hmode) text
  exact ⟨hl, hmode, ⟨n, t, hn, hends⟩, hturns, hgoes, (hall 1 s hturns).2 hgoes⟩

end ModeLexer
end Token
end Shank
