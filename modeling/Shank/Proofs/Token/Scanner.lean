/-
# Scanning turn by turn

`scan` goes over a line piece by piece, and its recursion is on what is left of
the line. Here is the same as it is carried out: a scanner stands at a place of
the line in some mode, and while there is a character at the place it does one
turn. What a turn does, the mode says.

| mode | a turn | moves on | mode afterwards |
| --- | --- | --- | --- |
| `between` | looks at the character, and takes it if it is a blank, a left brace or the start of a symbol | only if it takes something | that of what starts there |
| `word`, `number` | takes a run of characters | if the first one belongs to the run | `between` |
| `string`, `character` | takes a literal up to its other quote or the end of the line | always | `between` |
| `comment` | takes what is left of a comment | always | `between`, or `comment` at the end of the line |

So a turn need not move, and a mode that is entered at the wrong character would
not move either. That this does not happen is what `Ready` says; it is kept by
every turn, and so the turns are counted by the characters that are left
(`Scanner.weight`).
-/

import Shank.Proofs.Token.Grammar

namespace Shank
namespace Token

/-- What a scanner is doing. -/
inductive Mode
  | between | word | number | string | character | comment
  deriving DecidableEq, Repr

/-- A scanner: its mode, its place in the line, the tokens found so far, and
what cannot be read at which column. -/
structure Scanner where
  mode : Mode := .between
  place : Nat := 0
  found : List Token := []
  stuck : Option (LexProblem × Nat) := none
  deriving DecidableEq, Repr

namespace Scanner

/-- What is left of a line from the place on. -/
def ahead (text : List Char) (s : Scanner) : List Char :=
  text.drop s.place

/-- A token that starts at the place, and the place behind it. -/
def find (line : Nat) (kind : Kind) (lexeme : String) (place : Nat) (s : Scanner) : Scanner :=
  { s with mode := .between, place, found := s.found ++ [⟨kind, lexeme, line, s.place + 1⟩] }

/-- Looks at the character at the place. -/
def look (line : Nat) (text : List Char) (s : Scanner) : Scanner :=
  match s.ahead text with
  | [] => s
  | c :: cs =>
    if isLetter c then { s with mode := .word }
    else if Text.isDigit c then { s with mode := .number }
    else if c = '"' then { s with mode := .string }
    else if c = '\'' then { s with mode := .character }
    else if c = '\x7b' then { s with mode := .comment, place := s.place + 1 }
    else if Text.isBlank c then { s with place := s.place + 1 }
    else
      match Kind.symbols.find? fun p => p.1.isPrefixOf (c :: cs) with
      | some (symbol, kind) => s.find line kind (String.ofList symbol) (s.place + symbol.length)
      | none => { s with stuck := some (.unknownCharacter c, s.place + 1) }

/-- Takes the letters and digits from the place on as a word. -/
def readWord (line : Nat) (text : List Char) (s : Scanner) : Scanner :=
  let run := (s.ahead text).takeWhile isWordChar
  s.find line (Kind.ofWord (String.ofList run)) (String.ofList run) (s.place + run.length)

/-- The place is behind the run also when this is no number. -/
def readNumber (line : Nat) (text : List Char) (s : Scanner) : Scanner :=
  let run := (s.ahead text).takeWhile isNumberChar
  if isNumber run then s.find line .number (String.ofList run) (s.place + run.length)
  else
    { s with
      place := s.place + run.length
      stuck := some (.malformedNumber (String.ofList run), s.place + 1) }

/-- Takes a literal: what stands between the quote at the place and the next
one, or nothing if there is none, and then the rest of the line with it. -/
def readLiteral (quote : Char) (kind : Kind) (line : Nat) (text : List Char) (s : Scanner) : Scanner :=
  let body := ((s.ahead text).drop 1).takeWhile (· != quote)
  let close := s.place + 1 + body.length
  if close < text.length then s.find line kind (String.ofList body) (close + 1)
  else s.find line kind "" text.length

/-- Skips up to the closing brace, or to the end of the line if the comment
stays open. -/
def eatComment (text : List Char) (s : Scanner) : Scanner :=
  let close := s.place + ((s.ahead text).takeWhile (· != '\x7d')).length
  if close < text.length then { s with mode := .between, place := close + 1 }
  else { s with place := text.length }

/-- One turn. -/
def turn (line : Nat) (text : List Char) (s : Scanner) : Scanner :=
  match s.mode with
  | .between => s.look line text
  | .word => s.readWord line text
  | .number => s.readNumber line text
  | .string => s.readLiteral '"' .stringLiteral line text
  | .character => s.readLiteral '\'' .characterLiteral line text
  | .comment => s.eatComment text

/-- There is a turn to do. -/
structure Goes (text : List Char) (s : Scanner) : Prop where
  free : s.stuck = none
  inside : s.place < text.length

/-- `Turns line text n s t`: from `s` a scanner gets to `t` by `n` turns. -/
inductive Turns (line : Nat) (text : List Char) : Nat → Scanner → Scanner → Prop
  | zero {s : Scanner} : Turns line text 0 s s
  | succ {n : Nat} {s t : Scanner} (goes : s.Goes text) (rest : Turns line text n (s.turn line text) t) :
      Turns line text (n + 1) s t

end Scanner

/-! ## What a turn does

A turn that looks at a character either takes it for what it is or enters the
mode that takes a lexeme there, without moving, or refuses the line. The modes
that take a lexeme do move, as they are entered at its first character.
-/

/-- The characters at which a mode that takes a lexeme is entered. -/
def Mode.Opens : Mode → Char → Prop
  | .word, c => isLetter c = true
  | .number, c => isLetter c = false ∧ Text.isDigit c = true
  | .string, c => c = '"'
  | .character, c => c = '\''
  | _, _ => False

namespace Scanner

variable {line : Nat} {text : List Char} {s t : Scanner}

/-- A scanner is within its line, and if its mode takes a lexeme, it is at a
character at which that mode is entered. -/
structure Ready (text : List Char) (s : Scanner) : Prop where
  within : s.place ≤ text.length
  entered : s.stuck = none → s.mode = .between ∨ s.mode = .comment ∨
    ∃ c cs, s.ahead text = c :: cs ∧ s.mode.Opens c

/-- What a turn does: it enters a mode that takes a lexeme, or moves on, or can
read no further. -/
inductive Does (text : List Char) (s : Scanner) : Scanner → Prop
  | enters {mode : Mode} {c : Char} {cs : List Char} (between : s.mode = .between)
      (ahead : s.ahead text = c :: cs) (opens : mode.Opens c) : Does text s { s with mode }
  | moves {t : Scanner} (forward : s.place < t.place) (within : t.place ≤ text.length)
      (mode : t.stuck = none → t.mode = .between ∨ t.mode = .comment) : Does text s t
  | refuses {problem : LexProblem} {column : Nat} (between : s.mode = .between) :
      Does text s { s with stuck := some (problem, column) }

/-- How much is left of a line. -/
theorem length_ahead (text : List Char) (s : Scanner) :
    (s.ahead text).length = text.length - s.place :=
  List.length_drop

/-- Where there is a turn to do there is a character to look at. -/
theorem exists_ahead (h : s.place < text.length) : ∃ c cs, s.ahead text = c :: cs := by
  refine List.exists_cons_of_length_pos ?_
  rw [length_ahead]
  omega

/-- A run that starts at the place has a character at least, and ends within the
line. -/
theorem run_within {p : Char → Bool} {c : Char} {cs : List Char} (h : s.ahead text = c :: cs)
    (hc : p c = true) : s.place < s.place + ((s.ahead text).takeWhile p).length ∧
      s.place + ((s.ahead text).takeWhile p).length ≤ text.length := by
  have hlength := length_ahead text s
  have hle := (List.takeWhile_prefix p (l := s.ahead text)).length_le
  rw [h, List.takeWhile_cons_of_pos hc, List.length_cons] at *
  rw [List.length_cons] at *
  omega

/-- To look at a character enters a mode, moves on, or ends in a character that
starts nothing. -/
theorem does_look (h : s.Goes text) (hmode : s.mode = .between) : Does text s (s.look line text) := by
  obtain ⟨c, cs, hahead⟩ := exists_ahead h.inside
  have hlength := length_ahead text s
  rw [hahead, List.length_cons] at hlength
  rw [look, hahead]
  dsimp only
  split
  · rename_i hc
    exact .enters hmode hahead hc
  split
  · rename_i hletter hc
    exact .enters hmode hahead ⟨by simpa using hletter, hc⟩
  split
  · rename_i hc
    exact .enters hmode hahead hc
  split
  · rename_i hc
    exact .enters hmode hahead hc
  split
  · exact .moves (Nat.lt_succ_self _) h.inside fun _ => .inr rfl
  split
  · exact .moves (Nat.lt_succ_self _) h.inside fun _ => .inl hmode
  split
  · rename_i symbol kind hfind
    -- a symbol stands ahead as a whole, so the place behind it is on the line
    obtain ⟨hmem, hprefix, -⟩ := Kind.find?_symbols hfind
    have hle := hprefix.length_le
    have hsymbols : ∀ p ∈ Kind.symbols, 0 < p.1.length := by decide
    have hpos := hsymbols _ hmem
    rw [List.length_cons] at hle
    refine .moves ?_ ?_ fun _ => .inl rfl
    · show s.place < s.place + symbol.length
      exact Nat.lt_add_of_pos_right hpos
    · show s.place + symbol.length ≤ text.length
      omega
  · exact .refuses hmode

/-- To take a literal moves on, by one quote at least. -/
theorem does_readLiteral {quote : Char} {kind : Kind} (h : s.Goes text) :
    Does text s (s.readLiteral quote kind line text) := by
  have hinside := h.inside
  unfold readLiteral
  dsimp only
  split
  · rename_i hclose
    refine .moves ?_ hclose fun _ => .inl rfl
    show s.place < s.place + 1 + _ + 1
    omega
  · exact .moves hinside (Nat.le_refl _) fun _ => .inl rfl

/-- To skip a comment moves on: by the closing brace at least, or to the end of
the line. -/
theorem does_eatComment (h : s.Goes text) (hmode : s.mode = .comment) :
    Does text s (s.eatComment text) := by
  have hinside := h.inside
  unfold eatComment
  dsimp only
  split
  · rename_i hclose
    refine .moves ?_ hclose fun _ => .inl rfl
    show s.place < s.place + _ + 1
    omega
  · exact .moves hinside (Nat.le_refl _) fun _ => .inr hmode

/-- **A turn enters a mode, moves on or refuses the line.** There is one case
for each mode. -/
theorem does_turn (h : s.Goes text) (hready : s.Ready text) : Does text s (s.turn line text) := by
  unfold turn
  cases hmode : s.mode with
  | between => exact does_look h hmode
  | word =>
    obtain ⟨c, cs, hahead, hopens⟩ : ∃ c cs, s.ahead text = c :: cs ∧ isLetter c = true := by
      simpa [hmode, Mode.Opens] using hready.entered h.free
    -- the letter that the mode was entered for is the first of the run
    have hrun : isWordChar c = true := by simp [isWordChar, hopens]
    obtain ⟨hforward, hwithin⟩ := run_within hahead hrun
    exact .moves hforward hwithin fun _ => .inl rfl
  | number =>
    obtain ⟨c, cs, hahead, -, hdigit⟩ :
        ∃ c cs, s.ahead text = c :: cs ∧ isLetter c = false ∧ Text.isDigit c = true := by
      simpa [hmode, Mode.Opens] using hready.entered h.free
    have hrun : isNumberChar c = true := by simp [isNumberChar, hdigit]
    obtain ⟨hforward, hwithin⟩ := run_within hahead hrun
    dsimp only [readNumber]
    split
    · exact .moves hforward hwithin fun _ => .inl rfl
    · exact .moves hforward hwithin fun hfree => absurd hfree (Option.some_ne_none _)
  | string | character => exact does_readLiteral h
  | comment => exact does_eatComment h hmode

/-- **A turn leaves a scanner ready**, whichever of the three it does. -/
theorem Ready.does (h : s.Ready text) (hdoes : Does text s t) : t.Ready text := by
  cases hdoes with
  | enters between ahead opens => exact ⟨h.within, fun _ => .inr (.inr ⟨_, _, ahead, opens⟩)⟩
  | moves forward within mode => exact ⟨within, fun hfree => (mode hfree).imp_right .inl⟩
  | refuses => exact ⟨h.within, fun hfree => absurd hfree (Option.some_ne_none _)⟩

/-- Only modes that take a lexeme are entered at a character. -/
theorem ne_of_opens {mode : Mode} {c : Char} (h : mode.Opens c) :
    mode ≠ .between ∧ mode ≠ .comment := by
  constructor
  · rintro rfl
    exact h
  · rintro rfl
    exact h

/-- A turn moves on, or enters a mode whose turn moves on, or refuses the line. -/
def Advances (line : Nat) (text : List Char) (s : Scanner) : Prop :=
  s.place < (s.turn line text).place ∨
    (s.mode = .between ∧ (s.turn line text).mode ≠ .between ∧ (s.turn line text).Goes text ∧
      (s.turn line text).place < ((s.turn line text).turn line text).place) ∨
    (s.turn line text).stuck ≠ none

/-- **A turn does not stand still**: it moves on, or the one after it does, or
there is none after it. -/
theorem Ready.advances (hready : s.Ready text) (h : s.Goes text) : s.Advances line text := by
  have hdoes : Does text s (s.turn line text) := does_turn h hready
  generalize hturn : s.turn line text = t at hdoes
  rw [Advances, hturn]
  cases hdoes with
  | moves forward within mode => exact .inl forward
  | refuses between => exact .inr (.inr (Option.some_ne_none _))
  | @enters mode c cs between ahead opens =>
    have hgoes : Goes text { s with mode } := ⟨h.free, h.inside⟩
    have hnext : Does text { s with mode } (turn line text { s with mode }) :=
      does_turn hgoes (hready.does (.enters between ahead opens))
    refine .inr (.inl ⟨between, (ne_of_opens opens).1, hgoes, ?_⟩)
    generalize turn line text { s with mode } = u at hnext
    cases hnext with
    | moves forward within mode => exact forward
    | enters between' | refuses between' => exact absurd between' (ne_of_opens opens).1

/-! ## How many turns there are

The weight counts two turns for each character left, and one less where the
lexeme is already entered. Every turn makes it smaller.
-/

/-- An upper bound for the turns that are left: two for each character, of which
the first is done where the mode takes a lexeme, and none when the line is
refused. -/
def weight (text : List Char) (s : Scanner) : Nat :=
  if s.stuck = none then
    2 * (text.length - s.place) - (if s.mode = .between ∨ s.mode = .comment then 0 else 1)
  else 0

/-- At the start of a line there are not more than two turns to do for each
character. -/
theorem weight_le (text : List Char) (s : Scanner) : s.weight text ≤ 2 * text.length := by
  unfold weight
  split_ifs <;> omega

/-- **A turn has fewer turns after it**: this is what ends a scanner. -/
theorem weight_does (h : s.Goes text) (hdoes : Does text s t) :
    t.weight text < s.weight text := by
  have hinside := h.inside
  unfold weight
  rw [if_pos h.free]
  cases hdoes with
  | @enters mode c cs between ahead opens =>
    rw [if_pos h.free, if_neg (not_or.2 (ne_of_opens opens)), if_pos (.inl between)]
    show 2 * (text.length - s.place) - 1 < _
    omega
  | moves forward within mode =>
    split_ifs <;> omega
  | refuses =>
    rw [if_neg (Option.some_ne_none _)]
    split <;> omega

/-- What every turn keeps, all turns keep, and they are no more than the weight
at their start. -/
theorem Ready.turns {n : Nat} (h : s.Ready text) (hturns : Turns line text n s t) :
    t.Ready text ∧ n + t.weight text ≤ s.weight text := by
  induction hturns with
  | zero => exact ⟨h, (Nat.zero_add _).le⟩
  | @succ n s t goes rest ih =>
    have hdoes : Does text s (s.turn line text) := does_turn goes h
    have hless := weight_does goes hdoes
    obtain ⟨hready, hbound⟩ := ih (h.does hdoes)
    exact ⟨hready, by omega⟩

end Scanner
end Token
end Shank
