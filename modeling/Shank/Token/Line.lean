/-
# The tokens of a line

A line is a sequence of pieces, each told by its first character:

| first character | piece |
| --- | --- |
| ASCII letter | a word: the run of ASCII letters and digits |
| digit of any script | a number: the run of digits and points |
| `"`, `'` | a literal: up to the next such quote, or empty and up to the end of the line |
| left brace | a comment: up to the next right brace, or open at the end of the line |
| white space | that character |
| symbol | the longest symbol that fits |

Anything else cannot be read, nor a number that is not decimal digits with at
most one point after the first of them.
-/

import Shank.Token
import Shank.Text.Blank
import Shank.Text.Digit

namespace Shank

/-- What cannot be read on a line. -/
inductive LexProblem
  | unknownCharacter (c : Char)
  | malformedNumber (text : String)
  deriving DecidableEq, Repr

/-- What is told of a place that no token starts at. -/
def LexProblem.message : LexProblem → String
  | unknownCharacter c => s!"Unknown character '{c}'"
  | malformedNumber text => s!"Invalid number format '{text}'"

namespace Token

/-- ASCII letters. -/
def isLetter (c : Char) : Bool :=
  ('a' ≤ c && c ≤ 'z') || ('A' ≤ c && c ≤ 'Z')

/-- What a word is made of. -/
def isWordChar (c : Char) : Bool :=
  isLetter c || ('0' ≤ c && c ≤ '9')

/-- What a number is made of, well formed or not. -/
def isNumberChar (c : Char) : Bool :=
  Text.isDigit c || c == '.'

/-- Decimal digits, then perhaps a point with more of them or none. -/
def isNumber (cs : List Char) : Bool :=
  let rest := cs.dropWhile Text.isDecimal
  !(cs.takeWhile Text.isDecimal).isEmpty &&
    match rest with
    | [] => true
    | c :: ds => c == '.' && ds.all Text.isDecimal

/-- A piece of a line. Its first character is known; `more` counts the
characters after it. -/
inductive Piece
  | lexeme (kind : Kind) (text : String) (more : Nat)
  | blank
  | comment (more : Nat) (closed : Bool)
  | unreadable (problem : LexProblem)
  deriving DecidableEq, Repr

/-- A literal whose opening quote is followed by `cs`. -/
def literal (quote : Char) (kind : Kind) (cs : List Char) : Piece :=
  let body := cs.takeWhile (· != quote)
  if body.length < cs.length then .lexeme kind (String.ofList body) (body.length + 1)
  else .lexeme kind "" cs.length

/-- How far a comment goes on in `cs`, its closing brace included, and whether
it has one. -/
def commentEnd (cs : List Char) : Nat × Bool :=
  let body := cs.takeWhile (· != '\x7d')
  if body.length < cs.length then (body.length + 1, true) else (cs.length, false)

/-- The piece that starts with `c` and may go on in `cs`. -/
def piece (c : Char) (cs : List Char) : Piece :=
  if isLetter c then
    let run := cs.takeWhile isWordChar
    let word := String.ofList (c :: run)
    .lexeme (Kind.ofWord word) word run.length
  else if Text.isDigit c then
    let run := cs.takeWhile isNumberChar
    let text := String.ofList (c :: run)
    if isNumber (c :: run) then .lexeme .number text run.length
    else .unreadable (.malformedNumber text)
  else if c = '"' then literal '"' .stringLiteral cs
  else if c = '\'' then literal '\'' .characterLiteral cs
  else if c = '\x7b' then
    let (more, closed) := commentEnd cs
    .comment more closed
  else if Text.isBlank c then .blank
  else
    match Kind.symbols.find? fun s => s.1.isPrefixOf (c :: cs) with
    | some (symbol, kind) => .lexeme kind (String.ofList symbol) (symbol.length - 1)
    | none => .unreadable (.unknownCharacter c)

/-- How a line ends: with all of it read, inside a comment, or at something
unreadable. -/
inductive LineEnd
  | plain
  | inComment
  | stuck (problem : LexProblem) (column : Nat)
  deriving DecidableEq, Repr

/-- The tokens of the text that starts at `column` of a line, and how the line
ends. -/
def scan (line column : Nat) : List Char → List Token × LineEnd
  | [] => ([], .plain)
  | c :: cs =>
    match piece c cs with
    | .lexeme kind text more =>
      let (tokens, finish) := scan line (column + 1 + more) (cs.drop more)
      (⟨kind, text, line, column⟩ :: tokens, finish)
    | .blank => scan line (column + 1) cs
    | .comment more closed =>
      if closed then scan line (column + 1 + more) (cs.drop more) else ([], .inComment)
    | .unreadable problem => ([], .stuck problem column)
termination_by cs => cs.length
decreasing_by all_goals (simp; try omega)

/-- The tokens of a line. A line that starts inside a comment is read from the
end of it on. -/
def scanLine (line : Nat) (inComment : Bool) (cs : List Char) : List Token × LineEnd :=
  if inComment then
    let (length, closed) := commentEnd cs
    if closed then scan line (1 + length) (cs.drop length) else ([], .inComment)
  else scan line 1 cs

end Token
end Shank
