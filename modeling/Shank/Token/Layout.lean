/-
# Lines and layout

A source text is read line by line. The indentation of a line shows in `INDENT`
and `DEDENT` tokens in front of its own ones, as many as its depth differs from
that of the line before; every line that can be read ends with an `ENDOFLINE`
token just past its last character.

| line | depth |
| --- | --- |
| with tokens | the levels of indentation that are counted in it |
| without tokens, or started inside a comment | stays |
| that cannot be read | stays, and the line gives no token |

At the end of the text every level still open is closed.
-/

import Shank.Token.Line
import Shank.Text.Lines

namespace Shank

/-- The levels of indentation in a line: a tab counts one, and so do four blanks
in a row, wherever they stand. -/
def indentCount : List Char → Nat
  | [] => 0
  | '\t' :: cs => indentCount cs + 1
  | ' ' :: ' ' :: ' ' :: ' ' :: cs => indentCount cs + 1
  | _ :: cs => indentCount cs

/-- A line that cannot be read: what is wrong, where, and the text of the line. -/
structure LexFault where
  problem : LexProblem
  line : Nat
  column : Nat
  source : String
  deriving DecidableEq, Repr

/-- The mark under the offending column. -/
def LexFault.pointer (e : LexFault) : String :=
  String.ofList (List.replicate (e.column - 1) '~' ++ ['^'])

/-- The report of an unreadable line: the message, then the line with a blank
for each tab, then the mark. An empty line is not shown. -/
def LexFault.report (e : LexFault) (margin : String) : String :=
  let headline := s!"{margin}Lexical error: {e.problem.message} at line {e.line}, col {e.column}"
  if e.source.isEmpty then headline
  else
    let shown := String.ofList (e.source.toList.map fun c => if c = '\t' then ' ' else c)
    s!"{headline}\n{margin}  {shown}\n{margin}  {e.pointer}"

namespace Token

/-- What is carried from line to line: how many lines there were, the depth of
the last one that set it, and whether a comment is open. -/
structure Layout where
  line : Nat := 0
  depth : Nat := 0
  inComment : Bool := false
  deriving DecidableEq, Repr

/-- What one line gives: the tokens it adds, and those that were recognised on
it in the order in which that happened, also when the line could not be read to
its end. -/
structure LineReport where
  next : Layout
  added : List Token
  recognised : List Token
  fault : Option LexFault
  deriving DecidableEq, Repr

namespace Layout

/-- The tokens that lead from one depth to another. -/
def step (line depth depth' : Nat) : List Token :=
  List.replicate (depth' - depth) ⟨.indent, "", line, 1⟩ ++
    List.replicate (depth - depth') ⟨.dedent, "", line, 1⟩

/-- Reads a line; line ends at its end are not part of it. -/
def readLine (s : Layout) (raw : List Char) : LineReport :=
  let text := Text.chomp raw
  let line := s.line + 1
  let (content, finish) := scanLine line s.inComment text
  match finish with
  | .stuck problem column =>
    { next := { line, depth := s.depth, inComment := false }
      added := []
      recognised := content
      fault := some ⟨problem, line, column, String.ofList text⟩ }
  | finish =>
    let depth := if content.isEmpty || s.inComment then s.depth else indentCount text
    let indentation := step line s.depth depth
    let close : List Token := [⟨.endOfLine, "", line, text.length + 1⟩]
    { next := { line, depth, inComment := finish = .inComment }
      added := indentation ++ content ++ close
      recognised := content ++ indentation ++ close
      fault := none }

/-- The tokens that close the levels still open, one line below the last. -/
def closing (s : Layout) : List Token :=
  step (s.line + 1) s.depth 0

/-- What is left once every level is closed. -/
def closed (s : Layout) : Layout :=
  { line := s.line }

/-- Reads lines one after the other. -/
def readLines (s : Layout) : List (List Char) → List LineReport
  | [] => []
  | cs :: rest =>
    let r := s.readLine cs
    r :: readLines r.next rest

/-- What is carried on after some lines. -/
def after (s : Layout) (reports : List LineReport) : Layout :=
  match reports.getLast? with
  | some r => r.next
  | none => s

end Layout

/-- The lines of a source text, read. -/
structure Reading where
  reports : List LineReport

namespace Reading

/-- The layout behind the last line. -/
def last (r : Reading) : Layout :=
  Layout.after {} r.reports

/-- The tokens of the text, every level closed. -/
def tokens (r : Reading) : List Token :=
  r.reports.flatMap LineReport.added ++ r.last.closing

/-- The lines that could not be read, in order. -/
def faults (r : Reading) : List LexFault :=
  r.reports.filterMap LineReport.fault

/-- Does a comment stay open at the end of the text? -/
def endsInComment (r : Reading) : Bool :=
  r.last.inComment

end Reading

/-- Reads the pieces of a text between its line feeds, the last one even if it
is empty, and closes no level at the end. The first piece that cannot be read
ends it. -/
def readPieces (source : String) : Except LexFault (List Token) :=
  let reports := Layout.readLines {} (Text.pieces source.toList)
  match reports.findSome? LineReport.fault with
  | some e => .error e
  | none => .ok (reports.flatMap LineReport.added)

/-- Reads a source text. Lines end at line feeds, and one at the very end of the
text starts no other line. -/
def readSource (source : String) : Reading :=
  ⟨Layout.readLines {} (Text.lines source.toList)⟩

end Token
end Shank
