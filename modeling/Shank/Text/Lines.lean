/-
# Lines

A text is cut into lines at line feeds only. Where the carriage return counts
too, it is turned into a line feed first (`newlines`).
-/

import Shank.Text.Blank

namespace Shank
namespace Text

/-- Puts a character in front of the pieces that follow it: a line feed closes
an empty piece. -/
def splitAt (c : Char) : List (List Char) → List (List Char)
  | [] => [[c]]
  | p :: ps => if c = '\n' then [] :: p :: ps else (c :: p) :: ps

/-- The pieces of a text between its line feeds; there is always at least one. -/
def pieces (cs : List Char) : List (List Char) :=
  cs.foldr splitAt [[]]

/-- A text has at least one piece, if only an empty one. -/
theorem pieces_ne_nil (cs : List Char) : pieces cs ≠ [] := by
  cases cs with
  | nil => simp [pieces]
  | cons c cs =>
    rw [pieces, List.foldr_cons]
    unfold splitAt
    split <;> (try split) <;> simp

/-- The lines of a text: a line feed at the very end closes the last line and
starts no other. -/
def lines (cs : List Char) : List (List Char) :=
  let ps := pieces cs
  if ps.getLast? = some [] then ps.dropLast else ps

/-- The characters that end a line. -/
def isLineEnd (c : Char) : Bool :=
  c == '\r' || c == '\n'

/-- A line without the carriage returns and line feeds at its end. -/
def chomp (cs : List Char) : List Char :=
  trimEnd isLineEnd cs

/-- Every carriage return, with the line feed after it if there is one, becomes
a line feed. -/
def newlines (cs : List Char) : List Char :=
  (cs.foldl (fun (out, afterReturn) c =>
    if c = '\r' then ('\n' :: out, true)
    else if c = '\n' ∧ afterReturn = true then (out, false)
    else (c :: out, false)) ([], false)).1.reverse

/-- The lines of a text as strings, without their line feeds. -/
def textLines (s : String) : List String :=
  (lines s.toList).map String.ofList

/-- A text without the line ends at its end. -/
def chomped (s : String) : String :=
  String.ofList (chomp s.toList)

end Text
end Shank
