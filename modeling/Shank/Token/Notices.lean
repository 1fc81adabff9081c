/-
# Notices of reading

Every recognised token is remarked upon, together with what the reader was
doing: inside a word, a number or a literal, between such things, or, for the
layout tokens of a line, whether it ended inside a comment. A comment that is
open when the text ends gives a warning.
-/

import Shank.Token.Layout
import Shank.Notice

namespace Shank
namespace Token

/-- The name of what a line ends in. -/
def Layout.stateName (s : Layout) : String :=
  if s.inComment then "COMMENT" else "NONE"

/-- What the reader was doing when it recognised a token on a line that leaves
`next` behind. -/
def stateName (next : Layout) (t : Token) : String :=
  if t.kind.isWord then "WORD"
  else
    match t.kind with
    | .number => "NUMBER"
    | .stringLiteral => "STRING_LITERAL"
    | .characterLiteral => "CHAR_LITERAL"
    | .indent | .dedent | .endOfLine => next.stateName
    | _ => "NONE"

/-- The notices of a line. -/
def LineReport.notices (r : LineReport) : List Notice :=
  r.recognised.map fun t => .tokenRecognised t (stateName r.next t)

/-- The notices at the end of a text. -/
def Layout.closingNotices (s : Layout) : List Notice :=
  if s.inComment then [.commentLeftOpen] else []

/-- The notices of a source text. -/
def Reading.notices (r : Reading) : List Notice :=
  r.reports.flatMap LineReport.notices ++ r.last.closingNotices

end Token
end Shank
