/-
# A lexer that is kept

A lexer takes lines one at a time and may be told, at any time and more than
once, that its text is over. It keeps every token it has given; a line that
cannot be read adds none.
-/

import Shank.Token.Layout

namespace Shank
namespace Token

/-- What a lexer carries from line to line, and the tokens it has given so far. -/
structure Lexer where
  layout : Layout := {}
  tokens : List Token := []
  deriving DecidableEq, Repr

namespace Lexer

/-- What a lexer is asked: to read a line, or to close every level. -/
inductive Call
  | lex (raw : List Char)
  | finish
  deriving DecidableEq, Repr

/-- Answers one call. -/
def step (s : Lexer) : Call → Lexer
  | .lex raw =>
    let r := s.layout.readLine raw
    { layout := r.next, tokens := s.tokens ++ r.added }
  | .finish => { layout := s.layout.closed, tokens := s.tokens ++ s.layout.closing }

/-- A new lexer after some calls. -/
def run (calls : List Call) : Lexer :=
  calls.foldl step {}

end Lexer
end Token
end Shank
