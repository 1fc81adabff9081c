/-
# Notices

Besides its output a program's way through reading, parsing and running is
accompanied by notices: warnings, which are always shown, and remarks, which are
shown on request. Each belongs to a part of the system.

| notice | part | level |
| --- | --- | --- |
| a token was recognised | lexer | remark |
| a comment stays open at the end | lexer | warning |
| a function was parsed | parser | remark |
| a function replaces another | parser | warning |
| a function is entered, a built-in is called | interpreter | remark |
| a built-in refused its call | library | remark |
-/

import Shank.Token

namespace Shank

/-- A notice. -/
inductive Notice
  | tokenRecognised (token : Token) (state : String)
  | commentLeftOpen
  | functionParsed (name : String) (parameters locals statements : Nat)
  | functionReplaced (name : String) (line : Nat)
  | functionEntered (name : String) (depth : Nat)
  | builtinCalled (name : String) (arguments : Nat)
  | builtinRefused (name : String) (problem : String)
  deriving DecidableEq, Repr

namespace Notice

/-- Warnings are shown in any case. -/
def isWarning : Notice → Bool
  | commentLeftOpen => true
  | functionReplaced _ _ => true
  | _ => false

/-- The part of the system a notice comes from. -/
def part : Notice → String
  | tokenRecognised _ _ => "shank.lexer"
  | commentLeftOpen => "shank.lexer"
  | functionParsed _ _ _ _ => "shank.parser"
  | functionReplaced _ _ => "shank.parser"
  | functionEntered _ _ => "shank.interpreter"
  | builtinCalled _ _ => "shank.interpreter"
  | builtinRefused _ _ => "shank.library"

/-- The text of a notice without its heading. -/
def message : Notice → String
  | tokenRecognised t state =>
    s!"token {t.describe} (line {t.line}, col {t.column}, state {state})"
  | commentLeftOpen => "comment still open at end of input"
  | functionParsed name parameters locals statements =>
    s!"parsed function {name} ({parameters} params, {locals} locals, {statements} statements)"
  | functionReplaced name line =>
    s!"Duplicate function name '{name}': line {line} replaces the earlier definition"
  | functionEntered name depth => s!"enter {name} (depth {depth})"
  | builtinCalled name arguments => s!"builtin {name} ({arguments} args)"
  | builtinRefused name problem => s!"{name} rejected: {problem}"

/-- A notice as a line: its level, the part it comes from, and the message. -/
def text (n : Notice) : String :=
  let level := if n.isWarning then "WARNING" else "DEBUG"
  s!"{level} {n.part}: {n.message}"

end Notice
end Shank
