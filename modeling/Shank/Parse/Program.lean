/-
# Functions and programs

```
program  →  ENDOFLINE* (function ENDOFLINE*)*
function →  define name ( declarations ) ENDOFLINE
              ((constants | variables) declarations ENDOFLINE)* block?
```

The functions of a program are parsed one after the other until the tokens end
or one of them cannot be parsed; those in front of a fault are kept, as they
were announced already. A program is accepted when no block is left open at its
end.
-/

import Shank.Parse.Declaration
import Shank.Parse.Stmt
import Shank.Notice

namespace Shank
namespace Parse

/-- Parses the local declarations of a function. -/
def localsFrom : List Token → Parse (List Local)
  | [] => pure []
  | _ :: rounds => do
    match ← take? .constants with
    | some _ =>
      let decls ← groups constantGroup .endOfLine
      endLine
      return decls.map Local.constant ++ (← localsFrom rounds)
    | none =>
      match ← take? .variables_ with
      | some _ =>
        let decls ← groups variableGroup .endOfLine
        endLine
        return decls.map Local.var ++ (← localsFrom rounds)
      | none => pure []

/-- Parses a function. -/
def function (room : Nat) : Parse Function := do
  let start ← expect .define .define
  let name ← expect .identifier .functionName
  let _ ← expect .openParen .openParen
  let parameters ← groups variableGroup .closeParen
  let _ ← expect .closeParen .closeParen
  endLine
  let locals ← localsFrom (← remaining)
  let body ← if ← at_ .indent then block (statement room) else pure []
  pure { line := start.line, name := name.text, parameters, locals, body }

/-- The room for the nesting of blocks and expressions, unless told otherwise. -/
def defaultRoom : Nat := 19980

end Parse

/-- What came of a token stream: the functions in the order in which they were
parsed, why there is no other, and where the parser stopped. -/
structure Parsing where
  functions : List Function
  halt : Option ParseHalt
  stop : Cursor

namespace Parsing

/-- Parses functions from a cursor on, at most one for each token of a list. -/
def functionsFrom (room : Nat) : List Token → Cursor → Parsing
  | [], c => ⟨[], none, c⟩
  | _ :: rounds, c =>
    if c.rest.isEmpty then ⟨[], none, c⟩
    else
      match (do let f ← Parse.function room; Parse.skipLineEnds; pure f : Parse Function) c with
      | .ok f c =>
        let rest := functionsFrom room rounds c
        { rest with functions := f :: rest.functions }
      | .error h c => ⟨[], some h, c⟩

/-- Parses a token stream. -/
def ofTokens (tokens : List Token) (room : Nat := Parse.defaultRoom) : Parsing :=
  let start : Cursor := { rest := tokens.dropWhile fun t => t.kind == .endOfLine }
  functionsFrom room start.rest start

/-- The program, or why there is none. -/
def program (p : Parsing) : Except ParseHalt Program :=
  match p.halt with
  | some h => .error h
  | none =>
    if p.stop.level = 0 then .ok (Program.ofList p.functions)
    else .error (.fault { problem := .unbalanced p.stop.level, token := none })

/-- The notices of functions that are parsed after those of some names. -/
def noticesAfter (seen : List String) : List Function → List Notice
  | [] => []
  | f :: rest =>
    let parsed :=
      Notice.functionParsed f.name f.parameters.length f.locals.length f.body.length
    let replaced := if f.name ∈ seen then [Notice.functionReplaced f.name f.line] else []
    parsed :: replaced ++ noticesAfter (f.name :: seen) rest

/-- The notices of parsing. -/
def notices (p : Parsing) : List Notice :=
  noticesAfter [] p.functions

end Parsing

/-- The program that tokens stand for. -/
def Program.parse (tokens : List Token) : Except ParseHalt Program :=
  (Parsing.ofTokens tokens).program

end Shank
