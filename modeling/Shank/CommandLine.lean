/-
# The command line

The arguments name a program file, and perhaps what to do with it:

| argument | effect |
| --- | --- |
| `--entry NAME` | runs another function than `start` |
| `--tokens`, `--ast` | print the tokens or the program instead of running it |
| `--debug` | shows every notice, and breaks off with a trace at an error |

A file passes through the stages reading, parsing, running. An unreadable line
ends the first, and all such lines are told; any other error ends the stage it
occurs in. What was printed before stays printed. The exit status is 1 after any
error and 0 otherwise.
-/

import Shank.Parse.Program
import Shank.Run.Execute
import Shank.Syntax.Dump
import Shank.Text.Utf8
import Shank.Token.Notices

namespace Shank

/-- What came of a command: the exit status, the two outputs, and whether the
second one is followed by a trace. -/
structure Report where
  exit : Nat
  stdout : String
  stderr : String
  traceback : Bool := false
  deriving DecidableEq, Repr

namespace CommandLine

/-- What the arguments ask for. -/
structure Options where
  path : String
  entry : String := "start"
  tokens : Bool := false
  ast : Bool := false
  debug : Bool := false
  deriving DecidableEq, Repr

/-- Why the arguments make no sense. -/
inductive Misuse
  | entryName
  | usage
  deriving DecidableEq, Repr

/-- What is printed when the arguments make no sense. -/
def usage : String :=
  unlines
    ["Usage:",
     "  python cli.py <file.shank>",
     "  (optional) --entry NAME to start from another function (default: start)",
     "  (optional) --tokens to print the token stream",
     "  (optional) --ast to print the parsed program",
     "  (optional) --debug to show Python traceback and debug logging"]

/-- What is told of wrong arguments. -/
def Misuse.message : Misuse → String
  | entryName => "--entry needs a function name.\n"
  | usage => CommandLine.usage

/-- Takes the entry function out of the arguments. -/
def entryArgument? : List String → Option (String × List String)
  | [] => some ("start", [])
  | "--entry" :: rest =>
    match rest with
    | [] => none
    | name :: rest => some (name, rest)
  | arg :: rest => (entryArgument? rest).map fun (name, args) => (name, arg :: args)

/-- Reads the arguments. Every flag counts once. -/
def readArguments (args : List String) : Except Misuse Options :=
  let debug := args.contains "--debug"
  let args := args.erase "--debug"
  let tokens := args.contains "--tokens"
  let args := args.erase "--tokens"
  let ast := args.contains "--ast"
  let args := args.erase "--ast"
  match entryArgument? args with
  | none => .error .entryName
  | some (entry, [path]) => .ok { path, entry, tokens, ast, debug }
  | some _ => .error .usage

/-! ## Printing

What is printed is made of texts for tokens, notices and errors, with codes for
colours.
-/

/-- A text between the codes for red and for the usual colour. -/
def red (s : String) : String := s!"\x1b[31m{s}\x1b[0m"

/-- A text between the codes for yellow and for the usual colour. -/
def yellow (s : String) : String := s!"\x1b[33m{s}\x1b[0m"

/-- An error as it is printed: its first line in red, the others as they are. -/
def errorText (text : String) : String :=
  let cs := text.toList
  let headline := red (String.ofList (cs.takeWhile (· != '\n')))
  match cs.dropWhile (· != '\n') with
  | _ :: c :: rest => s!"{headline}\n{String.ofList (c :: rest)}\n"
  | _ => s!"{headline}\n"

/-- A notice as it is printed; a remark only on request. -/
def noticeText (debug : Bool) (n : Notice) : String :=
  if n.isWarning then s!"{yellow n.text}\n"
  else if debug then s!"{n.text}\n"
  else ""

/-- The notices that are printed, one to a line; remarks are among them only on
request. -/
def noticesText (debug : Bool) (ns : List Notice) : String :=
  String.join (ns.map (noticeText debug))

/-- What an event adds to the second output. -/
def eventText (debug : Bool) : Event → String
  | .printed _ => ""
  | .reported line => s!"{line}\n"
  | .noticed n => noticeText debug n

/-- A number in at least four columns, to the right or to the left of them. -/
def column (left : Bool) (n : Nat) : String :=
  let ds := Nat.toDigits 10 n
  let blanks := List.replicate (4 - ds.length) ' '
  String.ofList (if left then ds ++ blanks else blanks ++ ds)

/-- A token as it is printed: its place and its written form. -/
def tokenText (t : Token) : String :=
  s!"{column false t.line}:{column true t.column} {t.describe}"

/-! ## Errors

An error is told by what it is about, be it a fault of the program, a numeral
that is refused, or nesting that is too deep.
-/

/-- The text of an error that is no fault of the program. -/
def internalError (text : String) : String :=
  s!"Internal error: {text}"

/-- The text of a numeral that is refused. The parser does not make a fault of
it, so it shows as an error that is none of the program's. -/
def refusalText : Numeral.Refusal → String
  | .malformed => internalError "ValueError: malformed numeral"
  | .tooLong digits =>
    let limit := Numeral.longestInteger
    internalError
      (s!"ValueError: Exceeds the limit ({limit} digits) for integer string conversion: " ++
        s!"value has {digits} digits; use sys.set_int_max_str_digits() to increase the limit")

/-- The text of nesting that is too deep to go on with. It has no line. -/
def roomText : String :=
  Fault.report { cause := .roomExhausted } ""

/-- The text of what ended a parse. -/
def parseHaltText : ParseHalt → String
  | .fault f => f.report ""
  | .numeral r => refusalText r
  | .tooDeep => roomText

/-- The text of what ended a run. Where a fault of the program ended it, that is
the report of the fault; the others show as errors that are none of the
program's. -/
def haltText : Halt → String
  | .fault f => f.report ""
  | .remainderUndefined => internalError "ValueError: math domain error"
  | .boundTooLarge => internalError "OverflowError: int too large to convert to float"
  | .tooDeep => roomText
  | .unfinished => internalError "no steps left"

/-- The report of a command that breaks off with an error. -/
def broken (debug : Bool) (stdout stderr text : String) : Report :=
  if debug then { exit := 1, stdout, stderr, traceback := true }
  else { exit := 1, stdout, stderr := stderr ++ errorText text }

/-! ## Stages

The stages one after the other. Each of them is given what was printed before,
and makes the report if it is the last.
-/

/-- Runs a program. -/
def runProgram (o : Options) (p : Program) (stderr : String) (input : String) (random : Random) :
    Report :=
  let outcome := p.run o.entry input {} random
  let stderr := stderr ++ String.join (outcome.events.map (eventText o.debug))
  match outcome.halt with
  | none => { exit := 0, stdout := outcome.output, stderr }
  | some h => broken o.debug outcome.output stderr (haltText h)

/-- Parses tokens, and prints what was asked for or runs the program. -/
def runTokens (o : Options) (tokens : List Token) (stderr : String) (input : String)
    (random : Random) : Report :=
  let stdout := if o.tokens then unlines (tokens.map tokenText) else ""
  let parsing := Parsing.ofTokens tokens
  let stderr := stderr ++ noticesText o.debug parsing.notices
  match parsing.program with
  | .error h => broken o.debug stdout stderr (parseHaltText h)
  | .ok p =>
    let stdout := if o.ast then stdout ++ p.dump.pretty 0 ++ "\n" else stdout
    if o.tokens || o.ast then { exit := 0, stdout, stderr }
    else runProgram o p stderr input random

/-- Reads a source text and goes on with its tokens, unless a line cannot be
read. -/
def runSource (o : Options) (source : String) (input : String) (random : Random) : Report :=
  let reading := Token.readSource source
  let stderr := noticesText o.debug reading.notices
  match reading.faults with
  | [] => runTokens o reading.tokens stderr input random
  | faults =>
    let told := String.join (faults.map fun e => errorText (e.report ""))
    let count := s!"{faults.length} lexical error(s), not parsing.\n"
    { exit := 1, stdout := "", stderr := stderr ++ told ++ count }

/-- A text with every kind of line end made a line feed. -/
def withNewlines (s : String) : String :=
  String.ofList (Text.newlines s.toList)

/-- Decodes a file and goes on with its text. Both texts, that of the file and
the standard input, are taken after their line ends are translated: a carriage
return, alone or before a line feed, is a line feed in what is read as a source
and in what `read` gets its lines from. `Program.run` takes its input as it is. -/
def runFile (o : Options) (bytes : List UInt8) (input : String) (random : Random) : Report :=
  match Text.decodeUtf8 bytes with
  | .error e => broken o.debug "" "" (internalError s!"UnicodeDecodeError: {e.message}")
  | .ok source => runSource o (withNewlines source) (withNewlines input) random

/-- Runs a command. `file?` gives the bytes of the files there are, `input` what
can be read by the program. -/
def execute (args : List String) (file? : String → Option (List UInt8)) (input : String)
    (random : Random := {}) : Report :=
  match readArguments args with
  | .error m => { exit := 1, stdout := m.message, stderr := "" }
  | .ok o =>
    match file? o.path with
    | none => { exit := 1, stdout := "", stderr := errorText s!"File not found: {o.path}" }
    | some bytes => runFile o bytes input random

end CommandLine
end Shank
