/-
# The program

Hands the arguments, the file they name and the standard input to the command
line, and prints what comes of it.
-/

import Shank.CommandLine

open Shank

/-- The bytes of a regular file. -/
def fileBytes (path : String) : IO (Option (List UInt8)) := do
  try
    return some (← IO.FS.readBinFile path).toList
  catch _ => return none

/-- The standard input as a text; bytes that are no text are left out with all
that follows. -/
def inputText : IO String := do
  let bytes ← (← IO.getStdin).readBinToEnd
  return match Text.decodeUtf8 bytes.toList with
    | .ok s => s
    | .error e =>
      match Text.decodeUtf8 (bytes.toList.take e.start) with
      | .ok s => s
      | .error _ => ""

/-- The program: reads the file that the arguments name and the input, executes
the command, and gives out what it reports. A random number is the seed of the
source. -/
def main (args : List String) : IO UInt32 := do
  let path := match CommandLine.readArguments args with
    | .ok o => o.path
    | .error _ => ""
  let bytes ← fileBytes path
  let input ← if bytes.isSome then inputText else pure ""
  let seed ← IO.rand 0 (Nat.pow 2 30)
  let report := CommandLine.execute args (fun p => if p = path then bytes else none) input (.ofSeed seed)
  (← IO.getStdout).putStr report.stdout
  (← IO.getStderr).putStr report.stderr
  return report.exit.toUInt32
