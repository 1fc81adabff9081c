/-
# What the command line prints

A file passes the stages of the command line one after the other, and each of
them decides whether there is a next one. What is done in a stage is what the
parts of the library do with the text of the file, and what is printed is what
they give.

| the file | the first output | exit status |
| --- | --- | --- |
| has lines that cannot be read | nothing | 1 |
| is no program | its tokens, if asked for | 1 |
| is a program to be printed | its tokens, the program, as asked for | 0 |
| is a program to be run | what the run writes, up to its end or its error | 0 or 1 |

A program that is printed is not run.
-/

import Shank.CommandLine
import Shank.Proofs.Text.Utf8
import Shank.Proofs.Token.Unreadable

namespace Shank
namespace CommandLine

/-! ## Arguments

A flag is taken out of the arguments wherever it stands, so it is set if it is
among them.
-/

/-- A flag is set when it is among the arguments. -/
theorem flags_of_readArguments {args : List String} {o : Options} (h : readArguments args = .ok o) :
    (o.debug = true ↔ "--debug" ∈ args) ∧ (o.tokens = true ↔ "--tokens" ∈ args) ∧
      (o.ast = true ↔ "--ast" ∈ args) := by
  unfold readArguments at h
  dsimp only at h
  split at h
  · cases h
  · cases h
    simp [List.mem_erase_of_ne]
  · cases h

/-! ## Errors

What is told of a line goes over several lines, of which the first is printed in
red.
-/

/-- Lines with an end to each of them but the last. -/
theorem intercalate_append (r : String) (rs : List String) :
    "\n".intercalate (r :: rs) ++ "\n" = unlines (r :: rs) := by
  induction rs generalizing r with
  | nil => simp [unlines]
  | cons s rs ih =>
    rw [String.intercalate_cons_cons, String.append_assoc, ih]
    simp [unlines, String.append_assoc]

/-- A text is taken apart behind its first line. -/
theorem span_headline {head : String} {tail : List Char} (hhead : IsPlain head)
    (htail : ∀ c ∈ tail.head?, c = '\n') :
    (head.toList ++ tail).takeWhile (· != '\n') = head.toList ∧
      (head.toList ++ tail).dropWhile (· != '\n') = tail := by
  have hchars : ∀ c ∈ head.toList, (c != '\n') = true := fun c hc => by
    rw [bne_iff_ne]
    rintro rfl
    exact hhead hc
  rw [List.takeWhile_append_of_pos hchars, List.dropWhile_append_of_pos hchars]
  cases tail with
  | nil => exact ⟨List.append_nil _, rfl⟩
  | cons c cs =>
    rw [htail c rfl, List.takeWhile_cons_of_neg (by decide), List.dropWhile_cons_of_neg (by decide)]
    exact ⟨List.append_nil _, rfl⟩

/-- Of some lines the first one is printed in red, and the others as they are. -/
theorem errorText_intercalate {head : String} (hhead : IsPlain head) {rest : List String}
    (hrest : ∀ r ∈ rest.head?, r.toList ≠ []) :
    errorText ("\n".intercalate (head :: rest)) = unlines (red head :: rest) := by
  cases rest with
  | nil =>
    obtain ⟨htake, hdrop⟩ := @span_headline head [] hhead nofun
    rw [List.append_nil] at htake hdrop
    rw [← intercalate_append, String.intercalate_singleton, String.intercalate_singleton, errorText]
    simp only [htake, hdrop, String.ofList_toList]
    rfl
  | cons r rs =>
    obtain ⟨c, cs, hbody⟩ : ∃ c cs, ("\n".intercalate (r :: rs)).toList = c :: cs :=
      List.exists_cons_of_ne_nil (by cases rs <;> simp [hrest r rfl])
    rw [← intercalate_append, String.intercalate_cons_cons, String.intercalate_cons_cons]
    generalize "\n".intercalate (r :: rs) = body at hbody
    obtain ⟨htake, hdrop⟩ := @span_headline head ('\n' :: c :: cs) hhead (by simp)
    have hlist : (head ++ "\n" ++ body).toList = head.toList ++ '\n' :: c :: cs := by
      simp [hbody]
    have hofList : String.ofList (c :: cs) = body := by rw [← hbody, String.ofList_toList]
    rw [errorText]
    simp only [hlist, htake, hdrop, String.ofList_toList, hofList]
    rfl

/-- An unreadable line is told by its headline in red and its excerpt. -/
theorem errorText_report {e : LexFault} (h : IsPlain e.headline) :
    errorText (e.report "") = unlines (red e.headline :: e.excerpt) := by
  rw [e.report_eq]
  refine errorText_intercalate h fun r hr => ?_
  unfold LexFault.excerpt at hr
  dsimp only at hr
  split at hr
  · cases hr
  · cases hr
    rw [String.toList_append]
    exact nofun

/-! ## Stages

A stage is entered if the one before it went well. What it prints comes behind
what was printed before.
-/

open Token

/-- A text with lines that cannot be read is not parsed. -/
theorem runSource_of_faults (o : Options) {source : String} (input : String) (random : Random)
    (h : (readSource source).faults ≠ []) :
    runSource o source input random =
      { exit := 1
        stdout := ""
        stderr := noticesText o.debug (readSource source).notices ++
          unlines ((readSource source).faults.flatMap fun e => red e.headline :: e.excerpt) ++
          s!"{(readSource source).faults.length} lexical error(s), not parsing.\n" } := by
  have htold (es : List LexFault) (hes : ∀ e ∈ es, IsPlain e.headline) :
      String.join (es.map fun e => errorText (e.report "")) =
        unlines (es.flatMap fun e => red e.headline :: e.excerpt) := by
    induction es with
    | nil => rfl
    | cons e es ih =>
      rw [List.map_cons, String.join_cons, errorText_report (hes e (List.mem_cons_self ..)),
        ih fun e' he' => hes e' (List.mem_cons_of_mem _ he'), List.flatMap_cons, unlines, unlines, unlines,
        List.map_append, String.join_append]
  replace htold := htold _ (faults_readSource source).1
  rw [← htold]
  unfold runSource
  dsimp only
  split
  · contradiction
  · rfl

/-- A text that can be read goes on with its tokens. -/
theorem runSource_of_readable (o : Options) {source : String} (input : String) (random : Random)
    (h : (readSource source).faults = []) :
    runSource o source input random =
      runTokens o (readSource source).tokens (noticesText o.debug (readSource source).notices) input
        random := by
  unfold runSource
  dsimp only
  rw [h]

variable {o : Options} {tokens : List Token}

/-- What is told of tokens that are no program: the error, behind the tokens if
they are asked for. -/
theorem runTokens_error {h : ParseHalt} (hdebug : o.debug = false) (hparse : Program.parse tokens = .error h)
    (stderr input : String) (random : Random) :
    (runTokens o tokens stderr input random).exit = 1 ∧
      (runTokens o tokens stderr input random).stdout =
        if o.tokens then unlines (tokens.map tokenText) else "" := by
  have hprogram : (Parsing.ofTokens tokens).program = .error h := hparse
  unfold runTokens
  simp only [hprogram, broken, hdebug, Bool.false_eq_true, if_false, and_self]

/-- A program that is printed is not run. -/
theorem runTokens_printed {p : Program} (hprinted : (o.tokens || o.ast) = true)
    (hparse : Program.parse tokens = .ok p) (stderr input : String) (random : Random) :
    (runTokens o tokens stderr input random).exit = 0 ∧
      (runTokens o tokens stderr input random).stdout =
        (if o.tokens then unlines (tokens.map tokenText) else "") ++
          if o.ast then p.dump.pretty 0 ++ "\n" else "" := by
  have hprogram : (Parsing.ofTokens tokens).program = .ok p := hparse
  unfold runTokens
  simp only [hprogram, hprinted, if_true]
  refine ⟨trivial, ?_⟩
  cases o.ast with
  | true => exact String.append_assoc
  | false => exact String.append_empty.symm

/-- When the tokens or the tree are printed, neither the function to be run nor
what it could read nor the source of randomness matters. -/
theorem runTokens_eq (hprinted : (o.tokens || o.ast) = true) (entry stderr input input' : String)
    (random random' : Random) :
    runTokens { o with entry } tokens stderr input' random' = runTokens o tokens stderr input random := by
  unfold runTokens
  simp only [hprinted, if_true]

/-- A program that is not printed is run. -/
theorem runTokens_run {p : Program} (hdebug : o.debug = false) (htokens : o.tokens = false)
    (hast : o.ast = false) (hparse : Program.parse tokens = .ok p) (stderr input : String)
    (random : Random) :
    let outcome := p.run o.entry input {} random
    (runTokens o tokens stderr input random).exit = (if outcome.halt = none then 0 else 1) ∧
      (runTokens o tokens stderr input random).stdout = outcome.output := by
  have hprogram : (Parsing.ofTokens tokens).program = .ok p := hparse
  unfold runTokens
  simp only [hprogram, htokens, hast, Bool.or_self, Bool.false_eq_true, if_false]
  unfold runProgram
  dsimp only
  cases (p.run o.entry input {} random).halt with
  | none => exact ⟨rfl, rfl⟩
  | some h =>
    rw [hdebug]
    exact ⟨rfl, rfl⟩

/-! ## Commands

The stages one after the other, from the bytes of the file on.
-/

/-- A file that is the encoding of a text goes on with that text. -/
theorem execute_eq_runSource {args : List String} {file? : String → Option (List UInt8)} {source : String}
    (hargs : readArguments args = .ok o) (hfile : file? o.path = some source.toUTF8.data.toList)
    (input : String) (random : Random) :
    execute args file? input random =
      runSource o (withNewlines source) (withNewlines input) random := by
  unfold execute
  simp only [hargs, hfile, runFile, Text.decodeUtf8_toUTF8]

/-- **The command line does what the library does with a file, and no more.**
Take arguments that make sense, without `--debug`, and a file that is the
encoding of a text. If lines of the text cannot be read, that is all that is
printed: the report of each in the order of the lines, its headline in red, and
how many there are. If all can be read and nothing is to be printed, the first
output is that of the run, or empty if there is no program, and the exit status
tells if both went well. And if the tokens or the program are to be printed,
these are, the tokens also if there is no program, and it is not run: the
function that would be, the input and the random numbers do not matter. -/
theorem execute_stages {args : List String} {o : Options} {file? : String → Option (List UInt8)}
    {source : String} (hargs : readArguments args = .ok o) (hdebug : "--debug" ∉ args)
    (hfile : file? o.path = some source.toUTF8.data.toList) (input : String) (random : Random) :
    let reading := readSource (withNewlines source)
    let parsed := Program.parse reading.tokens
    let shown := if "--tokens" ∈ args then unlines (reading.tokens.map tokenText) else ""
    let report := execute args file? input random
    (reading.faults ≠ [] → report.exit = 1 ∧ report.stdout = "" ∧
      report.stderr = noticesText false reading.notices ++
        unlines (reading.faults.flatMap fun e => red e.headline :: e.excerpt) ++
        s!"{reading.faults.length} lexical error(s), not parsing.\n" ∧
      (∀ e ∈ reading.faults, IsPlain e.headline ∧
        e.report "" = "\n".intercalate (e.headline :: e.excerpt)) ∧
      (reading.faults.map LexFault.line).Pairwise (· < ·)) ∧
    (reading.faults = [] → "--tokens" ∉ args → "--ast" ∉ args →
      (∀ h, parsed = .error h → report.exit = 1 ∧ report.stdout = "") ∧
      ∀ p, parsed = .ok p →
        let outcome := p.run o.entry (withNewlines input) {} random
        report.exit = (if outcome.halt = none then 0 else 1) ∧ report.stdout = outcome.output) ∧
    (reading.faults = [] → "--tokens" ∈ args ∨ "--ast" ∈ args →
      (∀ h, parsed = .error h → report.exit = 1 ∧ report.stdout = shown) ∧
      (∀ p, parsed = .ok p → report.exit = 0 ∧
        report.stdout = shown ++ if "--ast" ∈ args then p.dump.pretty 0 ++ "\n" else "") ∧
      ∀ args' entry input' random', readArguments args' = .ok { o with entry } →
        execute args' file? input' random' = report) := by
  intro reading parsed shown report
  obtain ⟨hdebugFlag, htokens, hast⟩ := flags_of_readArguments hargs
  have hquiet : o.debug = false := by simpa [hdebug] using hdebugFlag
  have hreport : report = _ := execute_eq_runSource hargs hfile input random
  refine ⟨fun hfaults => ?_, fun hfaults hnotTokens hnotAst => ?_, fun hfaults hprinted => ?_⟩
  · obtain ⟨hplain, hordered⟩ := faults_readSource (withNewlines source)
    rw [hreport, runSource_of_faults o _ random hfaults, hquiet]
    exact ⟨rfl, rfl, rfl, fun e he => ⟨hplain e he, e.report_eq⟩, hordered⟩
  · have hnoTokens : o.tokens = false := by simpa [hnotTokens] using htokens
    have hnoAst : o.ast = false := by simpa [hnotAst] using hast
    rw [hreport, runSource_of_readable o _ random hfaults]
    refine ⟨fun h hp => ?_, fun p hp => runTokens_run hquiet hnoTokens hnoAst hp _ _ random⟩
    have herror := runTokens_error hquiet hp (noticesText o.debug reading.notices) (withNewlines input)
      random
    rwa [hnoTokens] at herror
  · have hdumps : (o.tokens || o.ast) = true := by
      rwa [Bool.or_eq_true, htokens, hast]
    have hshown : (if o.tokens then unlines (reading.tokens.map tokenText) else "") = shown :=
      if_congr htokens rfl rfl
    rw [hreport, runSource_of_readable o _ random hfaults, ← hshown]
    refine ⟨fun h hp => runTokens_error hquiet hp _ _ random, fun p hp => ?_,
      fun args' entry input' random' hargs' => ?_⟩
    · rw [← if_congr hast rfl rfl]
      exact runTokens_printed hdumps hp _ _ random
    · rw [execute_eq_runSource hargs' hfile, runSource_of_readable _ _ random' hfaults]
      exact runTokens_eq hdumps entry _ _ _ random random'

/-- The hypotheses of `execute_stages` are satisfiable: a function that writes
7, called by its name, in a file with the line ends of another system. -/
theorem execute_stages_entry :
    let source := "define other()\r\n\twrite 7\r\n"
    let file? (path : String) : Option (List UInt8) :=
      if path = "seven.shank" then some source.toUTF8.data.toList else none
    let report := execute ["--entry", "other", "seven.shank"] file? ""
    report.exit = 0 ∧ report.stdout = "7\n" := by
  intro source file? report
  have hargs : readArguments ["--entry", "other", "seven.shank"] =
      .ok { path := "seven.shank", entry := "other" } := by decide
  have hfile : file? "seven.shank" = some source.toUTF8.data.toList := if_pos rfl
  obtain ⟨-, hrun, -⟩ := execute_stages hargs (by decide) hfile "" {}
  have hlines : withNewlines source = "define other()\n\twrite 7\n" := by decide +kernel
  rw [hlines] at hrun
  have hfaults : (readSource "define other()\n\twrite 7\n").faults = [] := by decide +kernel
  have htokens : (readSource "define other()\n\twrite 7\n").tokens =
      [⟨.define, "define", 1, 1⟩, ⟨.identifier, "other", 1, 8⟩, ⟨.openParen, "(", 1, 13⟩,
        ⟨.closeParen, ")", 1, 14⟩, ⟨.endOfLine, "", 1, 15⟩, ⟨.indent, "", 2, 1⟩,
        ⟨.identifier, "write", 2, 2⟩, ⟨.number, "7", 2, 8⟩, ⟨.endOfLine, "", 2, 9⟩,
        ⟨.dedent, "", 3, 1⟩] := by decide +kernel
  have hparse : Program.parse (readSource "define other()\n\twrite 7\n").tokens =
      .ok ⟨[⟨1, "other", [], [], [.call 2 "write" [.value 2 (.literal 2 (.integer 7))]]⟩]⟩ := by
    rw [htokens]
    rfl
  obtain ⟨hexit, hstdout⟩ := (hrun hfaults (by decide) (by decide)).2 _ hparse
  exact ⟨hexit.trans (by decide +kernel), hstdout.trans (by decide +kernel)⟩

end CommandLine
end Shank
