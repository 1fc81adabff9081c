/-
# Written lines are read back

A lexeme is `Readable` when it is told from whatever stands behind a blank after
it, and neither ends nor indents a line. Readable lexemes with single blanks
between them, and tabs in front, are read as these lexemes, at the depth of as
many levels as there are tabs (`lexemes_readLines`).

Indentation is counted over a whole line, so a literal could indent it; blanks
in a row stand within one lexeme, for a lexeme starts with something else.

The lexemes on a line are found one after the other (`scan_spaced`), each told
by being readable, so which lexemes a program has is not asked here.
-/

import Shank.Proofs.Print.Stream
import Shank.Proofs.Token.BlankRuns
import Shank.Proofs.Token.Depth

namespace Shank

/-- Does a text end, or go on with a blank? -/
def Pauses (cs : List Char) : Prop :=
  ∀ c ∈ cs.head?, c = ' '

/-- Is a lexeme read as it is written? -/
structure Lexeme.Readable (l : Lexeme) : Prop where
  piece : ∃ c cs, l.written = c :: cs ∧ c ≠ ' ' ∧
    ∀ tail, Pauses tail → Token.piece c (cs ++ tail) = .lexeme l.kind l.text cs.length
  indent : ∀ tail, indentCount (l.written ++ tail) = indentCount tail
  newline : '\n' ∉ l.written
  last : ∀ c ∈ l.written.getLast?, Text.isLineEnd c = false

/-! ## Counting indentation

Indentation is counted wherever tabs and blanks stand in a line, so a line that
is written may only have single blanks behind the tabs in front.
-/

/-- Text with neither tabs nor blanks does not count. -/
theorem indentCount_append_of_solid {cs : List Char} (h : ∀ c ∈ cs, c ≠ '\t' ∧ c ≠ ' ')
    (tail : List Char) : indentCount (cs ++ tail) = indentCount tail := by
  have hcuts : ¬CutsBlanks cs tail := fun hcuts => (h _ (List.mem_of_getLast? hcuts.1)).2 rfl
  rw [indentCount_append_of_not_cuts hcuts, indentCount_of_plain h, Nat.zero_add]

/-- A blank with none after it does not count. -/
theorem indentCount_blank {cs : List Char} (h : cs.head? ≠ some ' ') :
    indentCount (' ' :: cs) = indentCount cs := by
  have hcuts : ¬CutsBlanks [' '] cs := fun hcuts => h hcuts.2
  exact (indentCount_append_of_not_cuts hcuts).trans (Nat.zero_add _)

/-- Text without tabs and without four blanks in a row does not count. -/
theorem indentCount_of_short_runs {cs : List Char} (htab : '\t' ∉ cs)
    (hblanks : ¬List.replicate 4 ' ' <:+: cs) : indentCount cs = 0 := by
  induction cs using indentCount.induct with
  | case1 => rfl
  | case2 cs => exact absurd List.mem_cons_self htab
  | case3 cs => exact absurd ⟨[], cs, rfl⟩ hblanks
  | case4 c cs hc hcs ih =>
    rw [indentCount.eq_4 _ _ hc hcs]
    exact ih (fun h => htab (List.mem_cons_of_mem c h))
      fun h => hblanks (h.trans (List.suffix_cons c cs).isInfix)

namespace Lexeme

/-! ## Readable lexemes

A lexeme that is made of letters, digits or signs has no blank in it, and it is
told from what follows by the blank behind it. A literal may have blanks of its
own, but not four in a row.
-/

/-- A run of characters ends with the lexeme, if what follows starts with a
blank or not at all. -/
theorem takeWhile_pauses {p : Char → Bool} {cs tail : List Char} (h : ∀ c ∈ cs, p c = true)
    (htail : Pauses tail) (hp : p ' ' = false) : (cs ++ tail).takeWhile p = cs := by
  rw [List.takeWhile_append_of_pos h]
  cases tail with
  | nil => simp
  | cons c tail =>
    obtain rfl : c = ' ' := htail c rfl
    rw [List.takeWhile_cons_of_neg (by simp [hp]), List.append_nil]

/-- Is a character neither a tab nor a blank, and does it end no line? -/
def IsSolid (c : Char) : Prop :=
  c ≠ '\t' ∧ c ≠ ' ' ∧ Text.isLineEnd c = false

instance (c : Char) : Decidable (IsSolid c) :=
  inferInstanceAs (Decidable (_ ∧ _ ∧ _))

/-- A class of characters is solid if the tab, the blank and the line ends are
not in it. -/
theorem isSolid_of_class {p : Char → Bool} (hp : ['\t', ' ', '\r', '\n'].any p = false)
    {c : Char} (hc : p c = true) : IsSolid c := by
  have hne : ∀ d ∈ ['\t', ' ', '\r', '\n'], c ≠ d := by
    rintro d hd rfl
    exact List.any_eq_false.1 hp _ hd hc
  simp only [List.forall_mem_cons] at hne
  obtain ⟨htab, hblank, hreturn, hnewline, -⟩ := hne
  refine ⟨htab, hblank, ?_⟩
  rw [Text.isLineEnd, Bool.or_eq_false_iff, beq_eq_false_iff_ne, beq_eq_false_iff_ne]
  exact ⟨hreturn, hnewline⟩

/-- A lexeme without blanks. -/
theorem readable_of_solid {l : Lexeme} {c : Char} {cs : List Char} (hl : l.written = c :: cs)
    (hsolid : ∀ d ∈ c :: cs, IsSolid d)
    (hpiece : ∀ tail, Pauses tail → Token.piece c (cs ++ tail) = .lexeme l.kind l.text cs.length) :
    l.Readable where
  piece := ⟨c, cs, hl, (hsolid c (List.mem_cons_self ..)).2.1, hpiece⟩
  indent := by
    rw [hl]
    exact indentCount_append_of_solid fun d hd => ⟨(hsolid d hd).1, (hsolid d hd).2.1⟩
  newline := by
    rw [hl]
    exact fun h => absurd (hsolid _ h).2.2 (by decide)
  last := by
    rw [hl]
    exact fun d hd => (hsolid d (List.mem_of_getLast? hd)).2.2

/-- A word. -/
theorem readable_word {kind : Token.Kind} {s : String} (hw : (⟨kind, s⟩ : Lexeme).written = s.toList)
    (hhead : ∃ c ∈ s.toList.head?, Token.isLetter c = true)
    (hchars : ∀ c ∈ s.toList, Token.isWordChar c = true) (hkind : Token.Kind.ofWord s = kind) :
    (⟨kind, s⟩ : Lexeme).Readable := by
  obtain ⟨c, hc, hletter⟩ := hhead
  cases hs : s.toList with
  | nil => rw [hs] at hc; cases hc
  | cons d cs =>
    rw [hs] at hc hchars
    cases hc
    refine readable_of_solid (hw.trans hs) (fun d hd => isSolid_of_class rfl (hchars d hd))
      fun tail htail => ?_
    have hrun : (cs ++ tail).takeWhile Token.isWordChar = cs :=
      takeWhile_pauses (fun d hd => hchars d (List.mem_cons_of_mem _ hd)) htail (by decide)
    have hofList : String.ofList (c :: cs) = s := by rw [← hs, String.ofList_toList]
    simp only [Token.piece, hletter, if_true, hrun, hofList, hkind]

/-- A name is readable. -/
theorem readable_name {s : String} (h : IsName s) : (name s).Readable :=
  readable_word rfl h.head h.chars h.word

/-- A decimal digit of any script is no letter. -/
theorem not_isLetter_of_isDecimal {c : Char} (h : Text.isDecimal c = true) :
    Token.isLetter c = false := by
  obtain ⟨d, hd⟩ := Option.isSome_iff_exists.1 h
  obtain ⟨z, hz, -⟩ := Option.map_eq_some_iff.1 hd
  have hrange := List.find?_some hz
  have hzeros := (by decide : ∀ z ∈ Text.decimalZeros, z + 10 ≤ 'A'.toNat ∨ 'z'.toNat < z) z
    (List.mem_of_find?_eq_some hz)
  simp only [Bool.and_eq_true, decide_eq_true_eq] at hrange
  simp only [Char.reduceToNat] at hzeros
  simp only [Token.isLetter, Char.le_def, UInt32.le_iff_toNat_le, Bool.or_eq_false_iff,
    Bool.and_eq_false_iff, decide_eq_false_iff_not]
  rcases hzeros with h | h
  · exact ⟨.inl (by simp; omega), .inl (by simp; omega)⟩
  · exact ⟨.inr (by simp; omega), .inr (by simp; omega)⟩

/-- A number is made of digits and points. -/
theorem isNumberChar_of_isNumber {cs : List Char} (h : Token.isNumber cs = true) :
    ∀ c ∈ cs, Token.isNumberChar c = true := by
  have hdecimal : ∀ {c}, Text.isDecimal c = true → Token.isNumberChar c = true := fun h => by
    rw [Token.isNumberChar, Text.isDigit_of_isDecimal h, Bool.true_or]
  rw [Token.isNumber, Bool.and_eq_true] at h
  have hrest := h.2
  intro c hc
  rw [← List.takeWhile_append_dropWhile (p := Text.isDecimal) (l := cs), List.mem_append] at hc
  rcases hc with hc | hc
  · exact hdecimal (List.all_eq_true.1 List.all_takeWhile c hc)
  · cases hdrop : cs.dropWhile Text.isDecimal with
    | nil => rw [hdrop] at hc; cases hc
    | cons d ds =>
      rw [hdrop] at hrest hc
      simp only [Bool.and_eq_true, beq_iff_eq, List.all_eq_true] at hrest
      rcases List.mem_cons.1 hc with rfl | hc
      · rw [hrest.1]
        decide
      · exact hdecimal (hrest.2 c hc)

/-- A numeral. -/
theorem readable_number {s : String} (h : Token.isNumber s.toList = true) : (number s).Readable := by
  have hchars := isNumberChar_of_isNumber h
  cases hs : s.toList with
  | nil => rw [hs] at h; cases h
  | cons c cs =>
    rw [hs] at h hchars
    have hdecimal : Text.isDecimal c = true := by
      by_contra hc
      rw [Token.isNumber, List.takeWhile_cons_of_neg hc] at h
      cases h
    refine readable_of_solid (l := number s) hs (fun d hd => isSolid_of_class rfl (hchars d hd))
      fun tail htail => ?_
    have hrun : (cs ++ tail).takeWhile Token.isNumberChar = cs :=
      takeWhile_pauses (fun d hd => hchars d (List.mem_cons_of_mem _ hd)) htail (by decide)
    have hofList : String.ofList (c :: cs) = s := by rw [← hs, String.ofList_toList]
    simp only [Token.piece, not_isLetter_of_isDecimal hdecimal, Text.isDigit_of_isDecimal hdecimal,
      hrun, h, hofList, Bool.false_eq_true, if_false, if_true]
    rfl

/-- **A literal in its quotes is readable**, if its text has no such quote, no
line end, and no run of blanks that would count as an indent. -/
theorem readable_quoted {kind : Token.Kind} {quote : Char} {s : String} (hs : IsQuotable quote s)
    (hquote : IsSolid quote)
    (hw : (⟨kind, s⟩ : Lexeme).written = quote :: (s.toList ++ [quote]))
    (hpiece : ∀ cs, Token.piece quote cs = Token.literal quote kind cs) :
    (⟨kind, s⟩ : Lexeme).Readable where
  piece := by
    refine ⟨quote, s.toList ++ [quote], hw, hquote.2.1, fun tail _ => ?_⟩
    -- the piece ends at the next quote, which is the one behind the text
    have hrun : (s.toList ++ [quote] ++ tail).takeWhile (· != quote) = s.toList := by
      have hinside : ∀ c ∈ s.toList, (c != quote) = true := by
        rintro c hc
        simp only [bne_iff_ne]
        rintro rfl
        exact hs.quote hc
      rw [List.append_assoc, List.takeWhile_append_of_pos hinside]
      simp
    rw [hpiece, Token.literal, hrun]
    simp
  indent := fun tail => by
    have hquotes : ∀ c ∈ [quote], c ≠ '\t' ∧ c ≠ ' ' := by
      simpa using ⟨hquote.1, hquote.2.1⟩
    -- a quote is no blank, so no run of them goes on behind the text
    have hcuts : ¬CutsBlanks s.toList (quote :: tail) := fun hcuts =>
      hquote.2.1 (Option.some.inj hcuts.2)
    calc indentCount ((⟨kind, s⟩ : Lexeme).written ++ tail)
      _ = indentCount ([quote] ++ (s.toList ++ quote :: tail)) := by rw [hw]; simp
      _ = indentCount (s.toList ++ quote :: tail) := indentCount_append_of_solid hquotes _
      _ = indentCount s.toList + indentCount ([quote] ++ tail) := indentCount_append_of_not_cuts hcuts
      _ = indentCount tail := by
        rw [indentCount_of_short_runs hs.tab hs.blanks, indentCount_append_of_solid hquotes,
          Nat.zero_add]
  newline := by
    have hne : '\n' ≠ quote := by
      rintro rfl
      exact absurd hquote.2.2 (by decide)
    simp [hw, hne, hs.line]
  last := by
    rw [hw, ← List.cons_append, List.getLast?_concat]
    rintro c ⟨⟩
    exact hquote.2.2

/-- A symbol. -/
theorem readable_symbol {l : Lexeme} {c : Char} {cs : List Char} (hl : l.written = c :: cs)
    (hsolid : ∀ d ∈ c :: cs, IsSolid d)
    (hend : Token.piece c cs = .lexeme l.kind l.text cs.length)
    (hblank : ∀ tail, Token.piece c (cs ++ ' ' :: tail) = .lexeme l.kind l.text cs.length) :
    l.Readable := by
  refine readable_of_solid hl hsolid fun tail htail => ?_
  cases tail with
  | nil => rw [List.append_nil, hend]
  | cons d tail =>
    obtain rfl : d = ' ' := htail d rfl
    exact hblank tail

end Lexeme

/-! ## One line

The tabs in front of a line count its depth. Behind them its lexemes are found
one after the other, each up to the blank that is written behind it.
-/

/-- Can a line be read as it is written? -/
structure Line.Readable (l : Line) : Prop where
  ne_nil : l.lexemes ≠ []
  lexemes : ∀ x ∈ l.lexemes, x.Readable

/-- A lexeme is followed by a blank and the others. -/
theorem spaced_cons (l : Lexeme) {rest : List Lexeme} (h : rest ≠ []) :
    spaced (l :: rest) = l.written ++ ' ' :: spaced rest := by
  cases rest with
  | nil => exact absurd rfl h
  | cons => rfl

/-- A line of lexemes starts with one of their characters, which is no blank. -/
theorem exists_spaced_cons {l : Lexeme} (h : l.Readable) (rest : List Lexeme) :
    ∃ c cs, spaced (l :: rest) = c :: cs ∧ c ≠ ' ' := by
  obtain ⟨c, cs, hl, hc, -⟩ := h.piece
  cases rest with
  | nil => exact ⟨c, cs, hl, hc⟩
  | cons m ms => exact ⟨c, _, by rw [spaced_cons l (List.cons_ne_nil m ms), hl]; rfl, hc⟩

/-- No lexeme starts with a blank. -/
theorem head?_spaced {ls : List Lexeme} (h : ∀ l ∈ ls, l.Readable) :
    (spaced ls).head? ≠ some ' ' := by
  cases ls with
  | nil => simp [spaced]
  | cons l rest =>
    obtain ⟨c, cs, hl, hc⟩ := exists_spaced_cons (h l (List.mem_cons_self ..)) rest
    rw [hl]
    simpa using hc

/-- **Lexemes do not indent their line.** A blank between two of them stands
alone, and none of them holds four in a row or a tab. -/
theorem indentCount_spaced {ls : List Lexeme} (h : ∀ l ∈ ls, l.Readable) :
    indentCount (spaced ls) = 0 := by
  induction ls using spaced.induct with
  | case1 => rfl
  | case2 l =>
    have hl := (h l (List.mem_cons_self ..)).indent []
    rwa [List.append_nil] at hl
  | case3 l rest hne ih =>
    obtain ⟨hl, hrest⟩ := List.forall_mem_cons.1 h
    rw [spaced_cons l hne, hl.indent, indentCount_blank (head?_spaced hrest), ih hrest]

/-- A line of lexemes holds no line feed. -/
theorem newline_not_mem_spaced {ls : List Lexeme} (h : ∀ l ∈ ls, l.Readable) : '\n' ∉ spaced ls := by
  induction ls using spaced.induct with
  | case1 => exact List.not_mem_nil
  | case2 l => exact (h l (List.mem_cons_self ..)).newline
  | case3 l rest hne ih =>
    obtain ⟨hl, hrest⟩ := List.forall_mem_cons.1 h
    rw [spaced_cons l hne, List.mem_append, List.mem_cons, not_or, not_or]
    exact ⟨hl.newline, by decide, ih hrest⟩

/-- A line of lexemes does not end with a line end. -/
theorem getLast?_spaced {ls : List Lexeme} (h : ∀ l ∈ ls, l.Readable) :
    ∀ c ∈ (spaced ls).getLast?, Text.isLineEnd c = false := by
  induction ls using spaced.induct with
  | case1 => simp [spaced]
  | case2 l => exact (h l (List.mem_cons_self ..)).last
  | case3 l rest hne ih =>
    obtain ⟨-, hrest⟩ := List.forall_mem_cons.1 h
    obtain ⟨m, ms, rfl⟩ := List.exists_cons_of_ne_nil hne
    obtain ⟨d, ds, hd, -⟩ := exists_spaced_cons (hrest m (List.mem_cons_self ..)) ms
    rw [spaced_cons l hne, List.getLast?_append, hd, List.getLast?_cons_cons]
    intro e he
    refine ih hrest e ?_
    rw [hd]
    simpa [List.getLast?_cons] using he

namespace Token

/-- **A readable lexeme is the next token**, and the line goes on behind it. -/
theorem scan_written {l : Lexeme} (h : l.Readable) (line column : Nat) {tail : List Char}
    (htail : Pauses tail) :
    scan line column (l.written ++ tail) =
      (⟨l.kind, l.text, line, column⟩ :: (scan line (column + l.written.length) tail).1,
        (scan line (column + l.written.length) tail).2) := by
  obtain ⟨c, cs, hl, -, hpiece⟩ := h.piece
  have hcolumn : column + 1 + cs.length = column + (c :: cs).length := by
    rw [List.length_cons]
    omega
  rw [hl, List.cons_append, scan, hpiece tail htail]
  simp only [List.drop_left, hcolumn]

/-- White space is skipped. -/
theorem scan_blank (line column : Nat) {c : Char} (hc : ∀ cs, piece c cs = .blank) (cs : List Char) :
    scan line column (c :: cs) = scan line (column + 1) cs := by
  rw [scan, hc]

/-- Tabs in front are skipped; they count for the column only. -/
theorem scan_tabs (line column d : Nat) (cs : List Char) :
    scan line column (List.replicate d '\t' ++ cs) = scan line (column + d) cs := by
  induction d generalizing column with
  | zero => rfl
  | succ d ih =>
    rw [List.replicate_succ, List.cons_append, scan_blank line column fun _ => rfl, ih]
    congr 1
    omega

/-- Readable lexemes with single blanks between them are read as they are
written. A blank ends what is in front of it, and adds no token of its own. -/
theorem scan_spaced {ls : List Lexeme} (h : ∀ l ∈ ls, l.Readable) (line column : Nat) :
    (scan line column (spaced ls)).1.map Token.lexeme = ls ∧
      (scan line column (spaced ls)).2 = .plain := by
  induction ls using spaced.induct generalizing column with
  | case1 => rw [spaced, scan]; exact ⟨rfl, rfl⟩
  | case2 l =>
    have hpause : Pauses [] := by rintro c ⟨⟩
    -- the last one ends with the line
    have hend := scan_written (h l (List.mem_cons_self ..)) line column hpause
    rw [List.append_nil, scan] at hend
    rw [spaced, hend]
    exact ⟨rfl, rfl⟩
  | case3 l rest hne ih =>
    obtain ⟨hl, hrest⟩ := List.forall_mem_cons.1 h
    have hpause : Pauses (' ' :: spaced rest) := by
      rintro c ⟨⟩
      rfl
    rw [spaced_cons l hne, scan_written hl line column hpause,
      scan_blank _ _ fun _ => rfl]
    obtain ⟨htokens, hplain⟩ := ih hrest (column + l.written.length + 1)
    exact ⟨by rw [List.map_cons, htokens]; rfl, hplain⟩

end Token

/-- Nothing is trimmed off a text that does not end with what is trimmed. -/
theorem Text.trimEnd_eq_self {p : Char → Bool} {cs : List Char}
    (h : ∀ c ∈ cs.getLast?, p c = false) : trimEnd p cs = cs := by
  rw [← List.head?_reverse] at h
  rw [trimEnd]
  cases hcs : cs.reverse with
  | nil => rw [List.reverse_eq_nil_iff.1 hcs]; rfl
  | cons c rest =>
    rw [hcs] at h
    rw [List.dropWhile_cons_of_neg (by simp [h c rfl]), ← hcs, List.reverse_reverse]

/-- A written line has no line end of its own. -/
theorem Line.chomp_text {l : Line} (h : l.Readable) : Text.chomp l.text = l.text := by
  refine Text.trimEnd_eq_self fun c hc => getLast?_spaced h.lexemes c ?_
  obtain ⟨x, xs, hl⟩ := List.exists_cons_of_ne_nil h.ne_nil
  obtain ⟨d, ds, hd, -⟩ := exists_spaced_cons (h.lexemes x (hl ▸ List.mem_cons_self ..)) xs
  rw [Line.text, List.getLast?_append, hl, hd] at hc
  rw [hl, hd]
  simpa [List.getLast?_cons] using hc

namespace Token
namespace Layout

/-- Between two depths the same `INDENT`s or `DEDENT`s are read as are written. -/
theorem lexemes_step (line d d' : Nat) : (step line d d').map Token.lexeme = stepLexemes d d' := by
  rw [step, List.map_append, List.map_replicate, List.map_replicate]
  rfl

/-- **A readable line gives what was written**: the layout that leads to its
depth, its lexemes and its end. The depth is counted from the tabs in front, as
nothing behind them counts. -/
theorem readLine_written {s : Layout} (hs : s.inComment = false) {l : Line} (h : l.Readable) :
    ((s.readLine l.text).added.map Token.lexeme =
        stepLexemes s.depth l.depth ++ (l.lexemes ++ [.lineEnd])) ∧
      (s.readLine l.text).next.depth = l.depth ∧ (s.readLine l.text).next.inComment = false ∧
      (s.readLine l.text).fault = none := by
  obtain ⟨htokens, hplain⟩ := scan_spaced h.lexemes (s.line + 1) (1 + l.depth)
  have hscan : scanLine (s.line + 1) s.inComment (Text.chomp l.text) =
      scan (s.line + 1) (1 + l.depth) (spaced l.lexemes) := by
    rw [Line.chomp_text h, hs, scanLine, if_neg Bool.false_ne_true, Line.text, scan_tabs]
  have hdepth : indentCount (Text.chomp l.text) = l.depth := by
    rw [Line.chomp_text h, Line.text, indentCount_tabs, indentCount_spaced h.lexemes, Nat.add_zero]
  unfold readLine
  dsimp only
  rw [hscan]
  generalize scan (s.line + 1) (1 + l.depth) (spaced l.lexemes) = scanned at htokens hplain
  obtain ⟨content, finish⟩ := scanned
  cases hplain
  -- a readable line has lexemes, so it is no empty one
  have hcontent : content.isEmpty = false := by
    cases content with
    | nil => exact absurd htokens.symm h.ne_nil
    | cons => rfl
  simp only [hcontent, hs, hdepth, Bool.or_self, Bool.false_eq_true, if_false]
  refine ⟨?_, trivial, decide_eq_false (fun e => nomatch e), trivial⟩
  rw [List.map_append, List.map_append, lexemes_step, htokens, List.append_assoc]
  rfl

/-- **Readable lines are read as they are written.** -/
theorem lexemes_readLines {s : Layout} (hs : s.inComment = false) {lines : List Line}
    (h : ∀ l ∈ lines, l.Readable) (d : Nat) :
    ((readLines s (lines.map Line.text)).flatMap LineReport.added).map Token.lexeme ++
        stepLexemes (s.after (readLines s (lines.map Line.text))).depth d = stream s.depth lines d ∧
      (readLines s (lines.map Line.text)).filterMap LineReport.fault = [] := by
  induction lines generalizing s with
  | nil => exact ⟨rfl, rfl⟩
  | cons l rest ih =>
    obtain ⟨hadded, hdepth, hcomment, hfault⟩ := readLine_written hs (h l (List.mem_cons_self ..))
    obtain ⟨hrest, hfaults⟩ := ih hcomment fun m hm => h m (List.mem_cons_of_mem _ hm)
    rw [List.map_cons, readLines, List.flatMap_cons, List.map_append, after_cons, hadded,
      List.append_assoc, hrest, hdepth, stream, List.filterMap_cons_none hfault]
    exact ⟨by simp only [List.append_assoc, List.singleton_append], hfaults⟩

end Layout
end Token

/-! ## All lines

The text of some lines is their characters with a line feed behind each. Cut at
the line feeds it gives the lines again, for none of them holds any.
-/

/-- A line and its line feed are the first piece. -/
theorem Text.pieces_append {cs : List Char} (h : '\n' ∉ cs) (rest : List Char) :
    pieces (cs ++ '\n' :: rest) = cs :: pieces rest := by
  induction cs with
  | nil =>
    obtain ⟨p, ps, hp⟩ := List.exists_cons_of_ne_nil (pieces_ne_nil rest)
    rw [List.nil_append, pieces, List.foldr_cons, ← pieces, hp, splitAt, if_pos rfl]
  | cons c cs ih =>
    have hc : c ≠ '\n' := fun e => h (e ▸ List.mem_cons_self ..)
    rw [List.cons_append, pieces, List.foldr_cons, ← pieces, ih fun hm => h (List.mem_cons_of_mem _ hm),
      splitAt, if_neg hc]

/-- **The lines of a text that is put together line by line are those lines.** -/
theorem Text.lines_flatMap {ls : List (List Char)} (h : ∀ cs ∈ ls, '\n' ∉ cs) :
    lines (ls.flatMap fun cs => cs ++ ['\n']) = ls := by
  have hpieces : pieces (ls.flatMap fun cs => cs ++ ['\n']) = ls ++ [[]] := by
    induction ls with
    | nil => rfl
    | cons cs rest ih =>
      rw [List.flatMap_cons, List.append_assoc, List.singleton_append,
        pieces_append (h cs (List.mem_cons_self ..)),
        ih fun ds hds => h ds (List.mem_cons_of_mem _ hds), List.cons_append]
  rw [lines]
  simp [hpieces]

/-- A written line holds no line feed. -/
theorem Line.newline_not_mem_text {l : Line} (h : l.Readable) : '\n' ∉ l.text := by
  rw [Line.text, List.mem_append, not_or]
  exact ⟨fun hm => absurd (List.eq_of_mem_replicate hm) (by decide), newline_not_mem_spaced h.lexemes⟩

/-- **A text of readable lines is read without faults, as the lexemes written on
its lines.** -/
theorem Token.readSource_written {ls : List Line} (h : ∀ l ∈ ls, l.Readable) :
    (readSource (String.ofList (ls.flatMap fun l => l.text ++ ['\n']))).tokens.map Token.lexeme =
        stream 0 ls 0 ∧
      (readSource (String.ofList (ls.flatMap fun l => l.text ++ ['\n']))).faults = [] := by
  have hlines : Text.lines (ls.flatMap fun l => l.text ++ ['\n']) = ls.map Line.text := by
    have hmap : (ls.flatMap fun l => l.text ++ ['\n']) =
        (ls.map Line.text).flatMap fun cs => cs ++ ['\n'] := by rw [List.flatMap_map]
    rw [hmap]
    refine Text.lines_flatMap fun cs hcs => ?_
    obtain ⟨l, hl, rfl⟩ := List.mem_map.1 hcs
    exact Line.newline_not_mem_text (h l hl)
  obtain ⟨htokens, hfaults⟩ := Layout.lexemes_readLines (s := {}) rfl h 0
  rw [readSource, String.toList_ofList, hlines]
  refine ⟨?_, hfaults⟩
  rw [Reading.tokens, List.map_append, Layout.closing, Layout.lexemes_step]
  exact htokens

end Shank
