/-
# Lines that hold nothing

A line of white space and closed comments (`IsIdle`) gives a line end and
nothing else, and what is carried from line to line stays as it was, up to the
number of the line. So with such lines put between others, but not where a
comment is open (`Padded`), the tokens of a text change in two ways only: they
are on other lines, and a line end comes several times. What is left of a stream
when these differences are taken away (`condense`) is the same with the padding
and without.
-/

import Shank.Proofs.Renumber
import Shank.Proofs.Token.Grammar

namespace Shank

namespace Text

/-- What is trimmed off the end of two texts comes from the second, and from the
first only if nothing is left of the second. -/
theorem trimEnd_append (p : Char → Bool) (as bs : List Char) :
    trimEnd p (as ++ bs) = if trimEnd p bs = [] then trimEnd p as else as ++ trimEnd p bs := by
  simp only [trimEnd, List.reverse_append, List.dropWhile_append, List.isEmpty_iff,
    List.reverse_eq_nil_iff]
  split
  · rfl
  · rw [List.reverse_append, List.reverse_reverse]

end Text

namespace Token

/-- White space and closed comments, and nothing else. -/
inductive IsIdle : List Char → Prop
  | nil : IsIdle []
  | blank {c : Char} {cs : List Char} (hc : Text.isBlank c = true) (rest : IsIdle cs) :
      IsIdle (c :: cs)
  | comment {body cs : List Char} (inside : '\x7d' ∉ body) (rest : IsIdle cs) :
      IsIdle ('\x7b' :: (body ++ '\x7d' :: cs))

/-- A line does not become another one without the line ends at its end. A
comment ends with its brace, so what is cut off lies behind the last one. -/
theorem IsIdle.chomp {cs : List Char} (h : IsIdle cs) : IsIdle (Text.chomp cs) := by
  induction h with
  | nil => exact .nil
  | @blank c cs hc _ ih =>
    rw [Text.chomp, ← List.singleton_append, Text.trimEnd_append]
    split
    · by_cases hp : Text.isLineEnd c = true
      · simp only [Text.trimEnd, List.reverse_singleton, List.dropWhile_cons_of_pos hp]
        exact .nil
      · simp only [Text.trimEnd, List.reverse_singleton, List.dropWhile_cons_of_neg hp]
        exact .blank hc .nil
    · exact .blank hc ih
  | @comment body cs inside _ ih =>
    have hsplit : '\x7b' :: (body ++ '\x7d' :: cs) = '\x7b' :: body ++ ['\x7d'] ++ cs := by simp
    rw [Text.chomp, hsplit, Text.trimEnd_append]
    split
    · -- the brace at the end of the comment is no line end
      rw [Text.trimEnd_eq_self fun c hc => ?_]
      · exact .comment inside .nil
      · rw [List.getLast?_append] at hc
        cases hc
        decide
    · rw [List.append_assoc]
      exact .comment inside ih

/-- What holds nothing gives no tokens, wherever it stands, and leaves no
comment open. -/
theorem scan_idle (line : Nat) {cs : List Char} (h : IsIdle cs) (column : Nat) :
    scan line column cs = ([], .plain) := by
  induction h generalizing column with
  | nil => rw [scan]
  | blank hc _ ih =>
    rw [scan, piece_blank hc]
    exact ih _
  | @comment body cs inside _ ih =>
    have hend : commentEnd (body ++ '\x7d' :: cs) = ((body ++ ['\x7d']).length, true) := by
      rw [← @commentEnd_append _ cs _ (.closed inside), List.append_assoc, List.singleton_append]
    have hdrop : (body ++ '\x7d' :: cs).drop (body ++ ['\x7d']).length = cs := by simp
    rw [scan, piece_brace, hend]
    simp only [if_true]
    rw [hdrop]
    exact ih _

namespace Layout

/-- **A line that holds nothing gives a line end**, and all but the number of
the line is carried on. -/
theorem readLine_idle {s : Layout} (hs : s.inComment = false) {raw : List Char} (h : IsIdle raw) :
    (s.readLine raw).fault = none ∧ (s.readLine raw).next = { s with line := s.line + 1 } ∧
      ∃ column, (s.readLine raw).added = [⟨.endOfLine, "", s.line + 1, column⟩] := by
  have hscan : scanLine (s.line + 1) s.inComment (Text.chomp raw) = ([], .plain) := by
    rw [scanLine, if_neg (by simp [hs]), scan_idle _ h.chomp]
  unfold readLine
  dsimp only
  rw [hscan]
  exact ⟨rfl, by simp [hs], _, by simp [step]; rfl⟩

end Layout

/-! ## Lines with other numbers

Lines that are inserted move those behind them down. What is read of a line does
not depend on its number, but for the places of its tokens.
-/

/-- A token without its place. -/
abbrev bare : Token → Token :=
  renumber fun _ => 0

/-- A text is scanned in the same way under another number and at another
column, but for the places of the tokens. -/
theorem scan_bare (line line' column : Nat) (cs : List Char) :
    (scan line column cs).1.map bare = (scan line' column cs).1.map bare ∧
      (scan line column cs).2 = (scan line' column cs).2 := by
  induction column, cs using scan.induct line with
  | case1 column => rw [scan, scan]; exact ⟨rfl, rfl⟩
  | case2 column c cs kind text more hpiece _ _ _ ih =>
    rw [scan, scan]
    simp only [hpiece]
    exact ⟨congrArg (_ :: ·) ih.1, ih.2⟩
  | case3 column c cs hpiece ih | case4 column c cs more hpiece ih =>
    rw [scan, scan]
    simp only [hpiece]
    exact ih
  | case5 column c cs more closed hpiece hclosed =>
    rw [scan, scan]
    simp [hpiece, hclosed]
  | case6 column c cs problem hpiece =>
    rw [scan, scan]
    simp [hpiece]

/-- A line is scanned in the same way under another number, but for the lines of
the tokens. -/
theorem scanLine_bare (line line' : Nat) (inComment : Bool) (cs : List Char) :
    (scanLine line inComment cs).1.map bare = (scanLine line' inComment cs).1.map bare ∧
      (scanLine line inComment cs).2 = (scanLine line' inComment cs).2 := by
  unfold scanLine
  split
  · dsimp only
    split
    · exact scan_bare ..
    · exact ⟨rfl, rfl⟩
  · exact scan_bare ..

namespace Layout

/-- Two states of the layout that carry the same to the next line, but for the
number of that line: the depth, and whether a comment is open. -/
structure Alike (s s' : Layout) : Prop where
  depth : s.depth = s'.depth
  inComment : s.inComment = s'.inComment

/-- The tokens between two depths are the same on every line, but for their
line. -/
theorem step_bare (line line' d d' : Nat) : (step line d d').map bare = (step line' d d').map bare := by
  simp [step, renumber]

/-- **A line is read alike under another number.** -/
theorem readLine_alike {s s' : Layout} (h : s.Alike s') (raw : List Char) :
    ((s.readLine raw).fault = none ↔ (s'.readLine raw).fault = none) ∧
      (s.readLine raw).next.Alike (s'.readLine raw).next ∧
      (s.readLine raw).added.map bare = (s'.readLine raw).added.map bare := by
  have hscan := scanLine_bare (s.line + 1) (s'.line + 1) s.inComment (Text.chomp raw)
  unfold readLine
  dsimp only
  rw [← h.inComment]
  generalize scanLine (s.line + 1) s.inComment (Text.chomp raw) = scanned at hscan
  generalize scanLine (s'.line + 1) s.inComment (Text.chomp raw) = scanned' at hscan
  obtain ⟨content, finish⟩ := scanned
  obtain ⟨content', finish'⟩ := scanned'
  obtain ⟨hcontent, rfl : finish = finish'⟩ := hscan
  -- both have content or neither has, so both set the depth or keep it
  have hempty : content.isEmpty = content'.isEmpty := by
    simpa only [List.isEmpty_map] using congrArg List.isEmpty hcontent
  cases finish with
  | stuck => exact ⟨by simp, ⟨h.depth, rfl⟩, rfl⟩
  | plain | inComment =>
    refine ⟨Iff.rfl, ⟨by simp only [h.depth, hempty], rfl⟩, ?_⟩
    simp only [List.map_append, hcontent, hempty, h.depth]
    rw [step_bare (s.line + 1) (s'.line + 1)]
    rfl

/-- What a line gives ends with its line end. -/
theorem added_eq_concat {s : Layout} {raw : List Char} (h : (s.readLine raw).fault = none) :
    ∃ lead last, (s.readLine raw).added = lead ++ [last] ∧ last.kind = .endOfLine := by
  revert h
  exact s.readLine_elim raw (fun _ _ _ _ h => nomatch h) fun _ _ _ _ _ _ _ => ⟨_, _, rfl, rfl⟩

end Layout

/-! ## Streams without their layout of lines

Two streams are compared by what is left of them without places and without the
line ends that only follow on another one. In this form an inserted line has
left no trace.
-/

/-- What is left of tokens when they lose their places, and a line end that
follows on another one is left out. -/
def condense (ended : Bool) : List Token → List Token
  | [] => []
  | t :: ts =>
    if t.kind = .endOfLine then
      if ended then condense true ts else t.bare :: condense true ts
    else t.bare :: condense false ts

/-- Streams that are the same without places are condensed to the same. -/
theorem condense_of_bare {ts us : List Token} (h : ts.map bare = us.map bare) (ended : Bool) :
    condense ended ts = condense ended us := by
  induction ts generalizing us ended with
  | nil =>
    obtain rfl : us = [] := List.map_eq_nil_iff.1 h.symm
    rfl
  | cons t ts ih =>
    cases us with
    | nil => cases h
    | cons u us =>
      rw [List.map_cons, List.map_cons, List.cons.injEq] at h
      have hkind : t.kind = u.kind := (renumber_eq h.1).1
      rw [condense, condense, ← hkind, h.1, ih h.2, ih h.2]

/-- Where no line end went before, the next token stays. -/
theorem condense_false_cons (t : Token) (ts : List Token) :
    condense false (t :: ts) = t.bare :: condense (t.kind == .endOfLine) ts := by
  by_cases h : t.kind = .endOfLine
  · simp [condense, h]
  · rw [condense, if_neg h, beq_eq_false_iff_ne.2 h]

/-- Behind a line end, further ones are left out. -/
theorem condense_true_cons (t : Token) (ts : List Token) : condense true (t :: ts) =
    if t.kind = .endOfLine then condense true ts else condense false (t :: ts) := by
  by_cases h : t.kind = .endOfLine <;> simp [condense, h]

/-- Streams that are condensed to the same end together, or go on with tokens of
the same kind and text. Line ends in a row count as one, and the others as
themselves. -/
theorem condense_cases {ts us : List Token} (h : condense false ts = condense false us) :
    ts = [] ∧ us = [] ∨ ∃ t rest u rest', ts = t :: rest ∧ us = u :: rest' ∧ t.bare = u.bare ∧
      condense (t.kind == .endOfLine) rest = condense (t.kind == .endOfLine) rest' := by
  cases ts with
  | nil =>
    cases us with
    | nil => exact .inl ⟨rfl, rfl⟩
    | cons u us =>
      rw [condense_false_cons] at h
      cases h
  | cons t ts =>
    cases us with
    | nil =>
      rw [condense_false_cons] at h
      cases h
    | cons u us =>
      rw [condense_false_cons, condense_false_cons] at h
      obtain ⟨htu, hrest⟩ := List.cons.inj h
      rw [← (renumber_eq htu).1] at hrest
      exact .inr ⟨t, ts, u, us, rfl, rfl, htu, hrest⟩

/-- Behind a line end the rest of a stream is condensed for itself. -/
theorem condense_append {lead : List Token} {last : Token} (h : last.kind = .endOfLine) (ended : Bool)
    (ts : List Token) : condense ended (lead ++ [last] ++ ts) =
      condense ended (lead ++ [last]) ++ condense true ts := by
  induction lead generalizing ended with
  | nil => cases ended <;> simp [condense, h]
  | cons t lead ih =>
    simp only [List.cons_append, condense, ih]
    split
    · split <;> rfl
    · rfl

/-! ## Padding

Lines are inserted where no comment is open, as there they would be part of the
comment. That depends on the lines in front, so the relation carries the state
in which each line is read.
-/

/-- `Padded s ls ls'`: what is read under the layout `s` is the lines `ls`, or
else `ls'`, which are these with idle lines between them, but none where a
comment is open. -/
inductive Padded : Layout → List (List Char) → List (List Char) → Prop
  | nil (s : Layout) : Padded s [] []
  | line {s : Layout} (raw : List Char) {ls ls' : List (List Char)}
      (rest : Padded (s.readLine raw).next ls ls') : Padded s (raw :: ls) (raw :: ls')
  | idle {s : Layout} {raw : List Char} {ls ls' : List (List Char)} (plain : s.inComment = false)
      (hraw : IsIdle raw) (rest : Padded s ls ls') : Padded s ls (raw :: ls')

namespace Layout

/-- The tokens of lines, with those that close the levels left open. -/
def tokensOf (s : Layout) (ls : List (List Char)) : List Token :=
  (s.readLines ls).flatMap LineReport.added ++ (s.after (s.readLines ls)).closing

/-- The tokens of lines are those of the first, and of the others as the first
leaves them. -/
theorem tokensOf_cons (s : Layout) (raw : List Char) (ls : List (List Char)) :
    s.tokensOf (raw :: ls) = (s.readLine raw).added ++ (s.readLine raw).next.tokensOf ls := by
  rw [tokensOf, readLines, List.flatMap_cons, after_cons, List.append_assoc]
  rfl

/-- **Padded lines are read alike**, if the others are read without a fault.
This is by induction on the insertions: a line that is in both streams is read
alike, and one that is inserted adds no more than a line end. -/
theorem condense_tokensOf {s s' : Layout} {ls ls' : List (List Char)} (h : Padded s ls ls')
    (hs : s.Alike s') (hfaults : (s.readLines ls).filterMap LineReport.fault = []) :
    (s'.readLines ls').filterMap LineReport.fault = [] ∧
      condense true (s.tokensOf ls) = condense true (s'.tokensOf ls') := by
  induction h generalizing s' with
  | nil s =>
    refine ⟨rfl, condense_of_bare ?_ true⟩
    rw [tokensOf, tokensOf]
    simp only [readLines, List.flatMap_nil, List.nil_append, after, List.getLast?_nil, closing, hs.depth]
    exact step_bare ..
  | @line s raw ls ls' _ ih =>
    obtain ⟨hfault, hnext, hadded⟩ := readLine_alike hs raw
    have hnone : (s.readLine raw).fault = none := by
      cases hf : (s.readLine raw).fault with
      | none => rfl
      | some e => simp [readLines, hf] at hfaults
    rw [readLines, List.filterMap_cons_none hnone] at hfaults
    obtain ⟨hfaults', htokens⟩ := ih hnext hfaults
    -- a line ends with a line end, so what is condensed splits there
    obtain ⟨lead, last, hsplit, hlast⟩ := added_eq_concat hnone
    obtain ⟨lead', last', hsplit', hlast'⟩ := added_eq_concat (hfault.1 hnone)
    rw [hsplit, hsplit'] at hadded
    rw [readLines, List.filterMap_cons_none (hfault.1 hnone), tokensOf_cons, tokensOf_cons, hsplit, hsplit',
      condense_append hlast, condense_append hlast', condense_of_bare hadded, htokens]
    exact ⟨hfaults', rfl⟩
  | @idle s raw ls ls' plain hraw _ ih =>
    -- an idle line leaves the layout to the line behind it
    obtain ⟨hfault, hnext, column, hadded⟩ := readLine_idle (hs.inComment ▸ plain) hraw
    have hcarried : s.Alike (s'.readLine raw).next := hnext ▸ ⟨hs.depth, hs.inComment⟩
    obtain ⟨hfaults', htokens⟩ := ih hcarried hfaults
    rw [readLines, List.filterMap_cons_none hfault, tokensOf_cons, hadded]
    exact ⟨hfaults', htokens⟩

end Layout
end Token
end Shank
