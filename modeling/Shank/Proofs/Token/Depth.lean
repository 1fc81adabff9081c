/-
# Depth shows in the tokens

Every token of a line that is not layout stands behind as many more `INDENT`s
than `DEDENT`s as the depth of its line says (`Layout.depthOf`): the levels of
indentation counted in the whole line, or the depth of the lines before, if the
line starts inside a comment.

The induction is over the lines. What a line adds has the difference of the two
depths for its balance, so the balance of all that was added is the depth; the
line's own `INDENT`s and `DEDENT`s come in front of its other tokens, so these
already stand at the new depth.
-/

import Shank.Token.Layout
import Shank.Proofs.Token.Balance

namespace Shank
namespace Token

/-- The kinds of tokens that tell of lines and depths, not of text. -/
def Kind.IsLayout (kind : Kind) : Prop :=
  kind ∈ [indent, dedent, endOfLine]

instance (kind : Kind) : Decidable kind.IsLayout :=
  inferInstanceAs (Decidable (_ ∈ _))

/-- A token of a line that tells of its text. -/
structure IsContent (line : Nat) (t : Token) : Prop where
  line_eq : t.line = line
  kind : ¬t.kind.IsLayout

/-- Content changes no level. -/
theorem levelChange_of_content {line : Nat} {t : Token} (h : t.IsContent line) :
    t.levelChange = 0 :=
  levelChange_eq_zero (fun e => h.kind (by rw [e]; decide)) fun e => h.kind (by rw [e]; decide)

/-! ## The tokens of a line

What is written on a line gives no layout: no word of the table and no symbol is
an `INDENT`, a `DEDENT` or the end of a line. So layout comes from the line
alone, in front of its text and behind it.
-/

/-- What is found in a table stands in it. -/
theorem mem_of_lookup {α β : Type} [BEq α] [LawfulBEq α] {a : α} {b : β} {l : List (α × β)}
    (h : l.lookup a = some b) : (a, b) ∈ l := by
  induction l with
  | nil => cases h
  | cons p rest ih =>
    rw [List.lookup_cons] at h
    split at h
    · rename_i he
      cases h
      rw [eq_of_beq he]
      exact List.mem_cons_self ..
    · exact List.mem_cons_of_mem _ (ih h)

/-- No word is layout, be it in the table of words or not. -/
theorem not_isLayout_ofWord (word : String) : ¬(Kind.ofWord word).IsLayout := by
  have hwords : ∀ p ∈ Kind.words, ¬p.2.IsLayout := by decide
  unfold Kind.ofWord
  cases h : Kind.words.lookup word with
  | none => decide
  | some k => exact hwords (word, k) (mem_of_lookup h)

/-- No lexeme is layout, whatever character it starts with. So all `INDENT`s,
`DEDENT`s and line ends come from the lines, none from what is written on them. -/
theorem not_isLayout_piece {c : Char} {cs : List Char} {kind : Kind} {text : String} {more : Nat}
    (h : piece c cs = .lexeme kind text more) : ¬kind.IsLayout := by
  have hsymbols : ∀ p ∈ Kind.symbols, ¬p.2.IsLayout := by decide
  -- a literal is closed, and then of its kind, or it is unreadable
  have hliteral {quote : Char} {k : Kind} (hk : ¬k.IsLayout)
      (h : literal quote k cs = .lexeme kind text more) : ¬kind.IsLayout := by
    simp only [literal] at h
    split at h <;> cases h <;> exact hk
  simp only [piece] at h
  split at h
  · cases h
    exact not_isLayout_ofWord _
  · split at h
    · split at h <;> cases h
      decide
    · split at h
      · exact hliteral (by decide) h
      · split at h
        · exact hliteral (by decide) h
        · split at h
          · cases h
          · split at h
            · cases h
            · split at h
              · rename_i hfind
                cases h
                exact hsymbols _ (List.mem_of_find?_eq_some hfind)
              · cases h

/-- **What all lexemes are like, the tokens of a text are.** The induction is
that of `scan`, with a case for each kind of piece that the text goes on with; a
lexeme is the only one that adds a token. -/
theorem forall_scan {line : Nat} {Q : Token → Prop}
    (hpiece : ∀ c cs kind text more column, piece c cs = .lexeme kind text more →
      Q ⟨kind, text, line, column⟩) (column : Nat) (cs : List Char) :
    ∀ t ∈ (scan line column cs).1, Q t := by
  intro t ht
  induction column, cs using scan.induct line with
  | case1 column =>
    rw [scan] at ht
    cases ht
  | case2 column c cs kind text more hlexeme _ _ _ ih =>
    rw [scan] at ht
    simp only [hlexeme] at ht
    rcases List.mem_cons.1 ht with rfl | ht
    · exact hpiece c cs kind text more column hlexeme
    · exact ih ht
  | case3 column c cs hblank ih =>
    rw [scan] at ht
    simp only [hblank] at ht
    exact ih ht
  | case4 column c cs more hcomment ih =>
    rw [scan] at ht
    simp only [hcomment] at ht
    exact ih ht
  | case5 column c cs more closed hcomment hclosed =>
    rw [scan] at ht
    simp only [hcomment, hclosed] at ht
    cases ht
  | case6 column c cs problem hunreadable =>
    rw [scan] at ht
    simp only [hunreadable] at ht
    cases ht

/-- What all lexemes are like, the tokens of a line are, also where it starts in
a comment. -/
theorem forall_scanLine {line : Nat} {Q : Token → Prop}
    (hpiece : ∀ c cs kind text more column, piece c cs = .lexeme kind text more →
      Q ⟨kind, text, line, column⟩) (inComment : Bool) (cs : List Char) :
    ∀ t ∈ (scanLine line inComment cs).1, Q t := by
  intro t ht
  unfold scanLine at ht
  split at ht
  · dsimp only at ht
    split at ht
    · exact forall_scan hpiece _ _ t ht
    · cases ht
  · exact forall_scan hpiece _ _ t ht

/-- The tokens of a line tell of its text, under its number. -/
theorem isContent_scanLine {line : Nat} {inComment : Bool} {cs : List Char} {t : Token}
    (ht : t ∈ (scanLine line inComment cs).1) : t.IsContent line :=
  forall_scanLine (Q := IsContent line)
    (fun _ _ _ _ _ _ hpiece => ⟨rfl, not_isLayout_piece hpiece⟩) inComment cs t ht

namespace Layout

/-! ## One line

A line has two outcomes, and `readLine_elim` puts them into the form in which
later modules use them: a property of lines is shown for a line that is told,
and for one that adds its tokens.
-/

/-- The depth of a line that has tokens. -/
def depthOf (s : Layout) (raw : List Char) : Nat :=
  if s.inComment then s.depth else indentCount (Text.chomp raw)

/-- The tokens between two depths are layout. -/
theorem isLayout_step {line d d' : Nat} {t : Token} (ht : t ∈ step line d d') :
    t.kind.IsLayout := by
  rcases List.mem_append.1 ht with ht | ht
  · rw [(List.mem_replicate.1 ht).2]
    show Kind.indent.IsLayout
    decide
  · rw [(List.mem_replicate.1 ht).2]
    show Kind.dedent.IsLayout
    decide

/-- The tokens between two depths have the difference for their balance. -/
theorem balance_step (line d d' : Nat) : balance (step line d d') = (d' : Int) - d := by
  have hin : (⟨.indent, "", line, 1⟩ : Token).levelChange = 1 := rfl
  have hout : (⟨.dedent, "", line, 1⟩ : Token).levelChange = -1 := rfl
  rw [step, balance_append, balance_replicate, balance_replicate, hin, hout]
  omega

/-- **What can come of a line**: it cannot be read to its end, is told and adds
nothing; or it adds its layout, its own tokens and its end. What follows for a
line in all states is shown by these two cases. -/
@[elab_as_elim]
theorem readLine_elim {P : LineReport → Prop} (s : Layout) (raw : List Char)
    (stuck : ∀ content problem column,
      scanLine (s.line + 1) s.inComment (Text.chomp raw) = (content, .stuck problem column) →
      P { next := { line := s.line + 1, depth := s.depth, inComment := false }
          added := []
          recognised := content
          fault := some ⟨problem, s.line + 1, column, String.ofList (Text.chomp raw)⟩ })
    (row : ∀ content finish depth,
      scanLine (s.line + 1) s.inComment (Text.chomp raw) = (content, finish) →
      (∀ t ∈ content, t.IsContent (s.line + 1)) →
      depth = (if content.isEmpty || s.inComment then s.depth else indentCount (Text.chomp raw)) →
      P { next := { line := s.line + 1, depth, inComment := finish = .inComment }
          added := step (s.line + 1) s.depth depth ++ content ++
            [⟨.endOfLine, "", s.line + 1, (Text.chomp raw).length + 1⟩]
          recognised := content ++ step (s.line + 1) s.depth depth ++
            [⟨.endOfLine, "", s.line + 1, (Text.chomp raw).length + 1⟩]
          fault := none }) :
    P (s.readLine raw) := by
  have hcontent : ∀ t ∈ (scanLine (s.line + 1) s.inComment (Text.chomp raw)).1,
      t.IsContent (s.line + 1) := fun _ ht => isContent_scanLine ht
  unfold readLine
  dsimp only
  generalize hscan : scanLine (s.line + 1) s.inComment (Text.chomp raw) = scanned at hcontent
  obtain ⟨content, finish⟩ := scanned
  cases finish with
  | stuck problem column => exact stuck content problem column hscan
  | plain | inComment => exact row content _ _ hscan hcontent rfl

/-- What a line adds: nothing, and the depth stays; or its layout, its own
tokens, and its end. -/
theorem readLine_cases (s : Layout) (raw : List Char) :
    ((s.readLine raw).added = [] ∧ (s.readLine raw).next.depth = s.depth) ∨
    ∃ content last, (∀ t ∈ content, t.IsContent (s.line + 1)) ∧ last.kind = .endOfLine ∧
      (s.readLine raw).added =
        step (s.line + 1) s.depth (s.readLine raw).next.depth ++ (content ++ [last]) ∧
      (content ≠ [] → (s.readLine raw).next.depth = s.depthOf raw) := by
  refine s.readLine_elim raw (fun _ _ _ _ => .inl ⟨rfl, rfl⟩)
    fun content _ depth _ hcontent hdepth => .inr ⟨content, _, hcontent, rfl, List.append_assoc .., ?_⟩
  intro hne
  cases hs : s.inComment <;> simp [depthOf, hdepth, hs, hne]

/-- Every line counts, be it read or not. -/
theorem line_readLine (s : Layout) (raw : List Char) :
    (s.readLine raw).next.line = s.line + 1 :=
  s.readLine_elim raw (fun _ _ _ _ => rfl) fun _ _ _ _ _ _ => rfl

/-- Content has no balance. -/
theorem balance_content {line : Nat} {content : List Token}
    (h : ∀ t ∈ content, t.IsContent line) : balance content = 0 :=
  balance_eq_zero fun t ht => levelChange_of_content (h t ht)

/-- **The balance of what a line adds is the change of the depth.** -/
theorem balance_added (s : Layout) (raw : List Char) :
    balance (s.readLine raw).added = ((s.readLine raw).next.depth : Int) - s.depth := by
  rcases s.readLine_cases raw with ⟨hadded, hdepth⟩ | ⟨content, last, hcontent, hlast, hadded, -⟩
  · rw [hadded, hdepth, sub_self]
    rfl
  · have hlevel : last.levelChange = 0 := by simp only [levelChange, hlast]
    rw [hadded, balance_append, balance_append, balance_step, balance_content hcontent]
    simp [balance, hlevel]

/-- Within a line, every token that is not layout stands at the depth of the
line: the tokens that lead to it come first, and none of the others change it. -/
theorem balance_take_added {s : Layout} {raw : List Char} {i : Nat} {t : Token}
    (ht : (s.readLine raw).added[i]? = some t) (hk : ¬t.kind.IsLayout) :
    t.line = s.line + 1 ∧ (s.readLine raw).next.depth = s.depthOf raw ∧
      balance ((s.readLine raw).added.take i) = (s.depthOf raw : Int) - s.depth := by
  rcases s.readLine_cases raw with ⟨hadded, -⟩ | ⟨content, last, hcontent, hlast, hadded, hdepth⟩
  · rw [hadded] at ht
    cases ht
  · rw [hadded] at ht ⊢
    generalize hlead : step (s.line + 1) s.depth (s.readLine raw).next.depth = lead at ht ⊢
    -- the layout in front is passed
    have hbehind : lead.length ≤ i := by
      by_contra hi
      rw [List.getElem?_append_left (by omega)] at ht
      exact hk (isLayout_step (hlead ▸ List.mem_of_getElem? ht))
    rw [List.getElem?_append_right hbehind] at ht
    -- nor is it the end of the line
    have hinside : i - lead.length < content.length := by
      by_contra hi
      rw [List.getElem?_append_right (by omega)] at ht
      have hmem := List.mem_of_getElem? ht
      rw [List.mem_singleton.1 hmem, hlast] at hk
      exact hk (by decide)
    rw [List.getElem?_append_left hinside] at ht
    have hmem := List.mem_of_getElem? ht
    have hnext := hdepth (List.ne_nil_of_mem hmem)
    refine ⟨(hcontent t hmem).line_eq, hnext, ?_⟩
    rw [List.take_append, List.take_of_length_le hbehind, List.take_append_of_le_length hinside.le,
      balance_append, ← hlead, balance_step, hnext,
      balance_content fun u hu => hcontent u (List.mem_of_mem_take hu), add_zero]

/-! ## All lines

Where a token stands in the tokens of a source text, the lines before it have
added their changes of depth, and its own line has added its levels. These add
up to the depth of its line.
-/

/-- What is carried to a line from those before it. -/
def before (s : Layout) (ls : List (List Char)) : Layout :=
  ls.foldl (fun s raw => (s.readLine raw).next) s

/-- **Every token that is not layout stands at the depth of its line**, which is
the one that was carried to it unless the line sets its own. -/
theorem balance_take_readLines {s : Layout} {ls : List (List Char)} {i : Nat} {t : Token}
    (ht : ((readLines s ls).flatMap LineReport.added)[i]? = some t) (hk : ¬t.kind.IsLayout) :
    ∃ k raw, ls[k]? = some raw ∧ t.line = s.line + k + 1 ∧
      ((s.before (ls.take k)).readLine raw).next.depth = (s.before (ls.take k)).depthOf raw ∧
      balance (((readLines s ls).flatMap LineReport.added).take i) =
        ((s.before (ls.take k)).depthOf raw : Int) - s.depth := by
  induction ls generalizing s i with
  | nil => cases ht
  | cons raw rest ih =>
    have hsplit : (readLines s (raw :: rest)).flatMap LineReport.added =
        (s.readLine raw).added ++ (readLines (s.readLine raw).next rest).flatMap
          LineReport.added := rfl
    rw [hsplit] at ht ⊢
    -- the token is on the first line, or on one of the others
    by_cases hi : i < (s.readLine raw).added.length
    · rw [List.getElem?_append_left hi] at ht
      obtain ⟨hline, hnext, hbalance⟩ := balance_take_added ht hk
      refine ⟨0, raw, rfl, hline, hnext, ?_⟩
      rw [List.take_append_of_le_length hi.le]
      exact hbalance
    · rw [List.getElem?_append_right (Nat.le_of_not_lt hi)] at ht
      obtain ⟨k, raw', hraw, hline, hnext, hbalance⟩ := ih ht
      refine ⟨k + 1, raw', hraw, ?_, hnext, ?_⟩
      · rw [hline, line_readLine]
        omega
      · rw [List.take_append, List.take_of_length_le (Nat.le_of_not_lt hi), balance_append,
          balance_added, hbalance]
        simp only [List.take_succ_cons, before, List.foldl_cons]
        omega

/-- What is carried behind several lines goes from each to the next. -/
theorem after_cons (s : Layout) (r : LineReport) (reports : List LineReport) :
    s.after (r :: reports) = r.next.after reports := by
  unfold after
  cases reports with
  | nil => rfl
  | cons r' reports => rw [List.getLast?_cons_cons, List.getLast?_cons]

/-- **The balance of what lines add is the change of the depth.** -/
theorem balance_readLines (s : Layout) (ls : List (List Char)) :
    balance ((readLines s ls).flatMap LineReport.added) =
      ((s.after (readLines s ls)).depth : Int) - s.depth := by
  induction ls generalizing s with
  | nil => simp [readLines, after, balance]
  | cons raw rest ih =>
    rw [readLines, List.flatMap_cons, balance_append, balance_added, ih, after_cons]
    omega

end Layout

/-- The tokens of a source text close what they open. -/
theorem balance_readSource (source : String) : balance (readSource source).tokens = 0 := by
  rw [Reading.tokens, balance_append, Layout.closing, Layout.balance_step, Reading.last, readSource,
    Layout.balance_readLines]
  simp

/-- What is carried to a line of a source text, the first one being line 1. -/
def Layout.atLine (source : String) (line : Nat) : Layout :=
  Layout.before {} ((Text.lines source.toList).take (line - 1))

/-- **Every token of a source text that is not layout stands at the depth of its
line.** -/
theorem balance_take_readSource {source : String} {i : Nat} {t : Token}
    (ht : (readSource source).tokens[i]? = some t) (hk : ¬t.kind.IsLayout) :
    ∃ raw, 0 < t.line ∧ (Text.lines source.toList)[t.line - 1]? = some raw ∧
      ((Layout.atLine source t.line).readLine raw).next.depth =
        (Layout.atLine source t.line).depthOf raw ∧
      balance ((readSource source).tokens.take i) = (Layout.atLine source t.line).depthOf raw := by
  unfold Reading.tokens at ht ⊢
  have hi : i < ((readSource source).reports.flatMap LineReport.added).length := by
    by_contra hi
    rw [List.getElem?_append_right (Nat.le_of_not_lt hi)] at ht
    exact hk (Layout.isLayout_step (List.mem_of_getElem? ht))
  rw [List.getElem?_append_left hi] at ht
  obtain ⟨k, raw, hraw, hline, hnext, hbalance⟩ := Layout.balance_take_readLines ht hk
  have hk' : t.line - 1 = k := by
    rw [hline]
    simp
  rw [Layout.atLine, hk', List.take_append_of_le_length hi.le]
  refine ⟨raw, by omega, hraw, hnext, hbalance.trans ?_⟩
  simp

end Token
end Shank
