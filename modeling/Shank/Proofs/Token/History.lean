/-
# The history of a lexer

Whatever lines a lexer was given, unreadable ones among them, and whenever it
was told to close its levels, three things hold after every call:

* the balance of the tokens it has given is its depth;
* no beginning of them closes more than it opened;
* its depth is that of the last line which set one, or zero.

Each of them is kept by one call, and so by every sequence of calls.
-/

import Shank.Token.Lexer
import Shank.Proofs.Token.BlankRuns
import Shank.Proofs.Token.Depth
import Mathlib.Data.List.Induction
import Mathlib.Data.List.TakeWhile

namespace Shank

/-! ## Indentation and line ends

A call may hand over a line with the characters that end it. They count for no
indentation, so it makes no difference whether they are cut off.
-/

/-- What ends a line counts for no indentation. -/
theorem indentCount_append_ends {ends : List Char} (h : ∀ c ∈ ends, c ≠ '\t' ∧ c ≠ ' ')
    (cs : List Char) : indentCount (cs ++ ends) = indentCount cs := by
  have hcuts : ¬CutsBlanks cs ends := fun hcuts => (h _ (List.mem_of_head? hcuts.2)).2 rfl
  rw [indentCount_append_of_not_cuts hcuts, indentCount_of_plain h, Nat.add_zero]

/-- The indentation of a line is the same without the line ends at its end. -/
theorem indentCount_chomp (raw : List Char) :
    indentCount (Text.chomp raw) = indentCount raw := by
  have hends : ∀ c ∈ (raw.reverse.takeWhile Text.isLineEnd).reverse, c ≠ '\t' ∧ c ≠ ' ' := by
    intro c hc
    have hend := List.mem_takeWhile_imp (List.mem_reverse.1 hc)
    constructor
    · rintro rfl
      exact absurd hend (by decide)
    · rintro rfl
      exact absurd hend (by decide)
  conv_rhs => rw [← Text.trimEnd_append_takeWhile Text.isLineEnd raw]
  exact (indentCount_append_ends hends _).symm

namespace Token

/-- No beginning of the tokens closes more levels than it opened. -/
def Nested (ts : List Token) : Prop :=
  ∀ i, 0 ≤ balance (ts.take i)

namespace Layout

/-! ## One line

A line changes the depth only if it can be read, starts outside a comment, and
has tokens of its own. What it adds first leads from the old depth to the new
one.
-/

/-- The line sets the depth: it can be read, it did not begin inside a comment,
and it has tokens that tell of its text. -/
structure Sets (s : Layout) (raw : List Char) : Prop where
  readable : (s.readLine raw).fault = none
  outside : s.inComment = false
  content : ∃ t ∈ (s.readLine raw).added, ¬t.kind.IsLayout

instance (s : Layout) (raw : List Char) : Decidable (s.Sets raw) :=
  decidable_of_iff ((s.readLine raw).fault = none ∧ s.inComment = false ∧
      ∃ t ∈ (s.readLine raw).added, ¬t.kind.IsLayout)
    ⟨fun ⟨h, h', h''⟩ => ⟨h, h', h''⟩, fun ⟨h, h', h''⟩ => ⟨h, h', h''⟩⟩

/-- A line that sets the depth sets it to its indentation. -/
theorem depth_of_sets {s : Layout} {raw : List Char} (h : s.Sets raw) :
    (s.readLine raw).next.depth = indentCount raw := by
  obtain ⟨t, ht, hkind⟩ := h.content
  obtain ⟨i, hi⟩ := List.getElem?_of_mem ht
  have hdepth := (balance_take_added hi hkind).2.1
  rw [hdepth, depthOf, h.outside, indentCount_chomp]
  rfl

/-- A line that changes the depth sets it. -/
theorem sets_of_depth_ne {s : Layout} {raw : List Char}
    (h : (s.readLine raw).next.depth ≠ s.depth) : s.Sets raw := by
  have hsets : (s.readLine raw).fault = none ∧ s.inComment = false ∧
      ∃ t ∈ (s.readLine raw).added, ¬t.kind.IsLayout := by
    revert h
    refine s.readLine_elim raw (fun _ _ _ _ h => absurd rfl h) fun content _ depth _ hcontent hdepth h => ?_
    have houtside : s.inComment = false := by
      by_contra hin
      exact h (by simp [hdepth, hin])
    obtain ⟨t, ht⟩ : ∃ t, t ∈ content := by
      refine List.exists_mem_of_ne_nil _ fun hnil => ?_
      exact h (by simp [hdepth, hnil])
    exact ⟨rfl, houtside, t, by simp [ht], (hcontent t ht).kind⟩
  exact ⟨hsets.1, hsets.2.1, hsets.2.2⟩

/-- A step to another depth closes no more than is open, and it opens or closes,
never both. -/
theorem balance_take_step (line d d' i : Nat) :
    -(d : Int) ≤ balance ((step line d d').take i) := by
  have hin : (⟨.indent, "", line, 1⟩ : Token).levelChange = 1 := rfl
  have hout : (⟨.dedent, "", line, 1⟩ : Token).levelChange = -1 := rfl
  rw [step, List.take_append, List.take_replicate, List.take_replicate, balance_append,
    balance_replicate, balance_replicate, hin, hout]
  omega

/-- Within what a line adds no more levels are closed than were open before. -/
theorem balance_take_added_ge (s : Layout) (raw : List Char) (i : Nat) :
    -(s.depth : Int) ≤ balance ((s.readLine raw).added.take i) := by
  rcases s.readLine_cases raw with ⟨hadded, -⟩ | ⟨content, last, hcontent, hlast, hadded, -⟩
  · rw [hadded, List.take_nil]
    show -(s.depth : Int) ≤ 0
    omega
  · have hflat : ∀ t ∈ content ++ [last], t.levelChange = 0 := by
      intro t ht
      rcases List.mem_append.1 ht with ht | ht
      · exact levelChange_of_content (hcontent t ht)
      · rw [List.mem_singleton.1 ht]
        simp only [levelChange, hlast]
    rw [hadded, List.take_append, balance_append,
      balance_eq_zero fun t ht => hflat t (List.mem_of_mem_take ht), add_zero]
    exact balance_take_step ..

/-- What closes the open levels has as many `DEDENT`s as there are levels. -/
theorem balance_closing (s : Layout) : balance s.closing = -(s.depth : Int) := by
  rw [closing, balance_step]
  simp

end Layout

/-- Tokens that are nested stay so when others come behind them that close no
more than is open. -/
theorem Nested.append {ts us : List Token} (hts : Nested ts)
    (hus : ∀ i, -balance ts ≤ balance (us.take i)) : Nested (ts ++ us) := by
  intro i
  rw [List.take_append, balance_append]
  rcases Nat.lt_or_ge i ts.length with hi | hi
  · have hinside := hts i
    rw [Nat.sub_eq_zero_of_le hi.le, List.take_zero]
    show 0 ≤ balance (ts.take i) + 0
    omega
  · have hbehind := hus (i - ts.length)
    rw [List.take_of_length_le hi]
    omega

namespace Lexer

/-! ## One call

A call hands over a line, or closes all levels that are open. Either keeps the
tokens nested and the depth their balance.
-/

/-- What a lexer has given is nested, and what it has left open is its depth. -/
structure Balanced (s : Lexer) : Prop where
  balance : balance s.tokens = s.layout.depth
  nested : Nested s.tokens

/-- A new lexer has given nothing, and is at depth zero. -/
theorem balanced_new : Balanced {} where
  balance := rfl
  nested i := by
    rw [List.take_nil]
    exact Int.le_refl 0

/-- **A call keeps the balance**, be it a line that is read, one that is not, or
the call that closes all levels. -/
theorem Balanced.step {s : Lexer} (h : s.Balanced) (call : Call) : (s.step call).Balanced := by
  cases call with
  | lex raw =>
    constructor
    · show Token.balance (s.tokens ++ (s.layout.readLine raw).added) = _
      rw [balance_append, h.balance, Layout.balance_added]
      show (s.layout.depth : Int) + _ = (s.layout.readLine raw).next.depth
      omega
    · refine h.nested.append fun i => ?_
      rw [h.balance]
      exact Layout.balance_take_added_ge ..
  | finish =>
    constructor
    · show Token.balance (s.tokens ++ s.layout.closing) = ((0 : Nat) : Int)
      rw [balance_append, h.balance, Layout.balance_closing]
      omega
    · refine h.nested.append fun i => ?_
      rw [h.balance]
      exact Layout.balance_take_step ..

/-! ## All calls

The state after some calls is told by the last of them and by the state before.
So the induction takes the last call off, and the line that counts is either in
that call or stays the one that it was.
-/

/-- The last call comes after the others. -/
theorem run_snoc (calls : List Call) (call : Call) :
    run (calls ++ [call]) = (run calls).step call := by
  simp only [run, List.foldl_append, List.foldl_cons, List.foldl_nil]

/-- **After any calls a lexer is balanced.** The induction is over the calls,
one more at the end. -/
theorem balanced_run (calls : List Call) : (run calls).Balanced := by
  induction calls using List.reverseRecOn with
  | nil => exact balanced_new
  | append_singleton calls call ih =>
    rw [run_snoc]
    exact ih.step call

/-- Call number `k` read a line, and this set the depth. -/
def SetsAt (calls : List Call) (k : Nat) (raw : List Char) : Prop :=
  calls[k]? = some (.lex raw) ∧ (run (calls.take k)).layout.Sets raw

/-- Call number `k` was the last one to set the depth, and no level was closed
by a call since then. -/
structure LastSets (calls : List Call) (k : Nat) (raw : List Char) : Prop where
  sets : SetsAt calls k raw
  last : ∀ j raw', SetsAt calls j raw' → j ≤ k
  unfinished : ∀ j, calls[j]? = some .finish → j < k

/-- A call that sets the depth is one of the calls. -/
theorem SetsAt.lt {calls : List Call} {k : Nat} {raw : List Char} (h : SetsAt calls k raw) :
    k < calls.length :=
  (List.getElem?_eq_some_iff.1 h.1).1

/-- A call among some and one more is one of those, or the last one. -/
theorem getElem?_snoc_cases {calls : List Call} {call found : Call} {k : Nat}
    (h : (calls ++ [call])[k]? = some found) :
    (k < calls.length ∧ calls[k]? = some found) ∨ (k = calls.length ∧ call = found) := by
  rcases Nat.lt_or_ge k calls.length with hk | hk
  · rw [List.getElem?_append_left hk] at h
    exact .inl ⟨hk, h⟩
  · rw [List.getElem?_append_right hk, List.getElem?_singleton] at h
    split at h
    · rename_i hzero
      exact .inr ⟨by omega, Option.some.inj h⟩
    · cases h

/-- A call sets the depth among some calls and one more as it does among those,
or it is the last one and sets it in the state that the others led to. -/
theorem setsAt_snoc {calls : List Call} {call : Call} {k : Nat} {raw : List Char} :
    SetsAt (calls ++ [call]) k raw ↔
      SetsAt calls k raw ∨ (k = calls.length ∧ call = .lex raw ∧ (run calls).layout.Sets raw) := by
  constructor
  · rintro ⟨hcall, hsets⟩
    -- a call among the others has the same calls before it
    rcases getElem?_snoc_cases hcall with ⟨hk, hcall⟩ | ⟨rfl, rfl⟩
    · rw [List.take_append_of_le_length hk.le] at hsets
      exact .inl ⟨hcall, hsets⟩
    · rw [List.take_left] at hsets
      exact .inr ⟨rfl, rfl, hsets⟩
  · rintro (h | ⟨rfl, rfl, hsets⟩)
    · constructor
      · rw [List.getElem?_append_left h.lt]
        exact h.1
      · rw [List.take_append_of_le_length h.lt.le]
        exact h.2
    · constructor
      · rw [List.getElem?_append_right (Nat.le_refl _), Nat.sub_self]
        rfl
      · rw [List.take_left]
        exact hsets

/-- A line that sets nothing leaves the last one that did. -/
theorem lastSets_snoc_lex {calls : List Call} {line raw : List Char} {k : Nat}
    (h : ¬(run calls).layout.Sets line) :
    LastSets (calls ++ [.lex line]) k raw ↔ LastSets calls k raw := by
  have hsets (j : Nat) (raw' : List Char) :
      SetsAt (calls ++ [.lex line]) j raw' ↔ SetsAt calls j raw' := by
    refine setsAt_snoc.trans (or_iff_left ?_)
    rintro ⟨-, he, hsets⟩
    cases he
    exact h hsets
  -- the call is no `finish`, so it closes no level either
  have hfinish (j : Nat) :
      (calls ++ [.lex line])[j]? = some .finish ↔ calls[j]? = some .finish := by
    constructor
    · intro hj
      rcases getElem?_snoc_cases hj with ⟨-, hj⟩ | ⟨-, he⟩
      · exact hj
      · cases he
    · intro hj
      rw [List.getElem?_append_left (List.getElem?_eq_some_iff.1 hj).1]
      exact hj
  constructor
  · rintro ⟨hset, hlast, hopen⟩
    exact ⟨(hsets ..).1 hset, fun j raw' hj => hlast j raw' ((hsets ..).2 hj),
      fun j hj => hopen j ((hfinish j).2 hj)⟩
  · rintro ⟨hset, hlast, hopen⟩
    exact ⟨(hsets ..).2 hset, fun j raw' hj => hlast j raw' ((hsets ..).1 hj),
      fun j hj => hopen j ((hfinish j).1 hj)⟩

/-- A line that sets the depth is the last one that did. -/
theorem lastSets_snoc_of_sets {calls : List Call} {line raw : List Char} {k : Nat}
    (h : (run calls).layout.Sets line) :
    LastSets (calls ++ [.lex line]) k raw ↔ k = calls.length ∧ raw = line := by
  have hset : SetsAt (calls ++ [.lex line]) calls.length line := setsAt_snoc.2 (.inr ⟨rfl, rfl, h⟩)
  constructor
  · intro hlast
    rcases setsAt_snoc.1 hlast.sets with hearlier | ⟨hk, he, -⟩
    · exact absurd hearlier.lt (Nat.not_lt.2 (hlast.last _ _ hset))
    · cases he
      exact ⟨hk, rfl⟩
  · rintro ⟨rfl, rfl⟩
    refine ⟨hset, fun j raw' hj => ?_, fun j hj => ?_⟩
    · have hinside := hj.lt
      rw [List.length_append, List.length_singleton] at hinside
      omega
    · rcases getElem?_snoc_cases hj with ⟨hj, -⟩ | ⟨-, he⟩
      · exact hj
      · cases he

/-- A call that closes every level leaves no line that counts. -/
theorem not_lastSets_snoc_finish {calls : List Call} {raw : List Char} {k : Nat} :
    ¬LastSets (calls ++ [.finish]) k raw := by
  intro h
  have hclosed : calls.length < k := h.unfinished _ (by simp)
  have hinside := h.sets.lt
  rw [List.length_append, List.length_singleton] at hinside
  omega

/-- **The depth of a lexer is that of the last line which set one**, or zero.
This is by induction on the calls, the last one taken off first. -/
theorem depth_run (calls : List Call) :
    (∀ k raw, LastSets calls k raw → (run calls).layout.depth = indentCount raw) ∧
      ((∀ k raw, ¬LastSets calls k raw) → (run calls).layout.depth = 0) := by
  induction calls using List.reverseRecOn with
  | nil =>
    constructor
    · intro k raw h
      exact absurd h.sets.lt (Nat.not_lt_zero k)
    · intro
      rfl
  | append_singleton calls call ih =>
    rw [run_snoc]
    cases call with
    | finish => exact ⟨fun k raw h => absurd h not_lastSets_snoc_finish, fun _ => rfl⟩
    | lex line =>
      have hstep : ((run calls).step (.lex line)).layout.depth =
          ((run calls).layout.readLine line).next.depth := rfl
      rw [hstep]
      -- a line that sets the depth is the last one now, another one changes nothing
      by_cases hline : (run calls).layout.Sets line
      · simp only [lastSets_snoc_of_sets hline]
        constructor
        · rintro k raw ⟨rfl, rfl⟩
          exact Layout.depth_of_sets hline
        · intro hnone
          exact absurd ⟨rfl, rfl⟩ (hnone calls.length line)
      · have hkeep : ((run calls).layout.readLine line).next.depth = (run calls).layout.depth :=
          not_imp_comm.1 Layout.sets_of_depth_ne hline
        simp only [lastSets_snoc_lex hline, hkeep]
        exact ih

/-- Reading lines one after the other is calling the lexer with each of them. -/
theorem foldl_lex (s : Lexer) (ls : List (List Char)) :
    (ls.map Call.lex).foldl step s =
      ⟨s.layout.after (Layout.readLines s.layout ls),
        s.tokens ++ (Layout.readLines s.layout ls).flatMap LineReport.added⟩ := by
  induction ls generalizing s with
  | nil => simp [Layout.readLines, Layout.after]
  | cons raw rest ih =>
    rw [List.map_cons, List.foldl_cons, ih, Layout.readLines, List.flatMap_cons, Layout.after_cons]
    simp only [step, List.append_assoc]

/-- A source text is read by giving its lines to a new lexer and then closing
its levels. -/
theorem tokens_readSource (source : String) :
    (readSource source).tokens =
      (run ((Text.lines source.toList).map .lex ++ [.finish])).tokens := by
  rw [run_snoc, run, foldl_lex]
  rfl

/-- **Levels balance over every history.** After any calls a lexer has given as
many more `INDENT`s than `DEDENT`s as its depth says, no beginning of its tokens
closes more levels than it opened, and its depth is the indentation of the last
line that set one since the levels were last closed, zero if there is none. So
the tokens of every source text balance. -/
theorem run_balanced :
    (∀ calls, balance (run calls).tokens = (run calls).layout.depth ∧
      (∀ i, 0 ≤ balance ((run calls).tokens.take i)) ∧
      (∀ k raw, LastSets calls k raw → (run calls).layout.depth = indentCount raw) ∧
      ((∀ k raw, ¬LastSets calls k raw) → (run calls).layout.depth = 0)) ∧
    ∀ source, balance (readSource source).tokens = 0 ∧
      ∀ i, 0 ≤ balance ((readSource source).tokens.take i) := by
  constructor
  · intro calls
    have hbalanced := balanced_run calls
    exact ⟨hbalanced.balance, hbalanced.nested, depth_run calls⟩
  · intro source
    refine ⟨balance_readSource source, ?_⟩
    rw [tokens_readSource]
    exact (balanced_run _).nested

/-- A history with a line that cannot be read, a line that starts inside a
comment and an empty line after the last one that set the depth. -/
def sampleCalls : List Call :=
  [.lex "\tif a".toList, .finish, .lex "\t\tb".toList, .lex "\t\t\tc $".toList,
    .lex "\x7b note".toList, .lex "more \x7d d".toList, .lex "".toList]

/-- The hypotheses of `run_balanced` are satisfiable: the line of `b` is the
last one that counts, and after a further call that closes the levels none does. -/
theorem run_balanced_sample :
    LastSets sampleCalls 2 "\t\tb".toList ∧ (run sampleCalls).layout.depth = 2 ∧
      (∀ k raw, ¬LastSets (sampleCalls ++ [.finish]) k raw) ∧
      (run (sampleCalls ++ [.finish])).layout.depth = 0 := by
  have hlast : LastSets sampleCalls 2 "\t\tb".toList := by
    constructor
    · exact ⟨rfl, by decide +kernel⟩
    · rintro j raw ⟨hcall, hsets⟩
      by_contra hj
      rcases j with _ | _ | _ | _ | _ | _ | _ | j
      -- calls 0 to 2 are not behind the line of b; the others set no depth
      · exact hj (by decide)
      · exact hj (by decide)
      · exact hj (by decide)
      · cases hcall
        exact absurd hsets (by decide +kernel)
      · cases hcall
        exact absurd hsets (by decide +kernel)
      · cases hcall
        exact absurd hsets (by decide +kernel)
      · cases hcall
        exact absurd hsets (by decide +kernel)
      · cases hcall
    · intro j hj
      rcases j with _ | _ | _ | _ | _ | _ | _ | j
      · cases hj
      · decide
      all_goals cases hj
  have hnone : ∀ k raw, ¬LastSets (sampleCalls ++ [.finish]) k raw := by
    intro k raw h
    have hclosed : 7 < k := h.unfinished 7 rfl
    have hinside : k < 8 := h.sets.lt
    omega
  exact ⟨hlast, (run_balanced.1 sampleCalls).2.2.1 _ _ hlast, hnone,
    (run_balanced.1 (sampleCalls ++ [.finish])).2.2.2 hnone⟩

end Lexer
end Token
end Shank
