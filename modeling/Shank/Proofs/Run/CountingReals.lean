/-
# A loop that counts reals

What such a loop counts with is a double, to which one is added after each
round. It is no variable of the program, so the loop is the rounds for the
doubles that are counted, in a row, until one is above the upper bound: each
takes a step, stores the text of its number, and runs the body
(`Run.realRounds`).

| bounds | the loop, if each of its rounds ends |
| --- | --- |
| `low > high` | ends without a round |
| `-2^53 ≤ low`, `high < 2^53` | ends, after one round if the two are equal |
| others, `low` a single | does not end, as the number that is counted stays the same from some round on |

The last line is a loop's own doing: no limit but the steps it is given ends it
(`Run.countRealsFrom_unfinished`).
-/

import Mathlib.Data.List.Iterate
import Shank.Proofs.Ieee.Counting
import Shank.Proofs.Run.Lossless

namespace Shank
namespace Run

open Machine

/-- What a loop does for a real: its text as a single is stored, and the body is
run. -/
def storeReal (q : Place) (body : Run Unit) (x : Ieee) : Run Unit := do
  write q (Scalar.real (Format.single.round x)).text
  body

/-- The round of a real takes a step before. -/
def realRound (q : Place) (body : Run Unit) (x : Ieee) : Run Unit := do
  tick
  storeReal q body x

/-- The rounds of some reals, one after the other. -/
def realRounds (q : Place) (body : Run Unit) (xs : List Ieee) : Run Unit :=
  xs.forM (realRound q body)

/-- Every round that counting from `low` to `high` starts ends normally when it
is given enough steps. -/
def RoundsEnd (q : Place) (body : Run Unit) (low high : Ieee) (m : Machine) : Prop :=
  ∀ k d m₁, (∀ j ≤ k, (Ieee.next^[j] low).le high = true) →
    realRounds q body (List.iterate Ieee.next low k) (m.more d) = .ok () m₁ →
    ∃ e m₂, realRound q body (Ieee.next^[k] low) (m₁.more e) = .ok () m₂

variable {p : Program} {given : Place → Prop} {q : Place} {body : Run Unit}
variable {x low high : Ieee} {xs : List Ieee} {m m' m₁ m₂ : Machine}

/-! ## Rounds in a row

As for integers, with a step taken in front of each round. The list of rounds is
that of the numbers that counting goes through.
-/

/-- Storing a real and running the body is steady if the body is. -/
theorem steady_storeReal (hbody : Steady p 0 given body) (x : Ieee) :
    Steady p 0 given (storeReal q body x) :=
  (steady_write (.inl (Nat.zero_le _)) _).bind fun _ => hbody

/-- The round of a real is steady if the body is. -/
theorem steady_realRound (hbody : Steady p 0 given body) (x : Ieee) :
    Steady p 0 given (realRound q body x) :=
  steady_tick.bind fun _ => steady_storeReal hbody x

/-- Rounds in a row are steady if the body is. -/
theorem steady_realRounds (hbody : Steady p 0 given body) (xs : List Ieee) :
    Steady p 0 given (realRounds q body xs) := by
  induction xs with
  | nil => exact steady_pure ()
  | cons x xs ih => exact (steady_realRound hbody x).bind fun _ => ih

/-- One round more is run behind the others. The list of rounds is made from its
front, and here it is taken apart at its end. -/
theorem realRounds_iterate_succ (k : Nat) :
    realRounds q body (List.iterate Ieee.next low (k + 1)) m = .ok () m₂ ↔
      ∃ m₁, realRounds q body (List.iterate Ieee.next low k) m = .ok () m₁ ∧
        realRound q body (Ieee.next^[k] low) m₁ = .ok () m₂ := by
  induction k generalizing low m with
  | zero =>
    constructor
    · intro h
      obtain ⟨_, m₁, hround, hrest⟩ := bind_ok h
      cases hrest
      exact ⟨m, rfl, hround⟩
    · rintro ⟨_, hfirst, hlast⟩
      cases hfirst
      exact bind_eq hlast
  | succ k ih =>
    constructor
    · intro h
      obtain ⟨_, m₃, hround, hrest⟩ := bind_ok h
      obtain ⟨m₁, hfirst, hlast⟩ := ih.1 hrest
      exact ⟨m₁, (bind_eq hround).trans hfirst, hlast⟩
    · rintro ⟨m₁, hfirst, hlast⟩
      obtain ⟨_, m₃, hround, hrest⟩ := bind_ok hfirst
      exact (bind_eq hround).trans (ih.2 ⟨m₁, hrest, hlast⟩)

/-- What ends with more steps did not fail with fewer, but for want of them. -/
theorem SteadyAt.unfinished_of_more {α : Type} {run : Run α} {base : Nat} {h : Halt} {d : Nat} {a : α}
    (hsteady : SteadyAt p base given run m) (he : run m = .error h m₁)
    (hok : run (m.more d) = .ok a m₂) : h = .unfinished := by
  have hcontinues := hsteady.continues d
  rw [he, hok] at hcontinues
  cases hcontinues
  rfl

/-- Rounds that each end do so in a row, with enough steps. -/
theorem exists_realRounds (hbody : Steady p 0 given body) (hends : RoundsEnd q body low high m) (k : Nat)
    (hle : ∀ j < k, (Ieee.next^[j] low).le high = true) :
    ∃ d m', realRounds q body (List.iterate Ieee.next low k) (m.more d) = .ok () m' := by
  induction k with
  | zero => exact ⟨0, m, rfl⟩
  | succ k ih =>
    obtain ⟨d, m₁, hfirst⟩ := ih fun j hj => hle j (by omega)
    obtain ⟨e, m₂, hlast⟩ := hends k d m₁ (fun j hj => hle j (by omega)) hfirst
    refine ⟨d + e, m₂, (realRounds_iterate_succ k).2 ⟨m₁.more e, ?_, hlast⟩⟩
    rw [← Machine.more_more]
    exact (steady_realRounds hbody _ _ (Nat.zero_le _)).ok_more hfirst e

/-- **Rounds end if each of them keeps what it needs to end.** What is kept is
about the store alone, as the steps that are left differ from one attempt to the
next. -/
theorem roundsEnd_of_invariant {I : Store → Prop} (hbody : Steady p 0 given body) (hstart : I m.store)
    (hround : ∀ k (m₁ : Machine), (∀ j ≤ k, (Ieee.next^[j] low).le high = true) → I m₁.store →
      ∃ e m₂, realRound q body (Ieee.next^[k] low) (m₁.more e) = .ok () m₂ ∧ I m₂.store) :
    RoundsEnd q body low high m := by
  -- after each number of rounds the invariant holds, however many steps were left
  have hkept : ∀ k d m₁, (∀ j < k, (Ieee.next^[j] low).le high = true) →
      realRounds q body (List.iterate Ieee.next low k) (m.more d) = .ok () m₁ → I m₁.store := by
    intro k
    induction k with
    | zero =>
      intro d m₁ _ h
      cases h
      exact hstart
    | succ k ih =>
      intro d m₁ hle h
      obtain ⟨m₀, hfirst, hlast⟩ := (realRounds_iterate_succ k).1 h
      obtain ⟨e, m₂, hmore, hI⟩ :=
        hround k m₀ (fun j hj => hle j (by omega)) (ih d m₀ (fun j hj => hle j (by omega)) hfirst)
      -- the round was run with fewer steps, and comes to the same with more
      have hsame := (steady_realRound hbody _ m₀ (Nat.zero_le _)).ok_more hlast e
      rw [hmore] at hsame
      cases hsame
      exact hI
  intro k d m₁ hle h
  obtain ⟨e, m₂, hmore, -⟩ := hround k m₁ hle (hkept k d m₁ (fun j hj => hle j hj.le) h)
  exact ⟨e, m₂, hmore⟩

/-! ## Counting

The loop goes on while its counter is not above the upper bound. If counting
passes that, the loop is the rounds up to there; if it never does, the loop goes
on for ever.
-/

/-- To count is to run a round, and to count on from where it leaves the
machine. -/
theorem countRealsFrom_succ (bound : Nat) (hle : x.le high = true) :
    countRealsFrom (storeReal q body) high (bound + 1) x m =
      (realRound q body x >>= fun _ => countRealsFrom (storeReal q body) high bound x.next) m := by
  rw [countRealsFrom, if_pos hle, realRound, bind_assoc]
  rfl

/-- A round takes at least the step at its start. -/
theorem steps_of_realRound (hbody : Steady p 0 given body) (h : realRound q body x m = .ok () m') :
    m'.steps < m.steps := by
  obtain ⟨_, m₁, htick, hrest⟩ := bind_ok h
  have hle : m'.steps ≤ m₁.steps := by
    have h := (steady_storeReal (q := q) hbody x m₁ (Nat.zero_le _)).leads.steps_le
    rwa [after, hrest] at h
  have hspent := (tick_ok htick).2
  omega

/-- **Counting is the rounds in a row** for the numbers up to the first one
above `high`. As each of them takes a step, there are rounds enough for the
steps. -/
theorem countRealsFrom_eq (hbody : Steady p 0 given body) {n : Nat} (hpasses : Ieee.Passes low high n)
    {bound : Nat} (hbound : m.steps < bound) :
    countRealsFrom (storeReal q body) high bound low m =
      realRounds q body (List.iterate Ieee.next low n) m := by
  induction n generalizing low bound m with
  | zero =>
    obtain ⟨bound, rfl⟩ := Nat.exists_eq_add_of_lt (Nat.zero_lt_of_lt hbound)
    -- the number that is counted is above the bound, so this is no round
    have habove : low.le high = false := hpasses.2
    rw [Nat.zero_add, countRealsFrom, if_neg (Bool.eq_false_iff.1 habove)]
    rfl
  | succ n ih =>
    obtain ⟨bound, rfl⟩ := Nat.exists_eq_add_of_lt (Nat.zero_lt_of_lt hbound)
    have hle : low.le high = true := hpasses.1 0 (Nat.succ_pos n)
    rw [Nat.zero_add, countRealsFrom_succ _ hle, List.iterate, realRounds, List.forM, bind_apply,
      bind_apply]
    cases hround : realRound q body low m with
    | error h m₁ => rfl
    | ok _ m₁ =>
      have hsteps := steps_of_realRound hbody hround
      exact ih ⟨fun k hk => hpasses.1 (k + 1) (by omega), hpasses.2⟩ (by omega)

/-- **Counting that passes no number ends for want of steps only**, if none of
its rounds ends it. -/
theorem countRealsFrom_unfinished (hbody : Steady p 0 given body)
    (hle : ∀ k, (Ieee.next^[k] low).le high = true)
    (hrounds : ∀ k m₁ h m₂, realRounds q body (List.iterate Ieee.next low k) m = .ok () m₁ →
      realRound q body (Ieee.next^[k] low) m₁ = .error h m₂ → h = .unfinished)
    {bound : Nat} (hbound : m.steps < bound) :
    ∃ m', countRealsFrom (storeReal q body) high bound low m = .error .unfinished m' := by
  induction bound generalizing low m with
  | zero => omega
  | succ bound ih =>
    have hfirst : low.le high = true := hle 0
    rw [countRealsFrom_succ _ hfirst, bind_apply]
    cases hround : realRound q body low m with
    | error h m₁ =>
      -- a round that fails does so for want of steps
      obtain rfl := hrounds 0 m h m₁ rfl hround
      exact ⟨m₁, rfl⟩
    | ok _ m₁ =>
      have hsteps := steps_of_realRound hbody hround
      refine ih (fun k => hle (k + 1)) (fun k m₂ h m₃ hfirst hlast => ?_) (by omega)
      refine hrounds (k + 1) m₂ h m₃ ?_ hlast
      exact (bind_eq hround).trans hfirst

/-- A loop whose counter never passes the bound and whose rounds all end does
not end itself: with any number of steps more it is still unfinished. -/
theorem RoundsEnd.unfinished (hends : RoundsEnd q body low high m) (hbody : Steady p 0 given body)
    (hle : ∀ k, (Ieee.next^[k] low).le high = true) (d : Nat) :
    ∃ m', countRealsFrom (storeReal q body) high ((m.more d).steps + 1) low (m.more d) =
      .error .unfinished m' := by
  refine countRealsFrom_unfinished hbody hle (fun k m₁ h m₂ hfirst hlast => ?_) (Nat.lt_succ_self _)
  obtain ⟨e, m₃, hok⟩ := hends k d m₁ (fun j _ => hle j) hfirst
  exact (steady_realRound hbody _ m₁ (Nat.zero_le _)).unfinished_of_more hlast hok

/-! ## The loop

What is known of counting in double precision decides between the two.
-/

/-- What a loop that counts reals comes to, if there is room for it. -/
theorem statement_forLoop_real (setting : Setting) {room : Nat} (stack : List String) {f : Frame}
    {line nameLine : Nat} {name : String} {start stop : Expr} {stmts : List Stmt}
    (hroom : (Stmt.forLoop line name nameLine start stop stmts).headDepth ≤ room)
    (hstart : start.evaluate m.store f = .ok (.scalar (.real low)))
    (hstop : stop.evaluate m.store f = .ok (.scalar (.real high)))
    (hplace : f.find? name = some q) (hconstant : f.isConstant name = false) :
    statement setting (room + 5) stack f (.forLoop line name nameLine start stop stmts) m =
      countRealsFrom (storeReal q (block (statement setting (room + 2) stack f) stmts)) high
        (m.steps + 1) low m := by
  have hlocated : f.place name = .ok q := by rw [Frame.place, hplace]
  rw [statement_eq, level, if_neg (Nat.not_lt.2 hroom), forLoop, bind_eq (evaluate_of_ok hstart),
    bind_eq (evaluate_of_ok hstop)]
  simp only [hconstant, Bool.false_eq_true, if_false, hlocated]
  rfl

/-- **A loop that counts reals ends if its upper bound is below `2^53`.** Take a
loop, in any frame and on any machine, whose bounds come to finite reals there,
whose variable is declared and no constant, and whose rounds all end normally.
If `low` is above `high`, or if it is not below `-2^53` and `high` is below
`2^53`, the loop is a finite number of rounds in a row, none in the first case
and exactly one if the bounds are equal, and with enough steps it ends normally.
If this is not so and `low` is a single, it does not end, with no number of
steps, and starts its body more often than any number tells. -/
theorem forLoop_reals_ends (setting : Setting) {room : Nat} (stack : List String) {f : Frame}
    {line nameLine : Nat} {name : String} {start stop : Expr} {stmts : List Stmt} {low high : Ieee}
    {a b : Rat} {q : Place} {m : Machine}
    (hroom : (Stmt.forLoop line name nameLine start stop stmts).headDepth ≤ room)
    (hstart : start.evaluate m.store f = .ok (.scalar (.real low))) (hlow : low.rational? = some a)
    (hstop : stop.evaluate m.store f = .ok (.scalar (.real high))) (hhigh : high.rational? = some b)
    (hplace : f.find? name = some q) (hconstant : f.isConstant name = false)
    (hends : RoundsEnd q (block (statement setting (room + 2) stack f) stmts) low high m) :
    let loop := statement setting (room + 5) stack f (.forLoop line name nameLine start stop stmts)
    let inner := block (statement setting (room + 2) stack f) stmts
    (b < a ∨ (-2 ^ 53 ≤ a ∧ b < 2 ^ 53) → ∃ n,
      (b < a → n = 0) ∧ (a = b → n = 1) ∧
      (∀ d, loop (m.more d) = realRounds q inner (List.iterate Ieee.next low n) (m.more d)) ∧
      ∃ d m', loop (m.more d) = .ok () m') ∧
    (¬(b < a ∨ (-2 ^ 53 ≤ a ∧ b < 2 ^ 53)) → low.IsSingle →
      (∀ d, ∃ m', loop (m.more d) = .error .unfinished m') ∧
      ∀ n, ∃ d m', realRounds q inner (List.iterate Ieee.next low n) (m.more d) = .ok () m') := by
  intro loop inner
  have hloop (d : Nat) := statement_forLoop_real setting stack hroom (m := m.more d) hstart hstop
    hplace hconstant
  have hbody : Steady setting.program 0 f.Grants inner :=
    .block (steady_statement setting _ 0 stack f) stmts
  refine ⟨fun hcase => ?_, fun hcase hsingle => ?_⟩
  -- a bound is passed: at once, or since counting makes progress
  · obtain ⟨n, hpasses⟩ : ∃ n, Ieee.Passes low high n := by
      rcases hcase with habove | ⟨h₁, h₂⟩
      · exact ⟨0, nofun, Bool.eq_false_iff.2 fun h => habove.not_ge ((Ieee.le_iff hlow hhigh).1 h)⟩
      · exact Ieee.exists_passes hlow hhigh h₁ h₂
    have hrounds (d : Nat) : loop (m.more d) =
        realRounds q inner (List.iterate Ieee.next low n) (m.more d) :=
      (hloop d).trans (countRealsFrom_eq hbody hpasses (Nat.lt_succ_self _))
    refine ⟨n, hpasses.eq_zero hlow hhigh, ?_, hrounds, ?_⟩
    · rintro rfl
      obtain ⟨h₁, h₂⟩ := hcase.resolve_left (lt_irrefl a)
      exact hpasses.eq_one hlow hhigh h₁ h₂
    · obtain ⟨d, m', hd⟩ := exists_realRounds hbody hends n hpasses.1
      exact ⟨d, m', (hrounds d).trans hd⟩
  -- no bound is ever passed, as the number stays the same from some round on
  · obtain ⟨habove, hout⟩ := not_or.1 hcase
    have hle := Ieee.iterate_next_le hsingle hlow hhigh (not_lt.1 habove) hout
    refine ⟨fun d => ?_, fun n => exists_realRounds hbody hends n fun j _ => hle j⟩
    rw [show loop (m.more d) = _ from hloop d]
    exact hends.unfinished hbody hle d

/-! ## Two loops

One loop that ends and one that does not, both over a body that is always the
same and that ends whenever it is run.
-/

/-- A body that sets another variable to 0. -/
def resetting : List Stmt :=
  [.assign 2 ⟨2, "n", none⟩ (.literal 2 (.integer 0))]

/-- A frame for it, and for a loop that counts with a real variable. -/
def resettingFrame : Frame :=
  { bindings := [("x", ⟨0, none⟩), ("n", ⟨1, none⟩)] }

/-- The variables of the two. -/
def resettingStore (x : Ieee) : Store :=
  { cells := #[.scalar (.real none) (.real x), .scalar (.integer none) (.integer 0)] }

/-- A loop over such a body has rounds that end, for reals whose texts can be
read. Whatever a round stores, its body leaves a store of the same shape behind,
and it takes four steps. -/
theorem roundsEnd_resetting (setting : Setting) (stack : List String) {x : Ieee}
    (hm : m.store = resettingStore x)
    (hread : ∀ k, (∀ j ≤ k, (Ieee.next^[j] low).le high = true) →
      ∃ y, (ScalarType.real none).read (Scalar.real (Format.single.round (Ieee.next^[k] low))).text =
        .ok (.real y)) :
    RoundsEnd ⟨0, none⟩ (block (statement setting 22 stack resettingFrame) resetting) low high m := by
  have hbody : Steady setting.program 0 resettingFrame.Grants
      (block (statement setting 22 stack resettingFrame) resetting) :=
    .block (steady_statement setting _ 0 stack resettingFrame) resetting
  refine roundsEnd_of_invariant (I := fun s => ∃ x, s = resettingStore x) hbody ⟨x, hm⟩
    fun k m₁ hle ⟨z, hz⟩ => ?_
  obtain ⟨y, hy⟩ := hread k hle
  generalize Ieee.next^[k] low = x' at hy
  have hstored : write ⟨0, none⟩ (Scalar.real (Format.single.round x')).text
      { m₁ with steps := m₁.steps + 3 } =
        .ok () { m₁ with store := resettingStore y, steps := m₁.steps + 2 } := by
    have hreading : m₁.store.reading ⟨0, none⟩ (Scalar.real (Format.single.round x')).text =
        .ok (.real y) := Store.reading_ok.2 ⟨.real none, by rw [hz]; rfl, hy⟩
    have hput : m₁.store.put ⟨0, none⟩ (.real y) = resettingStore y := by
      rw [hz]
      rfl
    rw [write_apply]
    simp only [hreading, hput]
  have hzero : (ScalarType.integer none).read (Scalar.integer 0).text = .ok (.integer 0) := by
    decide +kernel
  -- the body is one assignment to another variable
  have hset : ∃ steps, statement setting 22 stack resettingFrame
      (.assign 2 ⟨2, "n", none⟩ (.literal 2 (.integer 0)))
      { m₁ with store := resettingStore y, steps := m₁.steps + 1 } =
        .ok () { m₁ with store := resettingStore y, steps } := by
    have htype : (resettingStore y).typeAt? ⟨1, none⟩ = some (.integer none) := rfl
    rw [statement_eq, level, if_neg (by decide)]
    exact assign_apply_of_read (q := ⟨1, none⟩) (x := .scalar (.integer 0)) rfl rfl rfl htype hzero
      (Nat.succ_pos _)
  obtain ⟨steps, hset⟩ := hset
  refine ⟨4, { m₁ with store := resettingStore y, steps }, ?_, y, rfl⟩
  rw [realRound, bind_eq (show tick (m₁.more 4) = .ok () { m₁ with steps := m₁.steps + 3 } from rfl),
    storeReal, bind_eq hstored, resetting, block,
    bind_eq (show tick { m₁ with store := resettingStore y, steps := m₁.steps + 2 } =
      .ok () { m₁ with store := resettingStore y, steps := m₁.steps + 1 } from rfl)]
  exact bind_eq ((rethrow_apply ..).trans (by rw [hset]))

/-- The hypotheses of `forLoop_reals_ends` are satisfiable: counting from 1.5 to
1.5 is one round. -/
theorem forLoop_reals_ends_once :
    let setting : Setting := { program := { functions := [] } }
    let m : Machine := { store := resettingStore (.finite 0), steps := 0 }
    let bound : Expr := .literal 1 (.real (.finite (3 / 2)))
    let inner := block (statement setting 22 ["start"] resettingFrame) resetting
    let loop := statement setting 25 ["start"] resettingFrame (.forLoop 1 "x" 1 bound bound resetting)
    (∀ d, loop (m.more d) = realRounds ⟨0, none⟩ inner [.finite (3 / 2)] (m.more d)) ∧
      ∃ d m', loop (m.more d) = .ok () m' := by
  intro setting m bound inner loop
  have hbound : bound.evaluate m.store resettingFrame = .ok (.scalar (.real (.finite (3 / 2)))) := by
    decide +kernel
  have habove : (Ieee.next^[1] (.finite (3 / 2))).le (.finite (3 / 2)) = false := by decide +kernel
  have hends : RoundsEnd ⟨0, none⟩ inner (.finite (3 / 2)) (.finite (3 / 2)) m := by
    refine roundsEnd_resetting setting ["start"] rfl fun k hle => ?_
    -- after the first number the bound is passed
    obtain rfl : k = 0 := by
      by_contra hk
      rw [hle 1 (Nat.pos_of_ne_zero hk)] at habove
      cases habove
    exact ⟨.finite (3 / 2), by decide +kernel⟩
  have hroom : (Stmt.forLoop 1 "x" 1 bound bound resetting).headDepth ≤ 20 := by decide
  obtain ⟨n, -, hone, hloop, hok⟩ := (forLoop_reals_ends setting ["start"] hroom hbound (a := 3 / 2) rfl
    hbound (b := 3 / 2) rfl (q := ⟨0, none⟩) rfl rfl hends).1
    (.inr ⟨by norm_num, by norm_num⟩)
  obtain rfl := hone rfl
  exact ⟨hloop, hok⟩

/-- Not every loop that counts reals ends when all of its rounds do: `2^53` and
one more is `2^53` again. -/
theorem forLoop_reals_unending :
    ¬∀ (setting : Setting) (room : Nat) (stack : List String) (f : Frame) (line nameLine : Nat)
      (name : String) (start stop : Expr) (stmts : List Stmt) (low high : Ieee) (a b : Rat) (q : Place)
      (m : Machine),
      (Stmt.forLoop line name nameLine start stop stmts).headDepth ≤ room →
      start.evaluate m.store f = .ok (.scalar (.real low)) → low.rational? = some a →
      stop.evaluate m.store f = .ok (.scalar (.real high)) → high.rational? = some b →
      f.find? name = some q → f.isConstant name = false →
      RoundsEnd q (block (statement setting (room + 2) stack f) stmts) low high m →
      let loop := statement setting (room + 5) stack f (.forLoop line name nameLine start stop stmts)
      let inner := block (statement setting (room + 2) stack f) stmts
      ∃ n, (a = b → n = 1) ∧
        (∀ d, loop (m.more d) = realRounds q inner (List.iterate Ieee.next low n) (m.more d)) ∧
        ∃ d m', loop (m.more d) = .ok () m' := by
  intro hall
  let setting : Setting := { program := { functions := [] } }
  let m : Machine := { store := resettingStore (.finite 0), steps := 0 }
  let top : Ieee := .finite 9007199254740992
  let bound : Expr := .literal 1 (.real top)
  have hroom : (Stmt.forLoop 1 "x" 1 bound bound resetting).headDepth ≤ 20 := by decide
  have hbound (d : Nat) : bound.evaluate (m.more d).store resettingFrame = .ok (.scalar (.real top)) := by
    show bound.evaluate m.store resettingFrame = _
    decide +kernel
  -- counting from here on makes no progress
  have hstays (k : Nat) : Ieee.next^[k] top = top :=
    Function.iterate_fixed (by decide +kernel : top.next = top) k
  have hle (k : Nat) : (Ieee.next^[k] top).le top = true := by
    rw [hstays]
    decide +kernel
  have hends : RoundsEnd ⟨0, none⟩ (block (statement setting 22 ["start"] resettingFrame) resetting)
      top top m := by
    refine roundsEnd_resetting setting ["start"] rfl fun k _ => ?_
    rw [hstays]
    exact ⟨top, by decide +kernel⟩
  obtain ⟨n, -, -, d, m', hok⟩ := hall setting 20 ["start"] resettingFrame 1 1 "x" bound bound resetting
    top top _ _ ⟨0, none⟩ m hroom (hbound 0) rfl (hbound 0) rfl rfl rfl hends
  obtain ⟨m₁, hunfinished⟩ := hends.unfinished
    (.block (steady_statement setting _ 0 ["start"] resettingFrame) resetting) hle d
  have hloop := statement_forLoop_real setting ["start"] hroom (hbound d) (hbound d) (q := ⟨0, none⟩)
    rfl rfl
  cases hok.symm.trans (hloop.trans hunfinished)

end Run
end Shank
