import Mathlib.Algebra.BigOperators.Group.Finset.Basic
import Mathlib.Computability.StateTransition
import Pire2Pire.Library.Copying

/-! Two nested loops that copy through a buffer, the outer one filling it and the inner one emptying it, on infinite
sequences of outcomes of their calls: when they come to an end. -/
namespace Pire2Pire.Library

open StateTransition

/-! ### Machines that stop -/

section

variable {σ : Type} {step : σ → Option σ} {s t : σ}

/-- After some number of steps there is no further one. -/
def Halts (step : σ → Option σ) (s : σ) : Prop :=
  ∃ u, Reaches step s u ∧ step u = none

theorem halts_iff_of_reaches (reached : Reaches step s t) : Halts step s ↔ Halts step t := by
  simp only [Halts, ← mem_eval, reaches_eval reached]

/-- A machine that goes round after round, unless it stops in one of them. -/
theorem halts_iff_round {head : Nat → σ} {ends : Nat → Prop} (ended : ∀ i, ends i → Halts step (head i))
    (next : ∀ i, ¬ ends i → Reaches₁ step (head i) (head (i + 1))) : Halts step (head 0) ↔ ∃ i, ends i := by
  constructor
  · rintro ⟨u, reached, last⟩
    -- induction on the steps from any state in front of the head of a round
    have onTheWay : ∀ i, Reaches step (head 0) (head i) → ∃ i, ends i := by
      refine evalInduction (mem_eval.mpr ⟨reached, last⟩) (C := fun s => ∀ i, Reaches step s (head i) → ∃ i, ends i) ?_
      intro s _ ih i ahead
      rcases Relation.ReflTransGen.cases_head ahead with rfl | ⟨s', taken, ahead⟩
      · by_cases finished : ends i
        · exact ⟨i, finished⟩
        · obtain ⟨s', taken, ahead⟩ := Relation.TransGen.head'_iff.mp (next i finished)
          exact ih s' taken (i + 1) ahead
      · exact ih s' taken i ahead
    exact onTheWay 0 .refl
  · rintro ⟨i, finished⟩
    have back : ∀ i, Halts step (head i) → Halts step (head 0) := by
      intro i
      induction i with
      | zero => exact id
      | succ i ih =>
        intro halts
        by_cases finished : ends i
        · exact ih (ended i finished)
        · exact ih ((halts_iff_of_reaches (next i finished).to_reflTransGen).mpr halts)
    exact back i (ended i finished)

end

/-! ### The loops -/

/-- What the outer loop tests, and what a filled and an emptied part of the buffer make of it. -/
structure CopyLoop (γ : Type) where
  more : γ → Bool
  filled : γ → Nat → γ
  emptied : γ → Nat → γ

/-- How the calls turn out, round after round. In a round the calls that empty the buffer are told apart by what they
are asked for; a call that fails has no count. -/
structure Outcomes (bufferSize : Nat) where
  input : Nat → Option Nat
  output : Nat → Nat → Option Nat
  input_le : ∀ i n, input i = some n → n ≤ bufferSize
  output_pos : ∀ i left n, 0 < left → output i left = some n → 0 < n ∧ n ≤ left

inductive CopyState (γ : Type) where
  | test (round : Nat) (count : γ)
  | emptying (round : Nat) (count : γ) (left : Nat)
  | stopped (complete : Bool)
deriving DecidableEq, Repr

variable {γ : Type} {bufferSize : Nat}

def CopyLoop.step (loop : CopyLoop γ) (calls : Outcomes bufferSize) : CopyState γ → Option (CopyState γ)
  | .test i count =>
    if loop.more count then
      match calls.input i with
      | none => some (.stopped false)
      | some n => some (.emptying i (loop.filled count n) n)
    else some (.stopped true)
  | .emptying i count left =>
    if left = 0 then some (.test (i + 1) count)
    else
      match calls.output i left with
      | none => some (.stopped false)
      | some n => some (.emptying i (loop.emptied count n) (left - n))
  | .stopped _ => none

/-- Emptying the buffer in parts counts as emptying it at once. -/
structure CopyLoop.Additive (loop : CopyLoop γ) : Prop where
  zero : ∀ count, loop.emptied count 0 = count
  add : ∀ count a b, loop.emptied (loop.emptied count a) b = loop.emptied count (a + b)

/-- One of the calls that empty a buffer with so many bytes fails. -/
inductive OutputFails (output : Nat → Option Nat) : Nat → Prop where
  | here {left : Nat} (busy : 0 < left) (failed : output left = none) : OutputFails output left
  | later {left n : Nat} (busy : 0 < left) (taken : output left = some n) (failed : OutputFails output (left - n)) :
      OutputFails output left

/-- One of the calls of the round fails. -/
def Outcomes.FailsIn (calls : Outcomes bufferSize) (i : Nat) : Prop :=
  match calls.input i with
  | none => True
  | some n => OutputFails (calls.output i) n

/-- How much has been filled in by the rounds before this one. -/
def Outcomes.total (calls : Outcomes bufferSize) (i : Nat) : Nat :=
  ∑ j ∈ Finset.range i, (calls.input j).getD 0

/-- The count at the head of each round. -/
def CopyLoop.counts (loop : CopyLoop γ) (calls : Outcomes bufferSize) (start : γ) : Nat → γ
  | 0 => start
  | i + 1 =>
    loop.emptied (loop.filled (loop.counts calls start i) ((calls.input i).getD 0)) ((calls.input i).getD 0)

def CopyLoop.head (loop : CopyLoop γ) (calls : Outcomes bufferSize) (start : γ) (i : Nat) : CopyState γ :=
  .test i (loop.counts calls start i)

/-- There is no more to do at the head of the round, or one of its calls fails. -/
def CopyLoop.EndsIn (loop : CopyLoop γ) (calls : Outcomes bufferSize) (start : γ) (i : Nat) : Prop :=
  loop.more (loop.counts calls start i) = false ∨ calls.FailsIn i

variable {loop : CopyLoop γ} {calls : Outcomes bufferSize} {i left : Nat}

theorem Outcomes.total_succ (calls : Outcomes bufferSize) (i : Nat) :
    calls.total (i + 1) = calls.total i + (calls.input i).getD 0 :=
  Finset.sum_range_succ ..

/-- The inner loop comes to an end: it stops everything, or the buffer is empty. -/
theorem emptying_ends (calls : Outcomes bufferSize) (i : Nat) (additive : loop.Additive) (count : γ) (left : Nat) :
    (OutputFails (calls.output i) left → Reaches (loop.step calls) (.emptying i count left) (.stopped false)) ∧
      (¬ OutputFails (calls.output i) left →
        Reaches (loop.step calls) (.emptying i count left) (.test (i + 1) (loop.emptied count left))) := by
  -- induction on what is left: every call takes some of it
  induction left using Nat.strong_induction_on generalizing count with
  | _ left ih =>
    by_cases empty : left = 0
    · subst empty
      constructor
      · intro fails
        cases fails <;> contradiction
      · intro _
        exact .single (by simp [CopyLoop.step, additive.zero])
    · have busy : 0 < left := Nat.pos_iff_ne_zero.mpr empty
      cases outcome : calls.output i left with
      | none =>
        refine ⟨?_, fun fine => absurd (.here busy outcome) fine⟩
        intro _
        exact .single (by simp [CopyLoop.step, empty, outcome])
      | some n =>
        obtain ⟨positive, atMost⟩ := calls.output_pos i left n busy outcome
        have first : loop.step calls (.emptying i count left) =
            some (.emptying i (loop.emptied count n) (left - n)) := by simp [CopyLoop.step, empty, outcome]
        obtain ⟨failing, fine⟩ := ih (left - n) (by omega) (loop.emptied count n)
        rw [additive.add, Nat.add_sub_cancel' atMost] at fine
        constructor
        · intro fails
          cases fails with
          | here _ failed =>
            rw [outcome] at failed
            cases failed
          | later _ taken failed =>
            cases Option.some.inj (outcome.symm.trans taken)
            exact .head first (failing failed)
        · intro succeeds
          exact .head first (fine fun failed => succeeds (.later busy outcome failed))

/-- The round ends the loops. -/
theorem CopyLoop.halts_of_endsIn (additive : loop.Additive) {start : γ} (ends : loop.EndsIn calls start i) :
    Halts (loop.step calls) (loop.head calls start i) := by
  -- by what ends it: the test, the call that fills the buffer, or one that empties it
  cases more : loop.more (loop.counts calls start i) with
  | false =>
    have taken : loop.step calls (loop.head calls start i) = some (.stopped true) := by
      simp [CopyLoop.step, CopyLoop.head, more]
    exact ⟨_, .single taken, rfl⟩
  | true =>
    have fails : calls.FailsIn i := by simpa [CopyLoop.EndsIn, more] using ends
    unfold Outcomes.FailsIn at fails
    split at fails
    next failed =>
      have taken : loop.step calls (loop.head calls start i) = some (.stopped false) := by
        simp [CopyLoop.step, CopyLoop.head, more, failed]
      exact ⟨_, .single taken, rfl⟩
    next n filled =>
      have taken : loop.step calls (loop.head calls start i) =
          some (.emptying i (loop.filled (loop.counts calls start i) n) n) := by
        simp [CopyLoop.step, CopyLoop.head, more, filled]
      exact ⟨_, .head taken ((emptying_ends calls i additive _ n).1 fails), rfl⟩

theorem CopyLoop.next_of_not_endsIn (additive : loop.Additive) {start : γ} (goesOn : ¬ loop.EndsIn calls start i) :
    Reaches₁ (loop.step calls) (loop.head calls start i) (loop.head calls start (i + 1)) := by
  obtain ⟨more, fine⟩ := not_or.mp goesOn
  rw [Bool.not_eq_false] at more
  cases filled : calls.input i with
  | none => exact absurd (by simp [Outcomes.FailsIn, filled]) fine
  | some n =>
    have taken : loop.step calls (loop.head calls start i) =
        some (.emptying i (loop.filled (loop.counts calls start i) n) n) := by
      simp [CopyLoop.step, CopyLoop.head, more, filled]
    have succeeds : ¬ OutputFails (calls.output i) n := by simpa [Outcomes.FailsIn, filled] using fine
    have emptied := (emptying_ends calls i additive (loop.filled (loop.counts calls start i) n) n).2 succeeds
    have next : loop.head calls start (i + 1) =
        .test (i + 1) (loop.emptied (loop.filled (loop.counts calls start i) n) n) := by
      simp [CopyLoop.head, CopyLoop.counts, filled]
    rw [next]
    exact .head' taken emptied

/-- The loops come to an end if and only if the outer one finds no more to do at the head of some round, or a call of
some round fails. -/
theorem CopyLoop.halts_iff (additive : loop.Additive) (start : γ) :
    Halts (loop.step calls) (.test 0 start) ↔ ∃ i, loop.EndsIn calls start i := by
  have ended : ∀ i, loop.EndsIn calls start i → Halts (loop.step calls) (loop.head calls start i) :=
    fun i => halts_of_endsIn additive
  have next : ∀ i, ¬ loop.EndsIn calls start i →
      Reaches₁ (loop.step calls) (loop.head calls start i) (loop.head calls start (i + 1)) :=
    fun i => next_of_not_endsIn additive
  have rounds := halts_iff_round ended next
  exact rounds

/-! ### Finite runs -/

/-- The calls that empty a buffer with so many bytes turn out as listed. -/
def Follows (output : Nat → Option Nat) : Nat → List (Option Nat) → Prop
  | _, [] => True
  | left, outcome :: outcomes => output left = outcome ∧ ∀ n, outcome = some n → Follows output (left - n) outcomes

/-- From this round on the calls turn out as listed, round by round. -/
def Outcomes.Listed (calls : Outcomes bufferSize) : Nat → List (Option Nat × List (Option Nat)) → Prop
  | _, [] => True
  | i, (input, outputs) :: rounds =>
    calls.input i = input ∧ (∀ n, input = some n → Follows (calls.output i) n outputs) ∧ calls.Listed (i + 1) rounds

/-- Where writing out the buffer comes to an end, so does the inner loop. -/
theorem reaches_of_putFronts {α : Type} {buffer bytes : List α} {complete : Bool} {outcomes : List (Option Nat)}
    (additive : loop.Additive) (count : γ) (follows : Follows (calls.output i) left outcomes)
    (put : putFronts buffer left outcomes = some (bytes, complete)) :
    Reaches (loop.step calls) (.emptying i count left)
      (if complete then .test (i + 1) (loop.emptied count left) else .stopped false) := by
  induction outcomes generalizing left bytes count with
  | nil =>
    simp only [putFronts] at put
    split at put
    next empty =>
      cases put
      exact .single (by simp [CopyLoop.step, empty, additive.zero])
    · cases put
  | cons outcome outcomes ih =>
    simp only [putFronts] at put
    split at put
    · cases put
    next busy =>
      cases outcome with
      | none =>
        cases put
        exact .single (by simp [CopyLoop.step, busy, follows.1])
      | some n =>
        dsimp only at put
        split at put
        next fits =>
          obtain ⟨⟨later, complete'⟩, rest, same⟩ := Option.map_eq_some_iff.mp put
          cases same
          have reached := ih (loop.emptied count n) (follows.2 n rfl) rest
          rw [additive.add, Nat.add_sub_cancel' fits.2] at reached
          exact .head (by simp [CopyLoop.step, busy, follows.1]) reached
        · cases put

end Pire2Pire.Library
