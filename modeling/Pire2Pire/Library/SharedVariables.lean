import Mathlib.Logic.Function.Basic
import Pire2Pire.Library.Runs

/-! Executions that share their variables, phase by phase, compared with executions that have
variables of their own.

As long as every phase reads only variables that its own execution was the last to write, no
execution can tell that the others exist. -/
namespace Pire2Pire.Library

/-- What one phase does: where the execution goes on, which variables it writes, and what it puts out. -/
structure Effect {Var : Type} (Val : Var → Type) (P ω : Type) where
  next : P
  writes : ∀ v, Option (Val v)
  out : List ω

/-- A program whose phases read the variables named by `reads`, and no others. `ι` is what a phase gets
from its environment. -/
structure Program {Var : Type} (Val : Var → Type) (P ι ω : Type) where
  reads : P → List Var
  step : P → ι → (∀ v, Val v) → Option (Effect Val P ω)
  local_ : ∀ p x store store', (∀ v ∈ reads p, store v = store' v) → step p x store = step p x store'

variable {Var : Type} {Val : Var → Type} {P ι ω : Type}

/-- Writing some of the variables. -/
def writeTo (store : ∀ v, Val v) (writes : ∀ v, Option (Val v)) : ∀ v, Val v :=
  fun v => (writes v).getD (store v)

/-- Any number of executions over one set of variables; `writer` is the execution that was the last
to write a variable. -/
structure Shared {Var : Type} (Val : Var → Type) (P ω : Type) where
  procs : Nat → P
  store : ∀ v, Val v
  writer : Var → Option Nat
  out : List (Nat × ω)

/-- One execution with variables of its own. -/
structure Solo {Var : Type} (Val : Var → Type) (P ω : Type) where
  proc : P
  store : ∀ v, Val v
  out : List ω

/-- Execution `e.1` takes its next phase. -/
def Program.sharedStep (prog : Program Val P ι ω) (s : Shared Val P ω) (e : Nat × ι) :
    Option (Shared Val P ω) :=
  (prog.step (s.procs e.1) e.2 s.store).map fun effect =>
    { procs := Function.update s.procs e.1 effect.next
      store := writeTo s.store effect.writes
      writer := fun v => if (effect.writes v).isSome then some e.1 else s.writer v
      out := s.out ++ effect.out.map fun o => (e.1, o) }

def Program.soloStep (prog : Program Val P ι ω) (s : Solo Val P ω) (x : ι) : Option (Solo Val P ω) :=
  (prog.step s.proc x s.store).map fun effect =>
    ⟨effect.next, writeTo s.store effect.writes, s.out ++ effect.out⟩

/-- An execution that runs alone, with the same inputs for each of its phases, until it has no next one. -/
def Program.runAlone (prog : Program Val P ι ω) (x : ι) : Nat → Solo Val P ω → Solo Val P ω
  | 0, t => t
  | fuel + 1, t =>
    match prog.soloStep t x with
    | none => t
    | some t' => prog.runAlone x fuel t'

/-- Nothing has run yet; the variables hold what earlier executions left in them. -/
def Shared.start (store : ∀ v, Val v) (procs : Nat → P) : Shared Val P ω :=
  ⟨procs, store, fun _ => none, []⟩

def Solo.start (store : ∀ v, Val v) (proc : P) : Solo Val P ω :=
  ⟨proc, store, []⟩

/-- The phase reads only what its own execution wrote last. -/
def Program.Undisturbed (prog : Program Val P ι ω) (s : Shared Val P ω) (e : Nat × ι) : Prop :=
  ∀ v ∈ prog.reads (s.procs e.1), s.writer v = some e.1

instance (prog : Program Val P ι ω) (s : Shared Val P ω) (e : Nat × ι) : Decidable (prog.Undisturbed s e) :=
  inferInstanceAs (Decidable (∀ v ∈ prog.reads (s.procs e.1), s.writer v = some e.1))

/-- The part of a run that belongs to one execution. -/
def partOf {α : Type} (i : Nat) (es : List (Nat × α)) : List α :=
  (es.filter fun e => e.1 = i).map Prod.snd

/-- An execution of the shared machine looks to itself like the one that runs alone. -/
structure Matches (s : Shared Val P ω) (i : Nat) (t : Solo Val P ω) : Prop where
  proc : t.proc = s.procs i
  out : t.out = partOf i s.out
  store : ∀ v, s.writer v = some i → s.store v = t.store v

variable {prog : Program Val P ι ω} {s s' : Shared Val P ω} {t : Solo Val P ω} {i : Nat} {e : Nat × ι}

theorem runAlone_invariant {x : ι} (inv : Solo Val P ω → Prop)
    (kept : ∀ t t', inv t → prog.soloStep t x = some t' → inv t') (fuel : Nat) (start : inv t) :
    inv (prog.runAlone x fuel t) := by
  induction fuel generalizing t with
  | zero => exact start
  | succ fuel ih =>
    unfold Program.runAlone
    split
    · exact start
    next t' taken => exact ih (kept t t' start taken)

/-- Enough fuel, by a measure that every phase lowers, takes an execution to where it has no next phase. -/
theorem runAlone_ends {x : ι} (measure : P → Nat)
    (lowers : ∀ t t', prog.soloStep t x = some t' → measure t'.proc < measure t.proc) {fuel : Nat}
    (enough : measure t.proc ≤ fuel) : prog.soloStep (prog.runAlone x fuel t) x = none := by
  induction fuel generalizing t with
  -- a measure of zero leaves no phase to take
  | zero =>
    cases taken : prog.soloStep t x with
    | none => exact taken
    | some t' =>
      have less := lowers t t' taken
      omega
  | succ fuel ih =>
    unfold Program.runAlone
    split
    next stuck => exact stuck
    -- one phase lowers the measure by one at least, and costs one unit of fuel
    next t' taken =>
      have less := lowers t t' taken
      exact ih (by omega)

theorem partOf_append {α : Type} (i : Nat) (xs ys : List (Nat × α)) :
    partOf i (xs ++ ys) = partOf i xs ++ partOf i ys := by
  simp [partOf]

theorem partOf_own {α : Type} (i : Nat) (xs : List α) : partOf i (xs.map fun x => (i, x)) = xs := by
  simp [partOf, List.filter_map, Function.comp_def]

theorem partOf_other {α : Type} {i j : Nat} (differ : j ≠ i) (xs : List α) :
    partOf i (xs.map fun x => (j, x)) = [] := by
  simp [partOf, List.filter_map, Function.comp_def, differ]

/-- An undisturbed phase is the phase of the execution that runs alone. -/
theorem matches_own (matched : Matches s e.1 t) (undisturbed : prog.Undisturbed s e)
    (taken : prog.sharedStep s e = some s') : ∃ t', prog.soloStep t e.2 = some t' ∧ Matches s' e.1 t' := by
  obtain ⟨effect, stepped, rfl⟩ := Option.map_eq_some_iff.mp taken
  -- the phase reads own variables only, and these are the same for both
  have same : prog.step t.proc e.2 t.store = some effect := by
    rw [matched.proc, ← stepped]
    refine prog.local_ _ _ _ _ ?_
    intro v read
    exact (matched.store v (undisturbed v read)).symm
  refine ⟨⟨effect.next, writeTo t.store effect.writes, t.out ++ effect.out⟩, ?_, ?_, ?_, ?_⟩
  · simp [Program.soloStep, same]
  · simp
  · simp [partOf_append, partOf_own, matched.out]
  -- a variable is owned if it was just written, or was before and is still
  · intro v owned
    simp only [writeTo]
    cases written : effect.writes v with
    | some x => rfl
    | none =>
      simp only [written, Option.isSome_none, Bool.false_eq_true, if_false] at owned
      exact matched.store v owned

/-- A phase of another execution leaves the variables that an execution owns. -/
theorem matches_other (matched : Matches s i t) (differ : e.1 ≠ i)
    (taken : prog.sharedStep s e = some s') : Matches s' i t := by
  obtain ⟨effect, -, rfl⟩ := Option.map_eq_some_iff.mp taken
  refine ⟨?_, ?_, ?_⟩
  · simp only [Function.update_of_ne differ.symm]
    exact matched.proc
  · simp only [partOf_append, partOf_other differ, List.append_nil]
    exact matched.out
  · intro v owned
    -- a variable that the other one wrote is owned no longer
    cases written : effect.writes v with
    | some x =>
      simp only [written, Option.isSome_some, if_true, Option.some.injEq] at owned
      exact absurd owned differ
    | none =>
      simp only [written, Option.isSome_none, Bool.false_eq_true, if_false] at owned
      simp only [writeTo, written, Option.getD_none]
      exact matched.store v owned

/-- In a run without disturbance every execution does what it does alone. -/
theorem undisturbed_matches {es : List (Nat × ι)} (matched : Matches s i t)
    (undisturbed : Along prog.sharedStep prog.Undisturbed s es)
    (ran : exec prog.sharedStep s es = some s') :
    ∃ t', exec prog.soloStep t (partOf i es) = some t' ∧ Matches s' i t' := by
  induction es generalizing s t with
  | nil =>
    cases ran
    exact ⟨t, rfl, matched⟩
  | cons e es ih =>
    -- each step of the run is an own one or leaves the own view as it is
    obtain ⟨u, taken, rest⟩ := exec_cons_some.mp ran
    by_cases own : e.1 = i
    · subst own
      obtain ⟨t₁, first, matched₁⟩ := matches_own matched undisturbed.1 taken
      obtain ⟨t', later, matched'⟩ := ih matched₁ (undisturbed.2 u taken) rest
      have split : partOf e.1 (e :: es) = e.2 :: partOf e.1 es := by simp [partOf]
      exact ⟨t', by rw [split]; exact exec_cons_some.mpr ⟨t₁, first, later⟩, matched'⟩
    · have split : partOf i (e :: es) = partOf i es := by simp [partOf, own]
      rw [split]
      exact ih (matches_other matched own taken) (undisturbed.2 u taken) rest

theorem matches_start (store : ∀ v, Val v) (procs : Nat → P) (i : Nat) :
    Matches (Shared.start store procs : Shared Val P ω) i (Solo.start store (procs i)) :=
  ⟨rfl, rfl, fun _ owned => nomatch owned⟩

/-- The execution put out what it puts out alone, with the same inputs, and is where it would be. -/
def Program.AsIfAlone (prog : Program Val P ι ω) (store : ∀ v, Val v) (procs : Nat → P) (es : List (Nat × ι))
    (s : Shared Val P ω) (i : Nat) : Prop :=
  ∃ t, exec prog.soloStep (Solo.start store (procs i)) (partOf i es) = some t ∧ t.out = partOf i s.out ∧
    t.proc = s.procs i

/-- What holds of every execution that runs alone holds of the executions of an undisturbed run. -/
theorem undisturbed_invariant (allowed : ι → Prop) (inv : Solo Val P ω → Prop)
    (kept : ∀ t x t', inv t → allowed x → prog.soloStep t x = some t' → inv t') {store : ∀ v, Val v}
    {procs : Nat → P} {es : List (Nat × ι)} (start : inv (Solo.start store (procs i)))
    (inputs : ∀ e ∈ es, allowed e.2)
    (undisturbed : Along prog.sharedStep prog.Undisturbed (Shared.start store procs) es)
    (ran : exec prog.sharedStep (Shared.start store procs) es = some s) :
    prog.AsIfAlone store procs es s i ∧ ∃ t, Matches s i t ∧ inv t := by
  obtain ⟨t, alone, matched⟩ := undisturbed_matches (matches_start store procs i) undisturbed ran
  -- the inputs of an execution are among those of the run
  have ownInputs : ∀ x ∈ partOf i es, allowed x := by
    intro x member
    obtain ⟨e, inside, rfl⟩ := List.mem_map.mp member
    exact inputs e (List.mem_of_mem_filter inside)
  exact ⟨⟨t, alone, matched.out, matched.proc⟩, t, matched,
    exec_invariant _ inv kept start (along_of_forall ownInputs) alone⟩

end Pire2Pire.Library
