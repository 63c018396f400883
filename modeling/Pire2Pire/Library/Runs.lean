import Mathlib.Algebra.Order.Ring.Int
import Mathlib.Data.List.Basic
import Mathlib.Data.List.Infix

/-! Runs of a step function over a list of events, and the rules that carry an
invariant along them. -/
namespace Pire2Pire.Library

variable {σ ε : Type}

/-- The state after a list of events taken one after the other. There is none as soon
as one of the events has no result. -/
def exec (step : σ → ε → Option σ) : σ → List ε → Option σ
  | s, [] => some s
  | s, e :: es => (step s e).bind fun t => exec step t es

/-- Every event of the run meets `cond` in the state in which it is taken. -/
def Along (step : σ → ε → Option σ) (cond : σ → ε → Prop) : σ → List ε → Prop
  | _, [] => True
  | s, e :: es => cond s e ∧ ∀ t, step s e = some t → Along step cond t es

/-- Every event of the run has a result, and `spec` relates the state before to it. -/
def Upholds (step : σ → ε → Option σ) (spec : σ → ε → σ → Prop) : σ → List ε → Prop
  | _, [] => True
  | s, e :: es => ∃ t, step s e = some t ∧ spec s e t ∧ Upholds step spec t es

instance Along.decidable (step : σ → ε → Option σ) (cond : σ → ε → Prop)
    [∀ s e, Decidable (cond s e)] : ∀ s es, Decidable (Along step cond s es)
  | _, [] => isTrue trivial
  | s, e :: es =>
    match taken : step s e with
    | none => decidable_of_iff (cond s e) (by simp [Along, taken])
    | some t =>
      have := Along.decidable step cond t es
      decidable_of_iff (cond s e ∧ Along step cond t es) (by simp [Along, taken])

variable {step : σ → ε → Option σ}

theorem exec_cons_some {s u : σ} {e : ε} {es : List ε} :
    exec step s (e :: es) = some u ↔ ∃ t, step s e = some t ∧ exec step t es = some u := by
  simp only [exec, Option.bind_eq_some_iff]

theorem exec_append {s t u : σ} {es fs : List ε} (first : exec step s es = some t)
    (rest : exec step t fs = some u) : exec step s (es ++ fs) = some u := by
  induction es generalizing s with
  | nil =>
    cases first
    exact rest
  | cons e es ih =>
    obtain ⟨next, taken, first⟩ := exec_cons_some.mp first
    exact exec_cons_some.mpr ⟨next, taken, ih first⟩

/-- An invariant that every event meeting `cond` keeps holds at the end of every run
all of whose events meet `cond`. -/
theorem exec_invariant (cond : σ → ε → Prop) (inv : σ → Prop)
    (kept : ∀ s e t, inv s → cond s e → step s e = some t → inv t)
    {s u : σ} {es : List ε} (start : inv s) (meets : Along step cond s es)
    (ran : exec step s es = some u) : inv u := by
  induction es generalizing s with
  | nil =>
    cases ran
    exact start
  | cons e es ih =>
    obtain ⟨t, taken, rest⟩ := exec_cons_some.mp ran
    exact ih (kept s e t start meets.1 taken) (meets.2 t taken) rest

/-- A condition on the events alone. -/
theorem along_of_forall {allowed : ε → Prop} {s : σ} {es : List ε} (all : ∀ e ∈ es, allowed e) :
    Along step (fun _ e => allowed e) s es := by
  induction es generalizing s with
  | nil => trivial
  | cons e es ih =>
    refine ⟨all e List.mem_cons_self, ?_⟩
    intro t _
    exact ih fun e member => all e (List.mem_cons_of_mem _ member)

/-- Every event of a run that comes to an end has a result. -/
theorem along_defined {s u : σ} {es : List ε} (ran : exec step s es = some u) :
    Along step (fun s e => (step s e).isSome) s es := by
  induction es generalizing s with
  | nil => trivial
  | cons e es ih =>
    obtain ⟨t, taken, rest⟩ := exec_cons_some.mp ran
    refine ⟨by simp [taken], ?_⟩
    intro t' taken'
    cases Option.some.inj (taken.symm.trans taken')
    exact ih rest

/-- An invariant that every event keeps holds at the end of every run. -/
theorem exec_invariant_all (inv : σ → Prop) (kept : ∀ s e t, inv s → step s e = some t → inv t)
    {s u : σ} {es : List ε} (start : inv s) (ran : exec step s es = some u) : inv u :=
  exec_invariant (fun _ _ => True) inv (fun s e t holds _ taken => kept s e t holds taken) start
    (along_of_forall fun _ _ => trivial) ran

theorem sum_map_set {β : Type} {ys : List β} (f : β → Nat) {i : Nat} {y : β} (at_ : ys[i]? = some y) (y' : β) :
    ((ys.set i y').map f).sum + f y = (ys.map f).sum + f y' := by
  induction ys generalizing i with
  | nil => simp at at_
  | cons z ys ih =>
    cases i with
    | zero =>
      cases at_
      simp only [List.set_cons_zero, List.map_cons, List.sum_cons]
      omega
    | succ i =>
      have tail := ih (i := i) (by simpa using at_)
      simp only [List.set_cons_succ, List.map_cons, List.sum_cons]
      omega

/-- Events that each use up some of the work make no longer runs than there is work. -/
theorem exec_bounded {allowed : ε → Prop} (work : σ → Nat)
    (falls : ∀ s e t, allowed e → step s e = some t → work t < work s)
    {s u : σ} {es : List ε} (all : ∀ e ∈ es, allowed e) (ran : exec step s es = some u) :
    es.length + work u ≤ work s := by
  induction es generalizing s with
  | nil =>
    cases ran
    simp
  | cons e es ih =>
    obtain ⟨t, taken, rest⟩ := exec_cons_some.mp ran
    have less := falls s e t (all e List.mem_cons_self) taken
    have later := ih (fun e member => all e (List.mem_cons_of_mem _ member)) rest
    rw [List.length_cons]
    omega

/-- Where, until it is done, some event meeting `cond` can always be taken and uses up some of the work, it gets done. -/
theorem exec_settles {allowed : ε → Prop} (cond : σ → ε → Prop) (inv done : σ → Prop) (work : σ → Nat)
    (goes : ∀ s, inv s → ¬done s → ∃ e t, allowed e ∧ cond s e ∧ step s e = some t ∧ inv t ∧ work t < work s)
    {s : σ} (start : inv s) :
    ∃ es u, (∀ e ∈ es, allowed e) ∧ Along step cond s es ∧ exec step s es = some u ∧ done u := by
  -- induction on the work that is left
  induction left : work s using Nat.strongRecOn generalizing s with
  | ind n ih =>
    by_cases finished : done s
    · exact ⟨[], s, by simp, trivial, rfl, finished⟩
    · obtain ⟨e, t, isAllowed, meets, taken, kept, less⟩ := goes s start finished
      obtain ⟨es, u, all, along, ran, ends⟩ := ih (work t) (left ▸ less) kept rfl
      refine ⟨e :: es, u, List.forall_mem_cons.mpr ⟨isAllowed, all⟩, ⟨meets, ?_⟩,
        exec_cons_some.mpr ⟨t, taken, ran⟩, ends⟩
      intro t' taken'
      cases Option.some.inj (taken.symm.trans taken')
      exact along

/-- The same for a run whose events all keep to `spec`. -/
theorem upholds_invariant (legal : σ → ε → Prop) (spec : σ → ε → σ → Prop) (inv : σ → Prop)
    (kept : ∀ s e t, inv s → legal s e → step s e = some t → spec s e t → inv t)
    {s u : σ} {es : List ε} (start : inv s) (allowed : Along step legal s es)
    (upholds : Upholds step spec s es) (ran : exec step s es = some u) : inv u := by
  induction es generalizing s with
  | nil =>
    cases ran
    exact start
  | cons e es ih =>
    -- the result of the event is the one that `spec` speaks of
    obtain ⟨t, taken, meets, rest⟩ := upholds
    obtain ⟨t', taken', ranRest⟩ := exec_cons_some.mp ran
    cases Option.some.inj (taken.symm.trans taken')
    exact ih (kept s e t start allowed.1 taken meets) (allowed.2 t taken) rest ranRest

/-- Where, under an invariant, `cond` is exactly what one event needs in order to
have a result within `spec`, it is exactly what a whole run needs. -/
theorem upholds_iff_along (legal cond : σ → ε → Prop) (spec : σ → ε → σ → Prop) (inv : σ → Prop)
    (exact_step : ∀ s e, inv s → legal s e →
      (cond s e ↔ ∃ t, step s e = some t ∧ spec s e t))
    (kept : ∀ s e t, inv s → legal s e → step s e = some t → spec s e t → inv t)
    {s : σ} {es : List ε} (start : inv s) (allowed : Along step legal s es) :
    Upholds step spec s es ↔ Along step cond s es := by
  induction es generalizing s with
  | nil => simp only [Upholds, Along]
  | cons e es ih =>
    constructor
    -- from the left: the event had a result within `spec`, so the condition held
    · rintro ⟨t, taken, meets, rest⟩
      refine ⟨(exact_step s e start allowed.1).mpr ⟨t, taken, meets⟩, ?_⟩
      intro t' taken'
      have same : t = t' := Option.some.inj (taken.symm.trans taken')
      subst t'
      exact (ih (kept s e t start allowed.1 taken meets) (allowed.2 t taken)).mp rest
    -- from the right: the condition gives the result, and the invariant the rest
    · rintro ⟨holds, rest⟩
      obtain ⟨t, taken, meets⟩ := (exact_step s e start allowed.1).mp holds
      exact ⟨t, taken, meets,
        (ih (kept s e t start allowed.1 taken meets) (allowed.2 t taken)).mpr (rest t taken)⟩

/-! ### Refinement of an abstract machine -/

variable {τ : Type}

/-- After every prefix of the run there is a state, and it represents the state of the
abstract machine after the same events. -/
def Refines (step : σ → ε → Option σ) (astep : τ → ε → τ) (rep : σ → τ → Prop)
    (s : σ) (x : τ) (es : List ε) : Prop :=
  ∀ pre, pre <+: es → ∃ t, exec step s pre = some t ∧ rep t (pre.foldl astep x)

/-- Every event of the run meets `cond` in the abstract state in which it is taken. -/
abbrev AlongAbstract (astep : τ → ε → τ) (cond : τ → ε → Prop) (x : τ) (es : List ε) : Prop :=
  Along (fun x e => some (astep x e)) cond x es

variable {astep : τ → ε → τ} {rep : σ → τ → Prop}

theorem refines_cons {s : σ} {x : τ} {e : ε} {es : List ε} (related : rep s x) :
    Refines step astep rep s x (e :: es) ↔
      ∃ t, step s e = some t ∧ rep t (astep x e) ∧ Refines step astep rep t (astep x e) es := by
  constructor
  · intro refines
    -- the first event alone is a prefix, and so is it with each prefix of the rest
    obtain ⟨t, ran, relatedNext⟩ := refines [e] ⟨es, rfl⟩
    obtain ⟨t', taken, same⟩ := exec_cons_some.mp ran
    cases same
    refine ⟨t, taken, relatedNext, ?_⟩
    intro pre isPrefix
    obtain ⟨u, ranAll, relatedLast⟩ := refines (e :: pre) ((List.cons_prefix_cons).mpr ⟨rfl, isPrefix⟩)
    obtain ⟨t', taken', rest⟩ := exec_cons_some.mp ranAll
    cases Option.some.inj (taken.symm.trans taken')
    exact ⟨u, rest, relatedLast⟩
  -- the empty prefix is the related start
  · rintro ⟨t, taken, _, rest⟩ pre isPrefix
    cases pre with
    | nil => exact ⟨s, rfl, related⟩
    | cons e' pre =>
      obtain ⟨rfl, isPrefix'⟩ := List.cons_prefix_cons.mp isPrefix
      obtain ⟨u, ran, relatedLast⟩ := rest pre isPrefix'
      exact ⟨u, exec_cons_some.mpr ⟨t, taken, ran⟩, relatedLast⟩

/-- Where `cond` is exactly what one event needs in order to follow the abstract machine,
it is exactly what a whole run needs. -/
theorem refines_iff_along (legal cond : τ → ε → Prop)
    (exact_step : ∀ s x e, rep s x → legal x e →
      (cond x e ↔ ∃ t, step s e = some t ∧ rep t (astep x e)))
    {s : σ} {x : τ} {es : List ε} (related : rep s x) (allowed : AlongAbstract astep legal x es) :
    Refines step astep rep s x es ↔ AlongAbstract astep cond x es := by
  induction es generalizing s x with
  | nil =>
    simp only [Refines, List.prefix_nil, forall_eq, exec, List.foldl_nil, Option.some.injEq,
      exists_eq_left', related, Along]
  | cons e es ih =>
    rw [refines_cons related]
    constructor
    -- an event that follows the abstract machine meets the condition, and the rest follows from there
    · rintro ⟨t, taken, relatedNext, rest⟩
      refine ⟨(exact_step s x e related allowed.1).mpr ⟨t, taken, relatedNext⟩, ?_⟩
      rintro _ ⟨⟩
      exact (ih relatedNext (allowed.2 _ rfl)).mp rest
    · rintro ⟨holds, rest⟩
      obtain ⟨t, taken, relatedNext⟩ := (exact_step s x e related allowed.1).mp holds
      exact ⟨t, taken, relatedNext, (ih relatedNext (allowed.2 _ rfl)).mpr (rest _ rfl)⟩

theorem along_take {cond : σ → ε → Prop} {s : σ} {pre es : List ε} (isPrefix : pre <+: es)
    (along : Along step cond s es) : Along step cond s pre := by
  induction pre generalizing s es with
  | nil => trivial
  | cons e pre ih =>
    obtain ⟨rest, rfl⟩ := isPrefix
    exact ⟨along.1, fun t taken => ih ⟨rest, rfl⟩ (along.2 t taken)⟩

theorem foldl_invariant (legal : τ → ε → Prop) (inv : τ → Prop)
    (kept : ∀ x e, inv x → legal x e → inv (astep x e)) {x : τ} {es : List ε} (start : inv x)
    (allowed : AlongAbstract astep legal x es) : inv (es.foldl astep x) := by
  induction es generalizing x with
  | nil => exact start
  | cons e es ih => exact ih (kept x e start allowed.1) (allowed.2 _ rfl)

/-- Refinement by simulation: every legal event leads from a represented state to a
represented one. -/
theorem refines_of_simulation (legal : τ → ε → Prop)
    (simulates : ∀ s x e, rep s x → legal x e → ∃ t, step s e = some t ∧ rep t (astep x e))
    {s : σ} {x : τ} {es : List ε} (related : rep s x) (allowed : AlongAbstract astep legal x es) :
    Refines step astep rep s x es :=
  (refines_iff_along legal legal
    (fun s x e related allowed => iff_of_true allowed (simulates s x e related allowed))
    related allowed).mpr allowed

end Pire2Pire.Library
