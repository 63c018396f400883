import Mathlib.Algebra.Order.BigOperators.Group.List
import Mathlib.Algebra.Order.Ring.Nat
import Mathlib.Data.Fintype.EquivFin
import Mathlib.Data.Fintype.Lattice
import Mathlib.Data.List.Forall2
import Mathlib.Data.Nat.ModEq
import Pire2Pire.Library.Runs

/-! Threads that take and release binary semaphores in an order.

A program is a list of acts. Threads that run programs are started at any time and go on in any
order. Where every program takes its locks in ascending order, no circle of waiting threads can
come about: what a thread waits for in vain is a lock that some program never gives back. -/
namespace Pire2Pire.Library.LockOrder

inductive Act (L : Type) where
  | take (l : L)
  | give (l : L)
  | other
  deriving DecidableEq, Repr

/-- A thread, and how many acts of its program it has done. -/
structure Thread (P : Type) where
  program : P
  position : Nat
  deriving DecidableEq, Repr

/-- The values of the semaphores, and the threads. -/
structure State (L P : Type) where
  value : L → Nat
  threads : List (Thread P)

inductive Event (P : Type) where
  | start (p : P)
  | advance (i : Nat)
  deriving DecidableEq, Repr

/-- What is left after this is given back, and what is never given back. -/
structure Account (L : Type) where
  owed : List L
  kept : List L

/-- A list of acts leads from the locks `owed` to the locks `after`, the last one taken first, and
never gives back those in `kept`. A lock is only taken while all that are owed have a lower rank. -/
inductive Ascends {L : Type} (rank : L → Nat) : List L → List (Act L) → List L → List L → Prop
  | nil {owed : List L} : Ascends rank owed [] owed []
  | take {owed after kept : List L} {l : L} {rest : List (Act L)} (above : ∀ k ∈ owed, rank k < rank l)
      (tail : Ascends rank (l :: owed) rest after kept) : Ascends rank owed (.take l :: rest) after kept
  | keep {owed after kept : List L} {l : L} {rest : List (Act L)} (above : ∀ k ∈ owed, rank k < rank l)
      (tail : Ascends rank owed rest after kept) : Ascends rank owed (.take l :: rest) after (l :: kept)
  | give {owed after kept : List L} {l : L} {rest : List (Act L)} (tail : Ascends rank owed rest after kept) :
      Ascends rank (l :: owed) (.give l :: rest) after kept
  | other {owed after kept : List L} {rest : List (Act L)} (tail : Ascends rank owed rest after kept) :
      Ascends rank owed (.other :: rest) after kept

section Blocks

variable {L : Type} {rank : L → Nat} {owed middle after kept kept' : List L} {xs ys : List (Act L)}

theorem Ascends.append (first : Ascends rank owed xs middle kept) (second : Ascends rank middle ys after kept') :
    Ascends rank owed (xs ++ ys) after (kept ++ kept') := by
  induction first with
  | nil => exact second
  | take above _ ih => exact .take above (ih second)
  | keep above _ ih => exact .keep above (ih second)
  | give _ ih => exact .give (ih second)
  | other _ ih => exact .other (ih second)

/-- A block that is repeated, each time with what it keeps. -/
theorem Ascends.flatMap {α : Type} {f : α → List (Act L)} {keeps : α → List L}
    (each : ∀ x, Ascends rank owed (f x) owed (keeps x)) (items : List α) :
    Ascends rank owed (items.flatMap f) owed (items.flatMap keeps) := by
  induction items with
  | nil => exact .nil
  | cons x items ih => exact (each x).append ih

theorem Ascends.others (n : Nat) : Ascends rank owed (List.replicate n .other) owed [] := by
  induction n with
  | zero => exact .nil
  | succ n ih => exact .other ih

/-- A lock that is taken around a block that owes it. -/
theorem Ascends.around {l : L} (above : ∀ k ∈ owed, rank k < rank l)
    (inner : Ascends rank (l :: owed) xs (l :: owed) kept) :
    Ascends rank owed (.take l :: (xs ++ [.give l])) owed kept := by
  have released : Ascends rank (l :: owed) (xs ++ [.give l]) owed (kept ++ []) :=
    inner.append (.give .nil)
  rw [List.append_nil] at released
  exact .take above released

end Blocks

section Lists

variable {α β : Type} {R : α → β → Prop} {xs : List α} {ys : List β}

theorem forall₂_at (related : List.Forall₂ R xs ys) {i : Nat} {x : α} (at_ : xs[i]? = some x) :
    ∃ y, ys[i]? = some y ∧ R x y ∧
      ∀ x' y', R x' y' → List.Forall₂ R (xs.set i x') (ys.set i y') := by
  induction related generalizing i with
  | nil => simp at at_
  | cons head tail ih =>
    cases i with
    | zero =>
      cases at_
      exact ⟨_, rfl, head, fun _ _ new => .cons new tail⟩
    | succ i =>
      obtain ⟨y, found, related, replaced⟩ := ih (by simpa using at_)
      exact ⟨y, by simpa using found, related, fun x' y' new => .cons head (replaced x' y' new)⟩

theorem forall₂_mem (related : List.Forall₂ R xs ys) {y : β} (member : y ∈ ys) : ∃ x ∈ xs, R x y := by
  induction related with
  | nil => simp at member
  | cons head tail ih =>
    rcases List.mem_cons.mp member with rfl | later
    · exact ⟨_, List.mem_cons_self, head⟩
    · obtain ⟨x, inside, related⟩ := ih later
      exact ⟨x, List.mem_cons_of_mem _ inside, related⟩

end Lists

variable {L P : Type} [DecidableEq L] (acts : P → List (Act L))

/-- A semaphore with the value 0 lets nobody pass. -/
def perform (value : L → Nat) : Act L → Option (L → Nat)
  | .take l => if value l = 0 then none else some (Function.update value l (value l - 1))
  | .give l => some (Function.update value l (value l + 1))
  | .other => some value

def step (s : State L P) : Event P → Option (State L P)
  | .start p => some { s with threads := s.threads ++ [⟨p, 0⟩] }
  | .advance i => do
    let t ← s.threads[i]?
    let act ← (acts t.program)[t.position]?
    let value ← perform s.value act
    some ⟨value, s.threads.set i ⟨t.program, t.position + 1⟩⟩

/-- All semaphores are free and no thread runs. -/
def idle : State L P := ⟨fun _ => 1, []⟩

def Thread.next (t : Thread P) : Option (Act L) := (acts t.program)[t.position]?

def Thread.past (t : Thread P) : List (Act L) := (acts t.program).take t.position

def Thread.rest (t : Thread P) : List (Act L) := (acts t.program).drop t.position

/-- No thread can go on. -/
def Stuck (s : State L P) : Prop := ∀ i, step acts s (.advance i) = none

/-- All programs have come to their ends. -/
def Finished (s : State L P) : Prop := ∀ t ∈ s.threads, t.rest acts = []

section Locks

variable {acts} {s s' : State L P} {t : Thread P} {l : L}

omit [DecidableEq L] in
theorem Thread.rest_eq_cons {act : Act L} (next : t.next acts = some act) :
    t.rest acts = act :: (acts t.program).drop (t.position + 1) := by
  obtain ⟨inside, at_⟩ := List.getElem?_eq_some_iff.mp next
  rw [Thread.rest, List.drop_eq_getElem_cons inside, at_]

omit [DecidableEq L] in
theorem Thread.next_of_rest {act : Act L} {rest : List (Act L)} (ahead : t.rest acts = act :: rest) :
    t.next acts = some act := by
  have first : (t.rest acts)[0]? = some act := by rw [ahead]; rfl
  simpa [Thread.rest, Thread.next] using first

omit [DecidableEq L] in
theorem Thread.past_succ {act : Act L} (next : t.next acts = some act) :
    (⟨t.program, t.position + 1⟩ : Thread P).past acts = t.past acts ++ [act] := by
  rw [Thread.next] at next
  simp [Thread.past, List.take_add_one, next]

theorem step_advance {i : Nat} : step acts s (.advance i) = some s' ↔
    ∃ t act value, s.threads[i]? = some t ∧ t.next acts = some act ∧ perform s.value act = some value ∧
      s' = ⟨value, s.threads.set i ⟨t.program, t.position + 1⟩⟩ := by
  simp only [step, Thread.next, Option.bind_eq_bind, Option.bind_eq_some_iff, Option.some.injEq]
  constructor
  · rintro ⟨t, at_, act, next, value, done, rfl⟩
    exact ⟨t, act, value, at_, next, done, rfl⟩
  · rintro ⟨t, act, value, at_, next, done, rfl⟩
    exact ⟨t, at_, act, next, value, done, rfl⟩

/-- In a state where no thread can go on, every thread is at its end or waits for a lock that is taken. -/
theorem Stuck.waits (stuck : Stuck acts s) (running : t ∈ s.threads) :
    t.rest acts = [] ∨ ∃ l rest, t.rest acts = .take l :: rest ∧ s.value l = 0 := by
  obtain ⟨i, inside, at_⟩ := List.mem_iff_getElem.mp running
  have here : s.threads[i]? = some t := by rw [List.getElem?_eq_getElem inside, at_]
  have blocked := stuck i
  cases ahead : t.rest acts with
  | nil => exact .inl rfl
  | cons act rest =>
    have next : (acts t.program)[t.position]? = some act := Thread.next_of_rest ahead
    simp only [step, here, next, Option.bind_eq_bind, Option.bind_some, Option.bind_eq_none_iff] at blocked
    cases act with
    | take l =>
      refine .inr ⟨l, rest, rfl, ?_⟩
      by_contra free
      exact absurd (blocked _ (if_neg free)) (by simp)
    | give l => exact absurd (blocked _ rfl) (by simp)
    | other => exact absurd (blocked _ rfl) (by simp)

/-! ### Who holds what -/

variable (acts) (rank : L → Nat) (wasted : P → List L)

/-- Every program takes its locks in ascending order, and keeps those of `wasted`. -/
def Ordered : Prop := ∀ p, Ascends rank [] (acts p) [] (wasted p)

/-- What a thread owes, and what it has taken for good. -/
structure Holds (t : Thread P) (a : Account L) : Prop where
  ahead : ∃ later, Ascends rank a.owed (t.rest acts) [] later ∧ wasted t.program = a.kept ++ later
  balance : ∀ l, (t.past acts).count (.take l) =
    (t.past acts).count (.give l) + (a.owed.count l + a.kept.count l)

/-- The rank of the lock a thread waits for, counted from 1. -/
def Thread.wants (t : Thread P) : Nat :=
  match t.rest acts with
  | .take l :: _ => rank l + 1
  | _ => 0

/-- How often a lock is held. -/
def holders (l : L) (accounts : List (Account L)) : Nat :=
  (accounts.map fun a => a.owed.count l + a.kept.count l).sum

/-- Every semaphore is free or held by exactly one thread, once. -/
structure Accounted (s : State L P) (accounts : List (Account L)) : Prop where
  each : List.Forall₂ (Holds acts rank wasted) s.threads accounts
  one : ∀ l, s.value l + holders l accounts = 1

variable {acts rank wasted} {accounts : List (Account L)}

theorem accounted_idle : Accounted acts rank wasted idle [] :=
  ⟨.nil, fun _ => rfl⟩

/-- What a thread holds after its next act, and what that does to the semaphores. -/
theorem Holds.act {a : Account L} {act : Act L} {value value' : L → Nat}
    (holds : Holds acts rank wasted t a) (next : t.next acts = some act)
    (performed : perform value act = some value') :
    ∃ a', Holds acts rank wasted ⟨t.program, t.position + 1⟩ a' ∧ a.kept ⊆ a'.kept ∧
      ∀ l, value' l + (a'.owed.count l + a'.kept.count l) = value l + (a.owed.count l + a.kept.count l) := by
  obtain ⟨⟨later, ascends, whole⟩, balance⟩ := holds
  have past := Thread.past_succ next
  rw [Thread.rest_eq_cons next] at ascends
  obtain ⟨owed, kept⟩ := a
  cases ascends with
  | @take _ _ _ l _ above tail =>
    simp only [perform] at performed
    split at performed
    · cases performed
    next free =>
      cases performed
      refine ⟨⟨l :: owed, kept⟩, ⟨⟨later, tail, whole⟩, ?_⟩, fun _ member => member, ?_⟩ <;> intro k
      · have old := balance k
        by_cases same : l = k <;> simp [past, same] at old ⊢ <;> omega
      · by_cases same : l = k
        · subst same
          simp only [Function.update_self, List.count_cons_self]
          omega
        · rw [Function.update_of_ne (Ne.symm same), List.count_cons_of_ne same]
  | @keep _ _ later' l _ above tail =>
    simp only [perform] at performed
    split at performed
    · cases performed
    next free =>
      cases performed
      refine ⟨⟨owed, kept ++ [l]⟩, ⟨⟨later', tail, by simpa using whole⟩, ?_⟩,
        List.subset_append_left _ _, ?_⟩ <;> intro k
      · have old := balance k
        by_cases same : l = k <;> simp [past, same] at old ⊢ <;> omega
      · by_cases same : l = k
        · subst same
          simp only [Function.update_self, List.count_append, List.count_singleton_self]
          omega
        · rw [Function.update_of_ne (Ne.symm same), List.count_append, List.count_singleton]
          simp [same]
  | @give owed' _ _ l _ tail =>
    cases performed
    refine ⟨⟨owed', kept⟩, ⟨⟨later, tail, whole⟩, ?_⟩, fun _ member => member, ?_⟩ <;> intro k
    · have old := balance k
      by_cases same : l = k <;> simp [past, same] at old ⊢ <;> omega
    · by_cases same : l = k
      · subst same
        simp only [Function.update_self, List.count_cons_self]
        omega
      · rw [Function.update_of_ne (Ne.symm same), List.count_cons_of_ne same]
  | other tail =>
    cases performed
    refine ⟨⟨owed, kept⟩, ⟨⟨later, tail, whole⟩, fun k => ?_⟩, fun _ member => member, fun _ => rfl⟩
    have old := balance k
    simpa [past, List.count_singleton] using old

/-- What a thread has taken for good is among what it has taken. -/
theorem Holds.took {a : Account L} (holds : Holds acts rank wasted t a) (kept : l ∈ a.kept) :
    Act.take l ∈ t.past acts := by
  have once : 0 < a.kept.count l := List.count_pos_iff.mpr kept
  have balance := holds.balance l
  exact List.count_pos_iff.mp (by omega)

/-- A step keeps the accounts, and what was taken for good stays taken. -/
theorem Accounted.after_step (ordered : Ordered acts rank wasted) (accounted : Accounted acts rank wasted s accounts)
    {e : Event P} (taken : step acts s e = some s') :
    ∃ accounts', Accounted acts rank wasted s' accounts' ∧
      ∀ a ∈ accounts, ∃ a' ∈ accounts', a.kept ⊆ a'.kept := by
  cases e with
  | start p =>
    cases taken
    refine ⟨accounts ++ [⟨[], []⟩], ⟨?_, ?_⟩, ?_⟩
    · refine List.rel_append accounted.each (.cons ⟨⟨wasted p, ?_, rfl⟩, by simp [Thread.past]⟩ .nil)
      exact ordered p
    · intro l
      simpa [holders] using accounted.one l
    · exact fun a member => ⟨a, List.mem_append_left _ member, fun _ inside => inside⟩
  | advance i =>
    obtain ⟨t, act, value, at_, next, performed, rfl⟩ := step_advance.mp taken
    obtain ⟨a, found, holds, replaced⟩ := forall₂_at accounted.each at_
    obtain ⟨a', holds', grows, balance⟩ := holds.act next performed
    refine ⟨accounts.set i a', ⟨replaced _ _ holds', ?_⟩, ?_⟩
    · intro l
      have total := accounted.one l
      have change := sum_map_set (fun a : Account L => a.owed.count l + a.kept.count l) found a'
      have here := balance l
      simp only [holders] at total ⊢
      omega
    · intro b member
      obtain ⟨j, inside, here⟩ := List.mem_iff_getElem.mp member
      obtain ⟨short, there⟩ := List.getElem?_eq_some_iff.mp found
      by_cases same : j = i
      · subst same
        refine ⟨a', List.mem_set inside a', ?_⟩
        rw [← here, there]
        exact grows
      · refine ⟨b, ?_, fun _ inside => inside⟩
        refine List.mem_iff_getElem.mpr ⟨j, by simpa using inside, ?_⟩
        rw [List.getElem_set_ne (Ne.symm same), here]

theorem Accounted.after_run (ordered : Ordered acts rank wasted) (accounted : Accounted acts rank wasted s accounts)
    {es : List (Event P)} (ran : exec (step acts) s es = some s') :
    ∃ accounts', Accounted acts rank wasted s' accounts' ∧
      ∀ a ∈ accounts, ∃ a' ∈ accounts', a.kept ⊆ a'.kept := by
  induction es generalizing s accounts with
  | nil =>
    cases ran
    exact ⟨accounts, accounted, fun a member => ⟨a, member, fun _ inside => inside⟩⟩
  | cons e es ih =>
    obtain ⟨next, taken, rest⟩ := exec_cons_some.mp ran
    obtain ⟨accounts₁, accounted₁, grows₁⟩ := accounted.after_step ordered taken
    obtain ⟨accounts₂, accounted₂, grows₂⟩ := ih accounted₁ rest
    refine ⟨accounts₂, accounted₂, ?_⟩
    intro a member
    obtain ⟨a₁, member₁, sub₁⟩ := grows₁ a member
    obtain ⟨a₂, member₂, sub₂⟩ := grows₂ a₁ member₁
    exact ⟨a₂, member₂, fun _ inside => sub₂ (sub₁ inside)⟩

/-- A lock that a thread has taken for good has the value 0. -/
theorem Accounted.value_of_kept (accounted : Accounted acts rank wasted s accounts) {a : Account L}
    (member : a ∈ accounts) (kept : l ∈ a.kept) : s.value l = 0 := by
  have once : 0 < a.kept.count l := List.count_pos_iff.mpr kept
  have within : a.owed.count l + a.kept.count l ≤ holders l accounts :=
    List.single_le_sum (fun _ _ => Nat.zero_le _) _ (List.mem_map_of_mem member)
  have total := accounted.one l
  omega

theorem Accounted.holder (accounted : Accounted acts rank wasted s accounts) (taken : s.value l = 0) :
    ∃ t ∈ s.threads, ∃ a ∈ accounts, Holds acts rank wasted t a ∧ (l ∈ a.owed ∨ l ∈ a.kept) := by
  have total := accounted.one l
  have some_ : ∃ a ∈ accounts, 0 < a.owed.count l + a.kept.count l := by
    by_contra none_
    push Not at none_
    have zero : holders l accounts = 0 := by
      rw [holders, List.sum_eq_zero_iff]
      intro n member
      obtain ⟨a, inside, rfl⟩ := List.mem_map.mp member
      exact Nat.le_zero.mp (none_ a inside)
    omega
  obtain ⟨a, inside, positive⟩ := some_
  obtain ⟨t, running, holds⟩ := forall₂_mem accounted.each inside
  refine ⟨t, running, a, inside, holds, ?_⟩
  by_cases owes : 0 < a.owed.count l
  · exact .inl (List.count_pos_iff.mp owes)
  · exact .inr (List.count_pos_iff.mp (by omega))

/-- A thread that owes a lock is not at its end, and waits only for locks of a higher rank. -/
theorem Holds.above {a : Account L} (holds : Holds acts rank wasted t a) (owes : l ∈ a.owed) :
    t.rest acts ≠ [] ∧ ∀ k rest, t.rest acts = .take k :: rest → rank l < rank k := by
  obtain ⟨later, ascends, -⟩ := holds.ahead
  obtain ⟨owed, kept⟩ := a
  constructor
  · intro ended
    rw [ended] at ascends
    cases ascends
    simp at owes
  · intro k rest ahead
    rw [ahead] at ascends
    cases ascends with
    | take above _ => exact above l owes
    | keep above _ => exact above l owes

/-- In a state where no thread can go on and one is not at its end, a thread waits for a lock that
another thread has taken for good. -/
theorem Accounted.stuck (accounted : Accounted acts rank wasted s accounts) (stuck : Stuck acts s)
    (unfinished : ¬ Finished acts s) :
    ∃ waiting ∈ s.threads, ∃ l rest, waiting.rest acts = .take l :: rest ∧
      ∃ t ∈ s.threads, ∃ a ∈ accounts, Holds acts rank wasted t a ∧ l ∈ a.kept := by
  simp only [Finished, not_forall] at unfinished
  obtain ⟨first, running, going⟩ := unfinished
  obtain ⟨i₀, inside₀, at₀⟩ := List.mem_iff_getElem.mp running
  -- the thread that waits for the lock of the highest rank
  have : Nonempty (Fin s.threads.length) := ⟨⟨i₀, inside₀⟩⟩
  obtain ⟨i, highest⟩ :=
    Finite.exists_max fun i : Fin s.threads.length => (s.threads.get i).wants acts rank
  have here : s.threads.get i ∈ s.threads := List.get_mem _ _
  have highest' : ∀ t ∈ s.threads, t.wants acts rank ≤ (s.threads.get i).wants acts rank := by
    intro t member
    obtain ⟨j, rfl⟩ := List.mem_iff_get.mp member
    exact highest j
  rcases stuck.waits here with ended | ⟨l, rest, ahead, zero⟩
  · exfalso
    rcases stuck.waits running with ended' | ⟨k, rest', ahead', -⟩
    · exact going ended'
    · have le := highest' first running
      simp only [Thread.wants, ahead', ended] at le
      omega
  · refine ⟨_, here, l, rest, ahead, ?_⟩
    obtain ⟨t, member, a, inside, holds, owed | kept⟩ := accounted.holder zero
    · exfalso
      obtain ⟨going', above⟩ := holds.above owed
      rcases stuck.waits member with ended | ⟨k, rest', ahead', -⟩
      · exact going' ended
      · have le := highest' t member
        have lt := above k rest' ahead'
        simp only [Thread.wants, ahead', ahead] at le
        omega
    · exact ⟨t, member, a, inside, holds, kept⟩

/-! ### Runs -/

/-- Whatever runs have come to, threads that cannot go on wait for a lock that a program of another
thread does not give back, and that lock is never free again. -/
theorem stuck_on_wasted (ordered : Ordered acts rank wasted) {es : List (Event P)}
    (ran : exec (step acts) idle es = some s) (stuck : Stuck acts s) (unfinished : ¬ Finished acts s) :
    ∃ waiting ∈ s.threads, ∃ l rest, waiting.rest acts = .take l :: rest ∧
      (∃ t ∈ s.threads, Act.take l ∈ t.past acts ∧ l ∈ wasted t.program) ∧
      ∀ more s', exec (step acts) s more = some s' → s'.value l = 0 := by
  obtain ⟨accounts, accounted, -⟩ := accounted_idle.after_run ordered ran
  obtain ⟨waiting, running, l, rest, ahead, t, member, a, inside, holds, kept⟩ :=
    accounted.stuck stuck unfinished
  refine ⟨waiting, running, l, rest, ahead, ⟨t, member, holds.took kept, ?_⟩, ?_⟩
  · obtain ⟨later, -, whole⟩ := holds.ahead
    rw [whole]
    exact List.mem_append_left _ kept
  · intro more s' further
    obtain ⟨accounts', accounted', grows⟩ := accounted.after_run ordered further
    obtain ⟨a', inside', sub⟩ := grows a inside
    exact accounted'.value_of_kept inside' (sub kept)

/-- A lock that a thread at its end has not given back is never free again. -/
theorem kept_for_ever (ordered : Ordered acts rank wasted) {es : List (Event P)}
    (ran : exec (step acts) idle es = some s) (running : t ∈ s.threads) (ended : t.rest acts = [])
    (holding : (t.past acts).count (.give l) < (t.past acts).count (.take l)) {more : List (Event P)}
    (further : exec (step acts) s more = some s') : s'.value l = 0 := by
  obtain ⟨accounts, accounted, -⟩ := accounted_idle.after_run ordered ran
  obtain ⟨i, inside, at_⟩ := List.mem_iff_getElem.mp running
  have here : s.threads[i]? = some t := by rw [List.getElem?_eq_getElem inside, at_]
  obtain ⟨a, found, holds, -⟩ := forall₂_at accounted.each here
  obtain ⟨later, ascends, -⟩ := holds.ahead
  have balance := holds.balance l
  obtain ⟨owed, kept⟩ := a
  rw [ended] at ascends
  cases ascends
  have member : l ∈ kept := by
    rw [← List.count_pos_iff]
    simp only [List.count_nil] at balance
    omega
  obtain ⟨accounts', accounted', grows⟩ := accounted.after_run ordered further
  obtain ⟨a', inside', sub⟩ := grows _ (List.mem_of_getElem? found)
  exact accounted'.value_of_kept inside' (sub member)

/-- A thread that waits for a lock that is never free again stays where it is, and so does everything
it has taken and not given back. -/
theorem waits_for_ever (ordered : Ordered acts rank wasted) {es : List (Event P)}
    (ran : exec (step acts) idle es = some s) {i : Nat} {rest : List (Act L)} (at_ : s.threads[i]? = some t)
    (ahead : t.rest acts = .take l :: rest)
    (dead : ∀ more s', exec (step acts) s more = some s' → s'.value l = 0)
    {more : List (Event P)} (further : exec (step acts) s more = some s') :
    s'.threads[i]? = some t ∧
      ∀ k, (t.past acts).count (.give k) < (t.past acts).count (.take k) → s'.value k = 0 := by
  obtain ⟨accounts, accounted, -⟩ := accounted_idle.after_run ordered ran
  have stays : s'.threads[i]? = some t := by
    clear ran accounted
    induction more generalizing s with
    | nil =>
      cases further
      exact at_
    | cons e more ih =>
      obtain ⟨u, taken, later⟩ := exec_cons_some.mp further
      refine ih ?_ (fun more' u' run => dead (e :: more') u' (exec_cons_some.mpr ⟨u, taken, run⟩)) later
      cases e with
      | start p =>
        cases taken
        have inside := (List.getElem?_eq_some_iff.mp at_).1
        rw [List.getElem?_append_left inside, at_]
      | advance j =>
        obtain ⟨t', act, value, here, next, performed, rfl⟩ := step_advance.mp taken
        by_cases same : j = i
        · subst same
          rw [at_] at here
          cases here
          rw [Thread.next_of_rest ahead] at next
          cases next
          simp [perform, dead [] s rfl] at performed
        · rw [List.getElem?_set_ne same, at_]
  refine ⟨stays, fun k holding => ?_⟩
  obtain ⟨accounts', accounted', -⟩ := accounted.after_run ordered further
  obtain ⟨a, found, holds, -⟩ := forall₂_at accounted'.each stays
  have within : a.owed.count k + a.kept.count k ≤ holders k accounts' :=
    List.single_le_sum (fun _ _ => Nat.zero_le _) _ (List.mem_map_of_mem (List.mem_of_getElem? found))
  have balance := holds.balance k
  have total := accounted'.one k
  omega

/-- At the ends of all programs a semaphore is free unless one of them has kept it. -/
theorem Accounted.finished (accounted : Accounted acts rank wasted s accounts) (finished : Finished acts s)
    (l : L) : s.value l + (s.threads.map fun t => (wasted t.program).count l).sum = 1 := by
  have same : holders l accounts = (s.threads.map fun t => (wasted t.program).count l).sum := by
    have ends : List.Forall₂ (fun (t : Thread P) a => wasted t.program = a.kept ∧ a.owed = [])
        s.threads accounts := by
      refine (List.forall₂_iff_get.mpr ⟨accounted.each.length_eq, ?_⟩)
      intro i inside inside'
      obtain ⟨later, ascends, whole⟩ := (accounted.each.get inside inside').ahead
      rw [finished _ (List.get_mem _ _)] at ascends
      generalize accounts.get ⟨i, inside'⟩ = a at ascends whole
      obtain ⟨owed, kept⟩ := a
      cases ascends
      exact ⟨by simpa using whole, rfl⟩
    clear accounted finished
    generalize s.threads = threads at ends
    induction ends with
    | nil => rfl
    | cons head _ ih =>
      obtain ⟨kept, nothing⟩ := head
      simp only [holders, List.map_cons, List.sum_cons, kept, nothing, List.count_nil, Nat.zero_add] at ih ⊢
      rw [ih]
  rw [← same]
  exact accounted.one l

/-- The acts that are still to be done. -/
def remaining (acts : P → List (Act L)) (s : State L P) : Nat :=
  (s.threads.map fun t => (t.rest acts).length).sum

theorem remaining_advance {i : Nat} (taken : step acts s (.advance i) = some s') :
    remaining acts s' + 1 = remaining acts s := by
  obtain ⟨t, act, value, at_, next, -, rfl⟩ := step_advance.mp taken
  have change := sum_map_set (fun t : Thread P => (t.rest acts).length) at_ ⟨t.program, t.position + 1⟩
  have shorter : (t.rest acts).length = ((⟨t.program, t.position + 1⟩ : Thread P).rest acts).length + 1 := by
    rw [Thread.rest_eq_cons next]
    rfl
  simp only [remaining] at change ⊢
  omega

/-- Threads whose programs keep nothing can always go on to their ends, whatever has run before, and
no run takes more steps than there are acts; at the ends all semaphores are free. -/
theorem completes (ordered : Ordered acts rank wasted) {es : List (Event P)}
    (ran : exec (step acts) idle es = some s) (clean : ∀ t ∈ s.threads, wasted t.program = []) :
    (∀ (is : List Nat) s', exec (step acts) s (is.map .advance) = some s' → is.length ≤ remaining acts s ∧
      (Stuck acts s' → Finished acts s' ∧ ∀ l, s'.value l = 1)) ∧
    ∃ (is : List Nat) (s' : State L P), exec (step acts) s (is.map .advance) = some s' ∧ Finished acts s' := by
  obtain ⟨accounts, accounted, -⟩ := accounted_idle.after_run ordered ran
  clear ran
  have programs : ∀ (u : State L P) e u', (∀ t ∈ u.threads, wasted t.program = []) → (∃ i, e = .advance i) →
      step acts u e = some u' → ∀ t ∈ u'.threads, wasted t.program = [] := by
    rintro u _ u' clean ⟨i, rfl⟩ taken t member
    obtain ⟨t₀, act, value, at_, next, -, rfl⟩ := step_advance.mp taken
    rcases List.mem_or_eq_of_mem_set member with old | rfl
    · exact clean t old
    · exact clean t₀ (List.mem_of_getElem? at_)
  have fewer : ∀ (u : State L P) e u', (∃ i, e = .advance i) → step acts u e = some u' →
      remaining acts u' < remaining acts u := by
    rintro u _ u' ⟨i, rfl⟩ taken
    exact Nat.lt_of_succ_le (remaining_advance taken).le
  have free : ∀ {u : State L P} {accounts}, Accounted acts rank wasted u accounts →
      (∀ t ∈ u.threads, wasted t.program = []) → Stuck acts u → Finished acts u ∧ ∀ l, u.value l = 1 := by
    intro u accounts accounted clean stuck
    have finished : Finished acts u := by
      by_contra unfinished
      obtain ⟨-, -, l, -, -, t, member, a, inside, holds, kept⟩ := accounted.stuck stuck unfinished
      obtain ⟨later, -, whole⟩ := holds.ahead
      rw [clean t member] at whole
      simp [(List.append_eq_nil_iff.mp whole.symm).1] at kept
    refine ⟨finished, fun l => ?_⟩
    have total := accounted.finished finished l
    rw [List.sum_eq_zero_iff.mpr] at total
    · exact total
    · intro n member
      obtain ⟨t, inside, rfl⟩ := List.mem_map.mp member
      simp [clean t inside]
  constructor
  · intro is s' ran
    have advances : ∀ e ∈ is.map (Event.advance (P := P)), ∃ i, e = .advance i := by simp
    have short := exec_bounded (remaining acts) fewer advances ran
    rw [List.length_map] at short
    obtain ⟨accounts', accounted', -⟩ := accounted.after_run ordered ran
    have clean' := exec_invariant (fun _ e => ∃ i, e = Event.advance i)
      (fun s => ∀ t ∈ s.threads, wasted t.program = []) programs clean (along_of_forall advances) ran
    exact ⟨by omega, free accounted' clean'⟩
  · let Clean (s : State L P) : Prop :=
      ∃ accounts, Accounted acts rank wasted s accounts ∧ ∀ t ∈ s.threads, wasted t.program = []
    have goes : ∀ s, Clean s → ¬Finished acts s → ∃ e u, (∃ i, e = Event.advance i) ∧ True ∧
        step acts s e = some u ∧ Clean u ∧ remaining acts u < remaining acts s := by
      rintro s ⟨accounts, accounted, clean⟩ unfinished
      have moving : ¬Stuck acts s := fun stuck => unfinished (free accounted clean stuck).1
      simp only [Stuck, not_forall] at moving
      obtain ⟨i, possible⟩ := moving
      obtain ⟨u, taken⟩ := Option.ne_none_iff_exists'.mp possible
      obtain ⟨accounts', accounted', -⟩ := accounted.after_step ordered taken
      exact ⟨_, u, ⟨i, rfl⟩, trivial, taken, ⟨accounts', accounted', programs _ _ _ clean ⟨i, rfl⟩ taken⟩,
        fewer _ _ _ ⟨i, rfl⟩ taken⟩
    obtain ⟨es, s', advances, -, ran, finished⟩ :=
      exec_settles (fun _ _ => True) Clean (Finished acts) (remaining acts) goes ⟨accounts, accounted, clean⟩
    obtain ⟨is, rfl⟩ : es ∈ Set.range (List.map Event.advance) := by
      rw [Set.range_list_map]
      exact fun e member => (advances e member).imp fun _ same => same.symm
    exact ⟨is, s', ran, finished⟩

end Locks

end Pire2Pire.Library.LockOrder
