import Mathlib.Data.List.Nodup
import Pire2Pire.ThreadPool.Workers

/-! The condition variables of a pool: who is awakened by which broadcast, and that no wake-up is
lost.

`Workers` lets a condition wait end at any time. Here `pool_queue` and `pool_destroy` end the waits
on `jobq_empty`, and the last `worker_cleanup` ends the wait on `no_more_threads`; spurious
wake-ups stay possible, but nothing relies on them. -/
namespace Pire2Pire.ThreadPool.Workers.Wakeups

open Pire2Pire.Library

/-- A worker after a broadcast on `jobq_empty`. -/
def woken (w : Worker) : Worker := if w.pc = .waiting then { w with pc := .waking } else w

/-- `pthread_cond_broadcast (&pool->jobq_empty)`. -/
def broadcastJobqEmpty (s : State) : State := { s with workers := s.workers.map woken }

/-- `pthread_cond_broadcast (&pool->no_more_threads)`. -/
def broadcastNoMoreThreads (s : State) : State :=
  if s.control = .destroyWait then s.goto .destroyWaking else s

/-- The broadcast that belongs to an event taken in state `s`, in the state `t` after it. -/
def broadcasts (s : State) (e : Event) (t : State) : State :=
  match e with
  | .queue => broadcastJobqEmpty t
  | .control => if s.control = .destroyMark then broadcastJobqEmpty t else t
  | .run i =>
    -- `worker_cleanup`
    if s.workers[i]?.map Worker.pc = some .cleanup ∧ t.nbAliveThreads = 0 then broadcastNoMoreThreads t
    else t
  | .wake _ | .die _ | .flush _ | .kill _ | .destroy | .controlWake => t

def step (s : State) (e : Event) : Option State := (Workers.step s e).map (broadcasts s e)

variable {s t u : State} {i : Nat} {w w' : Worker}

/-! ### Every run is one of the workers -/

/-- The workers behind the first ones are awakened one after the other. -/
theorem exec_wakes (s : State) (first rest : List Worker) (workers : s.workers = first ++ rest) :
    ∃ es, exec Workers.step s es = some { s with workers := first ++ rest.map woken } := by
  induction rest generalizing s first with
  | nil => exact ⟨[], by simp [exec, ← workers]⟩
  | cons w rest ih =>
    by_cases waits : w.pc = .waiting
    · have here : s.workers[first.length]? = some w := by simp [workers]
      have taken : Workers.step s (.wake first.length) =
          some (s.setWorker first.length { w with pc := .waking }) := by
        simp [Workers.step, here, State.wake, waits]
      obtain ⟨es, ran⟩ := ih (s.setWorker first.length { w with pc := .waking }) (first ++ [woken w])
        (by simp [State.setWorker, workers, woken, waits])
      exact ⟨.wake first.length :: es, exec_cons_some.mpr ⟨_, taken, by simpa [State.setWorker] using ran⟩⟩
    · obtain ⟨es, ran⟩ := ih s (first ++ [w]) (by simp [workers])
      exact ⟨es, by simpa [woken, waits] using ran⟩

theorem exec_broadcasts (s : State) (e : Event) (t : State) :
    ∃ es, exec Workers.step t es = some (broadcasts s e t) := by
  have all : ∃ es, exec Workers.step t es = some (broadcastJobqEmpty t) :=
    exec_wakes t [] t.workers rfl
  have last : ∃ es, exec Workers.step t es = some (broadcastNoMoreThreads t) := by
    unfold broadcastNoMoreThreads
    split
    next waits => exact ⟨[.controlWake], by simp [exec, Workers.step, waits]⟩
    next => exact ⟨[], rfl⟩
  have none : ∃ es, exec Workers.step t es = some t := ⟨[], rfl⟩
  cases e with
  | queue => exact all
  | control =>
    simp only [broadcasts]
    split
    · exact all
    · exact none
  | run i =>
    simp only [broadcasts]
    split
    · exact last
    · exact none
  | _ => exact none

/-- A broadcast is a number of wake-ups, so that whatever runs here also runs there. -/
theorem exec_workers {es : List Event} (ran : exec step s es = some t) :
    ∃ fs, exec Workers.step s fs = some t := by
  induction es generalizing s with
  | nil => exact ⟨[], ran⟩
  | cons e es ih =>
    obtain ⟨next, taken, rest⟩ := exec_cons_some.mp ran
    obtain ⟨moved, took, rfl⟩ := Option.map_eq_some_iff.mp taken
    obtain ⟨wakes, awakened⟩ := exec_broadcasts s e moved
    obtain ⟨fs, ran⟩ := ih rest
    exact ⟨e :: (wakes ++ fs), exec_cons_some.mpr ⟨moved, took, exec_append awakened ran⟩⟩

theorem workers_inv_step {e : Event} (inv : Inv s) (taken : step s e = some t) : Inv t := by
  have alone : exec step s [e] = some t := exec_cons_some.mpr ⟨t, taken, rfl⟩
  obtain ⟨fs, ran⟩ := exec_workers alone
  exact exec_invariant_all Inv (fun _ _ _ inv taken => step_inv inv taken) inv ran

/-! ### The invariant -/

/-- The positions from which a worker only goes on to its end. -/
def leaving : Pc → Bool
  | .cancelledWait | .jobCancelled | .cleanup | .unlocking | .exited => true
  | .start | .entered | .looping | .waiting | .waking | .dequeued | .inJob | .jobDone => false

/-- `pool_destroy` has set `destroy`. -/
def destroying : ControlPc → Bool
  | .destroyCancel _ | .destroyCheck | .destroyWait | .destroyWaking | .destroyJoin _ | .destroyFree
  | .finished => true
  | .ready | .killLock _ | .killSearch _ | .killCancel _ | .killJoin _ | .killRelock _ | .killCreate _
  | .destroyLock | .destroyMark => false

/-- The controlling thread has cancelled the thread in the slot, and is not yet done with it. -/
def cancels : ControlPc → Nat → Prop
  | .killJoin aim, slot => slot = aim
  | .destroyCancel next, slot => slot < next
  | .destroyCheck, _ | .destroyWait, _ | .destroyWaking, _ | .destroyJoin _, _ => True
  | .ready, _ | .killLock _, _ | .killSearch _, _ | .killCancel _, _ | .killRelock _, _ | .killCreate _, _
  | .destroyLock, _ | .destroyMark, _ | .destroyFree, _ | .finished, _ => False

/-- `pool_kill` has cancelled the thread in the slot, and has not yet replaced it. -/
def kills : ControlPc → Nat → Prop
  | .killJoin aim, slot | .killRelock aim, slot | .killCreate aim, slot => slot = aim
  | .ready, _ | .killLock _, _ | .killSearch _, _ | .killCancel _, _ | .destroyLock, _ | .destroyMark, _
  | .destroyCancel _, _ | .destroyCheck, _ | .destroyWait, _ | .destroyWaking, _ | .destroyJoin _, _
  | .destroyFree, _ | .finished, _ => False

/-- The slot that `pool_kill` has found is one of the pool's. -/
def aims (slots : Nat) : ControlPc → Prop
  | .killCancel slot | .killJoin slot | .killRelock slot | .killCreate slot => slot < slots
  | .ready | .killLock _ | .killSearch _ | .destroyLock | .destroyMark | .destroyCancel _ | .destroyCheck
  | .destroyWait | .destroyWaking | .destroyJoin _ | .destroyFree | .finished => True

/-- Nobody is left waiting for something that has already happened. -/
structure Wakes (s : State) : Prop where
  inv : Inv s
  owned : ∀ i, s.mutex = some (.worker i) → ∃ w, s.workers[i]? = some w ∧ w.pc.locked = true
  ownedByControl : s.mutex = some .control → s.control.locked = true
  /-- nobody waits on `jobq_empty` but for a job -/
  awake : ∀ (i : Nat) w, s.workers[i]? = some w → w.pc = .waiting → s.jobs = 0 ∧ s.destroy = false
  /-- nobody waits on `no_more_threads` but for an alive thread -/
  counted : s.control = .destroyWait → s.nbAliveThreads ≠ 0
  destroying : s.destroy = Wakeups.destroying s.control
  finished : s.control = .finished → s.freed = true
  distinct : s.threads.Nodup
  created : ∀ i ∈ s.threads, i < s.workers.length
  aims : Wakeups.aims s.threads.length s.control
  leaving : ∀ (i : Nat) w, s.workers[i]? = some w → Wakeups.leaving w.pc = true →
    w.cancelled = true ∨ s.destroy = true
  cancelled : ∀ (slot i : Nat) w, s.threads[slot]? = some i → s.workers[i]? = some w →
    cancels s.control slot → w.cancelled = true
  /-- nobody else is cancelled -/
  spared : ∀ (slot i : Nat) w, s.threads[slot]? = some i → s.workers[i]? = some w → w.cancelled = true →
    s.destroy = true ∨ kills s.control slot

/-! ### The work that is left -/

/-- How many steps a worker has before it at most, where each job and each wake-up is paid for. -/
def rank : Pc → Nat
  | .exited => 0
  | .unlocking => 1
  | .cleanup => 4
  | .cancelledWait | .jobCancelled => 5
  | .waiting => 6
  | .looping => 7
  | .entered | .waking | .jobDone => 8
  | .start | .inJob => 9
  | .dequeued => 10

/-- What a step costs at least; `worker_cleanup` pays for the wake-up of the controlling thread. -/
def toll : Pc → Nat
  | .cleanup => 3
  | .start | .entered | .looping | .waiting | .waking | .cancelledWait | .dequeued | .inJob | .jobDone
  | .jobCancelled | .unlocking | .exited => 1

/-- The same for the controlling thread. `pool_kill` pays for the thread it creates, `pool_destroy`
for the wake-up of all. -/
def controlRank (slots threads : Nat) : ControlPc → Nat
  | .ready | .finished => 0
  | .killCreate _ => 10
  | .killRelock _ => 11
  | .killJoin _ => 12
  | .killCancel _ => 13
  | .killSearch _ => 14
  | .killLock _ => 15
  | .destroyFree => 1
  | .destroyJoin slot => slots - slot + 2
  | .destroyWait => slots + 3
  | .destroyCheck => slots + 4
  | .destroyWaking => slots + 5
  | .destroyCancel slot => slots - slot + slots + 5
  | .destroyMark => slots + slots + 2 * threads + 6
  | .destroyLock => slots + slots + 2 * threads + 7

def ranks (workers : List Worker) : Nat := (workers.map fun w => rank w.pc).sum

def work (s : State) : Nat :=
  ranks s.workers + 4 * s.jobs + controlRank s.threads.length s.workers.length s.control

/-! ### The steps of a worker -/

/-- What a step of worker `i` does to the state. -/
structure Moves (s : State) (i : Nat) (w w' : Worker) (t : State) : Prop where
  workers : t.workers = s.workers.set i w'
  threads : t.threads = s.threads
  destroy : t.destroy = s.destroy
  control : t.control = s.control
  freed : t.freed = s.freed
  jobs : t.jobs ≤ s.jobs
  mutex : t.mutex = s.mutex ∧ w'.pc.locked = w.pc.locked ∨ t.mutex = some (.worker i) ∧ w'.pc.locked = true ∨
    t.mutex = none ∨ t.mutex = s.mutex ∧ s.mutex ≠ some (.worker i)
  alive : t.nbAliveThreads = s.nbAliveThreads ∨ t.nbAliveThreads = s.nbAliveThreads + 1 ∨ w.pc = .cleanup
  waits : w'.pc = .waiting → t.jobs = 0 ∧ s.destroy = false
  leaves : leaving w'.pc = true → leaving w.pc = true ∨ w.cancelled = true ∨ s.destroy = true
  cancelled : w'.cancelled = w.cancelled
  spends : w'.pc = .waking ∨ rank w'.pc + toll w.pc + 4 * t.jobs ≤ rank w.pc + 4 * s.jobs

/-- A step that takes the mutex. -/
theorem moves_lock (pc : Pc) (locked : pc.locked = true) (waits : pc ≠ .waiting)
    (leaves : leaving pc = true → leaving w.pc = true) (spends : rank pc + toll w.pc ≤ rank w.pc)
    (taken : (s.lock (.worker i)).map (fun t => t.setWorker i { w with pc := pc }) = some t) :
    Moves s i w { w with pc := pc } t := by
  obtain ⟨u, took, rfl⟩ := Option.map_eq_some_iff.mp taken
  unfold State.lock at took
  split at took
  next =>
    cases took
    exact ⟨rfl, rfl, rfl, rfl, rfl, le_rfl, Or.inr (Or.inl ⟨rfl, locked⟩), Or.inl rfl,
      fun waiting => absurd waiting waits, fun leaving => Or.inl (leaves leaving), rfl,
      Or.inr (Nat.add_le_add_right spends _)⟩
  next => cases took

/-- A step that releases it. -/
theorem moves_unlock (pc : Pc) (waits : pc = .waiting → s.jobs = 0 ∧ s.destroy = false)
    (leaves : leaving pc = true → leaving w.pc = true) (spends : rank pc + toll w.pc ≤ rank w.pc) :
    Moves s i w { w with pc := pc } ((s.unlock (.worker i)).setWorker i { w with pc := pc }) := by
  unfold State.unlock
  split
  next => exact ⟨rfl, rfl, rfl, rfl, rfl, le_rfl, Or.inr (Or.inr (Or.inl rfl)), Or.inl rfl, waits,
    fun leaving => Or.inl (leaves leaving), rfl, Or.inr (Nat.add_le_add_right spends _)⟩
  next others => exact ⟨rfl, rfl, rfl, rfl, rfl, le_rfl, Or.inr (Or.inr (Or.inr ⟨rfl, others⟩)), Or.inl rfl, waits,
    fun leaving => Or.inl (leaves leaving), rfl, Or.inr (Nat.add_le_add_right spends _)⟩

/-- A step that leaves it alone. -/
theorem moves_pass {j : Nat} (pc : Pc) (jobs : j ≤ s.jobs) (locked : pc.locked = w.pc.locked) (waits : pc ≠ .waiting)
    (leaves : leaving pc = true → leaving w.pc = true ∨ w.cancelled = true ∨ s.destroy = true)
    (spends : pc = .waking ∨ rank pc + toll w.pc + 4 * j ≤ rank w.pc + 4 * s.jobs) :
    Moves s i w { w with pc := pc } ({ s with jobs := j }.setWorker i { w with pc := pc }) :=
  ⟨rfl, rfl, rfl, rfl, rfl, jobs, Or.inl ⟨rfl, locked⟩, Or.inl rfl, fun waiting => absurd waiting waits, leaves, rfl,
    spends⟩

theorem loop_moves (pc : w.pc = .looping) : ∃ w', Moves s i w w' (s.loop i w) ∧ w'.pc ≠ .waking := by
  unfold State.loop
  split
  next nothing =>
    exact ⟨_, moves_unlock .waiting (fun _ => nothing) (by simp [leaving]) (by simp [pc, rank, toll]), by simp⟩
  next something =>
    split
    next destroy =>
      exact ⟨_, moves_pass .cleanup le_rfl (by simp [pc, Pc.locked]) (by simp) (fun _ => Or.inr (Or.inr destroy))
        (Or.inr (by simp [pc, rank, toll])), by simp⟩
    next going =>
      -- the job that is taken was counted
      have positive : s.jobs ≠ 0 := fun none => something ⟨none, by simpa using going⟩
      refine ⟨_, moves_pass .dequeued (Nat.sub_le _ _) (by simp [pc, Pc.locked]) (by simp) (by simp [leaving])
        (Or.inr ?_), by simp⟩
      simp only [pc, rank, toll]
      omega

theorem workerCleanup_moves (pc : w.pc = .cleanup) :
    ∃ w', Moves s i w w' (s.workerCleanup i w) ∧ w'.pc ≠ .waking := by
  refine ⟨{ w with pc := .unlocking, cleanups := w.cleanups + 1 }, ?_, by simp⟩
  unfold State.workerCleanup State.expectHeld
  split
  all_goals
    exact ⟨rfl, rfl, rfl, rfl, rfl, le_rfl, Or.inl ⟨rfl, by simp [pc, Pc.locked]⟩, Or.inr (Or.inr pc), by simp,
      fun _ => Or.inl (by simp [pc, leaving]), rfl, Or.inr (by simp [pc, rank, toll, State.setWorker])⟩

theorem run_moves (taken : s.run i w = some t) : ∃ w', Moves s i w w' t ∧ w'.pc ≠ .waking := by
  unfold State.run at taken
  split at taken
  next pc => exact ⟨_, moves_lock .entered rfl (by simp) (by simp [leaving]) (by simp [pc, rank, toll]) taken, by simp⟩
  next pc =>
    cases taken
    exact ⟨{ w with pc := .looping, increments := w.increments + 1 }, ⟨rfl, rfl, rfl, rfl, rfl, le_rfl,
      Or.inl ⟨rfl, by simp [pc, Pc.locked]⟩, Or.inr (Or.inl rfl), by simp, by simp [leaving], rfl,
      Or.inr (by simp [pc, rank, toll, State.setWorker])⟩, by simp⟩
  next pc =>
    cases taken
    exact loop_moves pc
  next pc => exact ⟨_, moves_lock .looping rfl (by simp) (by simp [leaving]) (by simp [pc, rank, toll]) taken, by simp⟩
  next pc => exact ⟨_, moves_lock .looping rfl (by simp) (by simp [leaving]) (by simp [pc, rank, toll]) taken, by simp⟩
  next pc =>
    cases taken
    exact ⟨_, moves_unlock .inJob (by simp) (by simp [leaving]) (by simp [pc, rank, toll]), by simp⟩
  next pc =>
    cases taken
    exact ⟨_, moves_pass .jobDone le_rfl (by simp [pc, Pc.locked]) (by simp) (by simp [leaving])
      (Or.inr (by simp [pc, rank, toll])), by simp⟩
  next pc =>
    exact ⟨_, moves_lock .cleanup rfl (by simp) (fun _ => by simp [pc, leaving]) (by simp [pc, rank, toll]) taken,
      by simp⟩
  next pc =>
    exact ⟨_, moves_lock .cleanup rfl (by simp) (fun _ => by simp [pc, leaving]) (by simp [pc, rank, toll]) taken,
      by simp⟩
  next pc =>
    cases taken
    exact workerCleanup_moves pc
  next pc =>
    cases taken
    exact ⟨_, moves_unlock .exited (by simp) (fun _ => by simp [pc, leaving]) (by simp [pc, rank, toll]), by simp⟩
  next => cases taken
  next => cases taken

theorem wake_moves (taken : s.wake i w = some t) :
    ∃ w', Moves s i w w' t ∧ t.nbAliveThreads = s.nbAliveThreads := by
  unfold State.wake at taken
  split at taken
  next pc =>
    cases taken
    exact ⟨_, moves_pass .waking le_rfl (by simp [pc, Pc.locked]) (by simp) (by simp [leaving]) (Or.inl rfl), rfl⟩
  next => cases taken

theorem die_moves (taken : s.die i w = some t) :
    ∃ w', Moves s i w w' t ∧ w'.pc ≠ .waking ∧ t.nbAliveThreads = s.nbAliveThreads := by
  unfold State.die at taken
  split at taken
  next cancelled =>
    split at taken
    next pc =>
      cases taken
      exact ⟨_, moves_pass .cancelledWait le_rfl (by simp [pc, Pc.locked]) (by simp)
        (fun _ => Or.inr (Or.inl cancelled)) (Or.inr (by simp [pc, rank, toll])), by simp, rfl⟩
    next pc =>
      cases taken
      exact ⟨_, moves_pass .jobCancelled le_rfl (by simp [pc, Pc.locked]) (by simp)
        (fun _ => Or.inr (Or.inl cancelled)) (Or.inr (by simp [pc, rank, toll])), by simp, rfl⟩
    next => cases taken
  next => cases taken

theorem Wakes.moves (wakes : Wakes s) (here : s.workers[i]? = some w) (moves : Moves s i w w' t)
    (alive : t.control = .destroyWait → t.nbAliveThreads ≠ 0) (inv : Inv t) : Wakes t := by
  obtain ⟨-, owned, ownedByControl, awake, -, destroying, finished, distinct, created, aims, leaving, cancelled,
    spared⟩ := wakes
  obtain ⟨bound, -⟩ := List.getElem?_eq_some_iff.mp here
  have moved : t.workers[i]? = some w' := by simp [moves.workers, bound]
  have others : ∀ k, k ≠ i → t.workers[k]? = s.workers[k]? := by
    intro k other
    rw [moves.workers, List.getElem?_set_ne other.symm]
  refine ⟨inv, ?_, ?_, ?_, alive, ?_, ?_, ?_, ?_, ?_, ?_, ?_, ?_⟩
  · intro k mutex
    by_cases same : k = i
    · subst same
      refine ⟨w', moved, ?_⟩
      rcases moves.mutex with ⟨kept, locked⟩ | ⟨-, locked⟩ | free | ⟨kept, other⟩
      · obtain ⟨v, there, mine⟩ := owned k (kept ▸ mutex)
        cases here.symm.trans there
        exact locked.trans mine
      · exact locked
      · cases free.symm.trans mutex
      · exact absurd (kept ▸ mutex) other
    · rw [others k same]
      rcases moves.mutex with ⟨kept, -⟩ | ⟨taken, -⟩ | free | ⟨kept, -⟩
      · exact owned k (kept ▸ mutex)
      · cases taken.symm.trans mutex
        exact absurd rfl same
      · cases free.symm.trans mutex
      · exact owned k (kept ▸ mutex)
  · intro mutex
    rw [moves.control]
    rcases moves.mutex with ⟨kept, -⟩ | ⟨taken, -⟩ | free | ⟨kept, -⟩
    · exact ownedByControl (kept ▸ mutex)
    · cases taken.symm.trans mutex
    · cases free.symm.trans mutex
    · exact ownedByControl (kept ▸ mutex)
  · rw [moves.workers, moves.destroy]
    refine forall_set_worker moves.waits ?_
    intro k v _ there waits
    obtain ⟨nothing, going⟩ := awake k v there waits
    exact ⟨Nat.le_zero.mp (nothing ▸ moves.jobs), going⟩
  · rw [moves.destroy, moves.control, destroying]
  · rw [moves.control, moves.freed]
    exact finished
  · rw [moves.threads]
    exact distinct
  · rw [moves.threads, moves.workers, List.length_set]
    exact created
  · rw [moves.threads, moves.control]
    exact aims
  · rw [moves.workers, moves.destroy]
    refine forall_set_worker ?_ fun k v _ there => leaving k v there
    intro leaves
    rw [moves.cancelled]
    rcases moves.leaves leaves with before | mine | destroy
    · exact leaving i w here before
    · exact Or.inl mine
    · exact Or.inr destroy
  · intro slot k v slotted there cancels
    rw [moves.threads] at slotted
    rw [moves.control] at cancels
    rw [moves.workers] at there
    revert slotted
    refine forall_set_worker (P := fun k v => s.threads[slot]? = some k → v.cancelled = true) ?_ ?_ k v there
    · intro slotted
      rw [moves.cancelled]
      exact cancelled slot i w slotted here cancels
    · intro k v _ there slotted
      exact cancelled slot k v slotted there cancels
  · intro slot k v slotted there
    rw [moves.threads] at slotted
    rw [moves.destroy, moves.control]
    rw [moves.workers] at there
    revert slotted
    refine forall_set_worker (P := fun k v => s.threads[slot]? = some k → v.cancelled = true →
      s.destroy = true ∨ kills s.control slot) ?_ ?_ k v there
    · intro slotted mine
      exact spared slot i w slotted here (moves.cancelled ▸ mine)
    · intro k v _ there slotted
      exact spared slot k v slotted there

/-! ### The steps of the controlling thread -/

/-- The controlling thread may go on to `pc`: what the invariant has from where it is now is what it
needs there. -/
structure Follows (s : State) (pc : ControlPc) : Prop where
  waits : pc = .destroyWait → s.nbAliveThreads ≠ 0
  destroys : destroying pc = destroying s.control
  aims : Wakeups.aims s.threads.length pc
  cancels : ∀ slot < s.threads.length, Wakeups.cancels pc slot → Wakeups.cancels s.control slot
  kills : ∀ slot, Wakeups.kills s.control slot → Wakeups.kills pc slot

/-- The controlling thread moves on. -/
theorem Wakes.goto (wakes : Wakes s) {m : Option Owner} {j : Nat} {freed : Bool} {pc : ControlPc}
    (inv : Inv { s with mutex := m, jobs := j, freed := freed, control := pc })
    (mutex : m = s.mutex ∧ pc.locked = s.control.locked ∨ m = some .control ∧ pc.locked = true ∨ m = none)
    (jobs : j ≤ s.jobs) (finishes : pc = .finished → freed = true) (follows : Follows s pc) :
    Wakes { s with mutex := m, jobs := j, freed := freed, control := pc } := by
  obtain ⟨-, owned, ownedByControl, awake, -, destroying, -, distinct, created, -, leaving, cancelled, spared⟩ := wakes
  refine ⟨inv, ?_, ?_, ?_, follows.waits, ?_, finishes, distinct, created, follows.aims, leaving, ?_, ?_⟩
  · intro i mine
    rcases mutex with ⟨rfl, -⟩ | ⟨rfl, -⟩ | rfl
    · exact owned i mine
    · cases mine
    · cases mine
  · intro mine
    rcases mutex with ⟨rfl, locked⟩ | ⟨-, locked⟩ | rfl
    · exact locked.trans (ownedByControl mine)
    · exact locked
    · cases mine
  · intro i w here waiting
    obtain ⟨nothing, going⟩ := awake i w here waiting
    exact ⟨Nat.le_zero.mp (nothing ▸ jobs), going⟩
  · exact destroying.trans follows.destroys.symm
  · intro slot i w slotted here cancels
    obtain ⟨bound, -⟩ := List.getElem?_eq_some_iff.mp slotted
    exact cancelled slot i w slotted here (follows.cancels slot bound cancels)
  · intro slot i w slotted here mine
    rcases spared slot i w slotted here mine with destroy | kills
    · exact Or.inl destroy
    · exact Or.inr (follows.kills slot kills)

theorem cancel_eq {slot : Nat} (slotted : s.threads[slot]? = some i) (here : s.workers[i]? = some w) :
    s.cancel slot = s.setWorker i { w with cancelled := true } := by
  simp [State.cancel, slotted, here]

/-- The thread of a slot is cancelled. -/
theorem Wakes.cancel (wakes : Wakes s) {slot : Nat} {pc : ControlPc} (small : slot < s.threads.length)
    (inv : Inv ((s.cancel slot).goto pc)) (locked : pc.locked = s.control.locked) (going : pc ≠ .finished)
    (waits : pc ≠ .destroyWait) (destroys : Wakeups.destroying pc = Wakeups.destroying s.control)
    (aims : Wakeups.aims s.threads.length pc)
    (cancelsOne : ∀ k, cancels pc k → k = slot ∨ cancels s.control k)
    (kills : s.destroy = true ∨ Wakeups.kills pc slot ∧ ∀ k, Wakeups.kills s.control k → Wakeups.kills pc k) :
    Wakes ((s.cancel slot).goto pc) := by
  obtain ⟨-, owned, ownedByControl, awake, -, destroying, -, distinct, created, -, leaving, cancelled, spared⟩ := wakes
  obtain ⟨i, slotted⟩ : ∃ i, s.threads[slot]? = some i := ⟨_, List.getElem?_eq_getElem small⟩
  obtain ⟨w, here⟩ : ∃ w, s.workers[i]? = some w :=
    ⟨_, List.getElem?_eq_getElem (created i (List.mem_of_getElem? slotted))⟩
  obtain ⟨bound, -⟩ := List.getElem?_eq_some_iff.mp here
  rw [cancel_eq slotted here] at inv ⊢
  refine ⟨inv, ?_, ?_, ?_, fun at_ => absurd at_ waits, ?_, fun at_ => absurd at_ going, distinct, ?_, aims, ?_, ?_, ?_⟩
  · intro k mine
    obtain ⟨v, there, holds⟩ := owned k mine
    by_cases same : k = i
    · subst same
      cases here.symm.trans there
      exact ⟨{ w with cancelled := true }, by simp [State.goto, State.setWorker, bound], holds⟩
    · exact ⟨v, by simpa [State.goto, State.setWorker, List.getElem?_set_ne (Ne.symm same)] using there, holds⟩
  · intro mine
    exact locked.trans (ownedByControl mine)
  · exact forall_set_worker (awake i w here) fun k v _ there => awake k v there
  · exact destroying.trans destroys.symm
  · intro k member
    simpa [State.goto, State.setWorker] using created k member
  · exact forall_set_worker (fun _ => Or.inl rfl) fun k v _ there => leaving k v there
  · intro k j v slotted' there cancels
    rcases cancelsOne k cancels with rfl | before
    · cases slotted.symm.trans slotted'
      rw [State.goto, State.setWorker, List.getElem?_set_self bound] at there
      cases there
      rfl
    · refine forall_set_worker (P := fun j v => s.threads[k]? = some j → v.cancelled = true) (fun _ => rfl) ?_ j v
        there slotted'
      intro j v _ there slotted'
      exact cancelled k j v slotted' there before
  · intro k j v slotted' there mine
    rcases kills with destroy | ⟨kills, keeps⟩
    · exact Or.inl destroy
    -- the thread is in no other slot
    by_cases same : k = slot
    · exact Or.inr (same ▸ kills)
    · have apart : j ≠ i := by
        rintro rfl
        exact same ((List.getElem?_inj small distinct).mp (slotted.trans slotted'.symm)).symm
      rw [State.goto, State.setWorker, List.getElem?_set_ne apart.symm] at there
      rcases spared k j v slotted' there mine with destroy | before
      · exact Or.inl destroy
      · exact Or.inr (keeps k before)

@[simp] theorem cancelled_woken (w : Worker) : (woken w).cancelled = w.cancelled := by
  unfold woken
  split <;> rfl

theorem waiting_woken (w : Worker) : (woken w).pc ≠ .waiting := by
  unfold woken
  split
  · simp
  · assumption

@[simp] theorem locked_woken (w : Worker) : (woken w).pc.locked = w.pc.locked := by
  unfold woken
  split
  next waits => simp [waits, Pc.locked]
  next => rfl

@[simp] theorem leaving_woken (w : Worker) : leaving (woken w).pc = leaving w.pc := by
  unfold woken
  split
  next waits => simp [waits, leaving]
  next => rfl

/-- A broadcast on `jobq_empty`, by `pool_queue` or where `pool_destroy` sets `destroy`. -/
theorem Wakes.broadcast (wakes : Wakes s) {j : Nat} {destroy : Bool} {pc : ControlPc}
    (inv : Inv { s with jobs := j, destroy := destroy, control := pc, workers := s.workers.map woken })
    (control : pc = s.control ∧ destroy = s.destroy ∨
      s.control = .destroyMark ∧ pc = .destroyCancel 0 ∧ destroy = true) :
    Wakes { s with jobs := j, destroy := destroy, control := pc, workers := s.workers.map woken } := by
  obtain ⟨-, owned, ownedByControl, awake, counted, destroying, finished, distinct, created, aims, leaving, cancelled,
    spared⟩ := wakes
  have old : ∀ (i : Nat) v, (s.workers.map woken)[i]? = some v → ∃ w, s.workers[i]? = some w ∧ woken w = v := by
    intro i v here
    rw [List.getElem?_map] at here
    exact Option.map_eq_some_iff.mp here
  refine ⟨inv, ?_, ?_, ?_, ?_, ?_, ?_, distinct, ?_, ?_, ?_, ?_, ?_⟩
  · intro i mine
    obtain ⟨w, here, locked⟩ := owned i mine
    exact ⟨woken w, by simp [here], by simpa using locked⟩
  · intro mine
    rcases control with ⟨rfl, -⟩ | ⟨-, rfl, -⟩
    · exact ownedByControl mine
    · rfl
  · intro i v here waits
    obtain ⟨w, -, rfl⟩ := old i v here
    exact absurd waits (waiting_woken w)
  · rcases control with ⟨rfl, -⟩ | ⟨-, rfl, -⟩
    · exact counted
    · simp
  · rcases control with ⟨rfl, rfl⟩ | ⟨-, rfl, rfl⟩
    · exact destroying
    · rfl
  · rcases control with ⟨rfl, -⟩ | ⟨-, rfl, -⟩
    · exact finished
    · simp
  · intro i member
    simpa using created i member
  · rcases control with ⟨rfl, -⟩ | ⟨-, rfl, -⟩
    · exact aims
    · trivial
  · intro i v here leaves
    obtain ⟨w, there, rfl⟩ := old i v here
    rcases control with ⟨-, rfl⟩ | ⟨-, -, rfl⟩
    · simpa using leaving i w there (by simpa using leaves)
    · exact Or.inr rfl
  · intro slot i v slotted here cancels
    obtain ⟨w, there, rfl⟩ := old i v here
    rcases control with ⟨rfl, -⟩ | ⟨-, rfl, -⟩
    · simpa using cancelled slot i w slotted there cancels
    · exact absurd cancels (Nat.not_lt_zero _)
  · intro slot i v slotted here mine
    obtain ⟨w, there, rfl⟩ := old i v here
    rcases control with ⟨rfl, rfl⟩ | ⟨-, -, rfl⟩
    · exact spared slot i w slotted there (by simpa using mine)
    · exact Or.inl rfl

/-- `pool_kill` replaces the thread of the slot. -/
theorem Wakes.create (wakes : Wakes s) {slot : Nat} (pc : s.control = .killCreate slot)
    (inv : Inv (((s.create slot).unlock .control).goto .ready)) :
    Wakes (((s.create slot).unlock .control).goto .ready) := by
  obtain ⟨before, -, -, awake, -, destroying, -, distinct, created, aims, leaving, -, spared⟩ := wakes
  have mine : s.mutex = some .control := before.heldByControl (by simp [pc, ControlPc.locked])
  have going : s.destroy = false := by simp [destroying, pc, Wakeups.destroying]
  have small : slot < s.threads.length := by simpa [pc, Wakeups.aims] using aims
  simp only [State.create, State.unlock, mine, if_true, State.goto] at inv ⊢
  refine ⟨inv, by simp, by simp, ?_, by simp, going, by simp, ?_, ?_, trivial, ?_, fun _ _ _ _ _ => False.elim, ?_⟩
  · exact forall_create_worker (by simp [Worker.new]) fun i w _ here => awake i w here
  · exact distinct.set fun member => absurd (created _ member) (lt_irrefl _)
  · intro i member
    rw [List.length_append, List.length_singleton]
    rcases List.mem_or_eq_of_mem_set member with old | rfl
    · exact Nat.lt_succ_of_lt (created i old)
    · exact Nat.lt_succ_self _
  · exact forall_create_worker (by simp [Worker.new, Wakeups.leaving]) fun i w _ here => leaving i w here
  · intro k i w slotted here cancelled
    by_cases same : k = slot
    · subst same
      rw [List.getElem?_set_self small] at slotted
      cases slotted
      rw [List.getElem?_concat_length] at here
      cases here
      cases cancelled
    · rw [List.getElem?_set_ne (Ne.symm same)] at slotted
      rw [List.getElem?_append_left (created i (List.mem_of_getElem? slotted))] at here
      rcases spared k i w slotted here cancelled with destroy | kills
      · exact Or.inl destroy
      · rw [pc] at kills
        exact absurd kills same

/-- The controlling thread takes the mutex. -/
theorem Wakes.locks (wakes : Wakes s) {pc : ControlPc} (inv : Inv t)
    (taken : (s.lock .control).map (fun t => t.goto pc) = some t) (locked : pc.locked = true)
    (follows : Follows s pc) : Wakes t := by
  obtain ⟨u, took, rfl⟩ := Option.map_eq_some_iff.mp taken
  unfold State.lock at took
  split at took
  next =>
    cases took
    refine wakes.goto inv (Or.inr (Or.inl ⟨rfl, locked⟩)) le_rfl ?_ follows
    intro finished
    simp [finished, ControlPc.locked] at locked
  next => cases took

/-- It releases the mutex. -/
theorem Wakes.unlocks (wakes : Wakes s) {pc : ControlPc} (inv : Inv ((s.unlock .control).goto pc))
    (locked : s.control.locked = true) (going : pc ≠ .finished) (follows : Follows s pc) :
    Wakes ((s.unlock .control).goto pc) := by
  have mine := wakes.inv.heldByControl locked
  simp only [State.unlock, mine, if_true, State.goto] at inv ⊢
  exact wakes.goto inv (Or.inr (Or.inr rfl)) le_rfl (fun at_ => absurd at_ going) follows

theorem controlStep_mark (marks : s.control = .destroyMark) :
    s.controlStep = some ({ s with destroy := true }.goto (.destroyCancel 0)) := by
  simp [State.controlStep, marks]

theorem controlStep_wakes (wakes : Wakes s) (other : s.control ≠ .destroyMark) (taken : s.controlStep = some t)
    (inv : Inv t) : Wakes t := by
  unfold State.controlStep at taken
  split at taken
  next => cases taken
  next tid pc =>
    exact wakes.locks inv taken rfl ⟨by simp, by simp [pc, destroying], trivial, by simp [cancels], by simp [pc, kills]⟩
  next tid pc =>
    cases taken
    split at inv
    next slot found =>
      obtain ⟨small, -⟩ := List.findIdx?_eq_some_iff_findIdx_eq.mp found
      exact wakes.unlocks inv (by simp [pc, ControlPc.locked]) (by simp)
        ⟨by simp, by simp [pc, destroying], small, by simp [cancels], by simp [pc, kills]⟩
    next =>
      exact wakes.unlocks inv (by simp [pc, ControlPc.locked]) (by simp)
        ⟨by simp, by simp [pc, destroying], trivial, by simp [cancels], by simp [pc, kills]⟩
  next slot pc =>
    cases taken
    have small : slot < s.threads.length := by simpa [pc, aims] using wakes.aims
    exact wakes.cancel small inv (by simp [pc, ControlPc.locked]) (by simp) (by simp) (by simp [pc, destroying]) small
      (fun _ same => Or.inl same) (Or.inr ⟨rfl, by simp [pc, kills]⟩)
  next slot pc =>
    split at taken
    next =>
      cases taken
      have small : slot < s.threads.length := by simpa [pc, aims] using wakes.aims
      exact wakes.goto inv (Or.inl ⟨rfl, by simp [pc, ControlPc.locked]⟩) le_rfl (by simp)
        ⟨by simp, by simp [pc, destroying], small, by simp [cancels], by simp [pc, kills]⟩
    next => cases taken
  next slot pc =>
    have small : slot < s.threads.length := by simpa [pc, aims] using wakes.aims
    exact wakes.locks inv taken rfl ⟨by simp, by simp [pc, destroying], small, by simp [cancels], by simp [pc, kills]⟩
  next slot pc =>
    cases taken
    exact wakes.create pc inv
  next pc =>
    exact wakes.locks inv taken rfl ⟨by simp, by simp [pc, destroying], trivial, by simp [cancels], by simp [pc, kills]⟩
  next pc => exact absurd pc other
  next slot pc =>
    have destroy : s.destroy = true := by simp [wakes.destroying, pc, destroying]
    cases taken
    split at inv
    next small =>
      rw [if_pos small]
      refine wakes.cancel small inv (by simp [pc, ControlPc.locked]) (by simp) (by simp) (by simp [pc, destroying])
        trivial ?_ (Or.inl destroy)
      intro k before
      rw [pc]
      exact (Nat.lt_succ_iff_lt_or_eq.mp before).symm
    next all =>
      rw [if_neg all]
      refine wakes.goto inv (Or.inl ⟨rfl, by simp [pc, ControlPc.locked]⟩) le_rfl (by simp)
        ⟨by simp, by simp [pc, destroying], trivial, ?_, by simp [pc, kills]⟩
      intro k small _
      rw [pc]
      exact lt_of_lt_of_le small (not_lt.mp all)
  next pc =>
    cases taken
    split at inv
    next alive =>
      rw [if_pos alive]
      exact wakes.unlocks inv (by simp [pc, ControlPc.locked]) (by simp)
        ⟨fun _ => alive, by simp [pc, destroying], trivial, by simp [pc, cancels], by simp [pc, kills]⟩
    next none =>
      rw [if_neg none]
      exact wakes.unlocks inv (by simp [pc, ControlPc.locked]) (by simp)
        ⟨by simp, by simp [pc, destroying], trivial, by simp [pc, cancels], by simp [pc, kills]⟩
  next => cases taken
  next pc =>
    exact wakes.locks inv taken rfl
      ⟨by simp, by simp [pc, destroying], trivial, by simp [pc, cancels], by simp [pc, kills]⟩
  next slot pc =>
    split at taken
    next =>
      split at taken
      next =>
        cases taken
        exact wakes.goto inv (Or.inl ⟨rfl, by simp [pc, ControlPc.locked]⟩) le_rfl (by simp)
          ⟨by simp, by simp [pc, destroying], trivial, by simp [pc, cancels], by simp [pc, kills]⟩
      next => cases taken
    next =>
      cases taken
      exact wakes.goto inv (Or.inl ⟨rfl, by simp [pc, ControlPc.locked]⟩) le_rfl (by simp)
        ⟨by simp, by simp [pc, destroying], trivial, by simp [cancels], by simp [pc, kills]⟩
  next pc =>
    cases taken
    exact wakes.goto inv (Or.inl ⟨rfl, by simp [pc, ControlPc.locked]⟩) (Nat.zero_le _) (fun _ => rfl)
      ⟨by simp, by simp [pc, destroying], trivial, by simp [cancels], by simp [pc, kills]⟩
  next => cases taken

/-- Where the controlling thread is makes no difference to the step of a worker. -/
theorem Moves.goto (moves : Moves s i w w' t) (pc : ControlPc) : Moves (s.goto pc) i w w' (t.goto pc) := by
  obtain ⟨workers, threads, destroy, -, freed, jobs, mutex, alive, waits, leaves, cancelled, spends⟩ := moves
  exact ⟨workers, threads, destroy, rfl, freed, jobs, mutex, alive, waits, leaves, cancelled, spends⟩

theorem Wakes.awakened (wakes : Wakes s) (waits : s.control = .destroyWait) (inv : Inv (s.goto .destroyWaking)) :
    Wakes (s.goto .destroyWaking) :=
  wakes.goto inv (Or.inl ⟨rfl, by simp [waits, ControlPc.locked]⟩) le_rfl (by simp)
    ⟨by simp, by simp [waits, Wakeups.destroying], trivial, by simp [waits, cancels], by simp [waits, kills]⟩

theorem awakened_inv (inv : Inv s) (waits : s.control = .destroyWait) : Inv (s.goto .destroyWaking) :=
  step_inv (e := .controlWake) inv (by simp [Workers.step, waits])

theorem run_wakes (wakes : Wakes s) (here : s.workers[i]? = some w) (ran : s.run i w = some t) :
    Wakes (broadcasts s (.run i) t) := by
  obtain ⟨w', moves, -⟩ := run_moves ran
  have inv : Inv t := run_inv wakes.inv here ran
  simp only [broadcasts, here, Option.map_some, Option.some.injEq]
  split
  next last =>
    unfold broadcastNoMoreThreads
    split
    next waits =>
      have before : s.control = .destroyWait := moves.control ▸ waits
      exact (wakes.awakened before (awakened_inv wakes.inv before)).moves here (moves.goto _) (by simp [State.goto])
        (awakened_inv inv waits)
    next waits => exact wakes.moves here moves (fun at_ => absurd at_ waits) inv
  next others =>
    refine wakes.moves here moves ?_ inv
    intro waits
    have before := wakes.counted (moves.control ▸ waits)
    rcases moves.alive with same | entered | cleanup
    · exact same ▸ before
    · have counted := wakes.inv.counted
      omega
    · exact fun none => others ⟨cleanup, none⟩

theorem Wakes.quiet_moves (wakes : Wakes s) (here : s.workers[i]? = some w) (moves : Moves s i w w' t)
    (alive : t.nbAliveThreads = s.nbAliveThreads) (inv : Inv t) : Wakes t :=
  wakes.moves here moves (fun waits => alive ▸ wakes.counted (moves.control ▸ waits)) inv

theorem step_wakes {e : Event} (wakes : Wakes s) (taken : step s e = some t) : Wakes t := by
  have inv : Inv t := workers_inv_step wakes.inv taken
  obtain ⟨u, took, rfl⟩ := Option.map_eq_some_iff.mp taken
  cases e with
  | run i =>
    obtain ⟨w, here, ran⟩ := Option.bind_eq_some_iff.mp took
    exact run_wakes wakes here ran
  | wake i =>
    obtain ⟨w, here, woke⟩ := Option.bind_eq_some_iff.mp took
    obtain ⟨w', moves, alive⟩ := wake_moves woke
    exact wakes.quiet_moves here moves alive inv
  | die i =>
    obtain ⟨w, here, died⟩ := Option.bind_eq_some_iff.mp took
    obtain ⟨w', moves, -, alive⟩ := die_moves died
    exact wakes.quiet_moves here moves alive inv
  | queue =>
    simp only [Workers.step] at took
    split at took
    · cases took
      exact wakes.broadcast inv (Or.inl ⟨rfl, rfl⟩)
    · cases took
  | flush left =>
    simp only [Workers.step] at took
    split at took
    next free =>
      cases took
      have stays : Follows s s.control := ⟨wakes.counted, rfl, wakes.aims, fun _ _ => id, fun _ => id⟩
      exact wakes.goto inv (Or.inl ⟨rfl, rfl⟩) free.2.2 wakes.finished stays
    next => cases took
  | kill tid =>
    simp only [Workers.step] at took
    split at took
    next ready =>
      cases took
      exact wakes.goto inv (Or.inl ⟨rfl, by simp [ready, ControlPc.locked]⟩) le_rfl (by simp)
        ⟨by simp, by simp [ready, destroying], trivial, by simp [cancels], by simp [ready, kills]⟩
    next => cases took
  | destroy =>
    simp only [Workers.step] at took
    split at took
    next ready =>
      cases took
      exact wakes.goto inv (Or.inl ⟨rfl, by simp [ready, ControlPc.locked]⟩) le_rfl (by simp)
        ⟨by simp, by simp [ready, destroying], trivial, by simp [cancels], by simp [ready, kills]⟩
    next => cases took
  | control =>
    by_cases marks : s.control = .destroyMark
    · cases (controlStep_mark marks).symm.trans took
      simp only [broadcasts, marks, if_true] at inv ⊢
      exact wakes.broadcast inv (Or.inr ⟨marks, rfl, rfl⟩)
    · simp only [broadcasts, marks, if_false] at inv ⊢
      exact controlStep_wakes wakes marks took inv
  | controlWake =>
    simp only [Workers.step] at took
    split at took
    next waits =>
      cases took
      exact wakes.awakened waits inv
    next => cases took

theorem poolCreate_wakes (nbThreads : Nat) : Wakes (poolCreate nbThreads) := by
  have new : ∀ (i : Nat) w, (poolCreate nbThreads).workers[i]? = some w → w = .new := by
    intro i w here
    exact List.eq_of_mem_replicate (List.mem_of_getElem? here)
  refine ⟨poolCreate_inv nbThreads, by simp [poolCreate], by simp [poolCreate], ?_, by simp [poolCreate], rfl,
    by simp [poolCreate], List.nodup_range, ?_, trivial, ?_, by simp [poolCreate, cancels], ?_⟩
  · intro i w here waits
    rw [new i w here] at waits
    cases waits
  · intro i member
    simpa [poolCreate] using member
  · intro i w here leaves
    rw [new i w here] at leaves
    cases leaves
  · intro slot i w _ here cancelled
    rw [new i w here] at cancelled
    cases cancelled

theorem exec_wakes_inv (nbThreads : Nat) {es : List Event} (ran : exec step (poolCreate nbThreads) es = some s) :
    Wakes s :=
  exec_invariant_all Wakes (fun _ _ _ wakes taken => step_wakes wakes taken) (poolCreate_wakes nbThreads) ran

/-! ### No run of the pool by itself goes on for ever -/

/-- What happens in the pool without anybody calling it. Spurious wake-ups are not counted on. -/
def own : Event → Bool
  | .run _ | .die _ | .control => true
  | .wake _ | .queue | .flush _ | .kill _ | .destroy | .controlWake => false

theorem ranks_set (here : s.workers[i]? = some w) (w' : Worker) :
    ranks (s.workers.set i w') + rank w.pc = ranks s.workers + rank w'.pc :=
  sum_map_set (fun w : Worker => rank w.pc) here w'

theorem ranks_woken (workers : List Worker) : ranks (workers.map woken) ≤ ranks workers + 2 * workers.length := by
  induction workers with
  | nil => simp [ranks]
  | cons w workers ih =>
    have one : rank (woken w).pc ≤ rank w.pc + 2 := by
      unfold woken
      split
      next waits => simp [waits, rank]
      next => omega
    simp only [ranks, List.map_cons, List.sum_cons, List.length_cons] at ih ⊢
    omega

theorem ranks_cancel (s : State) (slot : Nat) : ranks (s.cancel slot).workers = ranks s.workers := by
  unfold State.cancel
  split
  next => rfl
  next i slotted =>
    split
    next => rfl
    next w here =>
      have change := ranks_set here { w with cancelled := true }
      exact Nat.add_right_cancel change

@[simp] theorem threads_cancel (s : State) (slot : Nat) : (s.cancel slot).threads = s.threads := by
  unfold State.cancel
  split
  · rfl
  · split <;> rfl

@[simp] theorem jobs_cancel (s : State) (slot : Nat) : (s.cancel slot).jobs = s.jobs := by
  unfold State.cancel
  split
  · rfl
  · split <;> rfl

@[simp] theorem length_cancel (s : State) (slot : Nat) : (s.cancel slot).workers.length = s.workers.length := by
  unfold State.cancel
  split
  · rfl
  · split
    · rfl
    · simp [State.setWorker]

theorem Moves.work_falls (moves : Moves s i w w' t) (here : s.workers[i]? = some w) (asleep : w'.pc ≠ .waking) :
    work t + toll w.pc ≤ work s := by
  have change := ranks_set here w'
  have spends := moves.spends.resolve_left asleep
  simp only [work, moves.workers, moves.threads, moves.control, List.length_set]
  omega

theorem toll_pos (pc : Pc) : 0 < toll pc := by
  cases pc <;> simp [toll]

/-- The wake-up of the controlling thread costs 2. -/
theorem work_broadcastNoMoreThreads (s : State) : work (broadcastNoMoreThreads s) ≤ work s + 2 := by
  unfold broadcastNoMoreThreads
  split
  next waits =>
    simp only [work, State.goto, waits, controlRank]
    omega
  next => omega

theorem run_falls (here : s.workers[i]? = some w) (ran : s.run i w = some t) :
    work (broadcasts s (.run i) t) < work s := by
  obtain ⟨w', moves, asleep⟩ := run_moves ran
  have falls := moves.work_falls here asleep
  have positive := toll_pos w.pc
  simp only [broadcasts, here, Option.map_some, Option.some.injEq]
  split
  next last =>
    rw [last.1] at falls
    have costs := work_broadcastNoMoreThreads t
    simp only [toll] at falls
    omega
  next => omega

theorem work_lock {pc : ControlPc} (taken : (s.lock .control).map (fun t => t.goto pc) = some t)
    (falls : controlRank s.threads.length s.workers.length pc <
      controlRank s.threads.length s.workers.length s.control) : work t < work s := by
  obtain ⟨u, took, rfl⟩ := Option.map_eq_some_iff.mp taken
  unfold State.lock at took
  split at took
  next =>
    cases took
    simp only [work, State.goto]
    omega
  next => cases took

theorem work_unlock {pc : ControlPc}
    (falls : controlRank s.threads.length s.workers.length pc <
      controlRank s.threads.length s.workers.length s.control) : work ((s.unlock .control).goto pc) < work s := by
  unfold State.unlock
  split
  all_goals
    simp only [work, State.goto]
    omega

theorem work_cancel {slot : Nat} {pc : ControlPc}
    (falls : controlRank s.threads.length s.workers.length pc <
      controlRank s.threads.length s.workers.length s.control) : work ((s.cancel slot).goto pc) < work s := by
  have same := ranks_cancel s slot
  simp only [work, State.goto, threads_cancel, jobs_cancel, length_cancel]
  omega

theorem work_goto {pc : ControlPc}
    (falls : controlRank s.threads.length s.workers.length pc <
      controlRank s.threads.length s.workers.length s.control) : work (s.goto pc) < work s := by
  simp only [work, State.goto]
  omega

/-- The thread that `pool_kill` creates is paid for. -/
theorem work_create {slot : Nat} (pc : s.control = .killCreate slot) :
    work (((s.create slot).unlock .control).goto .ready) < work s := by
  unfold State.create State.unlock
  split
  all_goals
    simp only [work, State.goto, pc, controlRank, ranks, List.map_append, List.map_cons, List.map_nil,
      List.sum_append, List.sum_cons, List.sum_nil, Worker.new, rank]
    omega

/-- The broadcast of `pool_destroy` is paid for. -/
theorem destroyMark_falls (s : State) (pc : s.control = .destroyMark) :
    work (broadcastJobqEmpty ({ s with destroy := true }.goto (.destroyCancel 0))) < work s := by
  have all := ranks_woken s.workers
  simp only [broadcastJobqEmpty, work, State.goto, pc, controlRank]
  omega

theorem controlStep_falls (other : s.control ≠ .destroyMark) (taken : s.controlStep = some t) : work t < work s := by
  unfold State.controlStep at taken
  split at taken
  next => cases taken
  next tid pc =>
    exact work_lock taken (by simp [pc, controlRank])
  next tid pc =>
    cases taken
    split
    · exact work_unlock (by simp [pc, controlRank])
    · exact work_unlock (by simp [pc, controlRank])
  next slot pc =>
    cases taken
    exact work_cancel (by simp [pc, controlRank])
  next slot pc =>
    split at taken
    · cases taken
      exact work_goto (by simp [pc, controlRank])
    · cases taken
  next slot pc =>
    exact work_lock taken (by simp [pc, controlRank])
  next slot pc =>
    cases taken
    exact work_create pc
  next pc =>
    exact work_lock taken (by simp [pc, controlRank])
  next pc =>
    exact absurd pc other
  next slot pc =>
    cases taken
    split
    next small =>
      refine work_cancel ?_
      simp only [pc, controlRank]
      omega
    next =>
      refine work_goto ?_
      simp only [pc, controlRank]
      omega
  next pc =>
    cases taken
    split
    · exact work_unlock (by simp [pc, controlRank])
    · exact work_unlock (by simp [pc, controlRank])
  next => cases taken
  next pc =>
    exact work_lock taken (by simp [pc, controlRank])
  next slot pc =>
    split at taken
    next small =>
      split at taken
      next =>
        cases taken
        refine work_goto ?_
        simp only [pc, controlRank]
        omega
      next => cases taken
    next =>
      cases taken
      exact work_goto (by simp [pc, controlRank])
  next pc =>
    cases taken
    simp only [work, State.goto, pc, controlRank]
    omega
  next => cases taken

theorem step_falls {e : Event} (byItself : own e = true) (taken : step s e = some t) : work t < work s := by
  obtain ⟨u, took, rfl⟩ := Option.map_eq_some_iff.mp taken
  cases e with
  | run i =>
    obtain ⟨w, here, ran⟩ := Option.bind_eq_some_iff.mp took
    exact run_falls here ran
  | die i =>
    obtain ⟨w, here, died⟩ := Option.bind_eq_some_iff.mp took
    obtain ⟨w', moves, asleep, -⟩ := die_moves died
    exact lt_of_lt_of_le (Nat.lt_add_of_pos_right (toll_pos w.pc)) (moves.work_falls here asleep)
  | control =>
    by_cases marks : s.control = .destroyMark
    · cases (controlStep_mark marks).symm.trans took
      simp only [broadcasts, marks, if_true]
      exact destroyMark_falls s marks
    · simp only [broadcasts, marks, if_false]
      exact controlStep_falls marks took
  | _ => cases byItself

/-! ### Where it comes to a rest -/

/-- By itself the pool does nothing but go on with the jobs that it runs. -/
def Quiet (s : State) : Prop :=
  ∀ e t, own e = true → step s e = some t → ∃ i w, e = .run i ∧ s.workers[i]? = some w ∧ w.pc = .inJob

/-- Between two calls: every thread of the pool serves, and waits only if there is nothing to do. -/
structure Idle (s : State) : Prop where
  ready : s.control = .ready
  going : s.destroy = false
  serves : ∀ i ∈ s.threads, ∃ w, s.workers[i]? = some w ∧ w.cancelled = false ∧
    (w.pc = .inJob ∨ w.pc = .waiting ∧ s.jobs = 0)

/-- `pool_destroy` has returned. -/
structure Destroyed (s : State) : Prop where
  finished : s.control = .finished
  freed : s.freed = true
  exited : ∀ (i : Nat) w, s.workers[i]? = some w → w.pc = .exited

theorem step_of_run (here : s.workers[i]? = some w) (ran : s.run i w = some t) :
    step s (.run i) = some (broadcasts s (.run i) t) := by
  simp [step, Workers.step, here, ran]

theorem step_of_die (here : s.workers[i]? = some w) (died : s.die i w = some t) : step s (.die i) = some t := by
  simp [step, Workers.step, here, died, broadcasts]

theorem step_of_control (taken : s.controlStep = some t) : step s .control = some (broadcasts s .control t) := by
  simp [step, Workers.step, taken]

/-- Whoever holds the mutex can go on. -/
theorem run_locked (s : State) (i : Nat) (locked : w.pc.locked = true) : ∃ t, s.run i w = some t := by
  cases pc : w.pc <;> simp [pc, Pc.locked] at locked <;> simp [State.run, pc]

theorem controlStep_locked (locked : s.control.locked = true) : ∃ t, s.controlStep = some t := by
  cases pc : s.control <;> simp [pc, ControlPc.locked] at locked <;> simp [State.controlStep, pc]

/-- And where nobody does, only the condition wait and the end hold a worker up. -/
theorem run_free (s : State) (i : Nat) (w : Worker) (free : s.mutex = none) :
    w.pc = .waiting ∨ w.pc = .exited ∨ ∃ t, s.run i w = some t := by
  cases pc : w.pc <;> simp [State.run, State.lock, pc, free]

theorem controlStep_free (free : s.mutex = none) :
    s.control = .ready ∨ s.control = .destroyWait ∨ s.control = .finished ∨ (∃ t, s.controlStep = some t) ∨
      ∃ slot, (s.control = .killJoin slot ∨ s.control = .destroyJoin slot ∧ slot < s.threads.length) ∧
        s.joinable slot = false := by
  cases pc : s.control with
  | killJoin slot =>
    cases joinable : s.joinable slot with
    | true => simp [State.controlStep, pc, joinable]
    | false => simp [joinable]
  | destroyJoin slot =>
    by_cases small : slot < s.threads.length
    · cases joinable : s.joinable slot with
      | true => simp [State.controlStep, pc, joinable, small]
      | false => simp [joinable, small]
    · simp [State.controlStep, pc, small]
  | _ => simp [State.controlStep, State.lock, pc, free]

theorem Quiet.free (quiet : Quiet s) (wakes : Wakes s) : s.mutex = none := by
  cases mutex : s.mutex with
  | none => rfl
  | some owner =>
    cases owner with
    | worker i =>
      obtain ⟨w, here, locked⟩ := wakes.owned i mutex
      obtain ⟨t, ran⟩ := run_locked s i locked
      obtain ⟨k, v, same, there, pc⟩ := quiet (.run i) _ rfl (step_of_run here ran)
      cases same
      cases here.symm.trans there
      simp [pc, Pc.locked] at locked
    | control =>
      obtain ⟨t, taken⟩ := controlStep_locked (wakes.ownedByControl mutex)
      obtain ⟨k, v, same, -⟩ := quiet .control _ rfl (step_of_control taken)
      cases same

theorem Quiet.worker (quiet : Quiet s) (free : s.mutex = none) (here : s.workers[i]? = some w) :
    w.pc = .exited ∨ w.cancelled = false ∧ (w.pc = .inJob ∨ w.pc = .waiting) := by
  have place : w.pc = .exited ∨ w.pc = .inJob ∨ w.pc = .waiting := by
    rcases run_free s i w free with waits | exited | ⟨t, ran⟩
    · exact Or.inr (Or.inr waits)
    · exact Or.inl exited
    · obtain ⟨k, v, same, there, pc⟩ := quiet (.run i) _ rfl (step_of_run here ran)
      cases same
      cases here.symm.trans there
      exact Or.inr (Or.inl pc)
  rcases place with exited | serves
  · exact Or.inl exited
  refine Or.inr ⟨?_, serves⟩
  -- a cancellation would be acted upon
  by_contra spared
  have cancelled : w.cancelled = true := by simpa using spared
  have dies : ∃ t, s.die i w = some t := by
    rcases serves with pc | pc
    · simp [State.die, pc, cancelled]
    · simp [State.die, pc, cancelled]
  obtain ⟨t, died⟩ := dies
  obtain ⟨k, v, same, -⟩ := quiet (.die i) _ rfl (step_of_die here died)
  cases same

/-- The thread of a slot that was cancelled is gone. -/
theorem Quiet.joinable (quiet : Quiet s) (wakes : Wakes s) {slot : Nat} (small : slot < s.threads.length)
    (cancels : cancels s.control slot) : s.joinable slot = true := by
  have slotted : s.threads[slot]? = some s.threads[slot] := List.getElem?_eq_getElem small
  have bound := wakes.created _ (List.getElem_mem small)
  have here := List.getElem?_eq_getElem bound
  have cancelled := wakes.cancelled slot _ _ slotted here cancels
  rcases quiet.worker (quiet.free wakes) here with exited | ⟨spared, -⟩
  · exact joinable_iff.mpr ⟨_, _, slotted, here, exited⟩
  · cases cancelled.symm.trans spared

/-- Who has not exited is in a slot, where it would have been joined. -/
theorem exited_of_joined (inv : Inv s) (joined : s.Joined s.threads.length) (here : s.workers[i]? = some w) :
    w.pc = .exited := by
  by_contra going
  obtain ⟨slot, slotted⟩ := List.mem_iff_getElem?.mp (inv.slotted i w here going)
  obtain ⟨small, -⟩ := List.getElem?_eq_some_iff.mp slotted
  obtain ⟨k, v, slotted', there, exited⟩ := joinable_iff.mp (joined slot small)
  cases slotted.symm.trans slotted'
  cases here.symm.trans there
  exact going exited

/-- The last alive thread would have awakened the controlling thread. -/
theorem Quiet.not_waiting (quiet : Quiet s) (wakes : Wakes s) : s.control ≠ .destroyWait := by
  intro waits
  have counted := wakes.inv.counted
  have positive : 0 < s.workers.countP Worker.alive := by
    have alive := wakes.counted waits
    omega
  obtain ⟨w, member, alive⟩ := List.countP_pos_iff.mp positive
  obtain ⟨i, here⟩ := List.mem_iff_getElem?.mp member
  have counts := wakes.inv.counts i w here
  -- all threads were cancelled, and are gone
  have exited : w.pc = .exited :=
    exited_of_joined wakes.inv (fun slot small => quiet.joinable wakes small (by simp [waits, cancels])) here
  simp only [Worker.Counts, exited] at counts
  simp [Worker.alive, counts] at alive

theorem Wakes.idle (wakes : Wakes s) (quiet : Quiet s) (ready : s.control = .ready) : Idle s := by
  have going : s.destroy = false := by simp [wakes.destroying, ready, Wakeups.destroying]
  refine ⟨ready, going, ?_⟩
  intro i member
  obtain ⟨slot, slotted⟩ := List.mem_iff_getElem?.mp member
  obtain ⟨w, here⟩ : ∃ w, s.workers[i]? = some w := ⟨_, List.getElem?_eq_getElem (wakes.created i member)⟩
  have spared : w.cancelled ≠ true := by
    intro cancelled
    rcases wakes.spared slot i w slotted here cancelled with destroy | kills
    · cases going.symm.trans destroy
    · simp [ready, Wakeups.kills] at kills
  refine ⟨w, here, by simpa using spared, ?_⟩
  rcases quiet.worker (quiet.free wakes) here with exited | ⟨-, inJob | waits⟩
  · rcases wakes.leaving i w here (by simp [exited, Wakeups.leaving]) with cancelled | destroy
    · exact absurd cancelled spared
    · cases going.symm.trans destroy
  · exact Or.inl inJob
  · exact Or.inr ⟨waits, (wakes.awake i w here waits).1⟩

theorem Wakes.destroyed (wakes : Wakes s) (finished : s.control = .finished) : Destroyed s := by
  have joined := wakes.inv.control
  rw [finished] at joined
  exact ⟨finished, wakes.finished finished, fun i w here => exited_of_joined wakes.inv joined here⟩

theorem quiet_rests (wakes : Wakes s) (quiet : Quiet s) : Idle s ∨ Destroyed s := by
  rcases controlStep_free (quiet.free wakes) with ready | waits | finished | ⟨t, taken⟩ | ⟨slot, joins, gone⟩
  · exact Or.inl (wakes.idle quiet ready)
  · exact absurd waits (quiet.not_waiting wakes)
  · exact Or.inr (wakes.destroyed finished)
  · obtain ⟨k, v, same, -⟩ := quiet .control _ rfl (step_of_control taken)
    cases same
  · have joinable : s.joinable slot = true := by
      rcases joins with kill | ⟨destroy, small⟩
      · have aims := wakes.aims
        rw [kill] at aims
        exact quiet.joinable wakes aims (by simp [kill, cancels])
      · exact quiet.joinable wakes small (by simp [destroy, cancels])
    cases gone.symm.trans joinable

theorem Idle.quiet (idle : Idle s) (wakes : Wakes s) : Quiet s := by
  -- who is no thread of the pool any more has exited
  have place : ∀ (i : Nat) w, s.workers[i]? = some w →
      w.pc = .exited ∨ w.cancelled = false ∧ (w.pc = .inJob ∨ w.pc = .waiting) := by
    intro i w here
    by_cases going : w.pc = .exited
    · exact Or.inl going
    · obtain ⟨v, there, spared, serves⟩ := idle.serves i (wakes.inv.slotted i w here going)
      cases here.symm.trans there
      exact Or.inr ⟨spared, serves.imp_right And.left⟩
  intro e t byItself taken
  obtain ⟨u, took, -⟩ := Option.map_eq_some_iff.mp taken
  cases e with
  | run i =>
    obtain ⟨w, here, ran⟩ := Option.bind_eq_some_iff.mp took
    rcases place i w here with exited | ⟨-, inJob | waits⟩
    · simp [State.run, exited] at ran
    · exact ⟨i, w, rfl, here, inJob⟩
    · simp [State.run, waits] at ran
  | die i =>
    obtain ⟨w, here, died⟩ := Option.bind_eq_some_iff.mp took
    rcases place i w here with exited | ⟨spared, -⟩
    · simp [State.die, exited] at died
    · simp [State.die, spared] at died
  | control => simp [Workers.step, State.controlStep, idle.ready] at took
  | _ => cases byItself

theorem Destroyed.quiet (destroyed : Destroyed s) : Quiet s := by
  intro e t byItself taken
  obtain ⟨u, took, -⟩ := Option.map_eq_some_iff.mp taken
  cases e with
  | run i =>
    obtain ⟨w, here, ran⟩ := Option.bind_eq_some_iff.mp took
    simp [State.run, destroyed.exited i w here] at ran
  | die i =>
    obtain ⟨w, here, died⟩ := Option.bind_eq_some_iff.mp took
    simp [State.die, destroyed.exited i w here] at died
  | control => simp [Workers.step, State.controlStep, destroyed.finished] at took
  | _ => cases byItself

/-- No wake-up is lost. Whatever has happened to the pool, it can only go on by itself for a bounded
number of steps, the returns of its jobs included; and where there is nothing left to happen but the
return of a job, either no call is going on, every thread of the pool serves and no queued job is
left to a thread that waits, or `pool_destroy` has returned and all threads have exited. -/
theorem pool_comes_to_rest (nbThreads : Nat) (es : List Event) (s : State)
    (ran : exec step (poolCreate nbThreads) es = some s) :
    (∀ fs t, (∀ e ∈ fs, own e = true) → exec step s fs = some t → fs.length + work t ≤ work s) ∧
    (Quiet s ↔ Idle s ∨ Destroyed s) := by
  have wakes := exec_wakes_inv nbThreads ran
  refine ⟨?_, ?_⟩
  · intro fs t byItself more
    exact exec_bounded work (fun _ _ _ byItself taken => step_falls byItself taken) byItself more
  · constructor
    · exact quiet_rests wakes
    · rintro (idle | destroyed)
      · exact idle.quiet wakes
      · exact destroyed.quiet

/-- `pool_destroy` is called while one thread runs a job and the other waits for one. -/
def destroyInJob : List Event :=
  [.run 0, .run 0, .run 0, .queue, .run 0, .run 0, .run 0, .run 1, .run 1, .run 1,
    .destroy, .control, .control, .control, .control, .control, .control,
    .run 1, .run 1, .run 1, .run 1, .die 0, .run 0, .run 0, .run 0,
    .control, .control, .control, .control, .control, .control]

theorem destroyInJob_rests : ∃ s, exec step (poolCreate 2) destroyInJob = some s ∧ work s = 0 ∧ Quiet s := by
  refine ⟨_, rfl, rfl, (pool_comes_to_rest 2 destroyInJob _ rfl).2.mpr (Or.inr ⟨rfl, rfl, ?_⟩)⟩
  intro i w here
  rcases i with _ | _ | i
  · cases here
    rfl
  · cases here
    rfl
  · cases here

end Pire2Pire.ThreadPool.Workers.Wakeups
