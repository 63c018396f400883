import Mathlib.Data.List.Basic
import Mathlib.Data.List.Count
import Pire2Pire.Library.Runs

/-! The life of the workers of a pool: `worker_thread` with its two cleanup handlers, `pool_kill`
and `pool_destroy`, with deferred cancellation.

The threads a pool ever had are numbered in the order of their creation. `pthread_mutex_lock` can
only be taken while nobody holds the mutex; a call that needs the mutex to be held (an unlock, a
condition wait, `worker_cleanup`) can always be made, and is recorded as a misuse if it is not. -/
namespace Pire2Pire.ThreadPool.Workers

open Pire2Pire.Library

/-- Where a worker is in `worker_thread`. -/
inductive Pc where
  /-- about to lock the mutex for the first time -/
  | start
  /-- about to increment `nb_alive_threads` and to push `worker_cleanup` -/
  | entered
  /-- at the head of the loop -/
  | looping
  /-- in `pthread_cond_wait`, which has released the mutex -/
  | waiting
  /-- the condition wait is over, about to take the mutex back -/
  | waking
  /-- cancelled in the condition wait, which takes the mutex back before the cleanup handlers run -/
  | cancelledWait
  /-- has taken a job from the queue, about to unlock the mutex -/
  | dequeued
  /-- in the job's function, with `job_cleanup` pushed -/
  | inJob
  /-- the function has returned, about to lock the mutex in `job_cleanup` -/
  | jobDone
  /-- cancelled in the function, about to lock the mutex in `job_cleanup` -/
  | jobCancelled
  /-- about to run `worker_cleanup` -/
  | cleanup
  /-- at the unlock of `worker_cleanup` -/
  | unlocking
  | exited
  deriving DecidableEq, Repr

/-- A worker; the two counters record how often it has run the increment and `worker_cleanup`. -/
structure Worker where
  pc : Pc
  cancelled : Bool
  increments : Nat
  cleanups : Nat
  deriving DecidableEq, Repr

/-- A thread as `pthread_create` leaves it. -/
def Worker.new : Worker := ⟨.start, false, 0, 0⟩

inductive Owner where
  | worker (i : Nat)
  /-- the thread that calls `pool_kill` and `pool_destroy` -/
  | control
  deriving DecidableEq, Repr

/-- Where the controlling thread is in `pool_kill` and `pool_destroy`. -/
inductive ControlPc where
  /-- between two calls -/
  | ready
  | killLock (tid : Nat)
  | killSearch (tid : Nat)
  | killCancel (slot : Nat)
  | killJoin (slot : Nat)
  | killRelock (slot : Nat)
  | killCreate (slot : Nat)
  | destroyLock
  /-- about to set `destroy` -/
  | destroyMark
  /-- in the loop that cancels everyone, at the given slot -/
  | destroyCancel (slot : Nat)
  /-- about to look at `nb_alive_threads` -/
  | destroyCheck
  /-- in `pthread_cond_wait` on `no_more_threads` -/
  | destroyWait
  | destroyWaking
  /-- in the loop that joins everyone, at the given slot -/
  | destroyJoin (slot : Nat)
  | destroyFree
  | finished
  deriving DecidableEq, Repr

/-- `struct pool` and its threads. The queue is only known by its length. -/
structure State where
  mutex : Option Owner
  nbAliveThreads : Int
  destroy : Bool
  jobs : Nat
  /-- `pool->threads` -/
  threads : List Nat
  /-- all threads ever created -/
  workers : List Worker
  control : ControlPc
  freed : Bool
  misuse : Bool
  deriving DecidableEq, Repr

/-- `pool_create`. -/
def poolCreate (nbThreads : Nat) : State where
  mutex := none
  nbAliveThreads := 0
  destroy := false
  jobs := 0
  threads := List.range nbThreads
  workers := List.replicate nbThreads .new
  control := .ready
  freed := false
  misuse := false

/-! ### The mutex -/

def State.lock (s : State) (me : Owner) : Option State :=
  if s.mutex = none then some { s with mutex := some me } else none

/-- Record a misuse unless the caller holds the mutex. -/
def State.expectHeld (s : State) (me : Owner) : State :=
  if s.mutex = some me then s else { s with misuse := true }

/-- `pthread_mutex_unlock`, and the release in `pthread_cond_wait`. -/
def State.unlock (s : State) (me : Owner) : State :=
  if s.mutex = some me then { s with mutex := none } else { s with misuse := true }

/-! ### The workers -/

def State.setWorker (s : State) (i : Nat) (w : Worker) : State :=
  { s with workers := s.workers.set i w }

/-- `worker_cleanup` up to its unlock. -/
def State.workerCleanup (s : State) (i : Nat) (w : Worker) : State :=
  { s.expectHeld (.worker i) with nbAliveThreads := s.nbAliveThreads - 1 }.setWorker i
    { w with pc := .unlocking, cleanups := w.cleanups + 1 }

/-- The loop of `worker_thread`: wait for a job, leave on destroy, else take the job. -/
def State.loop (s : State) (i : Nat) (w : Worker) : State :=
  if s.jobs = 0 ∧ s.destroy = false then (s.unlock (.worker i)).setWorker i { w with pc := .waiting }
  else if s.destroy then s.setWorker i { w with pc := .cleanup }
  else { s with jobs := s.jobs - 1 }.setWorker i { w with pc := .dequeued }

/-- The next step of worker `i`. -/
def State.run (s : State) (i : Nat) (w : Worker) : Option State :=
  match w.pc with
  | .start => (s.lock (.worker i)).map fun t => t.setWorker i { w with pc := .entered }
  | .entered =>
    some ({ s with nbAliveThreads := s.nbAliveThreads + 1 }.setWorker i
      { w with pc := .looping, increments := w.increments + 1 })
  | .looping => some (s.loop i w)
  | .waking | .jobDone => (s.lock (.worker i)).map fun t => t.setWorker i { w with pc := .looping }
  | .dequeued => some ((s.unlock (.worker i)).setWorker i { w with pc := .inJob })
  | .inJob => some (s.setWorker i { w with pc := .jobDone })
  | .cancelledWait | .jobCancelled =>
    (s.lock (.worker i)).map fun t => t.setWorker i { w with pc := .cleanup }
  | .cleanup => some (s.workerCleanup i w)
  | .unlocking => some ((s.unlock (.worker i)).setWorker i { w with pc := .exited })
  | .waiting | .exited => none

/-- A signal, a broadcast or a spurious wake-up ends the condition wait. -/
def State.wake (s : State) (i : Nat) (w : Worker) : Option State :=
  if w.pc = .waiting then some (s.setWorker i { w with pc := .waking }) else none

/-- A pending cancellation is acted upon. -/
def State.die (s : State) (i : Nat) (w : Worker) : Option State :=
  if w.cancelled then
    match w.pc with
    | .waiting => some (s.setWorker i { w with pc := .cancelledWait })
    | .inJob => some (s.setWorker i { w with pc := .jobCancelled })
    | _ => none
  else none

/-! ### `pool_kill` and `pool_destroy` -/

/-- `pthread_cancel (pool->threads[slot])`. -/
def State.cancel (s : State) (slot : Nat) : State :=
  match s.threads[slot]? with
  | none => s
  | some i =>
    match s.workers[i]? with
    | none => s
    | some w => s.setWorker i { w with cancelled := true }

/-- Whether `pthread_join (pool->threads[slot])` returns. -/
def State.joinable (s : State) (slot : Nat) : Bool :=
  match s.threads[slot]? with
  | none => false
  | some i => (s.workers[i]?.map Worker.pc) = some .exited

/-- `pthread_create (pool->threads + slot)`. -/
def State.create (s : State) (slot : Nat) : State :=
  { s with threads := s.threads.set slot s.workers.length, workers := s.workers ++ [.new] }

def State.goto (s : State) (pc : ControlPc) : State := { s with control := pc }

/-- The next step of the controlling thread. -/
def State.controlStep (s : State) : Option State :=
  match s.control with
  | .ready => none
  | .killLock tid => (s.lock .control).map fun t => t.goto (.killSearch tid)
  | .killSearch tid =>
    some ((s.unlock .control).goto
      (match s.threads.findIdx? (· = tid) with
        | some slot => .killCancel slot
        | none => .ready))
  | .killCancel slot => some ((s.cancel slot).goto (.killJoin slot))
  | .killJoin slot => if s.joinable slot then some (s.goto (.killRelock slot)) else none
  | .killRelock slot => (s.lock .control).map fun t => t.goto (.killCreate slot)
  | .killCreate slot => some (((s.create slot).unlock .control).goto .ready)
  | .destroyLock => (s.lock .control).map fun t => t.goto .destroyMark
  | .destroyMark => some ({ s with destroy := true }.goto (.destroyCancel 0))
  | .destroyCancel slot =>
    some (if slot < s.threads.length then (s.cancel slot).goto (.destroyCancel (slot + 1))
      else s.goto .destroyCheck)
  | .destroyCheck =>
    some (if s.nbAliveThreads ≠ 0 then (s.unlock .control).goto .destroyWait
      else (s.unlock .control).goto (.destroyJoin 0))
  | .destroyWait => none
  | .destroyWaking => (s.lock .control).map fun t => t.goto .destroyCheck
  | .destroyJoin slot =>
    if slot < s.threads.length then
      if s.joinable slot then some (s.goto (.destroyJoin (slot + 1))) else none
    else some (s.goto .destroyFree)
  | .destroyFree => some ({ s with freed := true, jobs := 0 }.goto .finished)
  | .finished => none

inductive Event where
  | run (i : Nat)
  | wake (i : Nat)
  | die (i : Nat)
  /-- `pool_queue` by any thread -/
  | queue
  /-- `pool_flush_by_arg` by any thread, which leaves `left` jobs -/
  | flush (left : Nat)
  /-- `pool_kill` is called -/
  | kill (tid : Nat)
  /-- `pool_destroy` is called -/
  | destroy
  | control
  /-- the condition wait of `pool_destroy` ends -/
  | controlWake
  deriving DecidableEq, Repr

def step (s : State) : Event → Option State
  | .run i => (s.workers[i]?).bind (s.run i)
  | .wake i => (s.workers[i]?).bind (s.wake i)
  | .die i => (s.workers[i]?).bind (s.die i)
  | .queue => if s.mutex = none ∧ s.freed = false then some { s with jobs := s.jobs + 1 } else none
  | .flush left =>
    if s.mutex = none ∧ s.freed = false ∧ left ≤ s.jobs then some { s with jobs := left } else none
  | .kill tid => if s.control = .ready then some (s.goto (.killLock tid)) else none
  | .destroy => if s.control = .ready then some (s.goto .destroyLock) else none
  | .control => s.controlStep
  | .controlWake => if s.control = .destroyWait then some (s.goto .destroyWaking) else none

/-! ### The invariant -/

/-- The worker has run the increment and not yet `worker_cleanup`. -/
def Worker.alive (w : Worker) : Bool := w.increments = 1 ∧ w.cleanups = 0

/-- What a worker has run so far is determined by where it is. -/
def Worker.Counts (w : Worker) : Prop :=
  match w.pc with
  | .start | .entered => w.increments = 0 ∧ w.cleanups = 0
  | .unlocking | .exited => w.increments = 1 ∧ w.cleanups = 1
  | .looping | .waiting | .waking | .cancelledWait | .dequeued | .inJob | .jobDone | .jobCancelled
  | .cleanup => w.increments = 1 ∧ w.cleanups = 0

/-- The positions at which a worker holds the mutex. -/
def Pc.locked : Pc → Bool
  | .entered | .looping | .dequeued | .cleanup | .unlocking => true
  | .start | .waiting | .waking | .cancelledWait | .inJob | .jobDone | .jobCancelled | .exited => false

/-- The positions at which the controlling thread holds the mutex. -/
def ControlPc.locked : ControlPc → Bool
  | .killSearch _ | .killCreate _ | .destroyMark | .destroyCancel _ | .destroyCheck => true
  | .ready | .killLock _ | .killCancel _ | .killJoin _ | .killRelock _ | .destroyLock | .destroyWait
  | .destroyWaking | .destroyJoin _ | .destroyFree | .finished => false

/-- All threads of the first slots have exited. -/
def State.Joined (s : State) (slots : Nat) : Prop := ∀ slot < slots, s.joinable slot = true

/-- What the controlling thread knows about exited threads. -/
def ControlPc.Fits (s : State) : ControlPc → Prop
  | .killRelock slot | .killCreate slot => s.joinable slot = true
  | .destroyJoin slot => s.Joined slot
  | .destroyFree | .finished => s.Joined s.threads.length
  | .ready | .killLock _ | .killSearch _ | .killCancel _ | .killJoin _ | .destroyLock | .destroyMark
  | .destroyCancel _ | .destroyCheck | .destroyWait | .destroyWaking => True

structure Inv (s : State) : Prop where
  counts : ∀ (i : Nat) w, s.workers[i]? = some w → w.Counts
  counted : s.nbAliveThreads = s.workers.countP Worker.alive
  held : ∀ (i : Nat) w, s.workers[i]? = some w → w.pc.locked = true → s.mutex = some (.worker i)
  heldByControl : s.control.locked = true → s.mutex = some .control
  disciplined : s.misuse = false
  slotted : ∀ (i : Nat) w, s.workers[i]? = some w → w.pc ≠ .exited → i ∈ s.threads
  control : s.control.Fits s
  freed : s.freed = true → s.control = .finished

variable {s t : State} {i : Nat} {w w' : Worker}

theorem joinable_iff {slot : Nat} :
    s.joinable slot = true ↔ ∃ i w, s.threads[slot]? = some i ∧ s.workers[i]? = some w ∧ w.pc = .exited := by
  unfold State.joinable
  split
  · simp_all
  · simp_all

/-- A thread that has exited stays joinable whatever the others do. -/
theorem joinable_set {slot : Nat} {m : Option Owner} {n : Int} {j : Nat}
    (here : s.workers[i]? = some w) (stays : w.pc = .exited → w'.pc = .exited) (joinable : s.joinable slot = true) :
    State.joinable { s with mutex := m, nbAliveThreads := n, jobs := j, workers := s.workers.set i w' }
      slot = true := by
  rw [joinable_iff] at joinable ⊢
  obtain ⟨k, v, slotted, there, exited⟩ := joinable
  by_cases same : i = k
  · subst same
    obtain ⟨bound, _⟩ := List.getElem?_eq_some_iff.mp here
    exact ⟨i, w', slotted, by simp [bound], stays (by cases here.symm.trans there; exact exited)⟩
  · exact ⟨k, v, slotted, by simpa [List.getElem?_set_ne same] using there, exited⟩

theorem control_fits_set {m : Option Owner} {n : Int} {j : Nat} {pc : ControlPc}
    (here : s.workers[i]? = some w) (stays : w.pc = .exited → w'.pc = .exited) (fits : pc.Fits s) :
    pc.Fits { s with mutex := m, nbAliveThreads := n, jobs := j, workers := s.workers.set i w' } := by
  cases pc with
  | killRelock slot | killCreate slot => exact joinable_set here stays fits
  | destroyJoin slot => exact fun k small => joinable_set here stays (fits k small)
  | destroyFree | finished => exact fun k small => joinable_set here stays (fits k small)
  | _ => trivial

theorem countP_set_worker (here : s.workers[i]? = some w) :
    ((s.workers.set i w').countP Worker.alive : Int) =
      s.workers.countP Worker.alive + w'.alive.toNat - w.alive.toNat := by
  obtain ⟨bound, at_⟩ := List.getElem?_eq_some_iff.mp here
  have positive : w.alive = true → 0 < s.workers.countP Worker.alive := by
    intro alive
    rw [List.countP_pos_iff]
    exact ⟨w, List.mem_of_getElem? here, alive⟩
  rw [List.countP_set bound, at_]
  cases old : w.alive with
  | false => cases w'.alive <;> simp
  | true =>
    have some_ := positive old
    cases w'.alive <;> simp <;> omega

/-- A statement about all workers after one of them has moved. -/
theorem forall_set_worker {P : Nat → Worker → Prop} (moved : P i w')
    (others : ∀ k v, k ≠ i → s.workers[k]? = some v → P k v) (k : Nat) (v : Worker)
    (at_ : (s.workers.set i w')[k]? = some v) : P k v := by
  by_cases same : k = i
  · subst same
    rw [List.getElem?_set_self'] at at_
    obtain ⟨-, -, rfl⟩ := Option.map_eq_some_iff.mp at_
    exact moved
  · rw [List.getElem?_set_ne (Ne.symm same)] at at_
    exact others k v same at_

/-- And after another one was created. -/
theorem forall_create_worker {P : Nat → Worker → Prop} (created : P s.workers.length .new)
    (others : ∀ k v, k < s.workers.length → s.workers[k]? = some v → P k v) (k : Nat) (v : Worker)
    (at_ : (s.workers ++ [.new])[k]? = some v) : P k v := by
  rcases Nat.lt_trichotomy k s.workers.length with old | new | beyond
  · rw [List.getElem?_append_left old] at at_
    exact others k v old at_
  · rw [new, List.getElem?_concat_length] at at_
    cases at_
    exact new ▸ created
  · rw [List.getElem?_eq_none (by simp; omega)] at at_
    cases at_

/-- Most moves are between positions at which the worker has run the same. -/
theorem Worker.Counts.goto {old pc : Pc} (counts : w.Counts) (at_ : w.pc = old)
    (same : Worker.Counts { w with pc := pc } = Worker.Counts { w with pc := old }) :
    Worker.Counts { w with pc := pc } := by
  subst at_
  rw [same]
  exact counts

/-- One step of a worker, with what it may do to the mutex and to the counter. -/
theorem Inv.worker_moves (inv : Inv s) (here : s.workers[i]? = some w)
    (stays : w.pc = .exited → w'.pc = .exited)
    {m : Option Owner} {n : Int} {j : Nat} (counts : w'.Counts)
    (counted : n = s.nbAliveThreads + w'.alive.toNat - w.alive.toNat)
    (mutex : m = s.mutex ∧ (w'.pc.locked = true → w.pc.locked = true) ∨
      s.mutex = none ∧ m = some (.worker i) ∨
      s.mutex = some (.worker i) ∧ m = none ∧ w'.pc.locked = false) :
    Inv { s with mutex := m, nbAliveThreads := n, jobs := j, workers := s.workers.set i w' } := by
  obtain ⟨counts', counted', held, heldByControl, disciplined, slotted, control, freed⟩ := inv
  refine ⟨?_, ?_, ?_, ?_, disciplined, ?_, control_fits_set here stays control, freed⟩
  · exact forall_set_worker counts fun k v _ there => counts' k v there
  · rw [counted, counted', countP_set_worker here]
  · refine forall_set_worker ?_ ?_
    · intro locked
      rcases mutex with ⟨rfl, keeps⟩ | ⟨-, rfl⟩ | ⟨-, -, unlocked⟩
      · exact held i w here (keeps locked)
      · rfl
      · cases locked.symm.trans unlocked
    · -- another worker that holds the mutex is in the way of taking or releasing it
      intro k v other there locked
      have mine := held k v there locked
      rcases mutex with ⟨rfl, -⟩ | ⟨free, -⟩ | ⟨owned, -, -⟩
      · exact mine
      · cases free.symm.trans mine
      · cases owned.symm.trans mine
        exact absurd rfl other
  · intro locked
    have mine := heldByControl locked
    rcases mutex with ⟨rfl, -⟩ | ⟨free, -⟩ | ⟨owned, -, -⟩
    · exact mine
    · cases free.symm.trans mine
    · cases owned.symm.trans mine
  · refine forall_set_worker ?_ fun k v _ there => slotted k v there
    intro going
    exact slotted i w here fun exited => going (stays exited)

/-- A step that takes the mutex. -/
theorem Inv.locks (inv : Inv s) (here : s.workers[i]? = some w) (going : w.pc ≠ .exited)
    (counts : w'.Counts) (same : w'.alive = w.alive)
    (taken : (s.lock (.worker i)).map (fun t => t.setWorker i w') = some t) : Inv t := by
  obtain ⟨u, locked, rfl⟩ := Option.map_eq_some_iff.mp taken
  unfold State.lock at locked
  split at locked
  next free =>
    cases locked
    exact inv.worker_moves here (fun gone => absurd gone going) counts (by simp [same]) (Or.inr (Or.inl ⟨free, rfl⟩))
  next => cases locked

/-- A step that releases the mutex, which the worker holds. -/
theorem Inv.unlocks (inv : Inv s) (here : s.workers[i]? = some w) (locked : w.pc.locked = true)
    (counts : w'.Counts) (same : w'.alive = w.alive) (free : w'.pc.locked = false) :
    Inv ((s.unlock (.worker i)).setWorker i w') := by
  have held := inv.held i w here locked
  simp only [State.unlock, held, if_true, State.setWorker]
  refine inv.worker_moves here ?_ counts (by simp [same]) (Or.inr (Or.inr ⟨held, rfl, free⟩))
  intro exited
  rw [exited] at locked
  cases locked

/-- A step that leaves the mutex and the counters alone. -/
theorem Inv.passes {j : Nat} (inv : Inv s) (here : s.workers[i]? = some w) (going : w.pc ≠ .exited)
    (counts : w'.Counts) (same : w'.alive = w.alive) (locked : w'.pc.locked = true → w.pc.locked = true) :
    Inv ({ s with jobs := j }.setWorker i w') :=
  inv.worker_moves here (fun gone => absurd gone going) counts (by simp [same]) (Or.inl ⟨rfl, locked⟩)

theorem loop_inv (inv : Inv s) (here : s.workers[i]? = some w) (pc : w.pc = .looping) :
    Inv (s.loop i w) := by
  have counts := inv.counts i w here
  unfold State.loop
  split
  next => exact inv.unlocks here (by simp [pc, Pc.locked]) (by exact counts.goto pc rfl) rfl rfl
  next =>
    split
    next => exact inv.passes here (by simp [pc]) (by exact counts.goto pc rfl) rfl (by simp [pc, Pc.locked])
    next => exact inv.passes here (by simp [pc]) (by exact counts.goto pc rfl) rfl (by simp [pc, Pc.locked])

/-- The increment: the worker was not alive before, and is now. -/
theorem enter_inv (inv : Inv s) (here : s.workers[i]? = some w) (pc : w.pc = .entered) :
    Inv ({ s with nbAliveThreads := s.nbAliveThreads + 1 }.setWorker i
      { w with pc := .looping, increments := w.increments + 1 }) := by
  have counts := inv.counts i w here
  simp only [Worker.Counts, pc] at counts
  refine inv.worker_moves here (by simp [pc]) ?_ ?_ (Or.inl ⟨rfl, by simp [pc, Pc.locked]⟩)
  · simp [Worker.Counts, counts]
  · simp [Worker.alive, counts]

/-- `worker_cleanup`: the worker was alive before, and holds the mutex. -/
theorem workerCleanup_inv (inv : Inv s) (here : s.workers[i]? = some w) (pc : w.pc = .cleanup) :
    Inv (s.workerCleanup i w) := by
  have counts := inv.counts i w here
  have held := inv.held i w here (by simp [pc, Pc.locked])
  simp only [Worker.Counts, pc] at counts
  simp only [State.workerCleanup, State.expectHeld, held, if_true]
  refine inv.worker_moves here (by simp [pc]) ?_ ?_ (Or.inl ⟨held.symm, by simp [pc, Pc.locked]⟩)
  · simp [Worker.Counts, counts]
  · simp [Worker.alive, counts]

theorem run_inv (inv : Inv s) (here : s.workers[i]? = some w) (taken : s.run i w = some t) : Inv t := by
  have counts := inv.counts i w here
  unfold State.run at taken
  split at taken
  next pc => exact inv.locks here (by simp [pc]) (by exact counts.goto pc rfl) (by rfl) taken
  next pc =>
    cases taken
    exact enter_inv inv here pc
  next pc =>
    cases taken
    exact loop_inv inv here pc
  next pc => exact inv.locks here (by simp [pc]) (by exact counts.goto pc rfl) (by rfl) taken
  next pc => exact inv.locks here (by simp [pc]) (by exact counts.goto pc rfl) (by rfl) taken
  next pc =>
    cases taken
    exact inv.unlocks here (by simp [pc, Pc.locked]) (by exact counts.goto pc rfl) rfl rfl
  next pc =>
    cases taken
    exact inv.passes here (by simp [pc]) (by exact counts.goto pc rfl) rfl (by simp [Pc.locked])
  next pc => exact inv.locks here (by simp [pc]) (by exact counts.goto pc rfl) (by rfl) taken
  next pc => exact inv.locks here (by simp [pc]) (by exact counts.goto pc rfl) (by rfl) taken
  next pc =>
    cases taken
    exact workerCleanup_inv inv here pc
  next pc =>
    cases taken
    exact inv.unlocks here (by simp [pc, Pc.locked]) (by exact counts.goto pc rfl) rfl rfl
  next => cases taken
  next => cases taken

theorem wake_inv (inv : Inv s) (here : s.workers[i]? = some w) (taken : s.wake i w = some t) : Inv t := by
  have counts := inv.counts i w here
  unfold State.wake at taken
  split at taken
  next pc =>
    cases taken
    exact inv.passes here (by simp [pc]) (by exact counts.goto pc rfl) rfl (by simp [Pc.locked])
  next => cases taken

theorem die_inv (inv : Inv s) (here : s.workers[i]? = some w) (taken : s.die i w = some t) : Inv t := by
  have counts := inv.counts i w here
  unfold State.die at taken
  split at taken
  next =>
    split at taken
    next pc =>
      cases taken
      exact inv.passes here (by simp [pc]) (by exact counts.goto pc rfl) rfl (by simp [Pc.locked])
    next pc =>
      cases taken
      exact inv.passes here (by simp [pc]) (by exact counts.goto pc rfl) rfl (by simp [Pc.locked])
    next => cases taken
  next => cases taken

/-! ### The steps of the controlling thread -/

/-- A pending cancellation changes nothing that the invariant speaks of. -/
theorem cancel_inv (inv : Inv s) (slot : Nat) : Inv (s.cancel slot) := by
  unfold State.cancel
  split
  next => exact inv
  next k slotted =>
    split
    next => exact inv
    next v there =>
      have counts := inv.counts k v there
      have kept : Worker.Counts { v with cancelled := true } := counts
      have stays : v.pc = .exited → ({ v with cancelled := true } : Worker).pc = .exited := id
      refine inv.worker_moves there stays kept ?_ (Or.inl ⟨rfl, id⟩)
      simp [Worker.alive]

@[simp] theorem control_cancel (s : State) (slot : Nat) : (s.cancel slot).control = s.control := by
  unfold State.cancel
  split
  · rfl
  · split <;> rfl

/-- The controlling thread moves on. -/
theorem goto_inv {pc : ControlPc} (inv : Inv s) (going : s.control ≠ .finished)
    (locked : pc.locked = true → s.control.locked = true) (fits : pc.Fits s) : Inv (s.goto pc) := by
  obtain ⟨counts, counted, held, heldByControl, disciplined, slotted, control, freed⟩ := inv
  refine ⟨counts, counted, held, fun here => heldByControl (locked here), disciplined, slotted, ?_, ?_⟩
  · cases pc <;> exact fits
  · intro freed'
    exact absurd (freed freed') going

theorem control_locks {pc : ControlPc} (inv : Inv s) (going : s.control ≠ .finished)
    (taken : (s.lock .control).map (fun t => t.goto pc) = some t) (fits : pc.Fits s) : Inv t := by
  obtain ⟨u, locked, rfl⟩ := Option.map_eq_some_iff.mp taken
  unfold State.lock at locked
  split at locked
  next free =>
    cases locked
    obtain ⟨counts, counted, held, heldByControl, disciplined, slotted, control, freed⟩ := inv
    refine ⟨counts, counted, ?_, fun _ => rfl, disciplined, slotted, ?_, ?_⟩
    · intro i w here held'
      simp [held i w here held'] at free
    · cases pc <;> exact fits
    · intro freed'
      exact absurd (freed freed') going
  next => cases locked

theorem control_unlocks {pc : ControlPc} (inv : Inv s) (locked : s.control.locked = true)
    (free : pc.locked = false) (fits : pc.Fits s) : Inv ((s.unlock .control).goto pc) := by
  obtain ⟨counts, counted, held, heldByControl, disciplined, slotted, control, freed⟩ := inv
  have mine := heldByControl locked
  simp only [State.unlock, mine, if_true, State.goto]
  refine ⟨counts, counted, ?_, ?_, disciplined, slotted, ?_, ?_⟩
  · intro i w here held'
    simp [held i w here held'] at mine
  · intro locked'
    cases free.symm.trans locked'
  · cases pc <;> exact fits
  · intro freed'
    simp [freed freed', ControlPc.locked] at locked

/-- The replacement of a thread that has exited. -/
theorem create_inv {slot : Nat} (inv : Inv s) (pc : s.control = .killCreate slot) :
    Inv (((s.create slot).unlock .control).goto .ready) := by
  obtain ⟨counts, counted, held, heldByControl, disciplined, slotted, control, freed⟩ := inv
  simp only [ControlPc.Fits, pc] at control
  obtain ⟨k, v, at_, there, exited⟩ := joinable_iff.mp control
  obtain ⟨bound, _⟩ := List.getElem?_eq_some_iff.mp at_
  have mine := heldByControl (by simp [pc, ControlPc.locked])
  simp only [State.create, State.unlock, mine, if_true, State.goto]
  refine ⟨?_, ?_, ?_, by simp [ControlPc.locked], disciplined, ?_, trivial, ?_⟩
  · exact forall_create_worker ⟨rfl, rfl⟩ fun i w _ here => counts i w here
  · simp [counted, Worker.new, Worker.alive]
  · refine forall_create_worker (by simp [Worker.new, Pc.locked]) ?_
    intro i w _ here locked
    cases mine.symm.trans (held i w here locked)
  · refine forall_create_worker (fun _ => List.mem_set bound _) ?_
    intro i w _ here going
    obtain ⟨j, there'⟩ := List.mem_iff_getElem?.mp (slotted i w here going)
    -- the thread in the slot has exited
    have apart : slot ≠ j := by
      rintro rfl
      cases at_.symm.trans there'
      cases there.symm.trans here
      exact going exited
    exact List.mem_iff_getElem?.mpr ⟨j, by rw [List.getElem?_set_ne apart]; exact there'⟩
  · intro freed'
    simp [freed freed'] at pc

theorem joined_succ {slot : Nat} (joined : s.Joined slot) (joinable : s.joinable slot = true) :
    s.Joined (slot + 1) := by
  intro k small
  rcases Nat.lt_succ_iff_lt_or_eq.mp small with before | here
  · exact joined k before
  · exact here ▸ joinable

theorem controlStep_inv (inv : Inv s) (taken : s.controlStep = some t) : Inv t := by
  have fits := inv.control
  unfold State.controlStep at taken
  split at taken
  next => cases taken
  next tid pc => exact control_locks inv (by simp [pc]) taken trivial
  next tid pc =>
    cases taken
    split
    · exact control_unlocks inv (by simp [pc, ControlPc.locked]) rfl trivial
    · exact control_unlocks inv (by simp [pc, ControlPc.locked]) rfl trivial
  next slot pc =>
    cases taken
    exact goto_inv (cancel_inv inv slot) (by simp [pc]) (by simp [ControlPc.locked]) trivial
  next slot pc =>
    split at taken
    next joinable =>
      cases taken
      exact goto_inv inv (by simp [pc]) (by simp [ControlPc.locked]) joinable
    next => cases taken
  next slot pc =>
    rw [pc] at fits
    exact control_locks inv (by simp [pc]) taken fits
  next slot pc =>
    cases taken
    exact create_inv inv pc
  next pc => exact control_locks inv (by simp [pc]) taken trivial
  next pc =>
    cases taken
    obtain ⟨counts, counted, held, heldByControl, disciplined, slotted, -, freed⟩ := inv
    refine ⟨counts, counted, held, fun _ => heldByControl ?_, disciplined, slotted, trivial, ?_⟩
    · simp [pc, ControlPc.locked]
    · intro freed'
      simp [freed freed'] at pc
  next slot pc =>
    cases taken
    split
    · exact goto_inv (cancel_inv inv slot) (by simp [pc]) (by simp [pc, ControlPc.locked]) trivial
    · exact goto_inv inv (by simp [pc]) (by simp [pc, ControlPc.locked]) trivial
  next pc =>
    cases taken
    split
    · exact control_unlocks inv (by simp [pc, ControlPc.locked]) rfl trivial
    · exact control_unlocks inv (by simp [pc, ControlPc.locked]) rfl (fun _ small => absurd small (by omega))
  next => cases taken
  next pc => exact control_locks inv (by simp [pc]) taken trivial
  next slot pc =>
    rw [pc] at fits
    split at taken
    next =>
      split at taken
      next joinable =>
        cases taken
        exact goto_inv inv (by simp [pc]) (by simp [ControlPc.locked]) (joined_succ fits joinable)
      next => cases taken
    next all =>
      cases taken
      refine goto_inv inv (by simp [pc]) (by simp [ControlPc.locked]) ?_
      intro k small
      exact fits k (by omega)
  next pc =>
    cases taken
    rw [pc] at fits
    obtain ⟨counts, counted, held, heldByControl, disciplined, slotted, -, -⟩ := inv
    exact ⟨counts, counted, held, by simp [State.goto, ControlPc.locked], disciplined, slotted, fits,
      fun _ => rfl⟩
  next => cases taken

theorem step_inv {e : Event} (inv : Inv s) (taken : step s e = some t) : Inv t := by
  obtain ⟨counts, counted, held, heldByControl, disciplined, slotted, control, freed⟩ := id inv
  cases e with
  | run i =>
    obtain ⟨w, here, taken⟩ := Option.bind_eq_some_iff.mp taken
    exact run_inv inv here taken
  | wake i =>
    obtain ⟨w, here, taken⟩ := Option.bind_eq_some_iff.mp taken
    exact wake_inv inv here taken
  | die i =>
    obtain ⟨w, here, taken⟩ := Option.bind_eq_some_iff.mp taken
    exact die_inv inv here taken
  | queue =>
    simp only [step] at taken
    split at taken
    · cases taken
      exact ⟨counts, counted, held, heldByControl, disciplined, slotted, by cases s; exact control, freed⟩
    · cases taken
  | flush left =>
    simp only [step] at taken
    split at taken
    · cases taken
      exact ⟨counts, counted, held, heldByControl, disciplined, slotted, by cases s; exact control, freed⟩
    · cases taken
  | kill tid =>
    simp only [step] at taken
    split at taken
    next ready =>
      cases taken
      exact goto_inv inv (by simp [ready]) (by simp [ControlPc.locked]) trivial
    next => cases taken
  | destroy =>
    simp only [step] at taken
    split at taken
    next ready =>
      cases taken
      exact goto_inv inv (by simp [ready]) (by simp [ControlPc.locked]) trivial
    next => cases taken
  | control => exact controlStep_inv inv taken
  | controlWake =>
    simp only [step] at taken
    split at taken
    next waits =>
      cases taken
      exact goto_inv inv (by simp [waits]) (by simp [ControlPc.locked]) trivial
    next => cases taken

theorem poolCreate_inv (nbThreads : Nat) : Inv (poolCreate nbThreads) := by
  have new : ∀ (i : Nat) w, (poolCreate nbThreads).workers[i]? = some w → i < nbThreads ∧ w = .new := by
    intro i w here
    simp only [poolCreate, List.getElem?_replicate] at here
    split at here
    next small =>
      cases here
      exact ⟨small, rfl⟩
    next => cases here
  refine ⟨?_, ?_, ?_, ?_, rfl, ?_, trivial, ?_⟩
  · intro i w here
    rw [(new i w here).2]
    exact ⟨rfl, rfl⟩
  · simp [poolCreate, List.countP_replicate, Worker.new, Worker.alive]
  · intro i w here locked
    rw [(new i w here).2] at locked
    cases locked
  · simp [poolCreate, ControlPc.locked]
  · intro i w here _
    simpa [poolCreate] using (new i w here).1
  · simp [poolCreate]

/-- The life of the workers as it should be. -/
structure Orderly (s : State) : Prop where
  counted : s.nbAliveThreads = s.workers.countP Worker.alive
  once : ∀ w ∈ s.workers, w.cleanups ≤ 1 ∧ (w.pc = .exited → w.cleanups = 1)
  /-- nobody unlocked the mutex, or ran `worker_cleanup`, without holding it -/
  disciplined : s.misuse = false
  freed : s.freed = true → ∀ w ∈ s.workers, w.pc = .exited

theorem inv_orderly (inv : Inv s) : Orderly s := by
  refine ⟨inv.counted, ?_, inv.disciplined, ?_⟩
  · intro w member
    obtain ⟨i, here⟩ := List.mem_iff_getElem?.mp member
    have counts := inv.counts i w here
    unfold Worker.Counts at counts
    split at counts <;> simp_all
  · intro freed w member
    obtain ⟨i, here⟩ := List.mem_iff_getElem?.mp member
    -- Every thread that has not exited is in a slot, and all slots were joined.
    by_contra going
    obtain ⟨slot, at_⟩ := List.mem_iff_getElem?.mp (inv.slotted i w here going)
    obtain ⟨bound, _⟩ := List.getElem?_eq_some_iff.mp at_
    have joined := inv.control
    rw [inv.freed freed] at joined
    obtain ⟨k, v, slotted, there, exited⟩ := joinable_iff.mp (joined slot bound)
    cases at_.symm.trans slotted
    cases here.symm.trans there
    exact going exited

/-- In every state that the workers, successive calls of `pool_kill` and the final `pool_destroy`
can reach, with cancellations acted upon at any cancellation point. -/
theorem workers_orderly (nbThreads : Nat) (es : List Event) (s : State)
    (ran : exec step (poolCreate nbThreads) es = some s) : Orderly s := by
  have inv : Inv s :=
    exec_invariant_all Inv (fun _ _ _ inv taken => step_inv inv taken) (poolCreate_inv nbThreads) ran
  exact inv_orderly inv

/-- One of two workers is killed in its job and replaced; then the pool is destroyed, and the
replacement starts only after `nb_alive_threads` has reached 0. -/
def killAndDestroy : List Event :=
  [.queue, .run 0, .run 0, .run 0, .run 0, .run 1, .run 1, .run 1,
    .kill 0, .control, .control, .control, .die 0, .run 0, .run 0, .run 0, .control, .control, .control,
    .destroy, .control, .control, .control, .control, .control, .control, .die 1, .run 1, .run 1, .run 1,
    .controlWake, .control, .control, .run 2, .run 2, .run 2, .run 2, .run 2,
    .control, .control, .control, .control]

theorem killAndDestroy_orderly : ∃ s, exec step (poolCreate 2) killAndDestroy = some s ∧ Orderly s ∧
    s.freed = true ∧ s.workers.length = 3 :=
  ⟨_, rfl, workers_orderly 2 killAndDestroy _ rfl, rfl, rfl⟩

end Pire2Pire.ThreadPool.Workers
