import Pire2Pire.Requests.Lifetime

/-! The thread that the cleanup of a connection kills is the one that executes the request, in every run.

A worker whose request is freed before it takes `req_lock` for it never gets any further. The proof replaces it by a
worker that has not dequeued the request, and so falls back on the invariant of `Ownership`. -/
namespace Pire2Pire.Requests

open Pire2Pire.Library

variable {s t : State} {place : Nat → Place} {r c w : Nat} {x : Worker} {y : Request} {v : Heap Worker} {limit : Int}

/-! ### What the cleanup may kill -/

/-- The thread is in the handler of the request, or waits for `req_lock` behind it. -/
def Executing (s : State) (r : Nat) (p : Pool) (w : Nat) : Prop :=
  w ∈ s.threads p ∧ ∃ x, s.workers w = some x ∧ x.pool = p ∧ (x.pc = .running r ∨ x.pc = .finishing r)

/-- Whenever the cleanup calls `pool_kill` for a request, the thread recorded in it executes the request, and so does
the thread that `pool_kill` then cancels. -/
structure PreciseKills (s : State) : Prop where
  called : ∀ c r rest y, s.conns c = .cleaning (r :: rest) → s.reqs r = some y → y.assigned = true →
    ∃ w, y.tid = some w ∧ Executing s r y.pool w
  cancels : ∀ c r p i rest, s.conns c = .cancelling r p i rest →
    ∃ y w, s.reqs r = some y ∧ y.pool = p ∧ y.tid = some w ∧ (s.threads p)[i]? = some w ∧ Executing s r p w

/-- While the connection thread has the lock of its client, no worker is in a critical section for that client. -/
theorem running_executing {p : Pool} (inv : Inv s place) (locked : (s.conns c).locks = true)
    (unjoined : ∀ i rest, s.conns c ≠ .joining r p i rest) (held : place r = .running c p w) : Executing s r p w := by
  obtain ⟨x, here, samePool⟩ := inv.workers.runs held unjoined
  obtain ⟨x', here', position⟩ := inv.workers.running r c p w held
  cases here.symm.trans here'
  have free : x.pc.locks ≠ some r := by
    intro locks
    rw [inv.locks.outside here locks held rfl] at locked
    cases locked
  refine ⟨samePool ▸ inv.workers.member w x here, x, here, samePool, ?_⟩
  -- the other positions have the lock, or have been cancelled and wait for the join
  rcases position with running | walking | finishing | unlinking | ⟨-, i, rest, joining⟩
  · exact .inl running
  · exact absurd (by rw [walking, WorkerPc.locks]) free
  · exact .inr finishing
  · exact absurd (by rw [unlinking, WorkerPc.locks]) free
  · exact absurd joining (unjoined i rest)

theorem inv_preciseKills (inv : Inv s place) : PreciseKills s := by
  constructor
  · intro c r rest y pc cell assigned
    obtain ⟨w, x, held, tid, -, -⟩ := cleaning_running inv pc cell assigned
    exact ⟨w, tid, running_executing inv (by rw [pc]; rfl) (by simp [pc]) held⟩
  · intro c r p i rest pc
    have fits := inv.conns.fits c
    rw [pc] at fits
    obtain ⟨w, held, slot⟩ := fits
    obtain ⟨y, cell, -, -, pool, tid⟩ := inv.objects.present held rfl
    exact ⟨y, w, cell, pool, tid, slot, running_executing inv (by rw [pc]; rfl) (by simp [pc]) held⟩

/-! ### Workers that are left behind -/

/-- The state with other workers and without the mark of a fault. -/
def State.withWorkers (s : State) (v : Heap Worker) : State :=
  { s with fault := false, workers := v }

/-- The flush of the request has found nothing: it is freed, or its connection thread is about to free it. -/
def Missed (s : State) (r : Nat) : Prop :=
  0 < s.frees r ∨ ∃ c rest, s.conns c = .releasing r rest

/-- Every worker is the same, or it has dequeued a missed request while its counterpart is idle. -/
def Covers (s : State) (v : Heap Worker) : Prop :=
  ∀ w, s.workers w = v w ∨ ∃ x r, s.workers w = some x ∧ x.pc = .got r ∧ v w = some { x with pc := .idle } ∧ Missed s r

/-- Putting a dequeued request back. -/
theorem undequeue_inv (inv : Inv s place) (here : s.workers w = some x) (pc : x.pc = .got r) :
    ∃ c, Inv ((s.setQueue x.pool (r :: s.queues x.pool)).workerGoto w x .idle)
      (Function.update place r (.queued c x.pool)) := by
  obtain ⟨sound, objects, queues, lists, workers, conns, locks⟩ := inv
  obtain ⟨c, taken⟩ := workers.fits_at here pc
  obtain ⟨y, cell, fits⟩ := objects.present taken rfl
  refine ⟨c, sound, ?_, ?_, ?_, ?_, ?_, ?_⟩
  · exact objects.move taken cell fits rfl rfl
  · exact queues.put taken (by simp) (List.Perm.refl _)
  · exact lists.move taken (.queued c x.pool) rfl
  · refine workers.proceed here taken rfl (by simp [Place.holder]) trivial trivial ?_
    intro cancelled
    obtain ⟨b, i, rest, -, running⟩ := workers.marked here cancelled taken rfl
    cases running
  · exact conns.work here (conns.quiet taken (by simp) (by simp)) (by simp) (by simp)
  · exact (locks.move taken (.queued c x.pool) rfl).work rfl

/-! ### Steps with other workers -/

/-- What a step of the connection thread of `c` leaves alone: the positions of the others, and what is freed stays
freed. A request that is about to be freed is freed. -/
structure Steady (s t : State) (c : Nat) : Prop where
  others : ∀ b, b ≠ c → t.conns b = s.conns b
  frees : ∀ r, s.frees r ≤ t.frees r
  release : ∀ r rest, s.conns c = .releasing r rest → 0 < t.frees r

theorem Steady.missed (steady : Steady s t c) (missed : Missed s r) : Missed t r := by
  rcases missed with freed | ⟨b, rest, pc⟩
  · exact .inl (Nat.lt_of_lt_of_le freed (steady.frees r))
  · by_cases same : b = c
    · subst same
      exact .inl (steady.release r rest pc)
    · exact .inr ⟨b, rest, (steady.others b same).trans pc⟩

theorem steady_goto {u : State} {pc : ConnPc} (conns : u.conns = s.conns) (frees : u.frees = s.frees)
    (busy : ∀ r rest, s.conns c ≠ .releasing r rest) : Steady s (u.connGoto c pc) c := by
  refine ⟨?_, ?_, ?_⟩
  · intro b other
    simp [State.connGoto, Function.update_of_ne other, conns]
  · intro r
    simp [State.connGoto, frees]
  · intro r rest releasing
    exact absurd releasing (busy r rest)

/-- Where a thread gets in one state, it gets in another one too, to a `good` state, unless it meets an object that
does not exist. -/
def Agrees (good : State → State → Prop) (a b : Option State) : Prop :=
  ∀ t, a = some t → ∃ u, b = some u ∧ (good t u ∨ u.fault = true)

variable {good : State → State → Prop}

theorem agrees_none {b : Option State} : Agrees good none b := by
  rintro _ ⟨⟩

theorem agrees_some {u : State} (holds : good t u) : Agrees good (some t) (some u) := by
  rintro _ ⟨⟩
  exact ⟨u, rfl, .inl holds⟩

theorem useClient_agrees {b : Nat} {k k' : Client → Option State} (agrees : ∀ z, Agrees good (k z) (k' z)) :
    Agrees good (s.useClient b k) ((s.withWorkers v).useClient b k') := by
  have same : (s.withWorkers v).clients = s.clients := rfl
  simp only [State.useClient, same]
  cases s.clients b with
  | some z => exact agrees z
  | none => exact fun t _ => ⟨_, rfl, .inr rfl⟩

theorem useRequest_agrees {q : Nat} {k k' : Request → Option State} (agrees : ∀ y, Agrees good (k y) (k' y)) :
    Agrees good (s.useRequest q k) ((s.withWorkers v).useRequest q k') := by
  have same : (s.withWorkers v).reqs = s.reqs := rfl
  simp only [State.useRequest, same]
  cases s.reqs q with
  | some y => exact agrees y
  | none => exact fun t _ => ⟨_, rfl, .inr rfl⟩

theorem useRequests_agrees {rs : List Nat} {k k' : Option State} (agrees : Agrees good k k') :
    Agrees good (s.useRequests rs k) ((s.withWorkers v).useRequests rs k') := by
  have same : (s.withWorkers v).reqs = s.reqs := rfl
  simp only [State.useRequests, same]
  split
  · exact agrees
  · exact fun t _ => ⟨_, rfl, .inr rfl⟩

/-- Nothing happens to the workers in a step of a connection thread. -/
def ConnGood (s : State) (v : Heap Worker) (c : Nat) (t u : State) : Prop :=
  Steady s t c ∧ t.workers = s.workers ∧ u = t.withWorkers v

theorem agrees_goto {u : State} {pc : ConnPc} (conns : u.conns = s.conns) (frees : u.frees = s.frees)
    (workers : u.workers = s.workers) (busy : ∀ r rest, s.conns c ≠ .releasing r rest) :
    Agrees (ConnGood s v c) (some (u.connGoto c pc)) (some ((u.withWorkers v).connGoto c pc)) :=
  agrees_some ⟨steady_goto conns frees busy, workers, rfl⟩

theorem lockReq_agrees {agent : Agent} {f : Client → ConnPc} (busy : ∀ r rest, s.conns c ≠ .releasing r rest) :
    Agrees (ConnGood s v c) (s.lockReq c agent fun z t => t.connGoto c (f z))
      ((s.withWorkers v).lockReq c agent fun z t => t.connGoto c (f z)) := by
  apply useClient_agrees
  intro z
  split
  · exact agrees_goto rfl rfl rfl busy
  · exact agrees_none

/-- The steps of a connection thread apart from those of `pool_kill`. -/
theorem connStep_agrees {act : ConnAct} (cancel : act ≠ .cancel) (join : act ≠ .join)
    (replace : ∀ t, act ≠ .replace t) :
    Agrees (ConnGood s v c) (connStep limit s c act) (connStep limit (s.withWorkers v) c act) := by
  have same : (s.withWorkers v).conns = s.conns := rfl
  unfold connStep
  rw [same]
  split
  next pc => exact agrees_goto rfl rfl rfl (by simp [pc])
  next pc => exact lockReq_agrees (by simp [pc])
  next pc => exact useClient_agrees fun z => agrees_goto rfl rfl rfl (by simp [pc])
  next pc => exact agrees_goto rfl rfl rfl (by simp [pc])
  next q p pc =>
    have made : (s.withWorkers v).made = s.made := rfl
    rw [made]
    split
    · exact agrees_goto rfl rfl rfl (by simp [pc])
    · exact agrees_none
  next q pc => exact lockReq_agrees (by simp [pc])
  next q pc =>
    exact useClient_agrees fun z => useRequest_agrees fun y => useRequests_agrees
      (agrees_goto rfl rfl rfl (by simp [pc]))
  next q queued pc =>
    apply useRequest_agrees
    intro y
    cases queued with
    | true => exact agrees_goto rfl rfl rfl (by simp [pc])
    | false => exact agrees_goto rfl rfl rfl (by simp [pc])
  next pc => exact agrees_goto rfl rfl rfl (by simp [pc])
  next pc => exact lockReq_agrees (by simp [pc])
  next q rest pc =>
    apply useRequest_agrees
    intro y
    have threads : (s.withWorkers v).threads = s.threads := rfl
    rw [threads]
    split
    · split <;> exact agrees_goto rfl rfl rfl (by simp [pc])
    · exact agrees_goto rfl rfl rfl (by simp [pc])
  next => exact absurd rfl cancel
  next => exact absurd rfl join
  next t _ => exact absurd rfl (replace t)
  next q rest pc =>
    apply useRequest_agrees
    intro y
    refine agrees_some ⟨⟨?_, ?_, ?_⟩, rfl, rfl⟩
    · intro b other
      simp [State.connGoto, State.freeRequest, Function.update_of_ne other]
    · intro r
      by_cases same : r = q
      · simp [State.connGoto, State.freeRequest, same]
      · simp [State.connGoto, State.freeRequest, Function.update_of_ne same]
    · intro r rest' releasing
      rw [pc] at releasing
      cases releasing
      simp [State.connGoto, State.freeRequest]
  next pc => exact useClient_agrees fun z => agrees_goto rfl rfl rfl (by simp [pc])
  next pc => exact useClient_agrees fun z => agrees_goto rfl rfl rfl (by simp [pc])
  next => exact agrees_none

/-- Only the worker itself is changed by one of its steps. -/
def WorkerGood (s : State) (v : Heap Worker) (w : Nat) (t u : State) : Prop :=
  (∃ o, t.workers = Function.update s.workers w o ∧ u = t.withWorkers (Function.update v w o)) ∧
    t.conns = s.conns ∧ ∀ r, s.frees r ≤ t.frees r

theorem agrees_workerGoto {u : State} {pc : WorkerPc} (workers : u.workers = s.workers) (conns : u.conns = s.conns)
    (frees : ∀ r, s.frees r ≤ u.frees r) :
    Agrees (WorkerGood s v w) (some (u.workerGoto w x pc)) (some ((u.withWorkers v).workerGoto w x pc)) :=
  agrees_some ⟨⟨some { x with pc := pc }, by rw [← workers]; rfl, rfl⟩, conns, frees⟩

theorem agrees_stay (here : s.workers w = v w) : Agrees (WorkerGood s v w) (some s) (some (s.withWorkers v)) :=
  agrees_some ⟨⟨s.workers w, (Function.update_eq_self ..).symm, by rw [here, Function.update_eq_self]⟩, rfl,
    fun _ => Nat.le_refl _⟩

theorem waitReq_agrees {pc : WorkerPc} :
    Agrees (WorkerGood s v w) (s.waitReq w x r pc) ((s.withWorkers v).waitReq w x r pc) := by
  apply useRequest_agrees
  intro y
  apply useClient_agrees
  intro z
  split
  · exact agrees_workerGoto rfl rfl fun _ => Nat.le_refl _
  · exact agrees_none

/-- The steps of a worker that is the same on both sides. -/
theorem workerStep_agrees {act : WorkerAct} (here : s.workers w = v w) :
    Agrees (WorkerGood s v w) (workerStep s w act) (workerStep (s.withWorkers v) w act) := by
  have same : (s.withWorkers v).workers w = s.workers w := here.symm
  have queues : (s.withWorkers v).queues = s.queues := rfl
  unfold workerStep
  rw [same, queues]
  split
  next => exact agrees_none
  next x _ =>
  split
  next =>
    split
    · exact agrees_workerGoto rfl rfl fun _ => Nat.le_refl _
    · exact agrees_none
  next => exact waitReq_agrees
  next =>
    exact useRequest_agrees fun y => useClient_agrees fun z => agrees_workerGoto rfl rfl fun _ => Nat.le_refl _
  next => exact useRequest_agrees fun y => useClient_agrees fun z => agrees_stay here
  next => exact waitReq_agrees
  next => exact useRequest_agrees fun y => useClient_agrees fun z => useRequests_agrees (agrees_stay here)
  next =>
    exact useRequest_agrees fun y => useClient_agrees fun z => agrees_workerGoto rfl rfl fun _ => Nat.le_refl _
  next => exact agrees_workerGoto rfl rfl fun _ => Nat.le_refl _
  next => exact waitReq_agrees
  next r _ =>
    apply useRequest_agrees
    intro y
    apply useClient_agrees
    intro z
    split
    · exact useRequests_agrees (agrees_workerGoto rfl rfl fun _ => Nat.le_refl _)
    · exact fun t _ => ⟨_, rfl, .inr rfl⟩
  next r _ =>
    apply useRequest_agrees
    intro y
    refine agrees_workerGoto rfl rfl ?_
    intro q
    by_cases freed : q = r
    · simp [State.freeRequest, freed]
    · simp [State.freeRequest, Function.update_of_ne freed]
  next =>
    split
    · exact agrees_workerGoto rfl rfl fun _ => Nat.le_refl _
    · exact agrees_none
  next => exact agrees_none

/-! ### Every run -/

/-- With workers that are not left behind the state keeps the invariant. -/
def Covered (s : State) : Prop :=
  ∃ place v, Inv (s.withWorkers v) place ∧ Covers s v

theorem Covers.same (covers : Covers s v) (workers : t.workers = s.workers)
    (missed : ∀ r, Missed s r → Missed t r) : Covers t v := by
  intro w
  rw [workers]
  refine (covers w).imp id ?_
  rintro ⟨x, r, here, pc, idle, gone⟩
  exact ⟨x, r, here, pc, idle, missed r gone⟩

theorem Covers.update {o : Option Worker} (covers : Covers s v) (workers : t.workers = Function.update s.workers w o)
    (missed : ∀ r, Missed s r → Missed t r) : Covers t (Function.update v w o) := by
  intro w'
  rw [workers]
  by_cases same : w' = w
  · subst same
    simp
  · rw [Function.update_of_ne same, Function.update_of_ne same]
    refine (covers w').imp id ?_
    rintro ⟨x, r, here, pc, idle, gone⟩
    exact ⟨x, r, here, pc, idle, missed r gone⟩

/-- A worker that is not idle is not left behind. -/
theorem Covers.busy (covers : Covers s v) (here : v w = some x) (busy : x.pc ≠ .idle) : s.workers w = some x := by
  rcases covers w with same | ⟨x', r, -, -, idle, -⟩
  · rw [same, here]
  · cases Option.some.inj (here.symm.trans idle)
    exact absurd rfl busy

/-- A flush that finds nothing because a worker has the request leaves that worker behind. -/
theorem flush_covered {rest : List Nat} (inv : Inv (s.withWorkers v) place) (covers : Covers s v)
    (pc : s.conns c = .cleaning (r :: rest)) (cell : s.reqs r = some y) (unassigned : y.assigned = false)
    (here : v w = some x) (got : x.pc = .got r) :
    Covered ((s.setQueue y.pool ((s.queues y.pool).filter (· ≠ r))).connGoto c (.releasing r rest)) := by
  obtain ⟨b, back⟩ := undequeue_inv inv here got
  have samePool : x.pool = y.pool := by
    have fits := inv.objects.fits r y cell
    obtain ⟨b', taken⟩ := inv.workers.fits_at here got
    rw [taken] at fits
    exact fits.2.2.symm
  -- no worker has the request once it is back in the queue
  obtain ⟨place', flushed⟩ := flush_inv back pc cell unassigned (by
    intro w' x' here' got'
    have fits := back.workers.fits w' x' here'
    rw [got'] at fits
    obtain ⟨b', taken⟩ := fits
    simp at taken)
  have steady : Steady s ((s.setQueue y.pool ((s.queues y.pool).filter (· ≠ r))).connGoto c (.releasing r rest)) c :=
    steady_goto rfl rfl (by simp [pc])
  have kept : Covers ((s.setQueue y.pool ((s.queues y.pool).filter (· ≠ r))).connGoto c (.releasing r rest)) v :=
    covers.same rfl fun q => steady.missed
  refine ⟨place', v.set w { x with pc := .idle }, ?_, ?_⟩
  · rw [← samePool] at flushed ⊢
    simpa [State.withWorkers, State.connGoto, State.setQueue, State.workerGoto] using flushed
  · intro w'
    by_cases same : w' = w
    · subst same
      have own := covers.busy here (by simp [got])
      exact .inr ⟨x, r, own, got, Heap.set_here .., .inr ⟨c, rest, by simp [State.connGoto]⟩⟩
    · rw [Heap.set_other _ _ same]
      exact kept w'

/-- A step of `pool_kill` changes the state of one thread. -/
theorem steady_update {u : State} {pc : ConnPc} {o : Option Worker} (covers : Covers s v)
    (conns : u.conns = s.conns) (frees : u.frees = s.frees) (workers : u.workers = Function.update s.workers w o)
    (busy : ∀ r rest, s.conns c ≠ .releasing r rest) : Covers (u.connGoto c pc) (Function.update v w o) :=
  covers.update workers fun _ => (steady_goto conns frees busy).missed

theorem cancel_covered (inv : Inv (s.withWorkers v) place) (covers : Covers s v)
    (taken : connStep limit s c .cancel = some t) :
    ∃ v', connStep limit (s.withWorkers v) c .cancel = some (t.withWorkers v') ∧ Covers t v' := by
  cases pc : s.conns c with
  | cancelling r p i rest =>
    simp only [connStep, pc, Option.some.injEq] at taken
    subst taken
    -- the thread runs the request, so it is not one of those left behind
    obtain ⟨w, held, slot⟩ : ∃ w, place r = .running c p w ∧ (s.threads p)[i]? = some w := by
      have position : (s.withWorkers v).conns c = .cancelling r p i rest := pc
      have fits := inv.conns.fits c
      rw [position] at fits
      exact fits
    obtain ⟨x, here, position⟩ := inv.workers.running r c p w held
    have here : v w = some x := here
    have own := covers.busy here (by rintro idle; simp [idle] at position)
    have cancelled : s.cancel p i = { s with workers := s.workers.set w { x with cancelled := true } } := by
      simp [State.cancel, slot, own]
    refine ⟨v.set w { x with cancelled := true }, ?_, ?_⟩
    · simp [connStep, State.cancel, State.withWorkers, State.connGoto, slot, own, here, pc]
    · rw [cancelled]
      exact steady_update covers rfl rfl rfl (by simp [pc])
  | _ => simp [connStep, pc] at taken

theorem join_covered (covers : Covers s v) (taken : connStep limit s c .join = some t) :
    ∃ v', connStep limit (s.withWorkers v) c .join = some (t.withWorkers v') ∧ Covers t v' := by
  cases pc : s.conns c with
  | joining r p i rest =>
    simp only [connStep, pc, Option.map_eq_some_iff] at taken
    obtain ⟨u, joined, rfl⟩ := taken
    unfold State.join at joined
    split at joined
    next => cases joined
    next w slot =>
      split at joined
      next x here =>
        split at joined
        next ended =>
          cases joined
          -- a thread that is left behind does not end
          have same : v w = some x := by
            rcases covers w with same | ⟨x', q, here', got, -, -⟩
            · rw [← same, here]
            · cases Option.some.inj (here.symm.trans here')
              simp [ended] at got
          refine ⟨v.free w, ?_, steady_update covers rfl rfl rfl (by simp [pc])⟩
          simp [connStep, State.join, State.withWorkers, State.connGoto, slot, same, ended, pc]
        next => cases joined
      next => cases joined
  | _ => simp [connStep, pc] at taken

theorem replace_covered {new : Nat} (covers : Covers s v) (taken : connStep limit s c (.replace new) = some t) :
    ∃ v', connStep limit (s.withWorkers v) c (.replace new) = some (t.withWorkers v') ∧ Covers t v' := by
  cases pc : s.conns c with
  | replacing r p i rest =>
    simp only [connStep, pc, Option.map_eq_some_iff] at taken
    obtain ⟨u, replaced, rfl⟩ := taken
    unfold State.replace at replaced
    split at replaced
    next free =>
      cases replaced
      have same : v new = none := by
        rcases covers new with same | ⟨x', q, here', -, -, -⟩
        · rw [← same, free.1]
        · simp [free.1] at here'
      refine ⟨v.set new ⟨p, .idle, false⟩, ?_, steady_update covers rfl rfl rfl (by simp [pc])⟩
      simp [connStep, State.replace, State.withWorkers, State.connGoto, same, free.2, pc]
    next => cases replaced
  | _ => simp [connStep, pc] at taken

/-- The steps of `pool_kill` find the same thread on both sides. -/
theorem poolKill_covered {act : ConnAct} (inv : Inv (s.withWorkers v) place) (covers : Covers s v)
    (kills : act = .cancel ∨ act = .join ∨ ∃ new, act = .replace new) (taken : connStep limit s c act = some t) :
    ∃ v', connStep limit (s.withWorkers v) c act = some (t.withWorkers v') ∧ Covers t v' := by
  rcases kills with rfl | rfl | ⟨new, rfl⟩
  · exact cancel_covered inv covers taken
  · exact join_covered covers taken
  · exact replace_covered covers taken

/-- The only step that is not spared is a flush of a request that a worker has dequeued. -/
theorem not_spares {act : ConnAct} (unspared : ¬ Spares s (.conn c act)) :
    act = .clean ∧ ∃ r rest y w x, s.conns c = .cleaning (r :: rest) ∧ s.reqs r = some y ∧ y.assigned = false ∧
      s.workers w = some x ∧ x.pc = .got r := by
  cases act with
  | clean =>
    cases pc : s.conns c with
    | cleaning visiting =>
      cases visiting with
      | nil => simp [Spares, pc] at unspared
      | cons r rest =>
        simp only [Spares, pc, Unclaimed, Option.mem_def, ne_eq, Option.map_eq_some_iff, not_forall,
          not_not] at unspared
        obtain ⟨y, cell, unassigned, w, -, x, here, got⟩ := unspared
        exact ⟨rfl, r, rest, y, w, x, rfl, cell, unassigned, here, got⟩
    | _ => simp [Spares, pc] at unspared
  | _ => simp [Spares] at unspared

theorem connStep_covered {act : ConnAct} (covered : Covered s) (taken : connStep limit s c act = some t) :
    Covered t := by
  obtain ⟨place, v, inv, covers⟩ := covered
  -- once the other state takes the step as well, its invariant is that of `Ownership`
  by_cases spares : Spares (s.withWorkers v) (.conn c act)
  · by_cases kills : act = .cancel ∨ act = .join ∨ ∃ new, act = .replace new
    · obtain ⟨v', taken', covers'⟩ := poolKill_covered inv covers kills taken
      obtain ⟨place', inv'⟩ := connStep_inv inv spares taken'
      exact ⟨place', v', inv', covers'⟩
    · simp only [not_or, not_exists] at kills
      obtain ⟨u, taken', good⟩ := connStep_agrees kills.1 kills.2.1 kills.2.2 t taken
      obtain ⟨place', inv'⟩ := connStep_inv inv spares taken'
      rcases good with ⟨steady, workers, rfl⟩ | fault
      · exact ⟨place', v, inv', covers.same workers fun r => steady.missed⟩
      · simp [inv'.sound] at fault
  · obtain ⟨rfl, r, rest, y, w, x, pc, cell, unassigned, here, got⟩ := not_spares spares
    have pc : s.conns c = .cleaning (r :: rest) := pc
    have cell : s.reqs r = some y := cell
    simp only [connStep, pc, State.clean, State.useRequest, cell, unassigned, Bool.false_eq_true, if_false,
      Option.some.injEq] at taken
    subst taken
    exact flush_covered inv covers pc cell unassigned here got

/-- A worker that is left behind cannot take the lock of the client, and is not cancelled. -/
theorem left_behind {act : WorkerAct} (inv : Inv (s.withWorkers v) place) (here : s.workers w = some x)
    (got : x.pc = .got r) (idle : v w = some { x with pc := .idle }) (missed : Missed s r)
    (taken : workerStep s w act = some t) : t = { s with fault := true } := by
  have frees := inv.objects.frees r
  have absent := inv.objects.fits r
  cases act with
  | wait =>
    simp only [workerStep, here, got, State.waitReq, State.useRequest] at taken
    cases cell : s.reqs r with
    | none =>
      simp only [cell, Option.some.injEq] at taken
      exact taken.symm
    | some y =>
      have fits := inv.objects.fits r y cell
      rcases missed with freed | ⟨c, rest, pc⟩
      -- what is freed is not allocated
      · have frees : s.frees r = (place r).timesFreed := frees
        rw [frees] at freed
        cases placed : place r <;> simp_all [Place.timesFreed, Place.Fits]
      · have connFits := inv.conns.fits c
        have pc : (s.withWorkers v).conns c = .releasing r rest := pc
        rw [pc] at connFits
        have released : place r = .released c := connFits
        rw [released] at fits
        obtain ⟨z, client, locked⟩ := inv.locks.conn c (by rw [pc]; rfl)
        have client : s.clients c = some z := client
        have own : y.client = c := fits
        simp [cell, State.lockReq, State.useClient, own, client, locked] at taken
  | die =>
    simp only [workerStep, here, got] at taken
    split at taken
    next marked =>
      -- a cancelled thread has a request
      obtain ⟨q, c, i, rest, joining, held⟩ := inv.workers.cancelled w _ idle marked.1
      exact absurd held (fun held => inv.workers.idle idle rfl q (by rw [held]; rfl))
    next => cases taken
  | _ => simp [workerStep, here, got] at taken

theorem workerStep_covered {act : WorkerAct} (covered : Covered s) (taken : workerStep s w act = some t) :
    Covered t := by
  obtain ⟨place, v, inv, covers⟩ := covered
  rcases covers w with same | ⟨x, r, here, got, idle, missed⟩
  · obtain ⟨u, taken', good⟩ := workerStep_agrees same t taken
    obtain ⟨place', inv'⟩ := workerStep_inv inv taken'
    rcases good with ⟨⟨o, workers, rfl⟩, conns, frees⟩ | fault
    · refine ⟨place', _, inv', covers.update workers ?_⟩
      intro r missed
      exact missed.imp (fun freed => Nat.lt_of_lt_of_le freed (frees r)) (by rw [conns]; exact id)
    · simp [inv'.sound] at fault
  · have faulted := left_behind inv here got idle missed taken
    subst faulted
    exact ⟨place, v, inv, covers⟩

theorem covered_preciseKills (covered : Covered s) : PreciseKills s := by
  obtain ⟨place, v, inv, covers⟩ := covered
  obtain ⟨called, cancels⟩ := inv_preciseKills inv
  -- a worker that executes a request is the same on both sides
  have executes : ∀ r p w, Executing (s.withWorkers v) r p w → Executing s r p w := by
    rintro r p w ⟨member, x, here, pool, position⟩
    have busy : x.pc ≠ .idle := by
      rcases position with running | finishing
      · simp [running]
      · simp [finishing]
    exact ⟨member, x, covers.busy here busy, pool, position⟩
  constructor
  · intro c r rest y pc cell assigned
    obtain ⟨w, tid, executing⟩ := called c r rest y pc cell assigned
    exact ⟨w, tid, executes r y.pool w executing⟩
  · intro c r p i rest pc
    obtain ⟨y, w, cell, pool, tid, slot, executing⟩ := cancels c r p i rest pc
    exact ⟨y, w, cell, pool, tid, slot, executes r p w executing⟩

/-- A worker has started a request when the client disconnects, and another one has only dequeued a second request of
the same client. -/
def killing : List Event :=
  submit ++ [.worker 1 .dequeue, .worker 1 .wait, .worker 1 .assign, .conn 0 .readLine, .conn 0 .check,
    .conn 0 (.create (some 6) .slow), .conn 0 .lock, .conn 0 .link, .conn 0 (.queue true), .worker 2 .dequeue,
    .conn 0 .hangUp, .conn 0 .lock, .conn 0 .clean, .conn 0 .release, .worker 2 .wait]

end Pire2Pire.Requests
