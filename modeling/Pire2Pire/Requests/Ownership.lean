import Pire2Pire.Requests.Places

/-! What every step of a thread does to the places of the requests: the invariant has a part for each kind of object,
and a step has a line for each part. -/
namespace Pire2Pire.Requests

open Pire2Pire.Library

variable {s t : State} {place : Nat → Place} {r c w : Nat} {workers : Heap Worker} {threads : Pool → List Nat}
  {conns : Nat → ConnPc} {x : Worker} {y : Request} {z : Client}

/-! ### The steps of a worker -/

theorem dequeue_inv {rest : List Nat} (inv : Inv s place) (here : s.workers w = some x)
    (pc : x.pc = .idle) (queue : s.queues x.pool = r :: rest) :
    ∃ place', Inv ((s.setQueue x.pool rest).workerGoto w x (.got r)) place' := by
  obtain ⟨sound, objects, queues, lists, workers, conns, locks⟩ := inv
  have unheld := workers.idle here pc
  have once := queues.once x.pool
  rw [queue, List.nodup_cons] at once
  -- what is in a queue has that place, whoever made it
  obtain ⟨c, waits⟩ : ∃ c, place r = .queued c x.pool := (queues.queued x.pool r).mp (by simp [queue])
  obtain ⟨y, cell, fits⟩ := objects.present waits rfl
  refine ⟨Function.update place r (.taken c x.pool w), sound, ?_, ?_, ?_, ?_, ?_, ?_⟩
  · exact objects.move waits cell fits rfl rfl
  · refine queues.drop ?_ once.2 ?_ (by simp)
    · intro q
      rw [queue, List.mem_cons]
      constructor
      · intro member
        exact ⟨.inr member, fun same => once.1 (same ▸ member)⟩
      · rintro ⟨first | member, other⟩
        · exact absurd first other
        · exact member
    · intro b p placed
      cases waits.symm.trans placed
      rfl
  · exact lists.move waits (.taken c x.pool w) rfl
  · refine workers.work here ?_ ?_ ?_ ⟨c, Function.update_self _ _ _⟩ (.inl rfl) ?_
    · intro q held
      exact absurd held (unheld q)
    · simp [waits, Place.holder]
    · simp [Place.holder]
    · intro cancelled
      obtain ⟨q, b, i, rest', -, held⟩ := workers.cancelled w x here cancelled
      exact absurd (by rw [held, Place.holder]) (unheld q)
  · exact conns.work here (conns.quiet waits (by simp) (by simp)) (by simp) (by simp)
  · exact (locks.move waits (.taken c x.pool w) rfl).work rfl

/-- Taking `req_lock` for the request of a worker. -/
theorem waitReq_inv {pc : WorkerPc} (inv : Inv s place) (here : s.workers w = some x)
    (before : x.pc = .got r ∧ pc = .assigning r ∨
      x.pc = .running r ∧ pc = .walking r ∨ x.pc = .finishing r ∧ pc = .unlinking r)
    (cell : s.reqs r = some y) (client : s.clients y.client = some z) (free : z.reqLock = none) :
    Inv ((s.setClient y.client { z with reqLock := some (.worker w) }).workerGoto w x pc) place := by
  obtain ⟨sound, objects, queues, lists, workers, conns, locks⟩ := inv
  -- the request stays with the worker
  obtain ⟨held, stays, position, locked⟩ : (place r).holder = some w ∧ pc.Fits place w x.pool ∧
      (place r).At r pc ∧ pc.locks = some r := by
    rcases before with ⟨got, rfl⟩ | ⟨runs, rfl⟩ | ⟨finishes, rfl⟩
    · obtain ⟨c, taken⟩ := workers.fits_at here got
      rw [taken]
      exact ⟨rfl, ⟨c, taken⟩, .inr rfl, rfl⟩
    · obtain ⟨c, running⟩ := workers.fits_at here runs
      rw [running]
      exact ⟨rfl, ⟨c, running⟩, .inr (.inl rfl), rfl⟩
    · obtain ⟨c, running⟩ := workers.fits_at here finishes
      rw [running]
      exact ⟨rfl, ⟨c, running⟩, .inr (.inr (.inr rfl)), rfl⟩
  refine ⟨sound, objects, queues, lists.relock _ client rfl, workers.advance here rfl held stays position,
    conns.advance here, locks.acquire client free rfl ?_⟩
  -- the lock is that of the client that made it
  intro q locks'
  cases locked.symm.trans locks'
  exact (objects.fits r y cell).maker

theorem assign_inv (inv : Inv s place) (here : s.workers w = some x)
    (pc : x.pc = .assigning r) (cell : s.reqs r = some y) (client : s.clients y.client = some z) :
    ∃ place', Inv (({ s with reqs := s.reqs.set r { y with tid := some w, assigned := true } }.setClient y.client
      { z with nbRequests := z.nbRequests + 1, reqLock := none }).workerGoto w x (.running r)) place' := by
  obtain ⟨sound, objects, queues, lists, workers, conns, locks⟩ := inv
  obtain ⟨c, taken⟩ := workers.fits_at here pc
  obtain ⟨rfl, -, pool⟩ := objects.fits_at taken cell
  have maker : s.made r = some y.client := by rw [objects.made, taken, Place.maker]
  have unfreed : s.frees r = 0 := by
    rw [objects.frees, taken]
    rfl
  have relocked := lists.relock { z with nbRequests := z.nbRequests + 1, reqLock := none } client rfl
  -- `assigned` is set under the lock, together with the counter
  refine ⟨Function.update place r (.running y.client x.pool w), sound, ?_, ?_, ?_, ?_, ?_, ?_⟩
  · exact objects.set _ ⟨rfl, rfl, pool, rfl⟩ (fun _ _ => rfl) maker unfreed
  · exact queues.move taken (by simp) (by simp)
  · exact relocked.move taken (.running y.client x.pool w) rfl
  · refine workers.proceed here taken rfl (by simp [Place.holder]) ⟨y.client, Function.update_self _ _ _⟩ (.inl rfl) ?_
    intro cancelled
    obtain ⟨b, i, rest, -, running⟩ := workers.marked here cancelled taken rfl
    cases running
  · exact conns.work here (conns.quiet taken (by simp) (by simp)) (by simp) (by simp)
  · exact (locks.move taken (.running y.client x.pool w) rfl).yield here (by rw [pc]; rfl)
      (Function.update_self _ _ _) rfl rfl

theorem post_inv (inv : Inv s place) (here : s.workers w = some x)
    (pc : x.pc = .walking r) (cell : s.reqs r = some y) (client : s.clients y.client = some z) :
    Inv ((s.setClient y.client { z with reqLock := none }).workerGoto w x (.running r)) place := by
  obtain ⟨sound, objects, queues, lists, workers, conns, locks⟩ := inv
  obtain ⟨c, running⟩ := workers.fits_at here pc
  obtain ⟨rfl, -⟩ := objects.fits_at running cell
  exact ⟨sound, objects, queues, lists.relock _ client rfl,
    workers.advance here running rfl ⟨y.client, running⟩ (.inl rfl), conns.advance here,
    locks.yield here (by rw [pc]; rfl) running rfl rfl⟩

theorem finish_inv (inv : Inv s place) (here : s.workers w = some x) (pc : x.pc = .running r) :
    Inv (s.workerGoto w x (.finishing r)) place := by
  obtain ⟨sound, objects, queues, lists, workers, conns, locks⟩ := inv
  obtain ⟨c, running⟩ := workers.fits_at here pc
  exact ⟨sound, objects, queues, lists, workers.advance here running rfl ⟨c, running⟩ (.inr (.inr (.inl rfl))),
    conns.advance here, locks.work rfl⟩

theorem unlink_inv (inv : Inv s place) (here : s.workers w = some x)
    (pc : x.pc = .unlinking r) (cell : s.reqs r = some y) (client : s.clients y.client = some z) :
    ∃ place', Inv ((s.setClient y.client
          { requests := z.requests.erase r, nbRequests := z.nbRequests - 1, reqLock := none }).workerGoto
            w x (.freeing r)) place' := by
  obtain ⟨sound, objects, queues, lists, workers, conns, locks⟩ := inv
  obtain ⟨c, running⟩ := workers.fits_at here pc
  obtain ⟨rfl, -⟩ := objects.fits_at running cell
  have locked : x.pc.locks = some r := by rw [pc, WorkerPc.locks]
  have outside : (s.conns y.client).locks = false := locks.outside here locked running rfl
  -- the connection thread that would wait for the worker does not have the lock
  have unjoined : ∀ b, (s.conns b).locks = true → ∀ p v, Place.running y.client x.pool w ≠ .running b p v := by
    intro b locks' p v same
    cases same
    cases outside.symm.trans locks'
  refine ⟨Function.update place r (.unlinked y.client w), sound, ?_, ?_, ?_, ?_, ?_, ?_⟩
  · exact objects.move running cell rfl rfl rfl
  · exact queues.move running (by simp) (by simp)
  · exact lists.unlink client outside running rfl rfl rfl
  · refine workers.proceed here running rfl (by simp [Place.holder]) ⟨y.client, Function.update_self _ _ _⟩ rfl ?_
    intro cancelled
    obtain ⟨b, i, rest, joining, same⟩ := workers.marked here cancelled running rfl
    exact absurd same (unjoined b (by rw [joining]; rfl) x.pool w)
  · refine conns.work here (conns.quiet running (by simp) ?_) (by simp) (by simp)
    intro b locks'
    exact ⟨by simp, unjoined b locks'⟩
  · exact (locks.move running (.unlinked y.client w) rfl).yield here locked (Function.update_self _ _ _) rfl rfl

theorem free_inv (inv : Inv s place) (here : s.workers w = some x)
    (pc : x.pc = .freeing r) :
    ∃ place', Inv ((s.freeRequest r).workerGoto w x .idle) place' := by
  obtain ⟨sound, objects, queues, lists, workers, conns, locks⟩ := inv
  obtain ⟨c, unlinked⟩ := workers.fits_at here pc
  refine ⟨Function.update place r (.freed c), sound, ?_, ?_, ?_, ?_, ?_, ?_⟩
  · exact objects.free unlinked rfl rfl
  · exact queues.move unlinked (by simp) (by simp)
  · exact lists.move unlinked (.freed c) rfl
  · refine workers.proceed here unlinked rfl (by simp [Place.holder]) trivial trivial ?_
    intro cancelled
    obtain ⟨b, i, rest, -, running⟩ := workers.marked here cancelled unlinked rfl
    cases running
  · exact conns.work here (conns.quiet unlinked (by simp) (by simp)) (by simp) (by simp)
  · exact (locks.move unlinked (.freed c) rfl).work rfl

theorem die_inv (inv : Inv s place) (here : s.workers w = some x) (marked : x.cancelled = true) :
    Inv (s.workerGoto w x .exited) place := by
  obtain ⟨sound, objects, queues, lists, workers, conns, locks⟩ := inv
  exact ⟨sound, objects, queues, lists, workers.die here marked, conns.advance here, locks.work rfl⟩

/-! ### The steps of a connection thread -/

theorem accept_inv (inv : Inv s place) (pc : s.conns c = .unborn) :
    Inv ((s.setClient c clientNew).connGoto c .reading) place := by
  obtain ⟨sound, objects, queues, lists, workers, conns, locks⟩ := inv
  have unborn : s.clients c = none := (lists.alive c).mpr (.inl pc)
  have born : Lists (s.clients.set c clientNew) (Function.update s.conns c .reading) place := by
    refine lists.change (fun b other => Heap.set_other _ _ other) ?_ (by simp)
    rw [pc, Heap.set_here]
    rfl
  refine ⟨sound, objects, queues, born, ?_, ?_, ?_⟩
  · exact workers.goto pc (by simp)
  · exact conns.resume pc rfl trivial (by simp)
  · refine locks.unlocked rfl (fun b other => Heap.set_other _ _ other) ?_
    intro w x q there locked maker
    obtain ⟨b, y, maker', client, -⟩ := locks.worker w x q there locked
    cases maker.symm.trans maker'
    cases unborn.symm.trans client

/-- The connection thread moves on without touching anything. -/
theorem goes_inv {pc : ConnPc} (inv : Inv s place)
    (before : s.conns c = .creating ∧ pc = .reading ∨ s.conns c = .reading ∧ pc = .ended) :
    Inv (s.connGoto c pc) place := by
  obtain ⟨sound, objects, queues, lists, workers, conns, locks⟩ := inv
  rcases before with ⟨creates, rfl⟩ | ⟨reads, rfl⟩
  · exact ⟨sound, objects, queues, lists.goto creates rfl (by simp) (by simp), workers.goto creates (by simp),
      conns.resume creates rfl trivial (by simp), locks.goto creates (by simp [ConnPc.locks])⟩
  · exact ⟨sound, objects, queues, lists.goto reads rfl (by simp) (by simp), workers.goto reads (by simp),
      conns.resume reads rfl trivial (by simp), locks.goto reads (by simp [ConnPc.locks])⟩

theorem lock_inv {pc : ConnPc} (inv : Inv s place) (client : s.clients c = some z)
    (free : z.reqLock = none)
    (before : s.conns c = .reading ∧ pc = .checking ∨ s.conns c = .created r ∧ pc = .linking r ∨
      s.conns c = .ended ∧ pc = .cleaning z.requests) :
    Inv ((s.setClient c { z with reqLock := some (.conn c) }).connGoto c pc) place := by
  obtain ⟨sound, objects, queues, lists, workers, conns, locks⟩ := inv
  have relocked := lists.relock { z with reqLock := some (.conn c) } client rfl
  rcases before with ⟨reads, rfl⟩ | ⟨created, rfl⟩ | ⟨ended, rfl⟩
  · exact ⟨sound, objects, queues, relocked.goto reads rfl (by simp) (by simp), workers.goto reads (by simp),
      conns.resume reads rfl trivial (by simp), locks.take client free rfl⟩
  · have isFresh := conns.fits_at created
    refine ⟨sound, objects, queues, relocked.goto created rfl (by simp) (by simp), workers.goto created (by simp),
      conns.goto isFresh ?_ ?_ (by simp), locks.take client free rfl⟩
    -- the request is still the one that the thread is busy with
    · intro q placed
      have busy := conns.only (.inl placed)
      rw [created] at busy
      cases busy
      exact .inr rfl
    · intro q placed
      have busy := conns.only (.inr placed)
      rw [created] at busy
      cases busy
      cases isFresh.symm.trans placed
  · -- the cleanup starts with the whole list
    have whole : (ConnPc.cleaning z.requests).listed (s.clients.set c { z with reqLock := some (.conn c) } c) =
        ConnPc.ended.listed (s.clients.set c { z with reqLock := some (.conn c) } c) := by
      rw [Heap.set_here]
      rfl
    exact ⟨sound, objects, queues, relocked.goto ended whole (by simp) (by simp), workers.goto ended (by simp),
      conns.resume ended rfl trivial (by simp), locks.take client free rfl⟩

theorem unlock_inv {pc : ConnPc} (inv : Inv s place) (client : s.clients c = some z)
    (before : s.conns c = .checking ∧ (pc = .reading ∨ pc = .creating) ∨
      s.conns c = .cleaning [] ∧ pc = .unlocked) :
    Inv ((s.setClient c { z with reqLock := none }).connGoto c pc) place := by
  obtain ⟨sound, objects, queues, lists, workers, conns, locks⟩ := inv
  have relocked := lists.relock { z with reqLock := none } client rfl
  rcases before with ⟨checks, rfl | rfl⟩ | ⟨cleaned, rfl⟩
  · exact ⟨sound, objects, queues, relocked.goto checks rfl (by simp) (by simp), workers.goto checks (by simp),
      conns.resume checks rfl trivial (by simp), locks.give checks rfl rfl⟩
  · exact ⟨sound, objects, queues, relocked.goto checks rfl (by simp) (by simp), workers.goto checks (by simp),
      conns.resume checks rfl trivial (by simp), locks.give checks rfl rfl⟩
  · exact ⟨sound, objects, queues, relocked.goto cleaned rfl (by simp) (by simp), workers.goto cleaned (by simp),
      conns.resume cleaned rfl trivial (by simp), locks.give cleaned rfl rfl⟩

theorem create_inv {p : Pool} (inv : Inv s place) (pc : s.conns c = .creating)
    (unmade : s.made r = none) :
    ∃ place', Inv ({ s with reqs := s.reqs.set r (clientRequestNew c p), made := s.made.set r c }.connGoto c
      (.created r)) place' := by
  obtain ⟨sound, objects, queues, lists, workers, conns, locks⟩ := inv
  -- memory that `malloc` has never returned has no place yet
  have nowhere : place r = .unmade := by
    have maker := objects.made r
    rw [unmade] at maker
    cases here : place r with
    | unmade => rfl
    | _ => simp [here, Place.maker] at maker
  refine ⟨Function.update place r (.fresh c), sound, ?_, ?_, ?_, ?_, ?_, ?_⟩
  · exact objects.set _ ⟨rfl, rfl⟩ (fun q other => Heap.set_other _ _ other) (Heap.set_here _ _ _)
      (by rw [objects.frees, nowhere]; rfl)
  · exact queues.move nowhere (by simp) (by simp)
  · exact (lists.move nowhere (.fresh c) rfl).goto pc rfl (by simp) (by simp)
  · exact (workers.move nowhere (.fresh c) rfl rfl).goto pc (by simp)
  · exact conns.handle pc (by simp [ConnPc.request]) nowhere (by simp [Place.maker]) rfl (Function.update_self _ _ _)
      (fun _ _ => .inl rfl) (by simp) (by simp)
  · -- no worker has it, so no worker has a lock for it
    refine Locks.goto ⟨locks.conn, ?_⟩ pc (by simp [ConnPc.locks])
    intro w x q there locked
    obtain ⟨b, y, maker, owner⟩ := locks.worker w x q there locked
    have other : q ≠ r := by
      rintro rfl
      rw [nowhere] at maker
      cases maker
    exact ⟨b, y, by rwa [Function.update_of_ne other], owner⟩

theorem link_inv (inv : Inv s place) (pc : s.conns c = .linking r) (client : s.clients c = some z) :
    ∃ place', Inv ((s.setClient c { z with requests := r :: z.requests, reqLock := none }).connGoto c
      (.queueing r)) place' := by
  obtain ⟨sound, objects, queues, lists, workers, conns, locks⟩ := inv
  have isFresh : place r = .fresh c := conns.fits_at pc
  obtain ⟨y, cell, fits⟩ := objects.cell isFresh rfl rfl
  refine ⟨Function.update place r (.waiting c), sound, ?_, ?_, ?_, ?_, ?_, ?_⟩
  · exact objects.move isFresh cell fits rfl rfl
  · exact queues.move isFresh (by simp) (by simp)
  · exact lists.push client pc isFresh rfl rfl rfl (by simp)
  · exact (workers.move isFresh (.waiting c) rfl rfl).goto pc (by simp)
  · exact conns.handle pc (by simp [ConnPc.request]) isFresh (by simp [Place.maker]) rfl (Function.update_self _ _ _)
      (by simp) (by simp) (by simp)
  · exact (locks.move isFresh (.waiting c) rfl).give pc rfl rfl

theorem queue_inv (inv : Inv s place) (pc : s.conns c = .queueing r) (cell : s.reqs r = some y) :
    ∃ place', Inv ((s.setQueue y.pool (s.queues y.pool ++ [r])).connGoto c .reading) place' := by
  obtain ⟨sound, objects, queues, lists, workers, conns, locks⟩ := inv
  have isWaiting : place r = .waiting c := conns.fits_at pc
  obtain ⟨client, unassigned⟩ := objects.fits_at isWaiting cell
  refine ⟨Function.update place r (.queued c y.pool), sound, ?_, ?_, ?_, ?_, ?_, ?_⟩
  · exact objects.move isWaiting cell ⟨client, unassigned, rfl⟩ rfl rfl
  · exact queues.put isWaiting (by simp) (List.perm_append_singleton ..)
  · exact (lists.move isWaiting (.queued c y.pool) rfl).goto pc rfl (by simp) (by simp)
  · exact (workers.move isWaiting (.queued c y.pool) rfl rfl).goto pc (by simp)
  · exact conns.handle pc (by simp [ConnPc.request]) isWaiting (by simp [Place.maker]) rfl trivial (by simp) (by simp)
      (by simp)
  · exact (locks.move isWaiting (.queued c y.pool) rfl).goto pc (by simp [ConnPc.locks])

theorem strand_inv (inv : Inv s place) (pc : s.conns c = .queueing r) :
    ∃ place', Inv (s.connGoto c .reading) place' := by
  obtain ⟨sound, objects, queues, lists, workers, conns, locks⟩ := inv
  have isWaiting : place r = .waiting c := conns.fits_at pc
  obtain ⟨y, cell, fits⟩ := objects.present isWaiting rfl
  refine ⟨Function.update place r (.stranded c), sound, ?_, ?_, ?_, ?_, ?_, ?_⟩
  · exact objects.move isWaiting cell fits rfl rfl
  · exact queues.move isWaiting (by simp) (by simp)
  · exact (lists.move isWaiting (.stranded c) rfl).goto pc rfl (by simp) (by simp)
  · exact (workers.move isWaiting (.stranded c) rfl rfl).goto pc (by simp)
  · exact conns.handle pc (by simp [ConnPc.request]) isWaiting (by simp [Place.maker]) rfl trivial (by simp) (by simp)
      (by simp)
  · exact (locks.move isWaiting (.stranded c) rfl).goto pc (by simp [ConnPc.locks])

/-- A request that the cleanup finds assigned is with the worker that it names. -/
theorem cleaning_running {rest : List Nat} (inv : Inv s place)
    (pc : s.conns c = .cleaning (r :: rest)) (cell : s.reqs r = some y) (assigned : y.assigned = true) :
    ∃ w x, place r = .running c y.pool w ∧ y.tid = some w ∧ s.workers w = some x ∧ x.pool = y.pool := by
  have fits := inv.objects.fits r y cell
  have listed := (inv.lists.listed c r).mp (by simp [pc, ConnPc.listed])
  -- of the places with the mark only this one is in the list of a client in the cleanup
  cases here : place r with
  | unmade | fresh | unlinked | freed => simp [here, Place.listedBy] at listed
  | waiting | stranded =>
    rw [here] at fits
    cases assigned.symm.trans fits.2
  | queued | taken =>
    rw [here] at fits
    cases assigned.symm.trans fits.2.1
  | running b p w =>
    rw [here] at fits listed
    cases listed
    obtain ⟨-, -, rfl, tid⟩ := fits
    obtain ⟨x, there, samePool⟩ := inv.workers.runs here (by simp [pc])
    exact ⟨w, x, rfl, tid, there, samePool⟩
  | released b =>
    rw [here] at listed
    cases listed
    have busy := inv.conns.only (.inr here)
    rw [pc] at busy
    cases busy

/-- A request that it finds without the mark is with no worker: one that has the request would be assigning it, under
the lock that the cleanup holds. -/
theorem cleaning_unassigned {rest : List Nat} (inv : Inv s place)
    (pc : s.conns c = .cleaning (r :: rest)) (cell : s.reqs r = some y) (unassigned : y.assigned = false)
    (spared : ∀ w x, s.workers w = some x → x.pc ≠ .got r) :
    (∀ b p, place r = .queued b p → p = y.pool) ∧ (place r).holder = none := by
  have fits := inv.objects.fits r y cell
  have listed := (inv.lists.listed c r).mp (by simp [pc, ConnPc.listed])
  cases here : place r with
  | unmade | fresh | unlinked | freed => simp [here, Place.listedBy] at listed
  | waiting | stranded => exact ⟨by simp, rfl⟩
  | queued b p =>
    rw [here] at fits
    refine ⟨?_, rfl⟩
    intro b' p' same
    cases same
    exact fits.2.2.symm
  | taken b p w =>
    rw [here] at listed
    cases listed
    obtain ⟨x, there, got | assigns⟩ := inv.workers.taken r c p w here
    · exact absurd got (spared w x there)
    · have outside := inv.locks.outside there (by rw [assigns]; rfl) here rfl
      rw [pc] at outside
      cases outside
  | running b p w =>
    rw [here] at fits
    cases unassigned.symm.trans fits.2.1
  | released b =>
    rw [here] at listed
    cases listed
    have busy := inv.conns.only (.inr here)
    rw [pc] at busy
    cases busy

/-- `pool_kill` always finds the thread. -/
theorem kill_finds {rest : List Nat} (inv : Inv s place) (pc : s.conns c = .cleaning (r :: rest))
    (cell : s.reqs r = some y) (assigned : y.assigned = true) :
    ∃ i, (s.threads y.pool).findIdx? (fun t => some t = y.tid) = some i := by
  obtain ⟨w, x, held, tid, here, samePool⟩ := cleaning_running inv pc cell assigned
  rw [← Option.isSome_iff_exists, List.findIdx?_isSome, List.any_eq_true]
  exact ⟨w, samePool ▸ inv.workers.member w x here, by simp [tid]⟩

theorem kill_inv {rest : List Nat} {i : Nat} (inv : Inv s place) (pc : s.conns c = .cleaning (r :: rest))
    (cell : s.reqs r = some y) (assigned : y.assigned = true)
    (found : (s.threads y.pool).findIdx? (fun t => some t = y.tid) = some i) :
    Inv (s.connGoto c (.cancelling r y.pool i rest)) place := by
  obtain ⟨w, x, held, tid, -, -⟩ := cleaning_running inv pc cell assigned
  have slot : (s.threads y.pool)[i]? = some w := by
    obtain ⟨bound, matches_, -⟩ := List.findIdx?_eq_some_iff_getElem.mp found
    rw [tid, decide_eq_true_eq] at matches_
    rw [List.getElem?_eq_getElem bound, matches_]
  obtain ⟨sound, objects, queues, lists, workers, conns, locks⟩ := inv
  exact ⟨sound, objects, queues, lists.goto pc rfl (by simp) (by simp), workers.goto pc (by simp),
    conns.resume pc rfl ⟨w, held, slot⟩ (by simp), locks.goto pc (by simp [ConnPc.locks])⟩

/-- The flush of a request that no worker has taken. -/
theorem flush_inv {rest : List Nat} (inv : Inv s place) (pc : s.conns c = .cleaning (r :: rest))
    (cell : s.reqs r = some y) (unassigned : y.assigned = false)
    (spared : ∀ w x, s.workers w = some x → x.pc ≠ .got r) :
    ∃ place', Inv ((s.setQueue y.pool ((s.queues y.pool).filter (· ≠ r))).connGoto c (.releasing r rest))
      place' := by
  obtain ⟨queued, unheld⟩ := cleaning_unassigned inv pc cell unassigned spared
  obtain ⟨sound, objects, queues, lists, workers, conns, locks⟩ := inv
  have listed : (place r).listedBy = some c := (lists.listed c r).mp (by simp [pc, ConnPc.listed])
  obtain ⟨maker, unfreed⟩ := Place.listedBy_maker listed
  have client : y.client = c := Option.some.inj ((objects.fits r y cell).maker.symm.trans maker)
  refine ⟨Function.update place r (.released c), sound, ?_, ?_, ?_, ?_, ?_, ?_⟩
  · exact objects.move rfl cell client maker.symm unfreed.symm
  · exact queues.drop (by simp [List.mem_filter]) ((queues.once _).filter _) queued (by simp)
  · exact (lists.move rfl (.released c) listed.symm).goto pc rfl (by simp) (by simp)
  · exact (workers.move rfl (.released c) unheld rfl).goto pc (by simp)
  · exact conns.handle pc (by simp [ConnPc.request]) rfl (by simp [maker]) rfl (Function.update_self _ _ _) (by simp)
      (fun _ _ => ⟨rest, rfl⟩) (by simp)
  · exact (locks.move rfl (.released c) maker.symm).goto pc (by simp [ConnPc.locks])

theorem release_inv {rest : List Nat} (inv : Inv s place) (pc : s.conns c = .releasing r rest) :
    ∃ place', Inv ((s.freeRequest r).connGoto c (.cleaning rest)) place' := by
  obtain ⟨sound, objects, queues, lists, workers, conns, locks⟩ := inv
  have isReleased : place r = .released c := conns.fits_at pc
  refine ⟨Function.update place r (.freed c), sound, ?_, ?_, ?_, ?_, ?_, ?_⟩
  · exact objects.free isReleased rfl rfl
  · exact queues.move isReleased (by simp) (by simp)
  · -- the freed request is behind the loop, and the rest is what the loop goes on with
    exact lists.pop pc rfl rfl (by simp) (by simp) rfl
  · exact (workers.move isReleased (.freed c) rfl rfl).goto pc (by simp)
  · exact conns.handle pc (by simp [ConnPc.request]) isReleased (by simp [Place.maker]) rfl trivial (by simp) (by simp)
      (by simp)
  · exact (locks.move isReleased (.freed c) rfl).goto pc (by simp [ConnPc.locks])

theorem freeClient_inv (inv : Inv s place) (pc : s.conns c = .unlocked) :
    Inv ({ s with clients := s.clients.free c }.connGoto c .finished) place := by
  obtain ⟨sound, objects, queues, lists, workers, conns, locks⟩ := inv
  have gone : Lists (s.clients.free c) (Function.update s.conns c .finished) place := by
    refine lists.change (fun b other => Heap.free_other _ other) ?_ (by simp)
    rw [pc]
    rfl
  refine ⟨sound, objects, queues, gone, ?_, ?_, ?_⟩
  · exact workers.goto pc (by simp)
  · exact conns.resume pc rfl trivial (by simp)
  · -- the list is empty behind the cleanup, so no worker can hold the lock of the client
    refine locks.unlocked rfl (fun b other => Heap.free_other _ other) ?_
    intro w x r here locked maker
    have unlisted : (place r).listedBy ≠ some c := by
      rw [ne_eq, ← lists.listed, pc]
      exact List.not_mem_nil
    obtain ⟨b, taken | running⟩ := (workers.fits w x here).locked locked
    · rw [taken] at maker unlisted
      exact unlisted maker
    · rw [running] at maker unlisted
      exact unlisted maker

/-- `pthread_cancel` for the worker that runs the request. -/
theorem Workers.mark {p : Pool} {i : Nat} {rest : List Nat} (inv : Workers workers threads conns place)
    (joining : conns c = .joining r p i rest) (held : place r = .running c p w) (here : workers w = some x)
    (samePool : x.pool = p) : Workers (workers.set w { x with cancelled := true }) threads conns place := by
  obtain ⟨fits, taken, running, unlinked, cancelled, member, once, single⟩ := inv
  -- besides the mark the worker is the one that it was
  have old : ∀ v x', workers.set w { x with cancelled := true } v = some x' →
      ∃ x₀, workers v = some x₀ ∧ x'.pc = x₀.pc ∧ x'.pool = x₀.pool := by
    intro v x' there
    by_cases same : v = w
    · subst same
      obtain rfl : _ = x' := by simpa using there
      exact ⟨x, here, rfl, rfl⟩
    · rw [Heap.set_other _ _ same] at there
      exact ⟨x', there, rfl, rfl⟩
  have new : ∀ v x₀, workers v = some x₀ →
      ∃ x', workers.set w { x with cancelled := true } v = some x' ∧ x'.pc = x₀.pc := by
    intro v x₀ there
    by_cases same : v = w
    · subst same
      cases Option.some.inj (here.symm.trans there)
      exact ⟨_, Heap.set_here _ _ _, rfl⟩
    · exact ⟨x₀, by rwa [Heap.set_other _ _ same], rfl⟩
  refine ⟨?_, ?_, ?_, ?_, ?_, ?_, once, single⟩
  · intro v x' there
    obtain ⟨x₀, there₀, position, pool⟩ := old v x' there
    rw [position, pool]
    exact fits v x₀ there₀
  · intro q b p' v held'
    obtain ⟨x₀, there₀, position⟩ := taken q b p' v held'
    obtain ⟨x', there, same⟩ := new v x₀ there₀
    exact ⟨x', there, same ▸ position⟩
  · intro q b p' v held'
    obtain ⟨x₀, there₀, position⟩ := running q b p' v held'
    obtain ⟨x', there, same⟩ := new v x₀ there₀
    exact ⟨x', there, same ▸ position⟩
  · intro q b v held'
    obtain ⟨x₀, there₀, position⟩ := unlinked q b v held'
    obtain ⟨x', there, same⟩ := new v x₀ there₀
    exact ⟨x', there, same ▸ position⟩
  · intro v x' there marked
    by_cases same : v = w
    · subst same
      obtain rfl : _ = x' := by simpa using there
      exact ⟨r, c, i, rest, samePool ▸ joining, samePool ▸ held⟩
    · rw [Heap.set_other _ _ same] at there
      exact cancelled v x' there marked
  · intro v x' there
    obtain ⟨x₀, there₀, -, pool⟩ := old v x' there
    rw [pool]
    exact member v x₀ there₀

theorem cancel_inv {p : Pool} {i : Nat} {rest : List Nat} (inv : Inv s place)
    (pc : s.conns c = .cancelling r p i rest) :
    Inv ((s.cancel p i).connGoto c (.joining r p i rest)) place := by
  obtain ⟨sound, objects, queues, lists, workers, conns, locks⟩ := inv
  obtain ⟨w, held, slot⟩ := conns.fits_at pc
  obtain ⟨x, here, samePool⟩ := workers.runs held (by simp [pc])
  have cancelEq : s.cancel p i = { s with workers := s.workers.set w { x with cancelled := true } } := by
    simp [State.cancel, slot, here]
  rw [cancelEq]
  refine ⟨sound, objects, queues, ?_, ?_, ?_, ?_⟩
  · exact lists.goto pc rfl (by simp) (by simp)
  · exact (workers.goto pc (by simp)).mark (Function.update_self _ _ _) held here samePool
  · refine (conns.advance here).goto ⟨w, held, slot⟩ ?_ ?_ (by simp)
    · intro q isFresh
      have busy := conns.only (.inl isFresh)
      rw [pc] at busy
      cases busy
      cases held.symm.trans isFresh
    · intro q isReleased
      have busy := conns.only (.inr isReleased)
      rw [pc] at busy
      cases busy
      cases held.symm.trans isReleased
  · exact (locks.advance { x with cancelled := true } here rfl).goto pc (by simp [ConnPc.locks])

/-- The worker that ran the request is gone, and so is its hold on it. -/
theorem Workers.join {pc : ConnPc} {p : Pool} {i : Nat} {rest : List Nat} (inv : Workers workers threads conns place)
    (before : conns c = .joining r p i rest) (held : place r = .running c p w) :
    Workers (workers.free w) threads (Function.update conns c pc) (Function.update place r (.released c)) := by
  obtain ⟨fits, taken, running, unlinked, cancelled, member, once, single⟩ := inv
  have only : ∀ q, (place q).holder = some w → q = r := fun q held' =>
    single q r w held' (by rw [held, Place.holder])
  have stays : ∀ v x, workers.free w v = some x → v ≠ w ∧ workers v = some x := by
    intro v x there
    have other : v ≠ w := by
      rintro rfl
      rw [Heap.free_here] at there
      cases there
    exact ⟨other, by rwa [Heap.free_other _ other] at there⟩
  -- a place with a holder is one of another request, and its holder is another worker
  have elsewhere : ∀ q v, (Function.update place r (.released c) q).holder = some v →
      Function.update place r (.released c) q = place q ∧ (place q).holder = some v ∧ v ≠ w ∧ q ≠ r := by
    intro q v held'
    have apart : q ≠ r := by
      rintro rfl
      rw [Function.update_self] at held'
      cases held'
    rw [Function.update_of_ne apart] at held' ⊢
    refine ⟨rfl, held', ?_, apart⟩
    rintro rfl
    exact apart (only q held')
  refine ⟨?_, ?_, ?_, ?_, ?_, ?_, once, ?_⟩
  · intro v x there
    obtain ⟨other, there⟩ := stays v x there
    refine (fits v x there).frame _ ?_
    rw [held]
    intro same
    exact other (Option.some.inj same).symm
  · intro q b p' v held'
    obtain ⟨kept, -, other, -⟩ := elsewhere q v (by rw [held', Place.holder])
    rw [kept] at held'
    rw [Heap.free_other _ other]
    exact taken q b p' v held'
  · intro q b p' v held'
    obtain ⟨kept, -, other, apart⟩ := elsewhere q v (by rw [held', Place.holder])
    rw [kept] at held'
    obtain ⟨x, there, position⟩ := running q b p' v held'
    refine ⟨x, by rwa [Heap.free_other _ other], position.imp_right (.imp_right (.imp_right (.imp_right ?_)))⟩
    rintro ⟨gone, i', rest', joining⟩
    -- a thread that joins is not the one of `c`, which joined for `r`
    have different : b ≠ c := by
      rintro rfl
      rw [before] at joining
      cases joining
      exact apart rfl
    exact ⟨gone, i', rest', by rwa [Function.update_of_ne different]⟩
  · intro q b v held'
    obtain ⟨kept, -, other, -⟩ := elsewhere q v (by rw [held', Place.holder])
    rw [kept] at held'
    rw [Heap.free_other _ other]
    exact unlinked q b v held'
  · intro v x there marked
    obtain ⟨other, there⟩ := stays v x there
    obtain ⟨q, b, j, rest', joining, held'⟩ := cancelled v x there marked
    have apart : q ≠ r := by
      rintro rfl
      rw [held] at held'
      cases held'
      exact other rfl
    have different : b ≠ c := by
      rintro rfl
      rw [before] at joining
      cases joining
      exact apart rfl
    exact ⟨q, b, j, rest', by rwa [Function.update_of_ne different], by rwa [Function.update_of_ne apart]⟩
  · intro v x there
    exact member v x (stays v x there).2
  · intro q q' v first second
    obtain ⟨-, first, -, -⟩ := elsewhere q v first
    obtain ⟨-, second, -, -⟩ := elsewhere q' v second
    exact single q q' v first second

/-- The thread of the connection has the request back, and no other one waits for the slot, since the worker in it was
not gone. -/
theorem Conns.join {p : Pool} {i : Nat} {rest : List Nat} (inv : Conns workers threads conns place)
    (at_ : conns c = .joining r p i rest) (held : place r = .running c p w) (slot : (threads p)[i]? = some w)
    (here : workers w = some x) :
    Conns (workers.free w) threads (Function.update conns c (.replacing r p i rest))
      (Function.update place r (.released c)) := by
  -- a request that the thread of `c` has created or taken back would be `r`
  have apart : ∀ q b, q ≠ r → place q = .fresh b ∨ place q = .released b → b ≠ c := by
    rintro q b differ placed rfl
    have busy := inv.only placed
    rw [at_] at busy
    cases busy
    exact differ rfl
  have alone : ∀ b q rest', conns b ≠ .replacing q p i rest' := by
    intro b q rest' replacing
    obtain ⟨-, w', slot', gone⟩ := inv.fits_at replacing
    cases slot.symm.trans slot'
    cases here.symm.trans gone
  refine ⟨?_, ?_, ?_, ?_⟩
  · intro b
    by_cases same : b = c
    · subst same
      rw [Function.update_self]
      exact ⟨Function.update_self _ _ _, w, slot, Heap.free_here _ _⟩
    · rw [Function.update_of_ne same]
      refine (inv.fits b).frame ?_ ?_
      · intro q busy
        have differ : q ≠ r := by
          rintro rfl
          have maker := (inv.fits b).maker busy
          rw [held] at maker
          cases maker
          exact same rfl
        rw [Function.update_of_ne differ]
      · intro v left
        rw [Heap.free_apply]
        split
        · rfl
        · exact left
  · intro q b placed
    rcases update_cases placed with ⟨-, same⟩ | ⟨differ, isFresh⟩
    · cases same
    · rw [Function.update_of_ne (apart q b differ (.inl isFresh))]
      exact inv.fresh q b isFresh
  · intro q b placed
    rcases update_cases placed with ⟨rfl, same⟩ | ⟨differ, isReleased⟩
    · cases same
      rw [Function.update_self]
      exact .inr ⟨p, i, rest, rfl⟩
    · rw [Function.update_of_ne (apart q b differ (.inr isReleased))]
      exact inv.released q b isReleased
  · intro a b q q' p' i' rest' rest'' first second
    rcases update_cases first with ⟨rfl, same⟩ | ⟨-, replacing⟩
    · cases same
      rcases update_cases second with ⟨rfl, -⟩ | ⟨-, replacing'⟩
      · rfl
      · exact absurd replacing' (alone b q' rest'')
    · rcases update_cases second with ⟨rfl, same⟩ | ⟨-, replacing'⟩
      · cases same
        exact absurd replacing (alone a q rest')
      · exact inv.slots a b q q' p' i' rest' rest'' replacing replacing'

theorem join_inv {p : Pool} {i : Nat} {rest : List Nat} (inv : Inv s place)
    (pc : s.conns c = .joining r p i rest) (slot : (s.threads p)[i]? = some w) (here : s.workers w = some x) :
    ∃ place', Inv ({ s with workers := s.workers.free w }.connGoto c (.replacing r p i rest)) place' := by
  obtain ⟨sound, objects, queues, lists, workers, conns, locks⟩ := inv
  have held : place r = .running c p w := by
    obtain ⟨w', held, slot'⟩ := conns.fits_at pc
    cases slot.symm.trans slot'
    exact held
  obtain ⟨y, cell, fits⟩ := objects.present held rfl
  refine ⟨Function.update place r (.released c), sound, ?_, ?_, ?_, ?_, ?_, ?_⟩
  · exact objects.move held cell fits.1 rfl rfl
  · exact queues.move held (by simp) (by simp)
  · exact (lists.move held (.released c) rfl).goto pc rfl (by simp) (by simp)
  · exact workers.join pc held
  · exact conns.join pc held slot here
  · exact (locks.move held (.released c) rfl).leave.goto pc (by simp [ConnPc.locks])

/-- The new thread in a slot has no request, and the one that was there is gone. -/
theorem Workers.replace {p : Pool} {i t old : Nat} (inv : Workers workers threads conns place) (new : workers t = none)
    (slot : (threads p)[i]? = some old) (gone : workers old = none) (other : t ∉ (threads p).eraseIdx i) :
    Workers (workers.set t ⟨p, .idle, false⟩) (Function.update threads p ((threads p).set i t)) conns place := by
  have elsewhere : ∀ v x, workers v = some x → workers.set t ⟨p, .idle, false⟩ v = some x := by
    intro v x there
    have different : v ≠ t := by
      rintro rfl
      rw [new] at there
      cases there
    rwa [Heap.set_other _ _ different]
  obtain ⟨bound, -⟩ := List.getElem?_eq_some_iff.mp slot
  refine ⟨?_, ?_, ?_, ?_, ?_, ?_, ?_, inv.single⟩
  · exact Heap.forall_set trivial fun v x _ there => inv.fits v x there
  · intro q b p' v taken
    obtain ⟨x, there, position⟩ := inv.taken q b p' v taken
    exact ⟨x, elsewhere v x there, position⟩
  · intro q b p' v running
    obtain ⟨x, there, position⟩ := inv.running q b p' v running
    exact ⟨x, elsewhere v x there, position⟩
  · intro q b v unlinked
    obtain ⟨x, there, position⟩ := inv.unlinked q b v unlinked
    exact ⟨x, elsewhere v x there, position⟩
  · exact Heap.forall_set (by simp) fun v x _ there => inv.cancelled v x there
  · refine Heap.forall_set ?_ ?_
    · rw [Function.update_self]
      exact List.mem_set bound t
    · intro v x _ there
      have listed := inv.member v x there
      by_cases samePool : x.pool = p
      · subst samePool
        obtain ⟨j, at_⟩ := List.mem_iff_getElem?.mp listed
        have apart : i ≠ j := by
          rintro rfl
          cases slot.symm.trans at_
          rw [gone] at there
          cases there
        rw [Function.update_self]
        exact List.mem_iff_getElem?.mpr ⟨j, by rwa [List.getElem?_set_ne apart]⟩
      · rwa [Function.update_of_ne samePool]
  · intro p'
    by_cases samePool : p' = p
    · subst samePool
      rw [Function.update_self, (List.set_perm_cons_eraseIdx bound t).nodup_iff, List.nodup_cons]
      exact ⟨other, (inv.once p').sublist (List.eraseIdx_sublist _ _)⟩
    · rw [Function.update_of_ne samePool]
      exact inv.once p'

/-- Nor do the connection threads notice it, once none of them waits for the slot. -/
theorem Conns.replace {p : Pool} {i t old : Nat} (inv : Conns workers threads conns place)
    (running : ∀ r b p' v, place r = .running b p' v → workers v ≠ none) (slot : (threads p)[i]? = some old)
    (gone : workers old = none) (other : t ∉ (threads p).eraseIdx i) (other' : t ∉ threads p.other)
    (apart : ∀ b r rest, conns b ≠ .replacing r p i rest) :
    Conns (workers.set t ⟨p, .idle, false⟩) (Function.update threads p ((threads p).set i t)) conns place := by
  refine ⟨fun b => (inv.fits b).replaced other other' ?_ (apart b), inv.fresh, inv.released, inv.slots⟩
  intro q p' v held slot'
  cases Option.some.inj (slot.symm.trans slot')
  exact running q b p' old held gone

theorem replace_inv {p : Pool} {i t : Nat} {rest : List Nat} (inv : Inv s place)
    (pc : s.conns c = .replacing r p i rest) (new : s.workers t = none)
    (other : t ∉ (s.threads p).eraseIdx i) (other' : t ∉ s.threads p.other) :
    Inv ({ s with
      threads := Function.update s.threads p ((s.threads p).set i t)
      workers := s.workers.set t ⟨p, .idle, false⟩ }.connGoto c (.releasing r rest)) place := by
  obtain ⟨sound, objects, queues, lists, workers, conns, locks⟩ := inv
  obtain ⟨isReleased, old, slot, gone⟩ := conns.fits_at pc
  have going : Conns s.workers s.threads (Function.update s.conns c (.releasing r rest)) place := by
    refine conns.goto isReleased ?_ ?_ (by simp)
    · intro q isFresh
      have busy := conns.only (.inl isFresh)
      rw [pc] at busy
      cases busy
      cases isReleased.symm.trans isFresh
    · intro q placed
      have busy := conns.only (.inr placed)
      rw [pc] at busy
      cases busy
      exact ⟨rest, rfl⟩
  refine ⟨sound, objects, queues, ?_, ?_, ?_, ?_⟩
  · exact lists.goto pc rfl (by simp) (by simp)
  · exact (workers.goto pc (by simp)).replace new slot gone other
  · refine going.replace ?_ slot gone other other' ?_
    · intro q b p' v held
      obtain ⟨x, there, -⟩ := workers.running q b p' v held
      simp [there]
    · -- the thread that waited for the slot is the one that goes on
      intro b q rest' replacing
      rcases update_cases replacing with ⟨-, same⟩ | ⟨differ, waits⟩
      · cases same
      · exact differ (conns.slots b c _ _ _ _ _ _ waits pc)
  · exact locks.hire.goto pc (by simp [ConnPc.locks])

end Pire2Pire.Requests
