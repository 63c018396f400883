import Mathlib.Data.List.Perm.Basic
import Pire2Pire.Requests.Threads

/-! Who has a request: one place for every request, from its creation to its free, the invariant of the places, and
what a step can do to each part of it. -/
namespace Pire2Pire.Requests

open Pire2Pire.Library

/-! ### Where a request is

The invariant gives every request one place. The places answer for each other's absence: a request
that a worker has taken is in no queue and no other worker has it. -/

inductive Place where
  | unmade
  /-- created by the connection thread of `c` and not linked yet -/
  | fresh (c : Nat)
  /-- linked, and about to be queued -/
  | waiting (c : Nat)
  /-- linked, but `pool_queue` has failed -/
  | stranded (c : Nat)
  | queued (c : Nat) (p : Pool)
  /-- dequeued by `w`, not assigned yet -/
  | taken (c : Nat) (p : Pool) (w : Nat)
  | running (c : Nat) (p : Pool) (w : Nat)
  /-- linked, but neither in a queue nor with a worker any more -/
  | released (c : Nat)
  /-- unlinked by `w`, which is about to free it -/
  | unlinked (c : Nat) (w : Nat)
  | freed (c : Nat)
  deriving DecidableEq

/-- The client that created the request. -/
def Place.maker : Place → Option Nat
  | .unmade => none
  | .fresh c | .waiting c | .stranded c | .queued c _ | .taken c _ _ | .running c _ _ | .released c
  | .unlinked c _ | .freed c => some c

/-- The client whose list holds the request. -/
def Place.listedBy : Place → Option Nat
  | .unmade | .fresh _ | .unlinked _ _ | .freed _ => none
  | .waiting c | .stranded c | .queued c _ | .taken c _ _ | .running c _ _ | .released c => some c

/-- The worker that has a request. -/
def Place.holder : Place → Option Nat
  | .taken _ _ w | .running _ _ w | .unlinked _ w => some w
  | .unmade | .fresh _ | .waiting _ | .stranded _ | .queued _ _ | .released _ | .freed _ => none

def Place.timesFreed : Place → Nat
  | .freed _ => 1
  | _ => 0

/-- What the place says about the request's fields. -/
def Place.Fits (x : Request) : Place → Prop
  | .unmade | .freed _ => False
  | .fresh c | .waiting c | .stranded c => x.client = c ∧ x.assigned = false
  | .queued c p => x.client = c ∧ x.assigned = false ∧ x.pool = p
  | .taken c p _ => x.client = c ∧ x.assigned = false ∧ x.pool = p
  | .running c p w => x.client = c ∧ x.assigned = true ∧ x.pool = p ∧ x.tid = some w
  | .released c | .unlinked c _ => x.client = c

/-- What a worker's position says about the place of its request. -/
def WorkerPc.Fits (place : Nat → Place) (w : Nat) (p : Pool) : WorkerPc → Prop
  | .idle | .exited => True
  | .got r | .assigning r => ∃ c, place r = .taken c p w
  | .running r | .walking r | .finishing r | .unlinking r => ∃ c, place r = .running c p w
  | .freeing r => ∃ c, place r = .unlinked c w

/-- What a connection thread's position says about the place of its request. -/
def ConnPc.Fits (threads : Pool → List Nat) (workers : Heap Worker) (place : Nat → Place)
    (c : Nat) : ConnPc → Prop
  | .created r | .linking r => place r = .fresh c
  | .queueing r => place r = .waiting c
  | .cancelling r p i _ | .joining r p i _ => ∃ w, place r = .running c p w ∧ (threads p)[i]? = some w
  | .replacing r p i _ => place r = .released c ∧ ∃ w, (threads p)[i]? = some w ∧ workers w = none
  | .releasing r _ => place r = .released c
  | _ => True

/-- The request of a worker that has taken the `req_lock` of its client. -/
def WorkerPc.locks : WorkerPc → Option Nat
  | .assigning r | .walking r | .unlinking r => some r
  | _ => none

/-- The positions at which a connection thread has taken its `req_lock`. -/
def ConnPc.locks : ConnPc → Bool
  | .checking | .linking _ | .cleaning _ | .cancelling .. | .joining .. | .replacing .. | .releasing .. => true
  | _ => false

/-- The requests that are linked to a client and not freed yet; the cleanup loop leaves the
freed ones in the client's list. -/
def ConnPc.listed (x : Option Client) : ConnPc → List Nat
  | .unborn | .unlocked | .finished => []
  | .cleaning rest => rest
  | .cancelling r _ _ rest | .joining r _ _ rest | .replacing r _ _ rest | .releasing r rest => r :: rest
  | .reading | .checking | .creating | .created _ | .linking _ | .queueing _ | .ended =>
    (x.map Client.requests).getD []

/-! ### The invariant -/

structure Objects (reqs : Heap Request) (made : Heap Nat) (frees : Nat → Nat) (place : Nat → Place) : Prop where
  absent : ∀ r, reqs r = none → place r = .unmade ∨ ∃ c, place r = .freed c
  fits : ∀ r x, reqs r = some x → (place r).Fits x
  made : ∀ r, made r = (place r).maker
  frees : ∀ r, frees r = (place r).timesFreed

structure Queues (queues : Pool → List Nat) (place : Nat → Place) : Prop where
  queued : ∀ p r, r ∈ queues p ↔ ∃ c, place r = .queued c p
  once : ∀ p, (queues p).Nodup

structure Lists (clients : Heap Client) (conns : Nat → ConnPc) (place : Nat → Place) : Prop where
  listed : ∀ c r, r ∈ (conns c).listed (clients c) ↔ (place r).listedBy = some c
  once : ∀ c, ((conns c).listed (clients c)).Nodup
  alive : ∀ c, clients c = none ↔ conns c = .unborn ∨ conns c = .finished

structure Workers (workers : Heap Worker) (threads : Pool → List Nat) (conns : Nat → ConnPc)
    (place : Nat → Place) : Prop where
  fits : ∀ w x, workers w = some x → x.pc.Fits place w x.pool
  taken : ∀ r c p w, place r = .taken c p w →
    ∃ x, workers w = some x ∧ (x.pc = .got r ∨ x.pc = .assigning r)
  running : ∀ r c p w, place r = .running c p w → ∃ x, workers w = some x ∧
    (x.pc = .running r ∨ x.pc = .walking r ∨ x.pc = .finishing r ∨ x.pc = .unlinking r ∨
      x.pc = .exited ∧ ∃ i rest, conns c = .joining r p i rest)
  unlinked : ∀ r c w, place r = .unlinked c w → ∃ x, workers w = some x ∧ x.pc = .freeing r
  cancelled : ∀ w x, workers w = some x → x.cancelled = true → ∃ r c i rest,
    conns c = .joining r x.pool i rest ∧ place r = .running c x.pool w
  member : ∀ w x, workers w = some x → w ∈ threads x.pool
  once : ∀ p, (threads p).Nodup
  single : ∀ q r w, (place q).holder = some w → (place r).holder = some w → q = r

structure Conns (workers : Heap Worker) (threads : Pool → List Nat) (conns : Nat → ConnPc)
    (place : Nat → Place) : Prop where
  fits : ∀ c, (conns c).Fits threads workers place c
  fresh : ∀ r c, place r = .fresh c → conns c = .created r ∨ conns c = .linking r
  released : ∀ r c, place r = .released c →
    (∃ rest, conns c = .releasing r rest) ∨ ∃ p i rest, conns c = .replacing r p i rest
  slots : ∀ b c q r p i rest rest', conns b = .replacing q p i rest → conns c = .replacing r p i rest' → b = c

structure Locks (clients : Heap Client) (workers : Heap Worker) (conns : Nat → ConnPc)
    (place : Nat → Place) : Prop where
  conn : ∀ c, (conns c).locks = true → ∃ x, clients c = some x ∧ x.reqLock = some (.conn c)
  worker : ∀ w x r, workers w = some x → x.pc.locks = some r →
    ∃ c y, (place r).maker = some c ∧ clients c = some y ∧ y.reqLock = some (.worker w)

/-- The invariant, for an assignment of places. -/
structure Inv (s : State) (place : Nat → Place) : Prop where
  sound : s.fault = false
  objects : Objects s.reqs s.made s.frees place
  queues : Queues s.queues place
  lists : Lists s.clients s.conns place
  workers : Workers s.workers s.threads s.conns place
  conns : Conns s.workers s.threads s.conns place
  locks : Locks s.clients s.workers s.conns place

/-! ### What the invariant gives -/

variable {s t : State} {place : Nat → Place} {r c w : Nat}

/-- A worker's position says nothing about the requests that others have. -/
theorem WorkerPc.Fits.frame {pc : WorkerPc} {p : Pool} (l : Place)
    (other : (place r).holder ≠ some w) (fits : pc.Fits place w p) :
    pc.Fits (Function.update place r l) w p := by
  have kept : ∀ q m, place q = m → m.holder = some w → Function.update place r l q = m := by
    intro q m placed held
    have differ : q ≠ r := by
      rintro rfl
      exact other (placed ▸ held)
    rw [Function.update_of_ne differ, placed]
  cases pc with
  | idle | exited => trivial
  | got q | assigning q =>
    obtain ⟨c, taken⟩ := fits
    exact ⟨c, kept q _ taken rfl⟩
  | running q | walking q | finishing q | unlinking q =>
    obtain ⟨c, running⟩ := fits
    exact ⟨c, kept q _ running rfl⟩
  | freeing q =>
    obtain ⟨c, unlinked⟩ := fits
    exact ⟨c, kept q _ unlinked rfl⟩

theorem WorkerPc.Fits.locked {pc : WorkerPc} {p : Pool} (fits : pc.Fits place w p)
    (locks : pc.locks = some r) : ∃ c, place r = .taken c p w ∨ place r = .running c p w := by
  cases pc with
  | assigning q =>
    cases locks
    obtain ⟨c, taken⟩ := fits
    exact ⟨c, .inl taken⟩
  | walking q | unlinking q =>
    cases locks
    obtain ⟨c, running⟩ := fits
    exact ⟨c, .inr running⟩
  | _ => cases locks

/-- The request that a connection thread is busy with. -/
def ConnPc.request : ConnPc → Option Nat
  | .created r | .linking r | .queueing r | .cancelling r _ _ _ | .joining r _ _ _ | .replacing r _ _ _
  | .releasing r _ => some r
  | .unborn | .reading | .checking | .creating | .ended | .cleaning _ | .unlocked | .finished => none

section

variable {pc : ConnPc} {threads : Pool → List Nat} {workers workers' : Heap Worker} {place' : Nat → Place}

/-- A connection thread's position says nothing about other requests than its own. -/
theorem ConnPc.Fits.frame (fits : pc.Fits threads workers place c)
    (same : ∀ q, pc.request = some q → place' q = place q)
    (gone : ∀ w, workers w = none → workers' w = none) : pc.Fits threads workers' place' c := by
  cases pc with
  | created r | linking r | queueing r | releasing r => exact (same r rfl).trans fits
  | cancelling r | joining r =>
    obtain ⟨w, held, slot⟩ := fits
    exact ⟨w, (same r rfl).trans held, slot⟩
  | replacing r =>
    obtain ⟨placed, w, slot, left⟩ := fits
    exact ⟨(same r rfl).trans placed, w, slot, gone w left⟩
  | _ => trivial

/-- The positions survive that slot `i` gets a new thread, as long as they are not about that slot. -/
theorem ConnPc.Fits.replaced {p : Pool} {i t : Nat} (fits : pc.Fits threads workers place c)
    (other : t ∉ (threads p).eraseIdx i) (other' : t ∉ threads p.other)
    (running : ∀ r p' w, place r = .running c p' w → (threads p)[i]? ≠ some w)
    (apart : ∀ r rest, pc ≠ .replacing r p i rest) :
    pc.Fits (Function.update threads p ((threads p).set i t)) (workers.set t ⟨p, .idle, false⟩) place c := by
  -- a slot that is not the replaced one has the thread that it had, and this is not the new one
  have elsewhere : ∀ p' j w, (threads p')[j]? = some w → (p' = p → j ≠ i) →
      (Function.update threads p ((threads p).set i t) p')[j]? = some w ∧ w ≠ t := by
    intro p' j w slot notHere
    by_cases samePool : p' = p
    · subst samePool
      have differ : i ≠ j := (notHere rfl).symm
      rw [List.mem_eraseIdx_iff_getElem?] at other
      refine ⟨by simpa [List.getElem?_set_ne differ] using slot, ?_⟩
      intro same
      exact other ⟨j, differ.symm, same ▸ slot⟩
    · refine ⟨by simpa [Function.update_of_ne samePool] using slot, ?_⟩
      intro same
      have : p' = p.other := by cases p <;> cases p' <;> simp_all [Pool.other]
      subst this
      exact other' (List.mem_of_getElem? (same ▸ slot))
  cases pc with
  | cancelling r p' j rest =>
    obtain ⟨w, held, slot⟩ := fits
    refine ⟨w, held, (elsewhere p' j w slot ?_).1⟩
    rintro rfl rfl
    exact running r p' w held slot
  | joining r p' j rest =>
    obtain ⟨w, held, slot⟩ := fits
    refine ⟨w, held, (elsewhere p' j w slot ?_).1⟩
    rintro rfl rfl
    exact running r p' w held slot
  | replacing r p' j rest =>
    obtain ⟨placed, w, slot, gone⟩ := fits
    have moved := elsewhere p' j w slot (by rintro rfl rfl; exact apart r rest rfl)
    exact ⟨placed, w, moved.1, by rw [Heap.set_other _ _ moved.2]; exact gone⟩
  | _ => exact fits

theorem ConnPc.Fits.idle (none_ : pc.request = none) : pc.Fits threads workers place c := by
  cases pc with
  | created | linking | queueing | cancelling | joining | replacing | releasing => cases none_
  | _ => trivial

theorem ConnPc.Fits.busy (fits : pc.Fits threads workers place c)
    (busy : pc.request = some r) :
    place r = .fresh c ∨ place r = .waiting c ∨
      pc.locks = true ∧ (place r = .released c ∨ ∃ p w, place r = .running c p w) := by
  cases pc with
  | created q | linking q =>
    cases busy
    exact .inl fits
  | queueing q =>
    cases busy
    exact .inr (.inl fits)
  | cancelling q p | joining q p =>
    cases busy
    obtain ⟨w, held, -⟩ := fits
    exact .inr (.inr ⟨rfl, .inr ⟨p, w, held⟩⟩)
  | replacing q =>
    cases busy
    exact .inr (.inr ⟨rfl, .inl fits.1⟩)
  | releasing q =>
    cases busy
    exact .inr (.inr ⟨rfl, .inl fits⟩)
  | _ => cases busy

/-- A connection thread is busy with a request of its own client. -/
theorem ConnPc.Fits.maker (fits : pc.Fits threads workers place c) (busy : pc.request = some r) :
    (place r).maker = some c := by
  rcases fits.busy busy with isFresh | isWaiting | ⟨-, isReleased | ⟨p, w, held⟩⟩
  · rw [isFresh, Place.maker]
  · rw [isWaiting, Place.maker]
  · rw [isReleased, Place.maker]
  · rw [held, Place.maker]

end

variable {reqs : Heap Request} {made : Heap Nat} {frees : Nat → Nat} {clients : Heap Client} {workers : Heap Worker}
  {threads : Pool → List Nat} {queues : Pool → List Nat} {conns : Nat → ConnPc} {x : Worker} {y : Request} {z : Client}

theorem Place.Fits.maker {l : Place} {y : Request} (fits : l.Fits y) : l.maker = some y.client := by
  cases l with
  | unmade | freed => cases fits
  | released | unlinked => exact congrArg some fits.symm
  | _ => exact congrArg some fits.1.symm

theorem Place.listedBy_maker {l : Place} (listed : l.listedBy = some c) : l.maker = some c ∧ l.timesFreed = 0 := by
  cases l with
  | unmade | fresh | unlinked | freed => cases listed
  | _ => exact ⟨listed, rfl⟩

/-- A request that was made and not freed is in memory. -/
theorem Objects.cell {l : Place} (objects : Objects reqs made frees place) (at_ : place r = l)
    (maker : l.maker = some c) (unfreed : l.timesFreed = 0) : ∃ x, reqs r = some x ∧ l.Fits x := by
  subst at_
  cases cell : reqs r with
  | none =>
    rcases objects.absent r cell with nowhere | ⟨b, gone⟩
    · rw [nowhere] at maker
      cases maker
    · rw [gone] at unfreed
      cases unfreed
  | some x => exact ⟨x, rfl, objects.fits r x cell⟩

theorem Objects.present {l : Place} (objects : Objects reqs made frees place) (at_ : place r = l)
    (listed : l.listedBy = some c) : ∃ x, reqs r = some x ∧ l.Fits x :=
  objects.cell at_ (Place.listedBy_maker listed).1 (Place.listedBy_maker listed).2

theorem Objects.fits_at {l : Place} (objects : Objects reqs made frees place) (at_ : place r = l)
    (cell : reqs r = some y) : l.Fits y :=
  at_ ▸ objects.fits r y cell

theorem Lists.client (lists : Lists clients conns place) (listed : (place r).listedBy = some c) :
    r ∈ (conns c).listed (clients c) ∧ ∃ x, clients c = some x := by
  have member := (lists.listed c r).mpr listed
  cases cell : clients c with
  | none =>
    rcases (lists.alive c).mp cell with unborn | finished
    · rw [unborn] at member
      cases member
    · rw [finished] at member
      cases member
  | some x => exact ⟨cell ▸ member, x, rfl⟩

/-- Taking or releasing a `req_lock` does not touch the lists. -/
theorem Lists.relock {x : Client} (x' : Client) (lists : Lists clients conns place) (cell : clients c = some x)
    (same : x'.requests = x.requests) : Lists (clients.set c x') conns place := by
  have kept : ∀ b, (conns b).listed (clients.set c x' b) = (conns b).listed (clients b) := by
    intro b
    by_cases here : b = c
    · subst here
      cases conns b <;> simp [ConnPc.listed, cell, same]
    · rw [Heap.set_other _ _ here]
  refine ⟨?_, ?_, ?_⟩
  · intro b q
    rw [kept, lists.listed]
  · intro b
    rw [kept]
    exact lists.once b
  · intro b
    rw [← lists.alive]
    by_cases here : b = c
    · subst here
      simp [cell]
    · rw [Heap.set_other _ _ here]

/-- Neither does a move between two places of the same list. -/
theorem Lists.move {old : Place} (lists : Lists clients conns place) (at_ : place r = old) (l : Place)
    (same : l.listedBy = old.listedBy) : Lists clients conns (Function.update place r l) := by
  subst at_
  refine ⟨?_, lists.once, lists.alive⟩
  intro b q
  rw [lists.listed]
  by_cases here : q = r
  · subst here
    rw [Function.update_self, same]
  · rw [Function.update_of_ne here]

/-- Outside its critical sections a connection thread leaves the list to the workers. -/
theorem ConnPc.listed_requests {pc : ConnPc} {o : Option Client} (unlocked : pc.locks = false)
    (member : r ∈ pc.listed o) (x : Client) : pc.listed (some x) = x.requests := by
  cases pc with
  | unborn | unlocked | finished => cases member
  | reading | creating | created | queueing | ended => rfl
  | _ => cases unlocked

theorem Lists.unlink {x x' : Client} {l old : Place} (lists : Lists clients conns place) (cell : clients c = some x)
    (unlocked : (conns c).locks = false) (at_ : place r = old) (member : old.listedBy = some c)
    (erased : x'.requests = x.requests.erase r) (out : l.listedBy = none) :
    Lists (clients.set c x') conns (Function.update place r l) := by
  subst at_
  -- the worker has the lock, so the list is the one in the client
  have listedHere := ConnPc.listed_requests unlocked ((lists.listed c r).mpr member)
  obtain ⟨listed, once, alive⟩ := lists
  have onceHere := once c
  rw [cell, listedHere] at onceHere
  refine ⟨?_, ?_, ?_⟩
  · intro b q
    by_cases here : b = c
    · subst here
      have membership := listed b q
      rw [cell, listedHere] at membership
      rw [Heap.set_here, listedHere, erased, onceHere.mem_erase_iff]
      by_cases same : q = r
      · simp [same, out]
      · rw [Function.update_of_ne same, ← membership]
        simp [same]
    · rw [Heap.set_other _ _ here, listed]
      by_cases same : q = r
      · subst same
        rw [Function.update_self, member, out]
        simp [Ne.symm here]
      · rw [Function.update_of_ne same]
  · intro b
    by_cases here : b = c
    · subst here
      rw [Heap.set_here, listedHere, erased]
      exact onceHere.erase r
    · rw [Heap.set_other _ _ here]
      exact once b
  · intro b
    rw [← alive]
    by_cases here : b = c
    · subst here
      simp [cell]
    · rw [Heap.set_other _ _ here]

theorem Workers.fits_at {pc : WorkerPc} (inv : Workers workers threads conns place) (here : workers w = some x)
    (at_ : x.pc = pc) : pc.Fits place w x.pool :=
  at_ ▸ inv.fits w x here

theorem Conns.fits_at {pc : ConnPc} (inv : Conns workers threads conns place) (at_ : conns c = pc) :
    pc.Fits threads workers place c :=
  at_ ▸ inv.fits c

/-- An idle worker has no request. -/
theorem Workers.idle {x : Worker} (inv : Workers workers threads conns place) (here : workers w = some x)
    (pc : x.pc = .idle) (q : Nat) : (place q).holder ≠ some w := by
  intro held
  cases at_ : place q with
  | taken c p v =>
    rw [at_] at held
    cases held
    obtain ⟨x', here', position⟩ := inv.taken q c p w at_
    cases here.symm.trans here'
    simp [pc] at position
  | running c p v =>
    rw [at_] at held
    cases held
    obtain ⟨x', here', position⟩ := inv.running q c p w at_
    cases here.symm.trans here'
    simp [pc] at position
  | unlinked c v =>
    rw [at_] at held
    cases held
    obtain ⟨x', here', position⟩ := inv.unlinked q c w at_
    cases here.symm.trans here'
    simp [pc] at position
  | _ => simp [at_, Place.holder] at held

/-- A worker that runs a request, and is not waited for, is one of the pool that the request is for. -/
theorem Workers.runs {p : Pool} (inv : Workers workers threads conns place) (held : place r = .running c p w)
    (apart : ∀ i rest, conns c ≠ .joining r p i rest) : ∃ x, workers w = some x ∧ x.pool = p := by
  obtain ⟨x, here, position⟩ := inv.running r c p w held
  have fits := inv.fits w x here
  obtain ⟨b, held'⟩ : ∃ b, place r = .running b x.pool w := by
    rcases position with at_ | at_ | at_ | at_ | ⟨-, i, rest, joining⟩
    · rwa [at_] at fits
    · rwa [at_] at fits
    · rwa [at_] at fits
    · rwa [at_] at fits
    · exact absurd joining (apart i rest)
  cases held.symm.trans held'
  exact ⟨x, here, rfl⟩

/-- The workers do not notice a move between two places that no worker has. -/
theorem Workers.move {old : Place} (inv : Workers workers threads conns place) (at_ : place r = old) (l : Place)
    (before : old.holder = none) (after : l.holder = none) :
    Workers workers threads conns (Function.update place r l) := by
  subst at_
  -- the workers have the same requests as before, at the same places
  have same : ∀ q m v, m.holder = some v → (Function.update place r l q = m ↔ place q = m) := by
    intro q m v held
    by_cases here : q = r
    · subst here
      rw [Function.update_self]
      constructor
      · rintro rfl
        cases after.symm.trans held
      · rintro rfl
        cases before.symm.trans held
    · rw [Function.update_of_ne here]
  have holders : ∀ q, (Function.update place r l q).holder = (place q).holder := by
    rw [Function.forall_update_iff place fun q m => m.holder = (place q).holder]
    exact ⟨after.trans before.symm, fun q _ => rfl⟩
  refine ⟨fun w x here => (inv.fits w x here).frame l (by simp [before]), ?_, ?_, ?_, ?_, inv.member, inv.once, ?_⟩
  · intro q c p v taken
    exact inv.taken q c p v ((same q _ v rfl).mp taken)
  · intro q c p v running
    exact inv.running q c p v ((same q _ v rfl).mp running)
  · intro q c v unlinked
    exact inv.unlinked q c v ((same q _ v rfl).mp unlinked)
  · intro w x here marked
    obtain ⟨q, c, i, rest, joining, held⟩ := inv.cancelled w x here marked
    exact ⟨q, c, i, rest, joining, (same q _ w rfl).mpr held⟩
  · intro q q' v first second
    rw [holders] at first second
    exact inv.single q q' v first second

/-- Nor do they notice a step of a connection thread outside `pthread_join`. -/
theorem Workers.goto {pc old : ConnPc} (inv : Workers workers threads conns place) (at_ : conns c = old)
    (apart : ∀ r p i rest, old ≠ .joining r p i rest) :
    Workers workers threads (Function.update conns c pc) place := by
  subst at_
  have joins : ∀ b r p i rest, conns b = .joining r p i rest →
      Function.update conns c pc b = .joining r p i rest := by
    intro b r p i rest joining
    have other : b ≠ c := by
      rintro rfl
      exact apart r p i rest joining
    rwa [Function.update_of_ne other]
  refine ⟨inv.fits, inv.taken, ?_, inv.unlinked, ?_, inv.member, inv.once, inv.single⟩
  · intro q b p v held
    obtain ⟨x, here, position⟩ := inv.running q b p v held
    refine ⟨x, here, position.imp_right (.imp_right (.imp_right (.imp_right ?_)))⟩
    rintro ⟨gone, i, rest, joining⟩
    exact ⟨gone, i, rest, joins b q p i rest joining⟩
  · intro w x here marked
    obtain ⟨q, b, i, rest, joining, held⟩ := inv.cancelled w x here marked
    exact ⟨q, b, i, rest, joins b q x.pool i rest joining, held⟩

/-- A step of one connection thread that moves a request of its own client. -/
theorem Conns.fits_goto {pc : ConnPc} {l : Place} (inv : Conns workers threads conns place)
    (own : ∀ b, (place r).maker = some b → b = c) (here : pc.Fits threads workers (Function.update place r l) c)
    (b : Nat) : (Function.update conns c pc b).Fits threads workers (Function.update place r l) b := by
  by_cases same : b = c
  · subst same
    simpa using here
  · rw [Function.update_of_ne same]
    refine (inv.fits b).frame ?_ (fun _ => id)
    intro q busy
    have other : q ≠ r := by
      rintro rfl
      exact same (own b ((inv.fits b).maker busy))
    rw [Function.update_of_ne other]

/-- A request that was in no queue gets into one, at whatever position. -/
theorem Queues.put {p : Pool} {queue : List Nat} {old : Place} (inv : Queues queues place) (at_ : place r = old)
    (outside : ∀ c p, old ≠ .queued c p) (grown : queue.Perm (r :: queues p)) :
    Queues (Function.update queues p queue) (Function.update place r (.queued c p)) := by
  subst at_
  obtain ⟨queued, once⟩ := inv
  -- a request is in one place, so it is not in the queue already
  have unqueued : r ∉ queues p := by
    rw [queued]
    simpa using fun c => outside c p
  constructor
  · intro p' q
    by_cases samePool : p' = p
    · subst samePool
      rw [Function.update_self, grown.mem_iff, List.mem_cons, queued]
      by_cases same : q = r
      · simp [same]
      · simp [same]
    · rw [Function.update_of_ne samePool, queued]
      by_cases same : q = r
      · simp [same, outside, Ne.symm samePool]
      · rw [Function.update_of_ne same]
  · intro p'
    by_cases samePool : p' = p
    · subst samePool
      rw [Function.update_self, grown.nodup_iff, List.nodup_cons]
      exact ⟨unqueued, once _⟩
    · rw [Function.update_of_ne samePool]
      exact once p'

/-- The positions of the worker that has the request, by its place. -/
def Place.At (r : Nat) (pc : WorkerPc) : Place → Prop
  | .taken .. => pc = .got r ∨ pc = .assigning r
  | .running .. => pc = .running r ∨ pc = .walking r ∨ pc = .finishing r ∨ pc = .unlinking r
  | .unlinked .. => pc = .freeing r
  | _ => True

/-- A worker goes on with the only request that it has, or with one that nobody has. -/
theorem Workers.work {x : Worker} {pc : WorkerPc} {l : Place} (inv : Workers workers threads conns place)
    (here : workers w = some x) (only : ∀ q, (place q).holder = some w → q = r)
    (own : ∀ v, (place r).holder = some v → v = w) (own' : ∀ v, l.holder = some v → v = w)
    (fits : pc.Fits (Function.update place r l) w x.pool) (position : l.At r pc)
    (marked : x.cancelled = true → l = place r) :
    Workers (workers.set w { x with pc := pc }) threads conns (Function.update place r l) := by
  -- a request that is not `r` is with another worker
  have others : ∀ q v, q ≠ r → (place q).holder = some v → v ≠ w := by
    rintro q v differ held rfl
    exact differ (only q held)
  refine ⟨?_, ?_, ?_, ?_, ?_, ?_, inv.once, ?_⟩
  · refine Heap.forall_set fits ?_
    intro v y other there
    exact (inv.fits v y there).frame l fun held => other (own v held)
  · intro q b p v placed
    rcases update_cases placed with ⟨rfl, rfl⟩ | ⟨differ, taken⟩
    · obtain rfl := own' v rfl
      exact ⟨_, Heap.set_here _ _ _, position⟩
    · rw [Heap.set_other _ _ (others q v differ (by rw [taken, Place.holder]))]
      exact inv.taken q b p v taken
  · intro q b p v placed
    rcases update_cases placed with ⟨rfl, rfl⟩ | ⟨differ, running⟩
    · obtain rfl := own' v rfl
      exact ⟨_, Heap.set_here _ _ _, position.imp_right (.imp_right (.imp_right .inl))⟩
    · rw [Heap.set_other _ _ (others q v differ (by rw [running, Place.holder]))]
      exact inv.running q b p v running
  · intro q b v placed
    rcases update_cases placed with ⟨rfl, rfl⟩ | ⟨differ, unlinked⟩
    · obtain rfl := own' v rfl
      exact ⟨_, Heap.set_here _ _ _, position⟩
    · rw [Heap.set_other _ _ (others q v differ (by rw [unlinked, Place.holder]))]
      exact inv.unlinked q b v unlinked
  · refine Heap.forall_set ?_ ?_
    · intro cancelled
      rw [marked cancelled, Function.update_eq_self]
      exact inv.cancelled w x here cancelled
    · intro v y other there cancelled
      obtain ⟨q, c, i, rest, joining, held⟩ := inv.cancelled v y there cancelled
      have differ : q ≠ r := by
        rintro rfl
        exact other (own v (by rw [held, Place.holder]))
      exact ⟨q, c, i, rest, joining, by rwa [Function.update_of_ne differ]⟩
  · exact Heap.forall_set (inv.member w x here) fun v y _ there => inv.member v y there
  · intro q q' v first second
    by_cases isR : q = r
    · by_cases isR' : q' = r
      · rw [isR, isR']
      · rw [isR, Function.update_self] at first
        rw [Function.update_of_ne isR'] at second
        exact absurd (own' v first) (others q' v isR' second)
    · rw [Function.update_of_ne isR] at first
      by_cases isR' : q' = r
      · rw [isR', Function.update_self] at second
        exact absurd (own' v second) (others q v isR first)
      · rw [Function.update_of_ne isR'] at second
        exact inv.single q q' v first second

/-- A worker goes on with the request that it has. -/
theorem Workers.proceed {x : Worker} {pc : WorkerPc} {l old : Place} (inv : Workers workers threads conns place)
    (here : workers w = some x) (at_ : place r = old) (held : old.holder = some w)
    (own : ∀ v, l.holder = some v → v = w) (fits : pc.Fits (Function.update place r l) w x.pool) (position : l.At r pc)
    (marked : x.cancelled = true → l = old) :
    Workers (workers.set w { x with pc := pc }) threads conns (Function.update place r l) := by
  subst at_
  exact inv.work here (fun q held' => inv.single q r w held' held)
    (fun _ held' => Option.some.inj (held'.symm.trans held)) own fits position marked

/-- The request stays where it is. -/
theorem Workers.advance {x : Worker} {pc : WorkerPc} {old : Place} (inv : Workers workers threads conns place)
    (here : workers w = some x) (at_ : place r = old) (held : old.holder = some w) (fits : pc.Fits place w x.pool)
    (position : old.At r pc) : Workers (workers.set w { x with pc := pc }) threads conns place := by
  subst at_
  have worked := inv.proceed here rfl held (fun _ held' => Option.some.inj (held'.symm.trans held))
    (by rwa [Function.update_eq_self]) position (fun _ => rfl)
  rwa [Function.update_eq_self] at worked

/-- A cancelled worker runs the request for which it is being killed. -/
theorem Workers.marked {x : Worker} {old : Place} (inv : Workers workers threads conns place)
    (here : workers w = some x) (cancelled : x.cancelled = true) (at_ : place r = old) (held : old.holder = some w) :
    ∃ c i rest, conns c = .joining r x.pool i rest ∧ old = .running c x.pool w := by
  subst at_
  obtain ⟨q, c, i, rest, joining, placed⟩ := inv.cancelled w x here cancelled
  obtain rfl := inv.single q r w (by rw [placed, Place.holder]) held
  exact ⟨c, i, rest, joining, placed⟩

/-- The worker is gone, and the thread that waits for it is why that is allowed. -/
theorem Workers.die {x : Worker} (inv : Workers workers threads conns place) (here : workers w = some x)
    (cancelled : x.cancelled = true) : Workers (workers.set w { x with pc := .exited }) threads conns place := by
  obtain ⟨r, c, i, rest, joining, held⟩ := inv.cancelled w x here cancelled
  have only : ∀ q, (place q).holder = some w → q = r := fun q held' =>
    inv.single q r w held' (by rw [held, Place.holder])
  refine ⟨?_, ?_, ?_, ?_, ?_, ?_, inv.once, inv.single⟩
  · exact Heap.forall_set trivial fun v y _ there => inv.fits v y there
  · intro q b p v taken
    have other : v ≠ w := by
      rintro rfl
      obtain rfl := only q (by rw [taken, Place.holder])
      cases held.symm.trans taken
    rw [Heap.set_other _ _ other]
    exact inv.taken q b p v taken
  · intro q b p v running
    by_cases same : v = w
    · subst same
      obtain rfl := only q (by rw [running, Place.holder])
      cases held.symm.trans running
      exact ⟨_, Heap.set_here _ _ _, .inr (.inr (.inr (.inr ⟨rfl, i, rest, joining⟩)))⟩
    · rw [Heap.set_other _ _ same]
      exact inv.running q b p v running
  · intro q b v unlinked
    have other : v ≠ w := by
      rintro rfl
      obtain rfl := only q (by rw [unlinked, Place.holder])
      cases held.symm.trans unlinked
    rw [Heap.set_other _ _ other]
    exact inv.unlinked q b v unlinked
  · exact Heap.forall_set (fun _ => ⟨r, c, i, rest, joining, held⟩) fun v y _ there => inv.cancelled v y there
  · exact Heap.forall_set (inv.member w x here) fun v y _ there => inv.member v y there

/-- No connection thread is busy with a request that a worker has, unless it holds the lock. -/
theorem Conns.quiet {old : Place} (inv : Conns workers threads conns place) (at_ : place r = old)
    (made : ∀ b, old ≠ .fresh b ∧ old ≠ .waiting b)
    (locked : ∀ b, (conns b).locks = true → old ≠ .released b ∧ ∀ p w, old ≠ .running b p w) (b : Nat) :
    (conns b).request ≠ some r := by
  subst at_
  intro busy
  rcases (inv.fits b).busy busy with isFresh | isWaiting | ⟨locks, isReleased | ⟨p, w, held⟩⟩
  · exact (made b).1 isFresh
  · exact (made b).2 isWaiting
  · exact (locked b locks).1 isReleased
  · exact (locked b locks).2 p w held

/-- The connection threads do not notice a step of a worker with a request that none of them is busy with. -/
theorem Conns.work {x x' : Worker} {l : Place} (inv : Conns workers threads conns place) (here : workers w = some x)
    (quiet : ∀ b, (conns b).request ≠ some r) (unfresh : ∀ b, l ≠ .fresh b) (unreleased : ∀ b, l ≠ .released b) :
    Conns (workers.set w x') threads conns (Function.update place r l) := by
  refine ⟨fun b => (inv.fits b).frame ?_ ?_, ?_, ?_, inv.slots⟩
  · intro q busy
    have other : q ≠ r := fun same => quiet b (same ▸ busy)
    rw [Function.update_of_ne other]
  · intro v left
    have other : v ≠ w := by
      rintro rfl
      cases here.symm.trans left
    rwa [Heap.set_other _ _ other]
  · intro q b placed
    rcases update_cases placed with ⟨-, same⟩ | ⟨-, isFresh⟩
    · exact absurd same (unfresh b)
    · exact inv.fresh q b isFresh
  · intro q b placed
    rcases update_cases placed with ⟨-, same⟩ | ⟨-, isReleased⟩
    · exact absurd same (unreleased b)
    · exact inv.released q b isReleased

theorem Conns.advance {x x' : Worker} (inv : Conns workers threads conns place) (here : workers w = some x) :
    Conns (workers.set w x') threads conns place := by
  refine ⟨fun b => (inv.fits b).frame (fun _ _ => rfl) ?_, inv.fresh, inv.released, inv.slots⟩
  intro v left
  have other : v ≠ w := by
    rintro rfl
    cases here.symm.trans left
  rwa [Heap.set_other _ _ other]

/-! ### The parts of the invariant

Each part has its own lemma for a step, and a step that does several things uses them one after the other. -/

section

variable {pc before : ConnPc} {l old : Place}

/-- A request is written, when it is created or later. -/
theorem Objects.set {made' : Heap Nat} (inv : Objects reqs made frees place) (y : Request) (fits : l.Fits y)
    (others : ∀ q, q ≠ r → made' q = made q) (maker : made' r = l.maker) (freed : frees r = l.timesFreed) :
    Objects (reqs.set r y) made' frees (Function.update place r l) := by
  refine ⟨?_, ?_, ?_, ?_⟩
  · intro q gone
    have other : q ≠ r := by
      rintro rfl
      rw [Heap.set_here] at gone
      cases gone
    rw [Heap.set_other _ _ other] at gone
    rw [Function.update_of_ne other]
    exact inv.absent q gone
  · intro q x present
    by_cases same : q = r
    · subst same
      rw [Heap.set_here] at present
      cases present
      rwa [Function.update_self]
    · rw [Heap.set_other _ _ same] at present
      rw [Function.update_of_ne same]
      exact inv.fits q x present
  · rw [Function.forall_update_iff place fun q l => made' q = l.maker]
    refine ⟨maker, fun q other => ?_⟩
    rw [others q other, inv.made]
  · rw [Function.forall_update_iff place fun q l => frees q = l.timesFreed]
    exact ⟨freed, fun q _ => inv.frees q⟩

/-- A request moves, and neither its fields nor its maker say otherwise. -/
theorem Objects.move (inv : Objects reqs made frees place) (at_ : place r = old) (cell : reqs r = some y)
    (fits : l.Fits y) (maker : l.maker = old.maker) (freed : l.timesFreed = old.timesFreed) :
    Objects reqs made frees (Function.update place r l) := by
  subst at_
  have moved := inv.set y fits (fun _ _ => rfl) ((inv.made r).trans maker.symm) ((inv.frees r).trans freed.symm)
  rwa [Heap.set, ← cell, Function.update_eq_self] at moved

theorem Objects.free (inv : Objects reqs made frees place) (at_ : place r = old) (maker : old.maker = some c)
    (unfreed : old.timesFreed = 0) :
    Objects (reqs.free r) made (Function.update frees r (frees r + 1)) (Function.update place r (.freed c)) := by
  subst at_
  refine ⟨?_, ?_, ?_, ?_⟩
  · intro q gone
    by_cases same : q = r
    · subst same
      exact .inr ⟨c, Function.update_self _ _ _⟩
    · rw [Heap.free_other _ same] at gone
      rw [Function.update_of_ne same]
      exact inv.absent q gone
  · intro q x present
    have other : q ≠ r := by
      rintro rfl
      rw [Heap.free_here] at present
      cases present
    rw [Heap.free_other _ other] at present
    rw [Function.update_of_ne other]
    exact inv.fits q x present
  · rw [Function.forall_update_iff place fun q l => made q = l.maker]
    refine ⟨?_, fun q _ => inv.made q⟩
    rw [inv.made, maker, Place.maker]
  · intro q
    by_cases same : q = r
    · subst same
      rw [Function.update_self, Function.update_self, inv.frees, unfreed, Place.timesFreed]
    · rw [Function.update_of_ne same, Function.update_of_ne same, inv.frees]

/-- The queues do not notice a move between two places outside of them. -/
theorem Queues.move (inv : Queues queues place) (at_ : place r = old) (before : ∀ c p, old ≠ .queued c p)
    (after : ∀ c p, l ≠ .queued c p) : Queues queues (Function.update place r l) := by
  subst at_
  refine ⟨?_, inv.once⟩
  intro p q
  rw [inv.queued]
  by_cases same : q = r
  · subst same
    simp [before, after]
  · rw [Function.update_of_ne same]

/-- A request leaves the queue that it is in. -/
theorem Queues.drop {p : Pool} {queue : List Nat} (inv : Queues queues place)
    (members : ∀ q, q ∈ queue ↔ q ∈ queues p ∧ q ≠ r) (once : queue.Nodup)
    (only : ∀ c p', place r = .queued c p' → p' = p) (after : ∀ c p, l ≠ .queued c p) :
    Queues (Function.update queues p queue) (Function.update place r l) := by
  constructor
  · intro p' q
    by_cases same : q = r
    · subst same
      -- it is not in the shorter queue, and was in no other one
      have gone : q ∉ Function.update queues p queue p' := by
        by_cases samePool : p' = p
        · subst samePool
          rw [Function.update_self, members]
          exact fun member => member.2 rfl
        · rw [Function.update_of_ne samePool, inv.queued]
          rintro ⟨c, placed⟩
          exact samePool (only c p' placed)
      simp [gone, after]
    · rw [Function.update_of_ne same, ← inv.queued]
      by_cases samePool : p' = p
      · subst samePool
        simp [members, same]
      · rw [Function.update_of_ne samePool]
  · intro p'
    by_cases samePool : p' = p
    · subst samePool
      rwa [Function.update_self]
    · rw [Function.update_of_ne samePool]
      exact inv.once p'

/-- A connection thread goes on, and whatever else changes, the list is the same. -/
theorem Lists.change {clients' : Heap Client} (inv : Lists clients conns place)
    (others : ∀ b, b ≠ c → clients' b = clients b) (same : pc.listed (clients' c) = (conns c).listed (clients c))
    (alive : clients' c = none ↔ pc = .unborn ∨ pc = .finished) :
    Lists clients' (Function.update conns c pc) place := by
  have kept : ∀ b, (Function.update conns c pc b).listed (clients' b) = (conns b).listed (clients b) := by
    intro b
    by_cases here : b = c
    · subst here
      rw [Function.update_self, same]
    · rw [Function.update_of_ne here, others b here]
  refine ⟨?_, ?_, ?_⟩
  · intro b q
    rw [kept, inv.listed]
  · intro b
    rw [kept]
    exact inv.once b
  · intro b
    by_cases here : b = c
    · subst here
      rwa [Function.update_self]
    · rw [Function.update_of_ne here, others b here, inv.alive]

theorem Lists.goto (inv : Lists clients conns place) (at_ : conns c = before)
    (same : pc.listed (clients c) = before.listed (clients c)) (going : before ≠ .unborn ∧ before ≠ .finished)
    (after : pc ≠ .unborn ∧ pc ≠ .finished) : Lists clients (Function.update conns c pc) place := by
  subst at_
  refine inv.change (fun _ _ => rfl) same ?_
  rw [inv.alive]
  simp [going, after]

/-- A request becomes the first one of the list. -/
theorem Lists.push {x x' : Client} (inv : Lists clients conns place) (cell : clients c = some x)
    (at_ : conns c = before) (placed : place r = old) (outside : old.listedBy = none) (into : l.listedBy = some c)
    (pushed : pc.listed (some x') = r :: before.listed (some x)) (after : pc ≠ .unborn ∧ pc ≠ .finished) :
    Lists (clients.set c x') (Function.update conns c pc) (Function.update place r l) := by
  subst at_ placed
  have here : ∀ q, q ∈ (conns c).listed (some x) ↔ (place q).listedBy = some c := by
    intro q
    rw [← cell, inv.listed]
  refine ⟨?_, ?_, ?_⟩
  · intro b q
    by_cases same : b = c
    · subst same
      rw [Function.update_self, Heap.set_here, pushed, List.mem_cons, here]
      by_cases first : q = r
      · simp [first, into]
      · simp [first]
    · rw [Function.update_of_ne same, Heap.set_other _ _ same, inv.listed]
      by_cases first : q = r
      · subst first
        rw [Function.update_self, into, outside]
        simp [Ne.symm same]
      · rw [Function.update_of_ne first]
  · intro b
    by_cases same : b = c
    · subst same
      rw [Function.update_self, Heap.set_here, pushed, List.nodup_cons, here, outside, ← cell]
      exact ⟨by simp, inv.once b⟩
    · rw [Function.update_of_ne same, Heap.set_other _ _ same]
      exact inv.once b
  · intro b
    by_cases same : b = c
    · subst same
      simp [after]
    · rw [Function.update_of_ne same, Heap.set_other _ _ same, inv.alive]

/-- The cleanup loop leaves the first request of the list behind. -/
theorem Lists.pop {rest : List Nat} (inv : Lists clients conns place) (at_ : conns c = before)
    (head : before.listed (clients c) = r :: rest) (popped : pc.listed (clients c) = rest)
    (going : before ≠ .unborn ∧ before ≠ .finished) (after : pc ≠ .unborn ∧ pc ≠ .finished)
    (out : l.listedBy = none) : Lists clients (Function.update conns c pc) (Function.update place r l) := by
  subst at_
  have once := inv.once c
  rw [head, List.nodup_cons] at once
  have first : (place r).listedBy = some c := by
    rw [← inv.listed, head]
    exact List.mem_cons_self
  refine ⟨?_, ?_, ?_⟩
  · intro b q
    by_cases same : b = c
    · subst same
      rw [Function.update_self, popped]
      by_cases isFirst : q = r
      · simp [isFirst, out, once.1]
      · rw [Function.update_of_ne isFirst, ← inv.listed, head, List.mem_cons]
        simp [isFirst]
    · rw [Function.update_of_ne same, inv.listed]
      by_cases isFirst : q = r
      · subst isFirst
        rw [Function.update_self, out, first]
        simp [Ne.symm same]
      · rw [Function.update_of_ne isFirst]
  · intro b
    by_cases same : b = c
    · subst same
      rw [Function.update_self, popped]
      exact once.2
    · rw [Function.update_of_ne same]
      exact inv.once b
  · intro b
    rw [inv.alive]
    by_cases same : b = c
    · subst same
      simp [going, after]
    · rw [Function.update_of_ne same]

/-- A connection thread that does not wait for a new worker is in nobody's way. -/
theorem Conns.slots_goto (inv : Conns workers threads conns place) (apart : ∀ q p i rest, pc ≠ .replacing q p i rest)
    (a b q q' : Nat) (p : Pool) (i : Nat) (rest rest' : List Nat)
    (first : Function.update conns c pc a = .replacing q p i rest)
    (second : Function.update conns c pc b = .replacing q' p i rest') : a = b := by
  have otherA : a ≠ c := by
    rintro rfl
    rw [Function.update_self] at first
    exact apart q p i rest first
  have otherB : b ≠ c := by
    rintro rfl
    rw [Function.update_self] at second
    exact apart q' p i rest' second
  rw [Function.update_of_ne otherA] at first
  rw [Function.update_of_ne otherB] at second
  exact inv.slots a b q q' p i rest rest' first second

/-- A connection thread goes on to a position that does not wait for a new worker. -/
theorem Conns.goto (inv : Conns workers threads conns place) (fits : pc.Fits threads workers place c)
    (fresh : ∀ q, place q = .fresh c → pc = .created q ∨ pc = .linking q)
    (released : ∀ q, place q = .released c → ∃ rest, pc = .releasing q rest)
    (apart : ∀ q p i rest, pc ≠ .replacing q p i rest) :
    Conns workers threads (Function.update conns c pc) place := by
  refine ⟨?_, ?_, ?_, ?_⟩
  · intro b
    by_cases here : b = c
    · subst here
      rwa [Function.update_self]
    · rw [Function.update_of_ne here]
      exact inv.fits b
  · intro q b placed
    by_cases here : b = c
    · subst here
      rw [Function.update_self]
      exact fresh q placed
    · rw [Function.update_of_ne here]
      exact inv.fresh q b placed
  · intro q b placed
    by_cases here : b = c
    · subst here
      rw [Function.update_self]
      exact .inl (released q placed)
    · rw [Function.update_of_ne here]
      exact inv.released q b placed
  · exact inv.slots_goto apart

/-- A request that its client has just created, or takes back, is the one that the connection thread is busy with. -/
theorem Conns.only {q : Nat} (inv : Conns workers threads conns place)
    (placed : place q = .fresh c ∨ place q = .released c) : (conns c).request = some q := by
  rcases placed with isFresh | isReleased
  · rcases inv.fresh q c isFresh with here | here
    · rw [here, ConnPc.request]
    · rw [here, ConnPc.request]
  · rcases inv.released q c isReleased with ⟨rest, here⟩ | ⟨p, i, rest, here⟩
    · rw [here, ConnPc.request]
    · rw [here, ConnPc.request]

/-- A connection thread goes on that was busy with no request. -/
theorem Conns.resume (inv : Conns workers threads conns place) (at_ : conns c = before) (idle : before.request = none)
    (fits : pc.Fits threads workers place c) (apart : ∀ q p i rest, pc ≠ .replacing q p i rest) :
    Conns workers threads (Function.update conns c pc) place := by
  subst at_
  refine inv.goto fits ?_ ?_ apart
  · intro q isFresh
    have busy := inv.only (.inl isFresh)
    rw [idle] at busy
    cases busy
  · intro q isReleased
    have busy := inv.only (.inr isReleased)
    rw [idle] at busy
    cases busy

/-- A connection thread moves a request of its client, and is busy with no other one. -/
theorem Conns.handle (inv : Conns workers threads conns place) (at_ : conns c = before)
    (busy : ∀ q, before.request = some q → q = r) (placed : place r = old) (own : ∀ b, old.maker = some b → b = c)
    (maker : l.maker = some c)
    (fits : pc.Fits threads workers (Function.update place r l) c)
    (fresh : ∀ b, l = .fresh b → pc = .created r ∨ pc = .linking r)
    (released : ∀ b, l = .released b → ∃ rest, pc = .releasing r rest)
    (apart : ∀ q p i rest, pc ≠ .replacing q p i rest) :
    Conns workers threads (Function.update conns c pc) (Function.update place r l) := by
  subst at_ placed
  refine ⟨inv.fits_goto own fits, ?_, ?_, ?_⟩
  · intro q b placed
    by_cases same : q = r
    · subst same
      rw [Function.update_self] at placed
      rw [placed, Place.maker] at maker
      rw [Option.some.inj maker, Function.update_self]
      exact fresh b placed
    · rw [Function.update_of_ne same] at placed
      have other : b ≠ c := by
        rintro rfl
        exact same (busy q (inv.only (.inl placed)))
      rw [Function.update_of_ne other]
      exact inv.fresh q b placed
  · intro q b placed
    by_cases same : q = r
    · subst same
      rw [Function.update_self] at placed
      rw [placed, Place.maker] at maker
      rw [Option.some.inj maker, Function.update_self]
      exact .inl (released b placed)
    · rw [Function.update_of_ne same] at placed
      have other : b ≠ c := by
        rintro rfl
        exact same (busy q (inv.only (.inr placed)))
      rw [Function.update_of_ne other]
      exact inv.released q b placed
  · exact inv.slots_goto apart

theorem Locks.goto (inv : Locks clients workers conns place) (at_ : conns c = before)
    (same : pc.locks = true → before.locks = true) : Locks clients workers (Function.update conns c pc) place := by
  subst at_
  refine ⟨?_, inv.worker⟩
  intro b locks
  by_cases here : b = c
  · subst here
    rw [Function.update_self] at locks
    exact inv.conn b (same locks)
  · rw [Function.update_of_ne here] at locks
    exact inv.conn b locks

theorem Locks.move (inv : Locks clients workers conns place) (at_ : place r = old) (l : Place)
    (maker : l.maker = old.maker) : Locks clients workers conns (Function.update place r l) := by
  subst at_
  refine ⟨inv.conn, ?_⟩
  intro w x q here locks
  obtain ⟨c, z, owner, rest⟩ := inv.worker w x q here locks
  refine ⟨c, z, ?_, rest⟩
  by_cases same : q = r
  · subst same
    rw [Function.update_self, maker, owner]
  · rw [Function.update_of_ne same, owner]

/-- Locks that are held differently are those of different clients. -/
theorem client_ne {b : Nat} {z' : Client} (client : clients b = some z') (cell : clients c = some z)
    (differ : z'.reqLock ≠ z.reqLock) : b ≠ c := by
  rintro rfl
  cases Option.some.inj (client.symm.trans cell)
  exact differ rfl

/-- While a worker has the lock of a client, the connection thread of the client has not. -/
theorem Locks.outside (inv : Locks clients workers conns place) (here : workers w = some x)
    (locked : x.pc.locks = some r) (at_ : place r = old) (maker : old.maker = some c) : (conns c).locks = false := by
  subst at_
  obtain ⟨b, z, maker', cell, owner⟩ := inv.worker w x r here locked
  cases Option.some.inj (maker.symm.trans maker')
  by_contra inside
  obtain ⟨z', cell', owner'⟩ := inv.conn c (by simpa using inside)
  exact client_ne cell' cell (by simp [owner, owner']) rfl

/-- A connection thread takes the lock of its client, which is free. -/
theorem Locks.take {z z' : Client} (inv : Locks clients workers conns place) (cell : clients c = some z)
    (free : z.reqLock = none) (taken : z'.reqLock = some (.conn c)) :
    Locks (clients.set c z') workers (Function.update conns c pc) place := by
  constructor
  · intro b locks
    by_cases here : b = c
    · subst here
      exact ⟨z', Heap.set_here _ _ _, taken⟩
    · rw [Function.update_of_ne here] at locks
      rw [Heap.set_other _ _ here]
      exact inv.conn b locks
  · intro w x q there locks
    obtain ⟨b, y, maker, client, owner⟩ := inv.worker w x q there locks
    have other : b ≠ c := client_ne client cell (by simp [owner, free])
    exact ⟨b, y, maker, by rwa [Heap.set_other _ _ other], owner⟩

/-- A connection thread goes on without the lock, and whatever becomes of its client, no worker has the lock. -/
theorem Locks.unlocked {clients' : Heap Client} (inv : Locks clients workers conns place) (unlocked : pc.locks = false)
    (others : ∀ b, b ≠ c → clients' b = clients b)
    (apart : ∀ w x q, workers w = some x → x.pc.locks = some q → (place q).maker ≠ some c) :
    Locks clients' workers (Function.update conns c pc) place := by
  constructor
  · intro b locks
    by_cases here : b = c
    · subst here
      rw [Function.update_self, unlocked] at locks
      cases locks
    · rw [Function.update_of_ne here] at locks
      rw [others b here]
      exact inv.conn b locks
  · intro w x q there locks
    obtain ⟨b, y, maker, client, owner⟩ := inv.worker w x q there locks
    have other : b ≠ c := by
      rintro rfl
      exact apart w x q there locks maker
    exact ⟨b, y, maker, by rwa [others b other], owner⟩

/-- A connection thread gives the lock back. -/
theorem Locks.give {z' : Client} (inv : Locks clients workers conns place) (at_ : conns c = before)
    (locked : before.locks = true) (unlocked : pc.locks = false) :
    Locks (clients.set c z') workers (Function.update conns c pc) place := by
  subst at_
  obtain ⟨z, cell, own⟩ := inv.conn c locked
  refine inv.unlocked unlocked (fun b other => Heap.set_other _ _ other) ?_
  -- the lock of `c` is with its connection thread, so the worker holds another one
  intro w x q there locks maker
  obtain ⟨b, y, maker', client, owner⟩ := inv.worker w x q there locks
  cases Option.some.inj (maker.symm.trans maker')
  exact client_ne client cell (by simp [owner, own]) rfl

/-- A worker takes the lock of the client that made its request. -/
theorem Locks.acquire {x : Worker} {z z' : Client} {pc : WorkerPc} (inv : Locks clients workers conns place)
    (cell : clients c = some z) (free : z.reqLock = none) (taken : z'.reqLock = some (.worker w))
    (maker : ∀ q, pc.locks = some q → (place q).maker = some c) :
    Locks (clients.set c z') (workers.set w { x with pc := pc }) conns place := by
  constructor
  · intro b locks
    obtain ⟨y, client, owner⟩ := inv.conn b locks
    have other : b ≠ c := client_ne client cell (by simp [owner, free])
    exact ⟨y, by rwa [Heap.set_other _ _ other], owner⟩
  · intro v y q there locks
    by_cases own : v = w
    · subst own
      rw [Heap.set_here] at there
      cases there
      exact ⟨c, z', maker q locks, Heap.set_here _ _ _, taken⟩
    · rw [Heap.set_other _ _ own] at there
      obtain ⟨b, y', maker', client, owner⟩ := inv.worker v y q there locks
      have other : b ≠ c := client_ne client cell (by simp [owner, free])
      exact ⟨b, y', maker', by rwa [Heap.set_other _ _ other], owner⟩

/-- A worker gives the lock back. -/
theorem Locks.yield {x : Worker} {z' : Client} {pc : WorkerPc} (inv : Locks clients workers conns place)
    (here : workers w = some x) (locked : x.pc.locks = some r) (at_ : place r = old) (maker : old.maker = some c)
    (unlocked : pc.locks = none) : Locks (clients.set c z') (workers.set w { x with pc := pc }) conns place := by
  subst at_
  obtain ⟨c', z, maker', cell, own⟩ := inv.worker w x r here locked
  cases Option.some.inj (maker.symm.trans maker')
  constructor
  · intro b locks
    obtain ⟨y, client, owner⟩ := inv.conn b locks
    have other : b ≠ c := client_ne client cell (by simp [owner, own])
    exact ⟨y, by rwa [Heap.set_other _ _ other], owner⟩
  · intro v y q there locks
    have different : v ≠ w := by
      rintro rfl
      rw [Heap.set_here] at there
      cases there
      rw [unlocked] at locks
      cases locks
    rw [Heap.set_other _ _ different] at there
    obtain ⟨b, y', maker'', client, owner⟩ := inv.worker v y q there locks
    -- the lock of `c` is with `w`, so the other worker holds another one
    have other : b ≠ c := client_ne client cell (by simp [owner, own, different])
    exact ⟨b, y', maker'', by rwa [Heap.set_other _ _ other], owner⟩

/-- A worker goes on without a lock. -/
theorem Locks.work {x : Worker} {pc : WorkerPc} (inv : Locks clients workers conns place) (unlocked : pc.locks = none) :
    Locks clients (workers.set w { x with pc := pc }) conns place := by
  refine ⟨inv.conn, ?_⟩
  intro v y q there locks
  have different : v ≠ w := by
    rintro rfl
    rw [Heap.set_here] at there
    cases there
    rw [unlocked] at locks
    cases locks
  rw [Heap.set_other _ _ different] at there
  exact inv.worker v y q there locks

/-- The locks do not notice a change of a worker that leaves it where it is. -/
theorem Locks.advance {x : Worker} (x' : Worker) (inv : Locks clients workers conns place)
    (here : workers w = some x) (same : x'.pc = x.pc) : Locks clients (workers.set w x') conns place := by
  refine ⟨inv.conn, ?_⟩
  intro v y q there locks
  by_cases own : v = w
  · subst own
    obtain rfl : x' = y := by simpa using there
    exact inv.worker v x q here (same ▸ locks)
  · rw [Heap.set_other _ _ own] at there
    exact inv.worker v y q there locks

/-- Nor that a worker is gone. -/
theorem Locks.leave (inv : Locks clients workers conns place) : Locks clients (workers.free w) conns place := by
  refine ⟨inv.conn, ?_⟩
  intro v y q there locks
  have other : v ≠ w := by
    rintro rfl
    rw [Heap.free_here] at there
    cases there
  rw [Heap.free_other _ other] at there
  exact inv.worker v y q there locks

/-- Nor that there is a new one. -/
theorem Locks.hire {p : Pool} (inv : Locks clients workers conns place) :
    Locks clients (workers.set w ⟨p, .idle, false⟩) conns place := by
  refine ⟨inv.conn, ?_⟩
  intro v y q there locks
  have other : v ≠ w := by
    rintro rfl
    rw [Heap.set_here] at there
    cases there
    cases locks
  rw [Heap.set_other _ _ other] at there
  exact inv.worker v y q there locks

end

end Pire2Pire.Requests
