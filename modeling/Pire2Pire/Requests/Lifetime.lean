import Pire2Pire.Requests.Ownership

/-! Requests live as long as they are used, and are freed exactly once, as long as no connection
ends while one of its requests is dequeued and not yet assigned. -/
namespace Pire2Pire.Requests

open Pire2Pire.Library

variable {s t : State} {place : Nat → Place} {r c w : Nat} {x : Worker} {y : Request} {z : Client}

/-! ### Runs -/

/-- No thread of its pool has dequeued the request without having assigned it to itself. -/
def Unclaimed (s : State) (r : Nat) (p : Pool) : Prop :=
  ∀ w ∈ s.threads p, (s.workers w).map Worker.pc ≠ some (.got r)

instance (s : State) (r : Nat) (p : Pool) : Decidable (Unclaimed s r p) :=
  inferInstanceAs (Decidable (∀ w ∈ s.threads p, _))

/-- When the cleanup looks at a request that is not assigned, no worker has dequeued it. -/
def Spares (s : State) : Event → Prop
  | .conn c .clean =>
    match s.conns c with
    | .cleaning (r :: _) => ∀ y ∈ s.reqs r, y.assigned = false → Unclaimed s r y.pool
    | _ => True
  | _ => True

instance (s : State) (e : Event) : Decidable (Spares s e) := by
  unfold Spares
  split
  · split <;> infer_instance
  · infer_instance

private theorem flush_spared {rest : List Nat} (inv : Inv s place) (pc : s.conns c = .cleaning (r :: rest))
    (cell : s.reqs r = some y) (unassigned : y.assigned = false) (spares : Spares s (.conn c .clean)) :
    ∀ w x, s.workers w = some x → x.pc ≠ .got r := by
  intro w x here position
  simp only [Spares, pc, cell, Option.mem_def, Option.some.injEq, forall_eq'] at spares
  have fits := inv.objects.fits r y cell
  have samePool : x.pool = y.pool := by
    obtain ⟨b, taken⟩ := inv.workers.fits_at here position
    rw [taken] at fits
    exact fits.2.2.symm
  exact spares unassigned w (samePool ▸ inv.workers.member w x here) (by simp [here, position])

private theorem own_request {pc : ConnPc} (inv : Inv s place) (at_ : s.conns c = pc)
    (busy : pc.request = some r) : ∃ y, s.reqs r = some y := by
  subst at_
  have unfreed : (place r).timesFreed = 0 := by
    rcases (inv.conns.fits c).busy busy with isFresh | isWaiting | ⟨-, isReleased | ⟨p, w, held⟩⟩
    · simp [isFresh, Place.timesFreed]
    · simp [isWaiting, Place.timesFreed]
    · simp [isReleased, Place.timesFreed]
    · simp [held, Place.timesFreed]
  obtain ⟨y, cell, -⟩ := inv.objects.cell rfl ((inv.conns.fits c).maker busy) unfreed
  exact ⟨y, cell⟩

private theorem own_client {pc : ConnPc} (inv : Inv s place) (at_ : s.conns c = pc) (born : pc ≠ .unborn)
    (going : pc ≠ .finished) : ∃ z, s.clients c = some z := by
  rw [← Option.ne_none_iff_exists', ne_eq, inv.lists.alive, at_]
  simp [born, going]

private theorem lockReq_some {agent : Agent} {k : Client → State → State} (client : s.clients c = some z)
    (taken : s.lockReq c agent k = some t) :
    z.reqLock = none ∧ t = k z (s.setClient c { z with reqLock := some agent }) := by
  simp only [State.lockReq, State.useClient, client] at taken
  split at taken
  next free => exact ⟨free, (Option.some.inj taken).symm⟩
  next => cases taken

/-- The listed requests of a client are allocated. -/
private theorem listed_allocated (inv : Inv s place) {l : List Nat}
    (listed : ∀ q ∈ l, (place q).listedBy = some c) : l.all (fun q => (s.reqs q).isSome) = true := by
  rw [List.all_eq_true]
  intro q member
  obtain ⟨y, cell, -⟩ := inv.objects.present rfl (listed q member)
  simp [cell]

theorem clean_inv {rest : List Nat} (inv : Inv s place) (spares : Spares s (.conn c .clean))
    (pc : s.conns c = .cleaning (r :: rest)) (taken : s.clean c r rest = some t) : ∃ place', Inv t place' := by
  obtain ⟨y, cell, -⟩ := inv.objects.present rfl ((inv.lists.listed c r).mp (by simp [pc, ConnPc.listed]))
  simp only [State.clean, State.useRequest, cell] at taken
  split at taken
  next assigned =>
    obtain ⟨i, found⟩ := kill_finds inv pc cell assigned
    simp only [found, Option.some.injEq] at taken
    subst taken
    exact ⟨_, kill_inv inv pc cell assigned found⟩
  next unassigned =>
    simp only [Bool.not_eq_true] at unassigned
    cases taken
    exact flush_inv inv pc cell unassigned (flush_spared inv pc cell unassigned spares)

theorem connStep_inv {limit : Int} {act : ConnAct} (inv : Inv s place) (spares : Spares s (.conn c act))
    (taken : connStep limit s c act = some t) : ∃ place', Inv t place' := by
  unfold connStep at taken
  split at taken
  next pc => -- accept
    cases taken
    exact ⟨_, accept_inv inv pc⟩
  next pc => -- readLine
    obtain ⟨z, client⟩ := own_client inv pc (by simp) (by simp)
    obtain ⟨free, rfl⟩ := lockReq_some client taken
    exact ⟨_, lock_inv (r := 0) inv client free (Or.inl ⟨pc, rfl⟩)⟩
  next pc => -- check
    obtain ⟨z, client⟩ := own_client inv pc (by simp) (by simp)
    simp only [State.useClient, client, Option.some.injEq] at taken
    subst taken
    refine ⟨_, unlock_inv inv client (Or.inl ⟨pc, ?_⟩)⟩
    split <;> simp
  next pc => -- create, without memory
    cases taken
    exact ⟨_, goes_inv inv (Or.inl ⟨pc, rfl⟩)⟩
  next r p pc => -- create
    split at taken
    next unmade =>
      cases taken
      exact create_inv inv pc unmade
    next => cases taken
  next r pc => -- lock
    obtain ⟨z, client⟩ := own_client inv pc (by simp) (by simp)
    obtain ⟨free, rfl⟩ := lockReq_some client taken
    exact ⟨_, lock_inv inv client free (Or.inr (Or.inl ⟨pc, rfl⟩))⟩
  next r pc => -- link
    obtain ⟨z, client⟩ := own_client inv pc (by simp) (by simp)
    obtain ⟨y, cell⟩ := own_request inv pc rfl
    have listed : ∀ q ∈ z.requests.take 1, (place q).listedBy = some c := by
      intro q member
      refine (inv.lists.listed c q).mp ?_
      simpa [pc, ConnPc.listed, client] using List.mem_of_mem_take member
    simp only [State.link, State.useClient, client, State.useRequest, cell, State.useRequests,
      listed_allocated inv listed, if_true, Option.some.injEq] at taken
    subst taken
    exact link_inv inv pc client
  next r queued pc => -- queue
    obtain ⟨y, cell⟩ := own_request inv pc rfl
    simp only [State.useRequest, cell, Option.some.injEq] at taken
    subst taken
    cases queued with
    | false => exact strand_inv inv pc
    | true => exact queue_inv inv pc cell
  next pc => -- hangUp
    cases taken
    exact ⟨_, goes_inv inv (Or.inr ⟨pc, rfl⟩)⟩
  next pc => -- the lock of the cleanup
    obtain ⟨z, client⟩ := own_client inv pc (by simp) (by simp)
    obtain ⟨free, rfl⟩ := lockReq_some client taken
    exact ⟨_, lock_inv (r := 0) inv client free (Or.inr (Or.inr ⟨pc, rfl⟩))⟩
  next r rest pc => exact clean_inv inv spares pc taken
  next r p i rest pc => -- cancel
    cases taken
    exact ⟨_, cancel_inv inv pc⟩
  next r p i rest pc => -- join
    obtain ⟨u, joined, rfl⟩ := Option.map_eq_some_iff.mp taken
    unfold State.join at joined
    split at joined
    next => cases joined
    next w slot =>
      split at joined
      next x here =>
        split at joined
        next =>
          cases joined
          exact join_inv inv pc slot here
        next => cases joined
      next => cases joined
  next r p i rest t' pc => -- replace
    obtain ⟨u, replaced, rfl⟩ := Option.map_eq_some_iff.mp taken
    unfold State.replace at replaced
    split at replaced
    next free =>
      cases replaced
      exact ⟨_, replace_inv inv pc free.1 free.2.1 free.2.2⟩
    next => cases replaced
  next r rest pc => -- release
    obtain ⟨y, cell⟩ := own_request inv pc rfl
    simp only [State.useRequest, cell, Option.some.injEq] at taken
    subst taken
    exact release_inv inv pc
  next pc => -- unlock
    obtain ⟨z, client⟩ := own_client inv pc (by simp) (by simp)
    simp only [State.useClient, client, Option.some.injEq] at taken
    subst taken
    exact ⟨_, unlock_inv inv client (Or.inr ⟨pc, rfl⟩)⟩
  next pc => -- freeClient
    obtain ⟨z, client⟩ := own_client inv pc (by simp) (by simp)
    simp only [State.useClient, client, Option.some.injEq] at taken
    subst taken
    exact ⟨_, freeClient_inv inv pc⟩
  next => cases taken

/-- A worker that has a request which is still listed finds the request and its client. -/
private theorem held_request {pc : WorkerPc} (inv : Inv s place) (here : s.workers w = some x)
    (at_ : x.pc = pc) (busy : pc.request = some r) (linked : pc ≠ .freeing r) :
    ∃ y z, s.reqs r = some y ∧ s.clients y.client = some z ∧ (place r).listedBy = some y.client := by
  have workerFits := inv.workers.fits_at here at_
  obtain ⟨c, listed⟩ : ∃ c, (place r).listedBy = some c := by
    cases pc with
    | idle | exited => cases busy
    | got q | assigning q =>
      cases busy
      obtain ⟨c, taken⟩ := workerFits
      exact ⟨c, by rw [taken, Place.listedBy]⟩
    | running q | walking q | finishing q | unlinking q =>
      cases busy
      obtain ⟨c, running⟩ := workerFits
      exact ⟨c, by rw [running, Place.listedBy]⟩
    | freeing q =>
      cases busy
      exact absurd rfl linked
  obtain ⟨y, cell, fits⟩ := inv.objects.present rfl listed
  have same : y.client = c :=
    Option.some.inj (fits.maker.symm.trans (Place.listedBy_maker listed).1)
  obtain ⟨-, z, client⟩ := inv.lists.client listed
  exact ⟨y, z, cell, same ▸ client, same ▸ listed⟩

/-- Under its lock a worker sees the list that the invariant speaks of. -/
private theorem locked_requests (inv : Inv s place) (here : s.workers w = some x)
    (locks : x.pc.locks = some r) (cell : s.reqs r = some y) (client : s.clients y.client = some z)
    (listed : (place r).listedBy = some y.client) (q : Nat) :
    q ∈ z.requests ↔ (place q).listedBy = some y.client := by
  have unlocked := inv.locks.outside here locks rfl (inv.objects.fits r y cell).maker
  have member := (inv.lists.listed y.client r).mpr listed
  rw [← inv.lists.listed y.client q, client, ConnPc.listed_requests unlocked member]

theorem waitReq_keeps {pc : WorkerPc} (inv : Inv s place) (here : s.workers w = some x)
    (before : x.pc = .got r ∧ pc = .assigning r ∨
      x.pc = .running r ∧ pc = .walking r ∨ x.pc = .finishing r ∧ pc = .unlinking r)
    (taken : s.waitReq w x r pc = some t) : ∃ place', Inv t place' := by
  obtain ⟨y, z, cell, client, -⟩ : ∃ y z, s.reqs r = some y ∧ s.clients y.client = some z ∧
      (place r).listedBy = some y.client := by
    rcases before with ⟨at_, -⟩ | ⟨at_, -⟩ | ⟨at_, -⟩ <;> exact held_request inv here at_ rfl (by simp)
  simp only [State.waitReq, State.useRequest, cell] at taken
  obtain ⟨free, rfl⟩ := lockReq_some client taken
  exact ⟨_, waitReq_inv inv here before cell client free⟩

theorem unlink_keeps (inv : Inv s place) (here : s.workers w = some x) (pc : x.pc = .unlinking r)
    (taken : s.unlink w x r = some t) : ∃ place', Inv t place' := by
  obtain ⟨y, z, cell, client, listed⟩ := held_request inv here pc rfl (by simp)
  have listedIff := locked_requests inv here (by simp [pc, WorkerPc.locks]) cell client listed
  have visitedListed : ∀ q ∈ visited z.requests r, (place q).listedBy = some y.client := by
    intro q member
    exact (listedIff q).mp (List.mem_of_mem_take member)
  simp only [State.unlink, State.useRequest, cell, State.useClient, client, (listedIff r).mpr listed,
    State.useRequests, listed_allocated inv visitedListed, if_true, Option.some.injEq] at taken
  subst taken
  exact unlink_inv inv here pc cell client

theorem workerStep_inv {act : WorkerAct} (inv : Inv s place) (taken : workerStep s w act = some t) :
    ∃ place', Inv t place' := by
  unfold workerStep at taken
  split at taken
  next => cases taken
  next x here =>
  split at taken
  next pc => -- dequeue
    split at taken
    next r rest queue =>
      cases taken
      exact dequeue_inv inv here pc queue
    next => cases taken
  next r pc => exact waitReq_keeps inv here (Or.inl ⟨pc, rfl⟩) taken
  next r pc => -- assign
    obtain ⟨y, z, cell, client, -⟩ := held_request inv here pc rfl (by simp)
    simp only [State.assign, State.useRequest, cell, State.useClient, client, Option.some.injEq] at taken
    subst taken
    exact assign_inv inv here pc cell client
  next r pc => -- use
    obtain ⟨y, z, cell, client, -⟩ := held_request inv here pc rfl (by simp)
    simp only [State.useRequest, cell, State.useClient, client, Option.some.injEq] at taken
    exact ⟨place, taken ▸ inv⟩
  next r pc => exact waitReq_keeps inv here (Or.inr (Or.inl ⟨pc, rfl⟩)) taken
  next r pc => -- walk
    obtain ⟨y, z, cell, client, listed⟩ := held_request inv here pc rfl (by simp)
    have listedIff := locked_requests inv here (by simp [pc, WorkerPc.locks]) cell client listed
    simp only [State.useRequest, cell, State.useClient, client, State.useRequests,
      listed_allocated inv (fun q => (listedIff q).mp), if_true, Option.some.injEq] at taken
    exact ⟨place, taken ▸ inv⟩
  next r pc => -- post
    obtain ⟨y, z, cell, client, -⟩ := held_request inv here pc rfl (by simp)
    simp only [State.useRequest, cell, State.useClient, client, Option.some.injEq] at taken
    subst taken
    exact ⟨_, post_inv inv here pc cell client⟩
  next r pc => -- finish
    cases taken
    exact ⟨_, finish_inv inv here pc⟩
  next r pc => exact waitReq_keeps inv here (Or.inr (Or.inr ⟨pc, rfl⟩)) taken
  next r pc => exact unlink_keeps inv here pc taken
  next r pc => -- free
    obtain ⟨c, unlinked⟩ := inv.workers.fits_at here pc
    obtain ⟨y, cell, -⟩ := inv.objects.cell unlinked rfl rfl
    simp only [State.useRequest, cell, Option.some.injEq] at taken
    subst taken
    exact free_inv inv here pc
  next => -- die
    split at taken
    next point =>
      cases taken
      exact ⟨_, die_inv inv here point.1⟩
    next => cases taken
  next => cases taken

theorem start_inv {fast slow : List Nat} (distinct : (fast ++ slow).Nodup) :
    Inv (start fast slow) fun _ => .unmade := by
  obtain ⟨fastOnce, slowOnce, -⟩ := List.nodup_append.mp distinct
  have idle : ∀ w x, (start fast slow).workers w = some x →
      x.pc = .idle ∧ x.cancelled = false ∧ w ∈ (start fast slow).threads x.pool := by
    intro w x here
    simp only [start] at here ⊢
    split at here
    next member => cases here; exact ⟨rfl, rfl, member⟩
    next =>
      split at here
      next member =>
        cases here
        exact ⟨rfl, rfl, member⟩
      next => cases here
  refine ⟨rfl, ?_, ?_, ?_, ?_, ?_, ?_⟩
  · constructor <;> simp [start, Place.maker, Place.timesFreed]
  · constructor <;> simp [start]
  · constructor <;> simp [start, ConnPc.listed, Place.listedBy]
  · constructor
    case member => exact fun w x here => (idle w x here).2.2
    case once => rintro (_ | _) <;> assumption
    case fits =>
      intro w x here
      rw [(idle w x here).1]
      trivial
    case cancelled =>
      intro w x here marked
      rw [(idle w x here).2.1] at marked
      cases marked
    all_goals simp [Place.holder]
  · constructor <;> simp [start, ConnPc.Fits]
  · constructor
    · simp [start, ConnPc.locks]
    · intro w x r here locks
      rw [(idle w x here).1] at locks
      cases locks

/-- What the life of requests should look like. No access to a freed request or client has
happened, no request was freed twice, and once the connection of a client is over and no worker is
busy with one of its requests any more, the request has been freed. -/
structure Clean (s : State) : Prop where
  sound : s.fault = false
  once : ∀ r, s.frees r ≤ 1
  complete : ∀ r c, s.made r = some c → s.conns c = .finished →
    (∀ w x, s.workers w = some x → x.pc.request ≠ some r) → s.frees r = 1

theorem inv_clean (inv : Inv s place) : Clean s := by
  refine ⟨inv.sound, ?_, ?_⟩
  · intro r
    rw [inv.objects.frees]
    cases place r <;> simp [Place.timesFreed]
  · intro r c made ended unused
    rw [inv.objects.made] at made
    rw [inv.objects.frees]
    have unlisted : (place r).listedBy ≠ some c := by
      rw [ne_eq, ← inv.lists.listed, ended]
      simp [ConnPc.listed]
    cases placed : place r with
    | unmade => simp [placed, Place.maker] at made
    | fresh b =>
      rw [placed] at made
      cases made
      rcases inv.conns.fresh r c placed with here | here
      · cases ended.symm.trans here
      · cases ended.symm.trans here
    | unlinked b w =>
      obtain ⟨x, here, freeing⟩ := inv.workers.unlinked r b w placed
      exact absurd (by rw [freeing, WorkerPc.request]) (unused w x here)
    | freed => rfl
    | _ =>
      rw [placed] at made unlisted
      exact absurd made unlisted

/-- Over every interleaving of connection threads and workers in which the cleanup of a connection
never meets a request that is dequeued and not yet assigned, requests are freed exactly once and
nothing is used after it was freed. -/
theorem requests_freed_once (limit : Int) (fast slow : List Nat) (distinct : (fast ++ slow).Nodup)
    (es : List Event) (spares : Along (step limit) Spares (start fast slow) es) (s : State)
    (ran : exec (step limit) (start fast slow) es = some s) : Clean s := by
  have kept : ∀ s e t, (∃ place, Inv s place) → Spares s e → step limit s e = some t →
      ∃ place, Inv t place := by
    intro s e t holds spared taken
    obtain ⟨place, inv⟩ := holds
    cases e with
    | conn c act => exact connStep_inv inv spared taken
    | worker w act => exact workerStep_inv inv taken
  obtain ⟨place, inv⟩ := exec_invariant Spares (fun s => ∃ place, Inv s place) kept
    ⟨_, start_inv distinct⟩ spares ran
  exact inv_clean inv

/-- A client sends a line, and its request is linked and queued. -/
def submit : List Event :=
  [.conn 0 .accept, .conn 0 .readLine, .conn 0 .check, .conn 0 (.create (some 5) .fast), .conn 0 .lock,
    .conn 0 .link, .conn 0 (.queue true)]

/-- The client disconnects, and its only request is cleaned up. -/
def disconnect : List Event :=
  [.conn 0 .hangUp, .conn 0 .lock, .conn 0 .clean, .conn 0 .release, .conn 0 .unlock, .conn 0 .freeClient]

/-- A worker starts the request, the client disconnects, and the cleanup kills the worker. -/
def killed : List Event :=
  submit ++ [.worker 1 .dequeue, .worker 1 .wait, .worker 1 .assign, .worker 1 .use, .conn 0 .hangUp,
    .conn 0 .lock, .conn 0 .clean, .conn 0 .cancel, .worker 1 .die, .conn 0 .join, .conn 0 (.replace 3),
    .conn 0 .release, .conn 0 .unlock, .conn 0 .freeClient]

theorem killed_request_freed_once :
    ∃ s, exec (step 10) (start [1] [2]) killed = some s ∧ Clean s ∧ s.frees 5 = 1 :=
  ⟨_, rfl, requests_freed_once 10 [1] [2] (by decide) killed (by decide) _ rfl, by decide⟩

/-- A client that disconnects when its request is dequeued and not yet assigned: the flush finds
nothing, and the worker goes on with the freed request. -/
theorem dequeued_request_used_after_free : ∃ s, exec (step 10) (start [1] [2])
      (submit ++ [.worker 1 .dequeue] ++ disconnect ++ [.worker 1 .wait]) = some s ∧ ¬ Clean s :=
  ⟨_, rfl, fun clean => absurd clean.sound (by decide)⟩

end Pire2Pire.Requests
