import Pire2Pire.Library.Heap
import Pire2Pire.Library.Runs

/-! Client requests and the threads that share them: the connection threads of
`client_handler.c` and the pool workers that run `client_request_handler`.

A step of a thread is what it does between two points at which another thread can get in
its way: taking a lock, working on what the lock protects and releasing it, an operation of
the pool (atomic under the pool's mutex), or a stretch of code that touches nothing shared. -/
namespace Pire2Pire.Requests

open Pire2Pire.Library

/-- The two pools that requests are queued in. -/
inductive Pool where
  | fast
  | slow
  deriving DecidableEq, Repr

def Pool.other : Pool → Pool
  | .fast => .slow
  | .slow => .fast

/-- `struct client_request`. The thread is `none` while it is the dummy value that
`client_request_new` stores. -/
structure Request where
  client : Nat
  pool : Pool
  tid : Option Nat
  assigned : Bool
  deriving DecidableEq, Repr

/-- `client_request_new`. -/
def clientRequestNew (client : Nat) (pool : Pool) : Request := ⟨client, pool, none, false⟩

/-- Who can take a `req_lock`: the connection thread of a client, or a worker. -/
inductive Agent where
  | conn (c : Nat)
  | worker (w : Nat)
  deriving DecidableEq, Repr

/-- `struct client`, with its list of requests (most recent first). The semaphore `req_lock`
has the value 1 while nobody has taken it. -/
structure Client where
  requests : List Nat
  nbRequests : Int
  reqLock : Option Agent
  deriving DecidableEq, Repr

/-- `client_new`. -/
def clientNew : Client := ⟨[], 0, none⟩

/-- Where a connection thread is in `handle_requests` and `handle_client`. -/
inductive ConnPc where
  | unborn
  /-- in `socket_getline` -/
  | reading
  /-- has taken `req_lock` to look at `nb_requests` -/
  | checking
  /-- about to call `client_request_new` -/
  | creating
  | created (r : Nat)
  /-- has taken `req_lock` to link the request -/
  | linking (r : Nat)
  /-- about to call `pool_queue` -/
  | queueing (r : Nat)
  /-- `handle_requests` has returned -/
  | ended
  /-- at the head of the cleanup loop, with the requests it still has to visit -/
  | cleaning (rest : List Nat)
  /-- in `pool_kill`, which has found the thread in slot `i` of the pool -/
  | cancelling (r : Nat) (p : Pool) (i : Nat) (rest : List Nat)
  | joining (r : Nat) (p : Pool) (i : Nat) (rest : List Nat)
  | replacing (r : Nat) (p : Pool) (i : Nat) (rest : List Nat)
  /-- about to free the request -/
  | releasing (r : Nat) (rest : List Nat)
  /-- has released `req_lock`, about to call `client_free` -/
  | unlocked
  | finished
  deriving DecidableEq, Repr

/-- Where a worker is in `worker_thread` and `client_request_handler`. -/
inductive WorkerPc where
  | idle
  /-- has dequeued the request, about to take `req_lock` -/
  | got (r : Nat)
  /-- has taken `req_lock` to set `tid` and `assigned` -/
  | assigning (r : Nat)
  /-- in the handler -/
  | running (r : Nat)
  /-- in a handler that has taken `req_lock` (`client_request_info`) -/
  | walking (r : Nat)
  /-- the handler has returned, about to take `req_lock` again -/
  | finishing (r : Nat)
  /-- has taken `req_lock` to unlink the request -/
  | unlinking (r : Nat)
  /-- about to free the request -/
  | freeing (r : Nat)
  /-- cancelled; its cleanup handlers have run -/
  | exited
  deriving DecidableEq, Repr

/-- The request a worker is busy with. -/
def WorkerPc.request : WorkerPc → Option Nat
  | .idle | .exited => none
  | .got r | .assigning r | .running r | .walking r | .finishing r | .unlinking r | .freeing r => some r

/-- The places where a pending cancellation is acted upon: the condition wait, `sem_wait`, and
the calls of a handler. Setting `tid`, unlinking and freeing have none. -/
def WorkerPc.cancellable : WorkerPc → Bool
  | .idle | .got _ | .running _ | .walking _ | .finishing _ => true
  | .assigning _ | .unlinking _ | .freeing _ | .exited => false

structure Worker where
  pool : Pool
  pc : WorkerPc
  cancelled : Bool
  deriving DecidableEq, Repr

/-- The shared memory and the threads. An object is named by its allocation, so that no two
objects ever have the same name. `made` and `frees` record who created a request and how often
it was freed; `fault` is set by the first access to an object that is not allocated. -/
structure State where
  clients : Heap Client
  reqs : Heap Request
  conns : Nat → ConnPc
  /-- `pool->threads` -/
  threads : Pool → List Nat
  /-- the queued requests of each pool, in order -/
  queues : Pool → List Nat
  workers : Heap Worker
  made : Heap Nat
  frees : Nat → Nat
  fault : Bool

/-! ### Access to shared objects -/

def State.useRequest (s : State) (r : Nat) (k : Request → Option State) : Option State :=
  match s.reqs r with
  | some x => k x
  | none => some { s with fault := true }

def State.useRequests (s : State) (rs : List Nat) (k : Option State) : Option State :=
  if rs.all fun r => (s.reqs r).isSome then k else some { s with fault := true }

def State.useClient (s : State) (c : Nat) (k : Client → Option State) : Option State :=
  match s.clients c with
  | some x => k x
  | none => some { s with fault := true }

def State.connGoto (s : State) (c : Nat) (pc : ConnPc) : State :=
  { s with conns := Function.update s.conns c pc }

def State.workerGoto (s : State) (w : Nat) (x : Worker) (pc : WorkerPc) : State :=
  { s with workers := s.workers.set w { x with pc := pc } }

def State.setClient (s : State) (c : Nat) (x : Client) : State :=
  { s with clients := s.clients.set c x }

def State.setQueue (s : State) (p : Pool) (q : List Nat) : State :=
  { s with queues := Function.update s.queues p q }

/-- `sem_wait (&c->req_lock)`: possible only while nobody has taken it. -/
def State.lockReq (s : State) (c : Nat) (agent : Agent) (k : Client → State → State) : Option State :=
  s.useClient c fun x =>
    if x.reqLock = none then some (k x (s.setClient c { x with reqLock := some agent })) else none

/-- `client_request_free`. -/
def State.freeRequest (s : State) (r : Nat) : State :=
  { s with reqs := s.reqs.free r, frees := Function.update s.frees r (s.frees r + 1) }

/-! ### The connection thread -/

inductive ConnAct where
  /-- a client connects -/
  | accept
  /-- a line arrives, and the thread takes `req_lock` -/
  | readLine
  | check
  /-- `client_request_new`, with what malloc returns -/
  | create (a : Ptr) (p : Pool)
  | lock
  | link
  /-- `pool_queue`; its malloc may fail -/
  | queue (queued : Bool)
  /-- the connection is closed, or the line is quit -/
  | hangUp
  /-- the body of the cleanup loop up to `pthread_cancel` or the end of the flush -/
  | clean
  | cancel
  | join
  /-- `pthread_create`, with the thread it creates -/
  | replace (t : Nat)
  | release
  | unlock
  | freeClient
  deriving DecidableEq, Repr

/-- `client_request_add` links the request before the head of the list and so writes both. -/
def State.link (s : State) (c r : Nat) : Option State :=
  s.useClient c fun x => s.useRequest r fun _ => s.useRequests (x.requests.take 1) <|
    some ((s.setClient c { x with requests := r :: x.requests, reqLock := none }).connGoto c (.queueing r))

/-- One round of the cleanup loop up to the free: `pool_kill` if the request is assigned, else
`pool_flush_by_arg`. -/
def State.clean (s : State) (c r : Nat) (rest : List Nat) : Option State :=
  s.useRequest r fun x =>
    if x.assigned then
      match (s.threads x.pool).findIdx? fun t => some t = x.tid with
      | some i => some (s.connGoto c (.cancelling r x.pool i rest))
      | none => some (s.connGoto c (.releasing r rest))
    else
      some ((s.setQueue x.pool ((s.queues x.pool).filter (· ≠ r))).connGoto c (.releasing r rest))

/-- `pthread_cancel (pool->threads[i])`. -/
def State.cancel (s : State) (p : Pool) (i : Nat) : State :=
  match (s.threads p)[i]?.bind s.workers, (s.threads p)[i]? with
  | some x, some w => { s with workers := s.workers.set w { x with cancelled := true } }
  | _, _ => s

/-- `pthread_join (pool->threads[i])` returns once the thread has exited. -/
def State.join (s : State) (p : Pool) (i : Nat) : Option State :=
  match (s.threads p)[i]? with
  | none => none
  | some w =>
    match s.workers w with
    | some x => if x.pc = .exited then some { s with workers := s.workers.free w } else none
    | none => none

/-- `pthread_create (pool->threads + i)`. The new thread is not one that exists, and its name is
in no other slot of the pools. -/
def State.replace (s : State) (p : Pool) (i t : Nat) : Option State :=
  if s.workers t = none ∧ t ∉ (s.threads p).eraseIdx i ∧ t ∉ s.threads p.other then
    some { s with
      threads := Function.update s.threads p ((s.threads p).set i t)
      workers := s.workers.set t ⟨p, .idle, false⟩ }
  else none

/-- One step of the connection thread of client `c`; `limit` is `max_requests_per_client`. -/
def connStep (limit : Int) (s : State) (c : Nat) (act : ConnAct) : Option State :=
  match s.conns c, act with
  | .unborn, .accept => some ((s.setClient c clientNew).connGoto c .reading)
  | .reading, .readLine => s.lockReq c (.conn c) fun _ t => t.connGoto c .checking
  | .checking, .check =>
    s.useClient c fun x =>
      some ((s.setClient c { x with reqLock := none }).connGoto c
        (if x.nbRequests = limit then .reading else .creating))
  | .creating, .create none _ => some (s.connGoto c .reading)
  | .creating, .create (some r) p =>
    if s.made r = none then
      some ({ s with reqs := s.reqs.set r (clientRequestNew c p), made := s.made.set r c }.connGoto c (.created r))
    else none
  | .created r, .lock => s.lockReq c (.conn c) fun _ t => t.connGoto c (.linking r)
  | .linking r, .link => s.link c r
  | .queueing r, .queue queued =>
    s.useRequest r fun x =>
      some ((if queued then s.setQueue x.pool (s.queues x.pool ++ [r]) else s).connGoto c .reading)
  | .reading, .hangUp => some (s.connGoto c .ended)
  | .ended, .lock => s.lockReq c (.conn c) fun x t => t.connGoto c (.cleaning x.requests)
  | .cleaning (r :: rest), .clean => s.clean c r rest
  | .cancelling r p i rest, .cancel => some ((s.cancel p i).connGoto c (.joining r p i rest))
  | .joining r p i rest, .join => (s.join p i).map fun t => t.connGoto c (.replacing r p i rest)
  | .replacing r p i rest, .replace t => (s.replace p i t).map fun u => u.connGoto c (.releasing r rest)
  | .releasing r rest, .release => s.useRequest r fun _ => some ((s.freeRequest r).connGoto c (.cleaning rest))
  | .cleaning [], .unlock =>
    s.useClient c fun x => some ((s.setClient c { x with reqLock := none }).connGoto c .unlocked)
  | .unlocked, .freeClient =>
    s.useClient c fun _ => some ({ s with clients := s.clients.free c }.connGoto c .finished)
  | _, _ => none

/-! ### The workers -/

inductive WorkerAct where
  | dequeue
  /-- `sem_wait (&r->client->req_lock)` -/
  | wait
  | assign
  /-- a step of the handler -/
  | use
  /-- a step of a handler under `req_lock`, which reads the list of requests -/
  | walk
  | post
  /-- the handler returns -/
  | finish
  | unlink
  | free
  /-- a pending cancellation is acted upon -/
  | die
  deriving DecidableEq, Repr

/-- `sem_wait (&r->client->req_lock)`. -/
def State.waitReq (s : State) (w : Nat) (x : Worker) (r : Nat) (pc : WorkerPc) : Option State :=
  s.useRequest r fun y => s.lockReq y.client (.worker w) fun _ t => t.workerGoto w x pc

/-- The first critical section of `client_request_handler`. -/
def State.assign (s : State) (w : Nat) (x : Worker) (r : Nat) : Option State :=
  s.useRequest r fun y => s.useClient y.client fun z =>
    some (({ s with reqs := s.reqs.set r { y with tid := some w, assigned := true } }.setClient y.client
      { z with nbRequests := z.nbRequests + 1, reqLock := none }).workerGoto w x (.running r))

/-- The requests that `client_request_remove` visits: those up to `r`, and the one behind. -/
def visited (l : List Nat) (r : Nat) : List Nat := l.take ((l.idxOf r) + 2)

/-- The second critical section. The search of `client_request_remove` runs off the end of a list
that does not hold the request. -/
def State.unlink (s : State) (w : Nat) (x : Worker) (r : Nat) : Option State :=
  s.useRequest r fun y => s.useClient y.client fun z =>
    if r ∈ z.requests then
      s.useRequests (visited z.requests r) <|
        some ((s.setClient y.client
          { requests := z.requests.erase r, nbRequests := z.nbRequests - 1, reqLock := none }).workerGoto
            w x (.freeing r))
    else some { s with fault := true }

/-- One step of the worker `w`. -/
def workerStep (s : State) (w : Nat) (act : WorkerAct) : Option State :=
  match s.workers w with
  | none => none
  | some x =>
    match x.pc, act with
    | .idle, .dequeue =>
      match s.queues x.pool with
      | r :: rest => some ((s.setQueue x.pool rest).workerGoto w x (.got r))
      | [] => none
    | .got r, .wait => s.waitReq w x r (.assigning r)
    | .assigning r, .assign => s.assign w x r
    | .running r, .use => s.useRequest r fun y => s.useClient y.client fun _ => some s
    | .running r, .wait => s.waitReq w x r (.walking r)
    | .walking r, .walk =>
      s.useRequest r fun y => s.useClient y.client fun z => s.useRequests z.requests (some s)
    | .walking r, .post =>
      s.useRequest r fun y => s.useClient y.client fun z =>
        some ((s.setClient y.client { z with reqLock := none }).workerGoto w x (.running r))
    | .running r, .finish => some (s.workerGoto w x (.finishing r))
    | .finishing r, .wait => s.waitReq w x r (.unlinking r)
    | .unlinking r, .unlink => s.unlink w x r
    | .freeing r, .free => s.useRequest r fun _ => some ((s.freeRequest r).workerGoto w x .idle)
    | pc, .die => if x.cancelled ∧ pc.cancellable then some (s.workerGoto w x .exited) else none
    | _, _ => none

/-! ### The system -/

inductive Event where
  | conn (c : Nat) (act : ConnAct)
  | worker (w : Nat) (act : WorkerAct)
  deriving DecidableEq, Repr

def step (limit : Int) (s : State) : Event → Option State
  | .conn c act => connStep limit s c act
  | .worker w act => workerStep s w act

/-- Two pools whose workers are idle, before the first client. -/
def start (fast slow : List Nat) : State where
  clients := fun _ => none
  reqs := fun _ => none
  conns := fun _ => .unborn
  threads := fun p => match p with
    | .fast => fast
    | .slow => slow
  queues := fun _ => []
  workers := fun w =>
    if w ∈ fast then some ⟨.fast, .idle, false⟩
    else if w ∈ slow then some ⟨.slow, .idle, false⟩
    else none
  made := fun _ => none
  frees := fun _ => 0
  fault := false

end Pire2Pire.Requests
