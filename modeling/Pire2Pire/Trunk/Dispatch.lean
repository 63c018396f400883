import Pire2Pire.Library.CString
import Pire2Pire.Library.Heap
import Pire2Pire.Library.Runs

/-! Requests in trunk (`trunk/daemon/client_handler.c`): the loop of `handle_requests` starts one thread for each
request, and passes it the request and its callback in one `wrapper` on its own stack.

A step is one access to the wrapper, one critical section under `req_lock`, or a stretch of code that touches
nothing that another thread writes. -/
namespace Pire2Pire.Trunk

open Library

/-! ### The callbacks -/

inductive Callback where
  | connect
  | download
  | get
  | help
  | info
  | list
  | raw
  | set
  | bar
  | unknown
deriving DecidableEq, Repr

/-- The words that `handle_requests` compares the start of a line with, in this order. -/
def commands : List (CString × Callback) :=
  [("connect".toList, .connect), ("download".toList, .download), ("get".toList, .get), ("help".toList, .help),
    ("info".toList, .info), ("list".toList, .list), ("raw".toList, .raw), ("set".toList, .set),
    ("bar".toList, .bar)]

def callbackFor (message : CString) : Callback :=
  ((commands.find? fun c => c.1.isPrefixOf message).map Prod.snd).getD .unknown

/-! ### The state -/

/-- `MAX_REQUESTS_PER_CLIENT`. -/
def maxRequestsPerClient : Nat := 2

/-- `struct client_request`. `client_request_new` leaves `thread_id` as malloc returned it. -/
structure Request where
  cmd : CString
  threadId : Nat
deriving DecidableEq, Repr

/-- `struct request_thread_wrapper`. -/
structure Wrapper where
  callback : Option Callback
  request : Option Nat
deriving DecidableEq, Repr

/-- Where the connection thread is in `handle_requests`. -/
inductive LoopPc where
  -- in `socket_getline`
  | reading
  -- about to call `client_request_new`
  | creating (message : CString)
  | linking (r : Nat) (callback : Callback)
  -- about to store `wrapper.callback`
  | storing (r : Nat) (callback : Callback)
  -- about to store `wrapper.request`
  | completing (r : Nat)
  -- about to call `pthread_create`
  | starting (r : Nat)
  -- behind `out`
  | killing
  | freeing
  -- has returned: neither the client nor the wrapper exists any more
  | finished
deriving DecidableEq, Repr

/-- Where a request thread is in `start_request_thread`. -/
inductive ThreadPc where
  | reading
  -- in the callback
  | executing
  -- about to take `req_lock`
  | removing
  | freeing
deriving DecidableEq, Repr

/-- A request thread with what it has read of the wrapper: `r`, and the two parts of the call. `startedFor` records
the request for which it was created. -/
structure Thread where
  pc : ThreadPc
  startedFor : Nat
  r : Option Nat
  callback : Option Callback
  argument : Option Nat
deriving DecidableEq, Repr

/-- Every read of the wrapper is done. -/
def Thread.AllRead (x : Thread) : Prop :=
  x.r.isSome ∧ x.callback.isSome ∧ x.argument.isSome

instance (x : Thread) : Decidable x.AllRead :=
  inferInstanceAs (Decidable (_ ∧ _ ∧ _))

/-- One client with its connection thread and its request threads. Objects are named by their allocation. `lines`,
`accepted`, `created`, `executions`, `removals` and `frees` record what has happened: the line a request was created
for, the requests that were linked, the threads that were created, which callback was called on which request, which
requests were unlinked and freed. -/
structure State where
  loop : LoopPc
  wrapper : Wrapper
  requests : List Nat
  reqs : Heap Request
  threads : Heap Thread
  lines : Heap CString
  accepted : List Nat
  created : List Nat
  executions : List (Callback × Nat)
  removals : List Nat
  frees : List Nat
  fault : Bool

def start : State where
  loop := .reading
  wrapper := ⟨none, none⟩
  requests := []
  reqs := fun _ => none
  threads := fun _ => none
  lines := fun _ => none
  accepted := []
  created := []
  executions := []
  removals := []
  frees := []
  fault := false

/-- An access to an object that is not there. -/
def State.fail (s : State) : Option State := some { s with fault := true }

def State.useRequest (s : State) (r : Nat) (k : Request → Option State) : Option State :=
  match s.reqs r with
  | some y => k y
  | none => s.fail

def State.useRequests (s : State) (rs : List Nat) (k : Option State) : Option State :=
  if rs.all fun r => (s.reqs r).isSome then k else s.fail

/-! ### The connection thread -/

inductive LoopAct where
  -- `socket_getline`, the test for quit and `client_request_count`
  | line (message : Option CString)
  -- `client_request_new`: what malloc returns, and what the memory holds where `thread_id` will be
  | create (allocated : Option (Nat × Nat))
  | link
  | store
  | complete
  -- `pthread_create`, with the thread it creates
  | start (created : Option Nat)
  -- the loop that sends SIGTERM, whose handler only detaches the thread
  | kill
  -- `client_free` and the return
  | free
deriving DecidableEq, Repr

/-- `client_request_add`, which also writes the old head of the list. -/
def State.link (s : State) (r : Nat) (callback : Callback) : Option State :=
  s.useRequest r fun _ => s.useRequests (s.requests.take 1) <|
    some { s with
      requests := r :: s.requests
      accepted := r :: s.accepted
      loop := .storing r callback }

/-- `pthread_create` writes `request->thread_id` and starts the thread. The new thread is none of those that run. -/
def State.startThread (s : State) (r w : Nat) : Option State :=
  if s.threads w = none then
    s.useRequest r fun y =>
      some { s with
        reqs := s.reqs.set r { y with threadId := w }
        threads := s.threads.set w ⟨.reading, r, none, none, none⟩
        created := w :: s.created
        loop := .reading }
  else none

def loopStep (s : State) (act : LoopAct) : Option State :=
  match s.loop, act with
  | .reading, .line none => some { s with loop := .killing }
  | .reading, .line (some message) =>
    if "quit".toList.isPrefixOf message then some { s with loop := .killing }
    else if s.requests.length = maxRequestsPerClient then some s
    else some { s with loop := .creating message }
  | .creating _, .create none => some { s with loop := .reading }
  | .creating message, .create (some (r, garbage)) =>
    if s.lines r = none then
      some { s with
        reqs := s.reqs.set r ⟨message, garbage⟩
        lines := s.lines.set r message
        loop := .linking r (callbackFor message) }
    else none
  | .linking r callback, .link => s.link r callback
  | .storing r callback, .store =>
    some { s with wrapper := { s.wrapper with callback := some callback }, loop := .completing r }
  | .completing r, .complete =>
    some { s with wrapper := { s.wrapper with request := some r }, loop := .starting r }
  -- an error number is positive, so the test `r < 0` does not see it
  | .starting _, .start none => some { s with loop := .reading }
  | .starting r, .start (some w) => s.startThread r w
  | .killing, .kill => s.useRequests s.requests <| some { s with loop := .freeing }
  | .freeing, .free => some { s with loop := .finished }
  | _, _ => none

/-! ### The request threads -/

inductive ThreadAct where
  -- `r = wrapper->request`
  | readRequest
  -- the two reads of the call, which C may make in either order
  | readCallback
  | readArgument
  | call
  -- the callback works on its request
  | use
  | finish
  | remove
  | free
deriving DecidableEq, Repr

def State.setThread (s : State) (w : Nat) (x : Thread) : State :=
  { s with threads := s.threads.set w x }

/-- A read of the wrapper, which is gone once `handle_requests` has returned. -/
def State.readWrapper (s : State) {α : Type} (field : Wrapper → Option α) (k : α → State) : Option State :=
  if s.loop = .finished then s.fail
  else
    match field s.wrapper with
    | some value => some (k value)
    | none => s.fail

/-- The requests that the search of `client_request_remove` and the unlinking visit. -/
def State.visited (s : State) (pt : Nat) : List Nat :=
  s.requests.take (s.requests.findIdx (fun q => (s.reqs q).map Request.threadId = some pt) + 2)

/-- `client_request_remove` unlinks the first request with the given thread. Its search runs off the end of a list
without one, unless the list is empty. -/
def State.removeRequest (s : State) (pt : Nat) (k : State → Option State) : Option State :=
  s.useRequests (s.visited pt) <|
    match s.requests.find? fun q => (s.reqs q).map Request.threadId = some pt with
    | some q => k { s with requests := s.requests.erase q, removals := q :: s.removals }
    | none => if s.requests = [] then k s else s.fail

/-- One step of the request thread `w`. -/
def threadStep (s : State) (w : Nat) (act : ThreadAct) : Option State :=
  match s.threads w with
  | none => none
  | some x =>
    match x, act with
    | ⟨.reading, _, none, _, _⟩, .readRequest =>
      s.readWrapper Wrapper.request fun r => s.setThread w { x with r := some r }
    | ⟨.reading, _, some _, none, _⟩, .readCallback =>
      s.readWrapper Wrapper.callback fun callback => s.setThread w { x with callback := some callback }
    | ⟨.reading, _, some _, _, none⟩, .readArgument =>
      s.readWrapper Wrapper.request fun r => s.setThread w { x with argument := some r }
    | ⟨.reading, _, some _, some callback, some argument⟩, .call =>
      some { s.setThread w { x with pc := .executing } with executions := (callback, argument) :: s.executions }
    | ⟨.executing, _, _, _, some argument⟩, .use =>
      s.useRequest argument fun _ => if s.loop = .finished then s.fail else some s
    | ⟨.executing, _, _, _, _⟩, .finish => some (s.setThread w { x with pc := .removing })
    | ⟨.removing, _, some r, _, _⟩, .remove =>
      s.useRequest r fun y =>
        if s.loop = .finished then s.fail
        else s.removeRequest y.threadId fun s => some (s.setThread w { x with pc := .freeing })
    | ⟨.freeing, _, some r, _, _⟩, .free =>
      s.useRequest r fun _ =>
        some { s with reqs := s.reqs.free r, frees := r :: s.frees, threads := s.threads.free w }
    | _, _ => none

/-! ### The system -/

inductive Event where
  | loop (act : LoopAct)
  | thread (w : Nat) (act : ThreadAct)
deriving DecidableEq, Repr

def step (s : State) : Event → Option State
  | .loop act => loopStep s act
  | .thread w act => threadStep s w act

/-- Nothing is accessed that does not exist. Every accepted request has been executed exactly once, by the callback
for its line, unlinked once and freed once, unless its thread is still to be created or still runs; until then none of
this happens twice, and a thread that runs can get on. -/
structure ExactlyOnce (s : State) : Prop where
  sound : s.fault = false
  own : ∀ callback r, (callback, r) ∈ s.executions →
    ∃ line, s.lines r = some line ∧ callback = callbackFor line
  atMost : ∀ r, (s.executions.map Prod.snd).count r ≤ 1 ∧ s.removals.count r ≤ 1 ∧ s.frees.count r ≤ 1
  complete : ∀ r ∈ s.accepted,
    ((s.executions.map Prod.snd).count r = 1 ∧ s.removals.count r = 1 ∧ s.frees.count r = 1) ∨
      (∃ callback, s.loop = .storing r callback) ∨ s.loop = .completing r ∨ s.loop = .starting r ∨
      ∃ w x, s.threads w = some x ∧ x.startedFor = r
  progress : ∀ w x, s.threads w = some x → ∃ act, (threadStep s w act).isSome

/-! ### What the helpers do -/

variable {s : State} {r : Nat}

theorem readWrapper_isSome {α : Type} (field : Wrapper → Option α) (k : α → State) :
    (s.readWrapper field k).isSome := by
  unfold State.readWrapper
  split
  · rfl
  · split <;> rfl

theorem readWrapper_some {α : Type} {field : Wrapper → Option α} {k : α → State} {value : α}
    (going : s.loop ≠ .finished) (stored : field s.wrapper = some value) :
    s.readWrapper field k = some (k value) := by
  simp [State.readWrapper, going, stored]

theorem useRequest_isSome {k : Request → Option State} (some_ : ∀ y, (k y).isSome) : (s.useRequest r k).isSome := by
  unfold State.useRequest
  split
  · exact some_ _
  · rfl

theorem useRequest_some {k : Request → Option State} {y : Request} (cell : s.reqs r = some y) :
    s.useRequest r k = k y := by
  simp [State.useRequest, cell]

theorem removeRequest_isSome {k : State → Option State} (some_ : ∀ u, (k u).isSome) (pt : Nat) :
    (s.removeRequest pt k).isSome := by
  unfold State.removeRequest State.useRequests
  split
  · split
    · exact some_ _
    · split
      · exact some_ _
      · rfl
  · rfl

end Pire2Pire.Trunk
