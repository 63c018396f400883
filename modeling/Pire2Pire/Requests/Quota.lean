import Pire2Pire.Conf
import Pire2Pire.Library.Runs

/-! The number of requests of one connection: `handle_requests` of `client_handler.c` and of
`daemon_handler.c`, and the two handlers that the workers run around a request.

A request counts in `nb_requests` once a worker has begun with it, but it is linked before that, when it
is queued. -/
namespace Pire2Pire.Quota

open Library

/-- How far a linked request has come. -/
inductive Stage where
  -- in the queue of its pool, or taken out by a worker that has not begun with it
  | queued
  -- `pool_queue` had no memory for the job
  | lost
  -- counted and assigned to a thread
  | assigned
deriving DecidableEq, Repr

structure Request where
  cmd : CString
  stage : Stage
deriving DecidableEq, Repr

def Request.assigned (r : Request) : Bool :=
  r.stage = .assigned

/-- Where the thread of the connection is. -/
inductive Reader where
  | reading
  -- the check is passed
  | creating (message : CString)
  | linking (message : CString)
  | ended
  | gone
deriving DecidableEq, Repr

structure State where
  requests : List Request
  nbRequests : Int
  reader : Reader
  replies : List CString
deriving DecidableEq, Repr

/-- `client_new` and `daemon_new`. -/
def start : State := ⟨[], 0, .reading, []⟩

inductive Event where
  -- `socket_getline` returns a line, and the thread takes `req_lock` for the check
  | line (message : CString)
  -- `socket_getline` returns NULL
  | close
  -- `client_request_new` or `daemon_request_new`; malloc may fail
  | create (allocated : Bool)
  -- the request is linked and handed to `pool_queue`
  | link (queued : Bool)
  -- a worker comes to the first critical section of the handler of the i-th linked request
  | begin (i : Nat)
  -- and to the second one
  | finish (i : Nat)
  -- the remaining requests are flushed or killed, and the peer is freed
  | clean
deriving DecidableEq, Repr

def tooManyRequests : CString := " < Too many requests, mister, plz calm down\n".toList
def failedRequest : CString := " < Failed to create a new request\n".toList

/-- `strncmp (message, "quit", 4) == 0` -/
def isQuit (message : CString) : Bool :=
  "quit".toList.isPrefixOf message

def step (limit : Int) (s : State) : Event → Option State
  | .line message =>
    match s.reader with
    | .reading =>
      if isQuit message then some { s with reader := .ended }
      else if s.nbRequests = limit then some { s with replies := s.replies ++ [tooManyRequests] }
      else some { s with reader := .creating message }
    | _ => none
  | .close =>
    match s.reader with
    | .reading => some { s with reader := .ended }
    | _ => none
  | .create allocated =>
    match s.reader with
    | .creating message =>
      if allocated then some { s with reader := .linking message }
      else some { s with reader := .reading, replies := s.replies ++ [failedRequest] }
    | _ => none
  | .link queued =>
    match s.reader with
    | .linking message =>
      some { s with
        requests := ⟨message, if queued then .queued else .lost⟩ :: s.requests
        reader := .reading }
    | _ => none
  | .begin i =>
    match s.requests[i]? with
    | some ⟨cmd, .queued⟩ =>
      some { s with requests := s.requests.set i ⟨cmd, .assigned⟩, nbRequests := s.nbRequests + 1 }
    | _ => none
  | .finish i =>
    match s.requests[i]? with
    | some ⟨_, .assigned⟩ => some { s with requests := s.requests.eraseIdx i, nbRequests := s.nbRequests - 1 }
    | _ => none
  | .clean =>
    match s.reader with
    | .ended => some { s with requests := [], nbRequests := 0, reader := .gone }
    | _ => none

/-- What the limit is for: never more requests than that are linked, and a line that comes in while that
many are is refused. -/
def Limited (limit : Int) (s : State) (e : Event) (t : State) : Prop :=
  t.requests.length ≤ limit ∧
    ∀ message, e = .line message → isQuit message = false → s.requests.length = limit →
      t = { s with replies := s.replies ++ [tooManyRequests] }

/-- While the limit is reached, a line comes in only once a worker has begun with every linked request. -/
def Begun (limit : Int) (s : State) : Event → Prop
  | .line message => isQuit message = false → s.requests.length = limit → ∀ r ∈ s.requests, r.assigned
  | _ => True

instance (limit : Int) (s : State) : (e : Event) → Decidable (Begun limit s e)
  | .line _ => inferInstanceAs (Decidable (_ → _ → ∀ r ∈ s.requests, _))
  | .close | .create _ | .link _ | .begin _ | .finish _ | .clean => isTrue trivial

/-! ### Counting -/

/-- A request that passed the check has room. -/
structure Counted (limit : Int) (s : State) : Prop where
  count : s.nbRequests = s.requests.countP Request.assigned
  bound : s.requests.length ≤ limit
  room : ∀ message, s.reader = .creating message ∨ s.reader = .linking message → s.requests.length < limit

variable {limit : Int} {s t : State} {e : Event} {r : Request} {i : Nat}

theorem counted_start (positive : 0 < limit) : Counted limit start := by
  refine ⟨rfl, Int.le_of_lt positive, ?_⟩
  rintro message (creating | linking)
  · cases creating
  · cases linking

theorem countP_begin {cmd : CString} (here : s.requests[i]? = some ⟨cmd, .queued⟩) :
    ((s.requests.set i ⟨cmd, .assigned⟩).countP Request.assigned : Int) =
      s.requests.countP Request.assigned + 1 := by
  obtain ⟨bound, same⟩ := List.getElem?_eq_some_iff.mp here
  rw [List.countP_set bound, same]
  simp [Request.assigned]

theorem countP_finish {cmd : CString} (here : s.requests[i]? = some ⟨cmd, .assigned⟩) :
    ((s.requests.eraseIdx i).countP Request.assigned : Int) = s.requests.countP Request.assigned - 1 := by
  obtain ⟨bound, same⟩ := List.getElem?_eq_some_iff.mp here
  -- the finished request counted, and the rest is as before
  have shape : s.requests = s.requests.take i ++ ⟨cmd, .assigned⟩ :: s.requests.drop (i + 1) := by
    rw [← same, ← List.drop_eq_getElem_cons bound, List.take_append_drop]
  have whole := congrArg (List.countP Request.assigned) shape
  rw [List.countP_append, List.countP_cons_of_pos (by rfl)] at whole
  rw [List.eraseIdx_eq_take_drop_succ, List.countP_append]
  omega

/-- All the linked requests count just when a worker has begun with each of them. -/
theorem nbRequests_eq_iff (counted : Counted limit s) (full : s.requests.length = limit) :
    s.nbRequests = limit ↔ ∀ r ∈ s.requests, r.assigned := by
  rw [counted.count, ← full, Int.natCast_inj, List.countP_eq_length]

/-! ### One event -/

/-- A line that is not refused leaves the linked requests alone. -/
theorem line_cases {message : CString} (taken : step limit s (.line message) = some t) :
    s.reader = .reading ∧
      (isQuit message = true ∧ t = { s with reader := .ended } ∨
        isQuit message = false ∧ s.nbRequests = limit ∧ t = { s with replies := s.replies ++ [tooManyRequests] } ∨
        isQuit message = false ∧ s.nbRequests ≠ limit ∧ t = { s with reader := .creating message }) := by
  -- only the thread that reads gets a line
  cases reader : s.reader with
  | reading =>
    refine ⟨rfl, ?_⟩
    simp only [step, reader] at taken
    split at taken
    next quit => exact .inl ⟨quit, (Option.some.inj taken).symm⟩
    next quit =>
      have other : isQuit message = false := by simpa using quit
      split at taken
      next full => exact .inr (.inl ⟨other, full, (Option.some.inj taken).symm⟩)
      next free => exact .inr (.inr ⟨other, free, (Option.some.inj taken).symm⟩)
  | creating _ => simp [step, reader] at taken
  | linking _ => simp [step, reader] at taken
  | ended => simp [step, reader] at taken
  | gone => simp [step, reader] at taken

theorem counted_step (counted : Counted limit s) (taken : step limit s e = some t)
    (limited : Limited limit s e t) : Counted limit t := by
  cases e with
  | line message =>
    obtain ⟨reader, cases⟩ := line_cases taken
    rcases cases with ⟨-, rfl⟩ | ⟨-, -, rfl⟩ | ⟨other, free, rfl⟩
    · exact ⟨counted.count, counted.bound, by simp⟩
    · exact ⟨counted.count, counted.bound, by simp [reader]⟩
    · refine ⟨counted.count, counted.bound, ?_⟩
      intro _ _
      -- with the limit reached the line would have been refused
      have notFull : (s.requests.length : Int) ≠ limit := by
        intro full
        have refused := limited.2 message rfl other full
        have same := congrArg State.reader refused
        rw [reader] at same
        cases same
      have bound := counted.bound
      show (s.requests.length : Int) < limit
      omega
  | close =>
    simp only [step] at taken
    split at taken
    · cases taken
      exact ⟨counted.count, counted.bound, by simp⟩
    · cases taken
  | create allocated =>
    simp only [step] at taken
    split at taken
    next message reader =>
      split at taken
      · cases taken
        -- the room that the check saw is still there, since this thread is the only one to link requests
        exact ⟨counted.count, counted.bound, fun _ _ => counted.room message (.inl reader)⟩
      · cases taken
        exact ⟨counted.count, counted.bound, by simp⟩
    · cases taken
  | link queued =>
    simp only [step] at taken
    split at taken
    next message reader =>
      cases taken
      -- a request that is linked does not count before a worker begins with it
      have waiting : Request.assigned ⟨message, if queued then .queued else .lost⟩ = false := by
        cases queued <;> rfl
      refine ⟨?_, limited.1, by simp⟩
      simp only [List.countP_cons, waiting, Bool.false_eq_true, if_false]
      exact counted.count
    · cases taken
  | begin i =>
    simp only [step] at taken
    split at taken
    next cmd here =>
      cases taken
      refine ⟨?_, limited.1, ?_⟩
      · rw [countP_begin here, counted.count]
      · intro message position
        rw [List.length_set]
        exact counted.room message position
    · cases taken
  | finish i =>
    simp only [step] at taken
    split at taken
    next cmd here =>
      cases taken
      refine ⟨?_, limited.1, ?_⟩
      · rw [countP_finish here, counted.count]
      · intro message position
        have room := counted.room message position
        have fewer := List.length_eraseIdx_le s.requests i
        show ((s.requests.eraseIdx i).length : Int) < limit
        omega
    · cases taken
  | clean =>
    simp only [step] at taken
    split at taken
    · cases taken
      exact ⟨rfl, limited.1, by simp⟩
    · cases taken

/-- Behind the check the bound holds without a condition. -/
theorem bound_step (counted : Counted limit s) (taken : step limit s e = some t) :
    t.requests.length ≤ limit := by
  have bound := counted.bound
  cases e with
  | line message =>
    obtain ⟨-, cases⟩ := line_cases taken
    rcases cases with ⟨-, rfl⟩ | ⟨-, -, rfl⟩ | ⟨-, -, rfl⟩ <;> exact bound
  | close =>
    simp only [step] at taken
    split at taken <;> cases taken
    exact bound
  | create allocated =>
    simp only [step] at taken
    split at taken
    · split at taken <;> cases taken <;> exact bound
    · cases taken
  | link queued =>
    simp only [step] at taken
    split at taken
    next message reader =>
      cases taken
      -- the room was there when the line passed the check
      have room := counted.room message (.inr reader)
      simp only [List.length_cons, Int.natCast_add, Int.natCast_one]
      omega
    · cases taken
  | begin i =>
    simp only [step] at taken
    split at taken
    · cases taken
      rw [List.length_set]
      exact bound
    · cases taken
  | finish i =>
    simp only [step] at taken
    split at taken
    · cases taken
      have fewer := List.length_eraseIdx_le s.requests i
      show ((s.requests.eraseIdx i).length : Int) ≤ limit
      omega
    · cases taken
  | clean =>
    simp only [step] at taken
    split at taken
    · cases taken
      -- the clean-up leaves no request
      have nonnegative := Int.natCast_nonneg s.requests.length
      exact Int.le_trans nonnegative bound
    · cases taken

theorem begun_iff_limited (counted : Counted limit s) (defined : (step limit s e).isSome) :
    Begun limit s e ↔ ∃ t, step limit s e = some t ∧ Limited limit s e t := by
  obtain ⟨t, taken⟩ := Option.isSome_iff_exists.mp defined
  have bound := bound_step counted taken
  constructor
  · intro begun
    refine ⟨t, taken, bound, ?_⟩
    rintro message rfl other full
    -- with all requests begun the counter is the length of the list
    have all := (nbRequests_eq_iff counted full).mpr (begun other full)
    obtain ⟨-, cases⟩ := line_cases taken
    rcases cases with ⟨quit, -⟩ | ⟨-, -, refused⟩ | ⟨-, free, -⟩
    · rw [other] at quit
      cases quit
    · exact refused
    · exact absurd all free
  · rintro ⟨t', taken', -, refuses⟩
    cases Option.some.inj (taken.symm.trans taken')
    cases e with
    | line message =>
      intro other full
      have refused := refuses message rfl other full
      -- a refusal at the limit means that the counter had reached it
      apply (nbRequests_eq_iff counted full).mp
      obtain ⟨reader, cases⟩ := line_cases taken
      rcases cases with ⟨quit, -⟩ | ⟨-, all, -⟩ | ⟨-, -, passed⟩
      · rw [other] at quit
        cases quit
      · exact all
      · -- a line that passes the check is not answered
        have position := congrArg State.reader (refused.symm.trans passed)
        rw [reader] at position
        cases position
    | close => trivial
    | create _ => trivial
    | link _ => trivial
    | begin _ => trivial
    | finish _ => trivial
    | clean => trivial

/-! ### Whole runs -/

/-- The limit is kept in exactly those runs in which no line comes in while the limit is reached and a
request is still waiting for a worker. -/
theorem limited_iff_begun (conf : List (CString × CString)) (kind : PeerKind) (es : List Event) (s : State)
    (ran : exec (step (kind.maxRequests (confRetrieve conf))) start es = some s) :
    Upholds (step (kind.maxRequests (confRetrieve conf))) (Limited (kind.maxRequests (confRetrieve conf))) start es ↔
      Along (step (kind.maxRequests (confRetrieve conf))) (Begun (kind.maxRequests (confRetrieve conf))) start es := by
  generalize positive : kind.maxRequests (confRetrieve conf) = limit at ran ⊢
  have room : 0 < limit := positive ▸ Int.lt_trans Int.one_pos (maxRequests_gt conf kind)
  exact upholds_iff_along (fun s e => (step limit s e).isSome) (Begun limit) (Limited limit) (Counted limit)
    (fun _ _ counted defined => begun_iff_limited counted defined)
    (fun _ _ _ counted _ taken limited => counted_step counted taken limited)
    (counted_start room) (along_defined ran)

/-- With a limit of two a third line waits until the workers have begun. -/
theorem limited_iff_begun_two :
    let conf := [("max_requests_per_client".toList, "2".toList)]
    let limit := PeerKind.client.maxRequests (confRetrieve conf)
    let es := [.line "help".toList, .create true, .link true, .line "info".toList, .create true, .link true,
      .begin 0, .begin 1, .line "list".toList, .finish 1, .line "list".toList]
    Upholds (step limit) (Limited limit) start es := by
  intro conf limit es
  obtain ⟨s, ran⟩ : ∃ s, exec (step limit) start es = some s := Option.isSome_iff_exists.mp (by decide +kernel)
  exact (limited_iff_begun conf .client es s ran).mpr (by decide +kernel)

/-- Three lines before a worker has begun: three requests are linked although the limit is two. -/
theorem limited_overrun :
    let conf := [("max_requests_per_client".toList, "2".toList)]
    let limit := PeerKind.client.maxRequests (confRetrieve conf)
    let es := [.line "help".toList, .create true, .link true, .line "info".toList, .create true, .link true,
      .line "list".toList, .create true, .link true]
    limit = 2 ∧ (exec (step limit) start es).any fun s =>
      decide (s.requests.length = 3) && decide (s.replies = []) := by
  decide +kernel

end Pire2Pire.Quota
