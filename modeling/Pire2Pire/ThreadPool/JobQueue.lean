import Pire2Pire.Library.Runs
import Pire2Pire.Library.Heap

/-! The job queue of a thread pool (`thread_pool.c`): a linked list with a head and a tail
pointer, and the operations that change it under the mutex of the pool. -/
namespace Pire2Pire.ThreadPool

open Library

/-- `struct job`. Functions and their arguments are known by their addresses. -/
structure Job where
  next : Ptr
  func : Nat
  arg : Nat
  deriving DecidableEq, Repr

/-- What a job asks for: the function and its argument. -/
def Job.task (job : Job) : Nat × Nat := (job.func, job.arg)

/-- The fields of `struct pool` that hold the queue, with the memory of the jobs. -/
structure JobQueue where
  heap : Heap Job
  jobqHead : Ptr
  jobqTail : Ptr

/-- `pool_queue`; `a` is what malloc returns. -/
def poolQueue (q : JobQueue) (a : Ptr) (func arg : Nat) : Option JobQueue :=
  match a with
  | none => some q
  | some job =>
    let h := q.heap.set job ⟨none, func, arg⟩
    match q.jobqHead with
    | none => some ⟨h, some job, some job⟩
    | some head => do
      let tail ← q.jobqTail
      let last ← h tail
      return ⟨h.set tail { last with next := some job }, some head, some job⟩

/-- The part of `worker_thread` that takes the first job of a queue that has one. -/
def dequeue (q : JobQueue) : Option (JobQueue × Nat) := do
  let job ← q.jobqHead
  let first ← q.heap job
  return ({ q with
    jobqHead := first.next
    jobqTail := if q.jobqTail = some job then none else q.jobqTail }, job)

/-- A `struct job **`: the head of the queue or the link of a job. -/
inductive Slot where
  | head
  | next (job : Nat)
  deriving DecidableEq, Repr

def JobQueue.read (q : JobQueue) : Slot → Option Ptr
  | .head => some q.jobqHead
  | .next job => (q.heap job).map Job.next

def JobQueue.write (q : JobQueue) (p : Ptr) : Slot → Option JobQueue
  | .head => some { q with jobqHead := p }
  | .next job => (q.heap job).map fun x => { q with heap := q.heap.set job { x with next := p } }

/-- "Propagate the tail forward": `if (*pjob) pool->jobq_tail = *pjob`. -/
def JobQueue.propagate (q : JobQueue) (slot : Slot) : Option JobQueue :=
  (q.read slot).map fun p => if p.isSome then { q with jobqTail := p } else q

/-- The loop of `pool_flush_by_arg`. -/
def flushLoop (arg : Nat) : Nat → JobQueue → Slot → Option JobQueue
  | 0, _, _ => none
  | fuel + 1, q, pjob => do
    match ← q.read pjob with
    | none => return q
    | some job =>
      let x ← q.heap job
      if x.arg = arg then
        let q ← q.write x.next pjob
        let q ← ({ q with heap := q.heap.free job } : JobQueue).propagate pjob
        flushLoop arg fuel q pjob
      else
        let q ← q.propagate pjob
        flushLoop arg fuel q (.next job)

/-- `pool_flush_by_arg`; `fuel` bounds the loop. -/
def poolFlushByArg (fuel : Nat) (q : JobQueue) (arg : Nat) : Option JobQueue :=
  flushLoop arg fuel q .head

/-! ### What the queue represents -/

/-- A waiting job: where it is, and what it asks for. -/
abbrev Waiting := Nat × Nat × Nat

/-- The jobs `l` are linked from `p` to `r`. -/
abbrev Jobs (h : Heap Job) (p : Ptr) (l : List Waiting) (r : Ptr) : Prop :=
  Path Job.next Job.task h p l r

def lastOf (l : List Waiting) : Ptr := l.getLast?.map Prod.fst

/-- The list from the head is `l`, and unless it is empty the tail is its last node. -/
structure Queued (q : JobQueue) (l : List Waiting) : Prop where
  listed : Jobs q.heap q.jobqHead l none
  tail : l ≠ [] → q.jobqTail = lastOf l

variable {q q' : JobQueue} {l done rest : List Waiting} {a func arg fuel : Nat} {p r : Ptr}
  {h : Heap Job}

/-- Change the link of the last job of a list. -/
theorem jobs_relink {x : Job} {n : Ptr} {task : Nat × Nat} (cell : h a = some x)
    (outside : a ∉ addrs l) (listed : Jobs h p (l ++ [(a, task)]) r) :
    Jobs (h.set a { x with next := n }) p (l ++ [(a, task)]) n :=
  path_relink cell outside listed rfl rfl

theorem jobs_fresh (listed : Jobs h p l r) (free : h a = none) : a ∉ addrs l := by
  obtain ⟨cells, seg, rfl⟩ := path_iff_seg.mp listed
  simpa using seg_fresh seg free

theorem poolQueue_queued (func arg : Nat) (queued : Queued q l) (free : q.heap a = none) :
    ∃ q', poolQueue q (some a) func arg = some q' ∧ Queued q' (l ++ [(a, func, arg)]) ∧
      ∀ b ∉ addrs (l ++ [(a, func, arg)]), q'.heap b = q.heap b := by
  obtain ⟨listed, tail⟩ := queued
  have unused := jobs_fresh listed free
  -- the new node is on no list yet
  have kept : Jobs (q.heap.set a ⟨none, func, arg⟩) q.jobqHead l none := by
    refine path_congr ?_ listed
    intro b member
    exact Heap.set_other _ _ (fun same => unused (same ▸ member))
  -- an empty queue gets a new head; otherwise the old last node is linked to the new one
  rcases List.eq_nil_or_concat l with rfl | ⟨init, ⟨last, task⟩, rfl⟩
  · have headNone : q.jobqHead = none := listed
    refine ⟨⟨q.heap.set a ⟨none, func, arg⟩, some a, some a⟩, by simp [poolQueue, headNone], ⟨?_, ?_⟩, ?_⟩
    · exact ⟨rfl, ⟨none, func, arg⟩, Heap.set_here _ _ _, rfl, rfl⟩
    · simp [lastOf]
    · intro b outside
      exact Heap.set_other _ _ (by simpa using outside)
  · simp only [List.concat_eq_append] at *
    -- the tail is what the source appends to, without walking the list
    have tailSome : q.jobqTail = some last := by simpa [lastOf] using tail (by simp)
    obtain ⟨m, left, head, x, cell, shown, _⟩ := path_append.mp kept
    have nodup := path_nodup kept
    have isolated : last ∉ addrs init := by
      rw [addrs, List.map_append, List.nodup_append] at nodup
      exact fun member => by simpa using nodup.2.2 last member last (by simp)
    obtain ⟨first, headSome⟩ : ∃ first, q.jobqHead = some first := by
      cases init with
      | nil => exact ⟨last, listed.1⟩
      | cons c init => exact ⟨c.1, listed.1⟩
    refine ⟨⟨(q.heap.set a ⟨none, func, arg⟩).set last { x with next := some a }, some first, some a⟩,
      ?_, ⟨?_, ?_⟩, ?_⟩
    · simp only [poolQueue, headSome, tailSome, Option.bind_eq_bind, Option.bind_some, cell,
        Option.pure_def]
    · have differ : a ≠ last := fun same => unused (by simp [same])
      refine path_append.mpr ⟨some a, ?_, rfl, ⟨none, func, arg⟩, ?_, rfl, rfl⟩
      · exact headSome ▸ jobs_relink cell isolated kept
      · dsimp only
        rw [Heap.set_other _ _ differ, Heap.set_here]
    · simp [lastOf]
    · intro b outside
      simp only [addrs, List.map_append, List.mem_append, not_or, List.map_cons, List.map_nil,
        List.mem_singleton] at outside
      dsimp only
      rw [Heap.set_other _ _ outside.1.2, Heap.set_other _ _ outside.2]

theorem dequeue_queued {task : Nat × Nat} (queued : Queued q ((a, task) :: l)) :
    ∃ q', dequeue q = some (q', a) ∧ Queued q' l ∧ q'.heap = q.heap ∧
      ∃ x, q.heap a = some x ∧ x.task = task := by
  obtain ⟨⟨head, x, cell, shown, rest⟩, tail⟩ := queued
  refine ⟨⟨q.heap, x.next, if q.jobqTail = some a then none else q.jobqTail⟩,
    by simp [dequeue, head, cell], ⟨rest, ?_⟩, rfl, x, cell, shown⟩
  intro more
  have tailSome := tail (by simp)
  obtain ⟨init, ⟨last, task'⟩, rfl⟩ := List.eq_nil_or_concat l |>.resolve_left more
  simp only [List.concat_eq_append] at *
  -- the job that is taken is not the last one, so the tail stays
  have differ : last ≠ a := by
    have nodup := path_nodup (show Jobs q.heap q.jobqHead ((a, task) :: (init ++ [(last, task')])) none
      from ⟨head, x, cell, shown, rest⟩)
    simp only [List.map_cons, List.map_append, List.map_nil, List.nodup_cons, List.mem_append,
      List.mem_singleton, not_or] at nodup
    exact fun same => nodup.1.2 same.symm
  have tailLast : q.jobqTail = some last := by
    rw [tailSome, lastOf, ← List.cons_append, List.getLast?_concat]
    rfl
  simp [tailLast, differ, lastOf]

/-! ### Flushing -/

/-- The slot behind the jobs the loop has passed. -/
def slotAfter (done : List Waiting) : Slot :=
  match done.getLast? with
  | none => .head
  | some last => .next last.1

theorem slotAfter_concat (c : Waiting) : slotAfter (done ++ [c]) = .next c.1 := by
  simp [slotAfter]

/-- The tail the loop leaves behind: it follows every job it keeps, and the successor of
every job it removes. -/
def flushTail (arg : Nat) : Ptr → List Waiting → Ptr
  | tail, [] => tail
  | tail, (a, _, x) :: rest =>
    if x = arg then flushTail arg (if rest.isEmpty then tail else rest.head?.map Prod.fst) rest
    else flushTail arg (some a) rest

/-- The jobs a flush keeps. -/
def keep (arg : Nat) (l : List Waiting) : List Waiting := l.filter fun c => c.2.2 ≠ arg

theorem jobs_head (listed : Jobs h p l none) : p = l.head?.map Prod.fst := by
  cases l with
  | nil => exact listed
  | cons c l => exact listed.1

theorem read_slotAfter (passed : Jobs q.heap q.jobqHead done p) : q.read (slotAfter done) = some p := by
  -- the slot is the head, or the link of the job passed last
  rcases List.eq_nil_or_concat done with rfl | ⟨init, c, rfl⟩
  · simp [slotAfter, JobQueue.read, show q.jobqHead = p from passed]
  · simp only [List.concat_eq_append] at *
    obtain ⟨m, _, _, x, cell, _, last⟩ := path_append.mp passed
    rw [slotAfter_concat, JobQueue.read, cell, Option.map_some, show x.next = p from last]

/-- Writing through the slot behind the passed jobs redirects their list, and touches no
other job. -/
theorem write_slotAfter (passed : Jobs q.heap q.jobqHead done p) (nodup : (addrs done).Nodup)
    (n : Ptr) : ∃ q', q.write n (slotAfter done) = some q' ∧ Jobs q'.heap q'.jobqHead done n ∧
      q'.jobqTail = q.jobqTail ∧ ∀ b ∉ addrs done, q'.heap b = q.heap b := by
  rcases List.eq_nil_or_concat done with rfl | ⟨init, c, rfl⟩
  · exact ⟨{ q with jobqHead := n }, by simp [slotAfter, JobQueue.write], rfl, rfl, fun _ _ => rfl⟩
  · simp only [List.concat_eq_append] at *
    obtain ⟨m, _, _, x, cell, _, _⟩ := path_append.mp passed
    have isolated : c.1 ∉ addrs init := by
      rw [addrs, List.map_append, List.nodup_append] at nodup
      exact fun member => by simpa using nodup.2.2 c.1 member c.1 (by simp)
    refine ⟨{ q with heap := q.heap.set c.1 { x with next := n } }, ?_, ?_, rfl, ?_⟩
    · simp only [slotAfter_concat, JobQueue.write, cell, Option.map_some]
    · exact jobs_relink cell isolated passed
    · intro b outside
      exact Heap.set_other _ _ (fun same => outside (by simp [same]))

theorem propagate_slotAfter (passed : Jobs q.heap q.jobqHead done p) :
    q.propagate (slotAfter done) = some (if p.isSome then { q with jobqTail := p } else q) := by
  simp [JobQueue.propagate, read_slotAfter passed]

/-- The loop, from behind the passed jobs: it keeps these, removes and frees the jobs with
the argument from the rest, and touches nothing else. -/
theorem flushLoop_flushes (arg : Nat) (enough : rest.length < fuel) (passed : Jobs q.heap q.jobqHead done p)
    (ahead : Jobs q.heap p rest none) (nodup : (addrs (done ++ rest)).Nodup) :
    ∃ q', flushLoop arg fuel q (slotAfter done) = some q' ∧
      Jobs q'.heap q'.jobqHead (done ++ keep arg rest) none ∧
      q'.jobqTail = flushTail arg q.jobqTail rest ∧
      (∀ b ∉ addrs (done ++ rest), q'.heap b = q.heap b) ∧
      (∀ b ∈ addrs rest, b ∉ addrs (keep arg rest) → q'.heap b = none) := by
  induction rest generalizing fuel q done p with
  | nil =>
    obtain ⟨fuel, rfl⟩ : ∃ f, fuel = f + 1 := ⟨fuel - 1, by simp at enough; omega⟩
    cases show p = none from ahead
    refine ⟨q, ?_, by simpa [keep] using passed, rfl, fun _ _ => rfl, by simp⟩
    simp [flushLoop, read_slotAfter passed]
  | cons c rest ih =>
    obtain ⟨a, func, x⟩ := c
    obtain ⟨fuel, rfl⟩ : ∃ f, fuel = f + 1 := ⟨fuel - 1, by simp at enough; omega⟩
    have enough' : rest.length < fuel := by simp at enough; omega
    obtain ⟨rfl, job, cell, shown, tail⟩ := ahead
    have argSame : job.arg = x := congrArg Prod.snd shown
    have nodup' := nodup
    simp only [addrs, List.map_append, List.map_cons, List.nodup_append, List.nodup_cons] at nodup'
    obtain ⟨nodupDone, ⟨notLater, nodupRest⟩, apart⟩ := nodup'
    have notPassed : a ∉ addrs done := fun member => apart a member a (by simp) rfl
    have restApart : ∀ b ∈ addrs rest, b ∉ addrs done :=
      fun b later member => apart b member b (by simp [later]) rfl
    by_cases matches_ : x = arg
    · -- The job is unlinked and freed; the slot stays.
      obtain ⟨q₁, written, passed₁, tail₁, frame₁⟩ := write_slotAfter passed nodupDone job.next
      have passed₂ : Jobs (q₁.heap.free a) q₁.jobqHead done job.next :=
        path_congr (fun b member => Heap.free_other _ (fun same => notPassed (same ▸ member))) passed₁
      have ahead₂ : Jobs (q₁.heap.free a) job.next rest none := by
        refine path_congr ?_ tail
        intro b later
        have differ : b ≠ a := fun same => notLater (same ▸ later)
        rw [Heap.free_other _ differ, frame₁ b (restApart b later)]
      -- the tail follows to the next job, if there is one
      obtain ⟨q₃, propagated, heap₃, head₃, tail₃⟩ : ∃ q₃,
          (⟨q₁.heap.free a, q₁.jobqHead, q₁.jobqTail⟩ : JobQueue).propagate (slotAfter done) = some q₃ ∧
          q₃.heap = q₁.heap.free a ∧ q₃.jobqHead = q₁.jobqHead ∧
          q₃.jobqTail = if rest.isEmpty then q.jobqTail else rest.head?.map Prod.fst := by
        rw [propagate_slotAfter passed₂, jobs_head tail]
        cases rest with
        | nil => exact ⟨_, rfl, rfl, rfl, by simp [tail₁]⟩
        | cons c' rest => exact ⟨_, rfl, rfl, rfl, by simp⟩
      obtain ⟨q', looped, listed, tailEnd, frame, freed⟩ :=
        ih enough' (heap₃ ▸ head₃ ▸ passed₂) (heap₃ ▸ ahead₂)
          (by simp only [addrs, List.map_append, List.nodup_append]
              exact ⟨nodupDone, nodupRest, fun b member b' later => apart b member b' (by simp [later])⟩)
      have keepSame : keep arg ((a, func, x) :: rest) = keep arg rest := by simp [keep, matches_]
      refine ⟨q', ?_, keepSame ▸ listed, ?_, ?_, ?_⟩
      · simp only [flushLoop, read_slotAfter passed, Option.bind_eq_bind, Option.bind_some, cell,
          argSame, matches_, if_true, written, propagated, looped]
      · rw [tailEnd, tail₃]
        simp [flushTail, matches_]
      · intro b outside
        simp only [addrs, List.map_append, List.map_cons, List.mem_append, List.mem_cons,
          not_or] at outside
        rw [frame b (by simp only [addrs, List.map_append, List.mem_append, not_or]; exact ⟨outside.1, outside.2.2⟩),
          heap₃, Heap.free_other _ outside.2.1, frame₁ b outside.1]
      · intro b member notKept
        rw [keepSame] at notKept
        rcases List.mem_cons.mp member with same | later
        · cases same
          rw [frame a (by simp only [addrs, List.map_append, List.mem_append, not_or]; exact ⟨notPassed, notLater⟩),
            heap₃, Heap.free_here]
        · exact freed b later notKept
    · -- The job stays, and the slot moves behind it.
      have passed₂ : Jobs q.heap q.jobqHead (done ++ [(a, func, x)]) job.next :=
        path_append.mpr ⟨some a, passed, rfl, job, cell, shown, rfl⟩
      obtain ⟨q', looped, listed, tailEnd, frame, freed⟩ :=
        @ih { q with jobqTail := some a } (done ++ [(a, func, x)]) fuel job.next enough' passed₂ tail
          (by simpa using nodup)
      have keepSame : keep arg ((a, func, x) :: rest) = (a, func, x) :: keep arg rest := by
        simp [keep, matches_]
      refine ⟨q', ?_, ?_, ?_, ?_, ?_⟩
      · rw [slotAfter_concat] at looped
        simp only [flushLoop, read_slotAfter passed, Option.bind_eq_bind, Option.bind_some, cell,
          argSame, matches_, if_false, propagate_slotAfter passed, Option.isSome_some, if_true, looped]
      · simpa [keepSame] using listed
      · rw [tailEnd]
        simp [flushTail, matches_]
      · intro b outside
        exact frame b (by simpa using outside)
      · intro b member notKept
        rw [keepSame] at notKept
        simp only [addrs, List.map_cons, List.mem_cons, not_or] at member notKept
        exact freed b (member.resolve_left notKept.1) notKept.2

theorem flushTail_keeps_all (absent : ∀ c ∈ l, c.2.2 ≠ arg) (some_ : l ≠ []) (tail : Ptr) :
    flushTail arg tail l = lastOf l := by
  induction l generalizing tail with
  | nil => exact absurd rfl some_
  | cons c l ih =>
    obtain ⟨a, func, x⟩ := c
    have other : x ≠ arg := absent (a, func, x) (by simp)
    simp only [flushTail, if_neg other]
    cases l with
    | nil => rfl
    | cons d l =>
      -- each job that is kept moves the tail to itself
      rw [ih (fun c member => absent c (by simp [member])) (by simp)]
      simp [lastOf]

/-- With at most one job to remove, the tail ends up on the last job kept. -/
theorem flushTail_distinct (distinct : (l.map fun c => c.2.2).Nodup) (some_ : keep arg l ≠ [])
    (tail : Ptr) : flushTail arg tail l = lastOf (keep arg l) := by
  induction l generalizing tail with
  | nil => simp [keep] at some_
  | cons c l ih =>
    obtain ⟨a, func, x⟩ := c
    simp only [List.map_cons, List.nodup_cons] at distinct
    -- the job to remove comes first, so all behind it stay
    by_cases matches_ : x = arg
    · have absent : ∀ c ∈ l, c.2.2 ≠ arg := fun c member same =>
        distinct.1 (List.mem_map.mpr ⟨c, member, same.trans matches_.symm⟩)
      have keepSame : keep arg ((a, func, x) :: l) = l := by
        simp only [keep, matches_, ne_eq, not_true_eq_false, decide_false, Bool.false_eq_true,
          not_false_eq_true, List.filter_cons_of_neg]
        exact List.filter_eq_self.mpr (fun c member => by simp [absent c member])
      rw [keepSame] at some_ ⊢
      simp only [flushTail, if_pos matches_]
      exact flushTail_keeps_all absent some_ _
    · have keepSame : keep arg ((a, func, x) :: l) = (a, func, x) :: keep arg l := by
        simp [keep, matches_]
      simp only [flushTail, if_neg matches_, keepSame]
      by_cases more : keep arg l = []
      · -- Every later job has the argument, so there is at most one.
        rw [more]
        cases l with
        | nil => rfl
        | cons d l =>
          obtain ⟨b, func', y⟩ := d
          have all : y = arg ∧ ∀ c ∈ l, c.2.2 = arg := by
            simpa [keep] using more
          cases l with
          | nil => simp [flushTail, all.1, lastOf]
          | cons d' l =>
            simp [all.1, all.2 d' (by simp)] at distinct
      · rw [ih distinct.2 more]
        cases kept : keep arg l with
        | nil => exact absurd kept more
        | cons d rest => simp [lastOf]

/-- A flush of a queue whose jobs have distinct arguments. -/
theorem poolFlushByArg_queued (arg : Nat) (queued : Queued q l) (distinct : (l.map fun c => c.2.2).Nodup)
    (enough : l.length < fuel) :
    ∃ q', poolFlushByArg fuel q arg = some q' ∧ Queued q' (keep arg l) ∧
      (∀ b ∉ addrs l, q'.heap b = q.heap b) ∧
      (∀ b ∈ addrs l, b ∉ addrs (keep arg l) → q'.heap b = none) := by
  obtain ⟨q', flushed, listed, tail, frame, freed⟩ :=
    flushLoop_flushes arg enough (show Jobs q.heap q.jobqHead [] _ from rfl) queued.listed
      (path_nodup queued.listed)
  exact ⟨q', flushed, ⟨listed, fun more => tail ▸ flushTail_distinct distinct more _⟩, frame, freed⟩

/-! ### The abstract queue -/

/-- A job as the callers of `pool_queue` know it: the number of the call, the memory it got,
and what it asks for. -/
structure Entry where
  ticket : Nat
  addr : Nat
  func : Nat
  arg : Nat
  deriving DecidableEq, Repr

def Entry.waiting (e : Entry) : Waiting := (e.addr, e.func, e.arg)

/-- All jobs ever queued, those still waiting, those taken by workers and those flushed, each
in the order in which this happened; `held` is the memory of taken jobs not freed yet. -/
structure Fifo where
  queued : List Entry
  pending : List Entry
  taken : List Entry
  flushed : List Entry
  held : List Nat

inductive Op where
  /-- `pool_queue`, with what malloc returns -/
  | queue (a : Ptr) (func arg : Nat)
  /-- a worker takes a job -/
  | take
  /-- a worker frees the job it took -/
  | free (a : Nat)
  /-- `pool_flush_by_arg` -/
  | flush (arg : Nat)
  deriving DecidableEq, Repr

def Fifo.step (x : Fifo) : Op → Fifo
  | .queue none _ _ => x
  | .queue (some a) func arg =>
    let e : Entry := ⟨x.queued.length, a, func, arg⟩
    { x with queued := x.queued ++ [e], pending := x.pending ++ [e] }
  | .take =>
    match x.pending with
    | [] => x
    | e :: rest => { x with pending := rest, taken := x.taken ++ [e], held := e.addr :: x.held }
  | .free a => { x with held := x.held.erase a }
  | .flush arg =>
    { x with
      pending := x.pending.filter fun e => e.arg ≠ arg
      flushed := x.flushed ++ x.pending.filter fun e => e.arg = arg }

/-- malloc returns free memory, no two waiting jobs have the same argument, workers take a
job when there is one, and free what they took. -/
def Legal (x : Fifo) : Op → Prop
  | .queue none _ _ => True
  | .queue (some a) _ arg =>
    a ∉ x.pending.map Entry.addr ∧ a ∉ x.held ∧ arg ∉ x.pending.map Entry.arg
  | .take => x.pending ≠ []
  | .free a => a ∈ x.held
  | .flush _ => True

/-- The queue with the tasks handed to workers so far. `calls` bounds the length of the list. -/
structure State where
  queue : JobQueue
  ran : List (Nat × Nat)
  calls : Nat

def apply (s : State) : Op → Option State
  | .queue a func arg =>
    (poolQueue s.queue a func arg).map fun q => { s with queue := q, calls := s.calls + 1 }
  | .take => do
    let (q, job) ← dequeue s.queue
    let x ← q.heap job
    return { s with queue := q, ran := s.ran ++ [x.task] }
  | .free a => some { s with queue := { s.queue with heap := s.queue.heap.free a } }
  | .flush arg => (poolFlushByArg (s.calls + 1) s.queue arg).map fun q => { s with queue := q }

/-- The concrete queue is the abstract one: the waiting jobs are the list from the head, the
tail is its last node, the workers got the taken jobs, and only waiting jobs and jobs a
worker still holds take up memory. -/
structure Represents (s : State) (x : Fifo) : Prop where
  queued : Queued s.queue (x.pending.map Entry.waiting)
  ran : s.ran = x.taken.map fun e => (e.func, e.arg)
  allocated : ∀ a, s.queue.heap a ≠ none ↔ a ∈ x.pending.map Entry.addr ∨ a ∈ x.held
  owned : (x.held ++ x.pending.map Entry.addr).Nodup
  distinct : (x.pending.map Entry.arg).Nodup
  bounded : x.pending.length ≤ s.calls

/-- No job is lost, none is taken twice, and jobs are taken in the order of their queueing. -/
structure Accounted (x : Fifo) : Prop where
  all : (x.taken ++ x.flushed ++ x.pending).Perm x.queued
  once : (x.queued.map Entry.ticket).Nodup
  ordered : (x.taken ++ x.pending).Sublist x.queued

variable {s : State} {x : Fifo}

theorem addrs_waiting (es : List Entry) : addrs (es.map Entry.waiting) = es.map Entry.addr := by
  simp [Function.comp_def, Entry.waiting]

theorem keep_waiting (es : List Entry) :
    keep arg (es.map Entry.waiting) = (es.filter fun e => e.arg ≠ arg).map Entry.waiting := by
  simp only [keep, List.filter_map, Function.comp_def]
  rfl

theorem jobs_allocated {b : Nat} (listed : Jobs h p l r) (member : b ∈ addrs l) : h b ≠ none := by
  obtain ⟨cells, seg, rfl⟩ := path_iff_seg.mp listed
  obtain ⟨x, _, cell⟩ := seg_allocated (a := b) seg (by simpa using member)
  simp [cell]

private theorem queue_simulates (related : Represents s x)
    (legal : Legal x (.queue (some a) func arg)) :
    ∃ t, apply s (.queue (some a) func arg) = some t ∧
      Represents t (x.step (.queue (some a) func arg)) := by
  obtain ⟨unqueued, unheld, unshared⟩ := legal
  -- malloc returned what no waiting job and no worker has
  have free : s.queue.heap a = none := by
    by_contra used
    rcases (related.allocated a).mp used with pending | held
    · exact unqueued pending
    · exact unheld held
  obtain ⟨q', returned, queued', frame⟩ :=
    poolQueue_queued func arg related.queued free
  refine ⟨{ s with queue := q', calls := s.calls + 1 }, by simp [apply, returned], ?_⟩
  constructor
  · simpa [Fifo.step, Entry.waiting] using queued'
  · exact related.ran
  · intro b
    -- the nodes of the list are allocated, and no others than before
    by_cases listed : b ∈ addrs (x.pending.map Entry.waiting ++ [(a, func, arg)])
    · refine iff_of_true (jobs_allocated queued'.listed listed) (Or.inl ?_)
      simpa [Fifo.step, addrs_waiting, Entry.waiting] using listed
    · have sameCell : q'.heap b = s.queue.heap b := frame b listed
      rw [sameCell, related.allocated b]
      simp only [addrs, List.map_append, List.map_map, List.mem_append, not_or] at listed
      have differ : b ≠ a := by simpa using listed.2
      simp [Fifo.step, differ]
  -- no two owners of one piece of memory
  · have owned := related.owned
    simp only [Fifo.step, List.map_append, List.map_cons, List.map_nil, ← List.append_assoc]
    rw [List.nodup_append]
    refine ⟨owned, by simp, ?_⟩
    intro b member c single same
    simp only [List.mem_singleton] at single
    subst single same
    rcases List.mem_append.mp member with held | pending
    · exact unheld held
    · exact unqueued pending
  · simp only [Fifo.step, List.map_append, List.map_cons, List.map_nil]
    rw [List.nodup_append]
    refine ⟨related.distinct, by simp, ?_⟩
    intro b member c single same
    simp only [List.mem_singleton] at single
    subst single same
    exact unshared member
  · have bounded := related.bounded
    simp only [Fifo.step, List.length_append, List.length_cons, List.length_nil]
    omega

private theorem take_simulates (related : Represents s x) (legal : Legal x .take) :
    ∃ t, apply s .take = some t ∧ Represents t (x.step .take) := by
  obtain ⟨queued, ran, allocated, owned, distinct, bounded⟩ := related
  cases waiting : x.pending with
  | nil => exact absurd waiting legal
  | cons e rest =>
    rw [waiting] at queued allocated owned distinct bounded
    -- the job leaves the list, but its memory is held by the worker
    obtain ⟨q', returned, queued', heapSame, job, cell, shown⟩ :=
      dequeue_queued (show Queued s.queue (e.waiting :: rest.map Entry.waiting) from queued)
    refine ⟨{ s with queue := q', ran := s.ran ++ [(e.func, e.arg)] }, ?_, ?_⟩
    · simp [apply, returned, heapSame, cell, shown]
    simp only [Fifo.step, waiting]
    constructor
    · exact queued'
    · simp [ran]
    · intro b
      change q'.heap b ≠ none ↔ _
      rw [heapSame, allocated b]
      simp only [List.map_cons, List.mem_cons]
      tauto
    · exact (List.perm_middle.nodup_iff).mp (by simpa using owned)
    · simp only [List.map_cons, List.nodup_cons] at distinct
      exact distinct.2
    · simp only [List.length_cons] at bounded
      dsimp only
      omega

private theorem free_simulates (related : Represents s x) (legal : Legal x (.free a)) :
    ∃ t, apply s (.free a) = some t ∧ Represents t (x.step (.free a)) := by
  obtain ⟨queued, ran, allocated, owned, distinct, bounded⟩ := related
  obtain ⟨heldNodup, _, apart⟩ := List.nodup_append.mp owned
  -- what a worker holds is on no list, so freeing it leaves the queue
  have unlisted : a ∉ x.pending.map Entry.addr := fun member => apart a legal a member rfl
  refine ⟨_, rfl, ?_⟩
  constructor
  · refine ⟨path_congr ?_ queued.listed, queued.tail⟩
    intro b member
    rw [addrs_waiting] at member
    exact Heap.free_other _ (fun same => unlisted (same ▸ member))
  · exact ran
  · intro b
    by_cases same : b = a
    · subst same
      simp [Fifo.step, unlisted, heldNodup.mem_erase_iff]
    · simp only [Heap.free_other _ same, allocated b, Fifo.step, heldNodup.mem_erase_iff, ne_eq, same,
        not_false_eq_true, true_and]
  · exact owned.sublist (List.Sublist.append_right List.erase_sublist _)
  · exact distinct
  · exact bounded

private theorem flush_simulates (related : Represents s x) :
    ∃ t, apply s (.flush arg) = some t ∧ Represents t (x.step (.flush arg)) := by
  obtain ⟨queued, ran, allocated, owned, distinct, bounded⟩ := related
  -- with distinct arguments at most one job is removed
  have distinct' : ((x.pending.map Entry.waiting).map fun c => c.2.2).Nodup := by
    simpa [Function.comp_def, Entry.waiting] using distinct
  obtain ⟨q', returned, queued', frame, freed⟩ :=
    poolFlushByArg_queued arg queued distinct'
      (show _ < s.calls + 1 by simp only [List.length_map]; omega)
  refine ⟨{ s with queue := q' }, by simp [apply, returned], ?_⟩
  have keptSub : (x.pending.filter fun e => e.arg ≠ arg).Sublist x.pending := List.filter_sublist
  rw [addrs_waiting] at frame freed
  constructor
  · simpa [Fifo.step, keep_waiting] using queued'
  · exact ran
  · intro b
    change q'.heap b ≠ none ↔ b ∈ (x.pending.filter fun e => e.arg ≠ arg).map Entry.addr ∨ b ∈ x.held
    rw [keep_waiting] at queued' freed
    rw [addrs_waiting] at freed
    -- by what became of the memory: kept, freed by the flush, or not of the queue at all
    by_cases kept : b ∈ (x.pending.filter fun e => e.arg ≠ arg).map Entry.addr
    · exact iff_of_true (jobs_allocated queued'.listed (by rwa [addrs_waiting])) (Or.inl kept)
    by_cases pending : b ∈ x.pending.map Entry.addr
    · have unheld : b ∉ x.held := fun held => (List.nodup_append.mp owned).2.2 b held b pending rfl
      exact iff_of_false (by simp [freed b pending kept]) (not_or.mpr ⟨kept, unheld⟩)
    · rw [frame b pending, allocated b]
      simp only [kept, pending, false_or]
  · exact owned.sublist ((List.Sublist.refl _).append (keptSub.map _))
  · exact distinct.sublist (keptSub.map _)
  · have shorter := keptSub.length_le
    simp only [Fifo.step]
    omega

theorem apply_simulates (s : State) (x : Fifo) (op : Op) (related : Represents s x)
    (legal : Legal x op) : ∃ t, apply s op = some t ∧ Represents t (x.step op) := by
  cases op with
  | queue a func arg =>
    -- a `malloc` that fails leaves everything as it was
    cases a with
    | none =>
      exact ⟨_, rfl, { related with bounded := Nat.le_succ_of_le related.bounded }⟩
    | some a => exact queue_simulates related legal
  | take => exact take_simulates related legal
  | free a => exact free_simulates related legal
  | flush arg => exact flush_simulates related

def start : State := ⟨⟨fun _ => none, none, none⟩, [], 0⟩

def Fifo.empty : Fifo := ⟨[], [], [], [], []⟩

theorem start_represents : Represents start Fifo.empty where
  queued := ⟨rfl, by simp [Fifo.empty]⟩
  ran := rfl
  allocated := by simp [start, Fifo.empty]
  owned := by simp [Fifo.empty]
  distinct := by simp [Fifo.empty]
  bounded := by simp [Fifo.empty, start]

/-- The calls of `pool_queue` are numbered, and what became of each job is known. -/
structure Ledger (x : Fifo) : Prop where
  all : (x.taken ++ x.flushed ++ x.pending).Perm x.queued
  numbered : x.queued.map Entry.ticket = List.range x.queued.length
  ordered : (x.taken ++ x.pending).Sublist x.queued

theorem ledger_step (x : Fifo) (op : Op) (ledger : Ledger x) : Ledger (x.step op) := by
  obtain ⟨all, numbered, ordered⟩ := ledger
  cases op with
  -- each entry is in one of the three lists, and gets the next number
  | queue a func arg =>
    cases a with
    | none => exact ⟨all, numbered, ordered⟩
    | some a =>
      refine ⟨?_, ?_, ?_⟩
      · simpa [Fifo.step, List.append_assoc] using all.append_right [⟨x.queued.length, a, func, arg⟩]
      · simp [Fifo.step, numbered, List.range_succ]
      · simpa [Fifo.step, List.append_assoc] using
          ordered.append (List.Sublist.refl [⟨x.queued.length, a, func, arg⟩])
  | take =>
    cases waiting : x.pending with
    | nil => simpa [Fifo.step, waiting] using Ledger.mk all numbered ordered
    | cons e rest =>
      rw [waiting] at all ordered
      simp only [Fifo.step, waiting]
      refine ⟨?_, numbered, by simpa using ordered⟩
      -- the entry moves from the front of those waiting to the end of those taken
      refine List.Perm.trans ?_ all
      simp only [List.append_assoc, List.singleton_append]
      exact List.Perm.append_left _ List.perm_middle.symm
  | free a => exact ⟨all, numbered, ordered⟩
  | flush arg =>
    refine ⟨?_, numbered, ?_⟩
    -- a flush splits the waiting jobs into those that stay and those that go
    · have split : (x.pending.filter (fun e => decide (e.arg = arg)) ++
          x.pending.filter (fun e => !decide (e.arg = arg))).Perm x.pending :=
        List.filter_append_perm _ _
      refine List.Perm.trans ?_ all
      simp only [Fifo.step, List.append_assoc, ne_eq, decide_not]
      exact List.Perm.append_left _ (List.Perm.append_left _ split)
    · exact ((List.Sublist.refl _).append List.filter_sublist).trans ordered

theorem Ledger.accounted (ledger : Ledger x) : Accounted x :=
  ⟨ledger.all, ledger.numbered ▸ List.nodup_range, ledger.ordered⟩

/-- The queue refines the abstract one through every sequence of operations in which no two
waiting jobs share an argument, and the abstract one loses and repeats nothing. -/
theorem jobQueue_refines_fifo (ops : List Op) (legal : AlongAbstract Fifo.step Legal Fifo.empty ops) :
    Refines apply Fifo.step Represents start Fifo.empty ops ∧
      ∀ pre, pre <+: ops → Accounted (pre.foldl Fifo.step Fifo.empty) := by
  refine ⟨refines_of_simulation Legal apply_simulates start_represents legal, ?_⟩
  intro pre isPrefix
  have initial : Ledger Fifo.empty := ⟨List.Perm.refl _, rfl, List.Sublist.refl _⟩
  exact (foldl_invariant Legal Ledger (fun x op ledger _ => ledger_step x op ledger) initial
    (along_take isPrefix legal)).accounted

/-- Two jobs are queued and flushed one after the other, which leaves a stale tail; the
memory of the first serves a third job. -/
theorem jobQueue_refines_after_flush :
    Refines apply Fifo.step Represents start Fifo.empty
      [.queue (some 1) 7 10, .queue (some 2) 7 11, .flush 10, .flush 11, .queue (some 1) 8 12,
        .take, .free 1] :=
  (jobQueue_refines_fifo _ (by simp [AlongAbstract, Along, Legal, Fifo.step, Fifo.empty])).1

end Pire2Pire.ThreadPool
