import Pire2Pire.ThreadPool.JobQueue

/-! `pool_flush_by_arg` on queues in which any number of jobs share an argument. The flush finds the new tail
while it walks and frees, so what it leaves behind depends on how the jobs to remove lie next to each other. -/
namespace Pire2Pire.ThreadPool

open Library

variable {q q' : JobQueue} {l r : List Waiting} {arg fuel : Nat}

/-- What a flush is for: the list is the old one without the jobs that have the argument, the tail is its last
node and still allocated, and the next `pool_queue` appends to it. -/
structure Flushed (q' : JobQueue) (l : List Waiting) (arg : Nat) : Prop where
  removed : Jobs q'.heap q'.jobqHead (keep arg l) none
  tail : keep arg l ≠ [] → q'.jobqTail = lastOf (keep arg l) ∧
    ∃ last job, q'.jobqTail = some last ∧ q'.heap last = some job
  appends : ∀ a func x, q'.heap a = none → ∃ q'', poolQueue q' (some a) func x = some q'' ∧
    Jobs q''.heap q''.jobqHead (keep arg l ++ [(a, func, x)]) none

/-- Some job stays, but the last two go. -/
def StrandsTail (arg : Nat) (l : List Waiting) : Prop :=
  keep arg l ≠ [] ∧ ∃ init c d, l = init ++ [c, d] ∧ c.2.2 = arg ∧ d.2.2 = arg

/-! ### Where the loop leaves the tail -/

theorem keep_append (arg : Nat) (l r : List Waiting) : keep arg (l ++ r) = keep arg l ++ keep arg r :=
  List.filter_append ..

theorem keep_kept {c : Waiting} (kept : c.2.2 ≠ arg) : keep arg [c] = [c] := by
  simp [keep, kept]

theorem keep_gone {c : Waiting} (gone : c.2.2 = arg) : keep arg [c] = [] := by
  simp [keep, gone]

/-- The jobs in front only matter by the tail they leave to the others. -/
theorem flushTail_append (arg : Nat) (tail : Ptr) (l r : List Waiting) :
    ∃ tail', flushTail arg tail (l ++ r) = flushTail arg tail' r := by
  induction l generalizing tail with
  | nil => exact ⟨tail, rfl⟩
  | cons c l ih =>
    obtain ⟨a, func, x⟩ := c
    -- a job that goes hands the tail to its successor, a job that stays takes it
    by_cases gone : x = arg
    · simp only [List.cons_append, flushTail, if_pos gone]
      exact ih _
    · simp only [List.cons_append, flushTail, if_neg gone]
      exact ih _

theorem flushTail_kept {c : Waiting} (tail : Ptr) (kept : c.2.2 ≠ arg) :
    flushTail arg tail (l ++ [c]) = some c.1 := by
  obtain ⟨tail', same⟩ := flushTail_append arg tail l [c]
  simp only [same, flushTail, if_neg kept]

/-- A single job at the end leaves the tail on the job before it. -/
theorem flushTail_one_gone {c d : Waiting} (tail : Ptr) (kept : c.2.2 ≠ arg) (gone : d.2.2 = arg) :
    flushTail arg tail (l ++ [c, d]) = some c.1 := by
  obtain ⟨tail', same⟩ := flushTail_append arg tail l [c, d]
  simp [same, flushTail, kept, gone]

/-- The first of two moves the tail to the second. -/
theorem flushTail_two_gone {c d : Waiting} (tail : Ptr) (goneFirst : c.2.2 = arg) (gone : d.2.2 = arg) :
    flushTail arg tail (l ++ [c, d]) = some d.1 := by
  obtain ⟨tail', same⟩ := flushTail_append arg tail l [c, d]
  simp [same, flushTail, goneFirst, gone]

/-- The tail is the last job kept, unless the last two jobs go. -/
theorem flushTail_last (tail : Ptr) (some_ : keep arg l ≠ []) (spared : ¬StrandsTail arg l) :
    flushTail arg tail l = lastOf (keep arg l) := by
  rcases List.eq_nil_or_concat l with rfl | ⟨init, d, rfl⟩
  · exact absurd rfl some_
  simp only [List.concat_eq_append] at *
  by_cases goneLast : d.2.2 = arg
  · rw [keep_append, keep_gone goneLast, List.append_nil] at some_ ⊢
    -- something stays, so there is a job before the last one, and it stays
    rcases List.eq_nil_or_concat init with rfl | ⟨init, c, rfl⟩
    · exact absurd rfl some_
    simp only [List.concat_eq_append, List.append_assoc, List.singleton_append] at *
    have kept : c.2.2 ≠ arg := by
      intro gone
      apply spared
      refine ⟨?_, init, c, d, rfl, gone, goneLast⟩
      rw [keep_append] at some_
      simpa [keep_append, keep, gone, goneLast] using some_
    rw [flushTail_one_gone tail kept goneLast, keep_append, keep_kept kept]
    simp [lastOf]
  · rw [flushTail_kept tail goneLast, keep_append, keep_kept goneLast]
    simp [lastOf]

/-! ### The flush -/

/-- Whatever becomes of the tail, the list is right, and the jobs that go are freed. -/
theorem poolFlushByArg_removes (arg : Nat) (queued : Queued q l) (enough : l.length < fuel) :
    ∃ q', poolFlushByArg fuel q arg = some q' ∧ Jobs q'.heap q'.jobqHead (keep arg l) none ∧
      q'.jobqTail = flushTail arg q.jobqTail l ∧
      ∀ b ∈ addrs l, b ∉ addrs (keep arg l) → q'.heap b = none := by
  obtain ⟨q', flushed, listed, tail, -, freed⟩ :=
    flushLoop_flushes arg enough (show Jobs q.heap q.jobqHead [] _ from rfl) queued.listed
      (path_nodup queued.listed)
  exact ⟨q', flushed, listed, tail, freed⟩

theorem Queued.flushed (queued : Queued q' (keep arg l)) : Flushed q' l arg := by
  constructor
  · exact queued.listed
  · intro some_
    obtain ⟨init, last, shape⟩ := (List.eq_nil_or_concat (keep arg l)).resolve_left some_
    have tail := queued.tail some_
    have isLast : lastOf (keep arg l) = some last.1 := by
      simp [shape, lastOf]
    have allocated : q'.heap last.1 ≠ none :=
      jobs_allocated queued.listed (List.mem_map.mpr ⟨last, by simp [shape], rfl⟩)
    obtain ⟨job, cell⟩ := Option.ne_none_iff_exists'.mp allocated
    exact ⟨tail, last.1, job, tail.trans isLast, cell⟩
  · intro a func x free
    obtain ⟨q'', returned, queued'', -⟩ := poolQueue_queued func x queued free
    exact ⟨q'', returned, queued''.listed⟩

/-- The last job, which is freed, is not the last job kept. -/
theorem stranded_tail_freed (listed : Jobs q.heap q.jobqHead l none) (strands : StrandsTail arg l) (tail : Ptr) :
    ∃ d, flushTail arg tail l = some d ∧ d ∈ addrs l ∧ d ∉ addrs (keep arg l) := by
  obtain ⟨-, init, c, d, rfl, goneFirst, gone⟩ := strands
  refine ⟨d.1, flushTail_two_gone tail goneFirst gone, by simp, ?_⟩
  -- no address occurs twice, so the address of the last job is not that of another one
  have nodup : (addrs (init ++ [c] ++ [d])).Nodup := path_nodup (by simpa using listed)
  rw [addrs, List.map_append, List.nodup_append] at nodup
  intro member
  have keepSame : keep arg (init ++ [c, d]) = keep arg init := by
    rw [keep_append]
    simp [keep, goneFirst, gone]
  rw [keepSame] at member
  obtain ⟨e, kept, same⟩ := List.mem_map.mp member
  have before : e ∈ init := List.mem_of_mem_filter kept
  exact nodup.2.2 e.1 (List.mem_map.mpr ⟨e, by simp [before], rfl⟩) d.1 (by simp) same

/-- A flush leaves a queue that can be appended to iff it does not remove the last two jobs of a queue from
which some job stays. -/
theorem flushed_iff_tail_spared (arg : Nat) (queued : Queued q l) (enough : l.length < fuel) :
    (∃ q', poolFlushByArg fuel q arg = some q' ∧ Flushed q' l arg) ↔ ¬StrandsTail arg l := by
  obtain ⟨q₁, returned, listed, tail, freed⟩ := poolFlushByArg_removes arg queued enough
  constructor
  · rintro ⟨q', returned', flushed⟩ strands
    cases returned.symm.trans returned'
    obtain ⟨d, atLast, member, gone⟩ := stranded_tail_freed queued.listed strands q.jobqTail
    -- the tail is the second job that went, and no memory is left there
    obtain ⟨-, last, job, isTail, cell⟩ := flushed.tail strands.1
    have same : last = d := Option.some.inj (isTail.symm.trans (tail.trans atLast))
    rw [same, freed d member gone] at cell
    cases cell
  · intro spared
    exact ⟨q₁, returned, Queued.flushed ⟨listed, fun some_ => tail.trans (flushTail_last _ some_ spared)⟩⟩

/-- Three jobs, of which the last two have the same argument. -/
def threeJobs : JobQueue :=
  let h : Heap Job := fun _ => none
  ⟨((h.set 1 ⟨some 2, 7, 5⟩).set 2 ⟨some 3, 7, 6⟩).set 3 ⟨none, 7, 6⟩, some 1, some 3⟩

theorem threeJobs_queued : Queued threeJobs [(1, 7, 5), (2, 7, 6), (3, 7, 6)] where
  listed := ⟨rfl, ⟨some 2, 7, 5⟩, by decide, rfl, rfl, ⟨some 3, 7, 6⟩, by decide, rfl, rfl,
    ⟨none, 7, 6⟩, by decide, rfl, rfl⟩
  tail _ := rfl

/-- Flushing the first job leaves the others and their tail. -/
theorem first_job_flushed :
    ∃ q', poolFlushByArg 4 threeJobs 5 = some q' ∧ Flushed q' [(1, 7, 5), (2, 7, 6), (3, 7, 6)] 5 := by
  refine (flushed_iff_tail_spared 5 threeJobs_queued (by decide)).mpr ?_
  rintro ⟨-, init, c, d, shape, -, gone⟩
  have last := congrArg List.getLast? shape
  simp only [List.getLast?_append, List.getLast?_cons_cons, List.getLast?_singleton, Option.some_or,
    Option.some.injEq] at last
  rw [← last] at gone
  cases gone

/-- Flushing the two others leaves the tail on freed memory, and the next job cannot be appended. -/
theorem two_last_jobs_strand_tail :
    Queued threeJobs [(1, 7, 5), (2, 7, 6), (3, 7, 6)] ∧
      (¬∃ q', poolFlushByArg 4 threeJobs 6 = some q' ∧ Flushed q' [(1, 7, 5), (2, 7, 6), (3, 7, 6)] 6) ∧
      (∃ q', poolFlushByArg 4 threeJobs 6 = some q') ∧
      ((poolFlushByArg 4 threeJobs 6).bind fun q' => poolQueue q' (some 4) 7 8).isNone := by
  obtain ⟨q', returned, -⟩ := poolFlushByArg_removes 6 threeJobs_queued (show _ < 4 by decide)
  refine ⟨threeJobs_queued, ?_, ⟨q', returned⟩, by decide⟩
  rintro ⟨q', returned, flushed⟩
  have tail : (poolFlushByArg 4 threeJobs 6).map JobQueue.jobqTail = some (some 3) := by decide
  have head : lastOf (keep 6 [(1, 7, 5), (2, 7, 6), (3, 7, 6)]) = some 1 := by decide
  rw [returned, Option.map_some, (flushed.tail (by decide)).1, head] at tail
  cases tail

end Pire2Pire.ThreadPool
