import Pire2Pire.Library.Heap

/-! What `handle_client` and `handle_daemon` do with the requests that are left when a connection ends: two
copies of one loop over a list that is freed while it is walked. -/
namespace Pire2Pire.Teardown

open Library

/-- The fields of `struct client_request` and `struct daemon_request` that the cleanup uses. Pools and threads are
known by their numbers, the command line by its address. -/
structure Request where
  cmd : Ptr
  pool : Nat
  tid : Nat
  assigned : Bool
  next : Ptr
deriving DecidableEq, Repr

/-- What the cleanup calls, in this order. -/
inductive Op where
  /-- `pool_kill` -/
  | kill (pool tid : Nat)
  /-- `pool_flush_by_arg` -/
  | flush (pool request : Nat)
  /-- `free` of the command line -/
  | freeCmd (cmd : Nat)
  /-- `free` of the request -/
  | free (request : Nat)
deriving DecidableEq, Repr

/-- Killed if a thread has it, flushed if it is still in the queue. -/
def stop (tmp : Nat) (r : Request) : Op :=
  if r.assigned then .kill r.pool r.tid else .flush r.pool tmp

def freeOps (r : Nat) (x : Request) : List Op :=
  (match x.cmd with
    | some cmd => [.freeCmd cmd]
    | none => []) ++ [.free r]

/-- `client_request_free` and `daemon_request_free`; `r` is not NULL. -/
def requestFree (h : Heap Request) (r : Nat) : Option (Heap Request × List Op) :=
  (h r).map fun x => (h.free r, freeOps r x)

/-- The loop at the end of `handle_client`: `next` is read before the request is freed. There is no result when a
field of a freed request is read. -/
def clientCleanup : Nat → Heap Request → Ptr → Option (Heap Request × List Op)
  | 0, _, _ => none
  | _ + 1, h, none => some (h, [])
  | fuel + 1, h, some tmp => do
    let r ← h tmp
    let next := r.next
    let (h, freed) ← requestFree h tmp
    let (h, ops) ← clientCleanup fuel h next
    return (h, stop tmp r :: freed ++ ops)

/-- The loop at the end of `handle_daemon`: the step of the loop reads `tmp->next`, after the body. -/
def daemonCleanup : Nat → Heap Request → Ptr → Option (Heap Request × List Op)
  | 0, _, _ => none
  | _ + 1, h, none => some (h, [])
  | fuel + 1, h, some tmp => do
    let r ← h tmp
    let (h, freed) ← requestFree h tmp
    let next ← (h tmp).map Request.next
    let (h, ops) ← daemonCleanup fuel h next
    return (h, stop tmp r :: freed ++ ops)

/-- What a teardown is for: each request in turn is stopped and freed, once, and nothing else is touched. -/
structure TornDown (h h' : Heap Request) (l : List (Nat × Request)) (ops : List Op) : Prop where
  inTurn : ops = l.flatMap fun (a, r) => stop a r :: freeOps a r
  freed : ∀ a ∈ addrs l, h' a = none
  others : ∀ a ∉ addrs l, h' a = h a

variable {h : Heap Request} {p : Ptr} {l : List (Nat × Request)} {fuel : Nat}

/-- The loop of `handle_client` tears every list down. -/
theorem clientCleanup_tearsDown (listed : Chain Request.next h p l) (enough : l.length < fuel) :
    ∃ h' ops, clientCleanup fuel h p = some (h', ops) ∧ TornDown h h' l ops := by
  induction l generalizing fuel h p with
  | nil =>
    obtain ⟨fuel, rfl⟩ := Nat.exists_eq_succ_of_ne_zero (Nat.ne_of_gt enough)
    cases show p = none from listed
    exact ⟨h, [], rfl, rfl, by simp, fun _ _ => rfl⟩
  | cons c l ih =>
    obtain ⟨a, r⟩ := c
    obtain ⟨fuel, rfl⟩ := Nat.exists_eq_succ_of_ne_zero (Nat.ne_of_gt (Nat.zero_lt_of_lt enough))
    have nodup := chain_nodup listed
    obtain ⟨rfl, cell, rest⟩ := listed
    simp only [addrs, List.map_cons, List.nodup_cons] at nodup
    -- the rest of the list does not use the memory that is freed
    have kept : Chain Request.next (h.free a) r.next l := seg_free nodup.1 rest
    obtain ⟨h', ops, ran, inTurn, freed, others⟩ := ih kept (by simpa using enough)
    refine ⟨h', stop a r :: freeOps a r ++ ops, ?_, ?_, ?_, ?_⟩
    · simp only [clientCleanup, requestFree, cell, Option.map_some, Option.bind_eq_bind, Option.bind_some, ran,
        Option.pure_def]
    · simp [inTurn]
    · intro b member
      rcases List.mem_cons.mp member with same | later
      · cases same
        rw [others a nodup.1, Heap.free_here]
      · exact freed b later
    · intro b outside
      simp only [addrs, List.map_cons, List.mem_cons, not_or] at outside
      rw [others b outside.2, Heap.free_other _ outside.1]

/-- The loop of `handle_daemon` reads the first request after it has freed it. -/
theorem daemonCleanup_faults (fuel : Nat) (h : Heap Request) (tmp : Nat) : daemonCleanup fuel h (some tmp) = none := by
  cases fuel with
  | zero => rfl
  | succ fuel =>
    cases cell : h tmp with
    | none => simp [daemonCleanup, cell]
    | some r => simp [daemonCleanup, requestFree, cell]

/-- The loop of `handle_daemon` does what that of `handle_client` does, and tears the list down, iff no request is
left. -/
theorem daemonCleanup_iff_idle (listed : Chain Request.next h p l) (enough : l.length < fuel) :
    (daemonCleanup fuel h p = clientCleanup fuel h p ∧
        ∃ h' ops, daemonCleanup fuel h p = some (h', ops) ∧ TornDown h h' l ops) ↔ l = [] := by
  cases l with
  | nil =>
    cases show p = none from listed
    obtain ⟨h', ops, ran, down⟩ := clientCleanup_tearsDown (l := []) (p := none) (h := h) rfl enough
    have same : daemonCleanup fuel h none = clientCleanup fuel h none := by
      cases fuel <;> rfl
    exact iff_of_true ⟨same, h', ops, same.trans ran, down⟩ rfl
  | cons c l =>
    obtain ⟨a, r⟩ := c
    cases listed.1
    apply iff_of_false _ (by simp)
    rintro ⟨-, h', ops, ran, -⟩
    rw [daemonCleanup_faults] at ran
    cases ran

/-- Nothing is left of a connection on which all requests were answered. -/
theorem idle_daemonCleanup :
    (daemonCleanup 1 (fun _ => none) none = clientCleanup 1 (fun _ => none) none ∧
        ∃ h' ops, daemonCleanup 1 (fun _ => none) none = some (h', ops) ∧ TornDown (fun _ => none) h' [] ops) ↔
      ([] : List (Nat × Request)) = [] :=
  daemonCleanup_iff_idle rfl (by decide)

/-- A request that a thread of pool 1 executes, and one that waits in the queue of pool 2. -/
def twoLeft : Heap Request :=
  let h : Heap Request := fun _ => none
  (h.set 10 ⟨some 11, 1, 7, true, some 20⟩).set 20 ⟨some 21, 2, 0, false, none⟩

theorem twoLeft_listed :
    Chain Request.next twoLeft (some 10) [(10, ⟨some 11, 1, 7, true, some 20⟩), (20, ⟨some 21, 2, 0, false, none⟩)] :=
  ⟨rfl, by decide, rfl, by decide, rfl⟩

/-- The client's loop tears both down; the daemon's reads the first one after it is freed. -/
theorem two_requests_read_after_free :
    Chain Request.next twoLeft (some 10)
        [(10, ⟨some 11, 1, 7, true, some 20⟩), (20, ⟨some 21, 2, 0, false, none⟩)] ∧
      (clientCleanup 3 twoLeft (some 10)).map Prod.snd =
        some [.kill 1 7, .freeCmd 11, .free 10, .flush 2 20, .freeCmd 21, .free 20] ∧
      daemonCleanup 3 twoLeft (some 10) = none := by
  refine ⟨twoLeft_listed, ?_, daemonCleanup_faults ..⟩
  decide

end Pire2Pire.Teardown
