import Pire2Pire.Registry

/-! The list of the requests of a client or of a daemon (`client_request.c` and `daemon_request.c`). The two files hold
the same code, so one definition serves both. -/
namespace Pire2Pire.RequestList

open Library

/-- `client_request_new` and `daemon_request_new`: both links of a new request are NULL. -/
def requestNew (h : Heap Links) (r : Nat) : Heap Links :=
  h.set r ⟨none, none⟩

/-- `client_request_add` and `daemon_request_add`: the memory and the pointer returned. Writing to a request that is not
allocated has no result. -/
def requestAdd (h : Heap Links) (l r : Ptr) : Option (Heap Links × Ptr) :=
  match l, r with
  | none, r => some (h, r)
  | some l, none => some (h, some l)
  | some l, some r => do
    let _ ← h r
    let h := h.set r ⟨none, some l⟩
    let first ← h l
    return (h.set l { first with prev := some r }, some r)

/-- `client_request_remove` and `daemon_request_remove`. The loop that looks for the request is the one of the
registries, and `fuel` bounds it. -/
def requestRemove (fuel : Nat) (h : Heap Links) (l r : Ptr) : Option (Heap Links × Ptr) :=
  match l with
  | none => some (h, none)
  | some l => do
    let tmp ← (← Registry.search h r fuel (some l))
    let x ← h tmp
    match x.prev with
    | none =>
      match x.next with
      | none => return (h, none)
      | some n =>
        let y ← h n
        return (h.set n { y with prev := none }, some n)
    | some p =>
      let y ← h p
      let h := h.set p { y with next := x.next }
      let x ← h tmp
      match x.next with
      | none => return (h, some l)
      | some n =>
        let z ← h n
        return (h.set n { z with prev := x.prev }, some l)

/-- The loop of the counting functions. -/
def countLoop (h : Heap Links) : Nat → Ptr → Int → Option Int
  | _, none, sum => some sum
  | 0, some _, _ => none
  | fuel + 1, some tmp, sum => (h tmp).bind fun x => countLoop h fuel x.next (sum + 1)

/-- `client_request_count` and `daemon_request_count`. -/
def requestCount (fuel : Nat) (h : Heap Links) (r : Ptr) : Option Int :=
  countLoop h fuel r 0

def clientRequestAdd : Heap Links → Ptr → Ptr → Option (Heap Links × Ptr) := requestAdd
def clientRequestRemove : Nat → Heap Links → Ptr → Ptr → Option (Heap Links × Ptr) := requestRemove
def clientRequestCount : Nat → Heap Links → Ptr → Option Int := requestCount
def daemonRequestAdd : Heap Links → Ptr → Ptr → Option (Heap Links × Ptr) := requestAdd
def daemonRequestRemove : Nat → Heap Links → Ptr → Ptr → Option (Heap Links × Ptr) := requestRemove
def daemonRequestCount : Nat → Heap Links → Ptr → Option Int := requestCount

/-- Whose requests they are. -/
inductive Owner where
  | client
  | daemon
deriving DecidableEq, Repr

def Owner.requestAdd : Owner → Heap Links → Ptr → Ptr → Option (Heap Links × Ptr)
  | .client => clientRequestAdd
  | .daemon => daemonRequestAdd

def Owner.requestRemove : Owner → Nat → Heap Links → Ptr → Ptr → Option (Heap Links × Ptr)
  | .client => clientRequestRemove
  | .daemon => daemonRequestRemove

def Owner.requestCount : Owner → Nat → Heap Links → Ptr → Option Int
  | .client => clientRequestCount
  | .daemon => daemonRequestCount

/-- The memory, and `client->requests` or `daemon->requests`. As many requests as were ever added bound the loops. -/
structure State where
  heap : Heap Links
  requests : Ptr
  added : Nat

inductive Op where
  | add (r : Nat)
  | remove (r : Nat)
deriving DecidableEq, Repr

/-- `requests = client_request_add (requests, r)` for a request just made by `client_request_new`, and
`requests = client_request_remove (requests, r)`; the same for a daemon. -/
def apply (o : Owner) (st : State) : Op → Option State
  | .add r => (o.requestAdd (requestNew st.heap r) st.requests (some r)).map fun (h, l) => ⟨h, l, st.added + 1⟩
  | .remove r => (o.requestRemove st.added st.heap st.requests (some r)).map fun (h, l) => ⟨h, l, st.added⟩

def start : State := ⟨fun _ => none, none, 0⟩

/-- The requests added and not yet removed, the latest first. -/
def track (l : List Nat) : Op → List Nat
  | .add r => r :: l
  | .remove r => l.erase r

/-- A request is added when it is new, and removed when it is there. -/
def Legal (l : List Nat) : Op → Prop
  | .add r => r ∉ l
  | .remove r => r ∈ l

/-- The requests `l` are linked in this order from the head, whose `prev` is NULL, to the last one, whose `next` is;
each link has its inverse; no other request can be reached; and they are counted. -/
structure Holds (o : Owner) (st : State) (l : List Nat) : Prop where
  linked : Dll st.heap none st.requests l none
  inverse : ∀ a ∈ l, ∀ b ∈ l,
    (st.heap a).bind Links.next = some b ↔ (st.heap b).bind Links.prev = some a
  closed : ∀ a b, st.requests = some a → LinkReach st.heap a b → b ∈ l
  counted : o.requestCount st.added st.heap st.requests = some (l.length : Int)
  bounded : l.length ≤ st.added

variable {o : Owner} {h : Heap Links} {p q : Ptr} {st : State} {l before after : List Nat} {r fuel : Nat}

/-! ### The functions of both files -/

theorem Owner.requestAdd_eq (o : Owner) : o.requestAdd = RequestList.requestAdd := by
  cases o <;> rfl

theorem Owner.requestRemove_eq (o : Owner) : o.requestRemove = RequestList.requestRemove := by
  cases o <;> rfl

theorem Owner.requestCount_eq (o : Owner) : o.requestCount = RequestList.requestCount := by
  cases o <;> rfl

/-! ### What the loops do on a list -/

theorem countLoop_linked (linked : Dll h q p l none) (enough : l.length ≤ fuel) (sum : Int) :
    countLoop h fuel p sum = some (sum + l.length) := by
  induction l generalizing p q fuel sum with
  | nil =>
    cases linked
    simp [countLoop]
  | cons a l ih =>
    obtain ⟨rfl, n, cell, rest⟩ := linked
    obtain ⟨fuel, rfl⟩ := Nat.exists_eq_succ_of_ne_zero (Nat.ne_of_gt (Nat.lt_of_lt_of_le (by simp) enough))
    have fewer : l.length ≤ fuel := Nat.le_of_succ_le_succ enough
    rw [countLoop, cell, Option.bind_some, ih rest fewer, List.length_cons, Int.natCast_add]
    congr 1
    omega

theorem holds_of_linked (linked : Dll st.heap none st.requests l none) (bounded : l.length ≤ st.added) :
    Holds o st l := by
  refine ⟨linked, fun a first b second => dll_inverse linked first second, ?_, ?_, bounded⟩
  · intro a b head path
    cases l with
    | nil => cases head.symm.trans linked
    | cons first rest =>
      cases head.symm.trans linked.1
      exact dll_reach linked List.mem_cons_self path
  · rw [o.requestCount_eq, requestCount, countLoop_linked linked bounded, Int.zero_add]

/-! ### Adding -/

theorem add_holds (holds : Holds o st l) (fresh : r ∉ l) :
    ∃ st', apply o st (.add r) = some st' ∧ Holds o st' (r :: l) := by
  have kept : Dll (requestNew st.heap r) none st.requests l none := dll_set fresh holds.linked
  have grown : (r :: l).length ≤ st.added + 1 := Nat.succ_le_succ holds.bounded
  cases l with
  | nil =>
    have empty : st.requests = none := holds.linked
    refine ⟨⟨requestNew st.heap r, some r, st.added + 1⟩, ?_, ?_⟩
    · rw [apply, o.requestAdd_eq, empty]
      rfl
    · exact holds_of_linked ⟨rfl, none, Heap.set_here _ _ _, rfl⟩ grown
  | cons first rest =>
    -- the old first request is the only other one that is written to
    obtain ⟨head, n, cell, -⟩ := id kept
    have differ : first ≠ r := fun same => fresh (by simp [same])
    have unwritten : ((requestNew st.heap r).set r ⟨none, some first⟩) first = some ⟨none, n⟩ := by
      rw [Heap.set_other _ _ differ, cell]
    refine ⟨⟨((requestNew st.heap r).set r ⟨none, some first⟩).set first ⟨some r, n⟩, some r, st.added + 1⟩,
      ?_, ?_⟩
    · simp only [apply, o.requestAdd_eq, requestAdd, head, requestNew, Heap.set_here, Option.bind_eq_bind,
        Option.bind_some]
      rw [← requestNew, unwritten]
      rfl
    · rw [head] at kept
      exact holds_of_linked (dll_push fresh cell kept) grown

/-! ### Removing -/

/-- What the function does once the loop has found the request between its neighbours. -/
theorem remove_found (before : List Nat) (holds : Holds o st (before ++ r :: after)) :
    apply o st (.remove r) =
      match lastPtr none before with
      | none =>
        match after.head? with
        | none => some ⟨st.heap, none, st.added⟩
        | some n => (st.heap n).map fun y => ⟨st.heap.set n ⟨none, y.next⟩, some n, st.added⟩
      | some p => (st.heap p).bind fun y =>
        match after.head? with
        | none => some ⟨st.heap.set p ⟨y.prev, none⟩, st.requests, st.added⟩
        | some n => (st.heap.set p ⟨y.prev, some n⟩ n).map fun z =>
          ⟨(st.heap.set p ⟨y.prev, some n⟩).set n ⟨some p, z.next⟩, st.requests, st.added⟩ := by
  have linked := holds.linked
  have found : Registry.search st.heap (some r) st.added st.requests = some (some r) :=
    Registry.search_finds linked (by simp) holds.bounded
  have cell := dll_cell linked
  obtain ⟨first, head⟩ : ∃ first, st.requests = some first := by
    apply Option.ne_none_iff_exists'.mp
    rw [ne_eq, dll_null_iff linked]
    simp
  rw [head] at found
  simp only [apply, o.requestRemove_eq, requestRemove, head, found, Option.bind_eq_bind, Option.bind_some, cell]
  cases front : lastPtr none before with
  | none =>
    cases after.head? with
    | none => rfl
    | some n => cases there : st.heap n <;> simp only [there] <;> rfl
  | some p =>
    -- the write to the request in front leaves the one that is removed as it is
    have differ : r ≠ p := by
      rintro rfl
      have nodup := dll_nodup linked
      rcases mem_of_lastPtr front with member | none_
      · exact (List.nodup_append.mp nodup).2.2 r member r List.mem_cons_self rfl
      · cases none_
    cases there : st.heap p with
    | none => simp only [there, Option.bind_none, Option.map_none]
    | some y =>
      simp only [there, Option.bind_some, Heap.set_other _ _ differ, cell, front]
      cases after.head? with
      | none => rfl
      | some n => cases behind : (st.heap.set p ⟨y.prev, some n⟩) n <;> simp only [behind] <;> rfl

theorem bounded_removed (before : List Nat) (holds : Holds o st (before ++ r :: after)) :
    (before ++ after).length ≤ st.added := by
  have bounded := holds.bounded
  simp only [List.length_append, List.length_cons] at bounded ⊢
  omega

/-- The first request is removed: the next one becomes the head. -/
theorem remove_first (holds : Holds o st (r :: after)) :
    ∃ st', apply o st (.remove r) = some st' ∧ Holds o st' after := by
  have linked := holds.linked
  have fewer : after.length ≤ st.added := bounded_removed [] holds
  rw [remove_found [] holds]
  cases after with
  | nil => exact ⟨⟨st.heap, none, st.added⟩, rfl, holds_of_linked rfl fewer⟩
  | cons n rest =>
    have cell : st.heap n = some ⟨some r, rest.head?⟩ := dll_cell (l := [r]) linked
    have isolated : n ∉ rest := (List.nodup_cons.mp (List.nodup_cons.mp (dll_nodup linked)).2).1
    obtain ⟨_, _, _, tail⟩ := linked
    have relinked := dll_setPrev none cell isolated tail
    rw [tail.1] at relinked
    refine ⟨⟨st.heap.set n ⟨none, rest.head?⟩, some n, st.added⟩, ?_, holds_of_linked relinked fewer⟩
    simp only [lastPtr, List.head?_cons, cell, Option.map_some]

/-- Another request is removed: the one in front of it and the one behind it, if there is one, are linked. -/
theorem remove_behind {p : Nat} (holds : Holds o st ((before ++ [p]) ++ r :: after)) :
    ∃ st', apply o st (.remove r) = some st' ∧ Holds o st' ((before ++ [p]) ++ after) := by
  have linked := holds.linked
  have fewer := bounded_removed _ holds
  have cell : st.heap p = some ⟨lastPtr none before, some r⟩ := by
    simpa using dll_cell (l := before) (c := p) (m := r :: after) (by simpa using linked)
  rw [remove_found _ holds, lastPtr_concat]
  simp only [cell, Option.bind_some]
  cases after with
  | nil =>
    obtain ⟨_, left, -⟩ := dll_append.mp linked
    have isolated : p ∉ before := by
      intro member
      have nodup := (List.nodup_append.mp (dll_nodup linked)).1
      exact (List.nodup_append.mp nodup).2.2 p member p (List.mem_singleton_self p) rfl
    refine ⟨_, rfl, holds_of_linked ?_ fewer⟩
    rw [List.append_nil]
    exact dll_setNext (n := none) cell isolated left
  | cons n rest =>
    have cellNext : st.heap n = some ⟨some r, rest.head?⟩ := by
      have behind := dll_cell (l := (before ++ [p]) ++ [r]) (c := n) (m := rest) (by simpa using linked)
      rwa [lastPtr_concat] at behind
    have differ : n ≠ p := by
      rintro rfl
      exact (List.nodup_append.mp (dll_nodup linked)).2.2 n (by simp) n (by simp) rfl
    simp only [List.head?_cons, Heap.set_other _ _ differ, cellNext, Option.map_some, Option.some.injEq,
      exists_eq_left']
    exact holds_of_linked (dll_unlink linked cell cellNext) fewer

/-- No request is listed twice, so taking it out leaves the others in their order. -/
theorem remove_holds (holds : Holds o st l) (member : r ∈ l) :
    ∃ st', apply o st (.remove r) = some st' ∧ Holds o st' (l.erase r) := by
  obtain ⟨before, after, rfl⟩ := List.append_of_mem member
  rw [Registry.erase_between (dll_nodup holds.linked)]
  rcases List.eq_nil_or_concat before with rfl | ⟨init, p, rfl⟩
  · exact remove_first holds
  · rw [List.concat_eq_append] at holds ⊢
    exact remove_behind holds

/-! ### Runs -/

theorem start_holds : Holds o start [] :=
  holds_of_linked rfl le_rfl

theorem apply_holds (holds : Holds o st l) (op : Op) (legal : Legal l op) :
    ∃ st', apply o st op = some st' ∧ Holds o st' (track l op) := by
  cases op with
  | add r => exact add_holds holds legal
  | remove r => exact remove_holds holds legal

end Pire2Pire.RequestList
