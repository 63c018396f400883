import Pire2Pire.Library.Runs
import Pire2Pire.Library.DoublyLinked

/-! The lists of connected clients and daemons (`client.c` and `daemon.c`). The two files
hold the same code, so one definition serves both. -/
namespace Pire2Pire.Registry

open Library

/-- The list `clients` with the counter `nb_clients`, or `daemons` with `nb_daemons`. -/
structure Peers where
  heap : Heap Links
  head : Ptr
  count : Int

def empty : Peers := ⟨fun _ => none, none, 0⟩

/-- `client_count` and `daemon_count` read the counter. -/
def peerCount (r : Peers) : Int := r.count

/-- `client_new` and `daemon_new`: both links of a new object are NULL. -/
def peerNew (r : Peers) (c : Nat) : Peers := { r with heap := r.heap.set c ⟨none, none⟩ }

/-- `client_add` and `daemon_add`. Writing to an object that is not allocated has no result. -/
def peerAdd (r : Peers) (c : Ptr) : Option Peers :=
  match c, r.head with
  | none, _ => some { r with count := r.count + 1 }
  | some c, none => some { r with head := some c, count := r.count + 1 }
  | some c, some l => do
    let _ ← r.heap c
    let h := r.heap.set c ⟨none, some l⟩
    let first ← h l
    return ⟨h.set l { first with prev := some c }, some c, r.count + 1⟩

/-- The loop `for (tmp = l; tmp != c; tmp = tmp->next);` of the remove functions. -/
def search (h : Heap Links) (c : Ptr) : Nat → Ptr → Option Ptr
  | 0, tmp => if tmp = c then some tmp else none
  | fuel + 1, tmp =>
    if tmp = c then some tmp
    else tmp.bind fun a => (h a).bind fun x => search h c fuel x.next

/-- `client_remove` and `daemon_remove`. The counter bounds the search. -/
def peerRemove (r : Peers) (c : Ptr) : Option Peers :=
  match r.head with
  | none => some { r with count := r.count - 1 }
  | some l => do
    let tmp ← (← search r.heap c r.count.toNat (some l))
    let x ← r.heap tmp
    match x.prev, x.next with
    -- This was the last element.
    | none, none => return ⟨r.heap, none, r.count - 1⟩
    -- Was the first element.
    | none, some n => do
      let y ← r.heap n
      return ⟨r.heap.set n { y with prev := none }, some n, r.count - 1⟩
    | some p, _ => do
      let y ← r.heap p
      return ⟨r.heap.set p { y with next := x.next }, some l, r.count - 1⟩

/-- The peers `l` are linked in this order, no other object can be reached from the head,
and the counter is their number. -/
structure Holds (r : Peers) (l : List Nat) : Prop where
  linked : Dll r.heap none r.head l none
  closed : ∀ a b, r.head = some a → LinkReach r.heap a b → b ∈ l
  counted : peerCount r = l.length

variable {r r' : Peers} {l : List Nat} {c : Nat}

theorem holds_of_linked (linked : Dll r.heap none r.head l none) (counted : r.count = l.length) :
    Holds r l := by
  refine ⟨linked, ?_, counted⟩
  intro a b head path
  cases l with
  | nil => simp [show r.head = none from linked] at head
  | cons first rest =>
    cases head.symm.trans linked.1
    exact dll_reach linked (by simp) path

theorem peerAdd_holds (holds : Holds r l) (fresh : c ∉ l) :
    ∃ r', peerAdd (peerNew r c) (some c) = some r' ∧ Holds r' (c :: l) := by
  obtain ⟨linked, _, counted⟩ := holds
  have grown : r.count + 1 = ((c :: l).length : Int) := by
    simpa [peerCount] using counted
  have kept : Dll (r.heap.set c ⟨none, none⟩) none r.head l none := dll_set fresh linked
  cases l with
  | nil =>
    have headNone : r.head = none := linked
    refine ⟨{ peerNew r c with count := r.count + 1, head := some c }, ?_, ?_⟩
    · simp [peerAdd, peerNew, headNone]
    · exact holds_of_linked ⟨rfl, none, Heap.set_here _ _ _, rfl⟩ grown
  | cons first rest =>
    -- the old first object is the only other cell that is written
    obtain ⟨head, n, cell, _⟩ := id kept
    have differ : first ≠ c := fun same => fresh (by simp [same])
    rw [head] at kept
    refine ⟨⟨((r.heap.set c ⟨none, none⟩).set c ⟨none, some first⟩).set first ⟨some c, n⟩, some c,
      r.count + 1⟩, ?_, ?_⟩
    · simp [peerAdd, peerNew, head, differ, show r.heap first = some ⟨none, n⟩ by
        simpa [differ] using cell]
    · exact holds_of_linked (dll_push fresh cell kept) grown

theorem search_finds {h : Heap Links} {p q : Ptr} {fuel : Nat} (linked : Dll h q p l none)
    (member : c ∈ l) (enough : l.length ≤ fuel) : search h (some c) fuel p = some (some c) := by
  induction l generalizing p q fuel with
  | nil => simp at member
  | cons a l ih =>
    obtain ⟨rfl, n, cell, rest⟩ := linked
    obtain ⟨fuel, rfl⟩ : ∃ f, fuel = f + 1 := ⟨fuel - 1, by simp at enough; omega⟩
    -- the loop of the source stops at the object, and it has to be there
    by_cases here : a = c
    · simp [search, here]
    · have later : c ∈ l := by
        rcases List.mem_cons.mp member with same | later
        · exact absurd same.symm here
        · exact later
      have found := ih rest later (by simp at enough; omega)
      simpa [search, here, cell] using found

variable {before after : List Nat}

/-- What `peerRemove` does once the search has found the object between its neighbours. -/
theorem peerRemove_between (holds : Holds r (before ++ c :: after)) :
    peerRemove r (some c) =
      match lastPtr none before, after.head? with
      | none, none => some ⟨r.heap, none, r.count - 1⟩
      | none, some n => (r.heap n).map fun y => ⟨r.heap.set n { y with prev := none }, some n, r.count - 1⟩
      | some p, n => (r.heap p).map fun y => ⟨r.heap.set p { y with next := n }, r.head, r.count - 1⟩ := by
  obtain ⟨linked, _, counted⟩ := holds
  -- the counter is the length of the list, so the search has fuel enough
  have found : search r.heap (some c) r.count.toNat r.head = some (some c) := by
    apply search_finds linked (by simp)
    unfold peerCount at counted
    omega
  have cell := dll_cell linked
  obtain ⟨first, headSome⟩ : ∃ first, r.head = some first := by
    apply Option.ne_none_iff_exists'.mp
    rw [ne_eq, dll_null_iff linked]
    simp
  rw [headSome] at found
  simp only [peerRemove, headSome, found, Option.bind_eq_bind, Option.bind_some, cell]
  cases lastPtr none before <;> cases after.head? <;>
    simp [Option.map_eq_bind]

theorem erase_between (nodup : (before ++ c :: after).Nodup) :
    (before ++ c :: after).erase c = before ++ after := by
  -- no object is listed twice
  have absent : c ∉ before := fun member => by
    simpa using (List.nodup_append.mp nodup).2.2 c member c (by simp)
  rw [List.erase_append_right _ absent, List.erase_cons_head]

theorem counted_erase (holds : Holds r (before ++ c :: after)) :
    r.count - 1 = ((before ++ after).length : Int) := by
  have counted := holds.counted
  simp only [peerCount, List.length_append, List.length_cons] at counted ⊢
  omega

/-- Removing the first object. -/
theorem peerRemove_first (holds : Holds r (c :: after)) :
    ∃ r', peerRemove r (some c) = some r' ∧ Holds r' after := by
  have linked := holds.linked
  have nodup := dll_nodup linked
  have fewer : r.count - 1 = (after.length : Int) := by
    simpa using counted_erase (show Holds r ([] ++ c :: after) from holds)
  rw [peerRemove_between (show Holds r ([] ++ c :: after) from holds)]
  cases after with
  | nil => exact ⟨_, rfl, holds_of_linked rfl fewer⟩
  -- the next object becomes the first, and its back link is cleared
  | cons n rest =>
    have cell : r.heap n = some ⟨some c, rest.head?⟩ := dll_cell (l := [c]) linked
    refine ⟨⟨r.heap.set n ⟨none, rest.head?⟩, some n, r.count - 1⟩, by simp [lastPtr, cell], ?_⟩
    obtain ⟨_, _, _, tail⟩ := linked
    have isolated : n ∉ rest := (List.nodup_cons.mp (List.nodup_cons.mp nodup).2).1
    have relinked := dll_setPrev none cell isolated tail
    rw [tail.1] at relinked
    exact holds_of_linked relinked fewer

/-- Removing the last of several objects. -/
theorem peerRemove_last {p : Nat} (holds : Holds r ((before ++ [p]) ++ [c])) :
    ∃ r', peerRemove r (some c) = some r' ∧ Holds r' (before ++ [p]) := by
  have linked := holds.linked
  have fewer : r.count - 1 = ((before ++ [p]).length : Int) := by
    simpa using counted_erase holds
  rw [peerRemove_between holds]
  have cell : r.heap p = some ⟨lastPtr none before, some c⟩ := by
    simpa using dll_cell (l := before) (m := [c]) (by simpa using linked)
  refine ⟨⟨r.heap.set p ⟨lastPtr none before, none⟩, r.head, r.count - 1⟩, ?_, ?_⟩
  · simp [lastPtr_concat, cell]
  -- the object before gets NULL for its successor
  · obtain ⟨mid, left, _⟩ := dll_append.mp linked
    have isolated : p ∉ before := by
      have nodup := dll_nodup linked
      rw [List.append_assoc, List.nodup_append] at nodup
      exact fun member => by simpa using nodup.2.2 p member p (by simp)
    exact holds_of_linked (dll_setNext (n := none) cell isolated left) fewer

/-- Removing an object between two others leaves the back link of the second one on the
removed object. -/
theorem peerRemove_inner {p n : Nat} (holds : Holds r ((before ++ [p]) ++ c :: n :: after))
    (returned : peerRemove r (some c) = some r') : ¬ Holds r' ((before ++ [p]) ++ n :: after) := by
  have linked := holds.linked
  have nodup := dll_nodup linked
  have cell : r.heap p = some ⟨lastPtr none before, some c⟩ := by
    simpa using dll_cell (l := before) (m := c :: n :: after) (by simpa using linked)
  -- the source does not write to the object behind
  have stale : r.heap n = some ⟨some c, after.head?⟩ := by
    have cellNext := dll_cell (l := (before ++ [p]) ++ [c]) (c := n) (m := after) (by simpa using linked)
    rwa [lastPtr_concat] at cellNext
  have apart : n ≠ p ∧ c ≠ p := by
    rw [List.append_assoc, List.nodup_append] at nodup
    have := nodup.2.1
    simp only [List.singleton_append, List.nodup_cons, List.mem_cons, not_or] at this
    exact ⟨fun same => this.1.2.1 same.symm, fun same => this.1.1 same.symm⟩
  rw [peerRemove_between holds] at returned
  simp only [lastPtr_concat, cell, Option.map_some, Option.some.injEq] at returned
  intro after_holds
  -- in a list that holds, that object would point back to the one before
  have back : r'.heap n = some ⟨some p, after.head?⟩ := by
    simpa [lastPtr_concat] using dll_cell after_holds.linked
  rw [← returned] at back
  simp only [Heap.set_other _ _ apart.1, stale, Option.some.injEq, Links.mk.injEq] at back
  exact apart.2 back.1

/-- The object is the first or the last of the list. -/
def AtEnd (l : List Nat) (c : Nat) : Prop := l.head? = some c ∨ l.getLast? = some c

instance (l : List Nat) (c : Nat) : Decidable (AtEnd l c) := inferInstanceAs (Decidable (_ ∨ _))

/-- Removing keeps the registry in order exactly when it happens at an end of the list. -/
theorem atEnd_iff_removed (holds : Holds r l) (member : c ∈ l) :
    AtEnd l c ↔ ∃ r', peerRemove r (some c) = some r' ∧ Holds r' (l.erase c) := by
  obtain ⟨before, after, rfl⟩ := List.append_of_mem member
  have nodup := dll_nodup holds.linked
  rw [erase_between nodup]
  -- by the place of the object: first, last, or between two others
  rcases List.eq_nil_or_concat before with rfl | ⟨init, p, rfl⟩
  · exact iff_of_true (Or.inl rfl) (peerRemove_first holds)
  simp only [List.concat_eq_append] at holds nodup ⊢
  cases after with
  | nil =>
    refine iff_of_true (Or.inr (by simp)) ?_
    simpa using peerRemove_last holds
  | cons n after =>
    refine iff_of_false ?_ (fun ⟨r', returned, kept⟩ => peerRemove_inner holds returned kept)
    rw [List.append_assoc, List.nodup_append] at nodup
    have tail := nodup.2.1
    -- an object that is neither would have to be listed twice
    rintro (first | last)
    · cases init with
      | nil =>
        simp only [List.nil_append, List.cons_append, List.head?_cons, Option.some.injEq] at first
        simp [first] at tail
      | cons x init =>
        simp only [List.cons_append, List.head?_cons, Option.some.injEq] at first
        exact nodup.2.2 x (by simp) c (by simp) first
    · have listed : c ∈ n :: after := by
        rw [List.getLast?_append, List.getLast?_cons_cons] at last
        cases tailLast : (n :: after).getLast? with
        | none => simp at tailLast
        | some y =>
          rw [tailLast] at last
          cases last
          exact List.mem_of_mem_getLast? tailLast
      simp only [List.singleton_append, List.nodup_cons] at tail
      exact tail.2.1 listed

/-! ### Runs of both registries -/

def clientAdd : Peers → Ptr → Option Peers := peerAdd
def clientRemove : Peers → Ptr → Option Peers := peerRemove
def daemonAdd : Peers → Ptr → Option Peers := peerAdd
def daemonRemove : Peers → Ptr → Option Peers := peerRemove

structure State where
  clients : Peers
  daemons : Peers

inductive Op where
  | clientAdd (c : Nat)
  | clientRemove (c : Nat)
  | daemonAdd (d : Nat)
  | daemonRemove (d : Nat)
  deriving DecidableEq, Repr

/-- `clients = client_add (clients, c)` for an object just made by `client_new`,
`clients = client_remove (clients, c)`, and the same for daemons. -/
def apply (st : State) : Op → Option State
  | .clientAdd c => (clientAdd (peerNew st.clients c) (some c)).map fun r => { st with clients := r }
  | .clientRemove c => (clientRemove st.clients (some c)).map fun r => { st with clients := r }
  | .daemonAdd d => (daemonAdd (peerNew st.daemons d) (some d)).map fun r => { st with daemons := r }
  | .daemonRemove d => (daemonRemove st.daemons (some d)).map fun r => { st with daemons := r }

/-- The peers added and not yet removed, the latest first. -/
structure Connected where
  clients : List Nat
  daemons : List Nat

def track (x : Connected) : Op → Connected
  | .clientAdd c => { x with clients := c :: x.clients }
  | .clientRemove c => { x with clients := x.clients.erase c }
  | .daemonAdd d => { x with daemons := d :: x.daemons }
  | .daemonRemove d => { x with daemons := x.daemons.erase d }

/-- Objects are added when they are new and removed when they are there. -/
def Legal (x : Connected) : Op → Prop
  | .clientAdd c => c ∉ x.clients
  | .clientRemove c => c ∈ x.clients
  | .daemonAdd d => d ∉ x.daemons
  | .daemonRemove d => d ∈ x.daemons

/-- Only the first or the last object of a list is ever removed. -/
def Spares (x : Connected) : Op → Prop
  | .clientRemove c => AtEnd x.clients c
  | .daemonRemove d => AtEnd x.daemons d
  | _ => True

/-- Both lists hold exactly the connected peers. -/
def Tracks (st : State) (x : Connected) : Prop :=
  Holds st.clients x.clients ∧ Holds st.daemons x.daemons

def start : State := ⟨empty, empty⟩

theorem empty_holds : Holds empty [] := holds_of_linked rfl rfl

/-- Replacing one registry in a state: the other one needs nothing. -/
private theorem exists_update {f : Option Peers} {g : Peers → State} {P : Peers → Prop}
    {Q : State → Prop} (same : ∀ r, Q (g r) ↔ P r) :
    (∃ st, f.map g = some st ∧ Q st) ↔ ∃ r, f = some r ∧ P r := by
  constructor
  · rintro ⟨st, made, holds⟩
    obtain ⟨r, found, rfl⟩ := Option.map_eq_some_iff.mp made
    exact ⟨r, found, (same r).mp holds⟩
  · rintro ⟨r, rfl, holds⟩
    exact ⟨g r, rfl, (same r).mpr holds⟩

/-- Removing at an end is exactly what one operation needs. -/
theorem spares_iff_tracks {st : State} {x : Connected} {op : Op} (tracks : Tracks st x)
    (legal : Legal x op) : Spares x op ↔ ∃ st', apply st op = some st' ∧ Tracks st' (track x op) := by
  obtain ⟨clients, daemons⟩ := tracks
  -- one registry changes, the other one is as it was
  cases op with
  | clientAdd c =>
    apply iff_of_true trivial
    rw [apply, exists_update (P := (Holds · (c :: x.clients))) (fun r => and_iff_left daemons)]
    exact peerAdd_holds clients legal
  | clientRemove c =>
    rw [apply, exists_update (P := (Holds · (x.clients.erase c))) (fun r => and_iff_left daemons)]
    exact atEnd_iff_removed clients legal
  | daemonAdd d =>
    apply iff_of_true trivial
    rw [apply, exists_update (P := (Holds · (d :: x.daemons))) (fun r => and_iff_right clients)]
    exact peerAdd_holds daemons legal
  | daemonRemove d =>
    rw [apply, exists_update (P := (Holds · (x.daemons.erase d))) (fun r => and_iff_right clients)]
    exact atEnd_iff_removed daemons legal

/-- After every operation both lists hold exactly the connected peers, linked both ways and
counted, if and only if no peer is removed from between two others. -/
theorem registries_track_iff (ops : List Op) (legal : AlongAbstract track Legal ⟨[], []⟩ ops) :
    Refines apply track Tracks start ⟨[], []⟩ ops ↔ AlongAbstract track Spares ⟨[], []⟩ ops :=
  refines_iff_along Legal Spares (fun _ _ _ tracks legal => spares_iff_tracks tracks legal)
    ⟨empty_holds, empty_holds⟩ legal

/-- Three clients and a daemon: the oldest client leaves, then the newest. -/
theorem registries_track_at_ends :
    Refines apply track Tracks start ⟨[], []⟩
      [.clientAdd 1, .clientAdd 2, .daemonAdd 1, .clientAdd 3, .clientRemove 1, .clientRemove 3] := by
  refine (registries_track_iff _ ?_).mpr ?_
  · simp [AlongAbstract, Along, Legal, track]
  · simp [AlongAbstract, Along, Spares, AtEnd, track]

/-- Of three clients the middle one leaves: the oldest client still points back to it. -/
theorem middle_client_leaves_stale_prev :
    AlongAbstract track Legal ⟨[], []⟩ [.clientAdd 1, .clientAdd 2, .clientAdd 3, .clientRemove 2] ∧
      ¬ Refines apply track Tracks start ⟨[], []⟩
        [.clientAdd 1, .clientAdd 2, .clientAdd 3, .clientRemove 2] := by
  refine ⟨by simp [AlongAbstract, Along, Legal, track], ?_⟩
  intro refines
  -- the back link of the last object is the one that was not updated
  obtain ⟨_, ⟨⟩, holds, _⟩ := refines _ (List.prefix_refl _)
  obtain ⟨_, _, _, _, _, back, _⟩ := holds.linked
  cases back

end Pire2Pire.Registry
