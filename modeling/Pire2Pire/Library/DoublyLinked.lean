import Pire2Pire.Library.Heap
import Mathlib.Logic.Relation

/-! Doubly linked lists: the two link fields of objects in memory. -/
namespace Pire2Pire.Library

/-- The fields that link an object into a list; its other fields stay out of the way. -/
structure Links where
  prev : Ptr
  next : Ptr
  deriving DecidableEq, Repr

/-- From `p` the objects `l` follow each other by `next` up to `r`; each one's `prev` is
the object before it, and `q` for the first. -/
def Dll (h : Heap Links) : Ptr → Ptr → List Nat → Ptr → Prop
  | _, p, [], r => p = r
  | q, p, a :: l, r => p = some a ∧ ∃ n, h a = some ⟨q, n⟩ ∧ Dll h (some a) n l r

/-- The last object of a list that follows `q`. -/
def lastPtr : Ptr → List Nat → Ptr
  | q, [] => q
  | _, a :: l => lastPtr (some a) l

/-- `b` can be reached from the object `a` by following links in either direction. -/
def LinkReach (h : Heap Links) : Nat → Nat → Prop :=
  Relation.ReflTransGen fun a b => ∃ x, h a = some x ∧ (x.next = some b ∨ x.prev = some b)

variable {h h' : Heap Links} {p q r : Ptr} {a : Nat} {l m : List Nat}

theorem lastPtr_concat : lastPtr q (l ++ [a]) = some a := by
  induction l generalizing q with
  | nil => rfl
  | cons b l ih => exact ih

theorem mem_of_lastPtr (last : lastPtr q l = some a) : a ∈ l ∨ q = some a := by
  induction l generalizing q with
  | nil => exact Or.inr last
  | cons b l ih =>
    -- it is in the list, or the list is empty and it is what stands before it
    rcases ih last with listed | same
    · exact Or.inl (List.mem_cons_of_mem _ listed)
    · cases same
      exact Or.inl (by simp)

theorem dll_append :
    Dll h q p (l ++ m) r ↔ ∃ n, Dll h q p l n ∧ Dll h (lastPtr q l) n m r := by
  induction l generalizing p q with
  | nil => simp [Dll, lastPtr]
  | cons a l ih =>
    simp only [List.cons_append, Dll, ih, lastPtr]
    constructor
    · rintro ⟨head, n, cell, mid, left, right⟩
      exact ⟨mid, ⟨head, n, cell, left⟩, right⟩
    · rintro ⟨mid, ⟨head, n, cell, left⟩, right⟩
      exact ⟨head, n, cell, mid, left, right⟩

theorem dll_congr (same : ∀ a ∈ l, h' a = h a) (linked : Dll h q p l r) : Dll h' q p l r := by
  induction l generalizing p q with
  | nil => exact linked
  | cons a l ih =>
    obtain ⟨head, n, cell, rest⟩ := linked
    exact ⟨head, n, by rw [same a (by simp), cell], ih (fun b member => same b (by simp [member])) rest⟩

theorem dll_set {x : Links} (outside : a ∉ l) (linked : Dll h q p l r) :
    Dll (h.set a x) q p l r := by
  apply dll_congr _ linked
  intro b member
  exact Heap.set_other h x (fun same => outside (same ▸ member))

theorem dll_chain (linked : Dll h q p l r) : ∃ cells, Seg Links.next h p cells r ∧ addrs cells = l := by
  induction l generalizing p q with
  | nil => exact ⟨[], linked, rfl⟩
  | cons a l ih =>
    -- the back links are forgotten
    obtain ⟨head, n, cell, rest⟩ := linked
    obtain ⟨cells, seg, same⟩ := ih rest
    exact ⟨(a, ⟨q, n⟩) :: cells, ⟨head, cell, seg⟩, by simp [same]⟩

theorem dll_nodup (linked : Dll h q p l none) : l.Nodup := by
  obtain ⟨cells, chain, rfl⟩ := dll_chain linked
  exact chain_nodup chain

/-- The head pointer is NULL exactly for the empty list. -/
theorem dll_null_iff (linked : Dll h q p l none) : p = none ↔ l = [] := by
  cases l with
  | nil => exact iff_of_true linked rfl
  | cons a l => simp [linked.1]

/-- What the cell of a listed object says about its neighbours. -/
theorem dll_cell {c : Nat} (linked : Dll h q p (l ++ c :: m) none) :
    h c = some ⟨lastPtr q l, m.head?⟩ := by
  obtain ⟨n, _, head, n', cell, rest⟩ := dll_append.mp linked
  rw [cell]
  -- the last object has no successor, and each other one has the next of the list
  cases m with
  | nil => simp [show n' = none from rest]
  | cons b m => simp [rest.1]

/-- Give the first object of a list another predecessor. -/
theorem dll_setPrev {x : Links} (q' : Ptr) (cell : h a = some x) (outside : a ∉ l)
    (linked : Dll h q p (a :: l) r) : Dll (h.set a ⟨q', x.next⟩) q' p (a :: l) r := by
  obtain ⟨head, n, cell', rest⟩ := linked
  rw [cell] at cell'
  cases cell'
  exact ⟨head, n, Heap.set_here _ _ _, dll_set outside rest⟩

/-- Give the last object of a list another successor. -/
theorem dll_setNext {x : Links} {n : Ptr} (cell : h a = some x) (outside : a ∉ l)
    (linked : Dll h q p (l ++ [a]) r) : Dll (h.set a ⟨x.prev, n⟩) q p (l ++ [a]) n := by
  obtain ⟨mid, left, head, n', cell', _⟩ := dll_append.mp linked
  rw [cell] at cell'
  cases cell'
  exact dll_append.mpr ⟨mid, dll_set outside left, head, n, Heap.set_here _ _ _, rfl⟩

/-- Links never lead out of a list. -/
theorem dll_reach {b : Nat} (linked : Dll h none p l none) (start : a ∈ l) (path : LinkReach h a b) :
    b ∈ l := by
  induction path with
  | refl => exact start
  | tail _ edge ih =>
    -- a link of a listed object leads to its neighbour on one of the two sides
    obtain ⟨x, cell, step⟩ := edge
    obtain ⟨before, after, split⟩ := List.append_of_mem ih
    subst split
    rw [dll_cell linked] at cell
    cases cell
    rcases step with forward | backward
    · have member := List.mem_of_mem_head? forward
      simp [member]
    · rcases mem_of_lastPtr backward with member | none
      · simp [member]
      · cases none

/-- Put a new object in front of a list: its own links first, then the back link of the
old first object. -/
theorem dll_push {b : Nat} {n : Ptr} (fresh : a ∉ b :: l) (cell : h b = some ⟨none, n⟩)
    (linked : Dll h none (some b) (b :: l) none) :
    Dll ((h.set a ⟨none, some b⟩).set b ⟨some a, n⟩) none (some a) (a :: b :: l) none := by
  -- the two cells that are written are different, and neither is further behind in the list
  have unvisited : b ∉ l := (List.nodup_cons.mp (dll_nodup linked)).1
  have differ : a ≠ b := fun same => fresh (by simp [same])
  obtain ⟨_, n', cell', rest⟩ := linked
  rw [cell] at cell'
  cases cell'
  refine ⟨rfl, some b, ?_, rfl, n, Heap.set_here _ _ _, ?_⟩
  · rw [Heap.set_other _ _ differ, Heap.set_here]
  · exact dll_set unvisited (dll_set (fun member => fresh (by simp [member])) rest)

/-- Within a list the two links are inverse to each other. -/
theorem dll_inverse {b : Nat} (linked : Dll h none p l none) (first : a ∈ l) (second : b ∈ l) :
    (h a).bind Links.next = some b ↔ (h b).bind Links.prev = some a := by
  constructor
  · obtain ⟨before, after, rfl⟩ := List.append_of_mem first
    intro next
    rw [dll_cell linked, Option.bind_some] at next
    obtain ⟨rest, rfl⟩ := List.head?_eq_some_iff.mp next
    have cell := dll_cell (l := before ++ [a]) (c := b) (m := rest) (by simpa using linked)
    rw [cell, Option.bind_some, lastPtr_concat]
  · obtain ⟨before, after, rfl⟩ := List.append_of_mem second
    intro prev
    rw [dll_cell linked, Option.bind_some] at prev
    -- something is in front of `b`, so `a` is
    rcases List.eq_nil_or_concat before with rfl | ⟨init, c, rfl⟩
    · cases prev
    · rw [List.concat_eq_append, lastPtr_concat] at prev
      cases prev
      have cell := dll_cell (l := init) (c := a) (m := b :: after) (by simpa using linked)
      rw [cell, Option.bind_some, List.head?_cons]

/-- Take an object out from between two others, whose links then lead to each other. -/
theorem dll_unlink {c n b : Nat} {x y : Links} (linked : Dll h q p ((l ++ [b]) ++ c :: n :: m) none)
    (before : h b = some x) (behind : h n = some y) :
    Dll ((h.set b ⟨x.prev, some n⟩).set n ⟨some b, y.next⟩) q p ((l ++ [b]) ++ n :: m) none := by
  have nodup := dll_nodup linked
  obtain ⟨mid, left, _, _, _, tail⟩ := dll_append.mp linked
  -- nothing is listed twice, so each write leaves the other part as it is
  rw [List.nodup_append] at nodup
  obtain ⟨front, back, apart⟩ := nodup
  have bAlone : b ∉ l := by
    intro member
    exact (List.nodup_append.mp front).2.2 b member b (List.mem_singleton_self b) rfl
  have nAlone : n ∉ m := (List.nodup_cons.mp (List.nodup_cons.mp back).2).1
  have nOutside : n ∉ l ++ [b] := fun member => apart n member n (by simp) rfl
  have bOutside : b ∉ n :: m := fun member => apart b (by simp) b (List.mem_cons_of_mem _ member) rfl
  have differ : n ≠ b := fun same => bOutside (by simp [same])
  have cell : (h.set b ⟨x.prev, some n⟩) n = some y := by rw [Heap.set_other _ _ differ, behind]
  refine dll_append.mpr ⟨some n, ?_, ?_⟩
  · exact dll_set nOutside (dll_setNext before bAlone left)
  · rw [lastPtr_concat]
    have relinked := dll_setPrev (some b) cell nAlone (dll_set bOutside tail)
    rwa [tail.1] at relinked

end Pire2Pire.Library
