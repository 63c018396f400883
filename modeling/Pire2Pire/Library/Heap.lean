import Mathlib.Algebra.Order.Ring.Int
import Mathlib.Data.List.Basic
import Mathlib.Logic.Function.Basic

/-! Memory cells, pointers, and the linked lists that pointers spell out. -/
namespace Pire2Pire.Library

/-- A pointer; `none` is NULL. -/
abbrev Ptr := Option Nat

/-- Memory for objects of one type. An address that is not allocated holds nothing. -/
abbrev Heap (α : Type) := Nat → Option α

variable {α : Type}

/-- Write an allocated (or newly allocated) cell. -/
def Heap.set (h : Heap α) (a : Nat) (x : α) : Heap α := Function.update h a (some x)

def Heap.free (h : Heap α) (a : Nat) : Heap α := Function.update h a none

@[simp] theorem Heap.set_here (h : Heap α) (a : Nat) (x : α) : h.set a x a = some x := by
  simp [Heap.set]

@[simp] theorem Heap.set_other (h : Heap α) {a b : Nat} (x : α) (differ : b ≠ a) :
    h.set a x b = h b := by
  simp [Heap.set, differ]

@[simp] theorem Heap.free_here (h : Heap α) (a : Nat) : h.free a a = none := by
  simp [Heap.free]

@[simp] theorem Heap.free_other (h : Heap α) {a b : Nat} (differ : b ≠ a) :
    h.free a b = h b := by
  simp [Heap.free, differ]

theorem Heap.free_apply (h : Heap α) (a b : Nat) :
    h.free a b = if b = a then none else h b := by
  simp only [Heap.free, Function.update_apply]

/-- What is found after an update is the new value at its place, or an old one at another. -/
theorem update_cases {β : Type} {f : Nat → β} {a b : Nat} {x y : β} (found : Function.update f a x b = y) :
    b = a ∧ x = y ∨ b ≠ a ∧ f b = y := by
  by_cases same : b = a
  · subst same
    rw [Function.update_self] at found
    exact .inl ⟨rfl, found⟩
  · rw [Function.update_of_ne same] at found
    exact .inr ⟨same, found⟩

/-- A statement about all cells after one of them was written. -/
theorem Heap.forall_set {h : Heap α} {a : Nat} {x : α} {P : Nat → α → Prop} (here : P a x)
    (others : ∀ b y, b ≠ a → h b = some y → P b y) (b : Nat) (y : α) (cell : h.set a x b = some y) : P b y := by
  by_cases same : b = a
  · subst same
    rw [Heap.set_here] at cell
    exact Option.some.inj cell ▸ here
  · rw [Heap.set_other h x same] at cell
    exact others b y same cell

/-- Following `next` from `p` visits exactly the allocated cells `l`, in this order,
and arrives at `q`. -/
def Seg (next : α → Ptr) (h : Heap α) : Ptr → List (Nat × α) → Ptr → Prop
  | p, [], q => p = q
  | p, (a, x) :: l, q => p = some a ∧ h a = some x ∧ Seg next h (next x) l q

/-- A list that ends at NULL. -/
abbrev Chain (next : α → Ptr) (h : Heap α) (p : Ptr) (l : List (Nat × α)) : Prop :=
  Seg next h p l none

/-- The addresses of the cells of a list. -/
abbrev addrs (l : List (Nat × α)) : List Nat := l.map Prod.fst

variable {next : α → Ptr} {h h' : Heap α} {p q : Ptr}

theorem seg_append {l r : List (Nat × α)} :
    Seg next h p (l ++ r) q ↔ ∃ m, Seg next h p l m ∧ Seg next h m r q := by
  induction l generalizing p with
  | nil => simp [Seg]
  -- the first cell is the same on both sides, and the middle pointer is that of the rest
  | cons c l ih =>
    obtain ⟨a, x⟩ := c
    simp only [List.cons_append, Seg, ih]
    constructor
    · rintro ⟨head, cell, m, left, right⟩
      exact ⟨m, ⟨head, cell, left⟩, right⟩
    · rintro ⟨m, ⟨head, cell, left⟩, right⟩
      exact ⟨head, cell, m, left, right⟩

/-- A list only depends on the cells it visits. -/
theorem seg_congr {l : List (Nat × α)} (same : ∀ a ∈ addrs l, h' a = h a)
    (seg : Seg next h p l q) : Seg next h' p l q := by
  induction l generalizing p with
  | nil => exact seg
  | cons c l ih =>
    obtain ⟨a, x⟩ := c
    obtain ⟨head, cell, rest⟩ := seg
    refine ⟨head, ?_, ih (fun b member => same b (by simp [member])) rest⟩
    rw [same a (by simp)]
    exact cell

theorem seg_set {l : List (Nat × α)} {a : Nat} {x : α} (outside : a ∉ addrs l)
    (seg : Seg next h p l q) : Seg next (h.set a x) p l q := by
  apply seg_congr _ seg
  intro b member
  exact Heap.set_other h x (fun same => outside (same ▸ member))

theorem seg_free {l : List (Nat × α)} {a : Nat} (outside : a ∉ addrs l)
    (seg : Seg next h p l q) : Seg next (h.free a) p l q := by
  apply seg_congr _ seg
  intro b member
  exact Heap.free_other h (fun same => outside (same ▸ member))

theorem seg_cell {l : List (Nat × α)} (seg : Seg next h p l q) {a : Nat} {x : α}
    (member : (a, x) ∈ l) : h a = some x := by
  induction l generalizing p with
  | nil => simp at member
  | cons c l ih =>
    obtain ⟨b, y⟩ := c
    obtain ⟨_, cell, rest⟩ := seg
    -- the first cell is the one that the pointer leads to
    rcases List.mem_cons.mp member with same | later
    · cases same
      exact cell
    · exact ih rest later

theorem seg_allocated {l : List (Nat × α)} (seg : Seg next h p l q) {a : Nat}
    (member : a ∈ addrs l) : ∃ x, (a, x) ∈ l ∧ h a = some x := by
  obtain ⟨⟨b, x⟩, listed, rfl⟩ := List.mem_map.mp member
  exact ⟨x, listed, seg_cell seg listed⟩

/-- A free address is on no list. -/
theorem seg_fresh {l : List (Nat × α)} (seg : Seg next h p l q) {a : Nat}
    (free : h a = none) : a ∉ addrs l := by
  intro member
  obtain ⟨x, _, cell⟩ := seg_allocated seg member
  simp [free] at cell

/-- One pointer starts at most one list. -/
theorem chain_unique {l r : List (Nat × α)} (left : Chain next h p l) (right : Chain next h p r) :
    l = r := by
  induction l generalizing p r with
  | nil =>
    cases r with
    | nil => rfl
    | cons c r =>
      obtain ⟨b, y⟩ := c
      cases left.symm.trans right.1
  | cons c l ih =>
    obtain ⟨a, x⟩ := c
    obtain ⟨head, cell, rest⟩ := left
    -- both lists start at the same address, so they have the same cell there and the same rest
    cases r with
    | nil => cases head.symm.trans right
    | cons d r =>
      obtain ⟨b, y⟩ := d
      obtain ⟨head', cell', rest'⟩ := right
      have sameAddr : a = b := Option.some.inj (head.symm.trans head')
      subst b
      have sameCell : x = y := Option.some.inj (cell.symm.trans cell')
      subst y
      rw [ih rest rest']

/-- A list that ends visits no address twice: the rest of the list after a repeated
address would have to be its own proper part. -/
theorem chain_nodup {l : List (Nat × α)} (chain : Chain next h p l) : (addrs l).Nodup := by
  induction l generalizing p with
  | nil => simp
  | cons c l ih =>
    obtain ⟨a, x⟩ := c
    obtain ⟨head, cell, rest⟩ := chain
    refine List.nodup_cons.mpr ⟨?_, ih rest⟩
    -- the part behind the second visit starts at the same address as the whole
    intro again
    obtain ⟨y, listed, cell'⟩ := seg_allocated rest again
    obtain ⟨before, after, split⟩ := List.append_of_mem listed
    rw [split] at rest
    obtain ⟨m, _, tail⟩ := seg_append.mp rest
    have whole : Chain next h (some a) ((a, x) :: l) := ⟨rfl, cell, split ▸ rest⟩
    have part : Chain next h (some a) ((a, y) :: after) := ⟨rfl, tail.2.1, tail.2.2⟩
    have lengths := congrArg List.length (chain_unique whole part)
    simp only [List.length_cons, split, List.length_append] at lengths
    omega

/-! ### Lists of which only the data counts -/

variable {β : Type} {data : α → β}

/-- A list of cells of which only the addresses and `data` are recorded, so that a change
of a link inside the list need not change what is recorded. -/
def Path (next : α → Ptr) (data : α → β) (h : Heap α) : Ptr → List (Nat × β) → Ptr → Prop
  | p, [], q => p = q
  | p, (a, b) :: l, q => p = some a ∧ ∃ x, h a = some x ∧ data x = b ∧ Path next data h (next x) l q

theorem path_iff_seg {l : List (Nat × β)} :
    Path next data h p l q ↔
      ∃ cells, Seg next h p cells q ∧ cells.map (fun c => (c.1, data c.2)) = l := by
  induction l generalizing p with
  | nil => simp [Path, Seg]
  | cons c l ih =>
    obtain ⟨a, b⟩ := c
    simp only [Path, ih]
    constructor
    · rintro ⟨head, x, cell, shown, cells, seg, same⟩
      exact ⟨(a, x) :: cells, ⟨head, cell, seg⟩, by simp [same, shown]⟩
    -- the cells are recovered from what is recorded of them
    · rintro ⟨cells, seg, same⟩
      obtain ⟨⟨a', x⟩, tail, rfl, first, rest⟩ := List.map_eq_cons_iff.mp same
      simp only [Prod.mk.injEq] at first
      obtain ⟨rfl, shown⟩ := first
      exact ⟨seg.1, x, seg.2.1, shown, tail, seg.2.2, rest⟩

theorem path_append {l r : List (Nat × β)} :
    Path next data h p (l ++ r) q ↔ ∃ m, Path next data h p l m ∧ Path next data h m r q := by
  induction l generalizing p with
  | nil => simp [Path]
  | cons c l ih =>
    obtain ⟨a, b⟩ := c
    simp only [List.cons_append, Path, ih]
    constructor
    · rintro ⟨head, x, cell, shown, m, left, right⟩
      exact ⟨m, ⟨head, x, cell, shown, left⟩, right⟩
    · rintro ⟨m, ⟨head, x, cell, shown, left⟩, right⟩
      exact ⟨head, x, cell, shown, m, left, right⟩

theorem path_congr {l : List (Nat × β)} (same : ∀ a ∈ addrs l, h' a = h a)
    (path : Path next data h p l q) : Path next data h' p l q := by
  obtain ⟨cells, seg, rfl⟩ := path_iff_seg.mp path
  exact path_iff_seg.mpr ⟨cells, seg_congr (fun a member => same a (by simpa using member)) seg, rfl⟩

/-- Only the link of the last cell is changed. -/
theorem path_relink {l : List (Nat × β)} {a : Nat} {b : β} {x y : α} {n : Ptr} (cell : h a = some x)
    (outside : a ∉ addrs l) (path : Path next data h p (l ++ [(a, b)]) q) (link : next y = n)
    (same : data y = data x) : Path next data (h.set a y) p (l ++ [(a, b)]) n := by
  -- the cells before keep their links
  obtain ⟨m, left, head, x', cell', shown, _⟩ := path_append.mp path
  rw [cell] at cell'
  cases cell'
  refine path_append.mpr ⟨m, path_congr ?_ left, head, y, Heap.set_here _ _ _, same.trans shown, link⟩
  intro b member
  exact Heap.set_other _ _ (fun equal => outside (equal ▸ member))

theorem path_nodup {l : List (Nat × β)} (path : Path next data h p l none) : (addrs l).Nodup := by
  obtain ⟨cells, chain, rfl⟩ := path_iff_seg.mp path
  simpa [Function.comp_def] using chain_nodup chain

end Pire2Pire.Library
