import Pire2Pire.Library.Runs
import Pire2Pire.Library.Heap
import Pire2Pire.Library.Intervals

/-! The map of missing bytes of a file downloaded by blocks (`hole_map.c` of the
block_by_block branch). -/
namespace Pire2Pire.HoleMap

open Library

/-- `struct hole_map`: the bytes from `start` to `end_` are missing. -/
structure Hole where
  start : Int
  end_ : Int
  next : Ptr
  deriving DecidableEq, Repr

/-- `hole_map_new`; `a` is the address malloc returned. -/
def holeMapNew (h : Heap Hole) (a : Nat) (s e : Int) : Heap Hole := h.set a ⟨s, e, none⟩

/-- `hole_map_fill_gap`: the memory and the pointer it returns. Reading a freed node has
no result. `a` is the address malloc returns if the call splits a hole, and `depth`
bounds the recursion. -/
def holeMapFillGap (a : Nat) (s e : Int) : Nat → Heap Hole → Ptr → Option (Heap Hole × Ptr)
  | _, h, none => some (h, none)
  | 0, _, some _ => none
  | depth + 1, h, some p =>
    match h p with
    | none => none
    | some map =>
      if s < map.start then some (h, some p)
      else if s > map.end_ ∧ map.next ≠ none then
        -- The pointer returned by the recursive call is dropped, as in the source.
        (holeMapFillGap a s e depth h map.next).map fun result => (result.1, some p)
      else if s = map.start then
        if e < map.end_ then some (h.set p { map with start := e + 1 }, some p)
        else if e = map.end_ then some (h.free p, map.next)
        else some (h, some p)
      else if s > map.start then
        if e < map.end_ then
          let inserted := holeMapNew h a (e + 1) map.end_
          let linked := inserted.set a ⟨e + 1, map.end_, map.next⟩
          some (linked.set p { map with end_ := s - 1, next := some a }, some p)
        else if e = map.end_ then some (h.set p { map with end_ := s - 1 }, some p)
        else some (h, some p)
      else some (h, some p)

/-- The byte ranges a list of nodes stands for. -/
abbrev spans (cells : List (Nat × Hole)) : List Span := cells.map fun c => (c.2.start, c.2.end_)

variable {a depth : Nat} {s e : Int} {h h' : Heap Hole} {p p' : Ptr}

/-- A call only writes to nodes of the list it is given and to the node it allocates. -/
theorem holeMapFillGap_frame {cells : List (Nat × Hole)} (chain : Chain Hole.next h p cells)
    (returned : holeMapFillGap a s e depth h p = some (h', p')) {b : Nat}
    (outside : b ∉ addrs cells) (differ : b ≠ a) : h' b = h b := by
  induction cells generalizing p depth p' with
  | nil =>
    cases chain
    simp only [holeMapFillGap, Option.some.injEq, Prod.mk.injEq] at returned
    rw [← returned.1]
  | cons c rest ih =>
    obtain ⟨q, map⟩ := c
    obtain ⟨rfl, cell, tail⟩ := chain
    -- a cell outside of the list is written to only where a node is allocated
    simp only [List.map_cons, List.mem_cons, not_or] at outside
    cases depth with
    | zero => simp [holeMapFillGap] at returned
    | succ depth =>
      simp only [holeMapFillGap, cell] at returned
      split at returned
      · cases returned; rfl
      split at returned
      · simp only [Option.map_eq_some_iff, Prod.mk.injEq] at returned
        obtain ⟨result, inner, rfl, _⟩ := returned
        exact ih tail inner outside.2
      split at returned
      · split at returned
        · cases returned; simp [outside.1]
        split at returned
        · cases returned; simp [outside.1]
        · cases returned; rfl
      split at returned
      · split at returned
        · cases returned; simp [holeMapNew, outside.1, differ]
        split at returned
        · cases returned; simp [outside.1]
        · cases returned; rfl
      · cases returned; rfl

/-- The list is left as it is when the block lies inside no hole. -/
private theorem fillGap_outside (a depth : Nat) {q : Nat} {map : Hole} {rest : List (Nat × Hole)}
    (cell : h q = some map) (tail : Chain Hole.next h map.next rest)
    (sep : Separated (spans ((q, map) :: rest)))
    (here : ¬ (map.start ≤ s ∧ e ≤ map.end_)) (near : s ≤ map.end_ ∨ map.next = none) :
    holeMapFillGap a s e (depth + 1) h (some q) = some (h, some q) ∧
      cut s e (spans ((q, map) :: rest)) = spans ((q, map) :: rest) := by
  constructor
  -- the search ends at this hole, because the block starts before its end or because it is the last one
  · have goesOn : ¬ (s > map.end_ ∧ map.next ≠ none) := by
      rintro ⟨later, more⟩
      rcases near with near | last
      · omega
      · exact more last
    simp only [holeMapFillGap, cell, if_neg goesOn]
    split_ifs <;> first | rfl | omega
  -- in the map, too, no hole has the whole block in it
  · apply cut_of_not_within
    rintro ⟨x, member, inside⟩
    rcases List.mem_cons.mp member with rfl | listed
    · exact here inside
    · rcases near with near | last
      · exact not_within_tail sep near ⟨x, listed, inside⟩
      · rw [last] at tail
        have empty : rest = [] := chain_unique tail rfl
        simp [empty] at listed

/-- The block lies inside the first hole: the four ways to take it out. -/
private theorem fillGap_inside (depth : Nat) {q : Nat} {map : Hole} {rest : List (Nat × Hole)}
    (fresh : h a = none) (chain : Chain Hole.next h (some q) ((q, map) :: rest))
    (ordered : s ≤ e) (inside : map.start ≤ s ∧ e ≤ map.end_) :
    ∃ h' p' cells', holeMapFillGap a s e (depth + 1) h (some q) = some (h', p') ∧
      Chain Hole.next h' p' cells' ∧
      spans cells' = leftover s e (map.start, map.end_) ++ spans rest ∧
      ((map.start, map.end_) ≠ (s, e) → p' = some q) := by
  obtain ⟨_, cell, tail⟩ := id chain
  have unvisited : q ∉ addrs rest := (List.nodup_cons.mp (chain_nodup chain)).1
  have unused : a ∉ addrs rest := seg_fresh tail fresh
  have differ : q ≠ a := by
    rintro rfl
    simp [fresh] at cell
  have reached : ¬ s < map.start := by omega
  have goesOn : ¬ (s > map.end_ ∧ map.next ≠ none) := by omega
  simp only [holeMapFillGap, cell, if_neg reached, if_neg goesOn]
  by_cases atStart : s = map.start <;> by_cases atEnd : e = map.end_
  · -- The whole hole is filled: its node is freed.
    refine ⟨h.free q, map.next, rest, ?_, seg_free unvisited tail, ?_, ?_⟩
    · simp [atStart, atEnd]
    · simp [leftover, atStart, atEnd]
    · simp [atStart, atEnd]
  -- the front of the hole is filled
  · have short : e < map.end_ := by omega
    refine ⟨h.set q { map with start := e + 1 }, some q, (q, { map with start := e + 1 }) :: rest,
      ?_, ⟨rfl, Heap.set_here _ _ _, seg_set unvisited tail⟩, ?_, fun _ => rfl⟩
    · simp [atStart, short]
    · simp [leftover, atStart, short]
  -- the end of the hole is filled
  · have late : map.start < s := by omega
    refine ⟨h.set q { map with end_ := s - 1 }, some q, (q, { map with end_ := s - 1 }) :: rest,
      ?_, ⟨rfl, Heap.set_here _ _ _, seg_set unvisited tail⟩, ?_, fun _ => rfl⟩
    · simp [atStart, atEnd, late]
    · simp [leftover, atEnd, late]
  · -- The hole is split; the new node holds what is behind the block.
    have late : map.start < s := by omega
    have short : e < map.end_ := by omega
    refine ⟨((holeMapNew h a (e + 1) map.end_).set a ⟨e + 1, map.end_, map.next⟩).set q
        { map with end_ := s - 1, next := some a }, some q,
      (q, { map with end_ := s - 1, next := some a }) :: (a, ⟨e + 1, map.end_, map.next⟩) :: rest,
      ?_, ⟨rfl, Heap.set_here _ _ _, rfl, ?_, ?_⟩, ?_, fun _ => rfl⟩
    · simp [atStart, short, late]
    · rw [Heap.set_other _ _ differ.symm, Heap.set_here]
    · exact seg_set unvisited (seg_set unused (seg_set unused tail))
    · simp [leftover, late, short]

/-- As long as the block is not exactly a hole behind the first one, the call cuts the
block out of the list, and the pointer changes only if the first hole is filled. -/
theorem holeMapFillGap_cuts {cells : List (Nat × Hole)} (enough : cells.length ≤ depth)
    (fresh : h a = none) (chain : Chain Hole.next h p cells) (sep : Separated (spans cells))
    (ordered : s ≤ e) (spared : (s, e) ∉ (spans cells).tail) :
    ∃ h' p' cells', holeMapFillGap a s e depth h p = some (h', p') ∧
      Chain Hole.next h' p' cells' ∧ spans cells' = cut s e (spans cells) ∧
      ((spans cells).head? ≠ some (s, e) → p' = p) := by
  -- induction along the list, as the recursion of the source goes
  induction cells generalizing p depth with
  | nil =>
    cases chain
    exact ⟨h, none, [], by simp [holeMapFillGap], rfl, rfl, fun _ => rfl⟩
  | cons c rest ih =>
    obtain ⟨q, map⟩ := c
    obtain ⟨rfl, cell, tail⟩ := id chain
    obtain ⟨depth, rfl⟩ : ∃ d, depth = d + 1 := ⟨depth - 1, by simp at enough; omega⟩
    -- by where the block lies: in this hole, in none, or further behind
    by_cases inside : map.start ≤ s ∧ e ≤ map.end_
    · obtain ⟨h', p', cells', returned, chain', same, kept⟩ :=
        fillGap_inside depth fresh chain ordered inside
      refine ⟨h', p', cells', returned, chain', ?_, ?_⟩
      · simp only [List.map_cons, cut, if_pos inside, same]
      · simpa using kept
    by_cases near : s ≤ map.end_ ∨ map.next = none
    · obtain ⟨returned, same⟩ :=
        fillGap_outside a depth cell tail sep inside near
      exact ⟨h, some q, (q, map) :: rest, returned, chain, same.symm, fun _ => rfl⟩
    · -- The recursive call; its pointer may be dropped because it is the old one.
      simp only [not_or, not_le] at near
      have sepRest : Separated (spans rest) := (separated_cons.mp sep).2.2
      have behind : (s, e) ∉ spans rest := spared
      obtain ⟨h', p', cells', returned, chain', same, kept⟩ :=
        ih (by simp at enough; omega) tail sepRest (fun member => behind (List.mem_of_mem_tail member))
      have pointer : p' = map.next := kept (fun exact_ => behind (List.mem_of_mem_head? exact_))
      subst pointer
      have unvisited : q ∉ addrs rest := (List.nodup_cons.mp (chain_nodup chain)).1
      have differ : q ≠ a := by
        rintro rfl
        simp [fresh] at cell
      -- the nodes behind have changed, but this one is as it was
      have cell' : h' q = some map := by
        rw [holeMapFillGap_frame tail returned unvisited differ]
        exact cell
      refine ⟨h', some q, (q, map) :: cells', ?_, ⟨rfl, cell', chain'⟩, ?_, fun _ => rfl⟩
      · have starts : map.start ≤ map.end_ := (separated_cons.mp sep).1
        have reached : ¬ s < map.start := by omega
        simp only [holeMapFillGap, cell, if_neg reached, if_pos near, returned, Option.map_some]
      · simp only [List.map_cons, cut, if_neg inside, same]

/-- Filling a hole behind the first one exactly frees its node, while the node before it
still points there: no list starts at the returned pointer any more. -/
theorem holeMapFillGap_dangles {cells : List (Nat × Hole)} (enough : cells.length ≤ depth)
    (fresh : h a = none) (chain : Chain Hole.next h p cells) (sep : Separated (spans cells))
    (filled : (s, e) ∈ (spans cells).tail) :
    ∃ h', holeMapFillGap a s e depth h p = some (h', p) ∧ ∀ l, ¬ Chain Hole.next h' p l := by
  induction cells generalizing p depth with
  | nil => simp at filled
  | cons c rest ih =>
    obtain ⟨q, map⟩ := c
    obtain ⟨rfl, cell, tail⟩ := id chain
    obtain ⟨depth, rfl⟩ : ∃ d, depth = d + 1 := ⟨depth - 1, by simp at enough; omega⟩
    have bound : rest.length ≤ depth := by simp at enough; omega
    change (s, e) ∈ spans rest at filled
    have nonempty : map.start ≤ map.end_ := (separated_cons.mp sep).1
    have sepRest : Separated (spans rest) := (separated_cons.mp sep).2.2
    -- a hole behind the first one starts after it, so the call passes the first node
    have behind : map.end_ + 1 < s := (separated_cons.mp sep).2.1 (s, e) filled
    have inner : ∃ h' p', holeMapFillGap a s e depth h map.next = some (h', p') ∧
        map.next ≠ none ∧ ∀ l, ¬ Chain Hole.next h' map.next l := by
      cases rest with
      | nil => simp at filled
      | cons c' rest' =>
        obtain ⟨r, map'⟩ := c'
        obtain ⟨pointer, cell', _⟩ := id tail
        rw [pointer] at tail ⊢
        -- the filled hole is the next one, or the node before it is further behind
        rcases List.mem_cons.mp filled with here | later
        · obtain ⟨depth, rfl⟩ : ∃ d, depth = d + 1 := ⟨depth - 1, by simp at bound; omega⟩
          simp only [Prod.mk.injEq] at here
          obtain ⟨rfl, rfl⟩ := here
          have nonempty' : map'.start ≤ map'.end_ := (separated_cons.mp sepRest).1
          refine ⟨h.free r, map'.next, ?_, by simp, ?_⟩
          · simp [holeMapFillGap, cell', nonempty']
          -- the pointer of the node before is not updated, and leads to a freed cell
          · rintro (_ | ⟨⟨r', m⟩, l⟩) broken
            · cases broken
            · obtain ⟨same, freed, _⟩ := broken
              cases same
              simp at freed
        · obtain ⟨h', returned, broken⟩ := ih bound tail sepRest later
          exact ⟨h', some r, returned, by simp, broken⟩
    obtain ⟨h', p', returned, more, broken⟩ := inner
    refine ⟨h', ?_, ?_⟩
    · have reached : ¬ s < map.start := by omega
      have goesOn : s > map.end_ ∧ map.next ≠ none := ⟨by omega, more⟩
      simp only [holeMapFillGap, cell, if_neg reached, if_pos goesOn, returned, Option.map_some]
    · have unvisited : q ∉ addrs rest := (List.nodup_cons.mp (chain_nodup chain)).1
      have differ : q ≠ a := by
        rintro rfl
        simp [fresh] at cell
      -- a list from here would have to go through the broken part
      rintro (_ | ⟨⟨q', map'⟩, l⟩) whole
      · cases whole
      · obtain ⟨same, cell', chain'⟩ := whole
        cases same
        rw [holeMapFillGap_frame tail returned unvisited differ, cell] at cell'
        cases cell'
        exact broken l chain'

/-! ### Sequences of calls -/

/-- The memory of the nodes, the pointer the caller keeps, and the number of nodes
allocated so far at most, which no list can exceed. -/
structure State where
  heap : Heap Hole
  map : Ptr
  nodes : Nat

/-- A call `map = hole_map_fill_gap (map, s, e)`, with the address malloc returns should
the call need a node. -/
structure Call where
  s : Int
  e : Int
  fresh : Nat

/-- `hole_map_new (0, n - 1)` on a memory without holes. -/
def start (a : Nat) (n : Int) : State := ⟨holeMapNew (fun _ => none) a 0 (n - 1), some a, 1⟩

def call (st : State) (c : Call) : Option State :=
  (holeMapFillGap c.fresh c.s c.e st.nodes st.heap st.map).map fun result =>
    ⟨result.1, result.2, st.nodes + 1⟩

/-- A block of the file, and an address that is not allocated. -/
def Legal (n : Int) (st : State) (c : Call) : Prop :=
  0 ≤ c.s ∧ c.s ≤ c.e ∧ c.e ≤ n - 1 ∧ st.heap c.fresh = none

instance (n : Int) (st : State) (c : Call) : Decidable (Legal n st c) :=
  inferInstanceAs (Decidable (_ ∧ _ ∧ _ ∧ _))

/-- The live nodes reachable from the pointer of the caller. -/
def Listed (st : State) (cells : List (Nat × Hole)) : Prop := Chain Hole.next st.heap st.map cells

/-- The block lies inside one hole of the map. -/
def Accepted (st : State) (c : Call) : Prop :=
  ∃ cells, Listed st cells ∧ Within c.s c.e (spans cells)

/-- What one call has to achieve: live nodes only, separated holes, and the missing bytes
are the old ones, without the block if it was accepted. -/
def Filled (st : State) (c : Call) (st' : State) : Prop :=
  ∃ cells cells', Listed st cells ∧ Listed st' cells' ∧ Separated (spans cells') ∧
    (Accepted st c → covered (spans cells') = covered (spans cells) \ Set.Icc c.s c.e) ∧
    (¬ Accepted st c → covered (spans cells') = covered (spans cells))

/-- The bytes of all blocks accepted during a sequence of calls. -/
def received : State → List Call → Set Int
  | _, [] => ∅
  | st, c :: calls =>
    {b | Accepted st c ∧ b ∈ Set.Icc c.s c.e} ∪ {b | ∃ st', call st c = some st' ∧ b ∈ received st' calls}

/-- The block is not exactly a hole behind the first one. -/
def Spares (st : State) (c : Call) : Prop :=
  ∀ cells, Listed st cells → (c.s, c.e) ∉ (spans cells).tail

/-- The invariant: a list of separated holes, not longer than the calls allow. -/
def Sound (st : State) : Prop :=
  ∃ cells, Listed st cells ∧ Separated (spans cells) ∧ cells.length ≤ st.nodes

theorem start_listed (a : Nat) (n : Int) : Listed (start a n) [(a, ⟨0, n - 1, none⟩)] :=
  ⟨rfl, by simp [start, holeMapNew], rfl⟩

theorem start_sound (a : Nat) (n : Int) (positive : 1 ≤ n) : Sound (start a n) := by
  refine ⟨_, start_listed a n, ?_, by simp [start]⟩
  simp only [List.map_cons, List.map_nil, separated_cons]
  refine ⟨by omega, by simp, by simp [Separated]⟩

theorem accepted_iff {st : State} {c : Call} {cells : List (Nat × Hole)} (listed : Listed st cells) :
    Accepted st c ↔ Within c.s c.e (spans cells) := by
  constructor
  -- a heap has one list from a pointer
  · rintro ⟨cells', listed', inside⟩
    rwa [chain_unique listed listed']
  · exact fun inside => ⟨cells, listed, inside⟩

/-- A call that spares the holes behind the first one cuts the block out of the map. -/
theorem call_cuts {n : Int} {st : State} {c : Call} {cells : List (Nat × Hole)}
    (listed : Listed st cells) (sep : Separated (spans cells)) (short : cells.length ≤ st.nodes)
    (legal : Legal n st c) (spares : Spares st c) :
    ∃ st' cells', call st c = some st' ∧ Listed st' cells' ∧
      spans cells' = cut c.s c.e (spans cells) ∧ st'.nodes = st.nodes + 1 := by
  obtain ⟨_, ordered, _, fresh⟩ := legal
  obtain ⟨h', p', cells', returned, chain', same, _⟩ :=
    holeMapFillGap_cuts short fresh listed sep ordered (spares cells listed)
  exact ⟨⟨h', p', st.nodes + 1⟩, cells', by simp [call, returned], chain', same, rfl⟩

theorem covered_of_cut {st : State} {c : Call} {cells : List (Nat × Hole)}
    (listed : Listed st cells) (sep : Separated (spans cells)) (ordered : c.s ≤ c.e) :
    (Accepted st c → covered (cut c.s c.e (spans cells)) = covered (spans cells) \ Set.Icc c.s c.e) ∧
    (¬ Accepted st c → covered (cut c.s c.e (spans cells)) = covered (spans cells)) := by
  rw [accepted_iff listed]
  exact ⟨covered_cut ordered sep, fun outside => by rw [cut_of_not_within outside]⟩

/-- Sparing the holes behind the first one is exactly what one call needs. -/
theorem spares_iff_filled {n : Int} {st : State} {c : Call} (sound : Sound st)
    (legal : Legal n st c) : Spares st c ↔ ∃ st', call st c = some st' ∧ Filled st c st' := by
  obtain ⟨cells, listed, sep, short⟩ := sound
  constructor
  · intro spares
    obtain ⟨st', cells', returned, listed', same, _⟩ := call_cuts listed sep short legal spares
    refine ⟨st', returned, cells, cells', listed, listed', ?_, ?_⟩
    · rw [same]
      exact separated_cut legal.2.1 sep
    · rw [same]
      exact covered_of_cut listed sep legal.2.1
  -- a filled hole further behind leaves no list at all
  · rintro ⟨st', returned, _, cells', _, listed', _⟩ other listedOther filled
    have same : other = cells := chain_unique listedOther listed
    subst other
    obtain ⟨h', dangling, broken⟩ := holeMapFillGap_dangles short legal.2.2.2 listed sep filled
    simp only [call, dangling, Option.map_some, Option.some.injEq] at returned
    subst st'
    exact broken cells' listed'

theorem filled_sound {n : Int} {st st' : State} {c : Call} (sound : Sound st)
    (legal : Legal n st c) (returned : call st c = some st') (filled : Filled st c st') :
    Sound st' := by
  have spares := (spares_iff_filled sound legal).mpr ⟨st', returned, filled⟩
  obtain ⟨cells, listed, sep, short⟩ := sound
  obtain ⟨next, cells', returned', listed', same, nodes⟩ := call_cuts listed sep short legal spares
  cases Option.some.inj (returned.symm.trans returned')
  refine ⟨cells', listed', same ▸ separated_cut legal.2.1 sep, ?_⟩
  -- a cut leaves at most one hole more, and the bound has grown by one
  have size := length_cut c.s c.e (spans cells)
  rw [← same, List.length_map, List.length_map] at size
  omega

/-- After calls that all do what they have to, the missing bytes are those of no accepted block. -/
theorem covered_of_upholds {n : Int} {st st' : State} {calls : List Call}
    {cells cells' : List (Nat × Hole)} (sound : Sound st) (legal : Along call (Legal n) st calls)
    (filled : Upholds call Filled st calls) (ran : exec call st calls = some st')
    (listed : Listed st cells) (listed' : Listed st' cells') :
    covered (spans cells') = covered (spans cells) \ received st calls := by
  induction calls generalizing st cells with
  | nil =>
    cases ran
    rw [chain_unique listed listed']
    simp [received]
  | cons c calls ih =>
    -- first what this call achieves, then the rest from the state it leaves
    obtain ⟨mid, taken, meets, rest⟩ := filled
    obtain ⟨mid', taken', ranRest⟩ := exec_cons_some.mp ran
    cases Option.some.inj (taken.symm.trans taken')
    obtain ⟨before, after, listedBefore, listedAfter, _, accepted, refused⟩ := id meets
    have same : before = cells := chain_unique listedBefore listed
    subst same
    rw [ih (filled_sound sound legal.1 taken meets) (legal.2 mid taken) rest ranRest listedAfter]
    have later : {b | ∃ next, call st c = some next ∧ b ∈ received next calls} = received mid calls := by
      ext b
      simp [taken]
    rw [received, later]
    -- an accepted block is missing no longer, and a refused one changes nothing
    by_cases acc : Accepted st c
    · simp only [acc, true_and, accepted acc]
      rw [Set.sdiff_sdiff]
      rfl
    · simp only [acc, false_and, refused acc]
      congr 1
      ext b
      simp

/-- A map without separated holes left is NULL exactly when no byte is missing. -/
theorem map_null_iff {st : State} {cells : List (Nat × Hole)} (listed : Listed st cells)
    (sep : Separated (spans cells)) : st.map = none ↔ covered (spans cells) = ∅ := by
  cases cells with
  | nil => simp [show st.map = none from listed, covered_nil]
  | cons c cells =>
    -- a hole that is listed has at least one byte
    have nonempty := (separated_cons.mp sep).1
    simp only [listed.1, reduceCtorEq, false_iff]
    intro empty
    have member : c.2.start ∈ covered (spans (c :: cells)) := ⟨_, by simp, le_refl _, nonempty⟩
    rw [empty] at member
    exact member

/-- Every call of the sequence does what it has to, and the map ends up NULL exactly when
the accepted blocks cover the whole file. -/
def Maintains (a : Nat) (n : Int) (calls : List Call) : Prop :=
  Upholds call Filled (start a n) calls ∧
    ∀ st, exec call (start a n) calls = some st →
      (st.map = none ↔ Set.Icc 0 (n - 1) ⊆ received (start a n) calls)

/-- The hole map of a file of `n` bytes is maintained through a sequence of blocks, in
whatever order they arrive, exactly when no block fills a hole behind the first one in one go. -/
theorem maintains_iff_spares (a : Nat) (n : Int) (positive : 1 ≤ n) (calls : List Call)
    (legal : Along call (Legal n) (start a n) calls) :
    Maintains a n calls ↔ Along call Spares (start a n) calls := by
  have sound := start_sound a n positive
  -- call by call the condition is exact, so it is for the sequence
  have steps := upholds_iff_along (Legal n) Spares Filled Sound
    (fun _ _ sound legal => spares_iff_filled sound legal)
    (fun _ _ _ sound legal returned filled => filled_sound sound legal returned filled) sound legal
  rw [← steps]
  refine ⟨fun both => both.1, fun upholds => ⟨upholds, ?_⟩⟩
  intro st ran
  obtain ⟨cells, listed, sep, _⟩ : Sound st :=
    upholds_invariant (Legal n) Filled Sound
      (fun _ _ _ sound legal returned filled => filled_sound sound legal returned filled)
      sound legal upholds ran
  rw [map_null_iff listed sep, covered_of_upholds sound legal upholds ran (start_listed a n) listed,
    Set.sdiff_eq_empty]
  simp [covered_cons, covered_nil]

/-- A block in the middle of ten bytes, then the first hole it left, in one go. -/
theorem maintains_first_hole : Maintains 0 10 [⟨3, 5, 1⟩, ⟨0, 2, 2⟩] := by
  refine (maintains_iff_spares 0 10 (by decide) _ ?_).mpr ?_
  · refine ⟨by decide, ?_⟩
    rintro _ ⟨⟩
    exact ⟨by decide, fun _ _ => trivial⟩
  · constructor
    · intro cells listed
      rw [chain_unique listed (start_listed 0 10)]
      decide
    · rintro _ ⟨⟩
      refine ⟨?_, fun _ _ => trivial⟩
      intro cells listed
      have known : cells = [(0, ⟨0, 2, some 1⟩), (1, ⟨6, 9, none⟩)] :=
        chain_unique listed ⟨rfl, rfl, rfl, rfl, rfl⟩
      rw [known]
      decide

/-- The same block, then the second hole it left: the first node points to a freed one. -/
theorem second_hole_dangles :
    Along call (Legal 10) (start 0 10) [⟨3, 5, 1⟩, ⟨6, 9, 2⟩] ∧
      ¬ Maintains 0 10 [⟨3, 5, 1⟩, ⟨6, 9, 2⟩] := by
  constructor
  · refine ⟨by decide, ?_⟩
    rintro _ ⟨⟩
    exact ⟨by decide, fun _ _ => trivial⟩
  · rintro ⟨⟨_, ⟨⟩, _, _, ⟨⟩, ⟨_, cells, _, listed, _⟩, _⟩, _⟩
    rcases cells with _ | ⟨⟨_, _⟩, _ | ⟨⟨_, _⟩, _⟩⟩
    · cases listed
    · obtain ⟨⟨⟩, ⟨⟩, last⟩ := listed
      cases last
    · obtain ⟨⟨⟩, ⟨⟩, ⟨⟩, freed, _⟩ := listed
      cases freed

end Pire2Pire.HoleMap
