import Pire2Pire.FileCache.Concurrent

/-! As long as no store overwrites what another execution has stored, the executions have their effects
one after the other: an announcement of a new key when its node is linked, an announcement of a known key
when its seeder is found or pushed. -/
namespace Pire2Pire.SharedCache

open Library

variable {m m' : Memory} {key : CString} {slot : Slot} {callers : List Slot} {p : Addr} {linked : Option Addr}
  {a b : Announcement} {position : Position} {cell : Cell} {fuel : Nat} {found : Option Addr}
  {announced announced' : Announced} {calls history history' : List Announcement} {s t : State} {i : Nat}

/-! ### Lists of executions -/

section Lists

variable {α β : Type} {l : List α} {x y : α} {f : α → Bool} {g : α → β}

theorem filter_set_perm (here : l[i]? = some x) (before : f x = false) (after : f y = true) :
    ((l.set i y).filter f).Perm (y :: l.filter f) := by
  obtain ⟨bound, rfl⟩ := List.getElem?_eq_some_iff.mp here
  have shape : l = l.take i ++ l[i] :: l.drop (i + 1) := by
    rw [← List.drop_eq_getElem_cons bound, List.take_append_drop]
  have changed : l.set i y = l.take i ++ y :: l.drop (i + 1) := by
    rw [List.set_eq_take_append_cons_drop, if_pos bound]
  rw [changed]
  conv_rhs => rw [shape]
  simp only [List.filter_append, List.filter_cons, before, after, if_true, Bool.false_eq_true, if_false]
  exact List.perm_middle

theorem filter_set_map (here : l[i]? = some x) (same : f y = f x) (image : g y = g x) :
    ((l.set i y).filter f).map g = (l.filter f).map g := by
  obtain ⟨bound, rfl⟩ := List.getElem?_eq_some_iff.mp here
  have shape : l = l.take i ++ l[i] :: l.drop (i + 1) := by
    rw [← List.drop_eq_getElem_cons bound, List.take_append_drop]
  have changed : l.set i y = l.take i ++ y :: l.drop (i + 1) := by
    rw [List.set_eq_take_append_cons_drop, if_pos bound]
  rw [changed]
  conv_rhs => rw [shape]
  simp only [List.filter_append, List.filter_cons, same, List.map_append]
  split
  · simp [image]
  · rfl

end Lists

/-! ### What the memory holds of the announcements -/

def announcedBy (calls : List Announcement) : Announced :=
  calls.foldl Announced.accept fun _ => []

theorem announcedBy_concat (calls : List Announcement) (a : Announcement) :
    announcedBy (calls ++ [a]) = (announcedBy calls).accept a := by
  simp [announcedBy]

theorem mem_of_mem_announcedBy (counted : b ∈ announcedBy calls key) : b ∈ calls := by
  unfold announcedBy at counted
  -- what counts was announced at some time
  rcases accept_fold_cases calls (fun _ => []) key rfl with
    ⟨nothing, -⟩ | ⟨before, first, later, rfl, -, -, -, list⟩
  · rw [nothing] at counted
    cases counted
  · rw [list, List.mem_cons, List.mem_filter] at counted
    rcases counted with rfl | ⟨member, -⟩
    · simp
    · simp [member]

/-- `file_cache_get_by_key` finds what was announced under the key. -/
def Located (m : Memory) (announced : Announced) (key : CString) : Prop :=
  (∃ fuel, m.getByKey key fuel m.fileCache = some none) ∧ announced key = [] ∨
  ∃ fuel p cell, m.getByKey key fuel m.fileCache = some (some p) ∧ m.nodes[p]? = some cell ∧
    cell.entry.key = key ∧ Announces cell.entry (announced key)

theorem located_none (located : Located m announced key)
    (found : m.getByKey key fuel m.fileCache = some none) : announced key = [] := by
  rcases located with ⟨-, nothing⟩ | ⟨fuel', p, cell, found', -⟩
  · exact nothing
  · cases Memory.getByKey_unique found found'

theorem located_some (located : Located m announced key) (read : m.nodes[p]? = some cell)
    (found : m.getByKey key fuel m.fileCache = some (some p)) : Announces cell.entry (announced key) := by
  rcases located with ⟨⟨fuel', found'⟩, -⟩ | ⟨fuel', p', cell', found', read', -, announces⟩
  · cases Memory.getByKey_unique found found'
  · cases Memory.getByKey_unique found found'
    cases Option.some.inj (read.symm.trans read')
    exact announces

/-- The entry of a key stays found as long as its data stay the same. -/
theorem located_grows (grows : Grows linked m m')
    (loads : ∀ s, m'.load s = m.load s ∨ m.load s = none ∧ m'.getByKey key 2 (m'.load s) = some none)
    (data : ∀ (p : Addr) (cell : Cell), m.nodes[p]? = some cell → cell.entry.key = key →
      ∃ cell', m'.nodes[p]? = some cell' ∧ cell'.entry = cell.entry)
    (same : announced' key = announced key) (located : Located m announced key) :
    Located m' announced' key := by
  unfold Located
  rw [same]
  rcases located with ⟨⟨fuel, found⟩, nothing⟩ | ⟨fuel, p, cell, found, read, own, announces⟩
  · exact .inl ⟨⟨fuel + 2, getByKey_grows .fileCache grows loads found⟩, nothing⟩
  · obtain ⟨cell', read', entry⟩ := data p cell read own
    rw [← entry] at own announces
    exact .inr ⟨fuel + 2, p, cell', getByKey_grows .fileCache grows loads found, read', own, announces⟩

/-! ### The invariant -/

structure Consistent (history : List Announcement) (s : State) : Prop where
  fit : ∀ e ∈ s.executions, e.announcement.Fits
  pointers : ∀ slot p, s.memory.load slot = some p → p < s.memory.nodes.length
  valid : ∀ (i : Nat) (e : Execution), s.executions[i]? = some e → e.position.Valid s.memory e.announcement
  apart : ∀ (i j : Nat) (e e' : Execution) (p : Addr), i ≠ j → s.executions[i]? = some e → s.executions[j]? = some e' →
    e.position.pending = some p → e'.position.pending ≠ some p
  located : ∀ key, Located s.memory (announcedBy history) key
  counted : history.Perm ((s.executions.filter fun e => e.position.committed).map Execution.announcement)

theorem pending_lt {e : Execution} (valid : e.position.Valid m a) (pending : e.position.pending = some p) :
    p < m.nodes.length := by
  -- only a store behind a NULL has a node of its own
  cases position : e.position with
  | store loaded value slot callers =>
    rw [position] at valid pending
    cases loaded with
    | some q => cases pending
    | none =>
      cases pending
      obtain ⟨-, entry, -, read, -⟩ := valid
      exact (List.getElem?_eq_some_iff.mp read).1
  | load slot callers => simp [position, Position.pending] at pending
  | visit tree slot callers => simp [position, Position.pending] at pending
  | push q slot callers => simp [position, Position.pending] at pending
  | finished => simp [position, Position.pending] at pending

/-- One execution moves on, and the memory grows with it. -/
theorem consistent_set {e : Execution} (consistent : Consistent history s) (here : s.executions[i]? = some e)
    (pointers : ∀ slot p, m'.load slot = some p → p < m'.nodes.length)
    (grows : Grows linked s.memory m') (own : linked = none ∨ linked = e.position.pending)
    (valid : position.Valid m' e.announcement)
    (pending : position.pending = none ∨ position.pending = some s.memory.nodes.length)
    (located : ∀ key, Located m' (announcedBy history') key)
    (counts : history' = history ∧ position.committed = e.position.committed ∨
      history' = history ++ [e.announcement] ∧ e.position.committed = false ∧ position.committed = true) :
    Consistent history' ⟨m', s.executions.set i { e with position := position }⟩ := by
  -- the list has changed at one place
  have bound : i < s.executions.length := (List.getElem?_eq_some_iff.mp here).1
  have atI : (s.executions.set i { e with position := position })[i]? = some { e with position := position } := by
    simp [bound]
  have elsewhere : ∀ j, j ≠ i → (s.executions.set i { e with position := position })[j]? = s.executions[j]? := by
    intro j differ
    simp [Ne.symm differ]
  refine ⟨?_, pointers, ?_, ?_, located, ?_⟩
  · intro e' member
    rcases List.mem_or_eq_of_mem_set member with old | rfl
    · exact consistent.fit e' old
    · exact consistent.fit e (List.mem_of_getElem? here)
  -- the own position is valid by assumption, and the others are not disturbed by growth
  · intro j e' there
    by_cases same : j = i
    · subst same
      rw [atI] at there
      cases there
      exact valid
    · rw [elsewhere j same] at there
      refine valid_grows grows ?_ (consistent.valid j e' there)
      rcases own with nothing | own
      · exact .inl nothing
      · -- the node that was linked is not the one that the other execution has made
        cases made : e.position.pending with
        | none => exact .inl (own.trans made)
        | some p =>
          right
          rw [own, made]
          exact consistent.apart i j e e' p (Ne.symm same) here there made
  -- a node that was just made has an address nobody else can have
  · intro j k e₁ e₂ p differ first second made
    by_cases left : j = i
    · subst left
      rw [atI] at first
      cases first
      rw [elsewhere k (Ne.symm differ)] at second
      rcases pending with nothing | new
      · rw [nothing] at made
        cases made
      · rw [new] at made
        cases made
        intro pending₂
        exact Nat.lt_irrefl _ (pending_lt (consistent.valid k e₂ second) pending₂)
    · rw [elsewhere j left] at first
      by_cases right : k = i
      · subst right
        rw [atI] at second
        cases second
        rcases pending with nothing | new
        · rw [nothing]
          exact nofun
        · rw [new]
          intro same
          cases same
          exact Nat.lt_irrefl _ (pending_lt (consistent.valid j e₁ first) made)
      · rw [elsewhere k right] at second
        exact consistent.apart j k e₁ e₂ p differ first second made
  -- an effect is counted once, at the step that makes the execution committed
  · rcases counts with ⟨rfl, same⟩ | ⟨rfl, before, after⟩
    · have kept := filter_set_map (f := fun e : Execution => e.position.committed) (g := Execution.announcement)
        (y := { e with position := position }) here same rfl
      rw [kept]
      exact consistent.counted
    · apply List.perm_append_comm.trans
      refine (List.Perm.cons e.announcement consistent.counted).trans ?_
      have gained := filter_set_perm (f := fun e : Execution => e.position.committed)
        (y := { e with position := position }) here before after
      exact (gained.map Execution.announcement).symm

/-! ### The steps of one execution -/

theorem grows_refl (m : Memory) : Grows none m m where
  keys := fun _ cell read => ⟨cell, read, rfl⟩
  pointers := fun _ _ held => held
  unlinked := fun _ _ read unlinked _ => ⟨read, unlinked⟩

theorem leads_here (leads : Leads m key slot callers) (held : m.load slot = some p)
    (read : m.nodes[p]? = some cell) (own : cell.entry.key = key) :
    ∃ fuel, m.getByKey key fuel m.fileCache = some (some p) := by
  refine leads_getByKey 1 leads ?_
  rw [held, Memory.getByKey_node read, own, strcmp_self]

theorem leads_empty (leads : Leads m key slot callers) (empty : m.load slot = none) :
    ∃ fuel, m.getByKey key fuel m.fileCache = some none := by
  refine leads_getByKey 1 leads ?_
  rw [empty]
  rfl

theorem announcedBy_other (differ : key ≠ a.key) : announcedBy (history ++ [a]) key = announcedBy history key := by
  rw [announcedBy_concat, Announced.accept_other differ]

/-- A known key collects the announcement, whatever its name is. -/
theorem announcedBy_known {entry : FileEntry} {seeders : List Seeder}
    (announces : Announces entry (announcedBy history a.key))
    (members : ∀ s, s ∈ seeders ↔ s = a.seeder ∨ s ∈ entry.seeders) :
    Announces { entry with seeders := seeders } (announcedBy (history ++ [a]) a.key) := by
  have known : announcedBy history a.key ≠ [] := by
    -- a key with a node has been announced before
    obtain ⟨first, later, shape, -⟩ := announces.first
    rw [shape]
    exact List.cons_ne_nil first later
  rw [announcedBy_concat, Announced.accept_known known]
  exact announces_seeder announces members

theorem consistent_terminated (consistent : Consistent history s)
    (announces : Announces cell.entry (announcedBy history key)) :
    ∀ seeder ∈ cell.entry.seeders, seeder.ip.length ≤ fileIpSize := by
  intro seeder member
  -- each address was checked when its announcement came in
  obtain ⟨b, counted, rfl⟩ := (announces.seeders seeder).mp member
  have listed := consistent.counted.subset (mem_of_mem_announcedBy counted)
  obtain ⟨e', member', rfl⟩ := List.mem_map.mp listed
  exact consistent.fit e' (List.mem_of_mem_filter member')

/-- Behind a store the caller returns the node that it was called for. -/
theorem afterStore_valid (leads : Leads m a.key slot callers) (next : afterStore slot callers = some position) :
    position.Valid m a ∧ position.pending = none ∧ position.committed = true := by
  cases callers with
  | nil =>
    cases leads
    cases next
    exact ⟨trivial, rfl, rfl⟩
  | cons caller callers =>
    obtain ⟨outer, p, cell, held, -, ⟨rfl, -⟩ | ⟨rfl, -⟩⟩ := leads
    · cases next
      exact ⟨⟨outer, rfl, held⟩, rfl, rfl⟩
    · cases next
      exact ⟨⟨outer, rfl, held⟩, rfl, rfl⟩

section Steps

variable {e : Execution} (consistent : Consistent history s) (here : s.executions[i]? = some e)

include consistent here

/-- A step that only reads. -/
theorem consistent_reads (valid : position.Valid s.memory e.announcement) (pending : position.pending = none)
    (counts : position.committed = e.position.committed) :
    Consistent history ⟨s.memory, s.executions.set i { e with position := position }⟩ :=
  consistent_set consistent here consistent.pointers (grows_refl _) (.inl rfl) valid (.inl pending)
    consistent.located (.inl ⟨rfl, counts⟩)

theorem consistent_new {entry : FileEntry} (reached : e.position = .visit none slot callers)
    (new : e.announcement.new = some entry) :
    Consistent history
      ⟨{ s.memory with nodes := s.memory.nodes ++ [⟨entry, none, none⟩] },
        s.executions.set i { e with position := .store none (some s.memory.nodes.length) slot callers }⟩ := by
  have leads : Leads s.memory e.announcement.key slot callers := by
    have valid := consistent.valid i e here
    rwa [reached] at valid
  have grows := grows_alloc (m := s.memory) entry
  -- nothing points behind the end of the memory
  have fresh : Unlinked { s.memory with nodes := s.memory.nodes ++ [⟨entry, none, none⟩] } s.memory.nodes.length := by
    intro other held
    rw [load_alloc] at held
    exact Nat.lt_irrefl _ (consistent.pointers _ _ held)
  refine consistent_set consistent here ?_ grows (.inl rfl) ?_ (.inr rfl) ?_ (.inl ⟨rfl, by rw [reached]; rfl⟩)
  · intro other p held
    rw [load_alloc] at held
    rw [List.length_append]
    exact Nat.lt_add_right _ (consistent.pointers other p held)
  · exact ⟨leads_grows grows leads, entry, new, by simp, fresh⟩
  · intro key
    refine located_grows grows (fun other => .inl (load_alloc entry other)) ?_ rfl (consistent.located key)
    intro p cell read _
    exact ⟨cell, by rw [List.getElem?_append_left (List.getElem?_eq_some_iff.mp read).1]; exact read, rfl⟩

/-- The seeder is there already. -/
theorem consistent_registered (reached : e.position = .visit (some p) slot callers)
    (read : s.memory.nodes[p]? = some cell) (own : cell.entry.key = e.announcement.key)
    (known : registered cell.entry.seeders e.announcement.ip e.announcement.port = some true) :
    Consistent (history ++ [e.announcement])
      ⟨s.memory, s.executions.set i { e with position := .store (some p) (some p) slot callers }⟩ := by
  have valid := consistent.valid i e here
  rw [reached] at valid
  obtain ⟨leads, held⟩ := valid
  obtain ⟨fuel, found⟩ := leads_here leads held read own
  have announces := located_some (consistent.located _) read found
  -- every address has its NUL, so a match means that the seeder is in the list
  have member : e.announcement.seeder ∈ cell.entry.seeders := by
    rw [registered_eq (consistent_terminated consistent announces)] at known
    simpa [Announcement.seeder] using known
  refine consistent_set consistent here consistent.pointers (grows_refl _) (.inl rfl) ⟨leads, rfl, held⟩
    (.inl rfl) ?_ (.inr ⟨rfl, by rw [reached]; rfl, rfl⟩)
  intro key
  -- the own key has one announcement more, and its entry covers it already
  by_cases same : key = e.announcement.key
  · subst same
    have members : ∀ seeder, seeder ∈ cell.entry.seeders ↔
        seeder = e.announcement.seeder ∨ seeder ∈ cell.entry.seeders := by
      intro seeder
      constructor
      · exact .inr
      · rintro (rfl | listed)
        · exact member
        · exact listed
    exact .inr ⟨fuel, p, cell, found, read, own, announcedBy_known announces members⟩
  · exact located_grows (grows_refl _) (fun _ => .inl rfl) (fun p cell read _ => ⟨cell, read, rfl⟩)
      (announcedBy_other same) (consistent.located key)

theorem consistent_push {entry : FileEntry} (reached : e.position = .push p slot callers)
    (read : s.memory.nodes[p]? = some cell)
    (extended : addSeeder cell.entry e.announcement.ip e.announcement.port = some entry) :
    Consistent (history ++ [e.announcement])
      ⟨{ s.memory with nodes := s.memory.nodes.modify p fun cell => { cell with entry := entry } },
        s.executions.set i { e with position := .store (some p) (some p) slot callers }⟩ := by
  have valid := consistent.valid i e here
  rw [reached] at valid
  obtain ⟨leads, held, cell', read', own⟩ := valid
  cases Option.some.inj (read.symm.trans read')
  -- the seeder may be in the list by now; then it is there twice, which `Announces` leaves open
  have shape := addSeeder_some extended
  have keyed : entry.key = cell.entry.key := by rw [shape]
  have grows := grows_push held read keyed
  obtain ⟨fuel, found⟩ := leads_here leads held read own
  have announces := located_some (consistent.located _) read found
  have readNew : (s.memory.nodes.modify p fun cell => { cell with entry := entry })[p]? =
      some { cell with entry := entry } := by
    simp [read]
  refine consistent_set consistent here ?_ grows (.inl rfl)
    ⟨leads_grows grows leads, rfl, grows.pointers slot p held⟩ (.inl rfl) ?_ (.inr ⟨rfl, by rw [reached]; rfl, rfl⟩)
  · intro other q pointer
    rw [load_push] at pointer
    rw [List.length_modify]
    exact consistent.pointers other q pointer
  · intro key
    by_cases same : key = e.announcement.key
    · subst same
      obtain ⟨fuel', found'⟩ := leads_here (leads_grows grows leads) (grows.pointers slot p held) readNew
        (keyed.trans own)
      refine .inr ⟨fuel', p, _, found', readNew, keyed.trans own, ?_⟩
      rw [shape]
      exact announcedBy_known announces fun seeder => List.mem_cons
    · refine located_grows grows (fun other => .inl (load_push entry other)) ?_ (announcedBy_other same)
        (consistent.located key)
      intro q cell' read' other
      -- the entry of another key is in another node
      have differ : p ≠ q := by
        rintro rfl
        cases Option.some.inj (read.symm.trans read')
        exact same (other.symm.trans own)
      exact ⟨cell', by simp [differ, read'], rfl⟩

theorem consistent_rejected (reached : e.position = .store none none slot callers)
    (empty : s.memory.load slot = none) (next : afterStore slot callers = some position) :
    Consistent (history ++ [e.announcement]) ⟨s.memory, s.executions.set i { e with position := position }⟩ := by
  have valid := consistent.valid i e here
  rw [reached] at valid
  obtain ⟨leads, rejected⟩ := valid
  obtain ⟨validNext, pending, committed⟩ := afterStore_valid leads next
  obtain ⟨fuel, found⟩ := leads_empty leads empty
  -- an announcement that makes no node leaves the map as it was
  have fresh := located_none (consistent.located _) found
  have fits := consistent.fit e (List.mem_of_getElem? here)
  have ignored : announcedBy (history ++ [e.announcement]) = announcedBy history := by
    have refused : ¬ e.announcement.Creates := by
      intro creates
      rw [new_eq fits, if_pos creates] at rejected
      cases rejected
    rw [announcedBy_concat, Announced.accept, if_pos ⟨fresh, refused⟩]
  refine consistent_set consistent here consistent.pointers (grows_refl _) (.inl rfl) validNext (.inl pending) ?_
    (.inr ⟨rfl, by rw [reached]; rfl, committed⟩)
  rw [ignored]
  exact consistent.located

theorem consistent_link (reached : e.position = .store none (some p) slot callers)
    (empty : s.memory.load slot = none) (next : afterStore slot callers = some position) :
    Consistent (history ++ [e.announcement])
      ⟨s.memory.store (some p) slot, s.executions.set i { e with position := position }⟩ := by
  have valid := consistent.valid i e here
  rw [reached] at valid
  obtain ⟨leads, entry, new, read, unlinked⟩ := valid
  obtain ⟨fuel, found⟩ := leads_empty leads empty
  -- nobody has announced the key meanwhile, or its node would be found
  have fresh := located_none (consistent.located _) found
  have fits := consistent.fit e (List.mem_of_getElem? here)
  have creates : e.announcement.Creates := by
    by_contra refused
    rw [new_eq fits, if_neg refused] at new
    cases new
  have grows := grows_link (p := p) leads empty
  obtain ⟨validNext, pending, committed⟩ := afterStore_valid (leads_grows grows leads) next
  -- the store makes the new node reachable, with its data as they were written
  have readNew : (s.memory.store (some p) slot).nodes[p]? = some ⟨entry, none, none⟩ :=
    (nodes_store leads unlinked).trans read
  rw [new_eq fits, if_pos creates, Option.some.injEq] at new
  have keyed : entry.key = e.announcement.key := by rw [← new]
  refine consistent_set consistent here ?_ grows (.inr (by rw [reached]; rfl)) validNext (.inl pending) ?_
    (.inr ⟨rfl, by rw [reached]; rfl, committed⟩)
  · intro other q held
    have same : (s.memory.store (some p) slot).nodes.length = s.memory.nodes.length := by
      cases slot <;> simp [Memory.store]
    rw [leads_load_store leads] at held
    rw [same]
    split at held
    · cases held
      exact (List.getElem?_eq_some_iff.mp read).1
    · exact consistent.pointers other q held
  · intro key
    by_cases same : key = e.announcement.key
    · subst same
      have held : (s.memory.store (some p) slot).load slot = some p := by
        rw [leads_load_store leads, if_pos rfl]
      obtain ⟨fuel', found'⟩ := leads_here (leads_grows grows leads) held readNew keyed
      refine .inr ⟨fuel', p, _, found', readNew, keyed, ?_⟩
      rw [announcedBy_concat, Announced.accept_new fresh, if_pos creates, ← new]
      exact announces_new
    · refine located_grows grows ?_ ?_ (announcedBy_other same) (consistent.located key)
      · intro other
        rw [leads_load_store leads]
        split
        next isSlot =>
          -- the search for another key turns at the new node and ends behind it
          right
          subst isSlot
          refine ⟨empty, ?_⟩
          rw [Memory.getByKey_node readNew]
          have passes : strcmp key entry.key ≠ .eq := by
            rw [keyed, Ne, strcmp_eq_iff]
            exact same
          cases bias : strcmp key entry.key with
          | eq => exact absurd bias passes
          | lt => simp [Memory.load, readNew, Memory.getByKey]
          | gt => simp [Memory.load, readNew, Memory.getByKey]
        next => exact .inl rfl
      · intro q cell read' _
        -- no entry is changed by a store
        have data := Memory.entry_store s.memory (some p) slot q
        rw [read', Option.map_some, Option.map_eq_some_iff] at data
        exact data

end Steps

/-! ### Whole runs -/

theorem step_cases (taken : step s i = some t) :
    ∃ e memory position, s.executions[i]? = some e ∧
      advance s.memory e.announcement e.position = some (memory, position) ∧
      t = ⟨memory, s.executions.set i { e with position := position }⟩ := by
  unfold step at taken
  split at taken
  · cases taken
  next e here =>
    obtain ⟨⟨memory, position⟩, advanced, rfl⟩ := Option.map_eq_some_iff.mp taken
    exact ⟨e, memory, position, here, advanced, rfl⟩

theorem consistent_step (consistent : Consistent history s) (undisturbed : Undisturbed s i)
    (taken : step s i = some t) : ∃ history', Consistent history' t := by
  obtain ⟨e, memory, next, here, advanced, rfl⟩ := step_cases taken
  -- the hypothesis is about stores alone; the other steps take what they find
  have quiet := undisturbed e here
  have valid := consistent.valid i e here
  cases reached : e.position with
  | load slot callers =>
    rw [reached] at advanced valid
    cases advanced
    refine ⟨history, consistent_reads consistent here ?_ rfl (by rw [reached]; rfl)⟩
    -- what was read may be out of date at once, but then the store finds out
    cases held : s.memory.load slot with
    | none => exact valid
    | some p => exact ⟨valid, held⟩
  | visit tree slot callers =>
    rw [reached] at advanced valid
    cases tree with
    | none =>
      cases new : e.announcement.new with
      | none =>
        simp only [advance, new, Option.some.injEq, Prod.mk.injEq] at advanced
        obtain ⟨rfl, rfl⟩ := advanced
        exact ⟨history, consistent_reads consistent here ⟨valid, new⟩ rfl (by rw [reached]; rfl)⟩
      | some entry =>
        simp only [advance, new, Option.some.injEq, Prod.mk.injEq] at advanced
        obtain ⟨rfl, rfl⟩ := advanced
        exact ⟨history, consistent_new consistent here reached new⟩
    | some p =>
      obtain ⟨leads, held⟩ := valid
      cases read : s.memory.nodes[p]? with
      | none => simp [advance, read] at advanced
      | some cell =>
        cases bias : strcmp e.announcement.key cell.entry.key with
        | lt =>
          simp only [advance, read, bias, Option.some.injEq, Prod.mk.injEq] at advanced
          obtain ⟨rfl, rfl⟩ := advanced
          -- one call deeper, with the own slot among the callers
          have below : Leads s.memory e.announcement.key (.left p) (slot :: callers) :=
            ⟨leads, p, cell, held, read, .inl ⟨rfl, bias⟩⟩
          exact ⟨history, consistent_reads consistent here below rfl (by rw [reached]; rfl)⟩
        | gt =>
          simp only [advance, read, bias, Option.some.injEq, Prod.mk.injEq] at advanced
          obtain ⟨rfl, rfl⟩ := advanced
          have below : Leads s.memory e.announcement.key (.right p) (slot :: callers) :=
            ⟨leads, p, cell, held, read, .inr ⟨rfl, bias⟩⟩
          exact ⟨history, consistent_reads consistent here below rfl (by rw [reached]; rfl)⟩
        | eq =>
          -- this is the node of the key, so the announcement ends here
          have own : cell.entry.key = e.announcement.key := ((strcmp_eq_iff _ _).mp bias).symm
          cases known : registered cell.entry.seeders e.announcement.ip e.announcement.port with
          | none => simp [advance, read, bias, known] at advanced
          | some answer =>
            cases answer with
            | true =>
              simp only [advance, read, bias, known, Option.some.injEq, Prod.mk.injEq] at advanced
              obtain ⟨rfl, rfl⟩ := advanced
              exact ⟨_, consistent_registered consistent here reached read own known⟩
            | false =>
              simp only [advance, read, bias, known, Option.some.injEq, Prod.mk.injEq] at advanced
              obtain ⟨rfl, rfl⟩ := advanced
              exact ⟨history, consistent_reads consistent here ⟨leads, held, cell, read, own⟩ rfl
                (by rw [reached]; rfl)⟩
  | push p slot callers =>
    rw [reached] at advanced
    simp only [advance] at advanced
    split at advanced
    · cases advanced
    next entry extended =>
      obtain ⟨cell, read, extended⟩ := Option.bind_eq_some_iff.mp extended
      simp only [Option.some.injEq, Prod.mk.injEq] at advanced
      obtain ⟨rfl, rfl⟩ := advanced
      exact ⟨_, consistent_push consistent here reached read extended⟩
  | store loaded value slot callers =>
    rw [reached] at advanced valid quiet
    simp only [advance, Option.map_eq_some_iff, Prod.mk.injEq] at advanced
    obtain ⟨after, next, rfl, rfl⟩ := advanced
    -- an empty slot may have been filled meanwhile, which is what `quiet` excludes
    cases loaded with
    | none =>
      cases value with
      | none =>
        rw [Memory.store_same quiet]
        exact ⟨_, consistent_rejected consistent here reached quiet next⟩
      | some p => exact ⟨_, consistent_link consistent here reached quiet next⟩
    | some p =>
      -- the pointer is still there: storing it changes nothing
      obtain ⟨leads, rfl, held⟩ := valid
      obtain ⟨validNext, pending, committed⟩ := afterStore_valid leads next
      rw [Memory.store_same held]
      exact ⟨history, consistent_reads consistent here validNext pending (by rw [reached]; exact committed)⟩
  | finished =>
    rw [reached] at advanced
    cases advanced

theorem consistent_start {announcements : List Announcement} (fit : ∀ a ∈ announcements, a.Fits) :
    Consistent [] (start announcements) := by
  have begin : ∀ (i : Nat) (e : Execution), (start announcements).executions[i]? = some e →
      e.position = .load .fileCache [] := by
    intro i e here
    simp only [start, List.getElem?_map, Option.map_eq_some_iff] at here
    obtain ⟨a, -, rfl⟩ := here
    rfl
  -- at the start no node exists, and no announcement counts
  refine ⟨?_, ?_, ?_, ?_, ?_, ?_⟩
  · intro e member
    obtain ⟨a, listed, rfl⟩ := List.mem_map.mp member
    exact fit a listed
  · intro slot p held
    cases slot <;> simp [start, Memory.load] at held
  · intro i e here
    rw [begin i e here]
    rfl
  · intro i j e e' p _ here _ pending
    rw [begin i e here] at pending
    cases pending
  · intro key
    exact .inl ⟨⟨1, rfl⟩, rfl⟩
  · simp [start, Position.committed]

theorem executions_step (taken : step s i = some t) :
    t.executions.map Execution.announcement = s.executions.map Execution.announcement := by
  -- announcements are never changed, only positions are
  obtain ⟨e, memory, position, here, -, rfl⟩ := step_cases taken
  obtain ⟨bound, rfl⟩ := List.getElem?_eq_some_iff.mp here
  simp only [List.map_set]
  apply List.ext_getElem?
  intro j
  by_cases same : i = j
  · subst same
    simp [bound]
  · simp [same]

/-- An undisturbed run has had the effects of some of the announcements, in some order. -/
theorem consistent_exec {announcements : List Announcement} {run : List Nat} (fit : ∀ a ∈ announcements, a.Fits)
    (ran : exec step (start announcements) run = some s)
    (undisturbed : Along step Undisturbed (start announcements) run) :
    (∃ history, Consistent history s) ∧ s.executions.map Execution.announcement = announcements := by
  refine exec_invariant Undisturbed
    (fun s => (∃ history, Consistent history s) ∧ s.executions.map Execution.announcement = announcements)
    ?_ ⟨⟨[], consistent_start fit⟩, ?_⟩ undisturbed ran
  · rintro s i t ⟨⟨history, consistent⟩, listed⟩ quiet taken
    exact ⟨consistent_step consistent quiet taken, (executions_step taken).trans listed⟩
  · simp [start, Function.comp_def]

/-! ### The cache at the end -/

/-- The memory holds the entries of the tree; the order of the seeders and repetitions are left open. -/
def Agrees (m : Memory) (tree : FileCache) : Prop :=
  ∀ key, (∃ fuel, m.getByKey key fuel m.fileCache = some none) ∧ fileCacheGetByKey tree key = none ∨
    ∃ fuel p cell entry, m.getByKey key fuel m.fileCache = some (some p) ∧ m.nodes[p]? = some cell ∧
      fileCacheGetByKey tree key = some entry ∧ cell.entry.filename = entry.filename ∧
      cell.entry.key = entry.key ∧ cell.entry.size = entry.size ∧
      ∀ seeder, seeder ∈ cell.entry.seeders ↔ seeder ∈ entry.seeders

/-- The cache has the key of the announcement and lists its seeder. -/
def Contains (m : Memory) (a : Announcement) : Prop :=
  ∃ fuel p cell, m.getByKey a.key fuel m.fileCache = some (some p) ∧ m.nodes[p]? = some cell ∧
    a.seeder ∈ cell.entry.seeders

/-- Nothing is lost, and the cache is the one that the executions leave when they run one after the other
in some order. -/
def KeepsAll (announcements : List Announcement) (m : Memory) : Prop :=
  (∃ order tree, order.Perm announcements ∧ exec Announcement.addTo .empty order = some tree ∧ Agrees m tree) ∧
    ∀ a ∈ announcements, a.Creates → Contains m a

theorem mem_announcedBy (member : a ∈ calls) (creates : a.Creates) : a ∈ announcedBy calls a.key := by
  unfold announcedBy
  -- an announcement that can create its node counts from the first on
  rcases accept_fold_cases calls (fun _ => []) a.key rfl with
    ⟨-, all⟩ | ⟨before, first, later, rfl, earlier, -, -, list⟩
  · exact absurd creates (all a member rfl)
  · rw [list]
    rcases List.mem_append.mp member with early | behind
    · exact absurd creates (earlier a early rfl)
    · rcases List.mem_cons.mp behind with rfl | late
      · exact List.mem_cons_self
      · exact List.mem_cons_of_mem _ (List.mem_filter.mpr ⟨late, by simp⟩)

theorem agrees_of_located {tree : FileCache} (located : ∀ key, Located m announced key)
    (represents : Represents tree announced) : Agrees m tree := by
  intro key
  -- both sides say the same of what was announced under the key
  rcases located key with ⟨found, nothing⟩ | ⟨fuel, p, cell, found, read, own, announces⟩
  · exact .inl ⟨found, (represents.absent key).mpr nothing⟩
  · cases found' : fileCacheGetByKey tree key with
    | none =>
      obtain ⟨first, later, shape, -⟩ := announces.first
      rw [(represents.absent key).mp found'] at shape
      cases shape
    | some entry =>
      have describes := represents.entries key entry found'
      obtain ⟨first, later, shape, name, size⟩ := announces.first
      obtain ⟨first', later', shape', name', size'⟩ := describes.first
      rw [shape] at shape'
      cases shape'
      refine .inr ⟨fuel, p, cell, entry, found, read, rfl, name.trans name'.symm,
        own.trans (getByKey_key found').symm, size.trans size'.symm, ?_⟩
      intro seeder
      rw [announces.seeders, describes.seeders]

/-- Every interleaving in which no store overwrites another's. -/
theorem undisturbed_keepsAll (announcements : List Announcement) (fit : ∀ a ∈ announcements, a.Fits)
    (run : List Nat) (s : State) (ran : exec step (start announcements) run = some s)
    (undisturbed : Along step Undisturbed (start announcements) run)
    (finished : ∀ e ∈ s.executions, e.position = .finished) : KeepsAll announcements s.memory := by
  obtain ⟨⟨history, consistent⟩, listed⟩ := consistent_exec fit ran undisturbed
  -- when all are finished, the history has all of them
  have everyone : history.Perm announcements := by
    have all : (s.executions.filter fun e => e.position.committed) = s.executions := by
      apply List.filter_eq_self.mpr
      intro e member
      rw [finished e member]
      rfl
    have counted := consistent.counted
    rwa [all, listed] at counted
  have fitHistory : ∀ a ∈ history, a.Fits := fun a member => fit a (everyone.mem_iff.mp member)
  obtain ⟨tree, serial, represents⟩ := addTo_refines fitHistory history List.prefix_rfl
  refine ⟨⟨history, tree, everyone, serial, agrees_of_located consistent.located represents⟩, ?_⟩
  intro a member creates
  have counted : a ∈ announcedBy history a.key := mem_announcedBy (everyone.mem_iff.mpr member) creates
  rcases consistent.located a.key with ⟨-, nothing⟩ | ⟨fuel, p, cell, found, read, -, announces⟩
  · rw [nothing] at counted
    cases counted
  · exact ⟨fuel, p, cell, found, read, (announces.seeders _).mpr ⟨a, counted, rfl⟩⟩

/-- Two announcements that are linked below different children of the root at the same time. -/
theorem undisturbed_keepsAll_children :
    let announce (c : Char) : Announcement := ⟨[c], List.replicate 32 c, 1, "10.0.0.1".toList, 4242⟩
    let announcements := [announce 'b', announce 'a', announce 'c']
    let run := [0, 0, 0, 1, 2, 1, 2, 1, 2, 1, 2, 1, 2, 1, 2]
    ∃ s, exec step (start announcements) run = some s ∧ KeepsAll announcements s.memory := by
  intro announce announcements run
  obtain ⟨s, ran⟩ : ∃ s, exec step (start announcements) run = some s :=
    Option.isSome_iff_exists.mp (by decide +kernel)
  have finished : ∀ e ∈ s.executions, e.position = .finished := by
    have all : (exec step (start announcements) run).all fun s =>
        s.executions.all fun e => e.position = .finished := by
      decide +kernel
    simpa [ran] using all
  exact ⟨s, ran, undisturbed_keepsAll announcements (by decide) run s ran (by decide +kernel) finished⟩

/-- Both executions read the empty cache; the node that is stored first is lost. -/
theorem keepsAll_race :
    let announce (c : Char) : Announcement := ⟨[c], List.replicate 32 c, 1, "10.0.0.1".toList, 4242⟩
    ∃ s, exec step (start [announce 'a', announce 'b']) [0, 1, 0, 1, 0, 1] = some s ∧
      (∀ e ∈ s.executions, e.position = .finished) ∧ ¬ KeepsAll [announce 'a', announce 'b'] s.memory := by
  intro announce
  obtain ⟨s, ran⟩ : ∃ s, exec step (start [announce 'a', announce 'b']) [0, 1, 0, 1, 0, 1] = some s :=
    Option.isSome_iff_exists.mp (by decide +kernel)
  have outcome : (exec step (start [announce 'a', announce 'b']) [0, 1, 0, 1, 0, 1]).all fun s =>
      (s.executions.all fun e => e.position = .finished) &&
        (s.memory.getByKey (announce 'a').key 2 s.memory.fileCache == some none) := by
    decide +kernel
  simp only [ran, Option.all_some, Bool.and_eq_true, List.all_eq_true, decide_eq_true_eq, beq_iff_eq] at outcome
  refine ⟨s, ran, outcome.1, ?_⟩
  rintro ⟨-, all⟩
  -- the key was announced, but the search ends at NULL
  obtain ⟨fuel, p, cell, found, -⟩ := all (announce 'a') (by simp) (by decide)
  cases Memory.getByKey_unique outcome.2 found

end Pire2Pire.SharedCache
