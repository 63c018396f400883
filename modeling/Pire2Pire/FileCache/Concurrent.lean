import Pire2Pire.FileCache.Map
import Mathlib.Data.List.Perm.Basic

/-! Several executions of `daemon_request_file` on the one cache.

`file_cache = file_cache_add (file_cache, ...)` and the two recursive calls of `file_cache_add` read a
pointer, go on below it and store a pointer back, and no lock is held in between. An execution is known
here by the announcement in its line. -/
namespace Pire2Pire.SharedCache

open Library

abbrev Addr := Nat

/-- `struct file_cache` in memory. -/
structure Cell where
  entry : FileEntry
  left : Option Addr
  right : Option Addr
deriving DecidableEq, Repr

/-- A place that holds a pointer into the tree. -/
inductive Slot where
  | fileCache
  | left (p : Addr)
  | right (p : Addr)
deriving DecidableEq, Repr

/-- The global and the nodes allocated so far. Nothing is freed. -/
structure Memory where
  fileCache : Option Addr
  nodes : List Cell
deriving DecidableEq, Repr

namespace Memory

def load (m : Memory) : Slot → Option Addr
  | .fileCache => m.fileCache
  | .left p => (m.nodes[p]?).bind Cell.left
  | .right p => (m.nodes[p]?).bind Cell.right

def store (m : Memory) (value : Option Addr) : Slot → Memory
  | .fileCache => { m with fileCache := value }
  | .left p => { m with nodes := m.nodes.modify p fun cell => { cell with left := value } }
  | .right p => { m with nodes := m.nodes.modify p fun cell => { cell with right := value } }

/-- `file_cache_get_by_key`; no result when the fuel does not last. -/
def getByKey (m : Memory) (key : CString) : Nat → Option Addr → Option (Option Addr)
  | 0, _ => none
  | _ + 1, none => some none
  | fuel + 1, some p =>
    match m.nodes[p]? with
    | none => none
    | some cell =>
      match strcmp key cell.entry.key with
      | .eq => some (some p)
      | .lt => getByKey m key fuel cell.left
      | .gt => getByKey m key fuel cell.right

end Memory

/-- Where an execution is. `slot` is where the result of the running call of `file_cache_add` goes,
`callers` the same for the calls around it. -/
inductive Position where
  -- the argument of the call is read next
  | load (slot : Slot) (callers : List Slot)
  | visit (tree : Option Addr) (slot : Slot) (callers : List Slot)
  -- the seeder was not found and is put in front of the others next
  | push (p : Addr) (slot : Slot) (callers : List Slot)
  -- `loaded` is the argument of the call that returns `value`
  | store (loaded value : Option Addr) (slot : Slot) (callers : List Slot)
  | finished
deriving DecidableEq, Repr

structure Execution where
  announcement : Announcement
  position : Position
deriving DecidableEq, Repr

structure State where
  memory : Memory
  executions : List Execution
deriving DecidableEq, Repr

def start (announcements : List Announcement) : State :=
  ⟨⟨none, []⟩, announcements.map fun a => ⟨a, .load .fileCache []⟩⟩

/-- Where the caller goes on once the result is stored. The caller returns the node it was called for. -/
def afterStore : Slot → List Slot → Option Position
  | .fileCache, _ => some .finished
  -- `tree->left = file_cache_add (tree->left, ..); return tree;`
  | .left p, slot :: callers => some (.store (some p) (some p) slot callers)
  | .right p, slot :: callers => some (.store (some p) (some p) slot callers)
  | _, [] => none

/-- One access to the memory that the executions share. A search of the seeders and the insertion of one
are each under `seeders_lock`. -/
def advance (m : Memory) (a : Announcement) : Position → Option (Memory × Position)
  | .load slot callers => some (m, .visit (m.load slot) slot callers)
  | .visit none slot callers =>
    -- the node is made outside of the tree, and linked by the store of the caller
    match a.new with
    | none => some (m, .store none none slot callers)
    | some entry =>
      some ({ m with nodes := m.nodes ++ [⟨entry, none, none⟩] },
        .store none (some m.nodes.length) slot callers)
  | .visit (some p) slot callers =>
    match m.nodes[p]? with
    | none => none
    | some cell =>
      -- `strcmp` reads the key of the node, which nobody ever changes
      match strcmp a.key cell.entry.key with
      | .lt => some (m, .load (.left p) (slot :: callers))
      | .gt => some (m, .load (.right p) (slot :: callers))
      | .eq =>
        match registered cell.entry.seeders a.ip a.port with
        | none => none
        | some true => some (m, .store (some p) (some p) slot callers)
        | some false => some (m, .push p slot callers)
  | .push p slot callers =>
    match (m.nodes[p]?).bind fun cell => addSeeder cell.entry a.ip a.port with
    | none => none
    | some entry =>
      some ({ m with nodes := m.nodes.modify p fun cell => { cell with entry := entry } },
        .store (some p) (some p) slot callers)
  | .store _ value slot callers => (afterStore slot callers).map fun next => (m.store value slot, next)
  | .finished => none

/-- The execution with the given number makes its next access. -/
def step (s : State) (i : Nat) : Option State :=
  match s.executions[i]? with
  | none => none
  | some e =>
    (advance s.memory e.announcement e.position).map fun (memory, position) =>
      ⟨memory, s.executions.set i { e with position := position }⟩

/-- A store finds the pointer that the execution has read there. -/
def Position.Undisturbed (m : Memory) : Position → Prop
  | .store loaded _ slot _ => m.load slot = loaded
  | _ => True

instance (m : Memory) : (position : Position) → Decidable (position.Undisturbed m)
  | .store loaded _ slot _ => inferInstanceAs (Decidable (m.load slot = loaded))
  | .load _ _ | .visit _ _ _ | .push _ _ _ | .finished => isTrue trivial

def Undisturbed (s : State) (i : Nat) : Prop :=
  ∀ e ∈ s.executions[i]?, e.position.Undisturbed s.memory

instance (s : State) (i : Nat) : Decidable (Undisturbed s i) :=
  inferInstanceAs (Decidable (∀ _ ∈ _, _))

/-! ### Memory -/

namespace Memory

variable {m : Memory} {key : CString} {fuel fuel' : Nat} {tree found found' : Option Addr} {slot other : Slot}
  {value : Option Addr} {p : Addr} {cell : Cell}

theorem getByKey_succ (located : m.getByKey key fuel tree = some found) :
    m.getByKey key (fuel + 1) tree = some found := by
  induction fuel generalizing tree with
  | zero => simp [getByKey] at located
  | succ fuel ih =>
    -- a search that has ended is not changed by more fuel
    cases tree with
    | none => simpa [getByKey] using located
    | some p =>
      rw [getByKey] at located ⊢
      cases read : m.nodes[p]? with
      | none => simp [read] at located
      | some cell =>
        simp only [read] at located ⊢
        cases bias : strcmp key cell.entry.key with
        | eq => simpa only [bias] using located
        | lt =>
          simp only [bias] at located ⊢
          exact ih located
        | gt =>
          simp only [bias] at located ⊢
          exact ih located

theorem getByKey_mono (located : m.getByKey key fuel tree = some found) (more : fuel ≤ fuel') :
    m.getByKey key fuel' tree = some found := by
  induction more with
  | refl => exact located
  | step _ ih => exact getByKey_succ ih

/-- The result does not depend on the fuel. -/
theorem getByKey_unique (located : m.getByKey key fuel tree = some found)
    (located' : m.getByKey key fuel' tree = some found') : found = found' := by
  have first := getByKey_mono located (Nat.le_max_left fuel fuel')
  have second := getByKey_mono located' (Nat.le_max_right fuel fuel')
  exact Option.some.inj (first.symm.trans second)

theorem load_store_fileCache (s : Slot) :
    (m.store value .fileCache).load s = if s = .fileCache then value else m.load s := by
  cases s <;> simp [store, load]

theorem load_store_left (read : m.nodes[p]? = some cell) (s : Slot) :
    (m.store value (.left p)).load s = if s = .left p then value else m.load s := by
  cases s with
  | fileCache => simp [store, load]
  | left q =>
    -- the node of the slot exists, so the write has an effect
    by_cases here : p = q
    · subst here
      simp [store, load, read]
    · simp [store, load, here, Ne.symm here]
  | right q =>
    by_cases here : p = q
    · subst here
      simp [store, load, read]
    · simp [store, load, here]

theorem load_store_right (read : m.nodes[p]? = some cell) (s : Slot) :
    (m.store value (.right p)).load s = if s = .right p then value else m.load s := by
  cases s with
  | fileCache => simp [store, load]
  | left q =>
    by_cases here : p = q
    · subst here
      simp [store, load, read]
    · simp [store, load, here]
  | right q =>
    by_cases here : p = q
    · subst here
      simp [store, load, read]
    · simp [store, load, here, Ne.symm here]

/-- A store leaves the data of every node alone. -/
theorem entry_store (m : Memory) (value : Option Addr) (slot : Slot) (p : Addr) :
    ((m.store value slot).nodes[p]?).map Cell.entry = (m.nodes[p]?).map Cell.entry := by
  cases slot with
  | fileCache => rfl
  | left q => by_cases here : q = p <;> simp [store, here, Function.comp_def]
  | right q => by_cases here : q = p <;> simp [store, here, Function.comp_def]

/-- A slot keeps its pointer when that pointer is stored into it. -/
theorem store_same (held : m.load slot = value) : m.store value slot = m := by
  -- writing what is there changes nothing, in whatever field
  have unchanged : ∀ (p : Nat) (change : Cell → Cell), (∀ cell, m.nodes[p]? = some cell → change cell = cell) →
      m.nodes.modify p change = m.nodes := by
    intro p change same
    apply List.ext_getElem?
    intro q
    rw [List.getElem?_modify]
    by_cases here : p = q
    · subst here
      cases read : m.nodes[p]? with
      | none => rfl
      | some cell => simp [same cell read]
    · simp [here]
  cases slot with
  | fileCache =>
    cases held
    rfl
  | left p =>
    have same : m.nodes.modify p (fun cell => { cell with left := value }) = m.nodes := by
      apply unchanged
      intro cell read
      simp only [load, read, Option.bind_some] at held
      simp [← held]
    simp only [store, same]
  | right p =>
    have same : m.nodes.modify p (fun cell => { cell with right := value }) = m.nodes := by
      apply unchanged
      intro cell read
      simp only [load, read, Option.bind_some] at held
      simp [← held]
    simp only [store, same]

/-- One step of the search, with the child read through its slot. -/
theorem getByKey_node (read : m.nodes[p]? = some cell) :
    m.getByKey key (fuel + 1) (some p) =
      match strcmp key cell.entry.key with
      | .eq => some (some p)
      | .lt => m.getByKey key fuel (m.load (.left p))
      | .gt => m.getByKey key fuel (m.load (.right p)) := by
  simp only [getByKey, load, read, Option.bind_some]

end Memory

/-! ### What an execution may rely on -/

/-- The search for the key goes through the slots of the callers to `slot`. -/
def Leads (m : Memory) (key : CString) : Slot → List Slot → Prop
  | slot, [] => slot = .fileCache
  | slot, caller :: callers =>
    Leads m key caller callers ∧ ∃ p cell, m.load caller = some p ∧ m.nodes[p]? = some cell ∧
      (slot = .left p ∧ strcmp key cell.entry.key = .lt ∨ slot = .right p ∧ strcmp key cell.entry.key = .gt)

/-- A node that no slot points to. -/
def Unlinked (m : Memory) (p : Addr) : Prop :=
  ∀ slot, m.load slot ≠ some p

def Position.Valid (m : Memory) (a : Announcement) : Position → Prop
  | .load slot callers => Leads m a.key slot callers
  | .visit none slot callers => Leads m a.key slot callers
  | .visit (some p) slot callers => Leads m a.key slot callers ∧ m.load slot = some p
  | .push p slot callers =>
    Leads m a.key slot callers ∧ m.load slot = some p ∧ ∃ cell, m.nodes[p]? = some cell ∧ cell.entry.key = a.key
  | .store none none slot callers => Leads m a.key slot callers ∧ a.new = none
  | .store none (some p) slot callers =>
    Leads m a.key slot callers ∧ ∃ entry, a.new = some entry ∧ m.nodes[p]? = some ⟨entry, none, none⟩ ∧ Unlinked m p
  | .store (some p) value slot callers => Leads m a.key slot callers ∧ value = some p ∧ m.load slot = some p
  | .finished => True

/-- The node that the execution has made and not linked yet. -/
def Position.pending : Position → Option Addr
  | .store none value _ _ => value
  | _ => none

/-- The announcement has had its effect. -/
def Position.committed : Position → Bool
  | .store (some _) _ _ _ | .finished => true
  | .load _ _ | .visit _ _ _ | .push _ _ _ | .store none _ _ _ => false

/-- The tree has grown: keys stay, pointers stay, and so does every unlinked node but perhaps one. -/
structure Grows (linked : Option Addr) (m m' : Memory) : Prop where
  keys : ∀ (p : Addr) (cell : Cell), m.nodes[p]? = some cell →
    ∃ cell', m'.nodes[p]? = some cell' ∧ cell'.entry.key = cell.entry.key
  pointers : ∀ slot p, m.load slot = some p → m'.load slot = some p
  unlinked : ∀ (p : Addr) (cell : Cell), m.nodes[p]? = some cell → Unlinked m p → linked ≠ some p →
    m'.nodes[p]? = some cell ∧ Unlinked m' p

variable {m m' : Memory} {key : CString} {slot : Slot} {callers : List Slot} {p : Addr} {linked : Option Addr}
  {a : Announcement} {position : Position} {cell : Cell} {fuel : Nat} {found : Option Addr}

theorem leads_grows (grows : Grows linked m m') (leads : Leads m key slot callers) :
    Leads m' key slot callers := by
  induction callers generalizing slot with
  | nil => exact leads
  | cons caller callers ih =>
    -- a node on the way keeps its key, so the search turns the same way
    obtain ⟨outer, p, cell, held, read, turn⟩ := leads
    obtain ⟨cell', read', same⟩ := grows.keys p cell read
    refine ⟨ih outer, p, cell', grows.pointers caller p held, read', ?_⟩
    rw [same]
    exact turn

theorem valid_grows (grows : Grows linked m m') (other : linked = none ∨ position.pending ≠ linked)
    (valid : position.Valid m a) : position.Valid m' a := by
  cases position with
  | load slot callers => exact leads_grows grows valid
  | visit tree slot callers =>
    cases tree with
    | none => exact leads_grows grows valid
    | some p => exact ⟨leads_grows grows valid.1, grows.pointers slot p valid.2⟩
  | push p slot callers =>
    -- the node has its key for good, whatever its seeders are
    obtain ⟨leads, held, cell, read, own⟩ := valid
    obtain ⟨cell', read', same⟩ := grows.keys p cell read
    exact ⟨leads_grows grows leads, grows.pointers slot p held, cell', read', same.trans own⟩
  | store loaded value slot callers =>
    cases loaded with
    | some p => exact ⟨leads_grows grows valid.1, valid.2.1, grows.pointers slot p valid.2.2⟩
    | none =>
      cases value with
      | none => exact ⟨leads_grows grows valid.1, valid.2⟩
      | some p =>
        obtain ⟨leads, entry, new, read, unlinked⟩ := valid
        -- only an own node could have been linked meanwhile, and it is not this one
        have kept : linked ≠ some p := by
          rcases other with rfl | differ
          · exact nofun
          · exact differ.symm
        obtain ⟨read', unlinked'⟩ := grows.unlinked p _ read unlinked kept
        exact ⟨leads_grows grows leads, entry, new, read', unlinked'⟩
  | finished => trivial

/-- What the search finds below a slot that it leads to, it finds from the top. -/
theorem leads_getByKey (fuel : Nat) (leads : Leads m key slot callers)
    (located : m.getByKey key fuel (m.load slot) = some found) :
    ∃ fuel, m.getByKey key fuel m.fileCache = some found := by
  induction callers generalizing slot fuel with
  | nil =>
    cases leads
    exact ⟨fuel, located⟩
  | cons caller callers ih =>
    obtain ⟨outer, p, cell, held, read, turn⟩ := leads
    -- the search turns at the caller's node as the execution did
    have above : m.getByKey key (fuel + 1) (m.load caller) = some found := by
      rw [held, Memory.getByKey_node read]
      rcases turn with ⟨rfl, bias⟩ | ⟨rfl, bias⟩
      · simpa only [bias] using located
      · simpa only [bias] using located
    exact ih _ outer above

/-- A search is not affected by a node that is linked for another key. -/
theorem getByKey_grows (slot : Slot) (grows : Grows linked m m')
    (loads : ∀ s, m'.load s = m.load s ∨ m.load s = none ∧ m'.getByKey key 2 (m'.load s) = some none)
    (located : m.getByKey key fuel (m.load slot) = some found) :
    m'.getByKey key (fuel + 2) (m'.load slot) = some found := by
  induction fuel generalizing slot with
  | zero => simp [Memory.getByKey] at located
  | succ fuel ih =>
    -- either the slot is as it was, or a new node without children hangs there
    rcases loads slot with same | ⟨empty, below⟩
    · rw [same]
      cases held : m.load slot with
      | none =>
        rw [held] at located
        simpa [Memory.getByKey] using located
      | some p =>
        rw [held] at located
        cases read : m.nodes[p]? with
        | none => simp [Memory.getByKey, read] at located
        | some cell =>
          -- a node that was there is compared with as before
          obtain ⟨cell', read', key'⟩ := grows.keys p cell read
          rw [Memory.getByKey_node read] at located
          rw [Nat.add_right_comm, Memory.getByKey_node read', key']
          cases bias : strcmp key cell.entry.key with
          | eq => simpa only [bias] using located
          | lt =>
            simp only [bias] at located ⊢
            exact ih _ located
          | gt =>
            simp only [bias] at located ⊢
            exact ih _ located
    · rw [empty] at located
      have nothing : found = none := by
        simpa [Memory.getByKey, eq_comm] using located
      rw [nothing]
      exact Memory.getByKey_mono below (by omega)

/-! ### How the memory grows -/

/-- A slot that the search leads to can be written. -/
theorem leads_load_store {value : Option Addr} (leads : Leads m key slot callers) (s : Slot) :
    (m.store value slot).load s = if s = slot then value else m.load s := by
  cases callers with
  | nil =>
    cases leads
    exact Memory.load_store_fileCache s
  | cons caller callers =>
    obtain ⟨-, p, cell, -, read, ⟨rfl, -⟩ | ⟨rfl, -⟩⟩ := leads
    · exact Memory.load_store_left read s
    · exact Memory.load_store_right read s

theorem load_alloc (entry : FileEntry) (s : Slot) :
    Memory.load { m with nodes := m.nodes ++ [⟨entry, none, none⟩] } s = m.load s := by
  have children : ∀ (child : Cell → Option Addr) (p : Addr), child ⟨entry, none, none⟩ = none →
      ((m.nodes ++ [(⟨entry, none, none⟩ : Cell)])[p]?).bind child = (m.nodes[p]?).bind child := by
    intro child p null
    -- the new node is behind all others, and has no children
    rcases Nat.lt_trichotomy p m.nodes.length with old | rfl | beyond
    · rw [List.getElem?_append_left old]
    · simp [null]
    · rw [List.getElem?_append_right (by omega), List.getElem?_eq_none (by simp; omega),
        List.getElem?_eq_none (by omega)]
  cases s with
  | fileCache => rfl
  | left p => exact children Cell.left p rfl
  | right p => exact children Cell.right p rfl

theorem grows_alloc (entry : FileEntry) :
    Grows none m { m with nodes := m.nodes ++ [⟨entry, none, none⟩] } := by
  -- nobody holds the address of the new node yet
  have old : ∀ (p : Addr) (cell : Cell), m.nodes[p]? = some cell →
      (m.nodes ++ [(⟨entry, none, none⟩ : Cell)])[p]? = some cell := by
    intro p cell read
    rw [List.getElem?_append_left (List.getElem?_eq_some_iff.mp read).1]
    exact read
  refine ⟨fun p cell read => ⟨cell, old p cell read, rfl⟩, ?_, ?_⟩
  · intro slot p held
    rw [load_alloc]
    exact held
  · intro p cell read unlinked _
    refine ⟨old p cell read, ?_⟩
    intro slot
    rw [load_alloc]
    exact unlinked slot

theorem load_push (entry : FileEntry) (s : Slot) :
    Memory.load { m with nodes := m.nodes.modify p fun cell => { cell with entry := entry } } s = m.load s := by
  cases s with
  | fileCache => rfl
  | left q =>
    cases read : m.nodes[q]? with
    | none => simp [Memory.load, List.getElem?_modify, read]
    | some cell => by_cases here : p = q <;> simp [Memory.load, read, here]
  | right q =>
    cases read : m.nodes[q]? with
    | none => simp [Memory.load, List.getElem?_modify, read]
    | some cell => by_cases here : p = q <;> simp [Memory.load, read, here]

theorem grows_push {entry : FileEntry} (held : m.load slot = some p) (read : m.nodes[p]? = some cell)
    (same : entry.key = cell.entry.key) :
    Grows none m { m with nodes := m.nodes.modify p fun cell => { cell with entry := entry } } := by
  refine ⟨?_, ?_, ?_⟩
  -- the key is kept, only the seeders are different
  · intro q cell' read'
    by_cases here : p = q
    · subst here
      cases Option.some.inj (read.symm.trans read')
      exact ⟨{ cell with entry := entry }, by simp [read], same⟩
    · exact ⟨cell', by simp [here, read'], rfl⟩
  · intro s q pointer
    rw [load_push]
    exact pointer
  · intro q cell' read' unlinked _
    -- the node is linked, so it is another one
    have differ : p ≠ q := by
      rintro rfl
      exact unlinked slot held
    refine ⟨by simp [differ, read'], ?_⟩
    intro s
    rw [load_push]
    exact unlinked s

theorem nodes_store {value : Option Addr} (leads : Leads m key slot callers) (unlinked : Unlinked m p) :
    (m.store value slot).nodes[p]? = m.nodes[p]? := by
  cases callers with
  | nil =>
    cases leads
    rfl
  | cons caller callers =>
    -- the node that is written to hangs in the caller's slot
    obtain ⟨-, q, cell, held, -, turn⟩ := leads
    have differ : q ≠ p := by
      rintro rfl
      exact unlinked caller held
    rcases turn with ⟨rfl, -⟩ | ⟨rfl, -⟩
    · simp [Memory.store, differ]
    · simp [Memory.store, differ]

theorem grows_link (leads : Leads m key slot callers) (empty : m.load slot = none) :
    Grows (some p) m (m.store (some p) slot) := by
  refine ⟨?_, ?_, ?_⟩
  -- a store changes no data
  · intro q cell read
    have data := Memory.entry_store m (some p) slot q
    rw [read, Option.map_some, Option.map_eq_some_iff] at data
    obtain ⟨cell', read', same⟩ := data
    exact ⟨cell', read', by rw [same]⟩
  -- the slot was empty, so no pointer is lost
  · intro s q held
    have differ : s ≠ slot := by
      rintro rfl
      rw [empty] at held
      cases held
    rw [leads_load_store leads, if_neg differ]
    exact held
  -- and the only node that gets linked is the stored one
  · intro q cell read unlinked other
    refine ⟨(nodes_store leads unlinked).trans read, ?_⟩
    intro s
    rw [leads_load_store leads]
    split
    · exact other
    · exact unlinked s

end Pire2Pire.SharedCache
