import Pire2Pire.FileCache.Map
import Pire2Pire.Library.Allocation

/-! The memory of the cache: the blocks that `file_cache_add` allocates until `server_stop` frees the tree, and the
pointers into the tree that requests keep meanwhile (`file_cache.c`).

The calls are made one after the other. The `malloc` calls of `file_cache_new` are not checked and succeed here. -/
namespace Pire2Pire.CacheOwnership

open Library

/-! ### The objects -/

/-- `struct seeder`. -/
structure OwnedSeeder where
  block : Nat
  seeder : Seeder
deriving DecidableEq, Repr

/-- `struct file_cache` without its children. -/
structure OwnedEntry where
  block : Nat
  filename : CString
  key : CString
  size : UInt64
  seeders : List OwnedSeeder
deriving DecidableEq, Repr

inductive OwnedCache where
  | empty
  | node (entry : OwnedEntry) (left right : OwnedCache)
deriving DecidableEq, Repr

/-- How the calls that are checked end. -/
structure CacheCalls where
  /-- `malloc` of `file_cache_add` -/
  seederAllocated : Bool
  /-- `sem_init` of `file_cache_new` -/
  lockMade : Bool
deriving DecidableEq, Repr

/-- The blocks of a node in the order in which `__file_cache_free` frees them. -/
def OwnedEntry.blocks (entry : OwnedEntry) : List Nat :=
  entry.seeders.map OwnedSeeder.block ++ [entry.block]

/-- The blocks of a tree in the order in which `file_cache_free` frees them. -/
def OwnedCache.blocks : OwnedCache → List Nat
  | empty => []
  | node entry left right => left.blocks ++ right.blocks ++ entry.blocks

/-- The entry without its addresses. -/
def OwnedEntry.erase (entry : OwnedEntry) : FileEntry :=
  ⟨entry.filename, entry.key, entry.size, entry.seeders.map OwnedSeeder.seeder⟩

/-- The tree without its addresses. -/
def OwnedCache.erase : OwnedCache → FileCache
  | empty => .empty
  | node entry left right => .node entry.erase left.erase right.erase

/-! ### The functions -/

/-- `file_cache_new`. -/
def fileCacheNew (calls : CacheCalls) (m : Ledger) (a : Announcement) : Ledger × Option OwnedEntry :=
  let node := m.next
  let m := m.malloc
  if a.filename.length > fileNameSize then (m.free node, none)
  else if a.key.length ≠ fileKeySize then (m.free node, none)
  else
    let seeder := m.next
    let m := m.malloc
    if !calls.lockMade then ((m.free seeder).free node, none)
    else (m, some ⟨node, a.filename, a.key, a.size, [⟨seeder, ⟨a.ip.take (fileIpSize + 1), a.port⟩⟩]⟩)

/-- `file_cache_add`. No result where the source's behaviour is undefined. -/
def fileCacheAdd (calls : CacheCalls) (m : Ledger) (tree : OwnedCache) (a : Announcement) :
    Option (Ledger × OwnedCache) :=
  match tree with
  | .empty =>
    match fileCacheNew calls m a with
    | (m, none) => some (m, .empty)
    | (m, some entry) => some (m, .node entry .empty .empty)
  | .node entry left right =>
    match strcmp a.key entry.key with
    | .lt => (fileCacheAdd calls m left a).map fun (m, left) => (m, .node entry left right)
    | .gt => (fileCacheAdd calls m right a).map fun (m, right) => (m, .node entry left right)
    | .eq => do
      if ← registered (entry.seeders.map OwnedSeeder.seeder) a.ip a.port then return (m, .node entry left right)
      if !calls.seederAllocated then return (m, .node entry left right)
      if a.ip.length > fileIpSize then none
      let entry := { entry with seeders := ⟨m.next, ⟨a.ip, a.port⟩⟩ :: entry.seeders }
      return (m.malloc, .node entry left right)

/-- The loop of `__file_cache_free`. -/
def freeSeeders (m : Ledger) : List OwnedSeeder → Ledger
  | [] => m
  | s :: seeders => freeSeeders (m.free s.block) seeders

/-- `__file_cache_free`. -/
def freeNode (m : Ledger) (entry : OwnedEntry) : Ledger :=
  (freeSeeders m entry.seeders).free entry.block

/-- `file_cache_free`. -/
def fileCacheFree (m : Ledger) : OwnedCache → Ledger
  | .empty => m
  | .node entry left right => freeNode (fileCacheFree (fileCacheFree m left) right) entry

/-- `file_cache_get_by_key`, with the node that the pointer leads to. -/
def getByKey (tree : OwnedCache) (key : CString) : Option OwnedEntry :=
  match tree with
  | .empty => none
  | .node entry left right =>
    match strcmp key entry.key with
    | .eq => some entry
    | .lt => getByKey left key
    | .gt => getByKey right key

/-! ### Runs -/

/-- The heap and the global `file_cache`. -/
structure Process where
  heap : Ledger
  tree : OwnedCache
deriving DecidableEq, Repr

def Process.start : Process := ⟨.empty, .empty⟩

/-- A call of `file_cache_add` and how the calls inside it end. -/
structure Call where
  calls : CacheCalls
  announcement : Announcement
deriving DecidableEq, Repr

/-- `file_cache = file_cache_add (file_cache, ...)`. -/
def Process.step (p : Process) (c : Call) : Option Process :=
  (fileCacheAdd c.calls p.heap p.tree c.announcement).map fun (heap, tree) => ⟨heap, tree⟩

/-- Every block that is not freed yet is in the tree, once. -/
def Process.Sound (p : Process) : Prop := p.heap.Owns p.tree.blocks

variable {calls : CacheCalls} {m m' : Ledger} {tree tree' : OwnedCache} {entry entry' : OwnedEntry} {a : Announcement}
  {key : CString} {others : List Nat} {p q : Process}

/-! ### Without the addresses -/

/-- When no call fails, the tree is that of `FileCache`. -/
theorem erase_fileCacheAdd :
    (fileCacheAdd ⟨true, true⟩ m tree a).map (fun result => result.2.erase) = a.addTo tree.erase := by
  unfold Announcement.addTo
  induction tree with
  | empty =>
    unfold fileCacheAdd OwnedCache.erase Pire2Pire.fileCacheAdd fileCacheNew Pire2Pire.fileCacheNew
    -- the two checks
    by_cases long : a.filename.length > fileNameSize
    · simp [long]
    · by_cases wrong : a.key.length ≠ fileKeySize
      · simp [long, wrong]
      · simp [long, wrong, OwnedCache.erase, OwnedEntry.erase]
  | node entry left right ihLeft ihRight =>
    unfold fileCacheAdd OwnedCache.erase Pire2Pire.fileCacheAdd
    simp only [OwnedEntry.erase]
    cases strcmp a.key entry.key with
    | lt => rw [← ihLeft, Option.map_map, Option.map_map]; rfl
    | gt => rw [← ihRight, Option.map_map, Option.map_map]; rfl
    | eq =>
      simp only [addSeeder]
      -- the search through the seeders comes first
      cases registered (entry.seeders.map OwnedSeeder.seeder) a.ip a.port with
      | none => rfl
      | some found =>
        cases found with
        | true => rfl
        | false =>
          by_cases long : a.ip.length > fileIpSize
          · simp [long]
          · simp [long]

/-! ### What is freed -/

theorem freeSeeders_eq (m : Ledger) (seeders : List OwnedSeeder) :
    freeSeeders m seeders = m.freeAll (seeders.map OwnedSeeder.block) := by
  induction seeders generalizing m with
  | nil => rfl
  | cons s seeders ih => exact ih (m.free s.block)

theorem fileCacheFree_eq (m : Ledger) (tree : OwnedCache) : fileCacheFree m tree = m.freeAll tree.blocks := by
  induction tree generalizing m with
  | empty => rfl
  | node entry left right ihLeft ihRight =>
    unfold fileCacheFree OwnedCache.blocks freeNode OwnedEntry.blocks
    rw [ihLeft, ihRight, freeSeeders_eq, Ledger.freeAll_append, Ledger.freeAll_append,
      Ledger.freeAll_append]
    rfl

/-! ### What one call does to the blocks -/

/-- A node that is refused leaves nothing behind. -/
theorem fileCacheNew_owns (calls : CacheCalls) (a : Announcement) (others : List Nat) (owns : m.Owns others) :
    (fileCacheNew calls m a).1.Owns (((fileCacheNew calls m a).2.elim [] OwnedEntry.blocks) ++ others) := by
  have node := owns.malloc
  unfold fileCacheNew
  dsimp only
  split
  · exact node.free
  split
  · exact node.free
  -- the seeder was allocated behind the node
  have seeder := node.malloc
  split
  · exact seeder.free.free
  · exact seeder

/-- One call keeps the books of the tree, whatever else is allocated. -/
theorem fileCacheAdd_owns (added : fileCacheAdd calls m tree a = some (m', tree'))
    (owns : m.Owns (tree.blocks ++ others)) : m'.Owns (tree'.blocks ++ others) := by
  -- down the way of the key: what is beside the way is among the others
  induction tree generalizing tree' others with
  | empty =>
    have new := fileCacheNew_owns calls a others owns
    unfold fileCacheAdd at added
    rcases made : fileCacheNew calls m a with ⟨m1, _ | entry⟩
    · simp only [made, Option.some.injEq, Prod.mk.injEq] at added
      obtain ⟨rfl, rfl⟩ := added
      simpa [made, OwnedCache.blocks] using new
    · simp only [made, Option.some.injEq, Prod.mk.injEq] at added
      obtain ⟨rfl, rfl⟩ := added
      simpa [made, OwnedCache.blocks] using new
  | node entry left right ihLeft ihRight =>
    unfold fileCacheAdd at added
    unfold OwnedCache.blocks at owns
    cases way : strcmp a.key entry.key with
    | lt =>
      simp only [way, Option.map_eq_some_iff, Prod.exists, Prod.mk.injEq] at added
      obtain ⟨m1, left', inner, rfl, rfl⟩ := added
      have beside : m.Owns (left.blocks ++ (right.blocks ++ entry.blocks ++ others)) := by
        simpa only [List.append_assoc] using owns
      simpa only [OwnedCache.blocks, List.append_assoc] using ihLeft inner beside
    | gt =>
      simp only [way, Option.map_eq_some_iff, Prod.exists, Prod.mk.injEq] at added
      obtain ⟨m1, right', inner, rfl, rfl⟩ := added
      have swap (middle : List Nat) :
          (middle ++ (left.blocks ++ entry.blocks ++ others)).Perm
            (left.blocks ++ middle ++ entry.blocks ++ others) := by
        simpa only [List.append_assoc] using
          List.perm_append_comm_assoc middle left.blocks (entry.blocks ++ others)
      exact (ihRight inner (owns.perm (swap _))).perm (swap _).symm
    | eq =>
      simp only [way, Option.bind_eq_bind, Option.bind_eq_some_iff] at added
      obtain ⟨found, -, added⟩ := added
      split at added
      · cases added
        exact owns
      split at added
      · cases added
        exact owns
      split at added
      · cases added
      · -- the new seeder stands in front of those of this node
        cases added
        refine owns.malloc.perm ?_
        have front : (left.blocks ++ right.blocks ++ m.next :: (entry.blocks ++ others)).Perm
            (m.next :: (left.blocks ++ right.blocks ++ (entry.blocks ++ others))) := List.perm_middle
        simpa [OwnedCache.blocks, OwnedEntry.blocks] using front

theorem step_sound (sound : p.Sound) (c : Call) (taken : p.step c = some q) : q.Sound := by
  unfold Process.step at taken
  simp only [Option.map_eq_some_iff, Prod.exists] at taken
  obtain ⟨m', tree', added, rfl⟩ := taken
  have owns : p.heap.Owns (p.tree.blocks ++ []) := by
    rw [List.append_nil]
    exact sound
  have kept := fileCacheAdd_owns added owns
  rw [List.append_nil] at kept
  exact kept

theorem start_sound : Process.start.Sound :=
  owns_empty

theorem exec_sound {cs : List Call} (sound : p.Sound) (ran : exec Process.step p cs = some q) : q.Sound :=
  exec_invariant_all Process.Sound (fun _ c _ sound taken => step_sound sound c taken) sound ran

/-! ### What one call does to a node -/

/-- The node of a pointer after later calls: seeders may have come in front. -/
structure OwnedEntry.Grown (entry entry' : OwnedEntry) : Prop where
  block : entry'.block = entry.block
  filename : entry'.filename = entry.filename
  key : entry'.key = entry.key
  size : entry'.size = entry.size
  seeders : entry.seeders <:+ entry'.seeders

theorem OwnedEntry.Grown.rfl : entry.Grown entry :=
  ⟨Eq.refl _, Eq.refl _, Eq.refl _, Eq.refl _, List.suffix_refl _⟩

theorem OwnedEntry.Grown.trans {third : OwnedEntry} (first : entry.Grown entry') (second : entry'.Grown third) :
    entry.Grown third where
  block := second.block.trans first.block
  filename := second.filename.trans first.filename
  key := second.key.trans first.key
  size := second.size.trans first.size
  seeders := first.seeders.trans second.seeders

theorem OwnedEntry.Grown.blocks (grown : entry.Grown entry') {b : Nat} (member : b ∈ entry.blocks) :
    b ∈ entry'.blocks := by
  unfold OwnedEntry.blocks at member ⊢
  rw [List.mem_append] at member ⊢
  rcases member with seeder | node
  · exact .inl (List.map_subset _ grown.seeders.subset seeder)
  · exact .inr (by rwa [grown.block])

/-- A lookup that finds a node finds it again behind every call of `file_cache_add`. -/
theorem fileCacheAdd_grown (added : fileCacheAdd calls m tree a = some (m', tree'))
    (got : getByKey tree key = some entry) : ∃ entry', getByKey tree' key = some entry' ∧ entry.Grown entry' := by
  induction tree generalizing tree' with
  | empty => cases got
  | node here left right ihLeft ihRight =>
    unfold fileCacheAdd at added
    unfold getByKey at got
    cases way : strcmp a.key here.key with
    | lt =>
      simp only [way, Option.map_eq_some_iff, Prod.exists, Prod.mk.injEq] at added
      obtain ⟨m1, left', inner, rfl, rfl⟩ := added
      unfold getByKey
      -- the lookup takes a way of its own
      cases search : strcmp key here.key with
      | lt => simp only [search] at got ⊢; exact ihLeft inner got
      | eq => simp only [search] at got ⊢; exact ⟨entry, got, .rfl⟩
      | gt => simp only [search] at got ⊢; exact ⟨entry, got, .rfl⟩
    | gt =>
      simp only [way, Option.map_eq_some_iff, Prod.exists, Prod.mk.injEq] at added
      obtain ⟨m1, right', inner, rfl, rfl⟩ := added
      unfold getByKey
      cases search : strcmp key here.key with
      | lt => simp only [search] at got ⊢; exact ⟨entry, got, .rfl⟩
      | eq => simp only [search] at got ⊢; exact ⟨entry, got, .rfl⟩
      | gt => simp only [search] at got ⊢; exact ihRight inner got
    | eq =>
      simp only [way, Option.bind_eq_bind, Option.bind_eq_some_iff] at added
      obtain ⟨found, -, added⟩ := added
      split at added
      · cases added
        exact ⟨entry, got, .rfl⟩
      split at added
      · cases added
        exact ⟨entry, got, .rfl⟩
      split at added
      · cases added
      · cases added
        unfold getByKey
        cases search : strcmp key here.key with
        | lt => simp only [search] at got ⊢; exact ⟨entry, got, .rfl⟩
        | gt => simp only [search] at got ⊢; exact ⟨entry, got, .rfl⟩
        | eq =>
          simp only [search, Option.some.injEq] at got ⊢
          subst got
          exact ⟨_, Eq.refl _, Eq.refl _, Eq.refl _, Eq.refl _, Eq.refl _, List.suffix_cons _ _⟩

theorem exec_grown {cs : List Call} (ran : exec Process.step p cs = some q) (got : getByKey p.tree key = some entry) :
    ∃ entry', getByKey q.tree key = some entry' ∧ entry.Grown entry' := by
  induction cs generalizing p entry with
  | nil =>
    cases ran
    exact ⟨entry, got, .rfl⟩
  | cons c cs ih =>
    obtain ⟨next, taken, rest⟩ := exec_cons_some.mp ran
    unfold Process.step at taken
    simp only [Option.map_eq_some_iff, Prod.exists] at taken
    obtain ⟨heap, tree, added, rfl⟩ := taken
    obtain ⟨entry1, found, first⟩ := fileCacheAdd_grown added got
    obtain ⟨entry2, again, second⟩ := ih rest found
    exact ⟨entry2, again, first.trans second⟩

/-- The blocks of a node that a lookup finds are blocks of the tree. -/
theorem getByKey_blocks (got : getByKey tree key = some entry) {b : Nat} (member : b ∈ entry.blocks) :
    b ∈ tree.blocks := by
  induction tree with
  | empty => cases got
  | node here left right ihLeft ihRight =>
    unfold getByKey at got
    unfold OwnedCache.blocks
    simp only [List.mem_append]
    cases search : strcmp key here.key with
    | lt => simp only [search] at got; exact .inl (.inl (ihLeft got))
    | gt => simp only [search] at got; exact .inl (.inr (ihRight got))
    | eq =>
      simp only [search, Option.some.injEq] at got
      subst got
      exact .inr member

/-- What is in the tree is allocated and not freed. -/
theorem Process.Sound.live (sound : p.Sound) {b : Nat} (member : b ∈ p.tree.blocks) :
    b < p.heap.allocations ∧ b ∉ p.heap.frees := by
  unfold Process.Sound Ledger.Owns at sound
  constructor
  · exact List.mem_range.mp (sound.subset (List.mem_append_right _ member))
  · -- each block stands once in the range
    have once : (p.heap.frees ++ p.tree.blocks).Nodup := sound.nodup_iff.mpr List.nodup_range
    exact fun freed => (List.nodup_append.mp once).2.2 b freed b member (Eq.refl b)

/-! ### Whole runs -/

/-- Whatever was added and whichever calls failed, `file_cache_free` leaves every block freed, each exactly once. -/
theorem cache_freed_once {cs : List Call} (ran : exec Process.step .start cs = some p) :
    (fileCacheFree p.heap p.tree).frees.Perm (List.range p.heap.allocations) := by
  have sound := exec_sound start_sound ran
  have owns : p.heap.Owns (p.tree.blocks ++ []) := by
    rw [List.append_nil]
    exact sound
  rw [fileCacheFree_eq]
  have freed := owns.freeAll
  unfold Ledger.Owns at freed
  rwa [List.append_nil, Ledger.freeAll_allocations] at freed

/-- Announcements of two files by several peers: the first `sem_init` for the second file fails, and so does a `malloc`
for a seeder of the first; a third file has a name of 257 characters. -/
def someCalls : List Call :=
  [⟨⟨true, true⟩, ⟨"song".toList, List.replicate 32 'b', 7, "10.0.0.1".toList, 4242⟩⟩,
    ⟨⟨true, false⟩, ⟨"film".toList, List.replicate 32 'a', 9, "10.0.0.1".toList, 4242⟩⟩,
    ⟨⟨true, true⟩, ⟨"film".toList, List.replicate 32 'a', 9, "10.0.0.2".toList, 4242⟩⟩,
    ⟨⟨false, true⟩, ⟨"song".toList, List.replicate 32 'b', 7, "10.0.0.2".toList, 4242⟩⟩,
    ⟨⟨true, true⟩, ⟨List.replicate 257 'x', List.replicate 32 'c', 7, "10.0.0.2".toList, 4242⟩⟩]

/-- The blocks 0 and 1 hold the first file and its seeder, 4 and 5 the second; 2, 3 and 6 were freed at once. -/
def someProcess : Process where
  heap := ⟨7, [6, 2, 3]⟩
  tree :=
    .node ⟨0, "song".toList, List.replicate 32 'b', 7, [⟨1, "10.0.0.1".toList, 4242⟩]⟩
      (.node ⟨4, "film".toList, List.replicate 32 'a', 9, [⟨5, "10.0.0.2".toList, 4242⟩]⟩ .empty .empty) .empty

theorem someCalls_run : exec Process.step .start someCalls = some someProcess := by
  decide +kernel

theorem someCalls_freed :
    (fileCacheFree someProcess.heap someProcess.tree).frees = [0, 1, 4, 5, 6, 2, 3] ∧
      [0, 1, 4, 5, 6, 2, 3].Perm (List.range 7) :=
  ⟨by decide, cache_freed_once someCalls_run⟩

/-- What a request has looked up stays where it is while others add to the cache: its blocks are not freed, a new
lookup finds the same node, with the same name and size, and the seeders that it had come last. -/
theorem lookup_stays {cs ds : List Call} (before : exec Process.step .start cs = some p)
    (got : getByKey p.tree key = some entry) (meanwhile : exec Process.step p ds = some q) :
    (∀ b ∈ entry.blocks, b < q.heap.allocations ∧ b ∉ q.heap.frees) ∧
      ∃ entry', getByKey q.tree key = some entry' ∧ entry.Grown entry' := by
  have sound := exec_sound (exec_sound start_sound before) meanwhile
  obtain ⟨entry', again, grown⟩ := exec_grown meanwhile got
  exact ⟨fun b member => sound.live (getByKey_blocks again (grown.blocks member)), entry', again, grown⟩

def oneSong : Process where
  heap := ⟨2, []⟩
  tree := .node ⟨0, "song".toList, List.replicate 32 'b', 7, [⟨1, "10.0.0.1".toList, 4242⟩]⟩ .empty .empty

/-- Another peer announces the song, under another name and with another size. -/
def sameSong : Call :=
  ⟨⟨true, true⟩, ⟨"tune".toList, List.replicate 32 'b', 8, "10.0.0.3".toList, 4242⟩⟩

theorem song_stays :
    ∃ q entry entry', exec Process.step oneSong [sameSong] = some q ∧
      getByKey oneSong.tree (List.replicate 32 'b') = some entry ∧ entry.blocks = [1, 0] ∧
      (∀ b ∈ entry.blocks, b < q.heap.allocations ∧ b ∉ q.heap.frees) ∧
      getByKey q.tree (List.replicate 32 'b') = some entry' ∧ entry.Grown entry' := by
  have before : exec Process.step .start (someCalls.take 1) = some oneSong := by
    decide +kernel
  have meanwhile : exec Process.step oneSong [sameSong] =
      some ⟨⟨3, []⟩, .node ⟨0, "song".toList, List.replicate 32 'b', 7,
        [⟨2, "10.0.0.3".toList, 4242⟩, ⟨1, "10.0.0.1".toList, 4242⟩]⟩ .empty .empty⟩ := by
    decide +kernel
  have got : getByKey oneSong.tree (List.replicate 32 'b') =
      some ⟨0, "song".toList, List.replicate 32 'b', 7, [⟨1, "10.0.0.1".toList, 4242⟩]⟩ := by
    decide +kernel
  obtain ⟨live, entry', again, grown⟩ := lookup_stays before got meanwhile
  exact ⟨_, _, entry', meanwhile, got, by decide +kernel, live, again, grown⟩

end Pire2Pire.CacheOwnership
