import Pire2Pire.Library.CString

/-! The cache of announced files, a binary tree over the keys (`file_cache.c`).

Allocations and `sem_init` succeed. -/
namespace Pire2Pire

open Library

def fileNameSize : Nat := 256
def fileKeySize : Nat := 32
/-- `INET_ADDRSTRLEN`; the field has one byte more. -/
def fileIpSize : Nat := 16

/-- `ip` is what the field holds. An address that fills all of it is not terminated. -/
structure Seeder where
  ip : CString
  port : Int32
deriving DecidableEq, Repr

structure FileEntry where
  filename : CString
  key : CString
  size : UInt64
  seeders : List Seeder
deriving DecidableEq, Repr

inductive FileCache where
  | empty
  | node (entry : FileEntry) (left right : FileCache)
deriving DecidableEq, Repr

/-- NULL for a name that is too long or a key of the wrong size. -/
def fileCacheNew (filename key : CString) (size : UInt64) (ip : CString) (port : Int32) : Option FileEntry :=
  if filename.length > fileNameSize then none
  else if key.length ≠ fileKeySize then none
  else some ⟨filename, key, size, [⟨ip.take (fileIpSize + 1), port⟩]⟩

/-- `strcmp (s->ip, ip) == 0 && s->port == port`. A comparison that runs past an unterminated field is
undefined. -/
def Seeder.is (s : Seeder) (ip : CString) (port : Int32) : Option Bool :=
  if s.ip.length > fileIpSize ∧ s.ip <+: ip then none
  else some (s.ip = ip ∧ s.port = port)

/-- The search through the seeders. -/
def registered : List Seeder → CString → Int32 → Option Bool
  | [], _, _ => some false
  | s :: seeders, ip, port => do
    if ← s.is ip port then some true else registered seeders ip port

/-- `strcpy` of the address into a new seeder; an address longer than the field is undefined. -/
def addSeeder (entry : FileEntry) (ip : CString) (port : Int32) : Option FileEntry :=
  if ip.length > fileIpSize then none
  else some { entry with seeders := ⟨ip, port⟩ :: entry.seeders }

/-- No result where the source's behaviour is undefined. -/
def fileCacheAdd (tree : FileCache) (filename key : CString) (size : UInt64) (ip : CString) (port : Int32) :
    Option FileCache :=
  match tree with
  | .empty =>
    match fileCacheNew filename key size ip port with
    | none => some .empty
    | some entry => some (.node entry .empty .empty)
  | .node entry left right =>
    -- the recursion of the source goes down by the pointer to the subtree
    match strcmp key entry.key with
    | .lt => (fileCacheAdd left filename key size ip port).map fun left => .node entry left right
    | .gt => (fileCacheAdd right filename key size ip port).map fun right => .node entry left right
    | .eq => do
      if ← registered entry.seeders ip port then return .node entry left right
      let entry ← addSeeder entry ip port
      return .node entry left right

def fileCacheGetByKey (tree : FileCache) (key : CString) : Option FileEntry :=
  match tree with
  | .empty => none
  | .node entry left right =>
    match strcmp key entry.key with
    | .eq => some entry
    | .lt => fileCacheGetByKey left key
    | .gt => fileCacheGetByKey right key

variable {tree tree' : FileCache} {entry entry' : FileEntry} {filename key ip : CString} {size : UInt64}
  {port : Int32}

/-! ### What adding does -/

theorem fileCacheNew_some :
    fileCacheNew filename key size ip port = some entry ↔
      filename.length ≤ fileNameSize ∧ key.length = fileKeySize ∧
        entry = ⟨filename, key, size, [⟨ip.take (fileIpSize + 1), port⟩]⟩ := by
  unfold fileCacheNew
  -- the two checks are made in this order, but neither changes anything
  by_cases long : filename.length > fileNameSize
  · simp [long, Nat.not_le.mpr long]
  · by_cases wrong : key.length ≠ fileKeySize
    · simp [long, wrong]
    · simp only [long, wrong, if_false]
      simp only [gt_iff_lt, Nat.not_lt] at long
      simp only [ne_eq, Decidable.not_not] at wrong
      simp [long, wrong, eq_comm]

theorem addSeeder_some (added : addSeeder entry ip port = some entry') :
    entry' = { entry with seeders := ⟨ip, port⟩ :: entry.seeders } := by
  unfold addSeeder at added
  split at added
  · cases added
  · exact (Option.some.inj added).symm

/-- At the node of the key itself only the list of seeders changes. -/
theorem fileCacheAdd_here {left right : FileCache} (here : strcmp key entry.key = .eq)
    (added : fileCacheAdd (.node entry left right) filename key size ip port = some tree') :
    ∃ seeders, tree' = .node { entry with seeders := seeders } left right := by
  simp only [fileCacheAdd, here] at added
  -- an unterminated address leaves nothing to say
  cases known : registered entry.seeders ip port with
  | none => simp [known] at added
  | some found =>
    cases found with
    | true =>
      refine ⟨entry.seeders, ?_⟩
      simpa [known, eq_comm] using added
    | false =>
      cases extended : addSeeder entry ip port with
      | none => simp [known, extended] at added
      | some entry' =>
        have shape := addSeeder_some extended
        subst shape
        refine ⟨⟨ip, port⟩ :: entry.seeders, ?_⟩
        simpa [known, extended, eq_comm] using added

/-- Every other key keeps its entry. -/
theorem getByKey_add_other {other : CString}
    (added : fileCacheAdd tree filename key size ip port = some tree') (differ : other ≠ key) :
    fileCacheGetByKey tree' other = fileCacheGetByKey tree other := by
  -- induction on the tree: the key takes one way, and the other key may take another
  induction tree generalizing tree' with
  | empty =>
    simp only [fileCacheAdd] at added
    cases new : fileCacheNew filename key size ip port with
    | none =>
      rw [new] at added
      cases added
      rfl
    | some entry =>
      -- the new leaf is compared with, and passed by
      rw [new] at added
      cases added
      have keyed : entry.key = key := by
        rw [(fileCacheNew_some.mp new).2.2]
      have passed : strcmp other entry.key ≠ .eq := by
        rw [keyed, Ne, strcmp_eq_iff]
        exact differ
      simp only [fileCacheGetByKey]
      split
      · exact absurd ‹_› passed
      · rfl
      · rfl
  | node entry left right ihLeft ihRight =>
    cases bias : strcmp key entry.key with
    | lt =>
      simp only [fileCacheAdd, bias, Option.map_eq_some_iff] at added
      obtain ⟨left', addedLeft, rfl⟩ := added
      simp only [fileCacheGetByKey, ihLeft addedLeft]
    | gt =>
      simp only [fileCacheAdd, bias, Option.map_eq_some_iff] at added
      obtain ⟨right', addedRight, rfl⟩ := added
      simp only [fileCacheGetByKey, ihRight addedRight]
    | eq =>
      obtain ⟨seeders, rfl⟩ := fileCacheAdd_here bias added
      -- the node that changes is that of the key itself
      have same : key = entry.key := (strcmp_eq_iff _ _).mp bias
      have passed : strcmp other entry.key ≠ .eq := by
        rw [← same, Ne, strcmp_eq_iff]
        exact differ
      simp only [fileCacheGetByKey]
      split
      · exact absurd ‹_› passed
      · rfl
      · rfl

/-- A key that is not in the cache yet gets the entry that `file_cache_new` makes. -/
theorem getByKey_add_new (added : fileCacheAdd tree filename key size ip port = some tree')
    (absent : fileCacheGetByKey tree key = none) :
    fileCacheGetByKey tree' key = fileCacheNew filename key size ip port := by
  induction tree generalizing tree' with
  | empty =>
    simp only [fileCacheAdd] at added
    cases new : fileCacheNew filename key size ip port with
    | none =>
      rw [new] at added
      cases added
      rfl
    | some entry =>
      rw [new] at added
      cases added
      have keyed : entry.key = key := by
        rw [(fileCacheNew_some.mp new).2.2]
      simp [fileCacheGetByKey, keyed, strcmp_self]
  | node entry left right ihLeft ihRight =>
    -- both functions compare alike, so they go the same way
    cases bias : strcmp key entry.key with
    | lt =>
      simp only [fileCacheAdd, bias, Option.map_eq_some_iff] at added
      obtain ⟨left', addedLeft, rfl⟩ := added
      simp only [fileCacheGetByKey, bias] at absent ⊢
      exact ihLeft addedLeft absent
    | gt =>
      simp only [fileCacheAdd, bias, Option.map_eq_some_iff] at added
      obtain ⟨right', addedRight, rfl⟩ := added
      simp only [fileCacheGetByKey, bias] at absent ⊢
      exact ihRight addedRight absent
    | eq => simp [fileCacheGetByKey, bias] at absent

/-- Adding a key that is not in the cache is always defined. -/
theorem fileCacheAdd_new (absent : fileCacheGetByKey tree key = none) (filename : CString) (size : UInt64)
    (ip : CString) (port : Int32) :
    ∃ tree', fileCacheAdd tree filename key size ip port = some tree' := by
  induction tree with
  | empty =>
    cases new : fileCacheNew filename key size ip port with
    | none => exact ⟨.empty, by simp [fileCacheAdd, new]⟩
    | some entry => exact ⟨.node entry .empty .empty, by simp [fileCacheAdd, new]⟩
  | node entry left right ihLeft ihRight =>
    cases bias : strcmp key entry.key with
    | lt =>
      simp only [fileCacheGetByKey, bias] at absent
      obtain ⟨left', added⟩ := ihLeft absent
      exact ⟨.node entry left' right, by simp [fileCacheAdd, bias, added]⟩
    | gt =>
      simp only [fileCacheGetByKey, bias] at absent
      obtain ⟨right', added⟩ := ihRight absent
      exact ⟨.node entry left right', by simp [fileCacheAdd, bias, added]⟩
    | eq => simp [fileCacheGetByKey, bias] at absent

/-- A key that is in the cache keeps its name and its size. -/
theorem getByKey_add_known (added : fileCacheAdd tree filename key size ip port = some tree')
    (known : fileCacheGetByKey tree key = some entry) :
    ∃ seeders, fileCacheGetByKey tree' key = some { entry with seeders := seeders } := by
  induction tree generalizing tree' with
  | empty => simp [fileCacheGetByKey] at known
  -- name and size are written by `file_cache_new` only
  | node top left right ihLeft ihRight =>
    cases bias : strcmp key top.key with
    | lt =>
      simp only [fileCacheAdd, bias, Option.map_eq_some_iff] at added
      obtain ⟨left', addedLeft, rfl⟩ := added
      simp only [fileCacheGetByKey, bias] at known ⊢
      exact ihLeft addedLeft known
    | gt =>
      simp only [fileCacheAdd, bias, Option.map_eq_some_iff] at added
      obtain ⟨right', addedRight, rfl⟩ := added
      simp only [fileCacheGetByKey, bias] at known ⊢
      exact ihRight addedRight known
    | eq =>
      obtain ⟨seeders, rfl⟩ := fileCacheAdd_here bias added
      simp only [fileCacheGetByKey, bias, Option.some.injEq] at known
      subst known
      exact ⟨seeders, by simp [fileCacheGetByKey, bias]⟩

theorem getByKey_key (found : fileCacheGetByKey tree key = some entry) : entry.key = key := by
  induction tree with
  | empty => simp [fileCacheGetByKey] at found
  | node top left right ihLeft ihRight =>
    -- the search ends at a node where `strcmp` returned 0
    cases bias : strcmp key top.key with
    | lt =>
      simp only [fileCacheGetByKey, bias] at found
      exact ihLeft found
    | gt =>
      simp only [fileCacheGetByKey, bias] at found
      exact ihRight found
    | eq =>
      simp only [fileCacheGetByKey, bias, Option.some.injEq] at found
      subst found
      exact ((strcmp_eq_iff _ _).mp bias).symm

end Pire2Pire
