import Pire2Pire.FileCache.Map

/-! The cache of announced files with the lock that each node has for its seeders: `file_cache_add` in trunk
(`trunk/daemon/file_cache.c`) and in the pooled branch, which differ in one `sem_post`.

Allocations and `sem_init` succeed. -/
namespace Pire2Pire.TrunkCache

open Library

/-- A tree with the value of the semaphore `seeders_lock` in every node. -/
inductive LockedCache where
  | empty
  | node (entry : FileEntry) (seedersLock : Nat) (left right : LockedCache)
deriving DecidableEq, Repr

/-- What a call comes to: the source does not define it, it waits in `sem_wait` for good, or it returns. -/
inductive Outcome (α : Type) where
  | undefined
  | blocks
  | returns (a : α)
deriving DecidableEq, Repr

def Outcome.map {α β : Type} (f : α → β) : Outcome α → Outcome β
  | .undefined => .undefined
  | .blocks => .blocks
  | .returns a => .returns (f a)

/-- `file_cache_add`. `leave` is what a call that finds the seeder registered makes of the value that `sem_wait`
left in the lock, before it returns. -/
def fileCacheAddWith (leave : Nat → Nat) (tree : LockedCache) (filename key : CString) (size : UInt64)
    (ip : CString) (port : Int32) : Outcome LockedCache :=
  match tree with
  | .empty =>
    match fileCacheNew filename key size ip port with
    | none => .returns .empty
    | some entry => .returns (.node entry 1 .empty .empty)
  | .node entry lock left right =>
    match strcmp key entry.key with
    | .lt => (fileCacheAddWith leave left filename key size ip port).map fun left => .node entry lock left right
    | .gt => (fileCacheAddWith leave right filename key size ip port).map fun right => .node entry lock left right
    | .eq =>
      match lock with
      | 0 => .blocks
      | lock + 1 =>
        match registered entry.seeders ip port with
        | none => .undefined
        | some true => .returns (.node entry (leave lock) left right)
        | some false =>
          -- the lock is given back, and taken once more around the new seeder
          match addSeeder entry ip port with
          | none => .undefined
          | some entry => .returns (.node entry (lock + 1) left right)

/-- Trunk: `return tree` inside the loop. -/
def fileCacheAdd : LockedCache → CString → CString → UInt64 → CString → Int32 → Outcome LockedCache :=
  fileCacheAddWith id

/-- The pooled branch: `sem_post` and then `return tree`. -/
def pooledFileCacheAdd : LockedCache → CString → CString → UInt64 → CString → Int32 → Outcome LockedCache :=
  fileCacheAddWith (· + 1)

namespace LockedCache

/-- The tree that callers see. -/
def erase : LockedCache → FileCache
  | empty => .empty
  | node entry _ left right => .node entry left.erase right.erase

/-- Nobody has a lock. -/
def Free : LockedCache → Prop
  | empty => True
  | node _ lock left right => lock = 1 ∧ left.Free ∧ right.Free

end LockedCache

/-- A call comes to the same in a tree with locks as in one without, and no lock is left taken. -/
def Matches : Option FileCache → Outcome LockedCache → Prop
  | none, .undefined => True
  | some tree, .returns t => t.erase = tree ∧ t.Free
  | _, _ => False

def addTo (t : LockedCache) (a : Announcement) : Outcome LockedCache :=
  fileCacheAdd t a.filename a.key a.size a.ip a.port

def pooledAddTo (t : LockedCache) (a : Announcement) : Outcome LockedCache :=
  pooledFileCacheAdd t a.filename a.key a.size a.ip a.port

/-- Calls of trunk's `file_cache_add` one after the other, until one does not return. -/
def addAll (t : LockedCache) : List Announcement → Outcome LockedCache
  | [] => .returns t
  | a :: calls =>
    match addTo t a with
    | .returns t => addAll t calls
    | stuck => stuck

/-- Trunk follows the pooled branch from the empty tree through every beginning of the calls. -/
def Agrees (calls : List Announcement) : Prop :=
  ∀ pre, pre <+: calls → Matches (exec Announcement.addTo .empty pre) (addAll .empty pre)

/-- The seeder of the call is not registered for its key. -/
def NewSeeder (tree : FileCache) (a : Announcement) : Prop :=
  ∀ entry, fileCacheGetByKey tree a.key = some entry → registered entry.seeders a.ip a.port ≠ some true

variable {t : LockedCache} {a : Announcement} {calls : List Announcement} {leave : Nat → Nat}

theorem erase_addWith_empty :
    Matches (a.addTo .empty) (fileCacheAddWith leave .empty a.filename a.key a.size a.ip a.port) := by
  simp only [Announcement.addTo, Pire2Pire.fileCacheAdd, fileCacheAddWith]
  cases fileCacheNew a.filename a.key a.size a.ip a.port with
  | none => exact ⟨rfl, trivial⟩
  | some entry => exact ⟨rfl, rfl, trivial, trivial⟩

/-- What is done with the result of the call for a subtree. -/
theorem Matches.map {r : Option FileCache} {o : Outcome LockedCache} {f : FileCache → FileCache}
    {g : LockedCache → LockedCache} (same : Matches r o)
    (keeps : ∀ t, t.Free → (g t).erase = f t.erase ∧ (g t).Free) : Matches (r.map f) (o.map g) := by
  cases r with
  | none =>
    cases o with
    | undefined => trivial
    | blocks => exact same.elim
    | returns t => exact same.elim
  | some tree =>
    cases o with
    | undefined => exact same.elim
    | blocks => exact same.elim
    | returns t =>
      obtain ⟨rfl, free⟩ := same
      exact keeps t free

/-- With free locks a call does what it does without locks, if it gives back the lock of a registered seeder or
need not. -/
theorem addWith_matches (free : t.Free) (spared : leave 0 = 1 ∨ NewSeeder t.erase a) :
    Matches (a.addTo t.erase) (fileCacheAddWith leave t a.filename a.key a.size a.ip a.port) := by
  induction t with
  | empty => exact erase_addWith_empty
  | node entry lock left right ihLeft ihRight =>
    obtain ⟨rfl, freeLeft, freeRight⟩ := free
    simp only [NewSeeder, LockedCache.erase, fileCacheGetByKey] at spared
    simp only [Announcement.addTo, LockedCache.erase, Pire2Pire.fileCacheAdd, fileCacheAddWith]
    cases bias : strcmp a.key entry.key with
    | lt =>
      simp only [bias] at spared
      exact (ihLeft freeLeft spared).map fun left' free' => ⟨rfl, rfl, free', freeRight⟩
    | gt =>
      simp only [bias] at spared
      exact (ihRight freeRight spared).map fun right' free' => ⟨rfl, rfl, freeLeft, free'⟩
    | eq =>
      -- the search through the seeders is the same, and so is what is added
      simp only [bias, Option.some.injEq, forall_eq'] at spared
      cases known : registered entry.seeders a.ip a.port with
      | none => trivial
      | some found =>
        cases found with
        | true =>
          have back : leave 0 = 1 := spared.resolve_right (fun new => new known)
          exact ⟨rfl, back, freeLeft, freeRight⟩
        | false =>
          cases extended : addSeeder entry a.ip a.port with
          | none => trivial
          | some entry' => exact ⟨rfl, rfl, freeLeft, freeRight⟩

/-- The pooled branch is the model without locks: they are free between calls. -/
theorem pooledAddTo_matches (free : t.Free) (a : Announcement) : Matches (a.addTo t.erase) (pooledAddTo t a) :=
  addWith_matches free (.inl rfl)

theorem addTo_matches (free : t.Free) (new : NewSeeder t.erase a) : Matches (a.addTo t.erase) (addTo t a) :=
  addWith_matches free (.inr new)

/-- A registered seeder leaves the tree as it was, but with a lock taken. -/
theorem addTo_registered (free : t.Free) (known : ¬NewSeeder t.erase a) :
    ∃ t', addTo t a = .returns t' ∧ t'.erase = t.erase ∧ ¬t'.Free := by
  induction t with
  | empty =>
    apply absurd _ known
    intro entry found
    cases found
  | node entry lock left right ihLeft ihRight =>
    obtain ⟨rfl, freeLeft, freeRight⟩ := free
    simp only [NewSeeder, LockedCache.erase, fileCacheGetByKey] at known
    simp only [addTo, fileCacheAdd, fileCacheAddWith]
    cases bias : strcmp a.key entry.key with
    | lt =>
      simp only [bias] at known
      obtain ⟨left', added, same, taken⟩ := ihLeft freeLeft known
      simp only [addTo, fileCacheAdd] at added
      simp only [added]
      exact ⟨_, rfl, by simp [LockedCache.erase, same], fun free => taken free.2.1⟩
    | gt =>
      simp only [bias] at known
      obtain ⟨right', added, same, taken⟩ := ihRight freeRight known
      simp only [addTo, fileCacheAdd] at added
      simp only [added]
      exact ⟨_, rfl, by simp [LockedCache.erase, same], fun free => taken free.2.2⟩
    | eq =>
      simp only [bias, Option.some.injEq, forall_eq', ne_eq, Decidable.not_not] at known
      simp only [known]
      exact ⟨_, rfl, rfl, fun free => absurd free.1 (by decide)⟩

/-- One call keeps to the pooled branch iff its seeder is new. -/
theorem addTo_matches_iff (free : t.Free) : Matches (a.addTo t.erase) (addTo t a) ↔ NewSeeder t.erase a := by
  constructor
  · intro same
    by_contra known
    obtain ⟨t', added, -, taken⟩ := addTo_registered free known
    rw [added] at same
    cases ran : a.addTo t.erase with
    | none => exact (ran ▸ same : Matches none (.returns t')).elim
    | some tree => exact taken (ran ▸ same : Matches (some tree) (.returns t')).2
  · exact addTo_matches free

/-- The same from any tree with free locks on. -/
theorem agrees_from_iff (free : t.Free) (calls : List Announcement) :
    (∀ pre, pre <+: calls → Matches (exec Announcement.addTo t.erase pre) (addAll t pre)) ↔
      Along Announcement.addTo NewSeeder t.erase calls := by
  induction calls generalizing t with
  | nil =>
    refine iff_of_true ?_ trivial
    intro pre isPrefix
    cases List.prefix_nil.mp isPrefix
    exact ⟨rfl, free⟩
  | cons a calls ih =>
    constructor
    · intro agrees
      -- the first call, and then the calls behind it in the tree that it leaves
      have first := agrees [a] (by simp)
      simp only [exec, addAll] at first
      have matched : Matches (a.addTo t.erase) (addTo t a) := by
        cases added : addTo t a <;> simpa [added] using first
      refine ⟨(addTo_matches_iff free).mp matched, ?_⟩
      intro tree ran
      rw [ran] at matched
      cases added : addTo t a with
      | undefined => exact (added ▸ matched).elim
      | blocks => exact (added ▸ matched).elim
      | returns t' =>
        rw [added] at matched
        obtain ⟨rfl, free'⟩ := matched
        apply (ih free').mp
        intro pre isPrefix
        simpa [exec, addAll, ran, added] using agrees (a :: pre) (by simpa using isPrefix)
    · rintro ⟨new, rest⟩ pre isPrefix
      have matched := addTo_matches free new
      rcases List.prefix_cons_iff.mp isPrefix with rfl | ⟨pre, rfl, behind⟩
      · exact ⟨rfl, free⟩
      -- where the pooled branch is undefined, so is trunk, and nothing follows
      cases ran : a.addTo t.erase with
      | none =>
        rw [ran] at matched
        cases added : addTo t a with
        | undefined => simp [exec, addAll, ran, added, Matches]
        | blocks => exact (added ▸ matched).elim
        | returns t' => exact (added ▸ matched).elim
      | some tree =>
        rw [ran] at matched
        cases added : addTo t a with
        | undefined => exact (added ▸ matched).elim
        | blocks => exact (added ▸ matched).elim
        | returns t' =>
          rw [added] at matched
          obtain ⟨rfl, free'⟩ := matched
          simpa [exec, addAll, ran, added] using (ih free').mpr (rest _ ran) pre behind

/-- Trunk never blocks, leaves no lock taken and builds the tree of the pooled branch iff no call announces a
seeder that is registered for its key already. -/
theorem trunk_agrees_iff (calls : List Announcement) :
    Agrees calls ↔ Along Announcement.addTo NewSeeder .empty calls :=
  agrees_from_iff (t := .empty) trivial calls

def song (port : Int32) : Announcement :=
  ⟨"song".toList, List.replicate 32 'a', 7, "10.0.0.1".toList, port⟩

/-- A peer announces a file twice, and then another peer of that host announces it. -/
theorem repeated_seeder_blocks :
    ¬Agrees [song 4242, song 4242] ∧
      addAll .empty [song 4242, song 4242, song 4243] = .blocks ∧
      (exec Announcement.addTo .empty [song 4242, song 4242, song 4243]).isSome := by
  refine ⟨?_, by decide +kernel, by decide +kernel⟩
  intro agrees
  obtain ⟨-, rest⟩ := (agrees_from_iff (t := .empty) trivial _).mp agrees
  -- the second call finds what the first one made
  have created : (song 4242).addTo .empty =
      some (.node ⟨"song".toList, List.replicate 32 'a', 7, [⟨"10.0.0.1".toList, 4242⟩]⟩ .empty .empty) := by
    decide +kernel
  exact (rest _ created).1 _ rfl (by decide +kernel)

end Pire2Pire.TrunkCache
