import Pire2Pire.FileCache
import Pire2Pire.Library.Runs
import Mathlib.Data.List.Nodup
import Mathlib.Logic.Function.Basic

/-! The cache as a map from keys to announcements, over every sequence of calls of `file_cache_add`. -/
namespace Pire2Pire

open Library

/-- The arguments of one call of `file_cache_add` behind the tree. -/
structure Announcement where
  filename : CString
  key : CString
  size : UInt64
  ip : CString
  port : Int32
deriving DecidableEq, Repr

namespace Announcement

def seeder (a : Announcement) : Seeder :=
  ⟨a.ip, a.port⟩

/-- `file_cache_new` accepts the name and the key. -/
def Creates (a : Announcement) : Prop :=
  a.filename.length ≤ fileNameSize ∧ a.key.length = fileKeySize

instance (a : Announcement) : Decidable a.Creates :=
  inferInstanceAs (Decidable (_ ∧ _))

def Fits (a : Announcement) : Prop :=
  a.ip.length ≤ fileIpSize

instance (a : Announcement) : Decidable a.Fits :=
  inferInstanceAs (Decidable (_ ≤ _))

def addTo (tree : FileCache) (a : Announcement) : Option FileCache :=
  fileCacheAdd tree a.filename a.key a.size a.ip a.port

def new (a : Announcement) : Option FileEntry :=
  fileCacheNew a.filename a.key a.size a.ip a.port

end Announcement

namespace FileCache

/-- The keys from left to right. -/
def keys : FileCache → List CString
  | empty => []
  | node entry left right => left.keys ++ entry.key :: right.keys

/-- A binary search tree in the order of `strcmp`. -/
def Ordered : FileCache → Prop
  | empty => True
  | node entry left right =>
    (∀ key ∈ left.keys, strcmp key entry.key = .lt) ∧ (∀ key ∈ right.keys, strcmp key entry.key = .gt) ∧
      left.Ordered ∧ right.Ordered

end FileCache

variable {tree tree' : FileCache} {entry : FileEntry} {a : Announcement} {key ip : CString} {port : Int32}

/-! ### The order of the tree -/

theorem keys_add (added : a.addTo tree = some tree') (member : key ∈ tree'.keys) :
    key = a.key ∨ key ∈ tree.keys := by
  unfold Announcement.addTo at added
  -- the way down is that of `strcmp`, so each case follows one branch
  induction tree generalizing tree' with
  | empty =>
    simp only [fileCacheAdd] at added
    -- the end of the way: a new node, or none
    cases new : fileCacheNew a.filename a.key a.size a.ip a.port with
    | none =>
      rw [new] at added
      cases added
      exact .inr member
    | some entry =>
      rw [new] at added
      cases added
      have keyed : entry.key = a.key := by
        rw [(fileCacheNew_some.mp new).2.2]
      left
      simpa [FileCache.keys, keyed] using member
  -- a key of the new tree comes from the branch that was taken or was there before
  | node entry left right ihLeft ihRight =>
    cases bias : strcmp a.key entry.key with
    | lt =>
      simp only [fileCacheAdd, bias, Option.map_eq_some_iff] at added
      obtain ⟨left', addedLeft, rfl⟩ := added
      simp only [FileCache.keys, List.mem_append] at member ⊢
      rcases member with inLeft | behind
      · rcases ihLeft addedLeft inLeft with own | old
        · exact .inl own
        · exact .inr (.inl old)
      · exact .inr (.inr behind)
    | gt =>
      simp only [fileCacheAdd, bias, Option.map_eq_some_iff] at added
      obtain ⟨right', addedRight, rfl⟩ := added
      simp only [FileCache.keys, List.mem_append, List.mem_cons] at member ⊢
      rcases member with inLeft | here | inRight
      · exact .inr (.inl inLeft)
      · exact .inr (.inr (.inl here))
      · rcases ihRight addedRight inRight with own | old
        · exact .inl own
        · exact .inr (.inr (.inr old))
    | eq =>
      -- only the seeders change, and keys do not see them
      obtain ⟨seeders, rfl⟩ := fileCacheAdd_here bias added
      exact .inr member

theorem ordered_add (ordered : tree.Ordered) (added : a.addTo tree = some tree') : tree'.Ordered := by
  induction tree generalizing tree' with
  | empty =>
    simp only [Announcement.addTo, fileCacheAdd] at added
    cases new : fileCacheNew a.filename a.key a.size a.ip a.port with
    | none =>
      rw [new] at added
      cases added
      exact ordered
    | some entry =>
      rw [new] at added
      cases added
      simp [FileCache.Ordered, FileCache.keys]
  | node entry left right ihLeft ihRight =>
    obtain ⟨below, above, orderedLeft, orderedRight⟩ := ordered
    cases bias : strcmp a.key entry.key with
    | lt =>
      simp only [Announcement.addTo, fileCacheAdd, bias, Option.map_eq_some_iff] at added
      obtain ⟨left', addedLeft, rfl⟩ := added
      -- the only new key on the left is the one that was compared
      have below' : ∀ key ∈ left'.keys, strcmp key entry.key = .lt := by
        intro key member
        rcases keys_add (a := a) addedLeft member with own | old
        · rw [own]
          exact bias
        · exact below key old
      exact ⟨below', above, ihLeft orderedLeft addedLeft, orderedRight⟩
    | gt =>
      simp only [Announcement.addTo, fileCacheAdd, bias, Option.map_eq_some_iff] at added
      obtain ⟨right', addedRight, rfl⟩ := added
      have above' : ∀ key ∈ right'.keys, strcmp key entry.key = .gt := by
        intro key member
        rcases keys_add (a := a) addedRight member with own | old
        · rw [own]
          exact bias
        · exact above key old
      exact ⟨below, above', orderedLeft, ihRight orderedRight addedRight⟩
    | eq =>
      obtain ⟨seeders, rfl⟩ := fileCacheAdd_here bias added
      exact ⟨below, above, orderedLeft, orderedRight⟩

theorem keys_nodup (ordered : tree.Ordered) : tree.keys.Nodup := by
  induction tree with
  | empty => exact List.nodup_nil
  | node entry left right ihLeft ihRight =>
    obtain ⟨below, above, orderedLeft, orderedRight⟩ := ordered
    -- a key cannot be less than itself
    have notRight : entry.key ∉ right.keys := by
      intro member
      have greater := above _ member
      rw [strcmp_self] at greater
      cases greater
    refine List.nodup_append.mpr ⟨ihLeft orderedLeft, List.nodup_cons.mpr ⟨notRight, ihRight orderedRight⟩, ?_⟩
    intro key inLeft other behind same
    subst same
    -- nor can it be on both sides
    have less := below key inLeft
    rcases List.mem_cons.mp behind with here | inRight
    · rw [here, strcmp_self] at less
      cases less
    · rw [above key inRight] at less
      cases less

/-! ### The seeders of one key -/

/-- With terminated addresses the search is a test for membership. -/
theorem registered_eq {seeders : List Seeder} (terminated : ∀ s ∈ seeders, s.ip.length ≤ fileIpSize) :
    registered seeders ip port = some (decide (⟨ip, port⟩ ∈ seeders)) := by
  induction seeders with
  | nil => rfl
  | cons s seeders ih =>
    have compared : s.is ip port = some (decide (s.ip = ip ∧ s.port = port)) := by
      -- `strcmp` stays inside the array
      have fits : ¬ s.ip.length > fileIpSize := Nat.not_lt.mpr (terminated s List.mem_cons_self)
      simp [Seeder.is, fits]
    have rest := ih fun s member => terminated s (List.mem_cons_of_mem _ member)
    by_cases here : s.ip = ip ∧ s.port = port
    · obtain ⟨rfl, rfl⟩ := here
      simp [registered, compared]
    · have differ : (⟨ip, port⟩ : Seeder) ≠ s := by
        rintro rfl
        exact here ⟨rfl, rfl⟩
      simp only [registered, compared, here, decide_false, Option.bind_eq_bind, Option.bind_some,
        Bool.false_eq_true, if_false, rest, List.mem_cons, differ, false_or]

/-- A known key gets the seeder unless it has it. -/
theorem getByKey_add_seeder (known : fileCacheGetByKey tree a.key = some entry)
    (terminated : ∀ s ∈ entry.seeders, s.ip.length ≤ fileIpSize) (fits : a.Fits) :
    ∃ tree', a.addTo tree = some tree' ∧
      fileCacheGetByKey tree' a.key = some { entry with seeders := entry.seeders.insert a.seeder } := by
  unfold Announcement.addTo
  induction tree with
  | empty => simp [fileCacheGetByKey] at known
  -- the node is found on the way that `file_cache_get_by_key` goes
  | node top left right ihLeft ihRight =>
    cases bias : strcmp a.key top.key with
    | lt =>
      simp only [fileCacheGetByKey, bias] at known
      obtain ⟨left', added, found⟩ := ihLeft known
      exact ⟨.node top left' right, by simp [fileCacheAdd, bias, added], by simp [fileCacheGetByKey, bias, found]⟩
    | gt =>
      simp only [fileCacheGetByKey, bias] at known
      obtain ⟨right', added, found⟩ := ihRight known
      exact ⟨.node top left right', by simp [fileCacheAdd, bias, added], by simp [fileCacheGetByKey, bias, found]⟩
    | eq =>
      simp only [fileCacheGetByKey, bias, Option.some.injEq] at known
      subst known
      have search : registered top.seeders a.ip a.port = some (decide (a.seeder ∈ top.seeders)) :=
        registered_eq terminated
      have extended : addSeeder top a.ip a.port = some { top with seeders := a.seeder :: top.seeders } := by
        have short : ¬ a.ip.length > fileIpSize := Nat.not_lt.mpr fits
        simp [addSeeder, short, Announcement.seeder]
      -- `is_registered` keeps the same seeder from being added twice
      by_cases member : a.seeder ∈ top.seeders
      · refine ⟨.node top left right, by simp [fileCacheAdd, bias, search, member], ?_⟩
        simp [fileCacheGetByKey, bias, member]
      · refine ⟨.node { top with seeders := a.seeder :: top.seeders } left right, ?_, ?_⟩
        · simp [fileCacheAdd, bias, search, member, extended]
        · simp [fileCacheGetByKey, bias, member]

/-! ### The map that the tree stands for -/

/-- Under each key the announcements that count, oldest first. -/
abbrev Announced := CString → List Announcement

/-- The first announcement of a key has to pass `file_cache_new`; the later ones are not looked at. -/
def Announced.accept (announced : Announced) (a : Announcement) : Announced :=
  -- a refused announcement leaves no trace
  if announced a.key = [] ∧ ¬ a.Creates then announced
  else Function.update announced a.key (announced a.key ++ [a])

/-- The entry of a key that was announced like this. -/
structure Announces (entry : FileEntry) (calls : List Announcement) : Prop where
  first : ∃ first later, calls = first :: later ∧ entry.filename = first.filename ∧ entry.size = first.size
  seeders : ∀ s, s ∈ entry.seeders ↔ ∃ a ∈ calls, a.seeder = s

structure Describes (entry : FileEntry) (calls : List Announcement) : Prop extends Announces entry calls where
  distinct : entry.seeders.Nodup

structure Represents (tree : FileCache) (announced : Announced) : Prop where
  ordered : tree.Ordered
  fit : ∀ key, ∀ a ∈ announced key, a.Fits
  absent : ∀ key, fileCacheGetByKey tree key = none ↔ announced key = []
  entries : ∀ key entry, fileCacheGetByKey tree key = some entry → Describes entry (announced key)

variable {announced : Announced} {calls : List Announcement}

theorem Announced.accept_other (differ : key ≠ a.key) : announced.accept a key = announced key := by
  unfold accept
  split
  · rfl
  · exact Function.update_of_ne differ _ _

theorem Announced.accept_known (known : announced a.key ≠ []) :
    announced.accept a a.key = announced a.key ++ [a] := by
  simp [accept, known]

theorem Announced.accept_new (fresh : announced a.key = []) :
    announced.accept a a.key = if a.Creates then [a] else [] := by
  by_cases creates : a.Creates <;> simp [accept, fresh, creates]

theorem new_eq (fits : a.Fits) :
    a.new = if a.Creates then some ⟨a.filename, a.key, a.size, [a.seeder]⟩ else none := by
  -- `strncpy` takes the whole address
  have whole : a.ip.take (fileIpSize + 1) = a.ip := List.take_of_length_le (Nat.le_succ_of_le fits)
  by_cases creates : a.Creates
  · rw [if_pos creates]
    apply fileCacheNew_some.mpr
    exact ⟨creates.1, creates.2, by rw [whole, Announcement.seeder]⟩
  · rw [if_neg creates, Option.eq_none_iff_forall_ne_some]
    intro entry made
    obtain ⟨short, exact, -⟩ := fileCacheNew_some.mp made
    exact creates ⟨short, exact⟩

theorem announces_new : Announces ⟨a.filename, a.key, a.size, [a.seeder]⟩ [a] where
  first := ⟨a, [], rfl, rfl, rfl⟩
  seeders := by
    intro s
    simp [eq_comm]

theorem announces_seeder {seeders : List Seeder} (announces : Announces entry calls)
    (members : ∀ s, s ∈ seeders ↔ s = a.seeder ∨ s ∈ entry.seeders) :
    Announces { entry with seeders := seeders } (calls ++ [a]) where
  first := by
    obtain ⟨first, later, rfl, name, size⟩ := announces.first
    exact ⟨first, later ++ [a], rfl, name, size⟩
  seeders := by
    intro s
    simp only [members, announces.seeders, List.mem_append, List.mem_singleton]
    constructor
    -- the seeders are those of the earlier calls and the new one
    · rintro (rfl | ⟨b, member, same⟩)
      · exact ⟨a, .inr rfl, rfl⟩
      · exact ⟨b, .inl member, same⟩
    · rintro ⟨b, member | rfl, same⟩
      · exact .inr ⟨b, member, same⟩
      · exact .inl same.symm

/-- At its own key an announcement has the effect that the map says. -/
theorem addTo_own (represents : Represents tree announced) (fits : a.Fits) :
    ∃ tree', a.addTo tree = some tree' ∧
      (fileCacheGetByKey tree' a.key = none ↔ announced.accept a a.key = []) ∧
      ∀ entry, fileCacheGetByKey tree' a.key = some entry → Describes entry (announced.accept a a.key) := by
  cases found : fileCacheGetByKey tree a.key with
  | none =>
    -- no node yet: the announcement creates one or is refused
    have fresh := (represents.absent a.key).mp found
    obtain ⟨tree', added⟩ := fileCacheAdd_new found a.filename a.size a.ip a.port
    have own : fileCacheGetByKey tree' a.key = a.new := getByKey_add_new added found
    refine ⟨tree', added, ?_⟩
    rw [own, new_eq fits, Announced.accept_new fresh]
    by_cases creates : a.Creates
    · simp only [creates, if_true, reduceCtorEq, List.cons_ne_self, Option.some.injEq, true_and]
      rintro entry rfl
      exact ⟨announces_new, List.nodup_singleton _⟩
    · simp [creates]
  | some entry =>
    -- the node is there, and its name and size stay
    have describes := represents.entries a.key entry found
    have known : announced a.key ≠ [] := by
      rw [Ne, ← represents.absent, found]
      exact Option.some_ne_none entry
    have terminated : ∀ s ∈ entry.seeders, s.ip.length ≤ fileIpSize := by
      intro s member
      obtain ⟨b, counted, rfl⟩ := (describes.seeders s).mp member
      exact represents.fit a.key b counted
    obtain ⟨tree', added, own⟩ := getByKey_add_seeder found terminated fits
    refine ⟨tree', added, ?_⟩
    rw [own, Announced.accept_known known]
    simp only [reduceCtorEq, List.append_eq_nil_iff, List.cons_ne_self, and_false, Option.some.injEq, true_and]
    rintro entry' rfl
    exact ⟨announces_seeder describes.toAnnounces fun s => List.mem_insert_iff, describes.distinct.insert⟩

theorem represents_addTo (represents : Represents tree announced) (fits : a.Fits) :
    ∃ tree', a.addTo tree = some tree' ∧ Represents tree' (announced.accept a) := by
  obtain ⟨tree', added, absent, entries⟩ := addTo_own represents fits
  -- no other key is affected
  have elsewhere : ∀ key, key ≠ a.key → fileCacheGetByKey tree' key = fileCacheGetByKey tree key :=
    fun key differ => getByKey_add_other added differ
  refine ⟨tree', added, ordered_add represents.ordered added, ?_, ?_, ?_⟩
  -- an address that fits has been copied with its NUL
  · intro key b counted
    unfold Announced.accept at counted
    split at counted
    · exact represents.fit key b counted
    · by_cases own : key = a.key
      · subst own
        rw [Function.update_self, List.mem_append, List.mem_singleton] at counted
        rcases counted with old | rfl
        · exact represents.fit _ b old
        · exact fits
      · rw [Function.update_of_ne own] at counted
        exact represents.fit key b counted
  · intro key
    by_cases own : key = a.key
    · rw [own]
      exact absent
    · rw [elsewhere key own, Announced.accept_other own]
      exact represents.absent key
  · intro key entry found
    by_cases own : key = a.key
    · rw [own] at found ⊢
      exact entries entry found
    · rw [elsewhere key own] at found
      rw [Announced.accept_other own]
      exact represents.entries key entry found

theorem represents_empty : Represents .empty fun _ => [] where
  ordered := trivial
  fit := by simp
  absent := by simp [fileCacheGetByKey]
  entries := by simp [fileCacheGetByKey]

/-- Every sequence of calls follows the map. -/
theorem addTo_refines (fit : ∀ a ∈ calls, a.Fits) :
    Refines Announcement.addTo Announced.accept Represents .empty (fun _ => []) calls :=
  refines_of_simulation (fun _ a => a.Fits) (fun _ _ _ => represents_addTo) represents_empty (along_of_forall fit)

/-! ### The map after a sequence of calls -/

theorem accept_known_fold (known : announced key ≠ []) :
    calls.foldl Announced.accept announced key = announced key ++ calls.filter (·.key = key) := by
  induction calls generalizing announced with
  | nil => simp
  | cons a calls ih =>
    -- later calls for the key only add to the list
    by_cases own : a.key = key
    · subst own
      have next : announced.accept a a.key = announced a.key ++ [a] := Announced.accept_known known
      rw [List.foldl_cons, ih (by simp [next]), next]
      simp
    · have next : announced.accept a key = announced key := Announced.accept_other (Ne.symm own)
      rw [List.foldl_cons, ih (by rw [next]; exact known), next]
      simp [own]

/-- What counts under a key starts with the first call that could create its node. -/
theorem accept_fold_cases (calls : List Announcement) (announced : Announced) (key : CString)
    (fresh : announced key = []) :
    calls.foldl Announced.accept announced key = [] ∧ (∀ a ∈ calls, a.key = key → ¬ a.Creates) ∨
    ∃ before first later, calls = before ++ first :: later ∧ (∀ a ∈ before, a.key = key → ¬ a.Creates) ∧
      first.key = key ∧ first.Creates ∧
      calls.foldl Announced.accept announced key = first :: later.filter (·.key = key) := by
  induction calls generalizing announced with
  | nil => exact .inl ⟨fresh, by simp⟩
  | cons a calls ih =>
    -- the first call that can create the node does, and those before it leave no trace
    by_cases counts : a.key = key ∧ a.Creates
    · obtain ⟨rfl, creates⟩ := counts
      have next : announced.accept a a.key = [a] := by
        rw [Announced.accept_new fresh, if_pos creates]
      refine .inr ⟨[], a, calls, rfl, by simp, rfl, creates, ?_⟩
      rw [List.foldl_cons, accept_known_fold (by simp [next]), next]
      rfl
    · have skipped : a.key = key → ¬ a.Creates := fun own creates => counts ⟨own, creates⟩
      have next : announced.accept a key = [] := by
        by_cases own : a.key = key
        · subst own
          rw [Announced.accept_new fresh, if_neg (skipped rfl)]
        · rw [Announced.accept_other (Ne.symm own), fresh]
      rcases ih (announced.accept a) next with ⟨none, all⟩ | ⟨before, first, later, rfl, earlier, own, creates, counted⟩
      · exact .inl ⟨none, List.forall_mem_cons.mpr ⟨skipped, all⟩⟩
      · exact .inr ⟨a :: before, first, later, rfl, List.forall_mem_cons.mpr ⟨skipped, earlier⟩, own, creates,
          counted⟩

/-- A call that `file_cache_new` rejects leaves the tree as it is. -/
theorem addTo_rejected (reached : fileCacheGetByKey tree a.key = none) (rejected : a.new = none) :
    a.addTo tree = some tree := by
  unfold Announcement.addTo
  induction tree with
  | empty =>
    unfold Announcement.new at rejected
    simp [fileCacheAdd, rejected]
  | node entry left right ihLeft ihRight =>
    -- with no node for the key the way ends at an empty tree
    cases bias : strcmp a.key entry.key with
    | lt =>
      simp only [fileCacheGetByKey, bias] at reached
      simp [fileCacheAdd, bias, ihLeft reached]
    | gt =>
      simp only [fileCacheGetByKey, bias] at reached
      simp [fileCacheAdd, bias, ihRight reached]
    | eq => simp [fileCacheGetByKey, bias] at reached

/-- Calls of `file_cache_add` one after the other, from the empty tree on. -/
theorem fileCacheAdd_is_map (calls : List Announcement) (fit : ∀ a ∈ calls, a.Fits) :
    ∃ tree, exec Announcement.addTo .empty calls = some tree ∧ tree.Ordered ∧ tree.keys.Nodup ∧
      (∀ key, fileCacheGetByKey tree key ≠ none ↔ ∃ a ∈ calls, a.key = key ∧ a.Creates) ∧
      (∀ key entry, fileCacheGetByKey tree key = some entry →
        ∃ before first later, calls = before ++ first :: later ∧
          (∀ a ∈ before, a.key = key → ¬ a.Creates) ∧ first.key = key ∧ first.Creates ∧
          entry.filename = first.filename ∧ entry.size = first.size ∧ entry.seeders.Nodup ∧
          ∀ s, s ∈ entry.seeders ↔ ∃ a ∈ first :: later, a.key = key ∧ a.seeder = s) ∧
      ∀ a : Announcement, fileCacheGetByKey tree a.key = none → a.new = none → a.addTo tree = some tree := by
  obtain ⟨tree, ran, represents⟩ := addTo_refines fit calls List.prefix_rfl
  refine ⟨tree, ran, represents.ordered, keys_nodup represents.ordered, ?_, ?_, fun a => addTo_rejected⟩
  -- a node is there just when some call could create it
  · intro key
    rw [Ne, represents.absent]
    rcases accept_fold_cases calls (fun _ => []) key rfl with
      ⟨counted, all⟩ | ⟨before, first, later, shape, -, own, creates, counted⟩
    · rw [counted]
      simp only [not_true_eq_false, false_iff]
      rintro ⟨a, member, own, creates⟩
      exact all a member own creates
    · rw [counted]
      simp only [reduceCtorEq, not_false_eq_true, true_iff]
      exact ⟨first, by simp [shape], own, creates⟩
  -- and it has the data of the first such call and the seeders of all from there on
  · intro key entry found
    have describes := represents.entries key entry found
    rcases accept_fold_cases calls (fun _ => []) key rfl with
      ⟨counted, -⟩ | ⟨before, first, later, shape, earlier, own, creates, counted⟩
    · rw [(represents.absent key).mpr counted] at found
      cases found
    · rw [counted] at describes
      obtain ⟨first', later', same, name, size⟩ := describes.first
      cases same
      refine ⟨before, first, later, shape, earlier, own, creates, name, size, describes.distinct, ?_⟩
      intro s
      rw [describes.seeders]
      simp only [List.mem_cons, List.mem_filter, decide_eq_true_eq]
      constructor
      · rintro ⟨a, rfl | ⟨member, keyed⟩, same⟩
        · exact ⟨a, .inl rfl, own, same⟩
        · exact ⟨a, .inr member, keyed, same⟩
      · rintro ⟨a, rfl | member, keyed, same⟩
        · exact ⟨a, .inl rfl, same⟩
        · exact ⟨a, .inr ⟨member, keyed⟩, same⟩

/-- Two seeders of one file; the second announcement has a name that would be refused. -/
theorem fileCacheAdd_is_map_two :
    let first : Announcement := ⟨"song".toList, List.replicate 32 'a', 3, "10.0.0.1".toList, 4242⟩
    let second : Announcement := ⟨List.replicate 300 'b', List.replicate 32 'a', 5, "10.0.0.2".toList, 4242⟩
    ∃ tree, exec Announcement.addTo .empty [first, second] = some tree ∧
      fileCacheGetByKey tree (List.replicate 32 'a') ≠ none := by
  intro first second
  obtain ⟨tree, ran, -, -, found, -⟩ := fileCacheAdd_is_map [first, second] (by decide)
  exact ⟨tree, ran, (found _).mpr ⟨first, by simp, rfl, by decide⟩⟩

end Pire2Pire
