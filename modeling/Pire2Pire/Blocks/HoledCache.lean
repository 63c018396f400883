import Pire2Pire.FileCache
import Pire2Pire.HoleMap

/-! The cache of the block_by_block branch (`file_cache.c`), whose entries have a map of the bytes that are missing, and
what is in the map of a new entry. -/
namespace Pire2Pire.HoledCache

open Library HoleMap

structure HoledEntry extends FileEntry where
  holeMap : Ptr
deriving DecidableEq, Repr

inductive Cache where
  | empty
  | node (entry : HoledEntry) (left right : Cache)
deriving DecidableEq, Repr

/-- The conversion of an `unsigned long` that a call of `hole_map_new` makes. -/
def toInt (n : UInt64) : Int :=
  n.toUInt32.toInt32.toInt

/-- As in the other branches, with the map; `a` is the address malloc returns for its first node. -/
def fileCacheNew (h : Heap Hole) (a : Nat) (filename key : CString) (size : UInt64) (ip : CString) (port : Int32) :
    Option (Heap Hole × HoledEntry) :=
  (Pire2Pire.fileCacheNew filename key size ip port).map fun entry =>
    (holeMapNew h a 0 (toInt (size - 1)), ⟨entry, some a⟩)

/-- No result where the source's behaviour is undefined. -/
def fileCacheAdd (h : Heap Hole) (a : Nat) (tree : Cache) (filename key : CString) (size : UInt64) (ip : CString)
    (port : Int32) : Option (Heap Hole × Cache) :=
  match tree with
  | .empty =>
    match fileCacheNew h a filename key size ip port with
    | none => some (h, .empty)
    | some (h, entry) => some (h, .node entry .empty .empty)
  | .node entry left right =>
    match strcmp key entry.key with
    | .lt => (fileCacheAdd h a left filename key size ip port).map fun (h, left) => (h, .node entry left right)
    | .gt => (fileCacheAdd h a right filename key size ip port).map fun (h, right) => (h, .node entry left right)
    | .eq => do
      if ← registered entry.seeders ip port then return (h, .node entry left right)
      let added ← addSeeder entry.toFileEntry ip port
      return (h, .node ⟨added, entry.holeMap⟩ left right)

def fileCacheGetByKey (tree : Cache) (key : CString) : Option HoledEntry :=
  match tree with
  | .empty => none
  | .node entry left right =>
    match strcmp key entry.key with
    | .eq => some entry
    | .lt => fileCacheGetByKey left key
    | .gt => fileCacheGetByKey right key

/-- The map has all bytes of a file of this size in it, and is NULL iff there are none. -/
def AllMissing (h : Heap Hole) (map : Ptr) (size : UInt64) : Prop :=
  ∃ cells, Chain Hole.next h map cells ∧ covered (spans cells) = Set.Ico 0 (size.toNat : Int) ∧
    (map = none ↔ size = 0)

variable {h h' : Heap Hole} {a : Nat} {tree tree' : Cache} {filename key ip : CString} {size : UInt64}
  {port : Int32} {entry : HoledEntry}

/-- A new entry has a map with one node, which is the one allocated. -/
theorem fileCacheAdd_creates (absent : fileCacheGetByKey tree key = none)
    (added : fileCacheAdd h a tree filename key size ip port = some (h', tree'))
    (created : fileCacheGetByKey tree' key = some entry) :
    h' = holeMapNew h a 0 (toInt (size - 1)) ∧ entry.holeMap = some a := by
  induction tree generalizing tree' with
  | empty =>
    rw [fileCacheAdd, fileCacheNew] at added
    cases new : Pire2Pire.fileCacheNew filename key size ip port with
    | none =>
      rw [new] at added
      cases added
      cases created
    | some plain =>
      rw [new] at added
      cases added
      have same : key = plain.key := by
        rw [(fileCacheNew_some.mp new).2.2]
      rw [fileCacheGetByKey, same, strcmp_self] at created
      cases created
      exact ⟨rfl, rfl⟩
  | node here left right ihLeft ihRight =>
    rw [fileCacheGetByKey] at absent
    rw [fileCacheAdd] at added
    -- the key takes the same way down as before
    cases way : strcmp key here.key with
    | eq => simp [way] at absent
    | lt =>
      simp only [way] at absent added
      obtain ⟨⟨_, left'⟩, below, same⟩ := Option.map_eq_some_iff.mp added
      cases same
      rw [fileCacheGetByKey, way] at created
      exact ihLeft absent below created
    | gt =>
      simp only [way] at absent added
      obtain ⟨⟨_, right'⟩, below, same⟩ := Option.map_eq_some_iff.mp added
      cases same
      rw [fileCacheGetByKey, way] at created
      exact ihRight absent below created

/-! ### The conversion -/

theorem toInt_eq_bmod (n : UInt64) : toInt n = (n.toNat : Int).bmod (2 ^ 32) := by
  have unsigned : n.toUInt32.toInt32.toInt = n.toUInt32.toBitVec.toInt := rfl
  rw [toInt, unsigned, BitVec.toInt_eq_toNat_bmod, UInt32.toNat_toBitVec, UInt64.toNat_toUInt32, Int.natCast_mod]
  exact Int.emod_bmod _ _

theorem toInt_small {n : UInt64} (small : n.toNat < 2 ^ 31) : toInt n = n.toNat := by
  rw [toInt_eq_bmod]
  exact Int.bmod_eq_of_le (by omega) (by omega)

theorem toInt_lt (n : UInt64) : toInt n < 2 ^ 31 :=
  n.toUInt32.toInt32.toInt_lt

/-! ### The map -/

theorem toNat_pred (positive : size ≠ 0) : (size - 1).toNat + 1 = size.toNat := by
  have some_ : size.toNat ≠ 0 := fun zero => positive (UInt64.toNat_inj.mp zero)
  have one : (1 : UInt64) ≤ size := by
    rw [UInt64.le_iff_toNat_le]
    exact Nat.one_le_iff_ne_zero.mpr some_
  rw [UInt64.toNat_sub_of_le _ _ one]
  have unit : (1 : UInt64).toNat = 1 := rfl
  omega

theorem covered_single (a : Nat) (e : Int) : covered (spans [(a, ⟨0, e, none⟩)]) = Set.Icc 0 e := by
  rw [spans, List.map_cons, List.map_nil, covered_cons, covered_nil, Set.union_empty]

/-- The first map is right iff the last byte has an `int` for its number, and there is a last byte. -/
theorem allMissing_new_iff (h : Heap Hole) (a : Nat) (size : UInt64) :
    AllMissing (holeMapNew h a 0 (toInt (size - 1))) (some a) size ↔ 1 ≤ size.toNat ∧ size.toNat ≤ 2 ^ 31 := by
  have chain : Chain Hole.next (holeMapNew h a 0 (toInt (size - 1))) (some a) [(a, ⟨0, toInt (size - 1), none⟩)] :=
    ⟨rfl, Heap.set_here _ _ _, rfl⟩
  constructor
  · rintro ⟨cells, chain', missing, null⟩
    have positive : size ≠ 0 := fun zero => Option.some_ne_none a (null.mpr zero)
    have before := toNat_pred positive
    rw [chain_unique chain' chain, covered_single] at missing
    -- the last byte is missing, so its number is not above that of an `int`
    have last : ((size - 1).toNat : Int) ∈ Set.Icc 0 (toInt (size - 1)) := by
      rw [missing]
      constructor <;> omega
    have bound := toInt_lt (size - 1)
    have upper := last.2
    omega
  · rintro ⟨some_, small⟩
    have positive : size ≠ 0 := by
      rintro rfl
      exact absurd some_ (by decide)
    have before := toNat_pred positive
    refine ⟨_, chain, ?_, ?_⟩
    · rw [covered_single, toInt_small (by omega)]
      ext b
      simp only [Set.mem_Icc, Set.mem_Ico]
      omega
    · simp [positive]

/-- The map of a new entry has all bytes of the file in it, and is NULL only if there are none, iff the size is between
1 and 2^31. -/
theorem initial_map_iff (absent : fileCacheGetByKey tree key = none)
    (added : fileCacheAdd h a tree filename key size ip port = some (h', tree'))
    (created : fileCacheGetByKey tree' key = some entry) :
    AllMissing h' entry.holeMap size ↔ 1 ≤ size.toNat ∧ size.toNat ≤ 2 ^ 31 := by
  obtain ⟨rfl, map⟩ := fileCacheAdd_creates absent added created
  rw [map]
  exact allMissing_new_iff h a size

/-- An entry of the cache, for a file of this size. -/
def songEntry (size : UInt64) : HoledEntry :=
  ⟨⟨"song".toList, List.replicate 32 '0', size, [⟨"10.0.0.1".toList, 7331⟩]⟩, some 0⟩

theorem song_added (size : UInt64) :
    fileCacheAdd (fun _ => none) 0 .empty "song".toList (List.replicate 32 '0') size "10.0.0.1".toList 7331 =
      some (holeMapNew (fun _ => none) 0 0 (toInt (size - 1)), .node (songEntry size) .empty .empty) := by
  rfl

theorem song_missing : AllMissing (holeMapNew (fun _ => none) 0 0 (toInt (7 - 1))) (songEntry 7).holeMap 7 :=
  (initial_map_iff rfl (song_added 7) rfl).mpr (by decide)

/-- An empty file gets a map that is not NULL. -/
theorem empty_file_incomplete :
    ¬ ∀ (h h' : Heap Hole) (a : Nat) (tree tree' : Cache) (filename key ip : CString) (size : UInt64) (port : Int32)
      (entry : HoledEntry), fileCacheGetByKey tree key = none →
      fileCacheAdd h a tree filename key size ip port = some (h', tree') →
      fileCacheGetByKey tree' key = some entry → AllMissing h' entry.holeMap size := by
  intro right
  obtain ⟨-, -, -, null⟩ := right _ _ _ .empty _ _ (List.replicate 32 '0') _ _ _ _ rfl (song_added 0) rfl
  exact Option.some_ne_none 0 (null.mpr rfl)

end Pire2Pire.HoledCache
