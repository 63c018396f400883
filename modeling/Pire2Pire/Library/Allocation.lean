import Mathlib.Data.List.Perm.Basic

/-! Who has to free what: a record of the blocks that were allocated and freed. -/
namespace Pire2Pire.Library

/-- Blocks are named by their number in the order of allocation. -/
structure Ledger where
  allocations : Nat
  frees : List Nat
deriving DecidableEq, Repr

def Ledger.empty : Ledger := ⟨0, []⟩

/-- The block that `malloc` returns next. -/
def Ledger.next (m : Ledger) : Nat := m.allocations

def Ledger.malloc (m : Ledger) : Ledger := { m with allocations := m.allocations + 1 }

def Ledger.free (m : Ledger) (b : Nat) : Ledger := { m with frees := b :: m.frees }

def Ledger.freeAll (m : Ledger) (bs : List Nat) : Ledger := bs.foldl Ledger.free m

/-- The blocks of `owned` are exactly those still to be freed, each of them once. Every other block that was allocated
has been freed exactly once, and nothing else has been freed. -/
def Ledger.Owns (m : Ledger) (owned : List Nat) : Prop :=
  (m.frees ++ owned).Perm (List.range m.allocations)

variable {m : Ledger} {b : Nat} {owned owned' bs : List Nat}

theorem Ledger.freeAll_append (m : Ledger) (first second : List Nat) :
    m.freeAll (first ++ second) = (m.freeAll first).freeAll second :=
  List.foldl_append

theorem Ledger.freeAll_allocations (m : Ledger) (bs : List Nat) : (m.freeAll bs).allocations = m.allocations := by
  induction bs generalizing m with
  | nil => rfl
  | cons b bs ih => exact ih (m.free b)

theorem owns_empty : Ledger.empty.Owns [] :=
  List.Perm.refl _

theorem Ledger.Owns.perm (owns : m.Owns owned) (same : owned'.Perm owned) : m.Owns owned' :=
  (same.append_left m.frees).trans owns

theorem Ledger.Owns.malloc (owns : m.Owns owned) : m.malloc.Owns (m.next :: owned) := by
  unfold Ledger.Owns Ledger.malloc Ledger.next
  rw [List.range_succ]
  -- the new block is the last of the range
  have moved : (m.frees ++ m.allocations :: owned).Perm (m.allocations :: (m.frees ++ owned)) := List.perm_middle
  exact (moved.trans (owns.cons _)).trans (List.perm_append_singleton ..).symm

theorem Ledger.Owns.free (owns : m.Owns (b :: owned)) : (m.free b).Owns owned :=
  List.perm_middle.symm.trans owns

theorem Ledger.Owns.freeAll (owns : m.Owns (bs ++ owned)) : (m.freeAll bs).Owns owned := by
  induction bs generalizing m with
  | nil => exact owns
  | cons b bs ih => exact ih owns.free

end Pire2Pire.Library
