import Mathlib.Algebra.Order.Ring.Int
import Mathlib.Data.List.ReduceOption

/-! Copying a stream through a buffer, chunk by chunk, where every write takes as much of its bytes as it likes: what
comes of it if all the writes of a chunk start at the front of the buffer. -/
namespace Pire2Pire.Library

variable {α : Type}

/-! ### One chunk -/

/-- Writes that each take so many bytes from the front of the buffer. -/
def fronts (buffer : List α) (counts : List Nat) : List α :=
  counts.flatMap buffer.take

/-- Each write takes what is due behind the bytes of the writes before it. -/
def Due (buffer : List α) (done : Nat) : List Nat → Prop
  | [] => True
  | n :: counts => buffer.take n = (buffer.drop done).take n ∧ Due buffer (done + n) counts

/-- The loop that writes a buffer: `left` bytes of it are still to be written, and a call that fails has no count. The
result is what was written and whether no call failed. There is none if the calls do not turn out so. -/
def putFronts (buffer : List α) (left : Nat) : List (Option Nat) → Option (List α × Bool)
  | [] => if left = 0 then some ([], true) else none
  | outcome :: outcomes =>
    if left = 0 then none
    else
      match outcome with
      | none => some ([], false)
      | some n =>
        if 0 < n ∧ n ≤ left then
          (putFronts buffer (left - n) outcomes).map fun (bytes, complete) => (buffer.take n ++ bytes, complete)
        else none

variable {buffer stream bytes : List α} {counts : List Nat} {done left : Nat} {outcomes : List (Option Nat)}

instance Due.decidable [DecidableEq α] (buffer : List α) : ∀ done counts, Decidable (Due buffer done counts)
  | _, [] => isTrue trivial
  | done, n :: counts =>
    have := Due.decidable buffer (done + n) counts
    inferInstanceAs (Decidable (_ ∧ _))

theorem fronts_eq_drop_iff (all : done + counts.sum = buffer.length) :
    fronts buffer counts = buffer.drop done ↔ Due buffer done counts := by
  induction counts generalizing done with
  | nil =>
    rw [List.sum_nil, Nat.add_zero] at all
    have ended : buffer.drop done = [] := List.drop_eq_nil_of_le (Nat.le_of_eq all.symm)
    simp [fronts, Due, ended]
  | cons n counts ih =>
    rw [List.sum_cons] at all
    have split : buffer.drop done = (buffer.drop done).take n ++ buffer.drop (done + n) := by
      rw [← List.drop_drop, List.take_append_drop]
    have sizes : (buffer.take n).length = ((buffer.drop done).take n).length := by
      simp only [List.length_take, List.length_drop]
      omega
    have first : fronts buffer (n :: counts) = buffer.take n ++ fronts buffer counts := rfl
    rw [first, split, Due, ← ih (by omega)]
    constructor
    · exact fun same => List.append_inj same sizes
    · rintro ⟨here, later⟩
      rw [here, later, ← here]

/-- The buffer gets out unharmed if and only if each write takes what is due. -/
theorem fronts_eq_iff (all : counts.sum = buffer.length) : fronts buffer counts = buffer ↔ Due buffer 0 counts := by
  have same : fronts buffer counts = buffer.drop 0 ↔ Due buffer 0 counts := fronts_eq_drop_iff (by simpa using all)
  rwa [List.drop_zero] at same

theorem length_fronts (atMost : counts.sum ≤ buffer.length) : (fronts buffer counts).length = counts.sum := by
  induction counts with
  | nil => rfl
  | cons n counts ih =>
    rw [List.sum_cons] at atMost
    have first : fronts buffer (n :: counts) = buffer.take n ++ fronts buffer counts := rfl
    rw [first, List.length_append, List.length_take_of_le (by omega), ih (by omega), List.sum_cons]

/-- A loop without a failure has written so many bytes, by its counts. -/
theorem putFronts_complete (ran : putFronts buffer left outcomes = some (bytes, true)) :
    bytes = fronts buffer outcomes.reduceOption ∧ outcomes.reduceOption.sum = left := by
  induction outcomes generalizing left bytes with
  | nil =>
    simp only [putFronts] at ran
    split at ran
    next none_ =>
      cases ran
      simp [fronts, List.reduceOption, none_]
    · cases ran
  | cons outcome outcomes ih =>
    simp only [putFronts] at ran
    split at ran
    · cases ran
    · cases outcome with
      | none => cases ran
      | some n =>
        dsimp only at ran
        split at ran
        next fits =>
          obtain ⟨⟨later, complete⟩, rest, same⟩ := Option.map_eq_some_iff.mp ran
          cases same
          obtain ⟨rfl, sum⟩ := ih rest
          rw [List.reduceOption_cons_of_some, List.sum_cons, sum]
          exact ⟨rfl, by omega⟩
        · cases ran

/-- A loop that comes to an end is complete unless one of its calls fails. -/
theorem putFronts_complete_iff {complete : Bool} (ran : putFronts buffer left outcomes = some (bytes, complete)) :
    complete = true ↔ none ∉ outcomes := by
  induction outcomes generalizing left bytes with
  | nil =>
    simp only [putFronts] at ran
    split at ran
    · cases ran
      simp
    · cases ran
  | cons outcome outcomes ih =>
    simp only [putFronts] at ran
    split at ran
    · cases ran
    · cases outcome with
      | none =>
        cases ran
        simp
      | some n =>
        dsimp only at ran
        split at ran
        · obtain ⟨⟨later, complete'⟩, rest, same⟩ := Option.map_eq_some_iff.mp ran
          cases same
          simpa using ih rest
        · cases ran

/-! ### A stream -/

/-- A chunk by its size and the counts of its writes. -/
abbrev Part := Nat × List Nat

/-- The writes of one chunk after the other. -/
def copied (stream : List α) : List Part → List α
  | [] => []
  | part :: parts => fronts (stream.take part.1) part.2 ++ copied (stream.drop part.1) parts

/-- Each write of each chunk takes what is due. -/
def InOrder (stream : List α) : List Part → Prop
  | [] => True
  | part :: parts => Due (stream.take part.1) 0 part.2 ∧ InOrder (stream.drop part.1) parts

instance InOrder.decidable [DecidableEq α] : ∀ (stream : List α) parts, Decidable (InOrder stream parts)
  | _, [] => isTrue trivial
  | stream, part :: parts =>
    have := InOrder.decidable (stream.drop part.1) parts
    inferInstanceAs (Decidable (_ ∧ _))

/-- The chunks are the stream cut up, and each is written to its end. -/
def Cover (stream : List α) : List Part → Prop
  | [] => stream = []
  | part :: parts =>
    part.1 ≤ stream.length ∧ part.2.sum = part.1 ∧ Cover (stream.drop part.1) parts

theorem length_copied {parts : List Part} (cover : Cover stream parts) :
    (copied stream parts).length = stream.length := by
  induction parts generalizing stream with
  | nil =>
    have empty : stream = [] := cover
    rw [empty]
    rfl
  | cons part parts ih =>
    obtain ⟨inside, sum, rest⟩ := cover
    have full : (stream.take part.1).length = part.1 := List.length_take_of_le inside
    rw [copied, List.length_append, length_fronts (Nat.le_of_eq (by rw [full, sum])), sum, ih rest, List.length_drop]
    omega

/-- The stream is copied if and only if each write takes what is due. -/
theorem copied_eq_iff {parts : List Part} (cover : Cover stream parts) :
    copied stream parts = stream ↔ InOrder stream parts := by
  induction parts generalizing stream with
  | nil =>
    have empty : stream = [] := cover
    simp [copied, InOrder, empty]
  | cons part parts ih =>
    obtain ⟨inside, sum, rest⟩ := cover
    have full : (stream.take part.1).length = part.1 := List.length_take_of_le inside
    have sizes : (fronts (stream.take part.1) part.2).length = (stream.take part.1).length := by
      rw [length_fronts (Nat.le_of_eq (by rw [full, sum])), sum, full]
    rw [copied, InOrder, ← ih rest, ← fronts_eq_iff (by rw [full, sum])]
    constructor
    · intro same
      exact List.append_inj (same.trans (List.take_append_drop part.1 stream).symm) sizes
    · rintro ⟨here, later⟩
      rw [here, later, List.take_append_drop]

end Pire2Pire.Library
