import Mathlib.Data.List.Basic

/-! Hashes that take their input block after block, while what is not yet a whole block waits for more. -/
namespace Pire2Pire.Library

variable {S α : Type}

/-- The state after the whole blocks of `size` elements, and what is left behind them. -/
def feed (size : Nat) (compress : S → List α → S) (s : S) (xs : List α) : S × List α :=
  if 0 < size ∧ size ≤ xs.length then feed size compress (compress s (xs.take size)) (xs.drop size)
  else (s, xs)
termination_by xs.length
decreasing_by
  rw [List.length_drop]
  omega

variable {size : Nat} {compress : S → List α → S} {s : S} {xs ys : List α}

theorem feed_short (short : xs.length < size) : feed size compress s xs = (s, xs) := by
  rw [feed, if_neg (by omega)]

theorem feed_block (positive : 0 < size) (block : xs.length = size) (ys : List α) :
    feed size compress s (xs ++ ys) = feed size compress (compress s xs) ys := by
  rw [feed, if_pos ⟨positive, by rw [List.length_append]; omega⟩, List.take_left' block, List.drop_left' block]

/-- More can be fed later, behind what is left. -/
theorem feed_append (compress : S → List α → S) (s : S) (xs ys : List α) :
    feed size compress s (xs ++ ys) =
      feed size compress (feed size compress s xs).1 ((feed size compress s xs).2 ++ ys) := by
  fun_induction feed size compress s xs with
  | case1 s xs whole ih =>
    have first : (xs.take size).length = size := List.length_take_of_le whole.2
    rw [← ih, ← feed_block whole.1 first, ← List.append_assoc, List.take_append_drop]
  | case2 s xs short => rfl

/-- What is left is the end of the list, and shorter than a block. -/
theorem feed_rest (positive : 0 < size) (compress : S → List α → S) (s : S) (xs : List α) :
    (feed size compress s xs).2 = xs.drop (xs.length - xs.length % size) := by
  fun_induction feed size compress s xs with
  | case1 s xs whole ih =>
    have less : (xs.length - size) % size = xs.length % size := (Nat.mod_eq_sub_mod whole.2).symm
    have atMost : xs.length % size ≤ xs.length - size := less ▸ Nat.mod_le _ _
    rw [ih, List.length_drop, List.drop_drop, less]
    congr 1
    omega
  | case2 s xs short =>
    have small : xs.length < size := by omega
    rw [Nat.mod_eq_of_lt small, Nat.sub_self, List.drop_zero]

theorem length_feed_rest (positive : 0 < size) (compress : S → List α → S) (s : S) (xs : List α) :
    (feed size compress s xs).2.length = xs.length % size := by
  have atMost := Nat.mod_le xs.length size
  rw [feed_rest positive, List.length_drop]
  omega

/-- Nothing is left of whole blocks. -/
theorem feed_whole (positive : 0 < size) (compress : S → List α → S) (s : S) (whole : size ∣ xs.length) :
    feed size compress s xs = ((feed size compress s xs).1, []) := by
  have none_ := length_feed_rest positive compress s xs
  rw [Nat.mod_eq_zero_of_dvd whole] at none_
  exact Prod.ext rfl (List.length_eq_zero_iff.mp none_)

end Pire2Pire.Library
