import Mathlib.Algebra.Order.Ring.Int
import Mathlib.Data.List.DropRight

/-! Putting together what is read piece by piece, until a piece ends a text. -/
namespace Pire2Pire.Library

variable {α : Type}

/-- The texts that are complete, given what has been read of the first one, and what is left over. -/
def gather (ends : List α → Bool) (text : List α) : List (List α) → List (List α) × List α
  | [] => ([], text)
  | chunk :: chunks =>
    if ends chunk then
      let (texts, left) := gather ends [] chunks
      ((text ++ chunk) :: texts, left)
    else gather ends (text ++ chunk) chunks

variable {ends : List α → Bool} {text chunk : List α} {chunks : List (List α)}

theorem gather_ends (ended : ends chunk = true) :
    gather ends text (chunk :: chunks) =
      ((text ++ chunk) :: (gather ends [] chunks).1, (gather ends [] chunks).2) := by
  simp [gather, ended]

theorem gather_goes_on (goesOn : ends chunk = false) :
    gather ends text (chunk :: chunks) = gather ends (text ++ chunk) chunks := by
  simp [gather, goesOn]

/-- Nothing is lost and nothing is read twice. -/
theorem gather_flatten :
    (gather ends text chunks).1.flatten ++ (gather ends text chunks).2 = text ++ chunks.flatten := by
  induction chunks generalizing text with
  | nil => simp [gather]
  | cons chunk chunks ih =>
    cases ended : ends chunk with
    | true => simp [gather_ends ended, ih]
    | false => simp [gather_goes_on ended, ih]

/-- Reading goes on with what was left over. -/
theorem gather_append (xs ys : List (List α)) :
    gather ends text (xs ++ ys) =
      ((gather ends text xs).1 ++ (gather ends (gather ends text xs).2 ys).1,
        (gather ends (gather ends text xs).2 ys).2) := by
  induction xs generalizing text with
  | nil => rfl
  | cons x xs ih =>
    rw [List.cons_append]
    cases ended : ends x with
    | true => simp [gather_ends ended, ih]
    | false => rw [gather_goes_on ended, gather_goes_on ended, ih]

/-- One more piece is put behind what was left over. -/
theorem gather_concat (chunks : List (List α)) (chunk : List α) :
    gather ends text (chunks ++ [chunk]) =
      if ends chunk then ((gather ends text chunks).1 ++ [(gather ends text chunks).2 ++ chunk], [])
      else ((gather ends text chunks).1, (gather ends text chunks).2 ++ chunk) := by
  rw [gather_append]
  cases ended : ends chunk <;> simp [gather, ended]

/-- The complete texts are made of the pieces up to the last one that ends a text. -/
theorem gather_complete (chunks : List (List α)) :
    (gather ends [] chunks).1.flatten = (chunks.rdropWhile fun c => !ends c).flatten := by
  induction chunks using List.reverseRecOn with
  | nil => rfl
  | append_singleton chunks chunk ih =>
    rw [gather_concat, List.rdropWhile_concat]
    cases ended : ends chunk with
    | true =>
      have all : (gather ends [] chunks).1.flatten ++ (gather ends [] chunks).2 = [] ++ chunks.flatten :=
        gather_flatten
      simpa [← List.append_assoc] using congrArg (· ++ chunk) all
    | false => simpa [ended] using ih

end Pire2Pire.Library
