import Pire2Pire.Library.Copying
import Pire2Pire.Transfer.Upload

/-! The loop of `daemon_request_ready` (`daemon_requests/daemon_request_ready.c`): taking the bytes from the data
connection and putting them into the local file, which is empty since it was opened with `O_TRUNC`. -/
namespace Pire2Pire.Transfer

open Library

/-- How one `recv ()` and the `write ()`s of its chunk turn out; a call that fails has no count. -/
structure Portion where
  recv : Option Nat
  writes : List (Option Nat)
deriving DecidableEq, Repr

/-- `while (nb_received)`: every `write ()` starts again at the front of the buffer. -/
def writeBuffer (buffer : List UInt8) (nbReceived : Nat) (writes : List (Option Nat)) : Option (List UInt8 × Bool) :=
  putFronts buffer nbReceived writes

/-- What the loop did: the content of the local file, what is left on the connection, and whether the loop came to its
end. -/
structure Reception where
  written : List UInt8
  waiting : List UInt8
  complete : Bool
deriving DecidableEq, Repr

/-- `while (nb_received_sum < file->size)`. A `recv ()` gives some bytes while there are any. -/
def receiveLoop (fileSize : UInt64) (waiting : List UInt8) (nbReceivedSum : UInt64) :
    List Portion → Option Reception
  | [] => if nbReceivedSum < fileSize then none else some ⟨[], waiting, true⟩
  | portion :: portions =>
    if nbReceivedSum < fileSize then
      match portion.recv with
      | none => some ⟨[], waiting, false⟩
      | some nbReceived =>
        if nbReceived ≤ bufferSize ∧ nbReceived ≤ waiting.length ∧ (nbReceived = 0 → waiting = []) then
          match writeBuffer (waiting.take nbReceived) nbReceived portion.writes with
          | none => none
          | some (bytes, false) => some ⟨bytes, waiting.drop nbReceived, false⟩
          | some (bytes, true) =>
            -- the sum is advanced before the writes
            (receiveLoop fileSize (waiting.drop nbReceived) (nbReceivedSum + .ofNat nbReceived) portions).map
              fun reception => { reception with written := bytes ++ reception.written }
        else none
    else none

/-- The size of the chunk and the counts of its writes. -/
def Portion.part (portion : Portion) : Part :=
  (portion.recv.getD 0, portion.writes.reduceOption)

variable {waiting : List UInt8} {fileSize nbReceivedSum : UInt64} {portions : List Portion} {reception : Reception}

theorem toNat_add_ofNat {n : Nat} (fileSize : UInt64) (enough : nbReceivedSum.toNat + n ≤ fileSize.toNat) :
    (nbReceivedSum + .ofNat n).toNat = nbReceivedSum.toNat + n := by
  -- no wrap-around below the size of a file
  have range := fileSize.toNat_lt
  have small : n < UInt64.size := Nat.lt_of_le_of_lt (by omega) range
  rw [UInt64.toNat_add, UInt64.toNat_ofNat_of_lt' small]
  exact Nat.mod_eq_of_lt (by omega)

/-- A loop that comes to its end has covered the stream, and written the front of each chunk again and again. -/
theorem receiveLoop_copied (size : nbReceivedSum.toNat + waiting.length = fileSize.toNat)
    (ran : receiveLoop fileSize waiting nbReceivedSum portions = some reception)
    (complete : reception.complete = true) :
    Cover waiting (portions.map Portion.part) ∧ reception.written = copied waiting (portions.map Portion.part) := by
  -- induction on the portions: what is missing from the sum is what is waiting, whatever the writes took
  induction portions generalizing waiting nbReceivedSum reception with
  | nil =>
    simp only [receiveLoop] at ran
    split at ran
    · cases ran
    next enough =>
      cases ran
      rw [UInt64.lt_iff_toNat_lt] at enough
      exact ⟨List.length_eq_zero_iff.mp (by omega), rfl⟩
  | cons portion portions ih =>
    simp only [receiveLoop] at ran
    split at ran
    next missing =>
      cases receiving : portion.recv with
      | none =>
        simp only [receiving, Option.some.injEq] at ran
        subst ran
        cases complete
      | some nbReceived =>
        simp only [receiving] at ran
        split at ran
        next possible =>
          obtain ⟨-, available, -⟩ := possible
          have part : portion.part = (nbReceived, portion.writes.reduceOption) := by simp [Portion.part, receiving]
          split at ran
          · cases ran
          next bytes writing =>
            cases ran
            cases complete
          next bytes writing =>
            obtain ⟨later, rest, rfl⟩ := Option.map_eq_some_iff.mp ran
            obtain ⟨rfl, sum⟩ := putFronts_complete writing
            have sumLeft : (nbReceivedSum + .ofNat nbReceived).toNat + (waiting.drop nbReceived).length =
                fileSize.toNat := by
              rw [toNat_add_ofNat fileSize (by omega), List.length_drop]
              omega
            obtain ⟨covered, same⟩ := ih sumLeft rest complete
            simp only [List.map_cons, Cover, copied, part]
            exact ⟨⟨available, sum, covered⟩, by rw [same]⟩
        · cases ran
    · cases ran

/-- The local file is what came over the connection if and only if each write of each chunk took from the front of the
buffer what was due at the place it was written to. -/
theorem download_iff_inOrder (fileSize : UInt64) (stream : List UInt8) (whole : stream.length = fileSize.toNat)
    (portions : List Portion) (reception : Reception)
    (ran : receiveLoop fileSize stream 0 portions = some reception) (ended : reception.complete = true) :
    reception.written = stream ↔ InOrder stream (portions.map Portion.part) := by
  obtain ⟨cover, same⟩ := receiveLoop_copied (by simpa using whole) ran ended
  rw [same]
  exact copied_eq_iff cover

/-- Two chunks; the second one is written in two steps, and its bytes are equal. -/
theorem download_whole :
    (⟨[1, 2, 3, 3], [], true⟩ : Reception).written = [1, 2, 3, 3] ↔
      InOrder ([1, 2, 3, 3] : List UInt8) [(2, [2]), (2, [1, 1])] :=
  download_iff_inOrder 4 [1, 2, 3, 3] rfl [⟨some 2, [some 2]⟩, ⟨some 2, [some 1, some 1]⟩] ⟨[1, 2, 3, 3], [], true⟩
    (by decide) rfl

/-- After a write of one byte out of three, the first byte is written once more in place of the second. -/
theorem short_write_corrupts :
    ∃ reception, receiveLoop 3 [1, 2, 3] 0 [⟨some 3, [some 1, some 2]⟩] = some reception ∧
      reception.complete = true ∧ reception.written = [1, 1, 2] ∧ reception.written ≠ [1, 2, 3] :=
  ⟨⟨[1, 1, 2], [], true⟩, by decide, rfl, rfl, by decide⟩

end Pire2Pire.Transfer
