import Mathlib.Data.UInt
import Pire2Pire.Library.Copying
import Pire2Pire.Transfer.ServeGet

/-! What `send_file` puts on the data connection if the sends may be short. -/
namespace Pire2Pire.Transfer

open Library

/-- The size of the chunk and the counts of its sends. -/
def Chunk.part (chunk : Chunk) : Part :=
  (chunk.read.getD 0, chunk.sends.reduceOption)

variable {buffer bytes unread : List UInt8} {toBeSent : UInt64} {nbRead : Nat} {sends : List (Option Nat)}
  {chunks : List Chunk} {upload : Upload}

theorem sub_ofNat_sub_ofNat {n k : Nat} (toBeSent : UInt64) (part : k ≤ n) :
    toBeSent - .ofNat k - .ofNat (n - k) = toBeSent - .ofNat n := by
  rw [sub_sub, ← UInt64.ofNat_add, Nat.add_sub_cancel' part]

/-- The inner loop writes the buffer from its front and counts the chunk off. -/
theorem sendBuffer_eq (buffer : List UInt8) (nbRead : Nat) (toBeSent : UInt64) (sends : List (Option Nat)) :
    sendBuffer buffer nbRead toBeSent sends =
      (putFronts buffer nbRead sends).map fun (bytes, complete) =>
        (bytes, if complete then some (toBeSent - .ofNat nbRead) else none) := by
  induction sends generalizing nbRead toBeSent with
  | nil =>
    by_cases done : nbRead = 0
    · subst done
      simp [sendBuffer, putFronts]
    · simp [sendBuffer, putFronts, done]
  | cons sent sends ih =>
    by_cases done : nbRead = 0
    · simp [sendBuffer, putFronts, done]
    · cases sent with
      | none => simp [sendBuffer, putFronts, done]
      | some nbSent =>
        by_cases fits : 0 < nbSent ∧ nbSent ≤ nbRead
        · simp only [sendBuffer, putFronts, done, fits, and_self, if_true, if_false, ih, Option.map_map,
            Function.comp_def, sub_ofNat_sub_ofNat toBeSent fits.2]
        · simp only [sendBuffer, putFronts, done, fits, if_false, Option.map_none]

/-- A run that returns 0 has covered the file, and sent the front of each chunk again and again. -/
theorem sendLoop_copied (size : toBeSent.toNat = unread.length)
    (ran : sendLoop unread toBeSent chunks = some upload) (complete : upload.complete = true) :
    Cover unread (chunks.map Chunk.part) ∧ upload.bytes = copied unread (chunks.map Chunk.part) := by
  -- induction on the chunks: what is still to be sent is what is still unread, whatever the sends took
  induction chunks generalizing unread toBeSent upload with
  | nil =>
    simp only [sendLoop] at ran
    split at ran
    next done =>
      cases ran
      exact ⟨List.length_eq_zero_iff.mp (by rw [← size, done]; rfl), rfl⟩
    · cases ran
  | cons chunk chunks ih =>
    simp only [sendLoop] at ran
    by_cases done : toBeSent = 0
    · simp [done] at ran
    · cases reading : chunk.read with
      | none =>
        simp only [done, if_false, reading, Option.some.injEq] at ran
        subst ran
        cases complete
      | some nbRead =>
        simp only [done, if_false, reading] at ran
        split at ran
        next possible =>
          obtain ⟨-, available, -⟩ := possible
          have part : chunk.part = (nbRead, chunk.sends.reduceOption) := by simp [Chunk.part, reading]
          rw [sendBuffer_eq] at ran
          cases putting : putFronts (unread.take nbRead) nbRead chunk.sends with
          | none => simp [putting] at ran
          | some result =>
            obtain ⟨bytes, whole⟩ := result
            -- a failed send is no return of 0
            cases whole with
            | false =>
              simp only [putting, Option.map_some, Bool.false_eq_true, if_false, Option.some.injEq] at ran
              subst ran
              cases complete
            | true =>
              simp only [putting, Option.map_some, if_true] at ran
              obtain ⟨later, rest, rfl⟩ := Option.map_eq_some_iff.mp ran
              obtain ⟨rfl, sum⟩ := putFronts_complete putting
              -- however the chunk was cut up, its size is what the counter lost
              have sizeLeft : (toBeSent - .ofNat nbRead).toNat = (unread.drop nbRead).length := by
                rw [toNat_sub_ofNat (size ▸ available), size, List.length_drop]
              obtain ⟨covered, same⟩ := ih sizeLeft rest complete
              simp only [List.map_cons, Cover, copied, part]
              exact ⟨⟨available, sum, covered⟩, by rw [same]⟩
        · cases ran

/-- `st_size` of a file does not wrap around. -/
theorem SharedFile.toNat_size (f : SharedFile) : (UInt64.ofNat f.content.length).toNat = f.content.length :=
  UInt64.toNat_ofNat_of_lt' (Nat.lt_trans f.inRange (by decide))

/-- The connection has got the file if and only if each send of each chunk took from the front of the buffer what was
due at the place it was sent from. -/
theorem upload_iff_inOrder (f : SharedFile) (chunks : List Chunk) (upload : Upload)
    (ran : sendLoop f.content (.ofNat f.content.length) chunks = some upload) (returned : upload.complete = true) :
    upload.bytes = f.content ↔ InOrder f.content (chunks.map Chunk.part) := by
  obtain ⟨cover, same⟩ := sendLoop_copied f.toNat_size ran returned
  rw [same]
  exact copied_eq_iff cover

def threeBytes : SharedFile :=
  ⟨"abc".toList, [97, 98, 99], by decide⟩

/-- Two whole chunks. -/
theorem upload_whole :
    (⟨[97, 98, 99], [], true⟩ : Upload).bytes = threeBytes.content ↔
      InOrder threeBytes.content [(2, [2]), (1, [1])] :=
  upload_iff_inOrder threeBytes [⟨some 2, [some 2]⟩, ⟨some 1, [some 1]⟩] _ (by decide) rfl

/-- After a send of one byte out of three, the first byte is sent once more in place of the second. -/
theorem short_send_corrupts :
    ∃ upload, sendLoop threeBytes.content 3 [⟨some 3, [some 1, some 2]⟩] = some upload ∧ upload.complete = true ∧
      upload.bytes = [97, 97, 98] ∧ upload.bytes ≠ threeBytes.content :=
  ⟨⟨[97, 97, 98], [], true⟩, by decide, rfl, rfl, by decide⟩

end Pire2Pire.Transfer
