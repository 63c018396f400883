import Pire2Pire.Blocks.Ranges

/-! The loop of `daemon_request_ready` (`branches/block_by_block`): putting a block into the local file at its place. -/
namespace Pire2Pire.Blocks

open Library Protocol Transfer

/-! ### The file -/

/-- `fseek` and `fwrite`. A gap behind the end of the file is filled with zeros. -/
def writeAt (file : List UInt8) (offset : Nat) (bytes : List UInt8) : List UInt8 :=
  file.take offset ++ List.replicate (offset - file.length) 0 ++ bytes ++ file.drop (offset + bytes.length)

variable {file bytes stream buffer : List UInt8} {chunks : List Nat} {offset i : Nat}

theorem length_front (file : List UInt8) (offset : Nat) :
    (file.take offset ++ List.replicate (offset - file.length) (0 : UInt8)).length = offset := by
  simp only [List.length_append, List.length_take, List.length_replicate]
  omega

theorem writeAt_inside (lower : offset ≤ i) (upper : i < offset + bytes.length) :
    (writeAt file offset bytes)[i]? = bytes[i - offset]? := by
  have front := length_front file offset
  rw [writeAt, List.append_assoc, List.getElem?_append_right (by omega), front,
    List.getElem?_append_left (by omega)]

theorem writeAt_behind (behind : offset + bytes.length ≤ i) : (writeAt file offset bytes)[i]? = file[i]? := by
  have front := length_front file offset
  rw [writeAt, List.append_assoc, List.getElem?_append_right (by omega), front,
    List.getElem?_append_right (by omega), List.getElem?_drop]
  congr 1
  omega

/-! ### The loop -/

/-- A piece of `buffer` that was used, and how many bytes had just been received into it. -/
structure Access where
  first : Nat
  count : Nat
  received : Nat
deriving DecidableEq, Repr

/-- The local file behind the loop, and the pieces of `buffer` that went into it. -/
structure Written where
  file : List UInt8
  accesses : List Access
deriving DecidableEq, Repr

/-- `while (nb_received_sum < (end - (begin - 1)))`, by what the calls of `recv` return. There is no result if they do
not turn out so, or if the piece `&(buffer[begin + nb_received_sum])` goes beyond the array. -/
def blockLoop (beginning length : Nat) (buffer file stream : List UInt8) (nbReceivedSum : Nat) :
    List Nat → Option Written
  | [] => if nbReceivedSum < length then none else some ⟨file, []⟩
  | nbReceived :: chunks =>
    if nbReceivedSum < length then
      if beginning + nbReceivedSum + nbReceived ≤ bufferSize then
        -- what was received is at the front; behind it is what was there before
        let filled := stream.take nbReceived ++ buffer.drop nbReceived
        let piece := (filled.drop (beginning + nbReceivedSum)).take nbReceived
        (blockLoop beginning length filled (writeAt file (beginning + nbReceivedSum) piece) (stream.drop nbReceived)
          (nbReceivedSum + nbReceived) chunks).map fun written =>
            { written with accesses := ⟨beginning + nbReceivedSum, nbReceived, nbReceived⟩ :: written.accesses }
      else none
    else none

/-- The loop for a range. `buffer` is not initialised. -/
def receiveBlock (beginning finish : Int32) (buffer : Vector UInt8 bufferSize) (file stream : List UInt8)
    (chunks : List Nat) : Option Written :=
  (blockLength beginning finish).bind fun length =>
    blockLoop beginning.toInt.toNat length.toNat buffer.toList file stream 0 chunks

/-! ### What is asked of it -/

/-- `recv` delivers the stream in chunks. -/
structure Delivers (stream : List UInt8) (chunks : List Nat) : Prop where
  sizes : ∀ n ∈ chunks, 0 < n ∧ n ≤ bufferSize
  all : chunks.sum = stream.length

/-- The file holds the stream at its place and is as before everywhere else, and no byte was used that had not just been
received. -/
structure Right (beginning : Nat) (file stream : List UInt8) (written : Written) : Prop where
  inside : ∀ i, beginning ≤ i → i < beginning + stream.length → written.file[i]? = stream[i - beginning]?
  outside : ∀ i, i < beginning ∨ beginning + stream.length ≤ i → written.file[i]? = file[i]?
  accesses : ∀ access ∈ written.accesses, ∀ j, access.first ≤ j → j < access.first + access.count → j < access.received

theorem boundaries_some {cmd : CString} {first last : Int32} (accepted : boundaries cmd = some (first, last)) :
    0 ≤ first.toInt ∧ first.toInt ≤ last.toInt := by
  unfold boundaries at accepted
  split at accepted
  · split at accepted
    · cases accepted
    next inside =>
      cases accepted
      simp only [Int32.lt_iff_toInt_lt, Int32.toInt_zero] at inside
      omega
  · cases accepted

/-- Every round uses a piece of the buffer that starts where the file is written. -/
theorem blockLoop_cons {beginning length sum n : Nat} {written : Written}
    (ran : blockLoop beginning length buffer file stream sum (n :: chunks) = some written) :
    ∃ buffer' file' stream' later, blockLoop beginning length buffer' file' stream' (sum + n) chunks = some later ∧
      written.accesses = ⟨beginning + sum, n, n⟩ :: later.accesses := by
  simp only [blockLoop] at ran
  split at ran
  · split at ran
    · obtain ⟨later, rest, rfl⟩ := Option.map_eq_some_iff.mp ran
      exact ⟨_, _, _, later, rest, rfl⟩
    · cases ran
  · cases ran

/-- A piece of received bytes starts at the front of the buffer. -/
theorem first_eq_zero {first n : Nat} (positive : 0 < n) (received : ∀ j, first ≤ j → j < first + n → j < n) :
    first = 0 := by
  have last := received (first + n - 1) (by omega) (by omega)
  omega

def blockLine (beginning finish : Nat) : CString :=
  "ready aaaaaaaaaaaaaaaaaaaaaaaaaaaaaaaa 0 10.0.0.1 4001 tcp ".toList ++ decimal beginning ++ ' ' :: decimal finish

end Pire2Pire.Blocks
