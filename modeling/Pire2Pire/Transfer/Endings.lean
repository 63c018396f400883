import Pire2Pire.Library.CopyLoop
import Pire2Pire.Transfer.Receiving
import Pire2Pire.Transfer.ShortSends

/-! Whether the loops of `send_file` and `daemon_request_ready` come to an end, on infinite sequences of outcomes of
their calls. -/
namespace Pire2Pire.Transfer

open Library StateTransition

/-! ### The two loops -/

/-- `send_file`. The outer loop tests `to_be_sent`, the inner one counts it down. -/
def sendFile : CopyLoop UInt64 where
  more toBeSent := toBeSent ≠ 0
  filled toBeSent _ := toBeSent
  emptied toBeSent nbSent := toBeSent - .ofNat nbSent

/-- The loop of `daemon_request_ready`. `nb_received_sum` is advanced before the inner loop. -/
def receiveFile (fileSize : UInt64) : CopyLoop UInt64 where
  more nbReceivedSum := nbReceivedSum < fileSize
  filled nbReceivedSum nbReceived := nbReceivedSum + .ofNat nbReceived
  emptied nbReceivedSum _ := nbReceivedSum

/-- The outcomes of `read ()` and `send ()`, or of `recv ()` and `write ()`. -/
abbrev TransferCalls := Outcomes bufferSize

variable {calls : TransferCalls} {stSize fileSize count : UInt64} {i : Nat}

theorem sendFile_additive : sendFile.Additive where
  zero count := by simp [sendFile]
  add count a b := by simp only [sendFile, sub_sub, UInt64.ofNat_add]

theorem receiveFile_additive (fileSize : UInt64) : (receiveFile fileSize).Additive where
  zero _ := rfl
  add _ _ _ := rfl

/-! ### The loops of the finite runs -/

/-- The rounds of a run of `send_file`. -/
def sendRounds (chunks : List Chunk) : List (Option Nat × List (Option Nat)) :=
  chunks.map fun chunk => (chunk.read, chunk.sends)

def receiveRounds (portions : List Portion) : List (Option Nat × List (Option Nat)) :=
  portions.map fun portion => (portion.recv, portion.writes)

/-- Where `sendLoop` has a result, the loop comes to an end with it. -/
theorem sendLoop_reaches {unread : List UInt8} {chunks : List Chunk} {upload : Upload}
    (listed : calls.Listed i (sendRounds chunks)) (ran : sendLoop unread count chunks = some upload) :
    Reaches (sendFile.step calls) (.test i count) (.stopped upload.complete) := by
  -- induction on the chunks: the counter is the same, and the bytes do not matter
  induction chunks generalizing i unread count upload with
  | nil =>
    simp only [sendLoop] at ran
    split at ran
    next done =>
      cases ran
      exact .single (by simp [CopyLoop.step, sendFile, done])
    · cases ran
  | cons chunk chunks ih =>
    obtain ⟨input, outputs, later⟩ := listed
    simp only [sendLoop] at ran
    by_cases done : count = 0
    · simp [done] at ran
    · cases reading : chunk.read with
      | none =>
        simp only [done, if_false, reading, Option.some.injEq] at ran
        subst ran
        exact .single (by simp [CopyLoop.step, sendFile, done, input, reading])
      | some nbRead =>
        simp only [done, if_false, reading] at ran
        split at ran
        · have read : sendFile.step calls (.test i count) = some (.emptying i count nbRead) := by
            simp [CopyLoop.step, sendFile, done, input, reading]
          rw [sendBuffer_eq] at ran
          cases putting : putFronts (unread.take nbRead) nbRead chunk.sends with
          | none => simp [putting] at ran
          | some result =>
            obtain ⟨bytes, whole⟩ := result
            have emptied := reaches_of_putFronts sendFile_additive count (outputs nbRead reading) putting
            -- the inner loop stops everything, or gets back to the test
            cases whole with
            | false =>
              simp only [putting, Option.map_some, Bool.false_eq_true, if_false, Option.some.injEq] at ran
              subst ran
              exact .head read emptied
            | true =>
              simp only [putting, Option.map_some, if_true] at ran
              obtain ⟨rest, after, rfl⟩ := Option.map_eq_some_iff.mp ran
              have ended := ih later after
              exact .head read (emptied.trans ended)
        · cases ran

/-- Where `receiveLoop` has a result, the loop comes to an end with it. -/
theorem receiveLoop_reaches {waiting : List UInt8} {portions : List Portion} {reception : Reception}
    (listed : calls.Listed i (receiveRounds portions))
    (ran : receiveLoop fileSize waiting count portions = some reception) :
    Reaches ((receiveFile fileSize).step calls) (.test i count) (.stopped reception.complete) := by
  induction portions generalizing i waiting count reception with
  | nil =>
    simp only [receiveLoop] at ran
    split at ran
    · cases ran
    next enough =>
      cases ran
      exact .single (by simp [CopyLoop.step, receiveFile, enough])
  | cons portion portions ih =>
    obtain ⟨input, outputs, later⟩ := listed
    simp only [receiveLoop] at ran
    split at ran
    next missing =>
      cases receiving : portion.recv with
      | none =>
        simp only [receiving, Option.some.injEq] at ran
        subst ran
        exact .single (by simp [CopyLoop.step, receiveFile, missing, input, receiving])
      | some nbReceived =>
        simp only [receiving] at ran
        split at ran
        · have received : (receiveFile fileSize).step calls (.test i count) =
              some (.emptying i (count + .ofNat nbReceived) nbReceived) := by
            simp [CopyLoop.step, receiveFile, missing, input, receiving]
          split at ran
          · cases ran
          next bytes writing =>
            cases ran
            exact .head received
              (reaches_of_putFronts (receiveFile_additive fileSize) _ (outputs nbReceived receiving) writing)
          next bytes writing =>
            obtain ⟨rest, after, rfl⟩ := Option.map_eq_some_iff.mp ran
            have emptied := reaches_of_putFronts (receiveFile_additive fileSize) (count + .ofNat nbReceived)
              (outputs nbReceived receiving) writing
            have ended := ih later after
            exact .head received (emptied.trans ended)
        · cases ran
    · cases ran

/-! ### When they end -/

theorem sendFile_counts (calls : TransferCalls) (stSize : UInt64) (i : Nat) :
    sendFile.counts calls stSize i = stSize - .ofNat (calls.total i) := by
  induction i with
  | zero => simp [CopyLoop.counts, Outcomes.total]
  | succ i ih =>
    rw [CopyLoop.counts, ih, calls.total_succ]
    simp only [sendFile, sub_sub, UInt64.ofNat_add]

theorem receiveFile_counts (calls : TransferCalls) (fileSize : UInt64) (i : Nat) :
    (receiveFile fileSize).counts calls 0 i = .ofNat (calls.total i) := by
  induction i with
  | zero => rfl
  | succ i ih =>
    rw [CopyLoop.counts, ih, calls.total_succ]
    simp only [receiveFile, UInt64.ofNat_add]

/-- `send_file` comes to an end if and only if some number of reads gives exactly `st_size` bytes (but for multiples of
2⁶⁴) or a call fails; `daemon_request_ready` if and only if some number of `recv`s gives at least `file->size` bytes
(with the sum taken modulo 2⁶⁴) or a call fails. -/
theorem transfers_end_iff (calls calls' : TransferCalls) (stSize fileSize : UInt64) :
    (Halts (sendFile.step calls) (.test 0 stSize) ↔
        ∃ i, stSize = .ofNat (calls.total i) ∨ calls.FailsIn i) ∧
      (Halts ((receiveFile fileSize).step calls') (.test 0 0) ↔
        ∃ i, fileSize ≤ .ofNat (calls'.total i) ∨ calls'.FailsIn i) := by
  rw [CopyLoop.halts_iff sendFile_additive, CopyLoop.halts_iff (receiveFile_additive fileSize)]
  simp only [CopyLoop.EndsIn, sendFile_counts, receiveFile_counts]
  constructor
  · simp [sendFile, sub_eq_zero]
  · simp [receiveFile, UInt64.not_lt]

/-- Nothing comes in, and everything that is put out is taken. -/
def closed : TransferCalls where
  input _ := some 0
  output _ left := some left
  input_le := by simp
  output_pos := by simp

theorem total_closed (i : Nat) : closed.total i = 0 := by
  simp [Outcomes.total, closed]

theorem closed_fine (i : Nat) : ¬ closed.FailsIn i := by
  intro fails
  cases fails <;> contradiction

/-- A file that has become empty since it was looked up, and a peer that closes the connection at once. -/
theorem closed_never_ends :
    (∃ k, ∀ i ≥ k, closed.input i = some 0) ∧ ¬ Halts (sendFile.step closed) (.test 0 1) ∧
      ¬ Halts ((receiveFile 1).step closed) (.test 0 0) := by
  have ends := transfers_end_iff closed closed 1 1
  refine ⟨⟨0, fun _ _ => rfl⟩, ?_, ?_⟩
  · rw [ends.1]
    simp [total_closed, closed_fine]
  · rw [ends.2]
    simp [total_closed, closed_fine]

end Pire2Pire.Transfer
