import Mathlib.Data.List.Basic

/-! The loop of `send_file` (`daemon_requests/daemon_request_get.c`): reading the file in chunks and putting
them on the data connection. -/
namespace Pire2Pire.Transfer

/-- The size of `buffer`. -/
def bufferSize : Nat := 128

/-- How one `read ()` and the `send ()`s of its chunk turn out; a call that fails has no count. -/
structure Chunk where
  read : Option Nat
  sends : List (Option Nat)
deriving DecidableEq, Repr

/-- `while (nb_read)`: every `send ()` starts again at the front of the buffer. The result is what was put
on the connection and, unless a call failed, what `to_be_sent` is afterwards. There is none if the calls do
not turn out so. -/
def sendBuffer (buffer : List UInt8) (nbRead : Nat) (toBeSent : UInt64) :
    List (Option Nat) → Option (List UInt8 × Option UInt64)
  | [] => if nbRead = 0 then some ([], some toBeSent) else none
  | sent :: sends =>
    if nbRead = 0 then none
    else
      match sent with
      | none => some ([], none)
      | some nbSent =>
        if 0 < nbSent ∧ nbSent ≤ nbRead then
          (sendBuffer buffer (nbRead - nbSent) (toBeSent - .ofNat nbSent) sends).map fun (bytes, left) =>
            (buffer.take nbSent ++ bytes, left)
        else none

/-- What `send_file` did: the bytes on the connection, the part of the file not read, and whether it
returned 0. -/
structure Upload where
  bytes : List UInt8
  unread : List UInt8
  complete : Bool
deriving DecidableEq, Repr

/-- `while (to_be_sent)`. A `read ()` gives some bytes while there are any. -/
def sendLoop (unread : List UInt8) (toBeSent : UInt64) : List Chunk → Option Upload
  | [] => if toBeSent = 0 then some ⟨[], unread, true⟩ else none
  | chunk :: chunks =>
    if toBeSent = 0 then none
    else
      match chunk.read with
      | none => some ⟨[], unread, false⟩
      | some nbRead =>
        if nbRead ≤ bufferSize ∧ nbRead ≤ unread.length ∧ (nbRead = 0 → unread = []) then
          match sendBuffer (unread.take nbRead) nbRead toBeSent chunk.sends with
          | none => none
          | some (bytes, none) => some ⟨bytes, unread.drop nbRead, false⟩
          | some (bytes, some left) =>
            (sendLoop (unread.drop nbRead) left chunks).map fun upload =>
              { upload with bytes := bytes ++ upload.bytes }
        else none

/-- Every `send ()` takes all the bytes it is given, or fails. -/
def Chunk.Whole (chunk : Chunk) : Prop :=
  ∀ sent ∈ chunk.sends, sent = none ∨ sent = chunk.read

variable {buffer bytes unread : List UInt8} {toBeSent : UInt64} {nbRead : Nat} {sends : List (Option Nat)}
  {chunks : List Chunk} {upload : Upload}

/-- With whole sends a chunk is sent once or not at all. -/
theorem sendBuffer_whole {left : Option UInt64} (whole : ∀ sent ∈ sends, sent = none ∨ sent = some nbRead)
    (full : buffer.length = nbRead) (positive : 0 < nbRead)
    (ran : sendBuffer buffer nbRead toBeSent sends = some (bytes, left)) :
    bytes = [] ∧ left = none ∨ bytes = buffer ∧ left = some (toBeSent - .ofNat nbRead) := by
  have busy : nbRead ≠ 0 := Nat.pos_iff_ne_zero.mp positive
  cases sends with
  | nil => simp [sendBuffer, busy] at ran
  | cons sent sends =>
    -- by what the first call takes: nothing, or the whole chunk
    cases whole sent List.mem_cons_self with
    | inl failed =>
      simp only [sendBuffer, busy, if_false, failed, Option.some.injEq, Prod.mk.injEq] at ran
      exact .inl ⟨ran.1.symm, ran.2.symm⟩
    | inr all =>
      -- nothing of the chunk is left, so no further call follows
      have last : sends = [] := by
        cases sends with
        | nil => rfl
        | cons next sends => simp [sendBuffer, busy, all, positive] at ran
      subst last
      simp only [sendBuffer, busy, all, positive, Nat.le_refl, and_self, if_true, if_false, Nat.sub_self,
        Option.map_some, Option.some.injEq, Prod.mk.injEq, List.append_nil] at ran
      refine .inr ⟨?_, ran.2.symm⟩
      rw [← ran.1, ← full, List.take_length]

theorem toNat_sub_ofNat (enough : nbRead ≤ toBeSent.toNat) :
    (toBeSent - .ofNat nbRead).toNat = toBeSent.toNat - nbRead := by
  -- no wrap-around, since the number is at most what is left
  have same : (UInt64.ofNat nbRead).toNat = nbRead :=
    UInt64.toNat_ofNat_of_lt' (Nat.lt_of_le_of_lt enough toBeSent.toNat_lt)
  have atMost : UInt64.ofNat nbRead ≤ toBeSent := by
    rw [UInt64.le_iff_toNat_le, same]
    exact enough
  rw [UInt64.toNat_sub_of_le _ _ atMost, same]

/-- With whole sends the connection gets the file from its beginning on, and all of it if the loop ends. -/
theorem sendLoop_whole (whole : ∀ chunk ∈ chunks, chunk.Whole) (size : toBeSent.toNat = unread.length)
    (ran : sendLoop unread toBeSent chunks = some upload) :
    upload.bytes <+: unread ∧ (upload.complete → upload.bytes = unread) := by
  -- induction on the chunks: what is still to be sent is what is still unread
  induction chunks generalizing unread toBeSent upload with
  | nil =>
    simp only [sendLoop] at ran
    split at ran
    next done =>
      cases ran
      have empty : unread = [] := List.length_eq_zero_iff.mp (by rw [← size, done]; rfl)
      exact ⟨List.nil_prefix, fun _ => empty.symm⟩
    · cases ran
  | cons chunk chunks ih =>
    simp only [sendLoop] at ran
    by_cases done : toBeSent = 0
    · simp [done] at ran
    · have wholeChunk := whole chunk List.mem_cons_self
      cases reading : chunk.read with
      | none =>
        simp only [done, if_false, reading, Option.some.injEq] at ran
        subst ran
        exact ⟨List.nil_prefix, by simp⟩
      | some nbRead =>
        simp only [done, if_false, reading] at ran
        split at ran
        next possible =>
          obtain ⟨-, available, atEnd⟩ := possible
          -- the end of the file is not reached while bytes are to be sent
          have positive : 0 < nbRead := by
            by_contra zero
            have empty := atEnd (by omega)
            exact done (UInt64.toNat_inj.mp (by rw [size, empty]; rfl))
          have full : (unread.take nbRead).length = nbRead := List.length_take_of_le available
          have sendsWhole : ∀ sent ∈ chunk.sends, sent = none ∨ sent = some nbRead := by
            intro sent member
            exact reading ▸ wholeChunk sent member
          split at ran
          · cases ran
          -- the only `send` failed, so the chunk is missing
          next bytes sending =>
            cases ran
            cases sendBuffer_whole sendsWhole full positive sending with
            | inl nothing => exact ⟨by simp [nothing.1], by simp⟩
            | inr all => cases all.2
          next bytes left sending =>
            obtain ⟨later, rest, rfl⟩ := Option.map_eq_some_iff.mp ran
            cases sendBuffer_whole sendsWhole full positive sending with
            | inl nothing => cases nothing.2
            | inr all =>
              obtain ⟨rfl, remaining⟩ := all
              cases remaining
              -- the chunk is gone from the file and from the counter
              have sizeLeft : (toBeSent - .ofNat nbRead).toNat = (unread.drop nbRead).length := by
                rw [toNat_sub_ofNat (size ▸ available), size, List.length_drop]
              obtain ⟨first, complete⟩ := ih (fun c member => whole c (List.mem_cons_of_mem _ member)) sizeLeft rest
              -- what this chunk sent and what the rest sends are parts of the file in order
              have parts := List.take_append_drop nbRead unread
              constructor
              · have joined := (List.prefix_append_right_inj (unread.take nbRead)).mpr first
                rw [parts] at joined
                exact joined
              · intro ended
                simp only [complete ended, parts]
        · cases ran

end Pire2Pire.Transfer
