import Pire2Pire.Client.Prompt

/-! The answers of the daemon on their way to the screen (`client/recv_resp.c`). -/
namespace Pire2Pire.Client

open Library

/-- What a `recv` comes to. -/
inductive Recv where
  | bytes (c : Chunk)
  | closed
  | failed

/-- What is on the screen, and whether the program has left. -/
structure Screen where
  printed : List Char
  exited : Bool
  deriving DecidableEq, Repr

def farewell : List Char := "Server disconnected\nExiting\n".toList

/-- `recv_resp`, with the block of `response`, which stays from one answer to the next, and the number of bytes
received of this one. -/
def recvResp (fresh : Nat → Char) (response : List Char) (bufferOffset : Nat) : List Recv → Screen
  | [] => ⟨[], false⟩
  | .failed :: _ => ⟨[], true⟩
  | .closed :: _ => ⟨farewell, true⟩
  | .bytes c :: recvs =>
    let block := appendBuffer fresh response bufferOffset c.bytes
    let offset := bufferOffset + c.bytes.length
    if block[offset - 1]? = some '\n' ∨ block[offset - 1]? = some '\x00' ∨ block[offset - 1]? = some '\r' then
      let screen := recvResp fresh block 0 recvs
      ⟨terminated block ++ screen.printed, screen.exited⟩
    else recvResp fresh block offset recvs

/-! ### What is shown -/

/-- What is received in one piece ends an answer. -/
def endsAnswer (bytes : List Char) : Bool :=
  bytes.getLast? = some '\n' ∨ bytes.getLast? = some '\r'

/-- The pieces that are received before the connection is closed or fails. -/
def received : List Recv → List (List Char)
  | .bytes c :: recvs => c.bytes :: received recvs
  | [] | .closed :: _ | .failed :: _ => []

/-- How it goes on behind them. -/
def outcome : List Recv → Screen
  | .bytes _ :: recvs => outcome recvs
  | [] => ⟨[], false⟩
  | .closed :: _ => ⟨farewell, true⟩
  | .failed :: _ => ⟨[], true⟩

variable {fresh : Nat → Char} {text response : List Char} {recvs : List Recv}

theorem recvResp_gathers (noNul : ∀ bytes ∈ received recvs, '\x00' ∉ bytes) (clean : '\x00' ∉ text)
    (filled : response.take text.length = text) :
    recvResp fresh response text.length recvs =
      ⟨(gather endsAnswer text (received recvs)).1.flatten ++ (outcome recvs).printed, (outcome recvs).exited⟩ := by
  induction recvs generalizing text response with
  | nil => rfl
  | cons r recvs ih =>
    cases r with
    | closed => rfl
    | failed => rfl
    | bytes c =>
      have cleanChunk : '\x00' ∉ c.bytes := noNul c.bytes (by simp [received])
      have noNul' : ∀ bytes ∈ received recvs, '\x00' ∉ bytes :=
        fun bytes member => noNul bytes (by simp [received, member])
      have cleanText : '\x00' ∉ text ++ c.bytes := by simp [clean, cleanChunk]
      have noEnd : c.bytes.getLast? ≠ some '\x00' :=
        fun last => cleanChunk (List.mem_of_getLast? last)
      have string : terminated (text ++ c.bytes ++ ['\x00']) = text ++ c.bytes := cutAt_append cleanText []
      simp only [recvResp, appendBuffer_eq filled cleanChunk, last_byte c.nonempty, noEnd, false_or, received, outcome,
        string]
      by_cases ended : c.bytes.getLast? = some '\n' ∨ c.bytes.getLast? = some '\r'
      · rw [if_pos ended, gather_ends (by simpa [endsAnswer] using ended)]
        have start : (text ++ c.bytes ++ ['\x00']).take ([] : List Char).length = [] := rfl
        have rest := ih noNul' List.not_mem_nil start
        rw [List.length_nil] at rest
        rw [rest, List.flatten_cons]
        simp only [List.append_assoc]
      · have goesOn : endsAnswer c.bytes = false := by simpa [endsAnswer] using ended
        rw [if_neg ended, gather_goes_on goesOn, ← List.length_append]
        exact ih noNul' cleanText List.take_left

/-- Whatever pieces the answers come in, what has been printed is what was received up to the last piece
that ends in `'\n'` or `'\r'`, once and in order; what came behind it is lost when the daemon leaves. -/
theorem responses_printed (fresh : Nat → Char) (response : List Char)
    (noNul : ∀ bytes ∈ received recvs, '\x00' ∉ bytes) :
    (recvResp fresh response 0 recvs).printed =
      ((received recvs).rdropWhile fun bytes => !endsAnswer bytes).flatten ++ (outcome recvs).printed := by
  have shown : recvResp fresh response ([] : List Char).length recvs = _ :=
    recvResp_gathers noNul List.not_mem_nil rfl
  rw [List.length_nil] at shown
  rw [shown, gather_complete]

/-- Two answers in three pieces, the last of which is not at its end. -/
def twoAnswers : List Recv :=
  [.bytes ⟨" < a".toList, by decide, by decide⟩, .bytes ⟨"b\n < c".toList, by decide, by decide⟩,
    .bytes ⟨"d\n".toList, by decide, by decide⟩, .bytes ⟨" < e".toList, by decide, by decide⟩, .closed]

theorem two_answers_printed :
    (recvResp (fun _ => '?') [] 0 twoAnswers).printed =
      ((received twoAnswers).rdropWhile fun bytes => !endsAnswer bytes).flatten ++ (outcome twoAnswers).printed :=
  responses_printed _ [] (by decide)

end Pire2Pire.Client
