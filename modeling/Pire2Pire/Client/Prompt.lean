import Pire2Pire.Connections.Commands
import Pire2Pire.Library.Chunks
import Pire2Pire.Protocol.SendLock

/-! The commands that the user types (`client/util/prompt.c`, `client/send_cmd.c`), on their way to the loop of
`client_handler.c` that reads them. -/
namespace Pire2Pire.Client

open Library Protocol Commands
open SendLock (answers Honest sendPart sendPart_eq_self_iff sendRest_answers)

/-! ### A text that grows in a block of memory

`fresh` is what is in memory where nothing was written yet. -/

/-- What `read` and `recv` write into a buffer with room for a NUL behind it. -/
structure Chunk where
  bytes : List Char
  nonempty : bytes ≠ []
  short : bytes.length ≤ 127

def realloc (fresh : Nat → Char) (block : List Char) (size : Nat) : List Char :=
  block.take size ++ (List.range' block.length (size - block.length)).map fresh

def strcpy (block : List Char) (offset : Nat) (text : CString) : List Char :=
  block.take offset ++ text ++ '\x00' :: block.drop (offset + text.length + 1)

/-- The block with the string in the buffer behind its first `offset` bytes, and a NUL where the number of bytes
that were read puts it. -/
def appendBuffer (fresh : Nat → Char) (block : List Char) (offset : Nat) (buffer : List Char) : List Char :=
  (strcpy (realloc fresh block (offset + buffer.length + 1)) offset (terminated buffer)).set
    (offset + buffer.length) '\x00'

/-! ### Typing -/

/-- What a `read` of the standard input comes to. -/
inductive Read where
  | bytes (c : Chunk)
  | interrupted
  | ended
  | failed

/-- What `prompt` comes to: it may still be waiting, or the program exits. -/
inductive Prompted where
  | waiting
  | exited
  | returned (lineRead : Option (List Char)) (reads : List Read)

/-- `prompt`, with the block that it has and the number of bytes in it. -/
def prompt (fresh : Nat → Char) (lineRead : Option (List Char)) (bufferOffset : Nat) : List Read → Prompted
  | [] => .waiting
  | .ended :: reads => .returned lineRead reads
  | .interrupted :: reads => prompt fresh lineRead bufferOffset reads
  | .failed :: _ => .exited
  | .bytes c :: reads =>
    let buffer := appendBuffer fresh (lineRead.getD []) bufferOffset c.bytes
    let offset := bufferOffset + c.bytes.length
    if buffer[offset - 1]? = some '\n' then .returned (some buffer) reads else prompt fresh (some buffer) offset reads

inductive Ending where
  /-- in `read` -/
  | waiting
  /-- a message that starts with "quit" has been sent -/
  | quit
  | exited
  /-- `strlen` of NULL -/
  | undefined
  deriving DecidableEq, Repr

/-- What has been sent, and where the thread is. -/
structure Session where
  sent : List Char
  ending : Ending
  deriving DecidableEq, Repr

/-- `send_cmd`, from the `i`-th command on; `socket` says what the calls of `send` return. -/
def sendCmd (fresh : Nat → Char) (socket : Nat → Nat → Nat → Option Nat) : Nat → Nat → List Read → Option Session
  | 0, _, _ => none
  | fuel + 1, i, reads =>
    match prompt fresh none 0 reads with
    | .waiting => some ⟨[], .waiting⟩
    | .exited => some ⟨[], .exited⟩
    | .returned none _ => some ⟨[], .undefined⟩
    | .returned (some userInput) reads =>
      let text := terminated userInput
      let msg := sendPart text
      match sendRest msg 0 (answers (socket i) msg.length 0 msg.length) with
      | none => none
      | some (bytes, false) => some ⟨bytes, .exited⟩
      | some (bytes, true) =>
        if quits text then some ⟨bytes, .quit⟩
        else (sendCmd fresh socket fuel (i + 1) reads).map fun s => ⟨bytes ++ s.sent, s.ending⟩

/-- The loop of `handle_requests` over what has come on the connection: the messages it goes on with, and
whether it is at its end. -/
def handleRequests : Nat → List Char → List CString × Bool
  | 0, _ => ([], false)
  | fuel + 1, stream =>
    match socketGetline stream with
    | (none, _) => ([], false)
    | (some message, rest) =>
      if quits message then ([], true)
      else
        let (messages, done) := handleRequests fuel rest
        (message :: messages, done)

/-! ### The block -/

variable {fresh : Nat → Char} {text buffer block : List Char}

theorem realloc_length (fresh : Nat → Char) (block : List Char) (size : Nat) :
    (realloc fresh block size).length = size := by
  simp only [realloc, List.length_append, List.length_take, List.length_map, List.length_range']
  omega

/-- With no NUL in what was read the block holds the text, the new bytes and a NUL. -/
theorem appendBuffer_eq (filled : block.take text.length = text) (noNul : '\x00' ∉ buffer) :
    appendBuffer fresh block text.length buffer = text ++ buffer ++ ['\x00'] := by
  have long : text.length ≤ block.length := by
    have lengths := congrArg List.length filled
    rw [List.length_take] at lengths
    omega
  have front : (realloc fresh block (text.length + buffer.length + 1)).take text.length = text := by
    rw [realloc, List.take_append_of_le_length (by rw [List.length_take]; omega), List.take_take,
      Nat.min_eq_left (by omega), filled]
  have behind :
      (realloc fresh block (text.length + buffer.length + 1)).drop (text.length + buffer.length + 1) = [] := by
    rw [List.drop_eq_nil_iff, realloc_length]
  rw [appendBuffer, terminated_eq_self noNul, strcpy, front, behind, ← List.length_append,
    List.set_append_right _ _ (Nat.le_refl _)]
  simp

/-- The byte that the loops look at is the last one that was read. -/
theorem last_byte (nonempty : buffer ≠ []) (text : List Char) :
    (text ++ buffer ++ ['\x00'])[text.length + buffer.length - 1]? = buffer.getLast? := by
  have some_ : 0 < buffer.length := List.length_pos_iff.mpr nonempty
  rw [List.getElem?_append_left (by rw [List.length_append]; omega), List.getElem?_append_right (by omega),
    List.getLast?_eq_getElem?]
  congr 1
  omega

/-! ### What the user has typed -/

/-- The bytes that were read, piece by piece. -/
def typed (reads : List Read) : List (List Char) :=
  reads.filterMap fun
    | .bytes c => some c.bytes
    | .interrupted | .ended | .failed => none

/-- The standard input is open, and there is no NUL in what is read from it. -/
def Typing (reads : List Read) : Prop :=
  ∀ r ∈ reads, match r with
    | .bytes c => '\x00' ∉ c.bytes
    | .interrupted => True
    | .ended | .failed => False

/-- A read of a terminal has no line end in it but at its end. -/
def Canonical (reads : List Read) : Prop :=
  ∀ bytes ∈ typed reads, '\n' ∉ bytes.dropLast

instance (reads : List Read) : Decidable (Canonical reads) :=
  inferInstanceAs (Decidable (∀ bytes ∈ typed reads, _))

def endsLine (bytes : List Char) : Bool :=
  bytes.getLast? = some '\n'

/-- The messages that are complete. -/
def messages (reads : List Read) : List (List Char) :=
  (gather endsLine [] (typed reads)).1

/-- The messages up to the first one that starts with "quit", this one included. -/
def untilQuit (texts : List (List Char)) : List (List Char) :=
  texts.take (texts.findIdx quits + 1)

variable {reads : List Read} {i fuel : Nat} {socket : Nat → Nat → Nat → Option Nat}

theorem typing_cons {r : Read} (typing : Typing (r :: reads)) : Typing reads :=
  fun r' member => typing r' (List.mem_cons_of_mem _ member)

/-- `prompt` returns the first message that is complete, and leaves the rest; it waits if there is none. -/
theorem prompt_gathers (fresh : Nat → Char) (typing : Typing reads) (noNul : '\x00' ∉ text)
    {lineRead : Option (List Char)} (filled : (lineRead.getD []).take text.length = text) :
    (gather endsLine text (typed reads)).1 = [] ∧ prompt fresh lineRead text.length reads = .waiting ∨
      ∃ message rest, prompt fresh lineRead text.length reads = .returned (some (message ++ ['\x00'])) rest ∧
        (gather endsLine text (typed reads)).1 = message :: messages rest ∧ '\x00' ∉ message ∧
        Typing rest ∧ rest.length < reads.length := by
  induction reads generalizing text lineRead with
  | nil => exact .inl ⟨rfl, rfl⟩
  | cons r reads ih =>
    have later := typing_cons typing
    cases r with
    | ended => exact absurd (typing .ended List.mem_cons_self) id
    | failed => exact absurd (typing .failed List.mem_cons_self) id
    | interrupted =>
      rcases ih later noNul filled with nothing | ⟨message, rest, returns, first, clean, typing', shorter⟩
      · exact .inl nothing
      · exact .inr ⟨message, rest, returns, first, clean, typing', by rw [List.length_cons]; omega⟩
    | bytes c =>
      have cleanChunk : '\x00' ∉ c.bytes := typing (.bytes c) List.mem_cons_self
      have cleanText : '\x00' ∉ text ++ c.bytes := by simp [noNul, cleanChunk]
      have shape : typed (.bytes c :: reads) = c.bytes :: typed reads := rfl
      simp only [prompt, appendBuffer_eq filled cleanChunk, last_byte c.nonempty, shape]
      by_cases ended : c.bytes.getLast? = some '\n'
      · right
        refine ⟨text ++ c.bytes, reads, by rw [if_pos ended], ?_, cleanText, later, by simp⟩
        rw [gather_ends (by simpa [endsLine] using ended)]
        rfl
      · rw [if_neg ended, gather_goes_on (by simpa [endsLine] using ended), ← List.length_append]
        have filled' :
            ((some (text ++ c.bytes ++ ['\x00'])).getD []).take (text ++ c.bytes).length = text ++ c.bytes :=
          List.take_left
        rcases ih later cleanText filled' with nothing | ⟨message, rest, returns, first, clean, typing', shorter⟩
        · exact .inl nothing
        · exact .inr ⟨message, rest, returns, first, clean, typing', by rw [List.length_cons]; omega⟩

theorem untilQuit_cons (message : List Char) (texts : List (List Char)) :
    untilQuit (message :: texts) = message :: if quits message then [] else untilQuit texts := by
  cases found : quits message <;> simp [untilQuit, List.findIdx_cons, found]

/-- A message that fits an `int` is sent whole, in as many pieces as it takes. -/
theorem message_sent {once : Nat → Nat → Option Nat} {message : List Char} (honest : Honest once)
    (unfailing : ∀ k n, 0 < n → once k n ≠ none) (fits : message.length < 2 ^ 31) :
    sendRest (sendPart message) 0 (answers once (sendPart message).length 0 (sendPart message).length) =
      some (message, true) := by
  rw [(sendPart_eq_self_iff message).mpr fits]
  obtain ⟨bytes, complete, ran, -, whole, noFailure⟩ :=
    sendRest_answers (k := 0) (i := 0) honest (Nat.le_refl message.length)
  have never : ∀ fuel k n, none ∉ answers once fuel k n := by
    intro fuel
    induction fuel with
    | zero => simp [answers]
    | succ fuel ih =>
      intro k n
      rw [answers]
      by_cases done : n = 0
      · simp [done]
      · rw [if_neg done]
        cases answer : once k n with
        | none => exact absurd answer (unfailing k n (Nat.pos_of_ne_zero done))
        | some sent => simp [ih]
  have done : complete = true := noFailure.mpr (never _ _ _)
  rw [Nat.sub_zero] at ran
  rw [ran, done, whole.mp done]
  rfl

/-- What the client sends are the messages up to the one that makes it quit. -/
theorem sendCmd_eq (typing : Typing reads) (honest : ∀ i, Honest (socket i))
    (unfailing : ∀ i k n, 0 < n → socket i k n ≠ none) (fits : ∀ message ∈ messages reads, message.length < 2 ^ 31) (enough : reads.length < fuel) :
    sendCmd fresh socket fuel i reads =
      some ⟨(untilQuit (messages reads)).flatten, if (messages reads).any quits then .quit else .waiting⟩ := by
  induction fuel generalizing reads i with
  | zero => omega
  | succ fuel ih =>
    have noNul : '\x00' ∉ ([] : List Char) := by simp
    have nothing : ((none : Option (List Char)).getD []).take ([] : List Char).length = [] := rfl
    rcases prompt_gathers fresh typing noNul nothing with
      ⟨none_, waits⟩ | ⟨message, rest, returns, first, clean, typing', shorter⟩
    · have noMessage : messages reads = [] := none_
      simp only [List.length_nil] at waits
      simp [sendCmd, waits, noMessage, untilQuit]
    · have split : messages reads = message :: messages rest := first
      have string : terminated (message ++ ['\x00']) = message := cutAt_append clean []
      have sent := message_sent (honest i) (unfailing i) (fits message (by simp [split]))
      have later := ih (i := i + 1) typing' (fun m member => fits m (by simp [split, member])) (by omega)
      simp only [List.length_nil] at returns
      simp only [sendCmd, returns, string, sent, split, untilQuit_cons, List.any_cons]
      cases found : quits message with
      | true => simp
      | false => simp [later]

/-! ### What the daemon reads -/

theorem isPrefixOf_cutAt {word : CString} {c : Char} (absent : c ∉ word) (line : CString) :
    word.isPrefixOf (cutAt line c) = word.isPrefixOf line := by
  induction word generalizing line with
  | nil => rfl
  | cons a word ih =>
    simp only [List.mem_cons, not_or] at absent
    cases line with
    | nil => rfl
    | cons b line =>
      by_cases same : b = c
      · -- the cut is made in front of `b`, which is not in the word
        have differ : ¬ a = c := Ne.symm absent.1
        simp [cutAt, same, List.isPrefixOf, differ]
      · have goesOn : cutAt (b :: line) c = b :: cutAt line c := by simp [cutAt, same]
        rw [goesOn, List.isPrefixOf, List.isPrefixOf, ih absent.2]

theorem quits_cutAt (line : CString) : quits (cutAt line '\r') = quits line :=
  isPrefixOf_cutAt (by decide) line

theorem quits_line {line : CString} (noNewline : '\n' ∉ line) : quits (line ++ ['\n']) = quits line := by
  have cut : cutAt (line ++ ['\n']) '\n' = line := cutAt_append noNewline []
  rw [quits, ← isPrefixOf_cutAt (by decide : '\n' ∉ "quit".toList) (line ++ ['\n']), cut, quits]

/-- A line arrives up to its first `'\r'`. -/
theorem socketGetline_line {line : CString} (noNewline : '\n' ∉ line) (noNul : '\x00' ∉ line) (rest : List Char) :
    socketGetline (line ++ '\n' :: rest) = (some (cutAt line '\r'), rest) := by
  have clean : '\x00' ∉ line ++ ['\n'] := by simpa using noNul
  simp only [socketGetline, socketGetlineWithTrailer_append noNewline, Option.map_some, terminated_eq_self clean,
    stringRemoveTrailer]
  by_cases found : '\r' ∈ line
  · obtain ⟨before, behind, rfl, absent⟩ := List.eq_append_cons_of_mem found
    have kept : '\n' ∉ before := fun member => noNewline (List.mem_append_left _ member)
    rw [List.append_assoc, List.cons_append, cutAt_append absent, cutAt_append absent, cutAt_eq_self kept]
  · have whole : cutAt (line ++ ['\n']) '\r' = line ++ ['\n'] := cutAt_eq_self (by simpa using found)
    rw [whole, cutAt_append noNewline, cutAt_eq_self found]

/-- On a terminal a message is a line. -/
theorem messages_lines {chunks : List (List Char)} (canonical : ∀ bytes ∈ chunks, '\n' ∉ bytes.dropLast)
    (noNul : ∀ bytes ∈ chunks, '\x00' ∉ bytes) (openText : '\n' ∉ text) (cleanText : '\x00' ∉ text) :
    (∃ lines : List CString, (gather endsLine text chunks).1 = lines.map (· ++ ['\n']) ∧
      ∀ line ∈ lines, '\n' ∉ line ∧ '\x00' ∉ line) ∧ '\n' ∉ (gather endsLine text chunks).2 := by
  induction chunks generalizing text with
  | nil => exact ⟨⟨[], rfl, by simp⟩, openText⟩
  | cons bytes chunks ih =>
    have canonical' := fun b member => canonical b (List.mem_cons_of_mem bytes member)
    have noNul' := fun b member => noNul b (List.mem_cons_of_mem bytes member)
    have first : '\n' ∉ bytes.dropLast := canonical bytes List.mem_cons_self
    have cleanBytes : '\x00' ∉ bytes := noNul bytes List.mem_cons_self
    by_cases ended : bytes.getLast? = some '\n'
    · obtain ⟨front, rfl⟩ := List.getLast?_eq_some_iff.mp ended
      rw [List.dropLast_concat] at first
      rw [gather_ends (by simp [endsLine])]
      obtain ⟨⟨lines, shape, clean⟩, left⟩ := ih canonical' noNul' List.not_mem_nil List.not_mem_nil
      refine ⟨⟨(text ++ front) :: lines, by simp [shape], ?_⟩, left⟩
      intro line member
      rcases List.mem_cons.mp member with rfl | later
      · simp only [List.mem_append, not_or] at cleanBytes ⊢
        exact ⟨⟨openText, first⟩, cleanText, cleanBytes.1⟩
      · exact clean line later
    · rw [gather_goes_on (by simpa [endsLine] using ended)]
      refine ih canonical' noNul' ?_ (by simp [cleanText, cleanBytes])
      have noNewline : '\n' ∉ bytes := by
        intro member
        rcases List.eq_nil_or_concat' bytes with rfl | ⟨front, last, rfl⟩
        · simp at member
        · rw [List.dropLast_concat] at first
          rw [List.getLast?_concat, Option.some.injEq] at ended
          rcases List.mem_append.mp member with before | here
          · exact first before
          · exact ended (List.mem_singleton.mp here).symm
      simp [openText, noNewline]

/-- The daemon's loop goes on with the lines in front of the one that makes it quit. -/
theorem handleRequests_lines {lines : List CString} (clean : ∀ line ∈ lines, '\n' ∉ line ∧ '\x00' ∉ line)
    (enough : lines.length < fuel) :
    handleRequests fuel (untilQuit (lines.map (· ++ ['\n']))).flatten =
      ((lines.takeWhile fun l => !quits l).map (cutAt · '\r'), lines.any quits) := by
  induction lines generalizing fuel with
  | nil =>
    cases fuel with
    | zero => omega
    | succ fuel => rfl
  | cons line lines ih =>
    cases fuel with
    | zero => omega
    | succ fuel =>
      obtain ⟨noNewline, noNul⟩ := clean line List.mem_cons_self
      have later := ih (fun l member => clean l (List.mem_cons_of_mem _ member)) (Nat.lt_of_succ_lt_succ enough)
      rw [List.map_cons, untilQuit_cons, quits_line noNewline, List.flatten_cons, List.append_assoc,
        List.singleton_append, handleRequests, socketGetline_line noNewline noNul]
      simp only [quits_cutAt]
      cases found : quits line with
      | true => simp [found]
      | false => simp [found, later]

/-- Two commands and something behind them, in four reads with an interruption; three bytes are sent at a time. -/
def readList : List Read :=
  [.bytes ⟨"li".toList, by decide, by decide⟩, .interrupted, .bytes ⟨"st\n".toList, by decide, by decide⟩,
    .bytes ⟨"quit\n".toList, by decide, by decide⟩, .bytes ⟨"help\n".toList, by decide, by decide⟩]

end Pire2Pire.Client
