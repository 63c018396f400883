import Pire2Pire.Protocol.CmdParser

/-! Reading a line from a connection (`util/socket.c`, `util/string.c`), splitting it at single
spaces (`util/cmd.c`), and the lines of fields that both splitters take apart again. -/
namespace Pire2Pire.Protocol

open Library

def stringRemoveTrailer (msg : CString) : CString :=
  cutAt (cutAt msg '\r') '\n'

/-- One byte at a time up to and with the first `'\n'`, or up to the end of the connection; without any
byte the message stays NULL. The second part is what is still to be read. -/
def socketGetlineWithTrailer : List Char → Option (List Char) × List Char
  | [] => (none, [])
  | c :: stream =>
    if c = '\n' then (some [c], stream)
    else
      let (message, rest) := socketGetlineWithTrailer stream
      (some (c :: message.getD []), rest)

def socketGetline (stream : List Char) : Option CString × List Char :=
  let (message, rest) := socketGetlineWithTrailer stream
  (message.map fun bytes => stringRemoveTrailer (terminated bytes), rest)

/-- The loop of `cmd_to_argc_argv`: `buffer` holds what was read since `beginning`, backwards. -/
def splitLoop : CString → List Char → List CString
  | [], buffer => [buffer.reverse]
  | c :: s, buffer => if c = ' ' then buffer.reverse :: splitLoop s [] else splitLoop s (c :: buffer)

def cmdToArgcArgv (s : CString) : List CString :=
  splitLoop s []

/-- `IS_CMD` (`is_cmd.h`). -/
def isCmd (msg cmd : CString) : Bool :=
  cmd.isPrefixOf msg ∧ (msg.length = cmd.length ∨ msg[cmd.length]? = some ' ')

/-- What a line read from a connection can contain. -/
structure Received (line : CString) : Prop where
  noReturn : '\r' ∉ line
  noNewline : '\n' ∉ line
  noNul : '\x00' ∉ line

instance (line : CString) : Decidable (Received line) :=
  decidable_of_iff ('\r' ∉ line ∧ '\n' ∉ line ∧ '\x00' ∉ line)
    ⟨fun parts => ⟨parts.1, parts.2.1, parts.2.2⟩, fun clean => ⟨clean.noReturn, clean.noNewline, clean.noNul⟩⟩

variable {line w : CString} {stream rest : List Char}

/-- A part of a clean text is clean. -/
theorem received_subset (received : Received line) (inside : ∀ c ∈ w, c ∈ line) : Received w :=
  ⟨fun found => received.noReturn (inside _ found), fun found => received.noNewline (inside _ found),
    fun found => received.noNul (inside _ found)⟩

theorem notMem_terminated (bytes : List Char) : '\x00' ∉ terminated bytes :=
  notMem_cutAt bytes '\x00'

theorem terminated_eq_self {bytes : List Char} (absent : '\x00' ∉ bytes) : terminated bytes = bytes :=
  cutAt_eq_self absent

theorem stringRemoveTrailer_received {msg : CString} (noNul : '\x00' ∉ msg) :
    Received (stringRemoveTrailer msg) := by
  -- `'\r'` is cut first, so the second cut can only remove more
  refine ⟨?_, ?_, ?_⟩
  · intro member
    exact notMem_cutAt msg '\r' (mem_of_mem_cutAt member)
  · exact notMem_cutAt _ '\n'
  · intro member
    exact noNul (mem_of_mem_cutAt (mem_of_mem_cutAt member))

/-- Whatever is sent, the line that arrives has no NUL and no line end in it. -/
theorem socketGetline_received (got : (socketGetline stream).1 = some line) : Received line := by
  simp only [socketGetline, Option.map_eq_some_iff] at got
  obtain ⟨bytes, -, rfl⟩ := got
  exact stringRemoveTrailer_received (notMem_terminated bytes)

theorem socketGetlineWithTrailer_append (noNewline : '\n' ∉ line) (rest : List Char) :
    socketGetlineWithTrailer (line ++ '\n' :: rest) = (some (line ++ ['\n']), rest) := by
  induction line with
  | nil => rfl
  | cons c line ih =>
    -- the first byte is kept, and the recursion goes on behind it
    simp only [List.mem_cons, not_or] at noNewline
    have differ : c ≠ '\n' := fun equal => noNewline.1 equal.symm
    simp [socketGetlineWithTrailer, differ, ih noNewline.2]

/-- A clean line arrives as it was sent. -/
theorem socketGetline_append (clean : Received line) (rest : List Char) :
    socketGetline (line ++ '\n' :: rest) = (some line, rest) := by
  have noNul : '\x00' ∉ line ++ ['\n'] := by
    simpa using clean.noNul
  have noReturn : '\r' ∉ line ++ ['\n'] := by
    simpa using clean.noReturn
  -- neither cut finds anything before the `'\n'` that was added
  simp only [socketGetline, socketGetlineWithTrailer_append clean.noNewline, Option.map_some,
    terminated_eq_self noNul, stringRemoveTrailer, cutAt_eq_self noReturn]
  rw [cutAt_append clean.noNewline]

/-! ### The plain splitter -/

theorem splitLoop_append (noSpace : ' ' ∉ w) (buffer : List Char) (s : CString) :
    splitLoop (w ++ ' ' :: s) buffer = (buffer.reverse ++ w) :: splitLoop s [] := by
  induction w generalizing buffer with
  | nil => simp [splitLoop]
  | cons c w ih =>
    simp only [List.mem_cons, not_or] at noSpace
    have differ : c ≠ ' ' := fun equal => noSpace.1 equal.symm
    simp [splitLoop, differ, ih noSpace.2]

theorem splitLoop_single (noSpace : ' ' ∉ w) (buffer : List Char) :
    splitLoop w buffer = [buffer.reverse ++ w] := by
  induction w generalizing buffer with
  | nil => simp [splitLoop]
  | cons c w ih =>
    simp only [List.mem_cons, not_or] at noSpace
    have differ : c ≠ ' ' := fun equal => noSpace.1 equal.symm
    simp [splitLoop, differ, ih noSpace.2]

theorem cmdToArgcArgv_append (noSpace : ' ' ∉ w) (s : CString) :
    cmdToArgcArgv (w ++ ' ' :: s) = w :: cmdToArgcArgv s :=
  splitLoop_append noSpace [] s

theorem cmdToArgcArgv_single (noSpace : ' ' ∉ w) : cmdToArgcArgv w = [w] :=
  splitLoop_single noSpace []

/-! ### Lines of fields -/

/-- `"%s %s .. %s"`. -/
def joinFields : List CString → CString
  | [] => []
  | [w] => w
  | w :: ws => w ++ ' ' :: joinFields ws

/-- A text that stays in one piece on its way to the peer. -/
structure Field (w : CString) : Prop extends Received w where
  nonempty : w ≠ []
  noSpace : ' ' ∉ w

variable {ws : List CString}

theorem Field.clean (field : Field w) : ∀ c ∈ w, isADelimiter c = false := by
  intro c member
  simp only [isADelimiter, decide_eq_false_iff_not, not_or]
  -- of the bytes that the parser splits at, a line has no `'\n'` left
  constructor
  · intro equal
    exact field.noSpace (equal ▸ member)
  · intro equal
    exact field.noNewline (equal ▸ member)

/-- The tokens of a received line are fields. -/
theorem field_of_mem_words (received : Received line) (member : w ∈ words isADelimiter line) : Field w := by
  -- a token is a part of the line without the blanks
  refine ⟨received_subset received (words_subset member), words_ne_nil member, ?_⟩
  intro found
  exact absurd (words_clean member _ found) (by decide)

theorem received_append {v : CString} : Received (w ++ v) ↔ Received w ∧ Received v := by
  constructor
  · intro clean
    exact ⟨received_subset clean fun _ => List.mem_append_left _,
      received_subset clean fun _ => List.mem_append_right _⟩
  · rintro ⟨first, second⟩
    refine ⟨?_, ?_, ?_⟩
    · simp [first.noReturn, second.noReturn]
    · simp [first.noNewline, second.noNewline]
    · simp [first.noNul, second.noNul]

theorem received_nil : Received [] :=
  ⟨by simp, by simp, by simp⟩

theorem received_cons {c : Char} : Received (c :: w) ↔ Received [c] ∧ Received w :=
  received_append (w := [c])

theorem received_space : Received [' '] :=
  ⟨by decide, by decide, by decide⟩

theorem received_joinFields_iff : Received (joinFields ws) ↔ ∀ w ∈ ws, Received w := by
  induction ws with
  | nil => simp [joinFields, received_nil]
  | cons w ws ih =>
    cases ws with
    | nil => simp [joinFields]
    | cons v ws =>
      -- the blank between two fields is clean itself
      have shape : joinFields (w :: v :: ws) = w ++ ' ' :: joinFields (v :: ws) := rfl
      rw [shape, received_append, received_cons, List.forall_mem_cons, ih]
      simp only [received_space, true_and]

theorem received_joinFields (fields : ∀ w ∈ ws, Field w) : Received (joinFields ws) :=
  received_joinFields_iff.mpr fun w member => (fields w member).toReceived

/-- A line of fields arrives as it was sent. -/
theorem socketGetline_joinFields (fields : ∀ w ∈ ws, Field w) (rest : List Char) :
    socketGetline (joinFields ws ++ '\n' :: rest) = (some (joinFields ws), rest) :=
  socketGetline_append (received_joinFields fields) rest

/-- The option-aware parser finds the fields. -/
theorem words_joinFields (fields : ∀ w ∈ ws, Field w) : words isADelimiter (joinFields ws) = ws := by
  induction ws with
  | nil => exact words_nil
  | cons w ws ih =>
    -- the first field ends at its blank, and the rest is a line of fields again
    have first := fields w (by simp)
    have rest := ih fun v member => fields v (List.mem_cons_of_mem _ member)
    cases ws with
    | nil => exact words_single first.nonempty first.clean
    | cons v ws =>
      rw [joinFields, words_append first.nonempty first.clean (by decide), rest]
      simp

/-- The plain splitter finds the fields. -/
theorem cmdToArgcArgv_joinFields (nonempty : ws ≠ []) (fields : ∀ w ∈ ws, Field w) :
    cmdToArgcArgv (joinFields ws) = ws := by
  induction ws with
  | nil => exact absurd rfl nonempty
  | cons w ws ih =>
    have first := fields w (by simp)
    cases ws with
    | nil => exact cmdToArgcArgv_single first.noSpace
    | cons v ws =>
      -- unlike the parser, the splitter would make an empty field of an empty rest
      have rest := ih (by simp) fun v member => fields v (List.mem_cons_of_mem _ member)
      rw [joinFields, cmdToArgcArgv_append first.noSpace, rest]
      simp

end Pire2Pire.Protocol
