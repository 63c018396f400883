import Pire2Pire.Protocol.SendLock

/-! What peers get into the log (`util/logger.c`): the lines that they send, and the messages with names in them that
they have chosen.

What is written to the log is not refused, and `lock_log` keeps the entries apart. -/
namespace Pire2Pire.Logger

open Library Protocol SendLock

/-- `vfprintf` without arguments: what it writes for a format. A conversion needs an argument, so that of any but `%%`
there is no result. -/
def vfprintf : CString → Option CString
  | [] => some []
  | '%' :: '%' :: format => (vfprintf format).map ('%' :: ·)
  | '%' :: _ => none
  | c :: format => (vfprintf format).map (c :: ·)

/-- What each call of the logger has written. -/
abbrev Log := List CString

def logger (log : Log) (msg header : CString) : Option Log :=
  (vfprintf msg).map fun text => log ++ [header ++ text ++ ['\n']]

def loggerNoNewline (log : Log) (msg header : CString) : Option Log :=
  (vfprintf msg).map fun text => log ++ [header ++ text]

def logRecv (log : Log) (msg : CString) : Option Log :=
  logger log msg " [<] ".toList

def logSend (log : Log) (msg : CString) : Option Log :=
  loggerNoNewline log msg " [>] ".toList

/-- The formats that are given to `log_failure` are the program's own; `text` is what comes of them. -/
def logFailure (log : Log) (text : CString) : Log :=
  log ++ [" [FAIL] ".toList ++ text ++ ['\n']]

/-! ### The callers -/

/-- The log, and the field `cmd` of the request; there is no request if `malloc` fails. -/
def daemonRequestNew (log : Log) (cmd : CString) (allocated : Bool) : Option (Log × Option CString) := do
  let log ← logRecv log cmd
  return (log, if allocated then some cmd else none)

/-- The log after a call of `daemon_send`, or while it is still sending. -/
def daemonSend (log : Log) (msg : CString) (calls : Calls) (strerror : CString) : Option Log := do
  let log ← logSend log msg
  if !calls.waits then return logFailure log ("failed to sem_wait socket_lock, error: ".toList ++ strerror)
  match sendRest (sendPart msg) 0 calls.sends with
  | none => return log
  | some (_, false) => return logFailure log ("couldn't send to daemon socket, error: ".toList ++ strerror)
  | some (_, true) =>
    if calls.posts then return log
    else return logFailure log ("failed to sem_post socket_lock, error: ".toList ++ strerror)

/-- The log after a call of `socket_sendline`, or while it is still sending. -/
def socketSendline (log : Log) (msg : CString) (sends : List (Option Nat)) : Option Log :=
  match sendRest (sendPart msg) 0 sends with
  | none => some log
  | some (_, false) => some (logFailure log "socket_sendline (): Failed to send".toList)
  | some (_, true) => logSend log msg

/-- What the calls of `send` return for a message on a socket. -/
def sendsOn (socket : Nat → Nat → Option Nat) (msg : CString) : List (Option Nat) :=
  answers socket (sendPart msg).length 0 (sendPart msg).length

/-- What was to be logged is an entry, and only failures come behind it. -/
def Logged (log : Log) (entry : CString) (log' : Option Log) : Prop :=
  ∃ failures, log' = some (log ++ entry :: failures)

variable {log log' : Log} {msg header text format cmd : CString} {socket : Nat → Nat → Option Nat}

/-! ### Formats -/

/-- A format with another conversion is the one that nothing is known of. -/
theorem vfprintf_isSome (format : CString) : (vfprintf format).isSome = isPlainFormat format := by
  fun_induction isPlainFormat format with
  | case1 => rfl
  | case2 format ih => rw [vfprintf, Option.isSome_map, ih]
  | case3 format notTwice =>
    rw [vfprintf]
    · rfl
    · exact notTwice
  | case4 c format notTwice notPercent ih =>
    rw [vfprintf, Option.isSome_map, ih]
    · exact notTwice
    · exact notPercent

/-- Of every `%%` one half is written. -/
theorem vfprintf_length (written : vfprintf format = some text) :
    format.length = text.length + text.count '%' := by
  fun_induction vfprintf format generalizing text with
  | case1 =>
    cases written
    rfl
  | case2 format ih =>
    obtain ⟨text', written', rfl⟩ := Option.map_eq_some_iff.mp written
    rw [List.length_cons, List.length_cons, ih written', List.length_cons, List.count_cons_self]
    omega
  | case3 => cases written
  | case4 c format notTwice notPercent ih =>
    obtain ⟨text', written', rfl⟩ := Option.map_eq_some_iff.mp written
    have other : c ≠ '%' := notPercent
    rw [List.length_cons, ih written', List.length_cons, List.count_cons_of_ne other]
    omega

/-- A text is written as it is iff nothing in it could be a conversion. -/
theorem vfprintf_eq_self_iff : vfprintf text = some text ↔ '%' ∉ text := by
  constructor
  · intro written
    have length := vfprintf_length written
    exact List.count_eq_zero.mp (by omega)
  · intro absent
    induction text with
    | nil => rfl
    | cons c text ih =>
      simp only [List.mem_cons, not_or] at absent
      have other : c ≠ '%' := fun same => absent.1 same.symm
      rw [vfprintf, ih absent.2, Option.map_some]
      · intro format same
        exact absurd same other
      · exact other

/-! ### Entries -/

theorem logged_append (entry entry' : CString) (failures : Log) :
    Logged log entry (some (log ++ entry' :: failures)) ↔ entry' = entry := by
  simp only [Logged, Option.some.injEq, List.append_cancel_left_eq, List.cons.injEq]
  constructor
  · rintro ⟨-, same, -⟩
    exact same
  · intro same
    exact ⟨failures, same, rfl⟩

/-- An entry is the text with a header in front of it iff the text is no format. -/
theorem logged_map_iff (log : Log) (text header trailer : CString) (failures : Log) :
    Logged log (header ++ text ++ trailer)
      ((vfprintf text).map fun written => log ++ (header ++ written ++ trailer) :: failures) ↔ '%' ∉ text := by
  rw [← vfprintf_eq_self_iff]
  cases vfprintf text with
  | none => simp [Logged]
  | some written =>
    rw [Option.map_some, logged_append, Option.some.injEq]
    simp only [List.append_assoc, List.append_cancel_left_eq, List.append_cancel_right_eq]

theorem daemonRequestNew_entry (log : Log) (cmd : CString) (allocated : Bool) :
    (daemonRequestNew log cmd allocated).map Prod.fst =
      (vfprintf cmd).map fun written => log ++ [" [<] ".toList ++ written ++ ['\n']] := by
  unfold daemonRequestNew logRecv logger
  cases vfprintf cmd <;> rfl

theorem logSend_entry (log : Log) (msg : CString) :
    logSend log msg = (vfprintf msg).map fun written => log ++ [" [>] ".toList ++ written ++ []] := by
  simp only [logSend, loggerNoNewline, List.append_nil]

/-- The message is the first entry, and what comes behind it does not depend on what was written. -/
theorem daemonSend_entry (log : Log) (msg : CString) (calls : Calls) (strerror : CString) :
    ∃ failures, daemonSend log msg calls strerror =
      (vfprintf msg).map fun written => log ++ (" [>] ".toList ++ written ++ []) :: failures := by
  unfold daemonSend
  rw [logSend_entry]
  cases vfprintf msg with
  | none => exact ⟨[], rfl⟩
  | some written =>
    simp only [Option.map_some, Option.bind_eq_bind, Option.bind_some]
    cases calls.waits with
    | false => exact ⟨[_], by simp only [Bool.not_false, if_true, logFailure, List.append_assoc]; rfl⟩
    | true =>
      simp only [Bool.not_true, Bool.false_eq_true, if_false]
      -- how the loop ends decides on the entry behind the message
      split
      · exact ⟨[], rfl⟩
      · exact ⟨[_], by simp only [logFailure, List.append_assoc]; rfl⟩
      · cases calls.posts with
        | true => exact ⟨[], rfl⟩
        | false => exact ⟨[_], by simp only [Bool.false_eq_true, if_false, logFailure, List.append_assoc]; rfl⟩

/-- A failure is no message. -/
theorem not_logged_failure (log : Log) (msg text : CString) :
    ¬ Logged log (" [>] ".toList ++ msg) (some (logFailure log text)) := by
  rw [logFailure, logged_append]
  intro same
  have third := congrArg (fun entry => entry[2]?) same
  simp at third

/-- On a socket, `socket_sendline` logs its message once it is sent, and a failure if it cannot be. -/
theorem socketSendline_cases (honest : Honest socket) (log : Log) (msg : CString) :
    socketSendline log msg (sendsOn socket msg) =
      if none ∈ sendsOn socket msg then
        some (logFailure log "socket_sendline (): Failed to send".toList)
      else logSend log msg := by
  obtain ⟨bytes, complete, ran, -, -, unfailed⟩ :=
    sendRest_answers (k := 0) (i := 0) honest (Nat.le_refl (sendPart msg).length)
  rw [Nat.sub_zero] at ran unfailed
  unfold socketSendline sendsOn
  rw [ran]
  cases complete with
  | true => rw [if_neg (unfailed.mp rfl)]
  | false =>
    have failed : ¬ none ∉ answers socket (sendPart msg).length 0 (sendPart msg).length := by
      intro whole
      exact Bool.false_ne_true (unfailed.mpr whole)
    rw [if_pos (not_not.mp failed)]

/-- What a peer sends and what is sent to a peer is logged as it is iff there is no `%` in it, and, for
`socket_sendline`, no `send` fails. -/
theorem logged_iff_plain (log : Log) (text : CString) (allocated : Bool) (calls : Calls) (strerror : CString)
    (honest : Honest socket) :
    (Logged log (" [<] ".toList ++ text ++ ['\n']) ((daemonRequestNew log text allocated).map Prod.fst) ↔
      '%' ∉ text) ∧
    (Logged log (" [>] ".toList ++ text) (daemonSend log text calls strerror) ↔ '%' ∉ text) ∧
    (Logged log (" [>] ".toList ++ text) (socketSendline log text (sendsOn socket text)) ↔
      '%' ∉ text ∧ none ∉ sendsOn socket text) := by
  have sent := logged_map_iff log text " [>] ".toList []
  rw [List.append_nil] at sent
  refine ⟨?_, ?_, ?_⟩
  · rw [daemonRequestNew_entry]
    exact logged_map_iff _ _ _ _ []
  · obtain ⟨failures, written⟩ := daemonSend_entry log text calls strerror
    rw [written]
    exact sent failures
  · rw [socketSendline_cases honest]
    split
    next failed => simp only [not_logged_failure, failed, not_true_eq_false, and_false]
    next whole =>
      rw [logSend_entry, sent []]
      simp only [whole, not_false_eq_true, and_true]

/-- An address in a message is logged as it is. -/
theorem neighbour_logged :
    Logged [] " [>] neighbour 10.0.0.2:7331\n".toList
      (daemonSend [] "neighbour 10.0.0.2:7331\n".toList ⟨true, [some 24], true⟩ []) := by
  have honest : Honest fun _ remaining => if remaining = 0 then none else some remaining := by
    intro i remaining nbSent answer
    dsimp only at answer
    split at answer
    · cases answer
    · cases answer
      omega
  exact (logged_iff_plain [] _ true _ [] honest).2.1.mpr (by decide +kernel)

/-- A conversion in a line is one for `vfprintf`. -/
theorem percent_not_logged :
    ¬ ∀ (log : Log) (cmd : CString) (allocated : Bool), Received cmd →
      Logged log (" [<] ".toList ++ cmd ++ ['\n']) ((daemonRequestNew log cmd allocated).map Prod.fst) := by
  intro data
  obtain ⟨failures, logged⟩ := data [] "list %s".toList true (by decide +kernel)
  rw [daemonRequestNew_entry, show vfprintf "list %s".toList = none by decide +kernel] at logged
  cases logged

end Pire2Pire.Logger
