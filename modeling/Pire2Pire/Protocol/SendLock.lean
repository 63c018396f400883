import Pire2Pire.Protocol.Transport

/-! The lock around a message that is sent in pieces (`daemon_send` in `daemon.c`, `client_send` in `client.c`):
what a call leaves on the socket, in its lock and in its return value, however its calls turn out. -/
namespace Pire2Pire.SendLock

open Library Protocol

/-- The fields of `struct daemon` and `struct client` that sending uses: the value of the semaphore
`socket_lock`, and what was put on `socket`. -/
structure Peer where
  socketLock : Nat
  wire : List Char
deriving DecidableEq, Repr

/-- How the calls of one function turn out: `sem_wait` and `sem_post` succeed or not, and what each `send`
returns. -/
structure Calls where
  waits : Bool
  sends : List (Option Nat)
  posts : Bool
deriving DecidableEq, Repr

/-- The characters that the loop sends: `send_size` is the length of the message as an `int`. -/
def sendPart (msg : CString) : CString :=
  msg.take (Int32.ofNat msg.length).toInt.toNat

/-- A function around the loop: `sem_wait` waits for a lock that is taken, and nothing is sent without it. The
result is the socket afterwards and the value returned; there is none while the call has not returned. -/
def withLock (loop : CString → List (Option Nat) → Option Delivery) (p : Peer) (msg : CString) (calls : Calls) :
    Option (Peer × Int) :=
  if calls.waits then
    match p.socketLock with
    | 0 => none
    | lock + 1 =>
      (loop (sendPart msg) calls.sends).map fun delivery =>
        (⟨if delivery.unlocked ∧ calls.posts then lock + 1 else lock, p.wire ++ delivery.bytes⟩, delivery.code)
  else some (p, -1)

/-- `log_send` gives the message to `vfprintf` for a format, without arguments: it is written only if each `%` in it
is a half of a `%%`, and else the result is undefined. -/
def isPlainFormat : CString → Bool
  | [] => true
  | '%' :: '%' :: format => isPlainFormat format
  | '%' :: _ => false
  | _ :: format => isPlainFormat format

def daemonSend (d : Peer) (msg : CString) (calls : Calls) : Option (Peer × Int) :=
  if isPlainFormat msg then withLock Protocol.daemonSend d msg calls else none

def clientSend (c : Peer) (msg : CString) (calls : Calls) : Option (Peer × Int) :=
  withLock Protocol.clientSend c msg calls

/-- Whom a message is for. -/
inductive Receiver where
  | daemon
  | client
deriving DecidableEq, Repr

/-- Only `daemon_send` writes the message to the log. -/
def Receiver.logs : Receiver → CString → Bool
  | .daemon, msg => isPlainFormat msg
  | .client, _ => true

def Receiver.send : Receiver → Peer → CString → Calls → Option (Peer × Int)
  | .daemon => daemonSend
  | .client => clientSend

/-- The counts the loop sees on a socket that answers the `i`-th `send` of so many bytes as `socket` says. -/
def answers (socket : Nat → Nat → Option Nat) : Nat → Nat → Nat → List (Option Nat)
  | 0, _, _ => []
  | fuel + 1, i, remaining =>
    if remaining = 0 then []
    else
      match socket i remaining with
      | none => [none]
      | some nbSent => some nbSent :: answers socket fuel (i + 1) (remaining - nbSent)

/-- A `send` that does not fail takes something, and not more than it is given. -/
def Honest (socket : Nat → Nat → Option Nat) : Prop :=
  ∀ i remaining nbSent, socket i remaining = some nbSent → 0 < nbSent ∧ nbSent ≤ remaining

/-- The calls of a function that sends `msg` on such a socket. -/
def callsOn (socket : Nat → Nat → Option Nat) (msg : CString) (waits posts : Bool) : Calls :=
  ⟨waits, answers socket (sendPart msg).length 0 (sendPart msg).length, posts⟩

/-- What a call promises: 0 is returned iff the whole message was sent, once and in order, and -1 otherwise,
with a part from its front sent; the lock is as it was. -/
structure Kept (p p' : Peer) (msg : CString) (code : Int) : Prop where
  whole : code = 0 ↔ p'.wire = p.wire ++ msg
  failed : code ≠ 0 → code = -1 ∧ ∃ sent, sent <+: msg ∧ sent ≠ msg ∧ p'.wire = p.wire ++ sent
  lock : p'.socketLock = p.socketLock

/-- The message can be logged; its length fits an `int`, no `send` fails, and the lock is given back. Without the
lock there is nothing to send but an empty message. -/
def Untroubled (r : Receiver) (msg : CString) (calls : Calls) : Prop :=
  r.logs msg = true ∧
    if calls.waits then msg.length < 2 ^ 31 ∧ none ∉ calls.sends ∧ calls.posts = true else msg ≠ []

instance (r : Receiver) (msg : CString) (calls : Calls) : Decidable (Untroubled r msg calls) :=
  inferInstanceAs (Decidable (_ ∧ if calls.waits then msg.length < 2 ^ 31 ∧ none ∉ calls.sends ∧ calls.posts = true
    else msg ≠ []))

variable {socket : Nat → Nat → Option Nat} {msg : CString} {p p' : Peer} {calls : Calls} {code : Int}
  {k i fuel : Nat}

/-! ### The loop -/

/-- The loop ends on every such socket: what was sent is a part from the front, and it is all that was left iff
no call failed. -/
theorem sendRest_answers (honest : Honest socket) (enough : msg.length - k ≤ fuel) :
    ∃ bytes complete, sendRest msg k (answers socket fuel i (msg.length - k)) = some (bytes, complete) ∧
      bytes <+: msg.drop k ∧ (complete = true ↔ bytes = msg.drop k) ∧
      (complete = true ↔ none ∉ answers socket fuel i (msg.length - k)) := by
  -- induction on the bound of the loop, from behind the `k` characters that are sent
  induction fuel generalizing k i with
  | zero =>
    have done : ¬k < msg.length := by omega
    refine ⟨[], true, by simp [answers, sendRest, done], List.nil_prefix, ?_, by simp [answers]⟩
    simpa using Nat.not_lt.mp done
  | succ fuel ih =>
    by_cases done : msg.length - k = 0
    · have none_left : ¬k < msg.length := by omega
      refine ⟨[], true, by simp [answers, done, sendRest, none_left], List.nil_prefix, ?_, by simp [answers, done]⟩
      simpa using Nat.not_lt.mp none_left
    have more : k < msg.length := by omega
    cases answer : socket i (msg.length - k) with
    | none =>
      -- something was left to send
      refine ⟨[], false, by simp [answers, done, answer, sendRest, more], List.nil_prefix, ?_, ?_⟩
      · simpa using more
      · simp [answers, done, answer]
    | some nbSent =>
      obtain ⟨positive, fits⟩ := honest i _ nbSent answer
      have behind : msg.length - (k + nbSent) = msg.length - k - nbSent := by omega
      obtain ⟨bytes, complete, ran, front, all, unfailed⟩ := ih (k := k + nbSent) (i := i + 1) (by omega)
      rw [behind] at ran unfailed
      have split : (msg.drop k).take nbSent ++ msg.drop (k + nbSent) = msg.drop k := by
        rw [← List.drop_drop, List.take_append_drop]
      refine ⟨(msg.drop k).take nbSent ++ bytes, complete, ?_, ?_, ?_, ?_⟩
      · simp only [answers, done, if_false, answer, sendRest, more, if_true, fits, ran, Option.map_some]
      · have longer := (List.prefix_append_right_inj ((msg.drop k).take nbSent)).mpr front
        rwa [split] at longer
      · rw [all]
        constructor
        · intro same
          rw [same, split]
        · intro same
          exact List.append_cancel_left (same.trans split.symm)
      · simpa [answers, done, answer] using unfailed

/-- Stored in an `int`, a length is what it was only if it fits. -/
theorem sendPart_eq_self_iff (msg : CString) : sendPart msg = msg ↔ msg.length < 2 ^ 31 := by
  have high := (Int32.ofNat msg.length).toInt_lt
  constructor
  · intro same
    have fits := congrArg List.length same
    rw [sendPart, List.length_take] at fits
    omega
  · intro small
    apply List.take_of_length_le
    rw [Int32.toInt_ofNat_of_lt small]
    simp

theorem isPlainFormat_of_notMem (absent : '%' ∉ msg) : isPlainFormat msg = true := by
  induction msg with
  | nil => rfl
  | cons c msg ih =>
    simp only [List.mem_cons, not_or] at absent
    unfold isPlainFormat
    split
    · rfl
    next same =>
      cases same
      exact absurd rfl absent.1
    next same =>
      cases same
      exact absurd rfl absent.1
    next same =>
      cases same
      exact ih absent.2

/-! ### The functions -/

/-- The two functions are the same, up to whose socket it is and to the log. -/
theorem Receiver.send_logged (r : Receiver) (logged : r.logs msg = true) :
    r.send p msg calls = withLock lockedSend p msg calls := by
  cases r with
  | daemon => exact if_pos logged
  | client => rfl

theorem Receiver.send_unlogged (r : Receiver) (unlogged : r.logs msg = false) : r.send p msg calls = none := by
  cases r with
  | daemon => exact if_neg (Bool.eq_false_iff.mp unlogged)
  | client => cases unlogged

/-- What comes back from a call that got the lock. -/
theorem send_delivers (r : Receiver) (honest : Honest socket) (free : 0 < p.socketLock) (logged : r.logs msg = true)
    (posts : Bool) :
    ∃ bytes complete, r.send p msg (callsOn socket msg true posts) =
        some (⟨if complete = true ∧ posts = true then p.socketLock else p.socketLock - 1, p.wire ++ bytes⟩,
          if complete = true then 0 else -1) ∧
      bytes <+: sendPart msg ∧ (complete = true ↔ bytes = sendPart msg) ∧
      (complete = true ↔ none ∉ (callsOn socket msg true posts).sends) := by
  obtain ⟨lock, taken⟩ : ∃ lock, p.socketLock = lock + 1 := ⟨p.socketLock - 1, by omega⟩
  obtain ⟨bytes, complete, ran, front, all, unfailed⟩ :=
    sendRest_answers (k := 0) (i := 0) honest (Nat.le_refl (sendPart msg).length)
  refine ⟨bytes, complete, ?_, by simpa using front, by simpa using all, by simpa [callsOn] using unfailed⟩
  simp only [Nat.sub_zero] at ran
  rw [r.send_logged logged]
  cases complete with
  | true => simp [withLock, callsOn, taken, lockedSend, ran]
  | false => simp [withLock, callsOn, taken, lockedSend, ran]

theorem send_untroubled (r : Receiver) {posts : Bool} (honest : Honest socket) (free : 0 < p.socketLock)
    (untroubled : Untroubled r msg (callsOn socket msg true posts)) :
    r.send p msg (callsOn socket msg true posts) = some (⟨p.socketLock, p.wire ++ msg⟩, 0) := by
  obtain ⟨logged, small, unfailed, posted⟩ := untroubled
  obtain ⟨bytes, complete, returned, -, all, done⟩ := send_delivers r honest free logged posts
  have finished : complete = true := done.mpr unfailed
  have sent : bytes = msg := (all.mp finished).trans ((sendPart_eq_self_iff msg).mpr small)
  rw [returned, if_pos ⟨finished, posted⟩, if_pos finished, sent]

/-- A call whose message can be logged returns. -/
theorem send_returns (r : Receiver) (waits posts : Bool) (honest : Honest socket) (free : 0 < p.socketLock)
    (logged : r.logs msg = true) : ∃ p' code, r.send p msg (callsOn socket msg waits posts) = some (p', code) := by
  cases waits with
  | false => exact ⟨p, -1, by simp [r.send_logged logged, withLock, callsOn]⟩
  | true =>
    obtain ⟨bytes, complete, returned, -, -, -⟩ := send_delivers r honest free logged posts
    exact ⟨_, _, returned⟩

/-- A call returns and keeps its promise iff its calls are untroubled. -/
theorem send_keeps_iff (r : Receiver) (msg : CString) (waits posts : Bool) (honest : Honest socket)
    (free : 0 < p.socketLock) :
    (∃ p' code, r.send p msg (callsOn socket msg waits posts) = some (p', code) ∧ Kept p p' msg code) ↔
      Untroubled r msg (callsOn socket msg waits posts) := by
  cases logged : r.logs msg
  case false => simp [r.send_unlogged logged, Untroubled, logged]
  cases waits with
  | false =>
    have returned : r.send p msg (callsOn socket msg false posts) = some (p, -1) := by
      simp [r.send_logged logged, withLock, callsOn]
    simp only [Untroubled, logged, true_and, show (callsOn socket msg false posts).waits = false from rfl,
      Bool.false_eq_true, if_false]
    constructor
    · rintro ⟨p', code, same, kept⟩ rfl
      cases returned.symm.trans same
      exact absurd (kept.whole.mpr (by simp)) (by decide)
    · intro some_
      exact ⟨p, -1, returned, by simpa using some_, fun _ => ⟨rfl, [], List.nil_prefix, some_.symm, by simp⟩, rfl⟩
  | true =>
    obtain ⟨bytes, complete, returned, front, all, unfailed⟩ := send_delivers r honest free logged posts
    have small := sendPart_eq_self_iff msg
    simp only [Untroubled, logged, true_and, show (callsOn socket msg true posts).waits = true from rfl, if_true,
      show (callsOn socket msg true posts).posts = posts from rfl]
    rw [← small, ← unfailed]
    constructor
    · rintro ⟨p', code, same, kept⟩
      cases returned.symm.trans same
      -- the lock came back, so the loop ended and the semaphore was posted
      have back : complete = true ∧ posts = true := by
        by_contra stuck
        have lock := kept.lock
        simp only [stuck, if_false] at lock
        omega
      -- 0 was returned, so all of the message was in that part of it
      have wire := kept.whole.mp (by simp [back.1])
      rw [List.append_cancel_left_eq, all.mp back.1] at wire
      exact ⟨wire, back.1, back.2⟩
    · rintro ⟨fits, done, posted⟩
      have sent : bytes = msg := (all.mp done).trans fits
      refine ⟨_, _, returned, ?_⟩
      simp only [done, posted, and_self, if_true, sent]
      exact ⟨by simp, fun nonzero => absurd rfl nonzero, rfl⟩

/-- A socket that takes three bytes at a time. -/
def threeAtATime : Nat → Nat → Option Nat :=
  fun _ remaining => if remaining = 0 then none else some (min 3 remaining)

theorem list_kept :
    ∃ p' code, Receiver.daemon.send ⟨1, []⟩ "list\n".toList (callsOn threeAtATime "list\n".toList true true) =
        some (p', code) ∧ Kept ⟨1, []⟩ p' "list\n".toList code := by
  refine (send_keeps_iff .daemon _ true true ?_ (by decide)).mpr (by decide)
  intro i remaining nbSent answer
  simp only [threeAtATime] at answer
  split at answer
  · cases answer
  · cases answer
    omega

/-- A connection that is closed after the first bytes. -/
def closedAfterThree : Nat → Nat → Option Nat :=
  fun i remaining => if i = 0 ∧ remaining ≠ 0 then some (min 3 remaining) else none

/-- The second `send` fails: -1 is returned with the lock still taken. -/
theorem failed_send_keeps_lock :
    daemonSend ⟨1, []⟩ "list\n".toList (callsOn closedAfterThree "list\n".toList true true) =
        some (⟨0, "lis".toList⟩, -1) ∧
      ¬Kept ⟨1, []⟩ ⟨0, "lis".toList⟩ "list\n".toList (-1) := by
  refine ⟨by decide, ?_⟩
  intro kept
  exact absurd kept.lock (by decide)

/-! ### The next senders -/

/-- A message, and how the socket takes it. -/
structure Sending where
  msg : CString
  socket : Nat → Nat → Option Nat
  honest : Honest socket

def Sending.allCalls (s : Sending) : Calls :=
  callsOn s.socket s.msg true true

/-- One message after another on one socket. -/
def sendMessages (r : Receiver) : Peer → List Sending → Option Peer
  | p, [] => some p
  | p, s :: sendings => (r.send p s.msg s.allCalls).bind fun (p', _) => sendMessages r p' sendings

/-- While no call is in trouble, all messages are sent behind each other, and the lock stays free. -/
theorem sendMessages_untroubled (r : Receiver) (sendings : List Sending) (free : 0 < p.socketLock)
    (untroubled : ∀ s ∈ sendings, Untroubled r s.msg s.allCalls) :
    sendMessages r p sendings = some ⟨p.socketLock, p.wire ++ (sendings.map Sending.msg).flatten⟩ := by
  induction sendings generalizing p with
  | nil => simp [sendMessages]
  | cons s sendings ih =>
    have sent := send_untroubled r s.honest free (untroubled s List.mem_cons_self)
    have rest := ih (p := ⟨p.socketLock, p.wire ++ s.msg⟩) free fun t member =>
      untroubled t (List.mem_cons_of_mem _ member)
    rw [sendMessages, Sending.allCalls, sent, Option.bind_some]
    simpa using rest

/-- Who comes after a `send` that failed waits for good, unless the wait itself is broken off. -/
theorem next_sender_blocks (r : Receiver) (taken : p.socketLock = 0) (waits : calls.waits = true) :
    r.send p msg calls = none := by
  cases logged : r.logs msg with
  | false => exact r.send_unlogged logged
  | true => simp [r.send_logged logged, withLock, waits, taken]

end Pire2Pire.SendLock
