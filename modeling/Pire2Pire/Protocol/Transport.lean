import Pire2Pire.Protocol.Lines

/-! Lines on a connection: the loops that put a message on it in several pieces (`daemon.c`, `client.c`,
`util/socket.c`), and reading line after line at the other end. -/
namespace Pire2Pire.Protocol

open Library

/-! ### Sending -/

/-- `while (nb_sent_sum < send_size)`, with what the calls of `send` return; a call that fails has no
count. The result is what was put on the connection and whether no call failed. There is none if the calls
do not turn out so. -/
def sendRest (msg : CString) (nbSentSum : Nat) : List (Option Nat) → Option (List Char × Bool)
  | [] => if nbSentSum < msg.length then none else some ([], true)
  | sent :: sends =>
    if nbSentSum < msg.length then
      match sent with
      | none => some ([], false)
      | some nbSent =>
        if nbSent ≤ msg.length - nbSentSum then
          (sendRest msg (nbSentSum + nbSent) sends).map fun (bytes, complete) =>
            ((msg.drop nbSentSum).take nbSent ++ bytes, complete)
        else none
    else none

/-- What a function that sends did: the bytes, the value it returns, and whether it gave `socket_lock`
back. -/
structure Delivery where
  bytes : List Char
  code : Int
  unlocked : Bool
deriving DecidableEq, Repr

/-- The body that `daemon_send` and `client_send` share. A failure leaves the socket locked. -/
def lockedSend (msg : CString) (sends : List (Option Nat)) : Option Delivery :=
  (sendRest msg 0 sends).map fun (bytes, complete) =>
    if complete then ⟨bytes, 0, true⟩ else ⟨bytes, -1, false⟩

def daemonSend (msg : CString) (sends : List (Option Nat)) : Option Delivery :=
  lockedSend msg sends

def clientSend (msg : CString) (sends : List (Option Nat)) : Option Delivery :=
  lockedSend msg sends

/-- The socket is not locked, and nothing is returned. -/
def socketSendline (msg : CString) (sends : List (Option Nat)) : Option (List Char) :=
  (sendRest msg 0 sends).map Prod.fst

/-! ### Receiving -/

/-- What so many calls of `socket_getline` return, one after the other. -/
def getlines : Nat → List Char → List (Option CString)
  | 0, _ => []
  | calls + 1, stream => (socketGetline stream).1 :: getlines calls (socketGetline stream).2

/-- Reading until the connection is closed gives these lines and then NULL. -/
def DecodesTo (stream : List Char) (lines : List CString) : Prop :=
  getlines (lines.length + 1) stream = lines.map some ++ [none]

instance (stream : List Char) (lines : List CString) : Decidable (DecodesTo stream lines) :=
  inferInstanceAs (Decidable (_ = _))

variable {msg line w : CString} {lines : List CString} {stream rest : List Char} {counts : List Nat} {k : Nat}

theorem sendRest_counts (whole : k + counts.sum = msg.length) (positive : ∀ n ∈ counts, 0 < n) :
    sendRest msg k (counts.map some) = some (msg.drop k, true) := by
  -- induction on the calls: `k` bytes are sent, and the counts make up the rest
  induction counts generalizing k with
  | nil =>
    have done : k = msg.length := by simpa using whole
    simp [sendRest, done]
  | cons n counts ih =>
    have some' : 0 < n := positive n List.mem_cons_self
    rw [List.sum_cons] at whole
    have more : k < msg.length := by omega
    have fits : n ≤ msg.length - k := by omega
    -- the loop goes on behind the bytes of this call
    have rest := ih (k := k + n) (by omega) fun m member => positive m (List.mem_cons_of_mem _ member)
    rw [List.map_cons, sendRest, if_pos more]
    simp only [fits, if_true, rest, Option.map_some, ← List.drop_drop, List.take_append_drop]

theorem socketGetline_nil : socketGetline [] = (none, []) :=
  rfl

theorem decodesTo_nil : DecodesTo [] [] :=
  rfl

theorem decodesTo_nil_iff : DecodesTo stream [] ↔ (socketGetline stream).1 = none := by
  simp [DecodesTo, getlines]

theorem decodesTo_cons_iff : DecodesTo stream (line :: lines) ↔
    (socketGetline stream).1 = some line ∧ DecodesTo (socketGetline stream).2 lines := by
  simp only [DecodesTo, List.length_cons, getlines, List.map_cons, List.cons_append, List.cons.injEq]

/-- There is one way to read a stream. -/
theorem decodesTo_unique {lines' : List CString} (decodes : DecodesTo stream lines)
    (decodes' : DecodesTo stream lines') : lines = lines' := by
  -- both lists are read off the same calls, so they end at the same NULL
  induction lines generalizing stream lines' with
  | nil =>
    rw [decodesTo_nil_iff] at decodes
    cases lines' with
    | nil => rfl
    | cons line' lines' =>
      rw [decodesTo_cons_iff, decodes] at decodes'
      cases decodes'.1
  | cons line lines ih =>
    rw [decodesTo_cons_iff] at decodes
    cases lines' with
    | nil =>
      rw [decodesTo_nil_iff, decodes.1] at decodes'
      cases decodes'
    | cons line' lines' =>
      rw [decodesTo_cons_iff, decodes.1] at decodes'
      cases decodes'.1
      rw [ih decodes.2 decodes'.2]

/-- A clean line is read as it was sent, and the rest is read behind it. -/
theorem decodesTo_cons (clean : Received line) :
    DecodesTo (line ++ '\n' :: rest) (line :: lines) ↔ DecodesTo rest lines := by
  -- the trailer is cut off, and the rest of the stream is untouched
  rw [decodesTo_cons_iff, socketGetline_append clean]
  simp only [true_and]

theorem socketGetline_return (clean : Received line) (rest : List Char) :
    socketGetline (line ++ '\r' :: '\n' :: rest) = (some line, rest) := by
  have noNewline : '\n' ∉ line ++ ['\r'] := by
    simpa using clean.noNewline
  have noNul : '\x00' ∉ line ++ ['\r'] ++ ['\n'] := by
    simpa using clean.noNul
  have shape : line ++ '\r' :: '\n' :: rest = line ++ ['\r'] ++ '\n' :: rest := by simp
  -- `'\r'` is cut first, and what is left has no `'\n'`
  have cut : cutAt (line ++ ['\r'] ++ ['\n']) '\r' = line := by
    rw [List.append_assoc]
    exact cutAt_append clean.noReturn ['\n']
  rw [shape, socketGetline, socketGetlineWithTrailer_append noNewline]
  simp only [Option.map_some, terminated_eq_self noNul, stringRemoveTrailer, cut,
    cutAt_eq_self clean.noNewline]

/-- The same for a line that ends as it does in telnet. -/
theorem decodesTo_cons_return (clean : Received line) :
    DecodesTo (line ++ '\r' :: '\n' :: rest) (line :: lines) ↔ DecodesTo rest lines := by
  rw [decodesTo_cons_iff, socketGetline_return clean]
  simp only [true_and]

/-! ### Round trip -/

inductive Ending where
  | newline
  | returnNewline
deriving DecidableEq, Repr

def Ending.text : Ending → CString
  | .newline => ['\n']
  | .returnNewline => ['\r', '\n']

inductive Sender where
  | daemonSend
  | clientSend
  | socketSendline
deriving DecidableEq, Repr

/-- The bytes that a call puts on the connection. -/
def Sender.put (msg : CString) (sends : List (Option Nat)) : Sender → Option (List Char)
  | .daemonSend => (Protocol.daemonSend msg sends).map Delivery.bytes
  | .clientSend => (Protocol.clientSend msg sends).map Delivery.bytes
  | .socketSendline => Protocol.socketSendline msg sends

/-- A line that is sent, and what the calls of `send` take of it. -/
structure Message where
  sender : Sender
  body : CString
  clean : Received body
  ending : Ending
  counts : List Nat
  positive : ∀ n ∈ counts, 0 < n
  whole : counts.sum = (body ++ ending.text).length

/-- What successive calls put on the connection. -/
def putAll : List Message → Option (List Char)
  | [] => some []
  | m :: messages =>
    (m.sender.put (m.body ++ m.ending.text) (m.counts.map some)).bind fun bytes =>
      (putAll messages).map fun rest => bytes ++ rest

theorem put_message (m : Message) :
    m.sender.put (m.body ++ m.ending.text) (m.counts.map some) = some (m.body ++ m.ending.text) := by
  have sent : sendRest (m.body ++ m.ending.text) 0 (m.counts.map some) = some (m.body ++ m.ending.text, true) :=
    sendRest_counts (by simpa using m.whole) m.positive
  -- the lock makes no difference to the bytes
  cases m.sender with
  | daemonSend => simp [Sender.put, daemonSend, lockedSend, sent]
  | clientSend => simp [Sender.put, clientSend, lockedSend, sent]
  | socketSendline => simp [Sender.put, socketSendline, sent]

end Pire2Pire.Protocol
