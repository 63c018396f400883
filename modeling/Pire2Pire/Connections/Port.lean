import Pire2Pire.Connections.Neighbours
import Pire2Pire.Transfer.Announce

/-! The port that the daemon listens on and the one that it tells others.

`socket_init` tries the next port when one is in use; the lines that the daemon sends to others are made
of `prefs->daemon_port`, which stays what the configuration says. -/
namespace Pire2Pire.Neighbours

open Library Protocol Transfer

/-! ### Listening -/

/-- What `bind` says, with the errors that the loop tells apart. -/
inductive BindResult where
  | bound
  | addrInUse
  | failed
deriving DecidableEq, Repr

/-- The loop of `socket_init`, with `sin_port` in host order: the port that is bound in the end. -/
def socketInit (port : UInt16) : List BindResult → Option UInt16
  | [] => none
  | .bound :: _ => some port
  | .addrInUse :: results => socketInit (port + 1) results
  | .failed :: results => socketInit port results

/-- The argument of `htons` is converted to 16 bits. -/
def sinPort (port : Int32) : UInt16 :=
  UInt16.ofInt port.toInt

/-- The ports that were found in use. -/
def portsInUse (results : List BindResult) : Nat :=
  (results.takeWhile (· ≠ .bound)).count .addrInUse

/-! ### Announcing -/

/-- The lines that carry the daemon's own port. -/
def Emits (host : Host) (line : CString) : Prop :=
  (∃ cmd attempt dialling, clientRequestConnect host cmd attempt = some dialling ∧ line ∈ dialling.sent) ∨
  (∃ daemons cmd attempt dialling, daemonRequestNeighbour host daemons cmd attempt = some dialling ∧
    line ∈ dialling.sent) ∨
  ∃ sharedFolder dir lines,
    daemonRequestList ⟨sharedFolder, host.myIp, host.prefs.daemonPort⟩ dir = some lines ∧ line ∈ lines

/-- The text between the last colon and the end of the line. -/
def writtenPort (line : CString) : CString :=
  (line.dropLast.reverse.takeWhile (· != ':')).reverse

variable {host : Host} {port bound : UInt16} {results : List BindResult} {line : CString}

theorem socketInit_eq (succeeded : socketInit port results = some bound) :
    bound = port + UInt16.ofNat (portsInUse results) := by
  induction results generalizing port with
  | nil => cases succeeded
  | cons result results ih =>
    cases result with
    | bound =>
      cases succeeded
      simp [portsInUse]
    | addrInUse =>
      -- `sin_port` is incremented, and wraps around at the end
      rw [ih succeeded]
      simp [portsInUse, UInt16.add_assoc, UInt16.add_comm 1]
    | failed =>
      -- another error is retried on the same port
      rw [ih succeeded]
      simp [portsInUse]

theorem writtenPort_eq {before digits : CString} (noColon : ':' ∉ digits) :
    writtenPort (before ++ ':' :: (digits ++ ['\n'])) = digits := by
  -- the line ends with the port and its `'\n'`, so the last colon is the one before it
  have cut : (before ++ ':' :: (digits ++ ['\n'])).dropLast = before ++ ':' :: digits := by
    rw [show before ++ ':' :: (digits ++ ['\n']) = (before ++ ':' :: digits) ++ ['\n'] by simp,
      List.dropLast_concat]
  have absent : ':' ∉ digits.reverse := by simpa using noColon
  rw [writtenPort, cut, List.reverse_append, List.reverse_cons, List.append_assoc, List.singleton_append,
    List.takeWhile_append_of_pos (ne_of_notMem absent)]
  simp

theorem writtenPort_identMsg (host : Host) :
    writtenPort (identMsg host) = decimal host.prefs.daemonPort.toInt := by
  have noColon := notMem_decimal host.prefs.daemonPort.toInt (c := ':') (by decide) (by decide)
  unfold identMsg
  generalize decimal host.prefs.daemonPort.toInt = digits at noColon ⊢
  exact writtenPort_eq noColon

theorem writtenPort_fileMessage (announcer : Announcer) (name : FileName) (digest : Digest) (size : Nat) :
    writtenPort (fileMessage announcer name digest size) = decimal announcer.daemonPort.toInt := by
  have shape : ∃ before, fileMessage announcer name digest size =
      before ++ ':' :: (decimal announcer.daemonPort.toInt ++ ['\n']) := by
    refine ⟨joinFields ["file".toList, name.text, getMd5 digest, decimal (Int32.ofNat size).toInt,
      inetNtop announcer.myIp], ?_⟩
    simp only [fileMessage, joinFields, List.append_assoc, List.cons_append]
  obtain ⟨before, shape⟩ := shape
  rw [shape]
  exact writtenPort_eq (notMem_decimal _ (by decide) (by decide))

/-- Every line is made of the configured port. -/
theorem writtenPort_emits (emits : Emits host line) : writtenPort line = decimal host.prefs.daemonPort.toInt := by
  -- two handlers send `ident_msg`, and the third one announces files
  rcases emits with ⟨cmd, attempt, dialling, handled, sent⟩ | ⟨daemons, cmd, attempt, dialling, handled, sent⟩ |
    ⟨sharedFolder, dir, lines, handled, sent⟩
  · rw [(clientRequestConnect_spec handled).1 line sent]
    exact writtenPort_identMsg host
  · rw [(daemonRequestNeighbour_spec handled).1 line sent]
    exact writtenPort_identMsg host
  · obtain ⟨entry, -, -, size, -, rfl⟩ := (mem_daemonRequestList handled).mp sent
    exact writtenPort_fileMessage _ entry.name entry.digest size

theorem daemonRequestNeighbour_succeeds {cmd ip : CString} {port : Int32}
    (parsed : neighbourAddress cmd = some (ip, port)) (other : isMyself host ip = false) :
    daemonRequestNeighbour host [] cmd succeeds = some ⟨none, [identMsg host], some ⟨ip, port, true⟩⟩ := by
  simp [daemonRequestNeighbour, parsed, other, succeeds, identMsg_fits]

/-- A daemon that is told of a neighbour identifies itself there. -/
theorem emits_identMsg (host : Host) : Emits host (identMsg host) := by
  -- one of two addresses is not its own
  cases myself : isMyself host "10.0.0.2".toList with
  | false =>
    have parsed : neighbourAddress "neighbour 10.0.0.2:7331".toList = some ("10.0.0.2".toList, 7331) := by
      decide +kernel
    exact .inr (.inl ⟨[], _, succeeds, _, daemonRequestNeighbour_succeeds parsed myself, List.mem_singleton_self _⟩)
  | true =>
    have ip : "10.0.0.2".toList = inetNtop host.myIp := by
      have different : "10.0.0.2".toList ≠ "127.0.0.1".toList := by decide
      rw [isMyself, decide_eq_true_eq] at myself
      exact myself.resolve_right different
    have other : isMyself host "10.0.0.3".toList = false := by
      rw [isMyself, ← ip]
      decide
    have parsed : neighbourAddress "neighbour 10.0.0.3:7331".toList = some ("10.0.0.3".toList, 7331) := by
      decide +kernel
    exact .inr (.inl ⟨[], _, succeeds, _, daemonRequestNeighbour_succeeds parsed other, List.mem_singleton_self _⟩)

theorem strtol_decimal_int {n : Int} (low : -2 ^ 31 ≤ n) (high : n < 2 ^ 31) : (strtol (decimal n)).toInt = n := by
  have least : Int64.minValue.toInt = -2 ^ 63 := by decide
  have greatest : Int64.maxValue.toInt = 2 ^ 63 - 1 := by decide
  rw [strtol_decimal]
  exact Int64.toInt_ofIntClamp (by omega) (by omega)

/-- The configured port is written just when it is the number of the bound one. -/
theorem decimal_port_iff (configured : Int32) (bound : UInt16) :
    decimal configured.toInt = decimal bound.toNat ↔ configured.toInt = bound.toNat := by
  constructor
  · -- both numbers can be read back from their texts
    intro same
    have low := configured.le_toInt
    have high := configured.toInt_lt
    have small := bound.toNat_lt
    have left := strtol_decimal_int (n := configured.toInt) (by omega) (by omega)
    have right := strtol_decimal_int (n := (bound.toNat : Int)) (by omega) (by omega)
    rw [← left, same, right]
  · intro same
    rw [same]

/-- Where the configured port fits into 16 bits, it is bound just when the loop has come round to it. -/
theorem bound_iff {configured : Int32} (positive : 0 ≤ configured.toInt)
    (succeeded : socketInit (sinPort configured) results = some bound) :
    configured.toInt = bound.toNat ↔ configured.toInt < 65536 ∧ portsInUse results % 65536 = 0 := by
  -- the counter of the loop and `htons` both work modulo 65536
  have value : (bound.toNat : Int) = (configured.toInt + portsInUse results) % 65536 := by
    rw [socketInit_eq succeeded, sinPort, UInt16.toNat_add, UInt16.ofInt, UInt16.toNat_ofNat', UInt16.toNat_ofNat']
    omega
  omega

/-- The port in every line that the daemon emits is the one it listens on just when the configured port
fits into 16 bits and was free (or as many ports in use as to come back to it). -/
theorem written_iff_free (conf : List (CString × CString)) (myIp : Ipv4) (results : List BindResult) (bound : UInt16)
    (succeeded : socketInit (sinPort (confRetrieve conf).daemonPort) results = some bound) :
    (∀ line, Emits ⟨myIp, confRetrieve conf⟩ line → writtenPort line = decimal bound.toNat) ↔
      (confRetrieve conf).daemonPort.toInt < 65536 ∧ portsInUse results % 65536 = 0 := by
  have checked := Int32.lt_iff_toInt_lt.mp (confRetrieve_checked conf).daemonPort
  have positive : 0 ≤ (confRetrieve conf).daemonPort.toInt := Int.le_trans (by decide) (Int.le_of_lt checked)
  rw [← bound_iff positive succeeded, ← decimal_port_iff]
  constructor
  · intro every
    -- there is such a line in any case, and it has the configured port
    rw [← every _ (emits_identMsg ⟨myIp, confRetrieve conf⟩), writtenPort_identMsg]
  · intro same line emits
    rw [writtenPort_emits emits, same]

/-- The default port is free. -/
theorem written_iff_free_default :
    socketInit (sinPort (confRetrieve []).daemonPort) [.failed, .bound] = some 7331 ∧
      ∀ line, Emits ⟨⟨10, 0, 0, 1⟩, confRetrieve []⟩ line → writtenPort line = decimal (7331 : UInt16).toNat :=
  ⟨rfl, (written_iff_free [] ⟨10, 0, 0, 1⟩ [.failed, .bound] 7331 rfl).mpr (by decide)⟩

/-- The default port is in use: the daemon listens on the next one and announces the first. -/
theorem written_busy :
    socketInit (sinPort (confRetrieve []).daemonPort) [.addrInUse, .bound] = some 7332 ∧
      ∃ line, Emits ⟨⟨10, 0, 0, 1⟩, confRetrieve []⟩ line ∧ writtenPort line = decimal 7331 ∧
        writtenPort line ≠ decimal (7332 : UInt16).toNat := by
  refine ⟨by decide, identMsg ⟨⟨10, 0, 0, 1⟩, confRetrieve []⟩, emits_identMsg _, ?_⟩
  rw [writtenPort_identMsg]
  decide

end Pire2Pire.Neighbours
