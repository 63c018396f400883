import Pire2Pire.Connections.Capacity
import Pire2Pire.Connections.Port
import Pire2Pire.Connections.Replies

/-! The lines `neighbour ADDR:PORT` and their two decoders: the one of `start_server`, which uses the command parser,
and the one of `daemon_request_neighbour`, which looks for the blank and the colon itself. -/
namespace Pire2Pire.Neighbours

open Library Protocol Transfer Replies Capacity

/-- An address that fits a field of `INET_ADDRSTRLEN` characters and has none that the decoders look for, and a port. -/
structure Listable (d : Daemon) : Prop where
  short : d.addr.length ≤ fileIpSize
  received : Received d.addr
  noSpace : ' ' ∉ d.addr
  noColon : ':' ∉ d.addr
  port : 0 ≤ d.port.toInt ∧ d.port.toInt ≤ 65535

/-- The lines with which `client_request_connect` and `daemon_request_neighbour` identify this daemon. -/
def Identifies (host : Host) (line : CString) : Prop :=
  (∃ cmd attempt dialling, clientRequestConnect host cmd attempt = some dialling ∧ line ∈ dialling.sent) ∨
  ∃ daemons cmd attempt dialling, daemonRequestNeighbour host daemons cmd attempt = some dialling ∧
    line ∈ dialling.sent

variable {addr digits : CString} {daemons : List Daemon} {host : Host} {line : CString} {d : Daemon}

/-! ### The two decoders -/

/-- `strchr` surgery. -/
theorem neighbourAddress_line (noColon : ':' ∉ addr) :
    neighbourAddress ("neighbour ".toList ++ addr ++ ':' :: digits) = some (addr, atoi digits) := by
  have word : "neighbour ".toList = "neighbour".toList ++ [' '] := by decide +kernel
  have noSpace : ' ' ∉ "neighbour".toList := by decide +kernel
  rw [word]
  generalize "neighbour".toList = start at noSpace
  have shape : start ++ [' '] ++ addr ++ ':' :: digits = start ++ ' ' :: (addr ++ ':' :: digits) := by simp
  rw [shape, neighbourAddress, strchr_append noSpace]
  simp only [Option.bind_eq_bind, Option.bind_some, List.drop_one, List.tail_cons, strchr_append noColon,
    cutAt_append noColon, pure]

/-- The command parser, for an address and a port that make up one argument. -/
theorem identify_line (field : Field (addr ++ ':' :: digits)) (noColon : ':' ∉ addr)
    (noDash : addr.head? ≠ some '-') :
    identify ("neighbour ".toList ++ addr ++ ':' :: digits) = some (atoi digits) := by
  have command : Field "neighbour".toList := ⟨⟨by decide +kernel, by decide +kernel, by decide +kernel⟩,
    by decide +kernel, by decide +kernel⟩
  have commandArgument : tokenKind "neighbour".toList = .argument := by decide +kernel
  have word : "neighbour ".toList = "neighbour".toList ++ [' '] := by decide +kernel
  have addressArgument : tokenKind (addr ++ ':' :: digits) = .argument := by
    rw [tokenKind_argument_iff]
    -- either the address is empty and the colon comes first, or its own first character does
    cases addr with
    | nil => simp
    | cons c addr => simpa using Or.inl (show c ≠ '-' by simpa using noDash)
  rw [word, identify]
  generalize "neighbour".toList = start at command commandArgument
  have shape : start ++ [' '] ++ addr ++ ':' :: digits = joinFields [start, addr ++ ':' :: digits] := by
    simp [joinFields]
  have fields : ∀ w ∈ [start, addr ++ ':' :: digits], Field w := by
    simp [command, field]
  have arguments : ∀ w ∈ [start, addr ++ ':' :: digits], tokenKind w = .argument := by
    simp [commandArgument, addressArgument]
  have parsed :
      cmdParse (joinFields [start, addr ++ ':' :: digits]) none = .ok ⟨[], [start, addr ++ ':' :: digits]⟩ := by
    rw [cmdParse_plain rfl, words_joinFields fields]
    exact ⟨rfl, by simp, arguments⟩
  rw [shape, parsed]
  simp [strchr_append noColon]

/-! ### What the peer reads -/

/-- The lines are those of the list in its order, apart from the requester's own. -/
theorem daemonRequestNeighbourhood_eq (listable : ∀ d ∈ daemons, Listable d) :
    daemonRequestNeighbourhood addr daemons =
      some ((daemons.filter fun d => d.addr ≠ addr).map neighbourLine) := by
  induction daemons with
  | nil => rfl
  | cons d daemons ih =>
    obtain ⟨here, later⟩ := List.forall_mem_cons.mp listable
    unfold daemonRequestNeighbourhood
    by_cases own : addr = d.addr
    · subst own
      simp [strcmp_self, ih later]
    · -- the longest address and the longest number leave most of `answer` free
      have word : "neighbour ".toList.length = 10 := by decide +kernel
      have number := length_decimal_int d.port
      have short := here.short
      have fits : (neighbourLine d).length + 1 ≤ lineSize := by
        unfold neighbourLine
        generalize decimal d.port.toInt = digits at number
        rw [List.length_append, List.length_append, word]
        simp only [List.length_cons, List.length_append, List.length_nil, lineSize]
        simp only [fileIpSize] at short
        omega
      have differ : strcmp addr d.addr ≠ .eq := fun equal => own ((strcmp_eq_iff _ _).mp equal)
      have other : d.addr ≠ addr := fun equal => own equal.symm
      rw [if_pos differ, sprintfInto, if_pos fits, ih later]
      simp [other]

theorem framed_lines {texts : List CString}
    (lines : ∀ text ∈ texts, Terminated text ∧ Received (messageOf text)) : Framed texts := by
  induction texts with
  | nil => exact decodesTo_nil
  | cons text texts ih =>
    obtain ⟨here, later⟩ := List.forall_mem_cons.mp lines
    exact (framed_terminated here.1).mpr ⟨here.2, ih later⟩

theorem neighbourAddress_neighbourLine_of_noColon (noColon : ':' ∉ d.addr) :
    neighbourAddress (messageOf (neighbourLine d)) = some (d.addr, d.port) := by
  have number := atoi_decimal d.port
  unfold neighbourLine
  generalize decimal d.port.toInt = digits at number
  have shape : "neighbour ".toList ++ d.addr ++ ':' :: (digits ++ ['\n']) =
      ("neighbour ".toList ++ d.addr ++ ':' :: digits) ++ ['\n'] := by
    generalize "neighbour ".toList = start
    simp
  rw [shape, messageOf_line, neighbourAddress_line noColon, number]

theorem neighbourAddress_neighbourLine (listable : Listable d) :
    neighbourAddress (messageOf (neighbourLine d)) = some (d.addr, d.port) :=
  neighbourAddress_neighbourLine_of_noColon listable.noColon

/-- An identification is read as the same port by both decoders, and it is the configured one. -/
theorem identMsg_decoded (host : Host) :
    (socketGetline (identMsg host)).1 = some (messageOf (identMsg host)) ∧
      identify (messageOf (identMsg host)) = some host.prefs.daemonPort ∧
      neighbourAddress (messageOf (identMsg host)) = some (inetNtop host.myIp, host.prefs.daemonPort) := by
  have noColon : ':' ∉ inetNtop host.myIp := fun colon => absurd (isPlain_of_mem_inetNtop colon) (by decide)
  have noDash : (inetNtop host.myIp).head? ≠ some '-' :=
    fun dash => absurd (isPlain_of_mem_inetNtop (List.mem_of_head? dash)) (by decide)
  have number := atoi_decimal host.prefs.daemonPort
  have port := decimal_field host.prefs.daemonPort.toInt
  have ip := inetNtop_field host.myIp
  unfold identMsg
  generalize decimal host.prefs.daemonPort.toInt = digits at number port
  generalize inetNtop host.myIp = address at noColon noDash ip
  have colon : Received [':'] := ⟨by decide, by decide, by decide⟩
  have field : Field (address ++ ':' :: digits) := by
    refine ⟨received_append.mpr ⟨ip.toReceived, received_cons.mpr ⟨colon, port.toReceived⟩⟩, by simp, ?_⟩
    simp [ip.noSpace, port.noSpace]
  have word : Received "neighbour ".toList := ⟨by decide +kernel, by decide +kernel, by decide +kernel⟩
  have shape : "neighbour ".toList ++ address ++ ':' :: (digits ++ ['\n']) =
      ("neighbour ".toList ++ address ++ ':' :: digits) ++ ['\n'] := by
    generalize "neighbour ".toList = start
    simp
  rw [shape, messageOf_line, identify_line field noColon noDash, neighbourAddress_line noColon, number]
  refine ⟨?_, rfl, rfl⟩
  rw [socketGetline_append]
  rw [List.append_assoc]
  exact received_append.mpr ⟨word, field.toReceived⟩

/-- One daemon with an address of the full length, and the requester. -/
def twoDaemons : List Daemon :=
  [⟨"255.255.255.2550".toList, 65535, false⟩, ⟨"10.0.0.3".toList, 0, true⟩]

end Pire2Pire.Neighbours
