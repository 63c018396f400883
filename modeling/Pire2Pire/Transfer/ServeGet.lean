import Mathlib.Data.List.Nodup
import Pire2Pire.Library.SharedVariables
import Pire2Pire.Transfer.Handshake
import Pire2Pire.Transfer.Upload

/-! Serving a `get` message (`daemon_requests/daemon_request_get.c`), phase by phase over the file-scope
variables of the source.

The shared folder does not change, allocations succeed, and the list of uploads is left out. -/
namespace Pire2Pire.Transfer

open Library Protocol

/-! ### What the phases work on -/

/-- A regular file; its length is an `off_t`. -/
structure SharedFile where
  name : CString
  content : List UInt8
  inRange : content.length < 2 ^ 63

/-- The daemon that has the files. -/
structure Sharer where
  sharedFolder : CString
  myIp : Ipv4
  files : List SharedFile
  distinct : (files.map SharedFile.name).Nodup
  mdFile : List UInt8 → Digest

def Sharer.path (host : Sharer) (f : SharedFile) : CString :=
  host.sharedFolder ++ '/' :: f.name

def Sharer.keyOf (host : Sharer) (f : SharedFile) : CString :=
  getMd5 (host.mdFile f.content)

/-- A `struct daemon_request`: the peer that sent it and its line. -/
structure GetRequest where
  daemon : Nat
  cmd : CString
deriving DecidableEq, Repr

/-- The file-scope variables. `entry` is used by `find_file` alone. -/
inductive GetVar where
  | r
  | pcmd
  | fullPath
  | entryStat
  | key
  | file
  | listenSock
  | listenAddr
  | dataSock
deriving DecidableEq, Repr

/-- A descriptor stands for what it refers to, since it is reached through its variable only: the part of
the file not read yet, the port listened on, the port the connection came in on. -/
abbrev GetVal : GetVar → Type
  | .r => Option GetRequest
  | .pcmd => Option ParsedCmd
  | .fullPath => CString
  | .entryStat => UInt64
  | .key => CString
  | .file => Option (List UInt8)
  | .listenSock => Option UInt16
  | .listenAddr => UInt16
  | .dataSock => Option UInt16

/-- What the variables hold before the first request. -/
def emptyStore : ∀ v, GetVal v
  | .r => none
  | .pcmd => none
  | .fullPath => []
  | .entryStat => 0
  | .key => []
  | .file => none
  | .listenSock => none
  | .listenAddr => 0
  | .dataSock => none

inductive GetPhase where
  | setR (arg : Option GetRequest)
  | parse
  | findFile
  | openFile
  | prepareSending
  | sendReady
  | acceptPeer
  | sendFile
  | out
  | returned
deriving DecidableEq, Repr

/-- How the system calls of a phase turn out. `listening` is the port that the system found. -/
structure GetCalls where
  opendir : Bool := true
  closedir : Bool := true
  opens : Bool := true
  listening : Option UInt16 := none
  accepts : Bool := true
  chunks : List Chunk := []
deriving DecidableEq, Repr

/-- What others get to see: lines to a peer, bytes on the data connection of a port. -/
inductive GetOut where
  | error (daemon : Nat) (text : CString)
  | ready (daemon : Nat) (line : CString)
  | data (port : UInt16) (bytes : List UInt8) (complete : Bool)
deriving DecidableEq, Repr

abbrev GetEffect := Effect GetVal GetPhase GetOut

/-! ### The phases -/

def noWrites : ∀ v, Option (GetVal v) :=
  fun _ => none

def setRPhase (arg : Option GetRequest) : GetEffect where
  -- `if (!r) return NULL`
  next := if arg.isSome then .parse else .returned
  writes
    | .listenSock => some none
    | .dataSock => some none
    | .file => some none
    | .r => some arg
    | _ => none
  out := []

/-- An error value, or a command that is freed again, leaves nothing in `pcmd`. -/
def parsePhase (r : Option GetRequest) : Option GetEffect := do
  let q ← r
  match getArguments q.cmd with
  | .error text => return ⟨.returned, fun | .pcmd => some none | _ => none, [.error q.daemon text]⟩
  | .ok parsed => return ⟨.findFile, fun | .pcmd => some (some parsed) | _ => none, []⟩

/-- The loop of `find_file`: the file it stopped at, and whether that has the key. -/
def findFileLoop (host : Sharer) (wanted : CString) :
    List SharedFile → Option SharedFile → Option (Option SharedFile × Bool)
  | [], last => some (last, false)
  | f :: files, _ => do
    let _ ← sprintfInto 512 (host.path f)
    if strcmp (host.keyOf f) wanted = .eq then some (some f, true) else findFileLoop host wanted files (some f)

def findFilePhase (host : Sharer) (calls : GetCalls) (pcmd : Option ParsedCmd) : Option GetEffect :=
  if calls.opendir then do
    let parsed ← pcmd
    let wanted ← parsed.argv[1]?
    let (last, found) ← findFileLoop host wanted host.files none
    -- an entry that is not a match has overwritten the variables all the same
    let next := if found ∧ calls.closedir then .openFile else .out
    match last with
    | none => return ⟨next, noWrites, []⟩
    | some f => return ⟨next, fun
        | .fullPath => some (host.path f)
        | .entryStat => some (.ofNat f.content.length)
        | .key => some (host.keyOf f)
        | _ => none, []⟩
  else some ⟨.out, noWrites, []⟩

def openPhase (host : Sharer) (calls : GetCalls) (fullPath : CString) : GetEffect :=
  let opened := (host.files.find? fun f => host.path f = fullPath).filter fun _ => calls.opens
  { next := if opened.isSome then .prepareSending else .out
    writes := fun
      | .file => some (opened.map SharedFile.content)
      | _ => none
    out := [] }

/-- `getsockname` on a socket that is bound does not fail. -/
def preparePhase (calls : GetCalls) : GetEffect where
  next := if calls.listening.isSome then .sendReady else .out
  writes
    | .listenSock => some calls.listening
    | .listenAddr => some (calls.listening.getD 0)
    | _ => none
  out := []

def readyPhase (host : Sharer) (key : CString) (listenAddr : UInt16) (pcmd : Option ParsedCmd)
    (r : Option GetRequest) : Option GetEffect := do
  let q ← r
  let parsed ← pcmd
  let line ← readyMessage key host.myIp listenAddr parsed
  return ⟨.acceptPeer, noWrites, [.ready q.daemon line]⟩

def acceptPhase (calls : GetCalls) (listenSock : Option UInt16) : GetEffect :=
  match listenSock.filter fun _ => calls.accepts with
  | some port => ⟨.sendFile, fun | .dataSock => some (some port) | .listenSock => some none | _ => none, []⟩
  | none => ⟨.out, fun | .dataSock => some none | _ => none, []⟩

/-- The first call on a descriptor that is not open fails; with nothing to send there is no such call. -/
def sendFilePhase (calls : GetCalls) (entryStat : UInt64) (file : Option (List UInt8))
    (dataSock : Option UInt16) : Option GetEffect :=
  match file, dataSock with
  | some content, some port => do
    let upload ← sendLoop content entryStat calls.chunks
    if upload.complete then
      return ⟨.returned, fun | .dataSock => some none | .file => some none | _ => none,
        [.data port upload.bytes true]⟩
    else
      return ⟨.out, fun | .file => some (some upload.unread) | _ => none, [.data port upload.bytes false]⟩
  | file, _ =>
    if entryStat = 0 then
      some ⟨.returned, fun | .dataSock => some none | .file => some none | _ => none, []⟩
    -- the chunk was read from the file before the `send` failed
    else some ⟨.out, fun | .file => some (file.map fun unread => unread.drop bufferSize) | _ => none, []⟩

def outPhase : GetEffect where
  next := .returned
  writes
    | .listenSock => some none
    | .dataSock => some none
    | .file => some none
    | _ => none
  out := []

def getStep (host : Sharer) (phase : GetPhase) (calls : GetCalls) (store : ∀ v, GetVal v) : Option GetEffect :=
  match phase with
  | .setR arg => some (setRPhase arg)
  | .parse => parsePhase (store .r)
  | .findFile => findFilePhase host calls (store .pcmd)
  | .openFile => some (openPhase host calls (store .fullPath))
  | .prepareSending => some (preparePhase calls)
  | .sendReady => readyPhase host (store .key) (store .listenAddr) (store .pcmd) (store .r)
  | .acceptPeer => some (acceptPhase calls (store .listenSock))
  | .sendFile => sendFilePhase calls (store .entryStat) (store .file) (store .dataSock)
  | .out => some outPhase
  | .returned => none

/-- The variables that a phase reads before it writes them; `out` closes what the last three refer to. -/
def getReads : GetPhase → List GetVar
  | .parse => [.r]
  | .findFile => [.pcmd]
  | .openFile => [.fullPath]
  | .sendReady => [.key, .listenAddr, .pcmd, .r]
  | .acceptPeer => [.listenSock]
  | .sendFile => [.entryStat, .file, .dataSock]
  | .out => [.listenSock, .dataSock, .file]
  | _ => []

/-- `daemon_request_get`. -/
def daemonRequestGet (host : Sharer) : Program GetVal GetPhase GetCalls GetOut where
  reads := getReads
  step := getStep host
  local_ := by
    intro phase calls store store' agree
    cases phase <;> simp_all [getReads, getStep]

/-! ### What one request does -/

/-- The request asks for the key of that file. -/
structure Asks (host : Sharer) (q : GetRequest) (pcmd : ParsedCmd) (f : SharedFile) : Prop where
  accepted : getArguments q.cmd = .ok pcmd
  member : f ∈ host.files
  keyed : pcmd.argv[1]? = some (host.keyOf f)

/-- What a request may put out: an error reply; or a `ready` line to its own peer, with the key it asked for
and the beginning and end that came with it; and then, on the port which that line announces, the content of
the file with that key, all of it if `send_file` returns 0. -/
inductive Answer (host : Sharer) (q : GetRequest) : List GetOut → Prop
  | nothing : Answer host q []
  | refused {text} (refused : getArguments q.cmd = .error text) : Answer host q [.error q.daemon text]
  | ready {pcmd f port line} (asks : Asks host q pcmd f)
      (announced : readyMessage (host.keyOf f) host.myIp port pcmd = some line) :
      Answer host q [.ready q.daemon line]
  | sent {pcmd f port line bytes complete} (asks : Asks host q pcmd f)
      (announced : readyMessage (host.keyOf f) host.myIp port pcmd = some line)
      (partly : bytes <+: f.content) (wholly : complete = true → bytes = f.content) :
      Answer host q [.ready q.daemon line, .data port bytes complete]

/-- The variables that `find_file` has left for the file that is asked for. -/
structure Chosen (host : Sharer) (q : GetRequest) (store : ∀ v, GetVal v) (f : SharedFile) : Prop where
  request : store .r = some q
  asks : ∃ pcmd, Asks host q pcmd f ∧ store .pcmd = some pcmd
  key : store .key = host.keyOf f
  entryStat : store .entryStat = .ofNat f.content.length

/-- The peer has been told that the file is ready on the port. -/
structure Offered (host : Sharer) (q : GetRequest) (t : Solo GetVal GetPhase GetOut) (f : SharedFile)
    (port : UInt16) : Prop where
  entryStat : t.store .entryStat = .ofNat f.content.length
  file : t.store .file = some f.content
  line : ∃ pcmd line, Asks host q pcmd f ∧ readyMessage (host.keyOf f) host.myIp port pcmd = some line ∧
    t.out = [.ready q.daemon line]

/-- Where a request that runs alone has got to. -/
def Served (host : Sharer) (q : GetRequest) (t : Solo GetVal GetPhase GetOut) : Prop :=
  match t.proc with
  | .setR arg => t.out = [] ∧ arg = some q
  | .parse => t.out = [] ∧ t.store .r = some q
  | .findFile => t.out = [] ∧ t.store .r = some q ∧
      ∃ pcmd, getArguments q.cmd = .ok pcmd ∧ t.store .pcmd = some pcmd
  | .openFile => t.out = [] ∧ ∃ f, Chosen host q t.store f ∧ t.store .fullPath = host.path f
  | .prepareSending => t.out = [] ∧ ∃ f, Chosen host q t.store f ∧ t.store .file = some f.content
  | .sendReady => t.out = [] ∧ ∃ f, Chosen host q t.store f ∧ t.store .file = some f.content ∧
      t.store .listenSock = some (t.store .listenAddr)
  | .acceptPeer => ∃ f port, Offered host q t f port ∧ t.store .listenSock = some port
  | .sendFile => ∃ f port, Offered host q t f port ∧ t.store .dataSock = some port
  | .out => Answer host q t.out
  | .returned => Answer host q t.out

/-- No `send ()` of the phase is short. -/
def WholeSends (calls : GetCalls) : Prop :=
  ∀ chunk ∈ calls.chunks, chunk.Whole

variable {host : Sharer} {q : GetRequest} {t t' : Solo GetVal GetPhase GetOut} {calls : GetCalls}

/-- The loop stops at a file of the folder, and says so only if the key is that of the file. -/
theorem findFileLoop_some {wanted : CString} {files : List SharedFile} {before last : Option SharedFile}
    {found : Bool} (searched : findFileLoop host wanted files before = some (last, found)) :
    found = true → ∃ f ∈ files, last = some f ∧ host.keyOf f = wanted := by
  induction files generalizing before with
  -- the loop ends with `false` behind the last entry
  | nil =>
    intro success
    simp only [findFileLoop, success, Option.some.injEq, Prod.mk.injEq, Bool.false_eq_true, and_false]
      at searched
  | cons f files ih =>
    intro success
    cases path : sprintfInto 512 (host.path f) with
    | none => simp [findFileLoop, path] at searched
    | some text =>
      -- a match ends the loop; otherwise the rest of the folder decides
      by_cases same : strcmp (host.keyOf f) wanted = .eq
      · simp only [findFileLoop, path, Option.bind_eq_bind, Option.bind_some, same, if_true,
          Option.some.injEq, Prod.mk.injEq] at searched
        exact ⟨f, List.mem_cons_self, searched.1.symm, (strcmp_eq_iff _ _).mp same⟩
      · simp only [findFileLoop, path, Option.bind_eq_bind, Option.bind_some, same, if_false] at searched
        obtain ⟨g, member, rest⟩ := ih searched success
        exact ⟨g, List.mem_cons_of_mem _ member, rest⟩

/-- In a folder a path belongs to one file. -/
theorem find_path {f : SharedFile} (member : f ∈ host.files) :
    host.files.find? (fun g => host.path g = host.path f) = some f := by
  cases found : host.files.find? (fun g => host.path g = host.path f) with
  | none =>
    have missing := List.find?_eq_none.mp found f member
    simp at missing
  | some g =>
    -- the names are what differs between two paths of the folder
    have samePath : host.path g = host.path f := by simpa using List.find?_some found
    have sameName : g.name = f.name := by simpa [Sharer.path] using samePath
    rw [List.inj_on_of_nodup_map host.distinct (List.mem_of_find?_eq_some found) member sameName]

/-! ### One lemma for each phase -/

/-- What a phase makes of an execution that runs alone. -/
abbrev GetEffect.applied (effect : GetEffect) (t : Solo GetVal GetPhase GetOut) : Solo GetVal GetPhase GetOut :=
  ⟨effect.next, writeTo t.store effect.writes, t.out ++ effect.out⟩

theorem served_setR {arg : Option GetRequest} (quiet : t.out = []) (own : arg = some q) :
    Served host q ((setRPhase arg).applied t) := by
  subst own
  simp [Served, setRPhase, writeTo, quiet]

theorem served_parse {effect : GetEffect} (quiet : t.out = []) (own : t.store .r = some q)
    (taken : parsePhase (t.store .r) = some effect) : Served host q (effect.applied t) := by
  rw [own] at taken
  simp only [parsePhase, Option.bind_eq_bind, Option.bind_some] at taken
  -- the reply goes to `r->daemon`, which is the own peer since nobody else has written `r`
  cases accepted : getArguments q.cmd with
  | error text =>
    simp only [accepted, Option.pure_def, Option.some.injEq] at taken
    subst taken
    simp only [Served, quiet, List.nil_append]
    exact .refused accepted
  | ok pcmd =>
    simp only [accepted, Option.pure_def, Option.some.injEq] at taken
    subst taken
    simp [Served, writeTo, quiet, own, accepted]

theorem served_findFile {effect : GetEffect} {pcmd : ParsedCmd} (quiet : t.out = []) (own : t.store .r = some q)
    (accepted : getArguments q.cmd = .ok pcmd) (parsed : t.store .pcmd = some pcmd)
    (taken : findFilePhase host calls (t.store .pcmd) = some effect) : Served host q (effect.applied t) := by
  -- whichever way the search fails, nothing has been put out
  have silent : Answer host q (t.out ++ []) := by
    rw [quiet]
    exact .nothing
  rw [parsed] at taken
  unfold findFilePhase at taken
  split at taken
  -- `argv[1]` exists and no path overran its buffer, or there would be no effect
  · simp only [Option.bind_eq_bind, Option.bind_some] at taken
    obtain ⟨wanted, asked, taken⟩ := Option.bind_eq_some_iff.mp taken
    obtain ⟨⟨last, found⟩, searched, taken⟩ := Option.bind_eq_some_iff.mp taken
    by_cases chosen : found = true ∧ calls.closedir = true
    · -- the loop stopped at the file with the key
      obtain ⟨f, member, rfl, keyed⟩ := findFileLoop_some searched chosen.1
      simp only [chosen, and_self, if_true, Option.pure_def, Option.some.injEq] at taken
      subst taken
      have asks : Asks host q pcmd f := ⟨accepted, member, keyed ▸ asked⟩
      refine ⟨by simp [quiet], f, ⟨own, ⟨pcmd, asks, parsed⟩, rfl, rfl⟩, rfl⟩
    · cases last with
      | none =>
        simp only [chosen, if_false, Option.pure_def, Option.some.injEq] at taken
        subst taken
        exact silent
      | some f =>
        simp only [chosen, if_false, Option.pure_def, Option.some.injEq] at taken
        subst taken
        exact silent
  · cases taken
    exact silent

theorem served_open {f : SharedFile} (quiet : t.out = []) (chosen : Chosen host q t.store f)
    (path : t.store .fullPath = host.path f) :
    Served host q ((openPhase host calls (t.store .fullPath)).applied t) := by
  obtain ⟨pcmd, asks, parsed⟩ := chosen.asks
  have found := find_path asks.member
  rw [path]
  -- the file is found by its path either way; the call may still fail
  cases opens : calls.opens with
  | false =>
    simp only [Served, openPhase, found, opens, quiet]
    exact .nothing
  | true =>
    simp only [Served, openPhase, found, opens, quiet]
    refine ⟨rfl, f, ⟨chosen.request, ⟨pcmd, asks, parsed⟩, chosen.key, chosen.entryStat⟩, rfl⟩

theorem served_prepare {f : SharedFile} (quiet : t.out = []) (chosen : Chosen host q t.store f)
    (opened : t.store .file = some f.content) : Served host q ((preparePhase calls).applied t) := by
  -- `listen_addr` is what `getsockname` says of the socket
  cases listening : calls.listening with
  | none =>
    simp only [Served, preparePhase, listening, quiet]
    exact .nothing
  | some port =>
    simp only [Served, preparePhase, listening, quiet]
    refine ⟨rfl, f, ⟨chosen.request, chosen.asks, chosen.key, chosen.entryStat⟩, opened, rfl⟩

theorem served_ready {f : SharedFile} {effect : GetEffect} (quiet : t.out = []) (chosen : Chosen host q t.store f)
    (opened : t.store .file = some f.content) (listening : t.store .listenSock = some (t.store .listenAddr))
    (taken : readyPhase host (t.store .key) (t.store .listenAddr) (t.store .pcmd) (t.store .r) = some effect) :
    Served host q (effect.applied t) := by
  obtain ⟨pcmd, asks, parsed⟩ := chosen.asks
  rw [chosen.request, parsed, chosen.key] at taken
  simp only [readyPhase, Option.bind_eq_bind, Option.bind_some, Option.bind_eq_some_iff, Option.pure_def,
    Option.some.injEq] at taken
  obtain ⟨line, announced, rfl⟩ := taken
  -- the key in the line is the one of the file, and the port is the one listened on
  refine ⟨f, t.store .listenAddr, ⟨chosen.entryStat, opened, pcmd, line, asks, announced, ?_⟩, listening⟩
  simp [quiet]

theorem answer_ready {f : SharedFile} {port : UInt16} (offered : Offered host q t f port) :
    Answer host q (t.out ++ []) := by
  obtain ⟨pcmd, line, asks, announced, out⟩ := offered.line
  rw [out]
  exact .ready asks announced

theorem served_accept {f : SharedFile} {port : UInt16} (offered : Offered host q t f port)
    (listening : t.store .listenSock = some port) :
    Served host q ((acceptPhase calls (t.store .listenSock)).applied t) := by
  rw [listening]
  cases accepts : calls.accepts with
  | false =>
    simp only [acceptPhase, accepts]
    exact answer_ready offered
  | true =>
    simp only [acceptPhase, accepts]
    -- the line has been put out already, and the phase adds nothing
    obtain ⟨pcmd, line, asks, announced, out⟩ := offered.line
    refine ⟨f, port, ⟨offered.entryStat, offered.file, pcmd, line, asks, announced, ?_⟩, rfl⟩
    exact (List.append_nil t.out).trans out

theorem served_sendFile {f : SharedFile} {port : UInt16} {effect : GetEffect} (whole : WholeSends calls)
    (offered : Offered host q t f port) (connected : t.store .dataSock = some port)
    (taken : sendFilePhase calls (t.store .entryStat) (t.store .file) (t.store .dataSock) = some effect) :
    Served host q (effect.applied t) := by
  obtain ⟨pcmd, line, asks, announced, out⟩ := offered.line
  rw [offered.entryStat, offered.file, connected] at taken
  simp only [sendFilePhase, Option.bind_eq_bind] at taken
  obtain ⟨upload, uploaded, taken⟩ := Option.bind_eq_some_iff.mp taken
  -- the size fits in `entry_stat`, so the loop ends at the end of the file and not before
  have size : (UInt64.ofNat f.content.length).toNat = f.content.length :=
    UInt64.toNat_ofNat_of_lt' (Nat.lt_trans f.inRange (by decide))
  obtain ⟨partly, wholly⟩ := sendLoop_whole whole size uploaded
  cases complete : upload.complete with
  | true =>
    simp only [complete, if_true, Option.pure_def, Option.some.injEq] at taken
    subst taken
    simp only [Served, out]
    exact .sent asks announced partly fun _ => wholly complete
  | false =>
    simp only [complete, Bool.false_eq_true, if_false, Option.pure_def, Option.some.injEq] at taken
    subst taken
    simp only [Served, out]
    exact .sent asks announced partly (by simp)

/-- Every phase leads from where a request can be to where it can be next. -/
theorem served_step (served : Served host q t) (whole : WholeSends calls)
    (taken : (daemonRequestGet host).soloStep t calls = some t') : Served host q t' := by
  obtain ⟨effect, stepped, rfl⟩ := Option.map_eq_some_iff.mp taken
  simp only [daemonRequestGet, getStep] at stepped
  unfold Served at served
  -- one case for each phase, in the order of the source
  split at served
  next arg at_ =>
    simp only [at_, Option.some.injEq] at stepped
    exact stepped ▸ served_setR served.1 served.2
  next at_ =>
    simp only [at_] at stepped
    exact served_parse served.1 served.2 stepped
  next at_ =>
    simp only [at_] at stepped
    obtain ⟨quiet, own, pcmd, accepted, parsed⟩ := served
    exact served_findFile quiet own accepted parsed stepped
  next at_ =>
    simp only [at_, Option.some.injEq] at stepped
    obtain ⟨quiet, f, chosen, path⟩ := served
    exact stepped ▸ served_open quiet chosen path
  next at_ =>
    simp only [at_, Option.some.injEq] at stepped
    obtain ⟨quiet, f, chosen, opened⟩ := served
    exact stepped ▸ served_prepare quiet chosen opened
  next at_ =>
    simp only [at_] at stepped
    obtain ⟨quiet, f, chosen, opened, listening⟩ := served
    exact served_ready quiet chosen opened listening stepped
  next at_ =>
    simp only [at_, Option.some.injEq] at stepped
    obtain ⟨f, port, offered, listening⟩ := served
    exact stepped ▸ served_accept offered listening
  next at_ =>
    simp only [at_] at stepped
    obtain ⟨f, port, offered, connected⟩ := served
    exact served_sendFile whole offered connected stepped
  next at_ =>
    simp only [at_, Option.some.injEq] at stepped
    subst stepped
    simpa [Served, outPhase] using served
  next at_ => simp [at_] at stepped

end Pire2Pire.Transfer
