import Pire2Pire.Connections.Neighbours
import Pire2Pire.Protocol.Framing
import Pire2Pire.Transfer.Announce
import Pire2Pire.Transfer.Download
import Pire2Pire.Transfer.ServeGet

/-! What a daemon sends back on the connection of a peer, line after line (`daemon_handler.c` and the
handlers in `daemon_requests/`).

The error replies are the only ones that do not end in `'\n'`. -/
namespace Pire2Pire.Replies

open Library Protocol Transfer Neighbours

/-! ### The handlers -/

/-- The texts of a `get` that go to the peer's command connection. -/
def toPeer : GetOut → Option CString
  | .error _ text => some text
  | .ready _ line => some line
  | .data .. => none

/-- The phases from the first to the last. -/
def getFuel : Nat := 9

/-- A `get` that runs alone, over what earlier ones left in the variables. -/
def getReplies (host : Sharer) (store : ∀ v, GetVal v) (calls : GetCalls) (q : GetRequest) :
    Option (List CString) :=
  let t := (daemonRequestGet host).runAlone calls getFuel (Solo.start store (.setR (some q)))
  if t.proc = .returned then some (t.out.filterMap toPeer) else none

def toDaemon : Sent → Option CString
  | .daemon text => some text
  | .client _ => none

def readyReplies : ReadyOutcome → List CString
  | .replies text => [text]
  | .givesUp => []
  | .opens _ => []

/-- `"neighbour %s:%d\n"` -/
def neighbourLine (d : Daemon) : CString :=
  "neighbour ".toList ++ d.addr ++ ':' :: (decimal d.port.toInt ++ ['\n'])

/-- No result where `answer[256]` is overrun. -/
def daemonRequestNeighbourhood (addr : CString) : List Daemon → Option (List CString)
  | [] => some []
  | d :: daemons =>
    if strcmp addr d.addr ≠ .eq then
      (sprintfInto lineSize (neighbourLine d)).bind fun answer =>
        (daemonRequestNeighbourhood addr daemons).map fun answers => answer :: answers
    else daemonRequestNeighbourhood addr daemons

inductive Handler where
  | list
  | get
  | file
  | neighbourhood
  | neighbour
  | ready
  | unknown
deriving DecidableEq, Repr

/-- The choice in `handle_requests`. -/
def handlerOf (message : CString) : Handler :=
  if isCmd message "list".toList then .list
  else if isCmd message "get".toList then .get
  else if isCmd message "file".toList then .file
  else if isCmd message "neighbourhood".toList then .neighbourhood
  else if isCmd message "neighbour".toList then .neighbour
  else if isCmd message "ready".toList then .ready
  else .unknown

/-- A line that is handled, and what its handler finds: the variables of the daemon, which others change
too, and the outcome of its system calls. An `opendir` that fails leaves `dir` empty, and for the addresses
see `daemons_received`. -/
structure Request where
  line : CString
  received : Received line
  stays : ¬ "quit".toList <+: line
  listClient : Bool
  fileCache : FileCache
  dir : List DirEntry
  files : List SharedFile
  distinct : (files.map SharedFile.name).Nodup
  getStore : ∀ v, GetVal v
  getCalls : GetCalls
  readyCalls : ReadyCalls
  daemons : List Daemon
  addresses : ∀ d ∈ daemons, Received d.addr

/-- The daemon with its settings, and the peer whose lines it handles. -/
structure Link where
  host : Announcer
  mdFile : List UInt8 → Digest
  peer : Nat
  addr : CString

def Request.sharer (k : Link) (e : Request) : Sharer where
  sharedFolder := k.host.sharedFolder
  myIp := k.host.myIp
  files := e.files
  distinct := e.distinct
  mdFile := k.mdFile

/-- The texts that are sent to the peer for a line. What `daemon_request_neighbour` sends goes to another
daemon. -/
def handle (k : Link) (e : Request) : Option (List CString) :=
  match handlerOf e.line with
  | .list => daemonRequestList k.host e.dir
  | .get => getReplies (e.sharer k) e.getStore e.getCalls ⟨k.peer, e.line⟩
  | .file => (daemonRequestFile e.listClient e.fileCache e.line).map fun (_, sent) => sent.filterMap toDaemon
  | .neighbourhood => daemonRequestNeighbourhood k.addr e.daemons
  | .ready => some (readyReplies (daemonRequestReady k.host.sharedFolder e.fileCache e.readyCalls e.line))
  | .neighbour => some []
  | .unknown => some []

/-- Lines that are handled one after the other. -/
def handleAll (k : Link) : List Request → Option (List CString)
  | [] => some []
  | e :: es => (handle k e).bind fun texts => (handleAll k es).map fun later => texts ++ later

/-! ### Which lines are answered -/

/-- All tokens are arguments, and their number is right. -/
def WellFormed (count : Nat → Bool) (cmd : CString) : Prop :=
  count (words isADelimiter cmd).length ∧ ∀ w ∈ words isADelimiter cmd, tokenKind w = .argument

instance (count : Nat → Bool) (cmd : CString) : Decidable (WellFormed count cmd) :=
  inferInstanceAs (Decidable (_ ∧ _))

def GetLine : CString → Prop :=
  WellFormed (· = 4)

/-- The line gets an error reply. -/
def Malformed (e : Request) : Prop :=
  match handlerOf e.line with
  | .get => ¬ GetLine e.line
  | .file => e.listClient = true ∧ ¬ WellFormed (5 ≤ ·) e.line
  | .ready => (cmdToArgcArgv e.line).length < 8
  | _ => False

/-- The folder has a file with the key, and it can be served. -/
def Available (host : Sharer) (calls : GetCalls) (cmd : CString) : Prop :=
  (∃ f ∈ host.files, (words isADelimiter cmd)[1]? = some (host.keyOf f)) ∧ calls.opendir = true ∧
    calls.closedir = true ∧ calls.opens = true ∧ calls.listening.isSome = true

/-- An entry that a `list` announces. -/
def Listed (entry : DirEntry) : Prop :=
  entry.isRegular = true ∧ entry.size.isSome = true

/-- The line gets a reply. -/
def Answered (k : Link) (e : Request) : Prop :=
  match handlerOf e.line with
  | .list => ∃ entry ∈ e.dir, Listed entry
  | .get => ¬ GetLine e.line ∨ Available (e.sharer k) e.getCalls e.line
  | .neighbourhood => ∃ d ∈ e.daemons, d.addr ≠ k.addr
  | _ => Malformed e

/-- No name that is announced has a line end in it. -/
def CleanNames (e : Request) : Prop :=
  match handlerOf e.line with
  | .list => ∀ entry ∈ e.dir, Listed entry → '\n' ∉ entry.name.text ∧ '\r' ∉ entry.name.text
  | _ => True

variable {host : Sharer} {calls : GetCalls} {q : GetRequest} {t t' : Solo GetVal GetPhase GetOut}
  {cmd addr text : CString} {texts : List CString} {k : Link} {e : Request} {es : List Request}

/-! ### The replies to a `get` -/

/-- How many phases are still ahead at most. -/
def ahead : GetPhase → Nat
  | .setR _ => 9
  | .parse => 8
  | .findFile => 7
  | .openFile => 6
  | .prepareSending => 5
  | .sendReady => 4
  | .acceptPeer => 3
  | .sendFile => 2
  | .out => 1
  | .returned => 0

/-- Each phase goes on with a later one. -/
theorem ahead_step (taken : (daemonRequestGet host).soloStep t calls = some t') : ahead t'.proc < ahead t.proc := by
  obtain ⟨effect, stepped, rfl⟩ := Option.map_eq_some_iff.mp taken
  simp only [daemonRequestGet, getStep] at stepped
  split at stepped
  -- a request that is not there returns at once
  next at_ =>
    cases stepped
    simp only [setRPhase, at_]
    split <;> simp [ahead]
  -- the arguments
  next at_ =>
    obtain ⟨r, -, parsed⟩ := Option.bind_eq_some_iff.mp stepped
    rw [at_]
    split at parsed
    · cases parsed
      simp [ahead]
    · cases parsed
      simp [ahead]
  -- the folder is searched, and `goto out` is taken from several places
  next at_ =>
    rw [at_]
    unfold findFilePhase at stepped
    split at stepped
    · obtain ⟨parsed, -, stepped⟩ := Option.bind_eq_some_iff.mp stepped
      obtain ⟨wanted, -, stepped⟩ := Option.bind_eq_some_iff.mp stepped
      obtain ⟨⟨last, found⟩, -, stepped⟩ := Option.bind_eq_some_iff.mp stepped
      -- an empty folder leaves the variables as they were, but the next phase is the same
      cases last <;> cases stepped <;> (dsimp only; split <;> simp [ahead])
    · cases stepped
      simp [ahead]
  next at_ =>
    cases stepped
    simp only [openPhase, at_]
    split <;> simp [ahead]
  next at_ =>
    cases stepped
    simp only [preparePhase, at_]
    split <;> simp [ahead]
  -- the `ready` line
  next at_ =>
    obtain ⟨r, -, stepped⟩ := Option.bind_eq_some_iff.mp stepped
    obtain ⟨parsed, -, stepped⟩ := Option.bind_eq_some_iff.mp stepped
    obtain ⟨line, -, stepped⟩ := Option.bind_eq_some_iff.mp stepped
    cases stepped
    rw [at_]
    simp [ahead]
  next at_ =>
    cases stepped
    simp only [acceptPhase, at_]
    split <;> simp [ahead]
  -- the file, or a descriptor that is not open
  next at_ =>
    rw [at_]
    unfold sendFilePhase at stepped
    split at stepped
    · obtain ⟨upload, -, stepped⟩ := Option.bind_eq_some_iff.mp stepped
      split at stepped <;> (cases stepped; simp [ahead])
    · split at stepped <;> (cases stepped; simp [ahead])
  next at_ =>
    cases stepped
    simp [ahead, outPhase, at_]
  next => cases stepped

/-- The fuel is enough: a `get` either returns or is stuck. -/
theorem getFuel_enough (host : Sharer) (store : ∀ v, GetVal v) (calls : GetCalls) (q : GetRequest) :
    (daemonRequestGet host).soloStep
      ((daemonRequestGet host).runAlone calls getFuel (Solo.start store (.setR (some q)))) calls = none :=
  runAlone_ends ahead (fun _ _ taken => ahead_step taken) (Nat.le_refl _)

/-- What a `get` sends to the peer, by its line and by what can be served. -/
inductive GetReply (host : Sharer) (calls : GetCalls) (cmd : CString) : List CString → Prop
  | refused {reply} (refused : getArguments cmd = .error reply) : GetReply host calls cmd [reply]
  | ready {pcmd f port line} (accepted : getArguments cmd = .ok pcmd) (available : Available host calls cmd)
      (announced : readyMessage (host.keyOf f) host.myIp port pcmd = some line) : GetReply host calls cmd [line]
  | nothing {pcmd} (accepted : getArguments cmd = .ok pcmd) (unavailable : ¬ Available host calls cmd) :
      GetReply host calls cmd []

/-- Where a `get` has got to, and which calls have succeeded on the way. -/
def Replying (host : Sharer) (calls : GetCalls) (q : GetRequest) (t : Solo GetVal GetPhase GetOut) : Prop :=
  match t.proc with
  | .setR arg => t.out = [] ∧ arg = some q
  | .parse => t.out = [] ∧ t.store .r = some q
  | .findFile => t.out = [] ∧ t.store .r = some q ∧
      ∃ pcmd, getArguments q.cmd = .ok pcmd ∧ t.store .pcmd = some pcmd
  | .openFile => t.out = [] ∧ calls.opendir = true ∧ calls.closedir = true ∧
      ∃ f, Chosen host q t.store f ∧ t.store .fullPath = host.path f
  | .prepareSending => t.out = [] ∧ calls.opendir = true ∧ calls.closedir = true ∧ calls.opens = true ∧
      ∃ f, Chosen host q t.store f
  | .sendReady => t.out = [] ∧ Available host calls q.cmd ∧ ∃ f, Chosen host q t.store f
  | _ => GetReply host calls q.cmd (t.out.filterMap toPeer)

/-- The loop misses no file with the key. -/
theorem findFileLoop_missed {wanted : CString} {files : List SharedFile} {before last : Option SharedFile}
    (searched : findFileLoop host wanted files before = some (last, false)) :
    ∀ f ∈ files, host.keyOf f ≠ wanted := by
  induction files generalizing before with
  | nil => simp
  | cons f files ih =>
    cases path : sprintfInto 512 (host.path f) with
    | none => simp [findFileLoop, path] at searched
    | some text =>
      -- `strcmp` decides: a match ends the loop with `true`
      by_cases same : strcmp (host.keyOf f) wanted = .eq
      · simp [findFileLoop, path, same] at searched
      · simp only [findFileLoop, path, Option.bind_eq_bind, Option.bind_some, same, if_false] at searched
        refine List.forall_mem_cons.mpr ⟨?_, ih searched⟩
        intro equal
        exact same ((strcmp_eq_iff _ _).mpr equal)

theorem argv_eq {pcmd : ParsedCmd} (accepted : getArguments cmd = .ok pcmd) : pcmd.argv = words isADelimiter cmd := by
  rw [(getArguments_ok_iff.mp accepted).1]

theorem chosen_wanted {store : ∀ v, GetVal v} {f : SharedFile} (chosen : Chosen host q store f) :
    ∃ f ∈ host.files, (words isADelimiter q.cmd)[1]? = some (host.keyOf f) := by
  obtain ⟨pcmd, asks, -⟩ := chosen.asks
  refine ⟨f, asks.member, ?_⟩
  rw [← argv_eq asks.accepted, asks.keyed]

theorem replying_findFile {effect : GetEffect} {pcmd : ParsedCmd} (quiet : t.out = []) (own : t.store .r = some q)
    (accepted : getArguments q.cmd = .ok pcmd) (parsed : t.store .pcmd = some pcmd)
    (taken : findFilePhase host calls (t.store .pcmd) = some effect) :
    Replying host calls q (effect.applied t) := by
  -- every early exit of this phase has sent nothing so far
  have silent : ¬ Available host calls q.cmd → GetReply host calls q.cmd ((t.out ++ []).filterMap toPeer) := by
    intro unavailable
    rw [quiet]
    exact .nothing accepted unavailable
  rw [parsed] at taken
  unfold findFilePhase at taken
  split at taken
  next opened =>
    simp only [Option.bind_eq_bind, Option.bind_some] at taken
    obtain ⟨wanted, asked, taken⟩ := Option.bind_eq_some_iff.mp taken
    obtain ⟨⟨last, found⟩, searched, taken⟩ := Option.bind_eq_some_iff.mp taken
    by_cases chosen : found = true ∧ calls.closedir = true
    -- the loop stopped at a file with the key
    · obtain ⟨f, member, rfl, keyed⟩ := findFileLoop_some searched chosen.1
      simp only [chosen, and_self, if_true, Option.pure_def, Option.some.injEq] at taken
      subst taken
      have asks : Asks host q pcmd f := ⟨accepted, member, keyed ▸ asked⟩
      exact ⟨by simp [quiet], opened, chosen.2, f, ⟨own, ⟨pcmd, asks, parsed⟩, rfl, rfl⟩, rfl⟩
    · -- no file has the key, or the folder could not be closed
      have unavailable : ¬ Available host calls q.cmd := by
        rintro ⟨⟨f, member, keyed⟩, -, closed, -⟩
        rw [← argv_eq accepted, asked, Option.some.injEq] at keyed
        have missed : found = false := by
          cases found with
          | false => rfl
          | true => exact absurd ⟨rfl, closed⟩ chosen
        subst missed
        exact findFileLoop_missed searched f member keyed.symm
      simp only [chosen, if_false, Option.pure_def] at taken
      cases last <;> (cases taken; exact silent unavailable)
  next shut =>
    cases taken
    exact silent fun available => shut available.2.1

theorem replying_open {f : SharedFile} (quiet : t.out = []) (opened : calls.opendir = true)
    (closed : calls.closedir = true) (chosen : Chosen host q t.store f) (path : t.store .fullPath = host.path f) :
    Replying host calls q ((openPhase host calls (t.store .fullPath)).applied t) := by
  obtain ⟨pcmd, asks, parsed⟩ := chosen.asks
  -- the path leads back to the file, since names are distinct
  have found := find_path asks.member
  rw [path]
  cases opens : calls.opens with
  | false =>
    simp only [Replying, openPhase, found, opens, quiet]
    exact .nothing asks.accepted fun available => by simp [Available, opens] at available
  | true =>
    simp only [Replying, openPhase, found, opens, quiet]
    exact ⟨rfl, opened, closed, trivial, f, chosen.request, ⟨pcmd, asks, parsed⟩, chosen.key, chosen.entryStat⟩

theorem replying_prepare {f : SharedFile} (quiet : t.out = []) (opened : calls.opendir = true)
    (closed : calls.closedir = true) (opens : calls.opens = true) (chosen : Chosen host q t.store f) :
    Replying host calls q ((preparePhase calls).applied t) := by
  cases listening : calls.listening with
  | none =>
    obtain ⟨pcmd, asks, -⟩ := chosen.asks
    simp only [Replying, preparePhase, listening, quiet]
    exact .nothing asks.accepted fun available => by simp [Available, listening] at available
  | some port =>
    simp only [Replying, preparePhase, listening, quiet]
    exact ⟨rfl, ⟨chosen_wanted chosen, opened, closed, opens, by rw [listening]; rfl⟩, f, chosen.request, chosen.asks,
      chosen.key, chosen.entryStat⟩

theorem replying_ready {f : SharedFile} {effect : GetEffect} (quiet : t.out = [])
    (available : Available host calls q.cmd) (chosen : Chosen host q t.store f)
    (taken : readyPhase host (t.store .key) (t.store .listenAddr) (t.store .pcmd) (t.store .r) = some effect) :
    Replying host calls q (effect.applied t) := by
  obtain ⟨pcmd, asks, parsed⟩ := chosen.asks
  rw [chosen.request, parsed, chosen.key] at taken
  simp only [readyPhase, Option.bind_eq_bind, Option.bind_some, Option.bind_eq_some_iff, Option.pure_def,
    Option.some.injEq] at taken
  obtain ⟨line, announced, rfl⟩ := taken
  simp only [Replying, quiet]
  exact .ready asks.accepted available announced

theorem replying_step (replying : Replying host calls q t)
    (taken : (daemonRequestGet host).soloStep t calls = some t') : Replying host calls q t' := by
  obtain ⟨effect, stepped, rfl⟩ := Option.map_eq_some_iff.mp taken
  simp only [daemonRequestGet, getStep] at stepped
  unfold Replying at replying
  split at stepped
  -- `r` is written first, and from then on it is the own request
  next arg at_ =>
    simp only [at_] at replying
    obtain ⟨quiet, rfl⟩ := replying
    cases stepped
    simp [Replying, setRPhase, writeTo, quiet]
  -- the error replies of the parser are the only ones
  next at_ =>
    simp only [at_] at replying
    obtain ⟨quiet, own⟩ := replying
    rw [own] at stepped
    simp only [parsePhase, Option.bind_eq_bind, Option.bind_some] at stepped
    cases accepted : getArguments q.cmd with
    | error text =>
      simp only [accepted, Option.pure_def, Option.some.injEq] at stepped
      subst stepped
      simp only [Replying, quiet]
      exact .refused accepted
    | ok pcmd =>
      simp only [accepted, Option.pure_def, Option.some.injEq] at stepped
      subst stepped
      simp [Replying, writeTo, quiet, own, accepted]
  -- the other phases before the `ready` line send nothing
  next at_ =>
    simp only [at_] at replying
    obtain ⟨quiet, own, pcmd, accepted, parsed⟩ := replying
    exact replying_findFile quiet own accepted parsed stepped
  next at_ =>
    simp only [at_] at replying
    obtain ⟨quiet, opened, closed, f, chosen, path⟩ := replying
    cases stepped
    exact replying_open quiet opened closed chosen path
  next at_ =>
    simp only [at_] at replying
    obtain ⟨quiet, opened, closed, opens, f, chosen⟩ := replying
    cases stepped
    exact replying_prepare quiet opened closed opens chosen
  next at_ =>
    simp only [at_] at replying
    obtain ⟨quiet, available, f, chosen⟩ := replying
    exact replying_ready quiet available chosen stepped
  -- from here on nothing goes to the peer's command connection
  next at_ =>
    simp only [at_] at replying
    cases stepped
    unfold acceptPhase
    split <;> simpa [Replying] using replying
  next at_ =>
    simp only [at_] at replying
    unfold sendFilePhase at stepped
    split at stepped
    · obtain ⟨upload, -, stepped⟩ := Option.bind_eq_some_iff.mp stepped
      split at stepped <;> (cases stepped; simpa [Replying, List.filterMap_cons, toPeer] using replying)
    · split at stepped <;> (cases stepped; simpa [Replying] using replying)
  next at_ =>
    simp only [at_] at replying
    cases stepped
    simpa [Replying, outPhase] using replying
  next => cases stepped

theorem getReplies_reply {store : ∀ v, GetVal v} (handled : getReplies host store calls q = some texts) :
    GetReply host calls q.cmd texts := by
  -- the invariant holds before the first phase, so it holds where the run returns
  have started : Replying host calls q (Solo.start store (.setR (some q))) := ⟨rfl, rfl⟩
  have replying := runAlone_invariant _ (fun _ _ => replying_step) getFuel started
  unfold getReplies at handled
  dsimp only at handled
  split at handled
  next at_ =>
    cases handled
    unfold Replying at replying
    simpa only [at_] using replying
  · cases handled

/-! ### The replies of each handler -/

/-- What the texts for one line are like: an error reply, which is alone, leaves its line open, and all
others end it. -/
structure Sends (malformed answered clean : Prop) (texts : List CString) : Prop where
  visible : ∀ t ∈ texts, messageOf t ≠ []
  inside : texts.Pairwise fun t _ => Terminated t
  ended : (∀ t ∈ texts, Terminated t) ↔ ¬ malformed
  silent : texts = [] ↔ ¬ answered
  readable : (∀ t ∈ texts, Received (messageOf t)) ↔ clean

variable {malformed answered clean : Prop}

theorem sends_nothing (wellFormed : ¬ malformed) (unanswered : ¬ answered) (readable : clean) :
    Sends malformed answered clean [] where
  visible := by simp
  inside := .nil
  ended := by simp [wellFormed]
  silent := by simp [unanswered]
  readable := by simp [readable]

theorem sends_error (error : text ≠ [] ∧ '\n' ∉ text ∧ '\r' ∉ text ∧ '\x00' ∉ text) (refused : malformed)
    (replied : answered) (readable : clean) : Sends malformed answered clean [text] := by
  obtain ⟨visible, noNewline, noReturn, noNul⟩ := error
  -- an error reply has no `'\n'` at all, so it does not end in one
  have unended : ¬ Terminated text := fun ended => noNewline (List.mem_of_getLast? ended)
  have received : Received text := ⟨noReturn, noNewline, noNul⟩
  refine ⟨?_, List.pairwise_singleton _ _, ?_, ?_, ?_⟩
  · simpa [messageOf_text unended] using visible
  · simp [unended, refused]
  · simp [replied]
  · simp [messageOf_text unended, received, readable]

theorem sends_lines (wellFormed : ¬ malformed) (lines : ∀ t ∈ texts, Terminated t ∧ messageOf t ≠ [])
    (silent : texts = [] ↔ ¬ answered) (readable : (∀ t ∈ texts, Received (messageOf t)) ↔ clean) :
    Sends malformed answered clean texts where
  visible := fun t member => (lines t member).2
  inside := List.pairwise_of_forall_mem_list fun t member _ _ => (lines t member).1
  ended := iff_of_true (fun t member => (lines t member).1) wellFormed
  silent := silent
  readable := readable

theorem getLine_iff : GetLine cmd ↔ ∃ pcmd, getArguments cmd = .ok pcmd := by
  simp only [GetLine, WellFormed, decide_eq_true_eq, getArguments_ok_iff, exists_eq_left]

/-- A command that is refused is answered with one of the two texts. -/
theorem getArguments_error (refused : getArguments cmd = .error text) :
    text ≠ [] ∧ '\n' ∉ text ∧ '\r' ∉ text ∧ '\x00' ∉ text := by
  unfold getArguments at refused
  split at refused
  · cases refused
    decide +kernel
  · split at refused
    · cases refused
      decide +kernel
    · cases refused

/-- A `ready` line is made of fields. -/
theorem readyMessage_line {key line : CString} {myIp : Ipv4} {port : UInt16} {pcmd : ParsedCmd}
    (received : Received cmd) (accepted : getArguments cmd = .ok pcmd) (field : Field key)
    (announced : readyMessage key myIp port pcmd = some line) :
    Terminated line ∧ messageOf line ≠ [] ∧ Received (messageOf line) := by
  -- every word of the line went through `is_a_delimiter`, so none of them has a separator in it
  have tokens : ∀ w ∈ pcmd.argv, Field w := by
    rw [argv_eq accepted]
    exact fun w member => field_of_mem_words received member
  unfold readyMessage at announced
  split at announced
  next first wanted beginning finish shape =>
    rw [shape] at tokens
    obtain ⟨-, rfl⟩ := sprintfInto_some.mp announced
    refine ⟨terminated_line _, ?_⟩
    rw [messageOf_line]
    refine ⟨by simp [joinFields], received_joinFields ?_⟩
    simp only [List.mem_cons, List.not_mem_nil, or_false, forall_eq_or_imp, forall_eq]
    exact ⟨literal_field (by decide) (by decide), field, literal_field (by decide) (by decide),
      inetNtop_field myIp, decimal_field _, literal_field (by decide) (by decide), tokens _ (by simp),
      tokens _ (by simp)⟩
  · cases announced

theorem sends_get (received : Received cmd) (reply : GetReply host calls cmd texts) :
    Sends (¬ GetLine cmd) (¬ GetLine cmd ∨ Available host calls cmd) True texts := by
  -- one case for each way a `get` can end
  cases reply with
  | refused refused =>
    have malformed : ¬ GetLine cmd := by
      rw [getLine_iff]
      rintro ⟨pcmd, accepted⟩
      rw [refused] at accepted
      cases accepted
    exact sends_error (getArguments_error refused) malformed (.inl malformed) trivial
  | ready accepted available announced =>
    have wellFormed := getLine_iff.mpr ⟨_, accepted⟩
    have line := readyMessage_line received accepted (getMd5_field _) announced
    refine sends_lines (by simpa using wellFormed) ?_ ?_ ?_
    · simpa using ⟨line.1, line.2.1⟩
    · simp [available]
    · simpa using line.2.2
  | nothing accepted unavailable =>
    have wellFormed := getLine_iff.mpr ⟨_, accepted⟩
    exact sends_nothing (by simpa using wellFormed) (by simp [wellFormed, unavailable]) trivial

theorem sends_file {listClient : Bool} {cache cache' : FileCache} {sent : List Sent}
    (handled : daemonRequestFile listClient cache cmd = some (cache', sent)) :
    Sends (listClient = true ∧ ¬ WellFormed (5 ≤ ·) cmd) (listClient = true ∧ ¬ WellFormed (5 ≤ ·) cmd) True
      (sent.filterMap toDaemon) := by
  unfold daemonRequestFile at handled
  cases listClient with
  -- without a client that waits for a list the line is dropped unread
  | false =>
    simp only [Bool.not_false, if_true, Option.some.injEq, Prod.mk.injEq] at handled
    obtain ⟨-, rfl⟩ := handled
    exact sends_nothing (by simp) (by simp) trivial
  | true =>
    simp only [Bool.not_true, Bool.false_eq_true, if_false] at handled
    split at handled
    next refused =>
      -- a well-formed line is never refused by the parser
      have malformed : ¬ WellFormed (5 ≤ ·) cmd := by
        rintro ⟨count, arguments⟩
        have some' : words isADelimiter cmd ≠ [] := by
          intro empty
          simp [empty] at count
        rw [(cmdParse_plain rfl).mpr ⟨rfl, some', arguments⟩] at refused
        cases refused
      cases handled
      exact sends_error (by decide +kernel) ⟨rfl, malformed⟩ ⟨rfl, malformed⟩ trivial
    next pcmd parsed =>
      obtain ⟨rfl, -, arguments⟩ := (cmdParse_plain rfl).mp parsed
      split at handled
      next first name key size address rest shape =>
        have wellFormed : WellFormed (5 ≤ ·) cmd := ⟨by simp [show words isADelimiter cmd = _ from shape], arguments⟩
        obtain ⟨port, -, handled⟩ := Option.bind_eq_some_iff.mp handled
        obtain ⟨updated, -, handled⟩ := Option.bind_eq_some_iff.mp handled
        cases handled
        exact sends_nothing (by simp [wellFormed]) (by simp [wellFormed]) trivial
      -- the parser accepts fewer than five words, the handler does not
      next few =>
        have malformed : ¬ WellFormed (5 ≤ ·) cmd := by
          rintro ⟨count, -⟩
          match shape : words isADelimiter cmd with
          | [] | [_] | [_, _] | [_, _, _] | [_, _, _, _] => simp [shape] at count
          | first :: name :: key :: size :: address :: rest => exact few _ _ _ _ _ _ shape
        cases handled
        exact sends_error (by decide +kernel) ⟨rfl, malformed⟩ ⟨rfl, malformed⟩ trivial

theorem sends_ready {sharedFolder : CString} {cache : FileCache} {calls : ReadyCalls} :
    Sends ((cmdToArgcArgv cmd).length < 8) ((cmdToArgcArgv cmd).length < 8) True
      (readyReplies (daemonRequestReady sharedFolder cache calls cmd)) := by
  unfold daemonRequestReady
  split
  -- with eight words or more nothing is sent, whatever the calls do
  next first key delay ip port proto beginning finish rest shape =>
    have enough : ¬ (cmdToArgcArgv cmd).length < 8 := by
      rw [shape]
      simp
    have quiet := sends_nothing enough enough trivial
    split
    · exact quiet
    · split
      · exact quiet
      · split
        · exact quiet
        · exact quiet
  next few =>
    have malformed : (cmdToArgcArgv cmd).length < 8 := by
      match shape : cmdToArgcArgv cmd with
      | [] | [_] | [_, _] | [_, _, _] | [_, _, _, _] | [_, _, _, _, _] | [_, _, _, _, _, _]
      | [_, _, _, _, _, _, _] => simp
      | _ :: _ :: _ :: _ :: _ :: _ :: _ :: _ :: _ => exact absurd shape (few _ _ _ _ _ _ _ _ _)
    exact sends_error (by decide +kernel) malformed malformed trivial

theorem fileMessage_line (host : Announcer) (name : FileName) (digest : Digest) (size : Nat) :
    Terminated (fileMessage host name digest size) ∧ messageOf (fileMessage host name digest size) ≠ [] := by
  rw [fileMessage, messageOf_line]
  exact ⟨terminated_line _, by simp [joinFields]⟩

theorem fileMessage_readable (host : Announcer) (name : FileName) (digest : Digest) (size : Nat) :
    Received (messageOf (fileMessage host name digest size)) ↔ '\n' ∉ name.text ∧ '\r' ∉ name.text := by
  have word : Received "file".toList := (literal_field (by decide) (by decide)).toReceived
  rw [fileMessage, messageOf_line, received_joinFields_iff]
  -- only the name can bring a line end into the line
  simp only [List.mem_cons, List.not_mem_nil, or_false, forall_eq_or_imp, forall_eq, word,
    (getMd5_field digest).toReceived, (decimal_field _).toReceived, (address_field host).toReceived, true_and,
    and_true]
  constructor
  · intro received
    exact ⟨received.noNewline, received.noReturn⟩
  · rintro ⟨noNewline, noReturn⟩
    exact ⟨noReturn, noNewline, name.noNul⟩

theorem sends_list {host : Announcer} {dir : List DirEntry} (handled : daemonRequestList host dir = some texts) :
    Sends False (∃ entry ∈ dir, Listed entry)
      (∀ entry ∈ dir, Listed entry → '\n' ∉ entry.name.text ∧ '\r' ∉ entry.name.text) texts := by
  have lines : ∀ text, text ∈ texts ↔ ∃ entry ∈ dir, entry.isRegular = true ∧
      ∃ size, entry.size = some size ∧ fileMessage host entry.name entry.digest size = text :=
    fun _ => mem_daemonRequestList handled
  refine sends_lines id ?_ ?_ ?_
  · intro text member
    obtain ⟨entry, -, -, size, -, rfl⟩ := (lines text).mp member
    exact fileMessage_line host entry.name entry.digest size
  -- no text at all: no entry was listed
  · rw [List.eq_nil_iff_forall_not_mem]
    constructor
    · rintro none' ⟨entry, member, regular, known⟩
      obtain ⟨size, known⟩ := Option.isSome_iff_exists.mp known
      exact none' _ ((lines _).mpr ⟨entry, member, regular, size, known, rfl⟩)
    · intro unlisted text member
      obtain ⟨entry, inside, regular, size, known, -⟩ := (lines text).mp member
      exact unlisted ⟨entry, inside, regular, by rw [known]; rfl⟩
  -- each text reads back as it was sent: no listed name has a line end
  · constructor
    · rintro readable entry member ⟨regular, known⟩
      obtain ⟨size, known⟩ := Option.isSome_iff_exists.mp known
      have received := readable _ ((lines _).mpr ⟨entry, member, regular, size, known, rfl⟩)
      exact (fileMessage_readable host entry.name entry.digest size).mp received
    · intro clean text member
      obtain ⟨entry, inside, regular, size, known, rfl⟩ := (lines text).mp member
      exact (fileMessage_readable host entry.name entry.digest size).mpr
        (clean entry inside ⟨regular, by rw [known]; rfl⟩)

theorem mem_daemonRequestNeighbourhood {daemons : List Daemon}
    (handled : daemonRequestNeighbourhood addr daemons = some texts) :
    text ∈ texts ↔ ∃ d ∈ daemons, d.addr ≠ addr ∧ neighbourLine d = text := by
  induction daemons generalizing texts with
  | nil =>
    cases handled
    simp
  | cons d daemons ih =>
    -- the peer itself is left out of its neighbourhood
    unfold daemonRequestNeighbourhood at handled
    split at handled
    next differ =>
      have other : d.addr ≠ addr := fun equal => differ ((strcmp_eq_iff _ _).mpr equal.symm)
      simp only [Option.bind_eq_some_iff, Option.map_eq_some_iff, sprintfInto_some] at handled
      obtain ⟨_, ⟨-, rfl⟩, answers, rest, rfl⟩ := handled
      rw [List.mem_cons, ih rest, eq_comm (a := text)]
      simp only [List.mem_cons, exists_eq_or_imp, other, ne_eq, not_false_eq_true, true_and]
    next same =>
      have own : d.addr = addr := ((strcmp_eq_iff _ _).mp (not_not.mp same)).symm
      rw [ih handled]
      simp [own]

theorem neighbourLine_line {d : Daemon} (received : Received d.addr) :
    Terminated (neighbourLine d) ∧ messageOf (neighbourLine d) ≠ [] ∧ Received (messageOf (neighbourLine d)) := by
  have word : Received "neighbour ".toList := ⟨by decide +kernel, by decide +kernel, by decide +kernel⟩
  have colon : Received [':'] := ⟨by decide, by decide, by decide⟩
  have number := (decimal_field d.port.toInt).toReceived
  unfold neighbourLine
  -- `decimal` is not to be unfolded below
  generalize decimal d.port.toInt = digits at number
  generalize "neighbour ".toList = start at word
  have shape : start ++ d.addr ++ ':' :: (digits ++ ['\n']) = (start ++ d.addr ++ ':' :: digits) ++ ['\n'] := by
    simp
  rw [shape, messageOf_line]
  refine ⟨terminated_line _, by simp, ?_⟩
  rw [received_append, received_append, received_cons]
  exact ⟨⟨word, received⟩, colon, number⟩

theorem sends_neighbourhood {daemons : List Daemon} (addresses : ∀ d ∈ daemons, Received d.addr)
    (handled : daemonRequestNeighbourhood addr daemons = some texts) :
    Sends False (∃ d ∈ daemons, d.addr ≠ addr) True texts := by
  have lines : ∀ text, text ∈ texts ↔ ∃ d ∈ daemons, d.addr ≠ addr ∧ neighbourLine d = text :=
    fun _ => mem_daemonRequestNeighbourhood handled
  have line : ∀ text ∈ texts, Terminated text ∧ messageOf text ≠ [] ∧ Received (messageOf text) := by
    intro text member
    obtain ⟨d, known, -, rfl⟩ := (lines text).mp member
    exact neighbourLine_line (addresses d known)
  refine sends_lines id (fun text member => ⟨(line text member).1, (line text member).2.1⟩) ?_ ?_
  · rw [List.eq_nil_iff_forall_not_mem]
    constructor
    · rintro none' ⟨d, known, other⟩
      exact none' _ ((lines _).mpr ⟨d, known, other, rfl⟩)
    · intro alone text member
      obtain ⟨d, known, other, -⟩ := (lines text).mp member
      exact alone ⟨d, known, other⟩
  · exact iff_of_true (fun text member => (line text member).2.2) trivial

/-! ### Line after line -/

theorem handle_sends (handled : handle k e = some texts) :
    Sends (Malformed e) (Answered k e) (CleanNames e) texts := by
  unfold handle at handled
  -- each handler has its own lemma, and the last two send the peer nothing
  unfold Malformed Answered CleanNames
  cases chosen : handlerOf e.line with
  | list =>
    rw [chosen] at handled
    exact sends_list handled
  | get =>
    rw [chosen] at handled
    exact sends_get e.received (getReplies_reply handled)
  | file =>
    rw [chosen] at handled
    dsimp only at handled
    obtain ⟨⟨cache, sent⟩, ran, rfl⟩ := Option.map_eq_some_iff.mp handled
    simp only [Malformed, chosen]
    exact sends_file ran
  | neighbourhood =>
    rw [chosen] at handled
    exact sends_neighbourhood e.addresses handled
  | ready =>
    rw [chosen] at handled
    cases handled
    simp only [Malformed, chosen]
    exact sends_ready
  | neighbour =>
    rw [chosen] at handled
    cases handled
    simp only [Malformed, chosen]
    exact sends_nothing id id trivial
  | unknown =>
    rw [chosen] at handled
    cases handled
    simp only [Malformed, chosen]
    exact sends_nothing id id trivial

theorem handleAll_cons : handleAll k (e :: es) = some texts ↔
    ∃ first later, handle k e = some first ∧ handleAll k es = some later ∧ first ++ later = texts := by
  simp only [handleAll, Option.bind_eq_some_iff, Option.map_eq_some_iff]
  constructor
  · rintro ⟨first, head, later, tail, rfl⟩
    exact ⟨first, later, head, tail, rfl⟩
  · rintro ⟨first, later, head, tail, rfl⟩
    exact ⟨first, head, later, tail, rfl⟩

theorem handleAll_visible (handled : handleAll k es = some texts) : ∀ t ∈ texts, messageOf t ≠ [] := by
  induction es generalizing texts with
  | nil =>
    cases handled
    simp
  | cons e es ih =>
    obtain ⟨first, later, head, tail, rfl⟩ := handleAll_cons.mp handled
    exact List.forall_mem_append.mpr ⟨(handle_sends head).visible, ih tail⟩

theorem handleAll_silent (handled : handleAll k es = some texts) : texts = [] ↔ ∀ e ∈ es, ¬ Answered k e := by
  induction es generalizing texts with
  | nil =>
    cases handled
    simp
  | cons e es ih =>
    obtain ⟨first, later, head, tail, rfl⟩ := handleAll_cons.mp handled
    rw [List.append_eq_nil_iff, List.forall_mem_cons, ih tail, (handle_sends head).silent]

theorem handleAll_readable (handled : handleAll k es = some texts) :
    (∀ t ∈ texts, Received (messageOf t)) ↔ ∀ e ∈ es, CleanNames e := by
  induction es generalizing texts with
  | nil =>
    cases handled
    simp
  | cons e es ih =>
    obtain ⟨first, later, head, tail, rfl⟩ := handleAll_cons.mp handled
    rw [List.forall_mem_append, List.forall_mem_cons, ih tail, (handle_sends head).readable]

/-- A malformed line is followed by no line that is answered. -/
theorem handleAll_ended (handled : handleAll k es = some texts) :
    (texts.Pairwise fun t _ => Terminated t) ↔ es.Pairwise fun e e' => Malformed e → ¬ Answered k e' := by
  induction es generalizing texts with
  | nil =>
    cases handled
    simp
  | cons e es ih =>
    -- induction on the lines: `first` is what the line itself gets, `later` what the rest gets
    obtain ⟨first, later, head, tail, rfl⟩ := handleAll_cons.mp handled
    have sends := handle_sends head
    have between : (∀ t ∈ first, ∀ t' ∈ later, Terminated t) ↔ ∀ e' ∈ es, Malformed e → ¬ Answered k e' := by
      constructor
      -- an open error reply followed by any text is the failing case
      · intro ended e' member malformed
        by_contra answered
        have some' : later ≠ [] := fun empty => (handleAll_silent tail).mp empty e' member answered
        obtain ⟨t', inside⟩ := List.exists_mem_of_ne_nil later some'
        exact sends.ended.mp (fun t among => ended t among t' inside) malformed
      -- a later text means that a later line was answered, so this line was well formed
      · intro alone t among t' inside
        have some' : later ≠ [] := List.ne_nil_of_mem inside
        have wellFormed : ¬ Malformed e := by
          intro malformed
          exact some' ((handleAll_silent tail).mpr fun e' member => alone e' member malformed)
        exact sends.ended.mpr wellFormed t among
    rw [List.pairwise_append, List.pairwise_cons, ih tail, between]
    simp only [sends.inside, true_and]
    exact and_comm

/-- A line that finds an empty folder and a second peer. -/
def plainRequest (line : CString) (received : Received line) (stays : ¬ "quit".toList <+: line) : Request where
  line := line
  received := received
  stays := stays
  listClient := false
  fileCache := .empty
  dir := []
  files := []
  distinct := List.nodup_nil
  getStore := emptyStore
  getCalls := {}
  readyCalls := workingCalls
  daemons := [⟨"10.0.0.3".toList, 7331, false⟩]
  addresses := by decide +kernel

def firstPeer : Link :=
  ⟨tmpHost, fun _ => Vector.replicate 16 0, 1, "10.0.0.2".toList⟩

def neighbourhoodRequest : Request :=
  plainRequest "neighbourhood".toList (by decide +kernel) (by decide +kernel)

/-- A `get` without its arguments. -/
def shortGet : Request :=
  plainRequest "get".toList (by decide +kernel) (by decide +kernel)

end Pire2Pire.Replies
