import Pire2Pire.Library.SharedVariables
import Pire2Pire.Transfer.Handshake

/-! Asking for a file (`client_requests/client_request_get.c`), phase by phase over the file-scope variables
of the source.

The cache and the list of daemons do not change meanwhile. -/
namespace Pire2Pire.Transfer

open Library Protocol

/-! ### What the phases work on -/

/-- A `struct daemon`, known by its address in memory. -/
structure Peer where
  id : Nat
  addr : CString
deriving DecidableEq, Repr

/-- The daemon whose client asks. -/
structure Asker where
  fileCache : FileCache
  daemons : List Peer

/-- A `struct client_request`. -/
structure ClientRequest where
  client : Nat
  cmd : CString
deriving DecidableEq, Repr

inductive AskVar where
  | r
  | answer
  | fileToDl
  | d
deriving DecidableEq, Repr

abbrev AskVal : AskVar → Type
  | .r => Option ClientRequest
  | .answer => CString
  | .fileToDl => Option FileEntry
  | .d => Option Peer

inductive AskPhase where
  | setR (arg : Option ClientRequest)
  | findFile
  | findDaemon
  | send
  /-- Returned without a `get` line. -/
  | failed
  /-- Returned with the `get` line sent. -/
  | sent
deriving DecidableEq, Repr

/-- Whether the two `client_send`s of `find_file` and the `daemon_send` succeed. -/
structure AskCalls where
  first : Bool := true
  second : Bool := true
  daemon : Bool := true
deriving DecidableEq, Repr

inductive AskOut where
  | client (client : Nat) (text : CString)
  | daemon (id : Nat) (line : CString)
deriving DecidableEq, Repr

abbrev AskEffect := Effect AskVal AskPhase AskOut

/-! ### The phases -/

def askSetRPhase (arg : Option ClientRequest) : AskEffect where
  next := if arg.isSome then .findFile else .failed
  writes
    | .r => some arg
    | _ => none
  out := []

/-- One of the replies that end the request. -/
def refuse (q : ClientRequest) (sends : Bool) (text : CString) (writes : ∀ v, Option (AskVal v)) : AskEffect where
  next := .failed
  writes := writes
  out := if sends then [.client q.client text] else []

/-- The address of the first seeder; one that is not terminated cannot be read. -/
def firstSeeder (entry : FileEntry) : Option Seeder :=
  entry.seeders.head?.filter fun s => s.ip.length ≤ fileIpSize

/-- `"< get : seeder is %s:%d\n"` into `answer[256]`. -/
def seederMessage (s : Seeder) : Option CString :=
  sprintfInto 256 ("< get : seeder is ".toList ++ s.ip ++ ':' :: decimal s.port.toInt ++ ['\n'])

/-- The reply that names the seeder is sent twice, as in the source. -/
def tellSeeder (q : ClientRequest) (calls : AskCalls) (entry : FileEntry) : Option AskEffect := do
  let s ← firstSeeder entry
  let answer ← seederMessage s
  let writes : ∀ v, Option (AskVal v) := fun
    | .fileToDl => some (some entry)
    | .answer => some answer
    | _ => none
  if !calls.first then return ⟨.failed, writes, []⟩
  else if !calls.second then return ⟨.failed, writes, [.client q.client answer]⟩
  else return ⟨.findDaemon, writes, [.client q.client answer, .client q.client answer]⟩

def askFindFilePhase (asker : Asker) (calls : AskCalls) (r : Option ClientRequest) : Option AskEffect := do
  let q ← r
  match cmdParse q.cmd none with
  | .error _ => return ⟨.failed, fun _ => none, []⟩
  | .ok parsed =>
    match parsed.argv[1]? with
    | none => return refuse q calls.first " < get: you need to specify a key\n".toList fun _ => none
    | some key =>
      if key.length ≠ fileKeySize then
        return refuse q calls.first " < get: hash size is not good, man\n".toList fun _ => none
      else
        match fileCacheGetByKey asker.fileCache key with
        | none =>
          return refuse q calls.first " < get: key not in cache, please list\n".toList fun
            | .fileToDl => some none
            | _ => none
        | some entry => tellSeeder q calls entry

def askFindDaemonPhase (asker : Asker) (fileToDl : Option FileEntry) : Option AskEffect := do
  let entry ← fileToDl
  let s ← firstSeeder entry
  -- only the first seeder is looked for, and by its address alone
  let d := asker.daemons.find? fun d => d.addr = s.ip
  return ⟨if d.isSome then .send else .failed, fun | .d => some d | _ => none, []⟩

def askSendPhase (calls : AskCalls) (fileToDl : Option FileEntry) (d : Option Peer) : Option AskEffect := do
  let entry ← fileToDl
  let peer ← d
  let answer ← getMessage entry
  let writes : ∀ v, Option (AskVal v) := fun
    | .answer => some answer
    | _ => none
  -- on failure `answer` has been written all the same
  if calls.daemon then return ⟨.sent, writes, [.daemon peer.id answer]⟩
  else return ⟨.failed, writes, []⟩

def askStep (asker : Asker) (phase : AskPhase) (calls : AskCalls) (store : ∀ v, AskVal v) : Option AskEffect :=
  match phase with
  | .setR arg => some (askSetRPhase arg)
  | .findFile => askFindFilePhase asker calls (store .r)
  | .findDaemon => askFindDaemonPhase asker (store .fileToDl)
  | .send => askSendPhase calls (store .fileToDl) (store .d)
  | .failed => none
  | .sent => none

def askReads : AskPhase → List AskVar
  | .findFile => [.r]
  | .findDaemon => [.fileToDl]
  | .send => [.fileToDl, .d]
  | _ => []

/-- `client_request_get`. -/
def clientRequestGet (asker : Asker) : Program AskVal AskPhase AskCalls AskOut where
  reads := askReads
  step := askStep asker
  local_ := by
    intro phase calls store store' agree
    cases phase <;> simp_all [askReads, askStep]

/-! ### What one request does -/

/-- The `get` lines among what was put out, with the daemon that each went to. -/
def getLines (out : List AskOut) : List (Nat × CString) :=
  out.filterMap fun
    | .daemon id line => some (id, line)
    | .client _ _ => none

/-- The request asks for the key of that entry of the cache. -/
structure Wants (asker : Asker) (q : ClientRequest) (entry : FileEntry) : Prop where
  asked : ∃ parsed, cmdParse q.cmd none = .ok parsed ∧ parsed.argv[1]? = some entry.key
  cached : fileCacheGetByKey asker.fileCache entry.key = some entry

/-- The daemon has the address of a seeder of the entry. -/
def Seeds (asker : Asker) (entry : FileEntry) (peer : Peer) : Prop :=
  peer ∈ asker.daemons ∧ ∃ s ∈ entry.seeders, s.ip = peer.addr

/-- One `get` line, for the key asked for, to a daemon that is a seeder of that key. -/
def AskedOnce (asker : Asker) (q : ClientRequest) (out : List AskOut) : Prop :=
  ∃ entry peer line, Wants asker q entry ∧ Seeds asker entry peer ∧ getMessage entry = some line ∧
    getLines out = [(peer.id, line)]

/-- Where a request that runs alone has got to. -/
def Asking (asker : Asker) (q : ClientRequest) (t : Solo AskVal AskPhase AskOut) : Prop :=
  match t.proc with
  | .setR arg => getLines t.out = [] ∧ arg = some q
  | .findFile => getLines t.out = [] ∧ t.store .r = some q
  | .findDaemon => getLines t.out = [] ∧ ∃ entry, Wants asker q entry ∧ t.store .fileToDl = some entry
  | .send => getLines t.out = [] ∧ ∃ entry peer, Wants asker q entry ∧ Seeds asker entry peer ∧
      t.store .fileToDl = some entry ∧ t.store .d = some peer
  | .failed => getLines t.out = []
  | .sent => AskedOnce asker q t.out

variable {asker : Asker} {q : ClientRequest} {t t' : Solo AskVal AskPhase AskOut} {calls : AskCalls}

theorem getLines_append (xs ys : List AskOut) : getLines (xs ++ ys) = getLines xs ++ getLines ys :=
  List.filterMap_append

theorem getLines_refuse (sends : Bool) (text : CString) (writes : ∀ v, Option (AskVal v)) :
    getLines (refuse q sends text writes).out = [] := by
  cases sends <;> rfl

/-! ### One lemma for each phase -/

/-- What a phase makes of an execution that runs alone. -/
abbrev AskEffect.applied (effect : AskEffect) (t : Solo AskVal AskPhase AskOut) : Solo AskVal AskPhase AskOut :=
  ⟨effect.next, writeTo t.store effect.writes, t.out ++ effect.out⟩

/-- A phase that ends the request without a `get` line. -/
theorem asking_failed {effect : AskEffect} (quiet : getLines t.out = []) (ended : effect.next = .failed)
    (silent : getLines effect.out = []) : Asking asker q (effect.applied t) := by
  simp only [Asking, ended, getLines_append, quiet, silent, List.append_nil]

theorem asking_setR {arg : Option ClientRequest} (quiet : getLines t.out = []) (own : arg = some q) :
    Asking asker q ((askSetRPhase arg).applied t) := by
  subst own
  simp [Asking, askSetRPhase, writeTo, quiet]

theorem asking_tellSeeder {effect : AskEffect} {entry : FileEntry} (quiet : getLines t.out = [])
    (wants : Wants asker q entry) (taken : tellSeeder q calls entry = some effect) :
    Asking asker q (effect.applied t) := by
  unfold tellSeeder at taken
  -- the address of the first seeder is printed, so it has to be there and to have its NUL
  cases seeder : firstSeeder entry with
  | none => simp [seeder] at taken
  | some s =>
    cases message : seederMessage s with
    | none => simp [seeder, message] at taken
    | some answer =>
      simp only [seeder, message, Option.bind_eq_bind, Option.bind_some] at taken
      -- a client that does not take the texts ends the request before the `get` line
      cases first : calls.first with
      | false =>
        simp only [first, Bool.not_false, if_true, Option.pure_def, Option.some.injEq] at taken
        subst taken
        exact asking_failed quiet rfl rfl
      | true =>
        cases second : calls.second with
        | false =>
          simp only [first, second, Bool.not_true, Bool.not_false, Bool.false_eq_true, if_true, if_false,
            Option.pure_def, Option.some.injEq] at taken
          subst taken
          exact asking_failed quiet rfl rfl
        | true =>
          simp only [first, second, Bool.not_true, Bool.false_eq_true, if_false, Option.pure_def,
            Option.some.injEq] at taken
          subst taken
          refine ⟨?_, entry, wants, rfl⟩
          simp only [getLines_append, quiet]
          rfl

theorem asking_findFile {effect : AskEffect} (quiet : getLines t.out = []) (own : t.store .r = some q)
    (taken : askFindFilePhase asker calls (t.store .r) = some effect) : Asking asker q (effect.applied t) := by
  rw [own] at taken
  simp only [askFindFilePhase, Option.bind_eq_bind, Option.bind_some] at taken
  -- the error replies go to the client, never to a daemon
  split at taken
  · cases taken
    exact asking_failed quiet rfl rfl
  next parsed accepted =>
    split at taken
    · cases taken
      exact asking_failed quiet rfl (getLines_refuse _ _ _)
    next key asked =>
      -- `strlen` before the search, so a short key is not even looked up
      by_cases wrong : key.length ≠ fileKeySize
      · rw [if_pos wrong] at taken
        cases taken
        exact asking_failed quiet rfl (getLines_refuse _ _ _)
      · rw [if_neg wrong] at taken
        split at taken
        · cases taken
          exact asking_failed quiet rfl (getLines_refuse _ _ _)
        next entry found =>
          -- the entry that was found has the key that was asked for
          have keyed := getByKey_key found
          subst keyed
          exact asking_tellSeeder quiet ⟨⟨parsed, accepted, asked⟩, found⟩ taken

theorem asking_findDaemon {effect : AskEffect} {entry : FileEntry} (quiet : getLines t.out = [])
    (wants : Wants asker q entry) (chosen : t.store .fileToDl = some entry)
    (taken : askFindDaemonPhase asker (t.store .fileToDl) = some effect) : Asking asker q (effect.applied t) := by
  rw [chosen] at taken
  simp only [askFindDaemonPhase, Option.bind_eq_bind, Option.bind_some] at taken
  obtain ⟨s, seeder, taken⟩ := Option.bind_eq_some_iff.mp taken
  -- the address in the list of daemons is that of a seeder
  have member : s ∈ entry.seeders := by
    have first := (Option.filter_eq_some_iff.mp seeder).1
    exact List.mem_of_head? first
  cases found : asker.daemons.find? (fun d => d.addr = s.ip) with
  | none =>
    simp only [found, Option.pure_def, Option.some.injEq] at taken
    subst taken
    exact asking_failed quiet rfl rfl
  | some peer =>
    simp only [found, Option.pure_def, Option.some.injEq] at taken
    subst taken
    have sameAddress : peer.addr = s.ip := by simpa using List.find?_some found
    have seeds : Seeds asker entry peer := ⟨List.mem_of_find?_eq_some found, s, member, sameAddress.symm⟩
    refine ⟨?_, entry, peer, wants, seeds, chosen, rfl⟩
    simp only [getLines_append, quiet]
    rfl

theorem asking_send {effect : AskEffect} {entry : FileEntry} {peer : Peer} (quiet : getLines t.out = [])
    (wants : Wants asker q entry) (seeds : Seeds asker entry peer) (chosen : t.store .fileToDl = some entry)
    (found : t.store .d = some peer) (taken : askSendPhase calls (t.store .fileToDl) (t.store .d) = some effect) :
    Asking asker q (effect.applied t) := by
  rw [chosen, found] at taken
  simp only [askSendPhase, Option.bind_eq_bind, Option.bind_some] at taken
  obtain ⟨line, message, taken⟩ := Option.bind_eq_some_iff.mp taken
  -- the line counts as sent only if `daemon_send` says so
  cases sends : calls.daemon with
  | false =>
    simp only [sends, Bool.false_eq_true, if_false, Option.pure_def, Option.some.injEq] at taken
    subst taken
    exact asking_failed quiet rfl rfl
  | true =>
    simp only [sends, if_true, Option.pure_def, Option.some.injEq] at taken
    subst taken
    refine ⟨entry, peer, line, wants, seeds, message, ?_⟩
    simp only [getLines_append, quiet]
    rfl

/-- Every phase leads from where a request can be to where it can be next. -/
theorem asking_step (asking : Asking asker q t) (taken : (clientRequestGet asker).soloStep t calls = some t') :
    Asking asker q t' := by
  obtain ⟨effect, stepped, rfl⟩ := Option.map_eq_some_iff.mp taken
  simp only [clientRequestGet, askStep] at stepped
  unfold Asking at asking
  -- one case for each phase, in the order of the source
  split at asking
  next arg at_ =>
    simp only [at_, Option.some.injEq] at stepped
    exact stepped ▸ asking_setR asking.1 asking.2
  next at_ =>
    simp only [at_] at stepped
    exact asking_findFile asking.1 asking.2 stepped
  next at_ =>
    simp only [at_] at stepped
    obtain ⟨quiet, entry, wants, chosen⟩ := asking
    exact asking_findDaemon quiet wants chosen stepped
  next at_ =>
    simp only [at_] at stepped
    obtain ⟨quiet, entry, peer, wants, seeds, chosen, found⟩ := asking
    exact asking_send quiet wants seeds chosen found stepped
  next at_ => simp [at_] at stepped
  next at_ => simp [at_] at stepped

/-! ### Requests that can be met -/

/-- All the sends of the phase succeed. -/
def AskCalls.Succeed (calls : AskCalls) : Prop :=
  calls.first = true ∧ calls.second = true ∧ calls.daemon = true

/-- The key is well-formed and in the cache, and its first seeder is connected. -/
def Askable (asker : Asker) (q : ClientRequest) : Prop :=
  ∃ entry s, Wants asker q entry ∧ entry.key.length = fileKeySize ∧ firstSeeder entry = some s ∧
    ∃ d ∈ asker.daemons, d.addr = s.ip

/-- Nothing has gone wrong so far. -/
def OnTrack (asker : Asker) (q : ClientRequest) (t : Solo AskVal AskPhase AskOut) : Prop :=
  match t.proc with
  | .setR arg => arg = some q
  | .findFile => t.store .r = some q
  | .findDaemon => ∃ entry, Wants asker q entry ∧ t.store .fileToDl = some entry
  | .send => True
  | .failed => False
  | .sent => True

/-- A request asks for one entry only. -/
theorem wants_unique {entry entry' : FileEntry} (wants : Wants asker q entry) (wants' : Wants asker q entry') :
    entry = entry' := by
  -- the parser and the cache are functions
  obtain ⟨parsed, accepted, asked⟩ := wants.asked
  obtain ⟨parsed', accepted', asked'⟩ := wants'.asked
  have sameParse : parsed = parsed' := Except.ok.inj (accepted.symm.trans accepted')
  subst sameParse
  have sameKey : entry.key = entry'.key := Option.some.inj (asked.symm.trans asked')
  exact Option.some.inj (wants.cached.symm.trans (sameKey ▸ wants'.cached))

theorem onTrack_findFile {effect : AskEffect} (able : Askable asker q) (succeed : calls.Succeed)
    (taken : askFindFilePhase asker calls (some q) = some effect) : OnTrack asker q (effect.applied t) := by
  obtain ⟨entry, s, wants, length, seeder, -⟩ := able
  obtain ⟨parsed, accepted, asked⟩ := wants.asked
  -- none of the checks stops the request
  have rightSize : ¬entry.key.length ≠ fileKeySize := not_not.mpr length
  simp only [askFindFilePhase, Option.bind_eq_bind, Option.bind_some, accepted, asked, if_neg rightSize,
    wants.cached] at taken
  cases message : seederMessage s with
  | none => simp [tellSeeder, seeder, message] at taken
  | some answer =>
    simp only [tellSeeder, seeder, message, Option.bind_eq_bind, Option.bind_some, succeed.1, succeed.2.1,
      Bool.not_true, Bool.false_eq_true, if_false, Option.pure_def, Option.some.injEq] at taken
    subst taken
    exact ⟨entry, wants, rfl⟩

theorem onTrack_findDaemon {effect : AskEffect} {entry : FileEntry} (able : Askable asker q)
    (wants : Wants asker q entry) (taken : askFindDaemonPhase asker (some entry) = some effect) :
    OnTrack asker q (effect.applied t) := by
  obtain ⟨entry', s, wants', -, seeder, d, member, address⟩ := able
  have same := wants_unique wants' wants
  subst same
  -- the seeder that the loop looks for is connected
  have connected : (asker.daemons.find? fun d => d.addr = s.ip).isSome :=
    List.find?_isSome.mpr ⟨d, member, by simpa using address⟩
  simp only [askFindDaemonPhase, seeder, Option.bind_eq_bind, Option.bind_some, connected, if_true,
    Option.pure_def, Option.some.injEq] at taken
  subst taken
  trivial

theorem onTrack_step (able : Askable asker q) (onTrack : OnTrack asker q t) (succeed : calls.Succeed)
    (taken : (clientRequestGet asker).soloStep t calls = some t') : OnTrack asker q t' := by
  obtain ⟨effect, stepped, rfl⟩ := Option.map_eq_some_iff.mp taken
  simp only [clientRequestGet, askStep] at stepped
  unfold OnTrack at onTrack
  split at onTrack
  next arg at_ =>
    subst onTrack
    simp only [at_, Option.some.injEq] at stepped
    subst stepped
    rfl
  next at_ =>
    simp only [at_, onTrack] at stepped
    exact onTrack_findFile able succeed stepped
  next at_ =>
    obtain ⟨entry, wants, chosen⟩ := onTrack
    simp only [at_, chosen] at stepped
    exact onTrack_findDaemon able wants stepped
  next at_ =>
    simp only [at_, askSendPhase, Option.bind_eq_bind, Option.bind_eq_some_iff, succeed.2.2, if_true,
      Option.pure_def, Option.some.injEq] at stepped
    obtain ⟨entry, -, peer, -, answer, -, rfl⟩ := stepped
    trivial
  next => exact onTrack.elim
  next at_ => simp [at_] at stepped

end Pire2Pire.Transfer
