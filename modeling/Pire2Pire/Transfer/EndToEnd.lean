import Pire2Pire.Connections.Commands
import Pire2Pire.Transfer.Interference
import Pire2Pire.Transfer.Receiving
import Pire2Pire.Transfer.ShortSends

/-! A file on its way: a daemon lists it (`daemon_request_list.c`), a peer puts it into its cache
(`daemon_request_file.c`), the peer's client asks for it (`client_request_get.c`), a seeder serves it
(`daemon_request_get.c`), and the peer writes what it is sent (`daemon_request_ready.c`).

The seeder need not be the daemon that listed the file, and other lines are handled in between. -/
namespace Pire2Pire.Transfer

open Library Protocol Replies

/-! ### What the cache knows -/

/-- The cache has a file of that name and size under the key, whoever seeds it. -/
def Knows (name key : CString) (size : Nat) (cache : FileCache) : Prop :=
  ∃ entry, fileCacheGetByKey cache key = some entry ∧ entry.filename = name ∧ entry.size.toNat = size

variable {name key folder cmd line : CString} {size : Nat} {cache cache' : FileCache} {s s' : Receiver}
  {arrivals : List Arrival}

theorem knows_file {sent : List Sent} (knows : Knows name key size cache)
    (handled : daemonRequestFile true cache cmd = some (cache', sent)) : Knows name key size cache' := by
  obtain ⟨entry, found, named, sized⟩ := knows
  rcases daemonRequestFile_cases handled with rfl | ⟨-, name', key', size', ip, port, -, added⟩
  · exact ⟨entry, found, named, sized⟩
  · by_cases own : key = key'
    · -- another seeder at most
      subst own
      obtain ⟨seeders, kept⟩ := getByKey_add_known added found
      exact ⟨_, kept, named, sized⟩
    · exact ⟨entry, (getByKey_add_other added own).trans found, named, sized⟩

theorem knows_receive {e : Arrival} (knows : Knows name key size s.fileCache)
    (taken : receive folder s e = some s') : Knows name key size s'.fileCache := by
  unfold receive at taken
  split at taken
  · cases taken
    exact knows
  next message got =>
    split at taken
    · obtain ⟨⟨cache', sent⟩, handled, rfl⟩ := Option.map_eq_some_iff.mp taken
      exact knows_file knows handled
    · split at taken
      · split at taken
        · cases taken
          exact knows
        · cases taken
          exact knows
      · cases taken
        exact knows

/-- What is known stays known, whatever lines come. -/
theorem knows_run (knows : Knows name key size s.fileCache) (ran : exec (receive folder) s arrivals = some s') :
    Knows name key size s'.fileCache :=
  exec_invariant_all (fun s => Knows name key size s.fileCache) (fun _ _ _ => knows_receive) knows ran

/-! ### From the list to the cache -/

/-- The first word that the plain splitter finds is the command. -/
theorem isCmd_of_argv {word : CString} {args : List CString} (argv : cmdToArgcArgv line = word :: args) :
    isCmd line word = true := by
  rw [Commands.isCmd_cases]
  by_cases blank : ' ' ∈ line
  · obtain ⟨front, rest, rfl, clean⟩ := List.eq_append_cons_of_mem blank
    rw [cmdToArgcArgv_append clean, List.cons.injEq] at argv
    exact .inr ⟨rest, by rw [argv.1]⟩
  · rw [cmdToArgcArgv_single blank, List.cons.injEq] at argv
    exact .inl argv.1

theorem isCmd_joinFields (word v : CString) (ws : List CString) : isCmd (joinFields (word :: v :: ws)) word = true :=
  Commands.isCmd_cases.mpr (.inr ⟨joinFields (v :: ws), rfl⟩)

/-- The line that a daemon announces a file with gets to the handler of `file` lines. -/
theorem isFile_fileMessage {announcer : Announcer} {file : FileName} (whole : Field file.text) (digest : Digest)
    (got : (socketGetline (fileMessage announcer file digest size)).1 = some cmd) :
    isCmd cmd "file".toList = true := by
  have fields : ∀ w ∈ ["file".toList, file.text, getMd5 digest, decimal (Int32.ofNat size).toInt,
      inetNtop announcer.myIp ++ ':' :: decimal announcer.daemonPort.toInt], Field w := by
    simp only [List.mem_cons, List.not_mem_nil, or_false, forall_eq_or_imp, forall_eq]
    exact ⟨literal_field (by decide) (by decide), whole, getMd5_field digest, decimal_field _, address_field announcer⟩
  rw [fileMessage, socketGetline_joinFields fields] at got
  cases got
  exact isCmd_joinFields _ _ _

theorem knows_announced {announcer : Announcer} {file : FileName} {digest : Digest} {calls : ReadyCalls}
    (able : Announceable announcer file size) (absent : fileCacheGetByKey s.fileCache (getMd5 digest) = none)
    (announced : announce announcer file digest (some size) = some (some line))
    (heard : receive folder s ⟨line, calls⟩ = some s') : Knows file.text (getMd5 digest) size s'.fileCache := by
  obtain ⟨line', announced', cmd, got, cache', sent, handled, ⟨entry, found, named, sized, -⟩, -⟩ :=
    roundTrip_of_announceable able absent
  cases Option.some.inj (Option.some.inj (announced.symm.trans announced'))
  -- the line is a `file` line, so it is that handler which gets it
  have isFile : isCmd cmd "file".toList = true := by
    rw [(announce_some.mp announced).2] at got
    exact isFile_fileMessage able.field digest got
  simp only [receive, got, isFile, if_true, handled, Option.map_some, Option.some.injEq] at heard
  subst heard
  exact ⟨entry, found, named, sized⟩

/-! ### From the cache to the `get` line -/

/-- In some run of `get` commands in which none is disturbed, the command has put that out and returned with its
line sent. -/
def AskerSends (asker : Asker) (q : ClientRequest) (out : List AskOut) : Prop :=
  ∃ (store : ∀ v, AskVal v) (requests : Nat → ClientRequest) (es : List (Nat × AskCalls))
    (t : Shared AskVal AskPhase AskOut) (i : Nat),
    exec (clientRequestGet asker).sharedStep (.start store fun i => .setR (some (requests i))) es = some t ∧
      Along (clientRequestGet asker).sharedStep (clientRequestGet asker).Undisturbed
        (.start store fun i => .setR (some (requests i))) es ∧
      requests i = q ∧ t.procs i = .sent ∧ partOf i t.out = out

/-- In some run of `get` requests in which none is disturbed and no send is short, the request has put that out. -/
def SharerSends (host : Sharer) (q : GetRequest) (out : List GetOut) : Prop :=
  ∃ (store : ∀ v, GetVal v) (requests : Nat → GetRequest) (es : List (Nat × GetCalls))
    (t : Shared GetVal GetPhase GetOut) (i : Nat),
    exec (daemonRequestGet host).sharedStep (.start store fun i => .setR (some (requests i))) es = some t ∧
      Along (daemonRequestGet host).sharedStep (daemonRequestGet host).Undisturbed
        (.start store fun i => .setR (some (requests i))) es ∧
      (∀ e ∈ es, WholeSends e.2) ∧ requests i = q ∧ partOf i t.out = out

theorem AskerSends.once {asker : Asker} {q : ClientRequest} {out : List AskOut} (sends : AskerSends asker q out) :
    AskedOnce asker q out := by
  obtain ⟨store, requests, es, t, i, ran, undisturbed, rfl, at_, rfl⟩ := sends
  have start : Asking asker (requests i) (.start store (.setR (some (requests i)))) := ⟨rfl, rfl⟩
  obtain ⟨-, alone, matched, asking⟩ := undisturbed_invariant (fun _ => True) (Asking asker (requests i))
    (fun _ _ _ asking _ taken => asking_step asking taken) start (fun _ _ => trivial) undisturbed ran
  rw [← matched.out]
  exact (asking_lines asking).1 (matched.proc.trans at_)

theorem SharerSends.answer {host : Sharer} {q : GetRequest} {out : List GetOut} (sends : SharerSends host q out) :
    Answer host q out := by
  obtain ⟨store, requests, es, t, i, ran, undisturbed, whole, rfl, rfl⟩ := sends
  have start : Served host (requests i) (.start store (.setR (some (requests i)))) := ⟨rfl, rfl⟩
  obtain ⟨-, alone, matched, served⟩ := undisturbed_invariant WholeSends (Served host (requests i))
    (fun _ _ _ served whole taken => served_step served whole taken) start whole undisturbed ran
  exact matched.out ▸ served_answer served

/-- The command asks for that key. -/
def AsksFor (q : ClientRequest) (key : CString) : Prop :=
  ∃ parsed, cmdParse q.cmd none = .ok parsed ∧ parsed.argv[1]? = some key

theorem goodKey_getMd5 (digest : Digest) : GoodKey (getMd5 digest) :=
  ⟨getMd5_field digest, argument_of_plain fun _ => isPlain_of_mem_getMd5, length_getMd5 digest⟩

/-- The seeder that gets the line takes it for a request for the key, from the first byte to the last. -/
theorem get_understood {asker : Asker} {q : ClientRequest} {out : List AskOut} {digest : Digest} {id : Nat}
    (knows : Knows name (getMd5 digest) size asker.fileCache) (small : size < 2 ^ 31)
    (asks : AsksFor q (getMd5 digest)) (sends : AskerSends asker q out) (sent : (id, line) ∈ getLines out)
    (got : (socketGetline line).1 = some cmd) :
    ∃ pcmd, getArguments cmd = .ok pcmd ∧ pcmd.argv = ["get".toList, getMd5 digest, "0".toList, decimal size] := by
  obtain ⟨entry, found, -, sized⟩ := knows
  obtain ⟨entry', peer, line', wants, -, message, lines⟩ := sends.once
  rw [lines, List.mem_singleton, Prod.mk.injEq] at sent
  obtain ⟨-, rfl⟩ := sent
  -- the entry that is asked for is the known one
  have keyed := getByKey_key found
  have known : Wants asker q entry := ⟨by rw [keyed]; exact asks, by rw [keyed]; exact found⟩
  cases wants_unique wants known
  have good : GoodKey entry.key := keyed ▸ goodKey_getMd5 digest
  obtain ⟨text, cmd', message', got', shape⟩ := getMessage_words good
  cases Option.some.inj (message.symm.trans message')
  cases Option.some.inj (got.symm.trans got')
  have printed : entry.size.toInt64.toInt = size := by
    rw [toInt_toInt64, if_pos (by omega), sized]
  have zero : decimal 0 = "0".toList := by decide
  rw [printed, zero, keyed] at shape
  refine ⟨_, getArguments_ok_iff.mpr ⟨rfl, by rw [shape]; rfl, ?_⟩, shape⟩
  rw [shape]
  simp only [List.mem_cons, List.not_mem_nil, or_false, forall_eq_or_imp, forall_eq]
  exact ⟨by decide, (goodKey_getMd5 digest).argument, by decide, (argument_decimal_iff _).mpr (by omega)⟩

/-! ### From the `get` line to the file -/

/-- The line makes the peer connect to the port of the seeder and open the path, whatever lines it has handled
since. -/
def Opens (folder path : CString) (s : Receiver) (host : Sharer) (port : UInt16) (line : CString) : Prop :=
  (∃ ready key beginning finish, (socketGetline line).1 = some ready ∧ cmdToArgcArgv ready =
    ["ready".toList, key, "0".toList, inetNtop host.myIp, decimal port.toNat, "tcp".toList, beginning, finish]) ∧
  ∀ (since : List Arrival) (s' : Receiver) (calls : ReadyCalls), exec (receive folder) s since = some s' →
    calls.socket = true → calls.inetPton (inetNtop host.myIp) = true →
      receive folder s' ⟨line, calls⟩ = some { s' with opened := path :: s'.opened }

/-- If the loop of the peer comes to its end, the file has the content if and only if each `write` took what was
due. -/
def Fills (folder key : CString) (content : List UInt8) (s : Receiver) (bytes : List UInt8) : Prop :=
  ∀ (since : List Arrival) (s' : Receiver) (entry : FileEntry) (portions : List Portion) (reception : Reception),
    exec (receive folder) s since = some s' → fileCacheGetByKey s'.fileCache key = some entry →
      receiveLoop entry.size bytes 0 portions = some reception → reception.complete = true →
        (reception.written = content ↔ InOrder content (portions.map Portion.part))

/-- What comes of the answer to a `get` line: nothing at all, or a file at the path, opened on account of the `ready`
line and filled with what comes on the port that it names. -/
def Delivers (folder path key : CString) (content : List UInt8) (s : Receiver) (host : Sharer) (b : Nat)
    (out : List GetOut) : Prop :=
  out = [] ∨ ∃ line port, Opens folder path s host port line ∧
    (out = [.ready b line] ∨
      ∃ bytes complete, out = [.ready b line, .data port bytes complete] ∧ Fills folder key content s bytes)

/-- A loop that comes to its end has found as many bytes as it wanted. -/
theorem receiveLoop_enough {fileSize nbReceivedSum : UInt64} {waiting : List UInt8} {portions : List Portion}
    {reception : Reception} (room : nbReceivedSum.toNat + waiting.length < 2 ^ 64)
    (ran : receiveLoop fileSize waiting nbReceivedSum portions = some reception)
    (complete : reception.complete = true) : fileSize.toNat ≤ nbReceivedSum.toNat + waiting.length := by
  induction portions generalizing nbReceivedSum waiting reception with
  | nil =>
    simp only [receiveLoop] at ran
    split at ran
    · cases ran
    next enough =>
      rw [UInt64.lt_iff_toNat_lt] at enough
      omega
  | cons portion portions ih =>
    simp only [receiveLoop] at ran
    split at ran
    next missing =>
      cases receiving : portion.recv with
      | none =>
        simp only [receiving, Option.some.injEq] at ran
        subst ran
        cases complete
      | some nbReceived =>
        simp only [receiving] at ran
        split at ran
        next possible =>
          obtain ⟨-, available, -⟩ := possible
          split at ran
          · cases ran
          · cases ran
            cases complete
          · obtain ⟨later, rest, rfl⟩ := Option.map_eq_some_iff.mp ran
            -- what came is no longer waiting, and is in the sum
            have small : nbReceived < UInt64.size := Nat.lt_of_le_of_lt (by omega) room
            have sum : (nbReceivedSum + .ofNat nbReceived).toNat = nbReceivedSum.toNat + nbReceived := by
              rw [UInt64.toNat_add, UInt64.toNat_ofNat_of_lt' small]
              exact Nat.mod_eq_of_lt (by omega)
            have left : (nbReceivedSum + .ofNat nbReceived).toNat + (waiting.drop nbReceived).length =
                nbReceivedSum.toNat + waiting.length := by
              rw [sum, List.length_drop]
              omega
            exact left ▸ ih (left ▸ room) rest complete
        · cases ran
    · cases ran

variable {content bytes : List UInt8} {host : Sharer} {digest : Digest}

/-- The beginning of the content is enough only if it is all of it. -/
theorem fills_of_prefix (knows : Knows name key content.length s.fileCache) (small : content.length < 2 ^ 31)
    (partly : bytes <+: content) : Fills folder key content s bytes := by
  intro since s' entry portions reception ran found received complete
  obtain ⟨entry', found', -, sized⟩ := knows_run knows ran
  cases Option.some.inj (found.symm.trans found')
  have atMost := partly.length_le
  have room : (0 : UInt64).toNat + bytes.length < 2 ^ 64 := by
    rw [UInt64.toNat_zero]
    omega
  have enough := receiveLoop_enough room received complete
  rw [sized, UInt64.toNat_zero, Nat.zero_add] at enough
  cases partly.eq_of_length_le enough
  obtain ⟨cover, same⟩ := receiveLoop_copied (by rw [sized, UInt64.toNat_zero, Nat.zero_add]) received complete
  rw [same]
  exact copied_eq_iff cover

theorem opens_of_fields {port : UInt16} {ready beginning finish : CString} (knows : Knows name key size s.fileCache)
    (got : (socketGetline line).1 = some ready)
    (argv : cmdToArgcArgv ready = ["ready".toList, key, "0".toList, inetNtop host.myIp, decimal port.toNat,
      "tcp".toList, beginning, finish]) : Opens folder (folder ++ '/' :: name) s host port line := by
  refine ⟨⟨ready, key, beginning, finish, got, argv⟩, ?_⟩
  intro since s' calls ran socket address
  obtain ⟨entry, found, rfl, -⟩ := knows_run knows ran
  have isReady : isCmd ready "ready".toList = true := isCmd_of_argv argv
  have notFile : isCmd ready "file".toList = false := by
    rw [Bool.eq_false_iff, Ne, Commands.isCmd_iff (by decide), ← (Commands.isCmd_iff (by decide)).mp isReady]
    decide
  have opened : daemonRequestReady folder s'.fileCache calls ready = .opens (folder ++ '/' :: entry.filename) := by
    simp only [daemonRequestReady, argv, socket, address, found, Bool.not_true, Bool.false_eq_true, if_false]
  simp only [receive, got, notFile, isReady, opened, Bool.false_eq_true, if_false, if_true]

/-- Whatever a daemon answers to the line, the peer makes a file of that name and content of it. -/
theorem delivers_of_answer {b : Nat} {pcmd : ParsedCmd} {out : List GetOut}
    (knows : Knows name (getMd5 digest) content.length s.fileCache) (small : content.length < 2 ^ 31)
    (understood : getArguments cmd = .ok pcmd)
    (argv : pcmd.argv = ["get".toList, getMd5 digest, "0".toList, decimal content.length])
    (only : ∀ f ∈ host.files, host.keyOf f = getMd5 digest → f.content = content)
    (answer : Answer host ⟨b, cmd⟩ out) :
    Delivers folder (folder ++ '/' :: name) (getMd5 digest) content s host b out := by
  -- the file that is served has the key, and the line that announces it has the fields
  have asked {pcmd' : ParsedCmd} {f : SharedFile} (asks : Asks host ⟨b, cmd⟩ pcmd' f) :
      pcmd' = pcmd ∧ host.keyOf f = getMd5 digest ∧ f.content = content := by
    have same : pcmd' = pcmd := Except.ok.inj (asks.accepted.symm.trans understood)
    have keyed : getMd5 digest = host.keyOf f := by simpa [same, argv] using asks.keyed
    exact ⟨same, keyed.symm, only f asks.member keyed.symm⟩
  have opens {f : SharedFile} {port : UInt16} {line : CString} (asks : Asks host ⟨b, cmd⟩ pcmd f)
      (announced : readyMessage (host.keyOf f) host.myIp port pcmd = some line) :
      Opens folder (folder ++ '/' :: name) s host port line := by
    obtain ⟨-, keyed, -⟩ := asked asks
    obtain ⟨line', announced', ready, got, fields⟩ := readyMessage_fields (goodKey_getMd5 digest) argv
      (literal_field (by decide) (by decide)) (decimal_field _)
      ⟨by decide, length_decimal_size (by omega)⟩ host.myIp port
    rw [keyed] at announced
    cases Option.some.inj (announced.symm.trans announced')
    exact opens_of_fields knows got fields
  cases answer with
  | nothing => exact .inl rfl
  | refused refused =>
    rw [understood] at refused
    cases refused
  | ready asks announced =>
    obtain ⟨rfl, -, -⟩ := asked asks
    exact .inr ⟨_, _, opens asks announced, .inl rfl⟩
  | sent asks announced partly _ =>
    obtain ⟨rfl, -, rfl⟩ := asked asks
    exact .inr ⟨_, _, opens asks announced, .inr ⟨_, _, rfl, fills_of_prefix knows small partly⟩⟩

/-! ### A seeder whose calls succeed -/

/-- Nothing fails while the file is served, and no send is short. -/
structure Succeeds (calls : GetCalls) (port : UInt16) (f : SharedFile) : Prop where
  opendir : calls.opendir = true
  closedir : calls.closedir = true
  opens : calls.opens = true
  listening : calls.listening = some port
  accepts : calls.accepts = true
  whole : WholeSends calls
  sends : ∃ upload, sendLoop f.content (.ofNat f.content.length) calls.chunks = some upload ∧ upload.complete = true

/-- The request asks for the file, by a key that no other content of the folder has. -/
structure Offerable (host : Sharer) (q : GetRequest) (f : SharedFile) : Prop where
  member : f ∈ host.files
  only : ∀ g ∈ host.files, host.keyOf g = host.keyOf f → g.content = f.content
  paths : ∀ g ∈ host.files, (host.path g).length < 512
  understood : ∃ pcmd command beginning finish, getArguments q.cmd = .ok pcmd ∧
    pcmd.argv = [command, host.keyOf f, beginning, finish] ∧ Field beginning ∧ Field finish ∧
    beginning.length ≤ 20 ∧ finish.length ≤ 20

/-- A request whose calls succeed does not get to `out`, and returns when everything is sent. -/
def OnWay (q : GetRequest) (port : UInt16) (f : SharedFile) (t : Solo GetVal GetPhase GetOut) : Prop :=
  match t.proc with
  | .sendReady => t.store .listenAddr = port
  | .acceptPeer => t.store .listenSock = some port
  | .sendFile => t.store .dataSock = some port
  | .out => False
  | .returned => ∃ line, t.out = [.ready q.daemon line, .data port f.content true]
  | _ => True

variable {q : GetRequest} {f : SharedFile} {calls : GetCalls} {port : UInt16} {t : Solo GetVal GetPhase GetOut}

/-- The search stops at a file with the key if there is one. -/
theorem findFileLoop_finds {wanted : CString} {files : List SharedFile} (last : Option SharedFile)
    (paths : ∀ g ∈ files, (host.path g).length < 512) (has : ∃ f ∈ files, host.keyOf f = wanted) :
    ∃ f, findFileLoop host wanted files last = some (some f, true) := by
  induction files generalizing last with
  | nil => simp at has
  | cons g files ih =>
    rw [List.forall_mem_cons] at paths
    have path : sprintfInto 512 (host.path g) = some (host.path g) := if_pos (by omega)
    by_cases same : host.keyOf g = wanted
    · refine ⟨g, ?_⟩
      simp only [findFileLoop, path, Option.bind_eq_bind, Option.bind_some, (strcmp_eq_iff _ _).mpr same, if_true]
    · obtain ⟨f, member, keyed⟩ := has
      have rest : f ∈ files := (List.mem_cons.mp member).resolve_left fun own => same (own ▸ keyed)
      obtain ⟨f', found⟩ := ih (some g) paths.2 ⟨f, rest, keyed⟩
      refine ⟨f', ?_⟩
      simp only [findFileLoop, path, Option.bind_eq_bind, Option.bind_some, strcmp_eq_iff, same, if_false, found]

theorem parsePhase_understood {pcmd : ParsedCmd} (understood : getArguments q.cmd = .ok pcmd) :
    ∃ effect, parsePhase (some q) = some effect ∧ effect.next = .findFile := by
  simp only [parsePhase, Option.bind_eq_bind, Option.bind_some, understood, Option.pure_def, Option.some.injEq,
    exists_eq_left']

theorem findFilePhase_finds {pcmd : ParsedCmd} (succeeds : Succeeds calls port f) (member : f ∈ host.files)
    (paths : ∀ g ∈ host.files, (host.path g).length < 512) (wanted : pcmd.argv[1]? = some (host.keyOf f)) :
    ∃ effect, findFilePhase host calls (some pcmd) = some effect ∧ effect.next = .openFile := by
  obtain ⟨g, searched⟩ := findFileLoop_finds none paths ⟨f, member, rfl⟩
  simp only [findFilePhase, succeeds.opendir, succeeds.closedir, if_true, wanted, Option.bind_eq_bind,
    Option.bind_some, searched, and_self, Option.pure_def, Option.some.injEq, exists_eq_left']

theorem sendFilePhase_whole (succeeds : Succeeds calls port f) : ∃ effect,
    sendFilePhase calls (.ofNat f.content.length) (some f.content) (some port) = some effect ∧
      effect.next = .returned ∧ effect.out = [.data port f.content true] := by
  obtain ⟨upload, sending, complete⟩ := succeeds.sends
  have bytes : upload.bytes = f.content := (sendLoop_whole succeeds.whole f.toNat_size sending).2 complete
  simp only [sendFilePhase, sending, Option.bind_eq_bind, Option.bind_some, complete, if_true, bytes, Option.pure_def,
    Option.some.injEq, exists_eq_left', and_self]

theorem Offerable.asks {pcmd : ParsedCmd} {g : SharedFile} (offerable : Offerable host q f)
    (asks : Asks host q pcmd g) : host.keyOf g = host.keyOf f ∧ g.content = f.content := by
  obtain ⟨pcmd', command, beginning, finish, accepted, argv, -⟩ := offerable.understood
  cases Except.ok.inj (asks.accepted.symm.trans accepted)
  have keyed : host.keyOf f = host.keyOf g := by simpa [argv] using asks.keyed
  exact ⟨keyed.symm, offerable.only g asks.member keyed.symm⟩

/-- As long as the request has not returned it has a next phase, and that is no failure. -/
theorem onWay_step (offerable : Offerable host q f) (succeeds : Succeeds calls port f) (served : Served host q t)
    (onWay : OnWay q port f t) (running : t.proc ≠ .returned) :
    ∃ t', (daemonRequestGet host).soloStep t calls = some t' ∧ OnWay q port f t' := by
  obtain ⟨pcmd, command, beginning, finish, accepted, argv, first, last, short⟩ := offerable.understood
  have next (effect : GetEffect) (stepped : getStep host t.proc calls t.store = some effect)
      (after : OnWay q port f (effect.applied t)) :
      ∃ t', (daemonRequestGet host).soloStep t calls = some t' ∧ OnWay q port f t' :=
    ⟨_, Option.map_eq_some_iff.mpr ⟨effect, stepped, rfl⟩, after⟩
  -- one case for each phase, in the order of the source
  cases at_ : t.proc with
  | setR arg =>
    simp only [Served, at_] at served
    refine next (setRPhase (some q)) (by rw [at_, served.2]; rfl) trivial
  | parse =>
    simp only [Served, at_] at served
    obtain ⟨effect, stepped, rest⟩ := parsePhase_understood accepted
    refine next effect (by rw [at_, getStep, served.2, stepped]) ?_
    simp only [OnWay, rest]
  | findFile =>
    simp only [Served, at_] at served
    obtain ⟨-, -, pcmd', accepted', parsed⟩ := served
    cases Except.ok.inj (accepted.symm.trans accepted')
    obtain ⟨effect, stepped, rest⟩ := findFilePhase_finds succeeds offerable.member offerable.paths (by rw [argv]; rfl)
    refine next effect (by rw [at_, getStep, parsed, stepped]) ?_
    simp only [OnWay, rest]
  | openFile =>
    simp only [Served, at_] at served
    obtain ⟨-, g, chosen, path⟩ := served
    obtain ⟨pcmd', asks, -⟩ := chosen.asks
    refine next (openPhase host calls (t.store .fullPath)) (by rw [at_]; rfl) ?_
    simp only [OnWay, openPhase, path, find_path asks.member, succeeds.opens, Option.filter_some, if_true,
      Option.isSome_some]
  | prepareSending =>
    refine next (preparePhase calls) (by rw [at_]; rfl) ?_
    simp only [OnWay, preparePhase, succeeds.listening, Option.isSome_some, if_true, writeTo, Option.getD_some]
  | sendReady =>
    simp only [Served, at_] at served
    simp only [OnWay, at_] at onWay
    obtain ⟨-, g, chosen, -, listening⟩ := served
    obtain ⟨pcmd', asks, parsed⟩ := chosen.asks
    cases Except.ok.inj (accepted.symm.trans asks.accepted)
    have good : GoodKey (host.keyOf f) := goodKey_getMd5 _
    obtain ⟨line, announced, -⟩ := readyMessage_fields good argv first last short host.myIp (t.store .listenAddr)
    rw [← (offerable.asks asks).1, ← chosen.key] at announced
    refine next ⟨.acceptPeer, noWrites, [.ready q.daemon line]⟩ ?_ (listening.trans (congrArg some onWay))
    rw [at_]
    simp only [getStep, readyPhase, chosen.request, parsed, Option.bind_eq_bind, Option.bind_some, announced,
      Option.pure_def]
  | acceptPeer =>
    simp only [OnWay, at_] at onWay
    refine next (acceptPhase calls (t.store .listenSock)) (by rw [at_]; rfl) ?_
    rw [onWay, acceptPhase, succeeds.accepts]
    rfl
  | sendFile =>
    simp only [Served, at_] at served
    simp only [OnWay, at_] at onWay
    obtain ⟨g, port', ⟨size, content, pcmd', line, asks, announced, sent⟩, -⟩ := served
    obtain ⟨effect, stepped, ended, put⟩ := sendFilePhase_whole succeeds
    rw [← (offerable.asks asks).2] at stepped
    refine next effect (by rw [at_, getStep, size, content, onWay, stepped]) ?_
    simp only [OnWay, ended, sent, put, List.singleton_append]
    exact ⟨line, rfl⟩
  | out =>
    simp only [OnWay, at_] at onWay
  | returned => exact absurd at_ running

/-- A request for a file that the seeder has is served to the end if no call fails: a `ready` line, and the whole
content on the port that it names. -/
theorem served_completely (store : ∀ v, GetVal v) (offerable : Offerable host q f) (succeeds : Succeeds calls port f)
    {t : Solo GetVal GetPhase GetOut}
    (ran : (daemonRequestGet host).runAlone calls getFuel (Solo.start store (.setR (some q))) = t) :
    t.proc = .returned ∧ Answer host q t.out ∧ ∃ line, t.out = [.ready q.daemon line, .data port f.content true] := by
  have kept : ∀ t t', Served host q t ∧ OnWay q port f t → (daemonRequestGet host).soloStep t calls = some t' →
      Served host q t' ∧ OnWay q port f t' := by
    rintro t t' ⟨served, onWay⟩ taken
    have running : t.proc ≠ .returned := by
      intro at_
      simp [Program.soloStep, daemonRequestGet, getStep, at_] at taken
    obtain ⟨u, taken', onWay'⟩ := onWay_step offerable succeeds served onWay running
    cases Option.some.inj (taken.symm.trans taken')
    exact ⟨served_step served succeeds.whole taken, onWay'⟩
  have started : Served host q (Solo.start store (.setR (some q))) ∧
      OnWay q port f (Solo.start store (.setR (some q))) := ⟨⟨rfl, rfl⟩, trivial⟩
  obtain ⟨served, onWay⟩ := ran ▸ runAlone_invariant _ kept getFuel started
  have returned : t.proc = .returned := by
    by_contra running
    -- the fuel is enough, so there would be no next phase
    obtain ⟨u, taken, -⟩ := onWay_step offerable succeeds served onWay running
    have stuck := getFuel_enough host store calls q
    rw [ran, taken] at stuck
    cases stuck
  simp only [OnWay, returned] at onWay
  exact ⟨returned, served_answer served, onWay⟩

/-! ### From the list of one daemon to the folder of another -/

/-- The line with which a peer asks for a file that some daemon has listed, and what the peer knows then: it has read
the line of the list, other lines of whomever since, and its client has asked for the key. -/
inductive Requested (folder : CString) (file : FileName) (digest : Digest) (size : Nat) (s : Receiver) (cmd : CString) :
    Prop
  | intro {announcer : Announcer} {s₀ s₁ : Receiver} {calls : ReadyCalls} {listed getLine : CString}
      {arrivals : List Arrival} {asker : Asker} {q : ClientRequest} {asked : List AskOut} {id : Nat}
      (able : Announceable announcer file size)
      (absent : fileCacheGetByKey s₀.fileCache (getMd5 digest) = none)
      (announced : announce announcer file digest (some size) = some (some listed))
      (heard : receive folder s₀ ⟨listed, calls⟩ = some s₁)
      (since : exec (receive folder) s₁ arrivals = some s)
      (cached : asker.fileCache = s.fileCache)
      (asks : AsksFor q (getMd5 digest))
      (asking : AskerSends asker q asked)
      (sent : (id, getLine) ∈ getLines asked)
      (got : (socketGetline getLine).1 = some cmd) : Requested folder file digest size s cmd

theorem Requested.small {file : FileName} (requested : Requested folder file digest size s cmd) : size < 2 ^ 31 := by
  obtain ⟨able, -, -, -, -, -, -, -, -, -⟩ := requested
  exact able.small

theorem Requested.knows {file : FileName} (requested : Requested folder file digest size s cmd) :
    Knows file.text (getMd5 digest) size s.fileCache := by
  obtain ⟨able, absent, announced, heard, since, -, -, -, -, -⟩ := requested
  exact knows_run (knows_announced able absent announced heard) since

theorem Requested.understood {file : FileName} (requested : Requested folder file digest size s cmd) :
    ∃ pcmd, getArguments cmd = .ok pcmd ∧ pcmd.argv = ["get".toList, getMd5 digest, "0".toList, decimal size] := by
  have known := requested.knows
  obtain ⟨able, -, -, -, -, cached, asks, asking, sent, got⟩ := requested
  exact get_understood (cached ▸ known) able.small asks asking sent got

def fileA : FileName :=
  ⟨"fileA".toList, by decide, by decide, by decide, by decide⟩

theorem fileA_inRange : ([97] : List UInt8).length < 2 ^ 63 := by
  decide

def sharedA : SharedFile :=
  ⟨"fileA".toList, [97], fileA_inRange⟩

/-- The lists of two daemons have been read. -/
def afterLists : Receiver :=
  ⟨twoSeeders.fileCache, []⟩

def getFileA : CString :=
  "get ".toList ++ getMd5 digestOfA ++ " 0 1".toList

theorem fileA_requested : Requested "/home".toList fileA digestOfA 1 afterLists getFileA := by
  have announced : announce tmpHost fileA digestOfA (some 1) =
      some (some ("file fileA ".toList ++ getMd5 digestOfA ++ " 1 10.0.0.1:7331\n".toList)) := by decide +kernel
  have heard : receive "/home".toList .initial
      ⟨"file fileA ".toList ++ getMd5 digestOfA ++ " 1 10.0.0.1:7331\n".toList, workingCalls⟩ =
        some ⟨.node ⟨"fileA".toList, getMd5 digestOfA, 1, [⟨"10.0.0.1".toList, 7331⟩]⟩ .empty .empty, []⟩ := by
    decide +kernel
  have since : exec (receive "/home".toList)
      ⟨.node ⟨"fileA".toList, getMd5 digestOfA, 1, [⟨"10.0.0.1".toList, 7331⟩]⟩ .empty .empty, []⟩
      [⟨"file fileB ".toList ++ getMd5 digestOfB ++ " 1 10.0.0.2:7331\n".toList, workingCalls⟩] = some afterLists := by
    decide +kernel
  -- the client's request is the first of two that run one after the other
  have ends : (exec (clientRequestGet twoSeeders).sharedStep askingStart staggeredAsks).map (fun t =>
      (t.procs 0, getLines (partOf 0 t.out))) = some (.sent, [(11, getFileA ++ ['\n'])]) := by decide +kernel
  obtain ⟨t, ran, last⟩ := Option.map_eq_some_iff.mp ends
  obtain ⟨returned, lines⟩ := Prod.mk.inj last
  have asking : AskerSends twoSeeders (twoAsks 0) (partOf 0 t.out) :=
    ⟨emptyAskStore, twoAsks, staggeredAsks, t, 0, ran, by decide +kernel, rfl, returned, rfl⟩
  have sent : (11, getFileA ++ ['\n']) ∈ getLines (partOf 0 t.out) := by
    rw [lines]
    exact List.mem_singleton_self _
  have asks : AsksFor (twoAsks 0) (getMd5 digestOfA) :=
    ⟨⟨[], ["get".toList, getMd5 digestOfA]⟩, by decide +kernel, rfl⟩
  exact .intro ⟨by decide, by decide, by decide, by decide⟩ rfl announced heard since rfl asks asking sent
    (by decide +kernel)

def wholeCalls : GetCalls :=
  { listening := some 4001, chunks := [⟨some 1, [some 1]⟩] }

end Pire2Pire.Transfer
