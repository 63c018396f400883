import Pire2Pire.Transfer.Announce
import Pire2Pire.Transfer.DlFiles
import Pire2Pire.Transfer.Download
import Pire2Pire.Transfer.Endings
import Pire2Pire.Library.Runs

/-! What the two handlers of a transfer take and give back, however their system calls turn out: descriptors, and
the entry in `downloads` or `uploads` (`daemon_requests/daemon_request_get.c`, `daemon_request_ready.c`).

Allocations other than that of the entry succeed. -/
namespace Pire2Pire.Resources

open Library Protocol Transfer

/-- What a handler does with descriptors, in this order. -/
inductive Act where
  | opens (fd : Nat)
  | closes (fd : Nat)
  | opensDir
  | closesDir
deriving DecidableEq, Repr

/-- What a handler did, and the list of transfers when it returns. -/
structure Run where
  acts : List Act
  transfers : DlFiles

/-! ### `daemon_request_ready` -/

/-- How the calls of the handler turn out; a call that fails gives no descriptor. `stream` is what the peer sends on
the data connection. -/
structure ReadyResources where
  socket : Option Nat
  inetPton : CString → Bool
  opens : Option Nat
  connects : Bool
  dlFile : Ptr
  stream : List UInt8
  portions : List Portion
  /-- a new descriptor is not one that is open -/
  distinct : ∀ fd, socket = some fd → opens ≠ some fd

/-- `argv[1]` and `argv[3]`; there are at least eight words. -/
def readyArguments (cmd : CString) : Option (CString × CString) :=
  match cmdToArgcArgv cmd with
  | _ :: key :: _delay :: ip :: _port :: _proto :: _begin :: _end :: _ => some (key, ip)
  | _ => none

/-- No result while the loop has not come to an end; `fuel` bounds the search of `dl_file_remove`. -/
def daemonRequestReady (fuel : Nat) (sharedFolder : CString) (cache : FileCache) (cmd : CString)
    (calls : ReadyResources) (downloads : DlFiles) : Option Run :=
  match readyArguments cmd with
  | none => some ⟨[], downloads⟩
  | some (key, ip) =>
    match calls.socket with
    | none => some ⟨[], downloads⟩
    | some dlSock =>
      if !calls.inetPton ip then some ⟨[.opens dlSock], downloads⟩
      else
        match fileCacheGetByKey cache key with
        | none => some ⟨[.opens dlSock], downloads⟩
        | some file =>
          match calls.opens with
          | none => some ⟨[.opens dlSock], downloads⟩
          | some localFile =>
            let opened := [.opens dlSock, .opens localFile]
            if !calls.connects then some ⟨opened, downloads⟩
            else
              let fullPath := sharedFolder ++ '/' :: file.filename
              match dlFileNew downloads calls.dlFile fullPath file.size.toUInt32.toInt32 with
              | none => some ⟨opened, downloads⟩
              | some (downloads, f) => do
                let downloads ← dlFileAdd downloads f
                let reception ← receiveLoop file.size calls.stream 0 calls.portions
                if !reception.complete then return ⟨opened, downloads⟩
                let downloads ← dlFileRemove fuel downloads f
                return ⟨opened ++ [.closes dlSock, .closes localFile], dlFileFree downloads f⟩

/-! ### `daemon_request_get` -/

/-- `content` is what is read from the file, `port` what the system chose for `bind`. -/
structure GetResources where
  opendir : Bool
  dir : List DirEntry
  closedir : Bool
  opens : Option Nat
  content : List UInt8
  socket : Option Nat
  binds : Bool
  port : UInt16
  listens : Bool
  accepts : Option Nat
  dlFile : Ptr
  chunks : List Chunk
  /-- a new descriptor is not one that is open -/
  distinct : (opens.toList ++ socket.toList ++ accepts.toList).Nodup

/-- The size of `full_path`. -/
def fullPathSize : Nat := 512

/-- What `find_file` leaves in the file-scope variables. -/
structure Found where
  fullPath : CString
  stSize : UInt64
  key : CString
deriving DecidableEq, Repr

/-- The loop of `find_file`; no result where `full_path` is overrun. -/
def findFileLoop (sharedFolder wanted : CString) : List DirEntry → Option (Option Found)
  | [] => some none
  | entry :: dir =>
    if entry.isRegular then do
      let fullPath ← sprintfInto fullPathSize (sharedFolder ++ '/' :: entry.name.text)
      match entry.size with
      | none => findFileLoop sharedFolder wanted dir
      | some size =>
        if strcmp (getMd5 entry.digest) wanted = .eq then
          return some ⟨fullPath, .ofNat size, getMd5 entry.digest⟩
        else findFileLoop sharedFolder wanted dir
    else findFileLoop sharedFolder wanted dir

/-- A directory in which the file is not found stays open. -/
def findFile (sharedFolder wanted : CString) (calls : GetResources) : Option (List Act × Option Found) :=
  if !calls.opendir then some ([], none)
  else
    (findFileLoop sharedFolder wanted calls.dir).map fun
      | none => ([.opensDir], none)
      | some found => ([.opensDir, .closesDir], if calls.closedir then some found else none)

/-- The calls of `close` behind the label `out`. -/
def out (listenSock dataSock file : Option Nat) : List Act :=
  (listenSock.toList ++ dataSock.toList ++ file.toList).map .closes

/-- `prepare_sending`: what it leaves in `listen_sock`, and whether it returns 0. -/
def prepareSending (calls : GetResources) : Option Nat × Bool :=
  match calls.socket with
  | none => (none, false)
  | some listenSock => (some listenSock, calls.binds && calls.listens)

/-- `send_file`: the calls of `close` that it makes, the list of uploads and whether it returns 0. -/
def sendFile (dataSock file : Nat) (found : Found) (calls : GetResources) (uploads : DlFiles) :
    Option (List Act × DlFiles × Bool) :=
  match dlFileNew uploads calls.dlFile found.fullPath found.stSize.toUInt32.toInt32 with
  | none => some ([], uploads, true)
  | some (uploads, ulFile) => do
    let uploads ← dlFileAdd uploads ulFile
    let upload ← sendLoop calls.content found.stSize calls.chunks
    if upload.complete then return ([.closes dataSock, .closes file], uploads, true)
    return ([], uploads, false)

/-- No result while the loop of `send_file` has not come to an end, or where a buffer is overrun. -/
def daemonRequestGet (sharedFolder : CString) (myIp : Ipv4) (cmd : CString) (calls : GetResources)
    (uploads : DlFiles) : Option Run :=
  match getArguments cmd with
  | .error _ => some ⟨[], uploads⟩
  | .ok pcmd => do
    let wanted ← pcmd.argv[1]?
    let (searched, found) ← findFile sharedFolder wanted calls
    match found with
    | none => return ⟨searched ++ out none none none, uploads⟩
    | some found =>
      match calls.opens with
      | none => return ⟨searched ++ out none none none, uploads⟩
      | some file =>
        let (listenSock, prepared) := prepareSending calls
        let opened := searched ++ .opens file :: listenSock.toList.map .opens
        if !prepared then return ⟨opened ++ out listenSock none (some file), uploads⟩
        let _ ← readyMessage found.key myIp calls.port pcmd
        match calls.accepts with
        | none => return ⟨opened ++ out listenSock none (some file), uploads⟩
        | some dataSock =>
          -- `listen_sock` keeps its value
          let accepted := opened ++ .opens dataSock :: listenSock.toList.map .closes
          let (closed, uploads, sent) ← sendFile dataSock file found calls uploads
          if sent then return ⟨accepted ++ closed, uploads⟩
          return ⟨accepted ++ closed ++ out listenSock (some dataSock) (some file), uploads⟩

/-! ### What a handler owes -/

/-- The descriptors that the handler has open. One that it opens is not among them, and one that it closes is. -/
def Act.step (fds : List Nat) : Act → Option (List Nat)
  | .opens fd => if fd ∈ fds then none else some (fd :: fds)
  | .closes fd => if fd ∈ fds then some (fds.erase fd) else none
  | .opensDir | .closesDir => some fds

/-- Every descriptor of a socket or a file is closed once, after it was opened, and no other is closed. -/
def Disciplined (acts : List Act) : Prop :=
  exec Act.step [] acts = some []

instance (acts : List Act) : Decidable (Disciplined acts) :=
  inferInstanceAs (Decidable (_ = _))

/-- The same for the directory. -/
def DirClosed (acts : List Act) : Prop :=
  acts.count .opensDir = acts.count .closesDir

instance (acts : List Act) : Decidable (DirClosed acts) :=
  inferInstanceAs (Decidable (_ = _))

/-- The download gets as far as its loop. -/
def Receives (cache : FileCache) (cmd : CString) (calls : ReadyResources) : Prop :=
  ∃ key ip file, readyArguments cmd = some (key, ip) ∧ calls.socket ≠ none ∧ calls.inetPton ip = true ∧
    fileCacheGetByKey cache key = some file ∧ calls.opens ≠ none ∧ calls.connects = true ∧ calls.dlFile ≠ none

/-- One of the calls of `recv` and `write` fails. -/
def ReadyResources.Breaks (calls : ReadyResources) : Prop :=
  ∃ portion ∈ calls.portions, portion.recv = none ∨ none ∈ portion.writes

/-- The peer connects. -/
def Accepts (sharedFolder cmd : CString) (calls : GetResources) : Prop :=
  ∃ pcmd wanted found, getArguments cmd = .ok pcmd ∧ pcmd.argv[1]? = some wanted ∧ calls.opendir = true ∧
    findFileLoop sharedFolder wanted calls.dir = some (some found) ∧ calls.closedir = true ∧
    calls.opens ≠ none ∧ calls.socket ≠ none ∧ calls.binds = true ∧ calls.listens = true ∧ calls.accepts ≠ none

/-- One of the calls of `read` and `send` fails. -/
def GetResources.Breaks (calls : GetResources) : Prop :=
  ∃ chunk ∈ calls.chunks, chunk.read = none ∨ none ∈ chunk.sends

variable {fuel : Nat} {sharedFolder cmd : CString} {cache : FileCache} {ready : ReadyResources} {get : GetResources}
  {transfers : DlFiles} {run : Run} {l : List Listing} {myIp : Ipv4} {file : Nat}

/-! ### The loops -/

theorem receiveLoop_complete_iff {fileSize sum : UInt64} {waiting : List UInt8} {portions : List Portion}
    {reception : Reception} (ran : receiveLoop fileSize waiting sum portions = some reception) :
    reception.complete = true ↔ ¬∃ portion ∈ portions, portion.recv = none ∨ none ∈ portion.writes := by
  induction portions generalizing waiting sum reception with
  | nil =>
    simp only [receiveLoop] at ran
    split at ran
    · cases ran
    · cases ran
      simp
  | cons portion portions ih =>
    simp only [receiveLoop] at ran
    split at ran
    · cases receiving : portion.recv with
      | none =>
        simp only [receiving, Option.some.injEq] at ran
        subst ran
        simp [receiving]
      | some n =>
        simp only [receiving] at ran
        split at ran
        · cases writing : writeBuffer (waiting.take n) n portion.writes with
          | none => simp [writing] at ran
          | some result =>
            obtain ⟨bytes, whole⟩ := result
            have ended := putFronts_complete_iff writing
            cases whole with
            | false =>
              simp only [writing, Option.some.injEq] at ran
              subst ran
              have failed : none ∈ portion.writes := by simpa using ended
              simp [failed]
            | true =>
              simp only [writing] at ran
              obtain ⟨rest, after, rfl⟩ := Option.map_eq_some_iff.mp ran
              have unfailed : none ∉ portion.writes := ended.mp rfl
              rw [ih after]
              simp [receiving, unfailed]
        · cases ran
    · cases ran

theorem sendLoop_complete_iff {toBeSent : UInt64} {unread : List UInt8} {chunks : List Chunk} {upload : Upload}
    (ran : sendLoop unread toBeSent chunks = some upload) :
    upload.complete = true ↔ ¬∃ chunk ∈ chunks, chunk.read = none ∨ none ∈ chunk.sends := by
  induction chunks generalizing unread toBeSent upload with
  | nil =>
    simp only [sendLoop] at ran
    split at ran
    · cases ran
      simp
    · cases ran
  | cons chunk chunks ih =>
    simp only [sendLoop] at ran
    split at ran
    · cases ran
    · cases reading : chunk.read with
      | none =>
        simp only [reading, Option.some.injEq] at ran
        subst ran
        simp [reading]
      | some n =>
        simp only [reading, sendBuffer_eq] at ran
        split at ran
        · cases putting : putFronts (unread.take n) n chunk.sends with
          | none => simp [putting] at ran
          | some result =>
            obtain ⟨bytes, whole⟩ := result
            have ended := putFronts_complete_iff putting
            cases whole with
            | false =>
              simp only [putting, Option.map_some, Bool.false_eq_true, if_false, Option.some.injEq] at ran
              subst ran
              have failed : none ∈ chunk.sends := by simpa using ended
              simp [failed]
            | true =>
              simp only [putting, Option.map_some, if_true] at ran
              obtain ⟨rest, after, rfl⟩ := Option.map_eq_some_iff.mp ran
              have unfailed : none ∉ chunk.sends := ended.mp rfl
              rw [ih after]
              simp [reading, unfailed]
        · cases ran

/-! ### Descriptors -/

/-- A descriptor that is open in the end was opened once more than it was closed. -/
theorem exec_count {fds fds' : List Nat} {acts : List Act} (ran : exec Act.step fds acts = some fds') (fd : Nat) :
    fds'.count fd + acts.count (.closes fd) = fds.count fd + acts.count (.opens fd) := by
  induction acts generalizing fds with
  | nil =>
    cases ran
    simp
  | cons act acts ih =>
    obtain ⟨next, taken, rest⟩ := exec_cons_some.mp ran
    have behind := ih rest
    cases act with
    | opens other =>
      simp only [Act.step] at taken
      split at taken
      · cases taken
      · cases taken
        by_cases same : other = fd
        · subst same
          simp only [List.count_cons_self] at behind ⊢
          simp only [List.count_cons, beq_iff_eq, reduceCtorEq, if_false, Nat.add_zero]
          omega
        · simp only [List.count_cons, beq_iff_eq, same, if_false, Act.opens.injEq, reduceCtorEq] at behind ⊢
          omega
    | closes other =>
      simp only [Act.step] at taken
      split at taken
      next member =>
        cases taken
        by_cases same : other = fd
        · subst same
          have positive := List.count_pos_iff.mpr member
          rw [List.count_erase_self] at behind
          simp only [List.count_cons, beq_iff_eq, if_true, reduceCtorEq, if_false] at behind ⊢
          omega
        · rw [List.count_erase_of_ne (Ne.symm same)] at behind
          simp only [List.count_cons, beq_iff_eq, Act.closes.injEq, same, if_false, reduceCtorEq] at behind ⊢
          omega
      · cases taken
    | opensDir =>
      cases taken
      simpa [List.count_cons] using behind
    | closesDir =>
      cases taken
      simpa [List.count_cons] using behind

/-- With discipline, every descriptor is closed as often as it was opened. -/
theorem disciplined_count {acts : List Act} (disciplined : Disciplined acts) (fd : Nat) :
    acts.count (.closes fd) = acts.count (.opens fd) := by
  simpa using exec_count disciplined fd

/-! ### The download -/

theorem receives_iff {key ip : CString} (arguments : readyArguments cmd = some (key, ip)) :
    Receives cache cmd ready ↔ ready.socket ≠ none ∧ ready.inetPton ip = true ∧
      fileCacheGetByKey cache key ≠ none ∧ ready.opens ≠ none ∧ ready.connects = true ∧ ready.dlFile ≠ none := by
  constructor
  · rintro ⟨key', ip', file, arguments', socket, pton, known, rest⟩
    cases arguments.symm.trans arguments'
    exact ⟨socket, pton, by simp [known], rest⟩
  · rintro ⟨socket, pton, known, rest⟩
    obtain ⟨file, known⟩ := Option.ne_none_iff_exists'.mp known
    exact ⟨key, ip, file, arguments, socket, pton, known, rest⟩

/-- All that a `ready` message can come to: nothing is opened; something is opened and all of it stays open; the loop
breaks, with the entry in the list; or all is given back. -/
theorem daemonRequestReady_cases (listed : Listed transfers l)
    (fresh : ∀ a, ready.dlFile = some a → transfers.heap a = none) (positive : 0 < fuel)
    (returned : daemonRequestReady fuel sharedFolder cache cmd ready transfers = some run) :
    (readyArguments cmd = none ∨ ready.socket = none) ∧ run = ⟨[], transfers⟩ ∨
      (readyArguments cmd ≠ none ∧ ∃ dlSock, ready.socket = some dlSock ∧ ¬Receives cache cmd ready ∧
        run.transfers = transfers ∧
        (run.acts = [.opens dlSock] ∨ ∃ localFile, run.acts = [.opens dlSock, .opens localFile])) ∨
      ∃ dlSock localFile, ready.socket = some dlSock ∧ ready.opens = some localFile ∧ Receives cache cmd ready ∧
        (ready.Breaks ∧ run.acts = [.opens dlSock, .opens localFile] ∧ (∃ c, Listed run.transfers (c :: l)) ∨
          ¬ready.Breaks ∧ run.acts = [.opens dlSock, .opens localFile, .closes dlSock, .closes localFile] ∧
            Listed run.transfers l) := by
  unfold daemonRequestReady at returned
  cases arguments : readyArguments cmd with
  | none =>
    simp only [arguments, Option.some.injEq] at returned
    exact .inl ⟨.inl rfl, returned.symm⟩
  | some argument =>
    obtain ⟨key, ip⟩ := argument
    simp only [arguments] at returned
    cases socket : ready.socket with
    | none =>
      simp only [socket, Option.some.injEq] at returned
      exact .inl ⟨.inr rfl, returned.symm⟩
    | some dlSock =>
      refine .inr ?_
      simp only [socket] at returned
      rw [receives_iff arguments]
      -- each return in front of the loop leaves open what is open
      by_cases pton : ready.inetPton ip = true
      case neg =>
        simp only [pton, Bool.not_false, if_true, Option.some.injEq] at returned
        subst returned
        exact .inl ⟨by simp, dlSock, rfl, fun receives => pton receives.2.1, rfl, .inl rfl⟩
      simp only [pton, Bool.not_true, Bool.false_eq_true, if_false] at returned
      cases known : fileCacheGetByKey cache key with
      | none =>
        simp only [known, Option.some.injEq] at returned
        subst returned
        exact .inl ⟨by simp, dlSock, rfl, fun receives => receives.2.2.1 rfl, rfl, .inl rfl⟩
      | some file =>
        simp only [known] at returned
        cases opens : ready.opens with
        | none =>
          simp only [opens, Option.some.injEq] at returned
          subst returned
          exact .inl ⟨by simp, dlSock, rfl, fun receives => receives.2.2.2.1 rfl, rfl, .inl rfl⟩
        | some localFile =>
          simp only [opens] at returned
          by_cases connects : ready.connects = true
          case neg =>
            simp only [connects, Bool.not_false, if_true, Option.some.injEq] at returned
            subst returned
            exact .inl ⟨by simp, dlSock, rfl, fun receives => connects receives.2.2.2.2.1, rfl, .inr ⟨localFile, rfl⟩⟩
          simp only [connects, Bool.not_true, Bool.false_eq_true, if_false] at returned
          cases dlFile : ready.dlFile with
          | none =>
            simp only [dlFile, dlFileNew, Option.map_none, Option.some.injEq] at returned
            subst returned
            exact .inl ⟨by simp, dlSock, rfl, fun receives => receives.2.2.2.2.2 rfl, rfl, .inr ⟨localFile, rfl⟩⟩
          | some f =>
            -- the entry is added, and taken out again unless the loop breaks
            obtain ⟨q₁, q₂, q₃, new, added, removed, longer, back⟩ := dlFile_roundTrip listed (fresh f dlFile)
              (sharedFolder ++ '/' :: file.filename) file.size.toUInt32.toInt32 positive
            simp only [dlFile, new, Option.bind_eq_bind, added, Option.bind_some] at returned
            obtain ⟨reception, ran, returned⟩ := Option.bind_eq_some_iff.mp returned
            have ended := receiveLoop_complete_iff ran
            refine .inr ⟨dlSock, localFile, rfl, rfl, by simp [socket, pton, connects], ?_⟩
            by_cases complete : reception.complete = true
            · simp only [complete, Bool.not_true, Bool.false_eq_true, if_false, removed, Option.bind_some,
                Option.pure_def, Option.some.injEq] at returned
              subst returned
              exact .inr ⟨ended.mp complete, rfl, back⟩
            · simp only [complete, Bool.not_false, if_true, Option.pure_def, Option.some.injEq] at returned
              subst returned
              exact .inl ⟨by_contra fun unbroken => complete (ended.mpr unbroken), rfl, _, longer⟩

theorem ready_restored_iff (listed : Listed transfers l)
    (fresh : ∀ a, ready.dlFile = some a → transfers.heap a = none) (positive : 0 < fuel)
    (returned : daemonRequestReady fuel sharedFolder cache cmd ready transfers = some run) :
    Listed run.transfers l ↔ ¬(Receives cache cmd ready ∧ ready.Breaks) := by
  rcases daemonRequestReady_cases listed fresh positive returned with
    ⟨early, rfl⟩ | ⟨-, dlSock, -, notYet, same, -⟩ | ⟨dlSock, localFile, -, -, receives, cases⟩
  · refine iff_of_true listed ?_
    rintro ⟨⟨key, ip, file, arguments, socket, -⟩, -⟩
    rcases early with none_ | closed
    · rw [none_] at arguments
      cases arguments
    · exact socket closed
  · exact iff_of_true (same ▸ listed) fun breaks => notYet breaks.1
  · rcases cases with ⟨breaks, -, c, longer⟩ | ⟨unbroken, -, back⟩
    · exact iff_of_false (listed_cons_ne longer) fun spared => spared ⟨receives, breaks⟩
    · exact iff_of_true back fun breaks => unbroken breaks.2

theorem ready_disciplined_iff (listed : Listed transfers l)
    (fresh : ∀ a, ready.dlFile = some a → transfers.heap a = none) (positive : 0 < fuel)
    (returned : daemonRequestReady fuel sharedFolder cache cmd ready transfers = some run) :
    Disciplined run.acts ↔
      readyArguments cmd = none ∨ ready.socket = none ∨ Receives cache cmd ready ∧ ¬ready.Breaks := by
  rcases daemonRequestReady_cases listed fresh positive returned with
    ⟨early, rfl⟩ | ⟨arguments, dlSock, socket, notYet, -, acts⟩ | ⟨dlSock, localFile, socket, opens, receives, cases⟩
  · refine iff_of_true rfl ?_
    rcases early with none_ | closed
    · exact .inl none_
    · exact .inr (.inl closed)
  · -- the socket at least is not closed
    refine iff_of_false ?_ ?_
    · intro disciplined
      have balance := disciplined_count disciplined dlSock
      rcases acts with one | ⟨localFile, two⟩
      · simp [one] at balance
      · simp [two] at balance
    · rintro (none_ | closed | ⟨receives, -⟩)
      · exact arguments none_
      · rw [socket] at closed
        cases closed
      · exact notYet receives
  · have differ : localFile ≠ dlSock := fun same => ready.distinct dlSock socket (same ▸ opens)
    have arguments : readyArguments cmd ≠ none := by
      obtain ⟨key, ip, file, arguments, -⟩ := receives
      simp [arguments]
    rcases cases with ⟨breaks, acts, -⟩ | ⟨unbroken, acts, -⟩
    · refine iff_of_false ?_ ?_
      · intro disciplined
        have balance := disciplined_count disciplined dlSock
        simp [acts] at balance
      · rintro (none_ | closed | ⟨-, unbroken⟩)
        · exact arguments none_
        · rw [socket] at closed
          cases closed
        · exact unbroken breaks
    · refine iff_of_true ?_ (.inr (.inr ⟨receives, unbroken⟩))
      simp [Disciplined, acts, exec, Act.step, differ, differ.symm]

/-! ### The upload -/

/-- What `find_file` does with the directory. -/
theorem findFile_cases {wanted : CString} {searched : List Act} {found : Option Found}
    (searching : findFile sharedFolder wanted get = some (searched, found)) :
    found = none ∧ get.opendir = false ∧ searched = [] ∨
      get.opendir = true ∧ findFileLoop sharedFolder wanted get.dir = some none ∧ found = none ∧
        searched = [.opensDir] ∨
      get.opendir = true ∧ ∃ entry, findFileLoop sharedFolder wanted get.dir = some (some entry) ∧
        found = (if get.closedir then some entry else none) ∧ searched = [.opensDir, .closesDir] := by
  unfold findFile at searching
  cases opendir : get.opendir with
  | false =>
    simp only [opendir, Bool.not_false, if_true, Option.some.injEq, Prod.mk.injEq] at searching
    exact .inl ⟨searching.2.symm, rfl, searching.1.symm⟩
  | true =>
    simp only [opendir, Bool.not_true, Bool.false_eq_true, if_false, Option.map_eq_some_iff] at searching
    obtain ⟨result, loop, same⟩ := searching
    cases result with
    | none =>
      cases same
      exact .inr (.inl ⟨rfl, loop, rfl, rfl⟩)
    | some entry =>
      cases same
      exact .inr (.inr ⟨rfl, entry, loop, rfl, rfl⟩)

/-- Searching the directory opens and closes no other descriptor. -/
theorem exec_searched {wanted : CString} {searched : List Act} {found : Option Found}
    (searching : findFile sharedFolder wanted get = some (searched, found)) (fds : List Nat) (acts : List Act) :
    exec Act.step fds (searched ++ acts) = exec Act.step fds acts := by
  rcases findFile_cases searching with ⟨-, -, rfl⟩ | ⟨-, -, -, rfl⟩ | ⟨-, entry, -, -, rfl⟩ <;> rfl

/-- What becomes of the entry, and of the two descriptors. -/
theorem sendFile_cases {dataSock file : Nat} {found : Found} {closed : List Act} {uploads : DlFiles} {sent : Bool}
    (listed : Listed transfers l) (fresh : ∀ a, get.dlFile = some a → transfers.heap a = none)
    (sending : sendFile dataSock file found get transfers = some (closed, uploads, sent)) :
    get.dlFile = none ∧ closed = [] ∧ uploads = transfers ∧ sent = true ∨
      get.dlFile ≠ none ∧ (∃ c, Listed uploads (c :: l)) ∧
        (get.Breaks ∧ closed = [] ∧ sent = false ∨
          ¬get.Breaks ∧ closed = [.closes dataSock, .closes file] ∧ sent = true) := by
  unfold sendFile at sending
  cases dlFile : get.dlFile with
  | none =>
    simp only [dlFile, dlFileNew, Option.map_none, Option.some.injEq, Prod.mk.injEq] at sending
    exact .inl ⟨rfl, sending.1.symm, sending.2.1.symm, sending.2.2.symm⟩
  | some f =>
    obtain ⟨q₁, q₂, new, added, longer, -⟩ := dlFileAdd_listed listed (fresh f dlFile) found.fullPath
      found.stSize.toUInt32.toInt32
    simp only [dlFile, new, Option.bind_eq_bind, added, Option.bind_some] at sending
    obtain ⟨upload, ran, sending⟩ := Option.bind_eq_some_iff.mp sending
    have ended := sendLoop_complete_iff ran
    by_cases complete : upload.complete = true
    · simp only [complete, if_true, Option.pure_def, Option.some.injEq, Prod.mk.injEq] at sending
      obtain ⟨rfl, rfl, rfl⟩ := sending
      exact .inr ⟨by simp, ⟨_, longer⟩, .inr ⟨ended.mp complete, rfl, rfl⟩⟩
    · simp only [complete, Bool.false_eq_true, if_false, Option.pure_def, Option.some.injEq, Prod.mk.injEq] at sending
      obtain ⟨rfl, rfl, rfl⟩ := sending
      exact .inr ⟨by simp, ⟨_, longer⟩, .inl ⟨by_contra fun unbroken => complete (ended.mpr unbroken), rfl, rfl⟩⟩

/-- The file is found and opened, and the peer connects to the socket that the handler listens on. -/
def Connected (calls : GetResources) (found : Option Found) (file listenSock dataSock : Nat) : Prop :=
  found ≠ none ∧ calls.opens = some file ∧ calls.socket = some listenSock ∧ calls.binds = true ∧
    calls.listens = true ∧ calls.accepts = some dataSock

/-- All that a `get` message can come to: nothing is done; the search or the first `open` fails; what was opened is
closed again; or the peer connects. -/
theorem daemonRequestGet_cases (returned : daemonRequestGet sharedFolder myIp cmd get transfers = some run) :
    (∃ text, getArguments cmd = .error text) ∧ run = ⟨[], transfers⟩ ∨
      ∃ pcmd wanted searched found, getArguments cmd = .ok pcmd ∧ pcmd.argv[1]? = some wanted ∧
        findFile sharedFolder wanted get = some (searched, found) ∧
        ((∀ file listenSock dataSock, ¬Connected get found file listenSock dataSock) ∧
            (run = ⟨searched, transfers⟩ ∨ ∃ file, get.opens = some file ∧
              run = ⟨searched ++ .opens file :: (get.socket.toList.map .opens ++ out get.socket none (some file)),
                transfers⟩) ∨
          ∃ entry file listenSock dataSock closed uploads sent, found = some entry ∧
            Connected get found file listenSock dataSock ∧
            sendFile dataSock file entry get transfers = some (closed, uploads, sent) ∧
            run = ⟨searched ++ .opens file :: .opens listenSock :: .opens dataSock :: .closes listenSock ::
              (closed ++ if sent then [] else out (some listenSock) (some dataSock) (some file)), uploads⟩) := by
  unfold daemonRequestGet at returned
  cases arguments : getArguments cmd with
  | error text =>
    simp only [arguments, Option.some.injEq] at returned
    exact .inl ⟨⟨text, rfl⟩, returned.symm⟩
  | ok pcmd =>
    simp only [arguments, Option.bind_eq_bind] at returned
    obtain ⟨wanted, second, returned⟩ := Option.bind_eq_some_iff.mp returned
    obtain ⟨⟨searched, found⟩, searching, returned⟩ := Option.bind_eq_some_iff.mp returned
    refine .inr ⟨pcmd, wanted, searched, found, rfl, second, searching, ?_⟩
    cases found with
    | none =>
      simp only [Option.pure_def, Option.some.injEq] at returned
      exact .inl ⟨fun _ _ _ connected => connected.1 rfl, .inl (by simp [← returned, out])⟩
    | some entry =>
      cases opens : get.opens with
      | none =>
        simp only [opens, Option.pure_def, Option.some.injEq] at returned
        refine .inl ⟨?_, .inl (by simp [← returned, out])⟩
        rintro file listenSock dataSock ⟨-, some_, -⟩
        simp [opens] at some_
      | some file =>
        simp only [opens] at returned
        -- `prepare_sending` has a socket, or has failed
        cases socket : get.socket with
        | none =>
          simp only [prepareSending, socket, Bool.not_false, if_true, Option.pure_def, Option.some.injEq] at returned
          refine .inl ⟨?_, .inr ⟨file, rfl, by simp [← returned]⟩⟩
          rintro file' listenSock dataSock ⟨-, -, some_, -⟩
          simp [socket] at some_
        | some listenSock =>
          simp only [prepareSending, socket] at returned
          by_cases prepared : (get.binds && get.listens) = true
          case neg =>
            simp only [prepared, Bool.not_false, if_true, Option.pure_def, Option.some.injEq] at returned
            refine .inl ⟨?_, .inr ⟨file, rfl, by simp [← returned]⟩⟩
            rintro file' listenSock' dataSock ⟨-, -, -, binds, listens, -⟩
            exact prepared (by simp [binds, listens])
          simp only [prepared, Bool.not_true, Bool.false_eq_true, if_false] at returned
          obtain ⟨line, answer, returned⟩ := Option.bind_eq_some_iff.mp returned
          cases accepts : get.accepts with
          | none =>
            simp only [accepts, Option.pure_def, Option.some.injEq] at returned
            refine .inl ⟨?_, .inr ⟨file, rfl, by simp [← returned]⟩⟩
            rintro file' listenSock' dataSock ⟨-, -, -, -, -, some_⟩
            simp [accepts] at some_
          | some dataSock =>
            simp only [accepts] at returned
            obtain ⟨⟨closed, uploads, sent⟩, sending, returned⟩ := Option.bind_eq_some_iff.mp returned
            obtain ⟨binds, listens⟩ := Bool.and_eq_true_iff.mp prepared
            refine .inr ⟨entry, file, listenSock, dataSock, closed, uploads, sent, rfl,
              ⟨by simp, opens, socket, binds, listens, accepts⟩, sending, ?_⟩
            cases sent with
            | true => simpa [eq_comm] using returned
            | false => simpa [eq_comm] using returned

theorem accepts_iff {pcmd : ParsedCmd} {wanted : CString} {searched : List Act} {found : Option Found}
    (arguments : getArguments cmd = .ok pcmd) (second : pcmd.argv[1]? = some wanted)
    (searching : findFile sharedFolder wanted get = some (searched, found)) :
    Accepts sharedFolder cmd get ↔ ∃ file listenSock dataSock, Connected get found file listenSock dataSock := by
  constructor
  · rintro ⟨pcmd', wanted', entry, arguments', second', opendir, loop, closedir, opens, socket, binds, listens, accepts⟩
    cases arguments.symm.trans arguments'
    cases second.symm.trans second'
    obtain ⟨file, opens⟩ := Option.ne_none_iff_exists'.mp opens
    obtain ⟨listenSock, socket⟩ := Option.ne_none_iff_exists'.mp socket
    obtain ⟨dataSock, accepts⟩ := Option.ne_none_iff_exists'.mp accepts
    refine ⟨file, listenSock, dataSock, ?_, opens, socket, binds, listens, accepts⟩
    simp only [findFile, opendir, Bool.not_true, Bool.false_eq_true, if_false, loop, Option.map_some, closedir, if_true,
      Option.some.injEq, Prod.mk.injEq] at searching
    simp [← searching.2]
  · rintro ⟨file, listenSock, dataSock, some_, opens, socket, binds, listens, accepts⟩
    -- an entry is only handed on when the directory was opened, searched and closed
    rcases findFile_cases searching with ⟨none_, -⟩ | ⟨-, -, none_, -⟩ | ⟨opendir, entry, loop, same, -⟩
    · exact absurd none_ some_
    · exact absurd none_ some_
    · split at same
      next closedir =>
        exact ⟨pcmd, wanted, entry, arguments, second, opendir, loop, closedir, by simp [opens], by simp [socket],
          binds, listens, by simp [accepts]⟩
      · exact absurd same some_

theorem not_accepts_of_error {text : CString} (refused : getArguments cmd = .error text) :
    ¬Accepts sharedFolder cmd get := by
  rintro ⟨pcmd, wanted, found, arguments, -⟩
  rw [refused] at arguments
  cases arguments

theorem get_restored_iff (listed : Listed transfers l)
    (fresh : ∀ a, get.dlFile = some a → transfers.heap a = none)
    (returned : daemonRequestGet sharedFolder myIp cmd get transfers = some run) :
    Listed run.transfers l ↔ ¬(Accepts sharedFolder cmd get ∧ get.dlFile ≠ none) := by
  rcases daemonRequestGet_cases returned with
    ⟨⟨text, refused⟩, rfl⟩ | ⟨pcmd, wanted, searched, found, arguments, second, searching, stage⟩
  · exact iff_of_true listed fun accepts => not_accepts_of_error refused accepts.1
  rw [accepts_iff arguments second searching]
  rcases stage with ⟨unconnected, left⟩ |
    ⟨entry, file, listenSock, dataSock, closed, uploads, sent, -, connected, sending, rfl⟩
  · refine iff_of_true ?_ ?_
    · rcases left with rfl | ⟨file, -, rfl⟩
      · exact listed
      · exact listed
    · rintro ⟨⟨file, listenSock, dataSock, connected⟩, -⟩
      exact unconnected _ _ _ connected
  · rcases sendFile_cases listed fresh sending with ⟨none_, -, rfl, -⟩ | ⟨some_, ⟨c, longer⟩, -⟩
    · exact iff_of_true listed fun added => added.2 none_
    · exact iff_of_false (listed_cons_ne longer)
        fun spared => spared ⟨⟨file, listenSock, dataSock, connected⟩, some_⟩

/-- Before the peer connects, what was opened is closed on the way out. -/
theorem disciplined_unconnected (opens : get.opens = some file) :
    Disciplined (.opens file :: (get.socket.toList.map .opens ++ out get.socket none (some file))) := by
  cases socket : get.socket with
  | none => simp [Disciplined, out, exec, Act.step]
  | some listenSock =>
    have distinct := get.distinct
    simp only [opens, socket, Option.toList_some, List.cons_append, List.nil_append, List.nodup_cons,
      List.mem_cons, not_or] at distinct
    have differ : listenSock ≠ file := fun same => distinct.1.1 same.symm
    simp [Disciplined, out, exec, Act.step, differ]

/-- When the peer has connected, the data socket and the file are open. -/
theorem exec_connected {found : Option Found} {listenSock dataSock : Nat}
    (connected : Connected get found file listenSock dataSock) (acts : List Act) :
    listenSock ∉ [dataSock, file] ∧ dataSock ≠ file ∧
      exec Act.step [] (.opens file :: .opens listenSock :: .opens dataSock :: .closes listenSock :: acts) =
        exec Act.step [dataSock, file] acts := by
  obtain ⟨-, opens, socket, -, -, accepts⟩ := connected
  have distinct := get.distinct
  simp only [opens, socket, accepts, Option.toList_some, List.cons_append, List.nil_append, List.nodup_cons,
    List.mem_cons, List.not_mem_nil, not_or, or_false] at distinct
  obtain ⟨⟨listenFile, dataFile⟩, dataListen, -⟩ := distinct
  refine ⟨by simp [dataListen, Ne.symm listenFile], Ne.symm dataFile, ?_⟩
  simp [exec, Act.step, Ne.symm listenFile, Ne.symm dataFile, Ne.symm dataListen, dataListen]

theorem get_disciplined_iff (listed : Listed transfers l)
    (fresh : ∀ a, get.dlFile = some a → transfers.heap a = none)
    (returned : daemonRequestGet sharedFolder myIp cmd get transfers = some run) :
    Disciplined run.acts ↔ (Accepts sharedFolder cmd get → get.dlFile ≠ none ∧ ¬get.Breaks) := by
  rcases daemonRequestGet_cases returned with
    ⟨⟨text, refused⟩, rfl⟩ | ⟨pcmd, wanted, searched, found, arguments, second, searching, stage⟩
  · exact iff_of_true rfl fun accepts => absurd accepts (not_accepts_of_error refused)
  rw [accepts_iff arguments second searching]
  rcases stage with ⟨unconnected, left⟩ |
    ⟨entry, file, listenSock, dataSock, closed, uploads, sent, -, connected, sending, rfl⟩
  · refine iff_of_true ?_ ?_
    · rcases left with rfl | ⟨file, opens, rfl⟩
      · have nothing := exec_searched searching [] []
        rwa [List.append_nil] at nothing
      · exact (exec_searched searching [] _).trans (disciplined_unconnected opens)
    · rintro ⟨file, listenSock, dataSock, connected⟩
      exact absurd connected (unconnected _ _ _)
  · obtain ⟨closedAlready, differ, -⟩ := exec_connected connected []
    have opened := fun acts => (exec_connected connected acts).2.2
    have reached : ∃ file listenSock dataSock, Connected get found file listenSock dataSock := ⟨_, _, _, connected⟩
    simp only [reached, true_imp_iff, Disciplined, exec_searched searching, opened]
    rcases sendFile_cases listed fresh sending with
      ⟨none_, rfl, -, rfl⟩ | ⟨some_, -, ⟨breaks, rfl, rfl⟩ | ⟨unbroken, rfl, rfl⟩⟩
    -- without an entry both descriptors stay open
    · simp [none_, exec]
    -- the way out closes `listen_sock` again
    · simp only [Bool.false_eq_true, if_false, List.nil_append, out, Option.toList_some, List.cons_append,
        List.map_cons, List.map_nil, exec, Act.step, if_neg closedAlready, Option.bind_none, reduceCtorEq, breaks,
        not_true_eq_false, and_false]
    · simp [some_, unbroken, exec, Act.step, differ]

/-- The search opens the directory without closing it if it does not find the file. -/
def LeavesDir (sharedFolder cmd : CString) (calls : GetResources) : Prop :=
  ∃ pcmd wanted, getArguments cmd = .ok pcmd ∧ pcmd.argv[1]? = some wanted ∧ calls.opendir = true ∧
    findFileLoop sharedFolder wanted calls.dir = some none

theorem dirClosed_append {acts : List Act} (searched : List Act)
    (others : ∀ act ∈ acts, ∃ fd, act = .opens fd ∨ act = .closes fd) :
    DirClosed (searched ++ acts) ↔ DirClosed searched := by
  have opens : acts.count .opensDir = 0 := by
    apply List.count_eq_zero.mpr
    intro member
    obtain ⟨fd, same | same⟩ := others _ member <;> cases same
  have closes : acts.count .closesDir = 0 := by
    apply List.count_eq_zero.mpr
    intro member
    obtain ⟨fd, same | same⟩ := others _ member <;> cases same
  simp only [DirClosed, List.count_append, opens, closes, Nat.add_zero]

theorem dirClosed_searched_iff {pcmd : ParsedCmd} {wanted : CString} {searched : List Act} {found : Option Found}
    (arguments : getArguments cmd = .ok pcmd) (second : pcmd.argv[1]? = some wanted)
    (searching : findFile sharedFolder wanted get = some (searched, found)) :
    DirClosed searched ↔ ¬LeavesDir sharedFolder cmd get := by
  have leaves : LeavesDir sharedFolder cmd get ↔
      get.opendir = true ∧ findFileLoop sharedFolder wanted get.dir = some none := by
    constructor
    · rintro ⟨pcmd', wanted', arguments', second', rest⟩
      cases arguments.symm.trans arguments'
      cases second.symm.trans second'
      exact rest
    · rintro ⟨opendir, loop⟩
      exact ⟨pcmd, wanted, arguments, second, opendir, loop⟩
  rw [leaves]
  rcases findFile_cases searching with ⟨-, opendir, rfl⟩ | ⟨opendir, loop, -, rfl⟩ | ⟨-, entry, loop, -, rfl⟩
  · exact iff_of_true rfl (by simp [opendir])
  · exact iff_of_false (by decide) (by simp [opendir, loop])
  · exact iff_of_true rfl (by simp [loop])

theorem get_dirClosed_iff (listed : Listed transfers l)
    (fresh : ∀ a, get.dlFile = some a → transfers.heap a = none)
    (returned : daemonRequestGet sharedFolder myIp cmd get transfers = some run) :
    DirClosed run.acts ↔ ¬LeavesDir sharedFolder cmd get := by
  rcases daemonRequestGet_cases returned with
    ⟨⟨text, refused⟩, rfl⟩ | ⟨pcmd, wanted, searched, found, arguments, second, searching, stage⟩
  · refine iff_of_true rfl ?_
    rintro ⟨pcmd, wanted, arguments, -⟩
    rw [refused] at arguments
    cases arguments
  rw [← dirClosed_searched_iff arguments second searching]
  rcases stage with ⟨-, rfl | ⟨file, -, rfl⟩⟩ |
    ⟨entry, file, listenSock, dataSock, closed, uploads, sent, -, -, sending, rfl⟩
  · rfl
  · apply dirClosed_append
    simp [out, or_imp, forall_and]
  · apply dirClosed_append
    rcases sendFile_cases listed fresh sending with
      ⟨-, rfl, -, rfl⟩ | ⟨-, -, ⟨-, rfl, rfl⟩ | ⟨-, rfl, rfl⟩⟩ <;> simp [out]

/-! ### Both handlers -/

/-- A message that is handled: `ready KEY DELAY IP PORT PROTOCOL BEGINNING END` with the cache, or
`get KEY BEGINNING END`, and how its calls turn out. -/
inductive Handling where
  | ready (cache : FileCache) (calls : ReadyResources)
  | get (myIp : Ipv4) (calls : GetResources)

/-- The list is `downloads` or `uploads`. -/
def Handling.outcome (fuel : Nat) (sharedFolder cmd : CString) (transfers : DlFiles) : Handling → Option Run
  | .ready cache calls => daemonRequestReady fuel sharedFolder cache cmd calls transfers
  | .get myIp calls => daemonRequestGet sharedFolder myIp cmd calls transfers

def Handling.dlFile : Handling → Ptr
  | .ready _ calls => calls.dlFile
  | .get _ calls => calls.dlFile

/-- No `recv` and no `write` of a download fails; a peer does not connect, or the entry of its upload cannot be
allocated. -/
def Handling.Restores (sharedFolder cmd : CString) : Handling → Prop
  | .ready cache calls => ¬(Receives cache cmd calls ∧ calls.Breaks)
  | .get _ calls => ¬(Accepts sharedFolder cmd calls ∧ calls.dlFile ≠ none)

/-- Once there is a socket, the download gets to its loop, and no call of that fails; once the peer has connected,
the entry is allocated and no call of the loop fails. -/
def Handling.ClosesAll (sharedFolder cmd : CString) : Handling → Prop
  | .ready cache calls =>
    readyArguments cmd = none ∨ calls.socket = none ∨ Receives cache cmd calls ∧ ¬calls.Breaks
  | .get _ calls => Accepts sharedFolder cmd calls → calls.dlFile ≠ none ∧ ¬calls.Breaks

/-- The directory is not searched in vain. -/
def Handling.ClosesDir (sharedFolder cmd : CString) : Handling → Prop
  | .ready .. => True
  | .get _ calls => ¬LeavesDir sharedFolder cmd calls

variable {handling : Handling}

/-- A handler leaves the list of transfers as it found it iff no entry is stranded in it. -/
theorem transfers_restored_iff (listed : Listed transfers l)
    (fresh : ∀ a, handling.dlFile = some a → transfers.heap a = none) (positive : 0 < fuel)
    (returned : handling.outcome fuel sharedFolder cmd transfers = some run) :
    Listed run.transfers l ↔ handling.Restores sharedFolder cmd := by
  cases handling with
  | ready cache calls => exact ready_restored_iff listed fresh positive returned
  | get myIp calls => exact get_restored_iff listed fresh returned

theorem ready_dirClosed (listed : Listed transfers l)
    (fresh : ∀ a, ready.dlFile = some a → transfers.heap a = none) (positive : 0 < fuel)
    (returned : daemonRequestReady fuel sharedFolder cache cmd ready transfers = some run) : DirClosed run.acts := by
  rcases daemonRequestReady_cases listed fresh positive returned with
    ⟨-, rfl⟩ | ⟨-, dlSock, -, -, -, acts | ⟨localFile, acts⟩⟩ |
    ⟨dlSock, localFile, -, -, -, ⟨-, acts, -⟩ | ⟨-, acts, -⟩⟩
  · rfl
  all_goals rw [acts]; rfl

/-- A handler closes each of its sockets and files once, and nothing else, iff no call fails behind the last place from
which all of them are closed; and it closes the directory iff the search finds the file. -/
theorem descriptors_closed_iff (listed : Listed transfers l)
    (fresh : ∀ a, handling.dlFile = some a → transfers.heap a = none) (positive : 0 < fuel)
    (returned : handling.outcome fuel sharedFolder cmd transfers = some run) :
    (Disciplined run.acts ↔ handling.ClosesAll sharedFolder cmd) ∧
      (DirClosed run.acts ↔ handling.ClosesDir sharedFolder cmd) := by
  cases handling with
  | ready cache calls =>
    refine ⟨ready_disciplined_iff listed fresh positive returned, ?_⟩
    exact iff_of_true (ready_dirClosed listed fresh positive returned) trivial
  | get myIp calls => exact ⟨get_disciplined_iff listed fresh returned, get_dirClosed_iff listed fresh returned⟩

/-- No transfers are going on. -/
def noTransfers : DlFiles :=
  ⟨fun _ => none, none⟩

theorem noTransfers_listed : Listed noTransfers [] :=
  rfl

def oneByte : DirEntry where
  name := ⟨"song.ogg".toList, by decide, by decide, by decide, by decide⟩
  isRegular := true
  size := some 1
  digest := Vector.replicate 16 0

def getSong : CString :=
  "get ".toList ++ getMd5 (Vector.replicate 16 0) ++ " 0 1".toList

/-- A `get` whose peer connects; the chunks are those of the loop. -/
def getCalls (chunks : List Chunk) : Handling :=
  .get ⟨10, 0, 0, 1⟩
    { opendir := true, dir := [oneByte], closedir := true, opens := some 4, content := [65], socket := some 5
      binds := true, port := 4242, listens := true, accepts := some 6, dlFile := some 100, chunks := chunks
      distinct := by decide }

/-- A `ready` for a file of one byte, which arrives. -/
def readyCalls : Handling :=
  .ready (.node ⟨"song".toList, getMd5 (Vector.replicate 16 0), 1, []⟩ .empty .empty)
    { socket := some 4, inetPton := fun _ => true, opens := some 5, connects := true, dlFile := some 100
      stream := [65], portions := [⟨some 1, [some 1]⟩], distinct := by decide }

def readySong : CString :=
  "ready ".toList ++ getMd5 (Vector.replicate 16 0) ++ " 0 10.0.0.1 4242 tcp 0 1".toList

theorem whole_download_restored :
    ∃ run, readyCalls.outcome 1 "/tmp".toList readySong noTransfers = some run ∧
      (Listed run.transfers [] ↔ readyCalls.Restores "/tmp".toList readySong) := by
  obtain ⟨run, returned⟩ := Option.isSome_iff_exists.mp
    (show (readyCalls.outcome 1 "/tmp".toList readySong noTransfers).isSome by decide +kernel)
  exact ⟨run, returned, transfers_restored_iff noTransfers_listed (fun _ _ => rfl) (by decide) returned⟩

theorem whole_get_closed :
    ∃ run, (getCalls [⟨some 1, [some 1]⟩]).outcome 1 "/tmp".toList getSong noTransfers = some run ∧
      (Disciplined run.acts ↔ (getCalls [⟨some 1, [some 1]⟩]).ClosesAll "/tmp".toList getSong) ∧
      (DirClosed run.acts ↔ (getCalls [⟨some 1, [some 1]⟩]).ClosesDir "/tmp".toList getSong) := by
  obtain ⟨run, returned⟩ := Option.isSome_iff_exists.mp
    (show ((getCalls [⟨some 1, [some 1]⟩]).outcome 1 "/tmp".toList getSong noTransfers).isSome by decide +kernel)
  exact ⟨run, returned, descriptors_closed_iff noTransfers_listed (fun _ _ => rfl) (by decide) returned⟩

/-- An upload that goes well stays in the list. -/
theorem whole_upload_stays_listed :
    Listed noTransfers [] ∧
      ((getCalls [⟨some 1, [some 1]⟩]).outcome 1 "/tmp".toList getSong noTransfers).map
        (fun run => run.transfers.head) = some (some 100) ∧
      ¬∃ run, (getCalls [⟨some 1, [some 1]⟩]).outcome 1 "/tmp".toList getSong noTransfers = some run ∧
        Listed run.transfers [] := by
  have left : ((getCalls [⟨some 1, [some 1]⟩]).outcome 1 "/tmp".toList getSong noTransfers).map
      (fun run => run.transfers.head) = some (some 100) := by decide +kernel
  refine ⟨noTransfers_listed, left, ?_⟩
  rintro ⟨run, returned, listed⟩
  rw [returned, Option.map_some, show run.transfers.head = none from listed] at left
  cases left

/-- A `send` that fails: the listening socket is closed a second time. -/
theorem failed_send_closes_twice :
    ((getCalls [⟨some 1, [none]⟩]).outcome 1 "/tmp".toList getSong noTransfers).map Run.acts =
      some [.opensDir, .closesDir, .opens 4, .opens 5, .opens 6, .closes 5, .closes 5, .closes 6, .closes 4] ∧
      ¬Disciplined
        [.opensDir, .closesDir, .opens 4, .opens 5, .opens 6, .closes 5, .closes 5, .closes 6, .closes 4] :=
  ⟨by decide +kernel, by decide⟩

end Pire2Pire.Resources
