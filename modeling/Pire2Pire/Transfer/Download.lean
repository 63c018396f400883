import Pire2Pire.Library.Runs
import Pire2Pire.Transfer.Handshake

/-! Where downloads go: the names that peers announce, kept in the cache, and the path that
`daemon_requests/daemon_request_ready.c` builds from them. -/
namespace Pire2Pire.Transfer

open Library Protocol

/-! ### The handler of the `ready` message, up to the open -/

/-- How the system calls in front of the open turn out. -/
structure ReadyCalls where
  socket : Bool
  inetPton : CString → Bool

inductive ReadyOutcome where
  | replies (text : CString)
  | givesUp
  /-- `open (full_path, O_WRONLY | O_TRUNC | O_CREAT, 0644)`. -/
  | opens (path : CString)
deriving DecidableEq, Repr

/-- The key is the only argument that is used, besides the address to connect to. -/
def daemonRequestReady (sharedFolder : CString) (cache : FileCache) (calls : ReadyCalls) (cmd : CString) :
    ReadyOutcome :=
  match cmdToArgcArgv cmd with
  | _ :: key :: _delay :: ip :: _port :: _proto :: _begin :: _end :: _ =>
    if !calls.socket then .givesUp
    else if !calls.inetPton ip then .givesUp
    else
      match fileCacheGetByKey cache key with
      | none => .givesUp
      | some file => .opens (sharedFolder ++ '/' :: file.filename)
  | _ => .replies "error daemon_request_ready: Invalid number of arguments".toList

/-! ### Lines from peers -/

/-- The cache and the paths opened for writing so far. -/
structure Receiver where
  fileCache : FileCache
  opened : List CString
deriving DecidableEq

/-- What is read from some peer's connection, and what the system calls do. -/
structure Arrival where
  stream : List Char
  calls : ReadyCalls

/-- Handling one line while `list_client` is set. Lines other than `file` and `ready` neither change the
cache nor open anything for writing. -/
def receive (sharedFolder : CString) (s : Receiver) (e : Arrival) : Option Receiver :=
  match (socketGetline e.stream).1 with
  | none => some s
  | some message =>
    if isCmd message "file".toList then
      (daemonRequestFile true s.fileCache message).map fun (cache, _) => { s with fileCache := cache }
    else if isCmd message "ready".toList then
      match daemonRequestReady sharedFolder s.fileCache e.calls message with
      | .opens path => some { s with opened := path :: s.opened }
      | _ => some s
    else some s

def Receiver.initial : Receiver :=
  ⟨.empty, []⟩

/-- A name that stays in its folder. -/
def SafeName (name : CString) : Prop :=
  '/' ∉ name ∧ name ≠ ['.'] ∧ name ≠ ['.', '.']

/-- The path names a direct child of the folder. -/
def DirectChild (folder path : CString) : Prop :=
  ∃ name, path = folder ++ '/' :: name ∧ name ≠ [] ∧ SafeName name

/-- A line that creates an entry gives it a safe name. -/
def Harmless (s : Receiver) (e : Arrival) : Prop :=
  ∀ cmd name key size ip port, (socketGetline e.stream).1 = some cmd → isCmd cmd "file".toList →
    FileLine cmd name key size ip port → name.length ≤ fileNameSize → key.length = fileKeySize →
    fileCacheGetByKey s.fileCache key = none → SafeName name

/-- Every name in the cache is safe, and so is every path opened. -/
structure Inside (folder : CString) (s : Receiver) : Prop where
  names : ∀ key entry, fileCacheGetByKey s.fileCache key = some entry →
    entry.filename ≠ [] ∧ SafeName entry.filename
  paths : ∀ path ∈ s.opened, DirectChild folder path

variable {folder cmd : CString} {s s' : Receiver} {e : Arrival} {cache' : FileCache} {sent : List Sent}

theorem inside_initial (folder : CString) : Inside folder .initial := by
  constructor
  · intro key entry found
    simp [Receiver.initial, fileCacheGetByKey] at found
  · intro path member
    cases member

/-- What a harmless `file` line leaves in the cache. -/
theorem names_after_file (inside : Inside folder s) (harmless : Harmless s e)
    (got : (socketGetline e.stream).1 = some cmd) (isFile : isCmd cmd "file".toList)
    (handled : daemonRequestFile true s.fileCache cmd = some (cache', sent)) :
    ∀ key entry, fileCacheGetByKey cache' key = some entry →
      entry.filename ≠ [] ∧ SafeName entry.filename := by
  intro key entry found
  -- a line that is not understood leaves the cache as it was
  cases daemonRequestFile_cases handled with
  | inl same => exact inside.names key entry (same ▸ found)
  | inr changed =>
    obtain ⟨-, name, key', size, ip, port, fields, added⟩ := changed
    by_cases own : key = key'
    · subst own
      cases known : fileCacheGetByKey s.fileCache key with
      | none =>
        -- a new entry has the name of the line
        rw [getByKey_add_new added known] at found
        obtain ⟨short, length, rfl⟩ := fileCacheNew_some.mp found
        have safe := harmless cmd name key size ip port got isFile fields short length known
        exact ⟨words_ne_nil fields.mem.1, safe⟩
      -- an entry that was there keeps its name
      | some old =>
        obtain ⟨seeders, kept⟩ := getByKey_add_known added known
        rw [kept, Option.some.injEq] at found
        subst found
        exact inside.names key old known
    · rw [getByKey_add_other added own] at found
      exact inside.names key entry found

/-- The path that is opened is made of a name in the cache. -/
theorem daemonRequestReady_opens {cache : FileCache} {calls : ReadyCalls} {path : CString}
    (opens : daemonRequestReady folder cache calls cmd = .opens path) :
    ∃ key entry, fileCacheGetByKey cache key = some entry ∧ path = folder ++ '/' :: entry.filename := by
  unfold daemonRequestReady at opens
  -- the path is built behind all checks
  split at opens
  next first key delay ip port proto beginning finish rest shape =>
    cases socket : calls.socket with
    | false => simp [socket] at opens
    | true =>
      cases address : calls.inetPton ip with
      | false => simp [socket, address] at opens
      | true =>
        cases found : fileCacheGetByKey cache key with
        | none => simp [socket, address, found] at opens
        | some entry =>
          refine ⟨key, entry, found, ?_⟩
          simpa [socket, address, found, eq_comm] using opens
  · cases opens

theorem inside_step (inside : Inside folder s) (harmless : Harmless s e)
    (taken : receive folder s e = some s') : Inside folder s' := by
  unfold receive at taken
  split at taken
  · cases taken
    exact inside
  next message got =>
    -- by the kind of the line; other lines open nothing and add nothing
    by_cases isFile : isCmd message "file".toList
    · simp only [isFile, if_true, Option.map_eq_some_iff, Prod.exists] at taken
      obtain ⟨cache', sent, handled, rfl⟩ := taken
      exact ⟨names_after_file inside harmless got isFile handled, inside.paths⟩
    · by_cases isReady : isCmd message "ready".toList
      · simp only [isFile, isReady, Bool.false_eq_true, if_false, if_true] at taken
        split at taken
        next path opens =>
          cases taken
          -- the name comes from the cache, so the invariant says that it is safe
          obtain ⟨key, entry, found, rfl⟩ := daemonRequestReady_opens opens
          obtain ⟨nonempty, safe⟩ := inside.names key entry found
          refine ⟨inside.names, ?_⟩
          intro path member
          cases List.mem_cons.mp member with
          | inl new => exact ⟨entry.filename, new, nonempty, safe⟩
          | inr old => exact inside.paths path old
        · cases taken
          exact inside
      · simp only [isFile, isReady, Bool.false_eq_true, if_false, Option.some.injEq] at taken
        exact taken ▸ inside

/-- As long as no line creates an entry with an unsafe name, in whatever order the lines come, every path
opened for a download is a direct child of the shared folder, and every name in the cache is safe. -/
theorem downloads_stay_inside (folder : CString) (events : List Arrival) (s : Receiver)
    (ran : exec (receive folder) .initial events = some s)
    (harmless : Along (receive folder) Harmless .initial events) :
    (∀ path ∈ s.opened, DirectChild folder path) ∧
      ∀ key entry, fileCacheGetByKey s.fileCache key = some entry → SafeName entry.filename := by
  have inside := exec_invariant Harmless (Inside folder)
    (fun _ _ _ inside harmless taken => inside_step inside harmless taken) (inside_initial folder) harmless ran
  exact ⟨inside.paths, fun key entry found => (inside.names key entry found).2⟩

/-- The second token of a `file` line is the name. -/
theorem harmless_of_name (cmd first name : CString) (rest : List CString)
    (got : (socketGetline e.stream).1 = some cmd) (shape : words isADelimiter cmd = first :: name :: rest)
    (safe : SafeName name) : Harmless s e := by
  intro cmd' name' key size ip port got' _ fields _ _ _
  have same : cmd' = cmd := Option.some.inj (got'.symm.trans got)
  subst same
  obtain ⟨first', rest', shape'⟩ := fields.argv
  rw [shape] at shape'
  have named : name' = name := (List.cons.inj (List.cons.inj shape').2).1.symm
  exact named ▸ safe

theorem harmless_of_other (cmd : CString) (got : (socketGetline e.stream).1 = some cmd)
    (other : isCmd cmd "file".toList = false) : Harmless s e := by
  intro cmd' _ _ _ _ _ got' isFile _ _ _ _
  have same : cmd' = cmd := Option.some.inj (got'.symm.trans got)
  subst same
  rw [other] at isFile
  cases isFile

def workingCalls : ReadyCalls :=
  ⟨true, fun ip => ip = "10.0.0.1".toList⟩

/-- A peer announces a file of that name and then says that it is ready. -/
def announceAndSend (name : CString) : List Arrival :=
  [⟨"file ".toList ++ name ++ ' ' :: keyOfAs ++ " 7 10.0.0.1:7331\n".toList, workingCalls⟩,
    ⟨"ready ".toList ++ keyOfAs ++ " 0 10.0.0.1 4242 tcp 0 7\n".toList, workingCalls⟩]

def afterSending (name : CString) : Receiver :=
  ⟨.node ⟨name, keyOfAs, 7, [⟨"10.0.0.1".toList, 7331⟩]⟩ .empty .empty, ["/tmp/".toList ++ name]⟩

theorem song_harmless :
    Along (receive "/tmp".toList) Harmless .initial (announceAndSend "song".toList) := by
  constructor
  · exact harmless_of_name ("file song ".toList ++ keyOfAs ++ " 7 10.0.0.1:7331".toList) "file".toList
      "song".toList [keyOfAs, "7".toList, "10.0.0.1:7331".toList] (by decide +kernel) (by decide +kernel)
      ⟨by decide, by decide, by decide⟩
  · intro t _
    refine ⟨?_, fun _ _ => trivial⟩
    exact harmless_of_other ("ready ".toList ++ keyOfAs ++ " 0 10.0.0.1 4242 tcp 0 7".toList)
      (by decide +kernel) (by decide +kernel)

theorem song_stays_inside :
    (∀ path ∈ (afterSending "song".toList).opened, DirectChild "/tmp".toList path) ∧
      ∀ key entry, fileCacheGetByKey (afterSending "song".toList).fileCache key = some entry →
        SafeName entry.filename :=
  downloads_stay_inside "/tmp".toList (announceAndSend "song".toList) (afterSending "song".toList)
    (by decide +kernel) song_harmless

/-- A name with a slash in it takes the download out of the folder. -/
theorem slash_escapes :
    exec (receive "/tmp".toList) .initial (announceAndSend "../x".toList) = some (afterSending "../x".toList) ∧
      ¬∀ path ∈ (afterSending "../x".toList).opened, DirectChild "/tmp".toList path := by
  refine ⟨by decide +kernel, ?_⟩
  intro inside
  -- what is behind the folder is the name, slash and all
  obtain ⟨name, same, -, noSlash, -⟩ := inside _ List.mem_cons_self
  have whole : "/tmp/../x".toList = "/tmp/".toList ++ name := by
    simpa using same
  have found : name = "../x".toList := by
    simpa [eq_comm] using whole
  exact noSlash (found ▸ by decide)

end Pire2Pire.Transfer
