import Pire2Pire.Library.LockOrder
import Pire2Pire.Requests.Cancellation

/-! All the threads of the daemon that take semaphores, together: the handlers of the client
requests and of the daemon requests, and the threads that read the connections. Calls other than
`sem_wait` return at some time. -/
namespace Pire2Pire.Requests.Deadlock

open Pire2Pire.Library
open Pire2Pire.Library.LockOrder
open Cancellation (Send)

/-- Who is at the other end of a connection. -/
inductive Peer where
  | client (c : Nat)
  | daemon (d : Nat)
  deriving DecidableEq, Repr

inductive Semaphore where
  | listLock
  | daemonsLock
  | downloadsLock
  | uploadsLock
  | clientsLock
  | fileCacheLock
  /-- `seeders_lock` of a node of the file cache -/
  | seedersLock (node : Nat)
  /-- `req_lock` of a client or of a daemon -/
  | reqLock (p : Peer)
  /-- the mutex of a pool -/
  | poolMutex
  /-- `socket_lock` of a client or of a daemon -/
  | socketLock (p : Peer)
  deriving DecidableEq, Repr

/-- The order in which they are taken. -/
def Semaphore.rank : Semaphore → Nat
  | .listLock => 0
  | .daemonsLock => 1
  | .downloadsLock | .uploadsLock | .clientsLock | .fileCacheLock | .seedersLock _ | .reqLock _ => 2
  | .poolMutex | .socketLock _ => 3

/-! ### The requests of a client -/

def Semaphore.of (c : Nat) : Cancellation.Lock → Semaphore
  | .daemonsLock => .daemonsLock
  | .listLock => .listLock
  | .downloadsLock => .downloadsLock
  | .uploadsLock => .uploadsLock
  | .clientsLock => .clientsLock
  | .fileCacheLock => .fileCacheLock
  | .reqLock => .reqLock (.client c)
  | .clientSocket => .socketLock (.client c)
  | .socketLock d => .socketLock (.daemon d)
  | .poolMutex => .poolMutex

/-- What an act of a handler of the client `c` does to the semaphores. -/
def act (c : Nat) : Cancellation.Act → Act Semaphore
  | .wait l _ => .take (.of c l)
  | .post l => .give (.of c l)
  | .call _ | .failed _ => .other

/-- The sends of a request, with the peer each goes to. -/
def clientSends (c : Nat) : Cancellation.Request → List (Peer × Send)
  | .list daemons => daemons.map fun x => (.daemon x.1, x.2)
  | .info clients daemons count requests heading lines =>
    (clients :: daemons :: count :: heading :: (requests ++ lines)).map (.client c, ·)
  | .get .parseFailed => []
  | .get (.badKey answer) | .get (.notCached answer) => [(.client c, answer)]
  | .get (.cached first second daemon) =>
    [(.client c, first), (.client c, second)] ++ daemon.toList.map fun x => (.daemon x.1, x.2)
  | .raw (.syntaxError answer) | .raw (.refused answer) | .raw (.notConnected answer) => [(.client c, answer)]
  | .raw (.forwarded d cmd newline answer) => [(.daemon d, cmd), (.daemon d, newline), (.client c, answer)]
  | .download none_ files | .upload none_ files => (none_ :: files).map (.client c, ·)
  | .connect _ answer => answer.toList.map (.client c, ·)
  | .help answer | .unknown answer => [(.client c, answer)]
  | .set answer => answer.toList.map (.client c, ·)

/-! ### The requests of a daemon -/

/-- `daemon_send` and `client_send`: a failure returns without `sem_post`. -/
def sendTo (p : Peer) (o : Send) : List (Act Semaphore) :=
  .take (.socketLock p) :: List.replicate o.calls .other ++
    if o.failed then [.other, .other] else [.give (.socketLock p)]

def section_ (l : Semaphore) : List (Act Semaphore) := [.take l, .give l]

/-- `daemon_request_list`: the entries of the folder, those without a regular file, a `stat` or a key
being passed over. -/
def daemonRequestList (d : Nat) (entries : List (Option Send)) : List (Act Semaphore) :=
  entries.flatMap fun
    | none => [.other]
    | some o => .other :: sendTo (.daemon d) o ++ [.other]

/-- The ways through `daemon_request_get`. -/
inductive ServePath where
  | refused (answer : Send)
  /-- there is no such file, or no socket to send it through -/
  | unavailable
  /-- the `ready` command has gone out; `send_file` is called if the daemon connects -/
  | announced (ready : Send) (sendFile : Bool)
  deriving DecidableEq, Repr

def daemonRequestGet (d : Nat) : ServePath → List (Act Semaphore)
  | .refused answer => sendTo (.daemon d) answer
  | .unavailable => [.other]
  | .announced ready sendFile =>
    sendTo (.daemon d) ready ++ if sendFile then section_ .uploadsLock ++ [.other] else [.other]

/-- What `file_cache_add` does: the key is new, or it is at a node that has the seeder or not. -/
def fileCacheAdd : Option (Nat × Bool) → List (Act Semaphore)
  | none => [.other]
  | some (node, known) =>
    section_ (.seedersLock node) ++ if known then [] else section_ (.seedersLock node)

/-- The ways through `daemon_request_file`. -/
inductive FilePath where
  | nobodyListing
  | refused (answer : Send)
  | forwarded (cached : Option (Nat × Bool)) (lister : Nat) (answer : Send)
  deriving DecidableEq, Repr

def daemonRequestFile (d : Nat) : FilePath → List (Act Semaphore)
  | .nobodyListing => []
  | .refused answer => sendTo (.daemon d) answer
  | .forwarded cached lister answer => fileCacheAdd cached ++ sendTo (.client lister) answer

/-- `daemon_request_neighbourhood`: an answer for each of the other daemons. -/
def daemonRequestNeighbourhood (d : Nat) (others : List Send) : List (Act Semaphore) :=
  .take .daemonsLock :: (others.flatMap (sendTo (.daemon d)) ++ [.give .daemonsLock])

/-- `daemon_request_neighbour`: the connection may be queued. -/
def daemonRequestNeighbour (calls : Nat) (queued : Bool) : List (Act Semaphore) :=
  .take .daemonsLock ::
    ((List.replicate calls .other ++ if queued then section_ .poolMutex else []) ++ [.give .daemonsLock])

/-- The ways through `daemon_request_ready`. -/
inductive ReadyPath where
  | refused (answer : Send)
  | unavailable
  /-- the transfer is listed; `recv` or `write` fails if it is not complete -/
  | listed (calls : Nat) (complete : Bool)
  deriving DecidableEq, Repr

def daemonRequestReady (d : Nat) : ReadyPath → List (Act Semaphore)
  | .refused answer => sendTo (.daemon d) answer
  | .unavailable => [.other]
  | .listed calls complete =>
    section_ .downloadsLock ++ List.replicate calls .other ++
      if complete then section_ .downloadsLock ++ [.other] else [.other]

/-- A daemon request, with everything its handler depends on. -/
inductive DaemonRequest where
  | list (entries : List (Option Send))
  | get (path : ServePath)
  | file (path : FilePath)
  | neighbourhood (others : List Send)
  | neighbour (calls : Nat) (queued : Bool)
  | ready (path : ReadyPath)
  /-- `daemon_request_unknown`, which does nothing -/
  | unknown
  deriving DecidableEq, Repr

def DaemonRequest.handle (d : Nat) : DaemonRequest → List (Act Semaphore)
  | .list entries => daemonRequestList d entries
  | .get path => daemonRequestGet d path
  | .file path => daemonRequestFile d path
  | .neighbourhood others => daemonRequestNeighbourhood d others
  | .neighbour calls queued => daemonRequestNeighbour calls queued
  | .ready path => daemonRequestReady d path
  | .unknown => []

/-- `daemon_request_handler`. -/
def daemonRequestHandler (d : Nat) (request : DaemonRequest) : List (Act Semaphore) :=
  section_ (.reqLock (.daemon d)) ++ request.handle d ++ section_ (.reqLock (.daemon d))

def daemonSends (d : Nat) : DaemonRequest → List (Peer × Send)
  | .list entries => entries.filterMap fun e => e.map (.daemon d, ·)
  | .get (.refused answer) | .get (.announced answer _) => [(.daemon d, answer)]
  | .get .unavailable => []
  | .file .nobodyListing => []
  | .file (.refused answer) => [(.daemon d, answer)]
  | .file (.forwarded _ lister answer) => [(.client lister, answer)]
  | .neighbourhood others => others.map (.daemon d, ·)
  | .neighbour _ _ => []
  | .ready (.refused answer) => [(.daemon d, answer)]
  | .ready .unavailable | .ready (.listed _ _) => []
  | .unknown => []

/-! ### The connections -/

/-- What becomes of a message in `handle_requests`. -/
inductive Message where
  /-- too many requests are being treated -/
  | refused (answer : Send)
  /-- there is no memory for the request -/
  | notCreated (answer : Send)
  | queued
  deriving DecidableEq, Repr

def Message.sends : Message → List Send
  | .refused answer | .notCreated answer => [answer]
  | .queued => []

/-- The list a connection is in. -/
def Peer.listLock : Peer → Semaphore
  | .client _ => .clientsLock
  | .daemon _ => .daemonsLock

def Message.handle (p : Peer) : Message → List (Act Semaphore)
  | .refused answer => section_ (.reqLock p) ++ sendTo p answer
  | .notCreated answer => section_ (.reqLock p) ++ sendTo p answer
  | .queued => section_ (.reqLock p) ++ section_ (.reqLock p) ++ section_ .poolMutex

/-- `handle_client` and `handle_daemon`, up to the cleanup of the requests that remain. -/
def handleConnection (p : Peer) (messages : List Message) : List (Act Semaphore) :=
  section_ p.listLock ++ messages.flatMap (Message.handle p) ++ section_ p.listLock

/-! ### The daemon -/

inductive Job where
  | clientRequest (c : Nat) (request : Cancellation.Request)
  | daemonRequest (d : Nat) (request : DaemonRequest)
  | connection (p : Peer) (messages : List Message)
  deriving DecidableEq, Repr

def Job.acts : Job → List (Act Semaphore)
  | .clientRequest c request => (Cancellation.clientRequestHandler request).map (act c)
  | .daemonRequest d request => daemonRequestHandler d request
  | .connection p messages => handleConnection p messages

def Job.sends : Job → List (Peer × Send)
  | .clientRequest c request => clientSends c request
  | .daemonRequest d request => daemonSends d request
  | .connection p messages => (messages.flatMap Message.sends).map (p, ·)

/-! ### All of them take the semaphores in order -/

/-- A block takes its semaphores in ascending order, and keeps only the sockets of peers to which one
of the sends fails. -/
def Orderly (sends : List (Peer × Send)) (owed : List Semaphore) (acts : List (Act Semaphore))
    (after : List Semaphore) : Prop :=
  ∃ kept, Ascends Semaphore.rank owed acts after kept ∧
    ∀ l ∈ kept, ∃ p o, l = .socketLock p ∧ (p, o) ∈ sends ∧ o.failed = true

section

variable {sends : List (Peer × Send)} {owed middle after : List Semaphore} {xs ys : List (Act Semaphore)}
  {l : Semaphore} {p : Peer} {o : Send} {c d : Nat}

theorem Orderly.nil : Orderly sends owed [] owed := ⟨[], .nil, by simp⟩

theorem Orderly.append (first : Orderly sends owed xs middle) (second : Orderly sends middle ys after) :
    Orderly sends owed (xs ++ ys) after := by
  obtain ⟨kept, ascends, failing⟩ := first
  obtain ⟨kept', ascends', failing'⟩ := second
  refine ⟨kept ++ kept', ascends.append ascends', ?_⟩
  intro l member
  rcases List.mem_append.mp member with here | there
  · exact failing l here
  · exact failing' l there

theorem Orderly.other : Orderly sends owed [.other] owed := ⟨[], .other .nil, by simp⟩

theorem Orderly.others (n : Nat) : Orderly sends owed (List.replicate n .other) owed :=
  ⟨[], .others n, by simp⟩

theorem Orderly.take (above : ∀ k ∈ owed, k.rank < l.rank) : Orderly sends owed [.take l] (l :: owed) :=
  ⟨[], .take above .nil, by simp⟩

theorem Orderly.give : Orderly sends (l :: owed) [.give l] owed := ⟨[], .give .nil, by simp⟩

theorem Orderly.section_ (above : ∀ k ∈ owed, k.rank < l.rank) : Orderly sends owed (section_ l) owed :=
  (Orderly.take above).append .give

theorem Orderly.around (above : ∀ k ∈ owed, k.rank < l.rank) (inner : Orderly sends (l :: owed) xs (l :: owed)) :
    Orderly sends owed (.take l :: (xs ++ [.give l])) owed :=
  (Orderly.take above).append (inner.append .give)

theorem Orderly.flatMap {α : Type} {f : α → List (Act Semaphore)} {items : List α}
    (each : ∀ x ∈ items, Orderly sends owed (f x) owed) : Orderly sends owed (items.flatMap f) owed := by
  induction items with
  | nil => exact .nil
  | cons x items ih =>
    exact (each x List.mem_cons_self).append (ih fun y member => each y (List.mem_cons_of_mem _ member))

/-- A send takes the socket when all that is held has a lower rank, and keeps it if it fails. -/
theorem Orderly.sendTo (among : (p, o) ∈ sends) (above : ∀ k ∈ owed, k.rank < 3) :
    Orderly sends owed (sendTo p o) owed := by
  cases failed : o.failed with
  | true =>
    refine ⟨[.socketLock p], ?_, ?_⟩
    · have calls : Ascends Semaphore.rank owed (List.replicate o.calls .other ++ [.other, .other]) owed [] :=
        (Ascends.others o.calls).append (.other (.other .nil))
      simpa [Deadlock.sendTo, failed] using Ascends.keep above calls
    · intro l member
      exact ⟨p, o, List.mem_singleton.mp member, among, failed⟩
  | false =>
    have calls : Orderly sends (.socketLock p :: owed) (List.replicate o.calls .other) (.socketLock p :: owed) :=
      .others o.calls
    simpa [Deadlock.sendTo, failed] using calls.around above

/-! #### The requests of a client -/

theorem map_daemonSend (enter send : Cancellation.Site) :
    (Cancellation.daemonSend enter send d o).map (act c) =
      .other :: (sendTo (.daemon d) o ++ if o.failed then [.other] else []) := by
  cases failed : o.failed <;> simp [Cancellation.daemonSend, sendTo, act, Semaphore.of, failed]

theorem map_clientSend (site : Cancellation.Site) :
    (Cancellation.clientSend site o).map (act c) = sendTo (.client c) o := by
  cases failed : o.failed <;> simp [Cancellation.clientSend, sendTo, act, Semaphore.of, failed]

theorem daemonSend_orderly (enter send : Cancellation.Site) (among : (.daemon d, o) ∈ sends)
    (above : ∀ k ∈ owed, k.rank < 3) :
    Orderly sends owed ((Cancellation.daemonSend enter send d o).map (act c)) owed := by
  rw [map_daemonSend]
  refine Orderly.other.append ((Orderly.sendTo among above).append ?_)
  split
  · exact .other
  · exact .nil

theorem clientSend_orderly (site : Cancellation.Site) (among : (.client c, o) ∈ sends)
    (above : ∀ k ∈ owed, k.rank < 3) :
    Orderly sends owed ((Cancellation.clientSend site o).map (act c)) owed := by
  rw [map_clientSend]
  exact .sendTo among above

theorem reply_orderly (site : Cancellation.Site) (among : (.client c, o) ∈ sends)
    (above : ∀ k ∈ owed, k.rank < 3) :
    Orderly sends owed ((Cancellation.reply site o).map (act c)) owed := by
  rw [Cancellation.reply, List.map_append]
  refine (clientSend_orderly site among above).append ?_
  split
  · exact .other
  · exact .nil

theorem section_orderly (l : Cancellation.Lock) (site : Cancellation.Site) :
    Orderly sends [] ([Cancellation.Act.wait l site, .post l].map (act c)) [] :=
  Orderly.section_ (l := .of c l) (by simp)

theorem transfers_orderly (l : Cancellation.Lock) (lower : (Semaphore.of c l).rank < 3) (enter send : Cancellation.Site)
    (none_ : Send) (files : List Send) (among : ∀ o ∈ none_ :: files, (.client c, o) ∈ sends) :
    Orderly sends [] ((Cancellation.transfers l enter send none_ files).map (act c)) [] := by
  have held : ∀ k ∈ [Semaphore.of c l], k.rank < 3 := by simpa using lower
  simp only [Cancellation.transfers, List.map_append, List.append_assoc]
  refine Orderly.around (by simp) ?_
  split
  · exact reply_orderly send (among _ List.mem_cons_self) held
  · rw [List.map_flatMap]
    refine Orderly.flatMap fun o member => ?_
    exact Orderly.other.append (reply_orderly send (among o (List.mem_cons_of_mem _ member)) held)

theorem clientRequest_orderly (c : Nat) (request : Cancellation.Request) :
    Orderly (clientSends c request) [] (request.handle.map (act c)) [] := by
  cases request with
  | list daemons =>
    simp only [Cancellation.Request.handle, Cancellation.clientRequestList, List.map_append, List.map_flatMap]
    have enter : Orderly (clientSends c (.list daemons)) [] ([Cancellation.Act.wait .listLock .listWait,
        .wait .daemonsLock .listDaemons].map (act c)) [.daemonsLock, .listLock] :=
      (Orderly.take (l := .listLock) (by simp)).append
        (Orderly.take (l := .daemonsLock) (by simp [Semaphore.rank]))
    refine (enter.append (Orderly.flatMap fun x member => daemonSend_orderly _ _ ?_ ?_)).append
      (Orderly.give.append (Orderly.give.append .other))
    · exact List.mem_map_of_mem (f := fun x : Nat × Send => (Peer.daemon x.1, x.2)) member
    · simp [Semaphore.rank]
  | info clients daemons count requests heading lines =>
    have told : ∀ o ∈ clients :: daemons :: count :: heading :: (requests ++ lines), ∀ site owed,
        (∀ k ∈ owed, Semaphore.rank k < 3) →
          Orderly (clientSends c (.info clients daemons count requests heading lines)) owed
            ((Cancellation.clientSend site o).map (act c)) owed :=
      fun o member site owed above => clientSend_orderly site (List.mem_map_of_mem member) above
    have listing : ∀ k ∈ [Semaphore.reqLock (.client c)], k.rank < 3 := by simp [Semaphore.rank]
    have knowing : ∀ k ∈ [Semaphore.daemonsLock], k.rank < 3 := by simp [Semaphore.rank]
    simp only [Cancellation.Request.handle, Cancellation.clientRequestInfo, List.map_append, List.map_flatMap]
    refine Orderly.append (Orderly.append (Orderly.append (Orderly.append (Orderly.append (Orderly.append
      (Orderly.append (Orderly.append (Orderly.append (Orderly.take (l := .reqLock (.client c)) (by simp))
      (told clients (by simp) _ _ listing)) (told daemons (by simp) _ _ listing))
      (told count (by simp) _ _ listing)) (Orderly.flatMap ?_)) Orderly.give)
      (told heading (by simp) _ _ (by simp))) (Orderly.take (l := .daemonsLock) (by simp)))
      (Orderly.flatMap ?_)) Orderly.give
    · exact fun o member => told o (by simp [member]) _ _ listing
    · exact fun o member => told o (by simp [member]) _ _ knowing
  | get path =>
    have looked : ∀ sends, Orderly sends []
        ([Cancellation.Act.wait .fileCacheLock .getCache, .post .fileCacheLock].map (act c)) [] :=
      fun sends => section_orderly _ _
    cases path with
    | parseFailed => exact .nil
    | badKey answer => exact reply_orderly _ (by simp [clientSends]) (by simp)
    | notCached answer =>
      simp only [Cancellation.Request.handle, Cancellation.clientRequestGet, List.map_append]
      exact (looked _).append (reply_orderly _ (by simp [clientSends]) (by simp))
    | cached first second daemon =>
      simp only [Cancellation.Request.handle, Cancellation.clientRequestGet, List.map_append]
      refine ((looked _).append (reply_orderly _ (by simp [clientSends]) (by simp))).append ?_
      split
      · exact .nil
      · rw [List.map_append]
        refine (reply_orderly _ (by simp [clientSends]) (by simp)).append ?_
        split
        · exact .nil
        · cases daemon with
          | none => exact section_orderly _ _
          | some x =>
            simp only [Cancellation.askDaemon, List.map_append]
            refine ((section_orderly _ _).append (daemonSend_orderly _ _ (by simp [clientSends]) (by simp))).append ?_
            split
            · exact .other
            · exact .nil
  | raw path =>
    have trusted : ∀ sends, Orderly sends []
        ([Cancellation.Act.wait .clientsLock .rawClients, .post .clientsLock].map (act c)) [] :=
      fun sends => section_orderly _ _
    have entered : ∀ sends, Orderly sends [] ([Cancellation.Act.wait .clientsLock .rawClients, .post .clientsLock,
        .wait .daemonsLock .rawDaemons].map (act c)) [.daemonsLock] :=
      fun sends => (trusted sends).append (Orderly.take (l := .daemonsLock) (by simp))
    have knowing : ∀ k ∈ [Semaphore.daemonsLock], k.rank < 3 := by simp [Semaphore.rank]
    cases path with
    | syntaxError answer => exact clientSend_orderly _ (by simp [clientSends]) (by simp)
    | refused answer =>
      simp only [Cancellation.Request.handle, Cancellation.clientRequestRaw, List.map_append]
      exact (trusted _).append (clientSend_orderly _ (by simp [clientSends]) (by simp))
    | notConnected answer =>
      simp only [Cancellation.Request.handle, Cancellation.clientRequestRaw, List.map_append]
      exact ((entered _).append (clientSend_orderly _ (by simp [clientSends]) knowing)).append .give
    | forwarded d cmd newline answer =>
      simp only [Cancellation.Request.handle, Cancellation.clientRequestRaw, List.map_append]
      exact ((((entered _).append (daemonSend_orderly _ _ (by simp [clientSends]) knowing)).append
        (daemonSend_orderly _ _ (by simp [clientSends]) knowing)).append
        (clientSend_orderly _ (by simp [clientSends]) knowing)).append .give
  | download none_ files =>
    exact transfers_orderly .downloadsLock (Nat.lt_succ_self 2) _ _ _ _ fun o member => List.mem_map_of_mem member
  | upload none_ files =>
    exact transfers_orderly .uploadsLock (Nat.lt_succ_self 2) _ _ _ _ fun o member => List.mem_map_of_mem member
  | connect calls answer =>
    simp only [Cancellation.Request.handle, List.map_append, List.map_replicate]
    refine (Orderly.others calls).append ?_
    cases answer with
    | none => exact .nil
    | some o => exact reply_orderly _ (by simp [clientSends]) (by simp)
  | help answer => exact clientSend_orderly _ (by simp [clientSends]) (by simp)
  | set answer =>
    cases answer with
    | none => exact .other
    | some o => exact reply_orderly _ (by simp [clientSends]) (by simp)
  | unknown answer => exact reply_orderly _ (by simp [clientSends]) (by simp)

/-! #### The requests of a daemon, and the connections -/

theorem fileCacheAdd_orderly (cached : Option (Nat × Bool)) : Orderly sends [] (fileCacheAdd cached) [] := by
  match cached with
  | none => exact .other
  | some (node, known) =>
    refine (Orderly.section_ (by simp)).append ?_
    split
    · exact .nil
    · exact .section_ (by simp)

theorem daemonRequest_orderly (d : Nat) (request : DaemonRequest) :
    Orderly (daemonSends d request) [] (request.handle d) [] := by
  have knowing : ∀ k ∈ [Semaphore.daemonsLock], k.rank < 3 := by simp [Semaphore.rank]
  cases request with
  | list entries =>
    refine Orderly.flatMap fun e member => ?_
    cases e with
    | none => exact .other
    | some o =>
      have among : (Peer.daemon d, o) ∈ daemonSends d (.list entries) :=
        List.mem_filterMap.mpr ⟨some o, member, rfl⟩
      exact Orderly.other.append ((Orderly.sendTo among (by simp)).append .other)
  | get path =>
    cases path with
    | refused answer => exact .sendTo (by simp [daemonSends]) (by simp)
    | unavailable => exact .other
    | announced ready sendFile =>
      refine (Orderly.sendTo (by simp [daemonSends]) (by simp)).append ?_
      split
      · exact (Orderly.section_ (by simp)).append .other
      · exact .other
  | file path =>
    cases path with
    | nobodyListing => exact .nil
    | refused answer => exact .sendTo (by simp [daemonSends]) (by simp)
    | forwarded cached lister answer =>
      exact (fileCacheAdd_orderly cached).append (.sendTo (by simp [daemonSends]) (by simp))
  | neighbourhood others =>
    refine Orderly.around (by simp) (Orderly.flatMap fun o member => ?_)
    exact .sendTo (List.mem_map_of_mem member) knowing
  | neighbour calls queued =>
    refine Orderly.around (by simp) ((Orderly.others calls).append ?_)
    split
    · exact .section_ (by simp [Semaphore.rank])
    · exact .nil
  | ready path =>
    cases path with
    | refused answer => exact .sendTo (by simp [daemonSends]) (by simp)
    | unavailable => exact .other
    | listed calls complete =>
      refine ((Orderly.section_ (by simp)).append (.others calls)).append ?_
      split
      · exact (Orderly.section_ (by simp)).append .other
      · exact .other
  | unknown => exact .nil

theorem connection_orderly (p : Peer) (messages : List Message) :
    Orderly ((messages.flatMap Message.sends).map (p, ·)) [] (handleConnection p messages) [] := by
  have alone : ∀ l, Orderly ((messages.flatMap Message.sends).map (p, ·)) [] (Deadlock.section_ l) [] :=
    fun l => .section_ (by simp)
  refine ((alone _).append (Orderly.flatMap fun m member => ?_)).append (alone _)
  have among : ∀ o ∈ m.sends, (p, o) ∈ (messages.flatMap Message.sends).map (p, ·) :=
    fun o sent => List.mem_map_of_mem (List.mem_flatMap.mpr ⟨m, member, sent⟩)
  cases m with
  | refused answer => exact (alone _).append (.sendTo (among _ (by simp [Message.sends])) (by simp))
  | notCreated answer => exact (alone _).append (.sendTo (among _ (by simp [Message.sends])) (by simp))
  | queued => exact ((alone _).append (alone _)).append (alone _)

theorem job_orderly (job : Job) : Orderly job.sends [] job.acts [] := by
  cases job with
  | clientRequest c request =>
    simp only [Job.acts, Cancellation.clientRequestHandler, List.map_append]
    exact ((section_orderly _ _).append (clientRequest_orderly c request)).append (section_orderly _ _)
  | daemonRequest d request =>
    exact ((Orderly.section_ (by simp)).append (daemonRequest_orderly d request)).append (.section_ (by simp))
  | connection p messages => exact connection_orderly p messages

end

/-! ### Runs of the daemon -/

/-- The sockets that a job keeps. -/
theorem jobs_ordered : ∃ wasted, Ordered Job.acts Semaphore.rank wasted ∧
    ∀ job, ∀ l ∈ wasted job, ∃ p o, l = .socketLock p ∧ (p, o) ∈ job.sends ∧ o.failed = true :=
  ⟨fun job => (job_orderly job).choose, fun job => (job_orderly job).choose_spec.1,
    fun job => (job_orderly job).choose_spec.2⟩

variable {s s' : State Semaphore Job} {events : List (Event Job)}

def failingList : Job := .clientRequest 0 (.list [(7, ⟨0, true⟩)])

def secondList : Job := .clientRequest 1 (.list [(7, ⟨1, false⟩)])

/-- The first request runs to its end, the second one to the socket. -/
def twoLists : List (Event Job) :=
  .start failingList :: List.replicate 14 (.advance 0) ++ .start secondList :: List.replicate 5 (.advance 1)

def afterTwoLists : State Semaphore Job := (exec (step Job.acts) idle twoLists).getD idle

theorem twoLists_ran : exec (step Job.acts) idle twoLists = some afterTwoLists := rfl

theorem twoLists_threads : afterTwoLists.threads = [⟨failingList, 14⟩, ⟨secondList, 5⟩] := rfl

theorem twoLists_stuck : Stuck Job.acts afterTwoLists := by
  intro i
  match i with
  | 0 => rfl
  | 1 => rfl
  | i + 2 => simp [step, twoLists_threads]

/-- A third request has started. -/
def afterThreeLists : State Semaphore Job :=
  (exec (step Job.acts) afterTwoLists [.start secondList, .advance 2]).getD idle

/-- Two requests that send to the same daemon, in the middle of their runs. -/
def twoSends : List (Event Job) :=
  [.start secondList, .start secondList, .advance 0, .advance 0, .advance 1]

def afterTwoSends : State Semaphore Job := (exec (step Job.acts) idle twoSends).getD idle

theorem twoSends_ran : exec (step Job.acts) idle twoSends = some afterTwoSends := rfl

end Pire2Pire.Requests.Deadlock
