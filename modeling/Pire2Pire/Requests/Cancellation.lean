import Mathlib.Algebra.Order.Ring.Int
import Mathlib.Data.List.Basic
import Mathlib.Data.List.Count

/-! What a client request handler leaves locked when `pool_kill` cancels it.

A handler is the list of what it does with semaphores, with a mark at every call at which a pending
cancellation is acted upon. The outcomes of the system calls, the daemons and the transfers it walks
over are its parameters, so that every path of the handler is one value of them. -/
namespace Pire2Pire.Requests.Cancellation

inductive Lock where
  | daemonsLock
  | listLock
  | downloadsLock
  | uploadsLock
  | clientsLock
  | fileCacheLock
  /-- `req_lock` of the client that made the request -/
  | reqLock
  /-- `socket_lock` of that client -/
  | clientSocket
  /-- `socket_lock` of a daemon -/
  | socketLock (d : Nat)
  /-- the mutex of the pool -/
  | poolMutex
  deriving DecidableEq, Repr

/-- The places of the source that hold cancellation points. -/
inductive Site where
  /-- `client_request_handler`: its two waits for `req_lock` -/
  | handler
  | listWait
  /-- `client_request_list`: the wait for `daemons_lock`, with `list_lock` taken -/
  | listDaemons
  /-- `daemon_send` in `client_request_list`, up to its wait for `socket_lock` -/
  | listEnterSend
  /-- the same, with `socket_lock` taken -/
  | listSend (d : Nat)
  | listEnd
  | infoWait
  | infoSend
  | infoDaemons
  /-- `client_send` in the loop of `client_request_info` over the daemons -/
  | infoDaemon
  | getReply
  | getCache
  | getDaemons
  /-- `daemon_send` in `client_request_get`, up to its wait for `socket_lock` -/
  | getEnterSend
  | getSend (d : Nat)
  | getEnd
  | rawReply
  | rawClients
  | rawDaemons
  | rawEnterSend
  | rawSend (d : Nat)
  /-- the last `client_send` of `client_request_raw` -/
  | rawAnswer
  | downloadWait
  | downloadSend
  | uploadWait
  | uploadSend
  | connectCall
  | connectReply
  | helpSend
  | setPrint
  | setReply
  | unknownReply
  deriving DecidableEq, Repr

inductive Act where
  /-- `sem_wait`, itself a cancellation point -/
  | wait (l : Lock) (site : Site)
  | post (l : Lock)
  /-- another call at which a cancellation is acted upon: `send`, `connect`, `stat`, a log line -/
  | call (site : Site)
  /-- a `send` to the daemon has failed -/
  | failed (d : Nat)
  deriving DecidableEq, Repr

/-- The cancellation points. -/
def Act.site : Act → Option Site
  | .wait _ site | .call site => some site
  | .post _ | .failed _ => none

/-- A loop of `send` calls: how many succeed, and whether one more fails. -/
structure Send where
  calls : Nat
  failed : Bool
  deriving DecidableEq, Repr

/-- `daemon_send`: a log line, `socket_lock`, the loop. A failure returns without `sem_post`. -/
def daemonSend (enter send : Site) (d : Nat) (o : Send) : List Act :=
  [.call enter, .wait (.socketLock d) enter] ++ List.replicate o.calls (.call send) ++
    if o.failed then [.call send, .failed d, .call send] else [.post (.socketLock d)]

/-- `client_send`, with the same shape. -/
def clientSend (site : Site) (o : Send) : List Act :=
  .wait .clientSocket site :: List.replicate o.calls (.call site) ++
    if o.failed then [.call site, .call site] else [.post .clientSocket]

/-- `client_send`, with a log line if it fails. -/
def reply (site : Site) (o : Send) : List Act :=
  clientSend site o ++ if o.failed then [.call site] else []

/-! ### The handlers -/

/-- `client_request_list`, for the daemons of the list and what happens to each send. -/
def clientRequestList (daemons : List (Nat × Send)) : List Act :=
  [.wait .listLock .listWait, .wait .daemonsLock .listDaemons] ++
    daemons.flatMap (fun x => daemonSend .listEnterSend (.listSend x.1) x.1 x.2) ++
    [.post .daemonsLock, .post .listLock, .call .listEnd]

/-- `client_request_info`: three counts and a line for each request under `req_lock`, then a
heading, and a line for each daemon under `daemons_lock`. -/
def clientRequestInfo (clients daemons count : Send) (requests : List Send) (heading : Send)
    (lines : List Send) : List Act :=
  [.wait .reqLock .infoWait] ++ clientSend .infoSend clients ++ clientSend .infoSend daemons ++
    clientSend .infoSend count ++ requests.flatMap (clientSend .infoSend) ++ [.post .reqLock] ++
    clientSend .infoSend heading ++ [.wait .daemonsLock .infoDaemons] ++
    lines.flatMap (clientSend .infoDaemon) ++ [.post .daemonsLock]

/-- The ways through `client_request_get`. -/
inductive GetPath where
  | parseFailed
  /-- no key, or a key of another length -/
  | badKey (answer : Send)
  | notCached (answer : Send)
  /-- the file is cached: the answer goes out twice, then the daemon (if any) is asked -/
  | cached (first second : Send) (daemon : Option (Nat × Send))
  deriving DecidableEq, Repr

/-- `find_daemon` and the rest of `client_request_get`. -/
def askDaemon : Option (Nat × Send) → List Act
  | none => [.wait .daemonsLock .getDaemons, .post .daemonsLock]
  | some (d, o) =>
    [.wait .daemonsLock .getDaemons, .post .daemonsLock] ++ daemonSend .getEnterSend (.getSend d) d o ++
      if o.failed then [.call .getEnd] else []

def clientRequestGet : GetPath → List Act
  | .parseFailed => []
  | .badKey answer => reply .getReply answer
  | .notCached answer => [.wait .fileCacheLock .getCache, .post .fileCacheLock] ++ reply .getReply answer
  | .cached first second daemon =>
    [.wait .fileCacheLock .getCache, .post .fileCacheLock] ++ reply .getReply first ++
      if first.failed then []
      else reply .getReply second ++ if second.failed then [] else askDaemon daemon

/-- The ways through `client_request_raw`. -/
inductive RawPath where
  | syntaxError (answer : Send)
  /-- not from 127.0.0.1, or not IP:PORT -/
  | refused (answer : Send)
  | notConnected (answer : Send)
  | forwarded (d : Nat) (cmd newline answer : Send)
  deriving DecidableEq, Repr

def clientRequestRaw : RawPath → List Act
  | .syntaxError answer => clientSend .rawReply answer
  | .refused answer =>
    [.wait .clientsLock .rawClients, .post .clientsLock] ++ clientSend .rawReply answer
  | .notConnected answer =>
    [.wait .clientsLock .rawClients, .post .clientsLock, .wait .daemonsLock .rawDaemons] ++
      clientSend .rawAnswer answer ++ [.post .daemonsLock]
  | .forwarded d cmd newline answer =>
    [.wait .clientsLock .rawClients, .post .clientsLock, .wait .daemonsLock .rawDaemons] ++
      daemonSend .rawEnterSend (.rawSend d) d cmd ++ daemonSend .rawEnterSend (.rawSend d) d newline ++
      clientSend .rawAnswer answer ++ [.post .daemonsLock]

/-- The common form of `client_request_download` and `client_request_upload`: a line for each
transfer, or one line that there is none. -/
def transfers (lock : Lock) (enter send : Site) (none_ : Send) (files : List Send) : List Act :=
  [.wait lock enter] ++
    (if files.isEmpty then reply send none_
      else files.flatMap fun o => .call send :: reply send o) ++
    [.post lock]

def clientRequestDownload : Send → List Send → List Act := transfers .downloadsLock .downloadWait .downloadSend

def clientRequestUpload : Send → List Send → List Act := transfers .uploadsLock .uploadWait .uploadSend

/-- A client request, with everything its handler depends on. -/
inductive Request where
  | list (daemons : List (Nat × Send))
  | info (clients daemons count : Send) (requests : List Send) (heading : Send) (lines : List Send)
  | get (path : GetPath)
  | raw (path : RawPath)
  | download (none_ : Send) (files : List Send)
  | upload (none_ : Send) (files : List Send)
  /-- a number of calls (`connect`, the identification, log lines), and the answer if the line is parsed -/
  | connect (calls : Nat) (answer : Option Send)
  | help (answer : Send)
  /-- the answer, or a message on the standard output -/
  | set (answer : Option Send)
  | unknown (answer : Send)
  deriving DecidableEq, Repr

def Request.handle : Request → List Act
  | .list daemons => clientRequestList daemons
  | .info clients daemons count requests heading lines =>
    clientRequestInfo clients daemons count requests heading lines
  | .get path => clientRequestGet path
  | .raw path => clientRequestRaw path
  | .download none_ files => clientRequestDownload none_ files
  | .upload none_ files => clientRequestUpload none_ files
  | .connect calls answer =>
    List.replicate calls (.call .connectCall) ++
      match answer with
      | some o => reply .connectReply o
      | none => []
  | .help answer => clientSend .helpSend answer
  | .set (some answer) => reply .setReply answer
  | .set none => [.call .setPrint]
  | .unknown answer => reply .unknownReply answer

/-- `client_request_handler`. -/
def clientRequestHandler (request : Request) : List Act :=
  [.wait .reqLock .handler, .post .reqLock] ++ request.handle ++ [.wait .reqLock .handler, .post .reqLock]

/-- What `worker_thread` still does when it is cancelled in a job: `job_cleanup` and
`worker_cleanup`. -/
def workerCleanup : List Act := [.wait .poolMutex .handler, .post .poolMutex]

/-! ### What is left locked -/

/-- By how much an act lowers the value of a semaphore. -/
def Act.takes (l : Lock) : Act → Int
  | .wait l' _ => if l' = l then 1 else 0
  | .post l' => if l' = l then -1 else 0
  | .call _ | .failed _ => 0

/-- How often a semaphore was taken and not released. -/
def held (acts : List Act) (l : Lock) : Int := (acts.map (Act.takes l)).sum

/-- The semaphores that other requests need, given the daemons that are still connected. -/
def Lock.shared (connected : Nat → Bool) : Lock → Bool
  | .daemonsLock | .listLock | .downloadsLock | .uploadsLock => true
  | .socketLock d => connected d
  | .clientsLock | .fileCacheLock | .reqLock | .clientSocket | .poolMutex => false

/-- A thread that did `acts` and exited has left the shared semaphores as if it had never taken them. -/
def Released (connected : Nat → Bool) (acts : List Act) : Prop :=
  ∀ l, l.shared connected = true → held acts l = 0

/-- The places that lie between the `sem_wait` and the `sem_post` of a shared semaphore. -/
def Site.exposed (connected : Nat → Bool) : Site → Bool
  | .listDaemons | .listEnterSend | .listSend _ | .infoDaemon | .rawEnterSend | .rawSend _ | .rawAnswer
  | .downloadSend | .uploadSend => true
  | .getSend d => connected d
  | _ => false

/-! ### Blocks

A block is described by what the thread holds before and after it: some of the global semaphores,
and perhaps the socket of the daemon it is sending to. The sockets of daemons to which a send has
failed come on top of that. -/

/-- The semaphores that are not a daemon's. -/
def Lock.global : Lock → Bool
  | .daemonsLock | .listLock | .downloadsLock | .uploadsLock => true
  | .socketLock _ | .clientsLock | .fileCacheLock | .reqLock | .clientSocket | .poolMutex => false

structure Level where
  locks : List Lock
  socket : Option Nat

/-- Something is held that other requests need. -/
def Level.exposed (connected : Nat → Bool) (level : Level) : Bool :=
  !level.locks.isEmpty || level.socket.any connected

/-- The thread that has done `acts` is at the level. -/
structure Level.At (level : Level) (acts : List Act) : Prop where
  global : ∀ l, l.global = true → held acts l = level.locks.count l
  sockets : ∀ d, held acts (.socketLock d) =
    acts.count (.failed d) + if level.socket = some d then 1 else 0
  onlyGlobal : ∀ l ∈ level.locks, l.global = true

/-- No send has failed to a daemon that is still connected. -/
def NoFailure (connected : Nat → Bool) (acts : List Act) : Prop :=
  ∀ d, connected d = true → Act.failed d ∉ acts

variable {connected : Nat → Bool} {pre acts : List Act} {level level₁ level₂ level₃ : Level}
  {site : Site} {l : Lock} {d : Nat}

theorem shared_of_global (connected : Nat → Bool) (isGlobal : l.global = true) :
    l.shared connected = true := by
  cases l <;> first | rfl | simp [Lock.global] at isGlobal

theorem held_append (xs ys : List Act) (l : Lock) : held (xs ++ ys) l = held xs l + held ys l := by
  simp [held]

theorem Level.exposed_eq_false : level.exposed connected = false ↔
    level.locks = [] ∧ ∀ d, level.socket = some d → connected d = false := by
  cases level with
  | mk locks socket => cases socket <;> simp [Level.exposed]

theorem released_iff (at_ : level.At acts) :
    Released connected acts ↔ level.exposed connected = false ∧ NoFailure connected acts := by
  obtain ⟨global, sockets, onlyGlobal⟩ := at_
  rw [Level.exposed_eq_false]
  constructor
  · intro released
    refine ⟨⟨?_, ?_⟩, ?_⟩
    · rw [List.eq_nil_iff_forall_not_mem]
      intro l member
      have zero := released l (shared_of_global connected (onlyGlobal l member))
      rw [global l (onlyGlobal l member)] at zero
      exact absurd member (List.count_eq_zero.mp (by exact_mod_cast zero))
    · intro d sending
      by_contra alive
      have zero := released (.socketLock d) (by simpa [Lock.shared] using alive)
      rw [sockets, if_pos sending] at zero
      omega
    · intro d alive
      have zero := released (.socketLock d) alive
      rw [sockets] at zero
      apply List.count_eq_zero.mp
      split at zero <;> omega
  · rintro ⟨⟨empty, notSending⟩, noFailure⟩ l shared
    cases l with
    | socketLock d =>
      have idle : level.socket ≠ some d := by
        intro sending
        have dead := notSending d sending
        simp only [Lock.shared] at shared
        simp [shared] at dead
      rw [sockets, List.count_eq_zero.mpr (noFailure d shared), if_neg idle]
      rfl
    | daemonsLock | listLock | downloadsLock | uploadsLock =>
      rw [global _ rfl, empty]
      rfl
    | clientsLock | fileCacheLock | reqLock | clientSocket | poolMutex => simp [Lock.shared] at shared

/-- At every cancellation point of a list of acts that are done after `pre`, the table says
whether something is left locked. -/
def Tells (connected : Nat → Bool) (pre : List Act) : List Act → Prop
  | [] => True
  | a :: rest =>
    (∀ site, a.site = some site →
      (Released connected pre ↔ site.exposed connected = false ∧ NoFailure connected pre)) ∧
    Tells connected (pre ++ [a]) rest

theorem tells_append (xs ys : List Act) :
    Tells connected pre (xs ++ ys) ↔ Tells connected pre xs ∧ Tells connected (pre ++ xs) ys := by
  induction xs generalizing pre with
  | nil => simp [Tells]
  | cons a xs ih => simp [Tells, ih, and_assoc]

/-- A block that leads from one level to another. -/
def Spans (connected : Nat → Bool) (before : Level) (block : List Act) (after : Level) : Prop :=
  ∀ pre, before.At pre → Tells connected pre block ∧ after.At (pre ++ block)

theorem Spans.nil : Spans connected level [] level := by
  intro pre at_
  simpa [Tells] using at_

theorem Spans.append {xs ys : List Act} (first : Spans connected level₁ xs level₂)
    (second : Spans connected level₂ ys level₃) : Spans connected level₁ (xs ++ ys) level₃ := by
  intro pre at₁
  obtain ⟨tells, at₂⟩ := first pre at₁
  obtain ⟨tells', at₃⟩ := second _ at₂
  exact ⟨(tells_append xs ys).mpr ⟨tells, tells'⟩, by simpa using at₃⟩

theorem Spans.flatMap {α : Type} {f : α → List Act} (each : ∀ x, Spans connected level (f x) level)
    (xs : List α) : Spans connected level (xs.flatMap f) level := by
  induction xs with
  | nil => exact Spans.nil
  | cons x xs ih =>
    rw [List.flatMap_cons]
    exact (each x).append ih

/-- One act, at a place whose exposure fits the level. -/
theorem Spans.single {a : Act}
    (fits : ∀ site, a.site = some site → site.exposed connected = level₁.exposed connected)
    (effect : ∀ pre, level₁.At pre → level₂.At (pre ++ [a])) : Spans connected level₁ [a] level₂ := by
  intro pre at_
  refine ⟨⟨?_, trivial⟩, effect pre at_⟩
  intro site point
  rw [released_iff at_, fits site point]

/-- The effect of one act on the level. -/
theorem Level.At.act {a : Act} (at_ : level₁.At pre)
    (global : ∀ l, l.global = true → (level₂.locks.count l : Int) = level₁.locks.count l + a.takes l)
    (sockets : ∀ d, (if level₁.socket = some d then 1 else 0) + a.takes (.socketLock d) =
      (if a = .failed d then 1 else 0) + if level₂.socket = some d then 1 else 0)
    (onlyGlobal : ∀ l ∈ level₂.locks, l.global = true) : level₂.At (pre ++ [a]) := by
  refine ⟨?_, ?_, onlyGlobal⟩
  · intro l isGlobal
    rw [held_append, at_.global l isGlobal, global l isGlobal]
    simp [held]
  · intro d
    have change := sockets d
    rw [held_append, at_.sockets d, List.count_append]
    simp only [held, List.map_cons, List.map_nil, List.sum_cons, List.sum_nil, List.count_singleton,
      beq_iff_eq]
    by_cases gone : a = .failed d
    · rw [if_pos gone] at change ⊢
      omega
    · rw [if_neg gone] at change ⊢
      omega

theorem Spans.call (fits : site.exposed connected = level.exposed connected) :
    Spans connected level [.call site] level := by
  refine Spans.single (by rintro _ ⟨⟩; exact fits) ?_
  intro pre at_
  exact at_.act (by simp [Act.takes]) (by simp [Act.takes]) at_.onlyGlobal

/-- Taking one of the other semaphores, and releasing it. -/
theorem Spans.waitOther (other : l.shared (fun _ => true) = false)
    (fits : site.exposed connected = level.exposed connected) : Spans connected level [.wait l site] level := by
  refine Spans.single (by rintro _ ⟨⟩; exact fits) ?_
  intro pre at_
  refine at_.act ?_ ?_ at_.onlyGlobal
  · intro k isGlobal
    have differ : l ≠ k := by
      rintro rfl
      simp [shared_of_global _ isGlobal] at other
    simp [Act.takes, differ]
  · intro d
    have differ : l ≠ .socketLock d := by
      rintro rfl
      simp [Lock.shared] at other
    simp [Act.takes, differ]

theorem Spans.postOther (other : l.shared (fun _ => true) = false) : Spans connected level [.post l] level := by
  refine Spans.single (by rintro _ ⟨⟩) ?_
  intro pre at_
  refine at_.act ?_ ?_ at_.onlyGlobal
  · intro k isGlobal
    have differ : l ≠ k := by
      rintro rfl
      simp [shared_of_global _ isGlobal] at other
    simp [Act.takes, differ]
  · intro d
    have differ : l ≠ .socketLock d := by
      rintro rfl
      simp [Lock.shared] at other
    simp [Act.takes, differ]

theorem socketLock_ne_global (isGlobal : l.global = true) (d : Nat) : l ≠ .socketLock d := by
  rintro rfl
  simp [Lock.global] at isGlobal

/-- Taking one of the global semaphores, and releasing it. -/
theorem Spans.waitGlobal {locks : List Lock} {socket : Option Nat} (isGlobal : l.global = true)
    (fits : site.exposed connected = Level.exposed connected ⟨locks, socket⟩) :
    Spans connected ⟨locks, socket⟩ [.wait l site] ⟨l :: locks, socket⟩ := by
  refine Spans.single (by rintro _ ⟨⟩; exact fits) ?_
  intro pre at_
  refine at_.act ?_ ?_ ?_
  · intro k _
    simp only [Act.takes, List.count_cons, beq_iff_eq]
    split <;> simp
  · simp [Act.takes, socketLock_ne_global isGlobal]
  · intro k member
    rcases List.mem_cons.mp member with same | before
    · exact same ▸ isGlobal
    · exact at_.onlyGlobal k before

theorem Spans.postGlobal {locks : List Lock} {socket : Option Nat} (isGlobal : l.global = true) :
    Spans connected ⟨l :: locks, socket⟩ [.post l] ⟨locks, socket⟩ := by
  refine Spans.single (by rintro _ ⟨⟩) ?_
  intro pre at_
  refine at_.act ?_ ?_ ?_
  · intro k _
    simp only [Act.takes, List.count_cons, beq_iff_eq]
    split <;> omega
  · simp [Act.takes, socketLock_ne_global isGlobal]
  · exact fun k member => at_.onlyGlobal k (List.mem_cons_of_mem _ member)

theorem Spans.replicate (n : Nat) (fits : site.exposed connected = level.exposed connected) :
    Spans connected level (List.replicate n (.call site)) level := by
  induction n with
  | zero => exact Spans.nil
  | succ n ih => exact (Spans.call fits).append ih

theorem Spans.clientSend (fits : site.exposed connected = level.exposed connected) (o : Send) :
    Spans connected level (clientSend site o) level := by
  refine ((Spans.waitOther rfl fits).append (Spans.replicate o.calls fits)).append ?_
  split
  · exact (Spans.call fits).append (Spans.call fits)
  · exact Spans.postOther rfl

theorem Spans.reply (fits : site.exposed connected = level.exposed connected) (o : Send) :
    Spans connected level (reply site o) level := by
  refine (Spans.clientSend fits o).append ?_
  split
  · exact Spans.call fits
  · exact Spans.nil

/-- The `socket_lock` of a daemon is taken and released; a failure keeps it. -/
theorem Spans.waitSocket {locks : List Lock} (fits : site.exposed connected = Level.exposed connected ⟨locks, none⟩) :
    Spans connected ⟨locks, none⟩ [.wait (.socketLock d) site] ⟨locks, some d⟩ := by
  refine Spans.single (by rintro _ ⟨⟩; exact fits) ?_
  intro pre at_
  refine at_.act ?_ ?_ at_.onlyGlobal
  · intro k isGlobal
    simp [Act.takes, (socketLock_ne_global isGlobal d).symm]
  · intro d'
    simp [Act.takes]

theorem Spans.postSocket {locks : List Lock} :
    Spans connected ⟨locks, some d⟩ [.post (.socketLock d)] ⟨locks, none⟩ := by
  refine Spans.single (by rintro _ ⟨⟩) ?_
  intro pre at_
  refine at_.act ?_ ?_ at_.onlyGlobal
  · intro k isGlobal
    simp [Act.takes, (socketLock_ne_global isGlobal d).symm]
  · intro d'
    by_cases same : d = d' <;> simp [Act.takes, same]

/-- A failed send: from here on the socket counts among those of failed sends. -/
theorem Spans.failed {locks : List Lock}
    (fits : site.exposed connected = Level.exposed connected ⟨locks, some d⟩) :
    Spans connected ⟨locks, some d⟩ [.failed d, .call site] ⟨locks, none⟩ := by
  intro pre at_
  have gone : Level.At ⟨locks, none⟩ (pre ++ [.failed d]) := by
    refine at_.act (by simp [Act.takes]) ?_ at_.onlyGlobal
    intro d'
    by_cases same : d = d' <;> simp [Act.takes, same]
  have logged : Level.At ⟨locks, none⟩ ((pre ++ [.failed d]) ++ [.call site]) :=
    gone.act (by simp [Act.takes]) (by simp [Act.takes]) gone.onlyGlobal
  refine ⟨⟨by simp [Act.site], ⟨?_, trivial⟩⟩, by simpa using logged⟩
  rintro _ ⟨⟩
  rw [released_iff gone, fits, Level.exposed_eq_false, Level.exposed_eq_false]
  constructor
  · rintro ⟨⟨empty, -⟩, noFailure⟩
    refine ⟨⟨empty, ?_⟩, noFailure⟩
    rintro _ ⟨⟩
    by_contra alive
    exact noFailure d (by simpa using alive) (by simp)
  · rintro ⟨⟨empty, -⟩, noFailure⟩
    exact ⟨⟨empty, by simp⟩, noFailure⟩

theorem Spans.daemonSend {locks : List Lock} {enter send : Site}
    (entering : enter.exposed connected = Level.exposed connected ⟨locks, none⟩)
    (sending : send.exposed connected = Level.exposed connected ⟨locks, some d⟩) (o : Send) :
    Spans connected ⟨locks, none⟩ (daemonSend enter send d o) ⟨locks, none⟩ := by
  have locked : Spans connected ⟨locks, none⟩ [.call enter, .wait (.socketLock d) enter] ⟨locks, some d⟩ :=
    (Spans.call entering).append (Spans.waitSocket entering)
  refine (locked.append (Spans.replicate o.calls sending)).append ?_
  split
  · exact (Spans.call sending).append (Spans.failed sending)
  · exact Spans.postSocket

/-! ### The handlers hold what the table says -/

/-- Nothing is held. -/
def ground : Level := ⟨[], none⟩

theorem list_spans (daemons : List (Nat × Send)) :
    Spans connected ground (clientRequestList daemons) ground := by
  have enter : Spans connected ground [.wait .listLock .listWait, .wait .daemonsLock .listDaemons]
      ⟨[.daemonsLock, .listLock], none⟩ :=
    (Spans.waitGlobal rfl rfl).append (Spans.waitGlobal rfl rfl)
  have leave : Spans connected ⟨[.daemonsLock, .listLock], none⟩
      [.post .daemonsLock, .post .listLock, .call .listEnd] ground :=
    (Spans.postGlobal rfl).append ((Spans.postGlobal rfl).append (Spans.call rfl))
  have each : ∀ x : Nat × Send, Spans connected ⟨[.daemonsLock, .listLock], none⟩
      (daemonSend .listEnterSend (.listSend x.1) x.1 x.2) ⟨[.daemonsLock, .listLock], none⟩ :=
    fun x => Spans.daemonSend rfl rfl x.2
  exact (enter.append (Spans.flatMap each daemons)).append leave

theorem info_spans (clients daemons count : Send) (requests : List Send) (heading : Send)
    (lines : List Send) :
    Spans connected ground (clientRequestInfo clients daemons count requests heading lines) ground := by
  have told : ∀ o, Spans connected ground (clientSend .infoSend o) ground := Spans.clientSend rfl
  refine Spans.append (Spans.append (Spans.append (Spans.append (Spans.append (Spans.append (Spans.append
    (Spans.append (Spans.append ?_ (told clients)) (told daemons)) (told count))
    (Spans.flatMap told requests)) ?_) (told heading)) (Spans.waitGlobal rfl rfl))
    (Spans.flatMap (Spans.clientSend rfl) lines)) (Spans.postGlobal rfl)
  · exact Spans.waitOther rfl rfl
  · exact Spans.postOther rfl

theorem askDaemon_spans (daemon : Option (Nat × Send)) :
    Spans connected ground (askDaemon daemon) ground := by
  have looked : Spans connected ground [.wait .daemonsLock .getDaemons, .post .daemonsLock] ground :=
    (Spans.waitGlobal rfl rfl).append (Spans.postGlobal rfl)
  cases daemon with
  | none => exact looked
  | some x =>
    refine (looked.append (Spans.daemonSend rfl ?_ x.2)).append ?_
    · simp [Site.exposed, Level.exposed]
    · split
      · exact Spans.call rfl
      · exact Spans.nil

theorem get_spans (path : GetPath) : Spans connected ground (clientRequestGet path) ground := by
  have looked : Spans connected ground [.wait .fileCacheLock .getCache, .post .fileCacheLock] ground :=
    (Spans.waitOther rfl rfl).append (Spans.postOther rfl)
  cases path with
  | parseFailed => exact Spans.nil
  | badKey answer => exact Spans.reply rfl answer
  | notCached answer => exact looked.append (Spans.reply rfl answer)
  | cached first second daemon =>
    refine (looked.append (Spans.reply rfl first)).append ?_
    split
    · exact Spans.nil
    · refine (Spans.reply rfl second).append ?_
      split
      · exact Spans.nil
      · exact askDaemon_spans daemon

theorem raw_spans (path : RawPath) : Spans connected ground (clientRequestRaw path) ground := by
  have trusted : Spans connected ground [.wait .clientsLock .rawClients, .post .clientsLock] ground :=
    (Spans.waitOther rfl rfl).append (Spans.postOther rfl)
  have entered : Spans connected ground
      [.wait .clientsLock .rawClients, .post .clientsLock, .wait .daemonsLock .rawDaemons]
      ⟨[.daemonsLock], none⟩ :=
    trusted.append (Spans.waitGlobal rfl rfl)
  cases path with
  | syntaxError answer => exact Spans.clientSend rfl answer
  | refused answer => exact trusted.append (Spans.clientSend rfl answer)
  | notConnected answer => exact (entered.append (Spans.clientSend rfl answer)).append (Spans.postGlobal rfl)
  | forwarded d cmd newline answer =>
    exact (((entered.append (Spans.daemonSend rfl rfl cmd)).append (Spans.daemonSend rfl rfl newline)).append
      (Spans.clientSend rfl answer)).append (Spans.postGlobal rfl)

theorem transfers_spans {enter send : Site} (isGlobal : l.global = true)
    (entering : enter.exposed connected = false) (sending : send.exposed connected = true) (none_ : Send)
    (files : List Send) : Spans connected ground (transfers l enter send none_ files) ground := by
  have fits : send.exposed connected = Level.exposed connected ⟨[l], none⟩ := sending
  refine ((Spans.waitGlobal isGlobal entering).append ?_).append (Spans.postGlobal isGlobal)
  split
  · exact Spans.reply fits none_
  · exact Spans.flatMap (fun o => (Spans.call fits).append (Spans.reply fits o)) files

theorem handle_spans (request : Request) : Spans connected ground request.handle ground := by
  cases request with
  | list daemons => exact list_spans daemons
  | info clients daemons count requests heading lines =>
    exact info_spans clients daemons count requests heading lines
  | get path => exact get_spans path
  | raw path => exact raw_spans path
  | download none_ files => exact transfers_spans rfl rfl rfl none_ files
  | upload none_ files => exact transfers_spans rfl rfl rfl none_ files
  | connect calls answer =>
    refine (Spans.replicate calls rfl).append ?_
    cases answer with
    | none => exact Spans.nil
    | some o => exact Spans.reply rfl o
  | help answer => exact Spans.clientSend rfl answer
  | set answer =>
    cases answer with
    | none => exact Spans.call rfl
    | some o => exact Spans.reply rfl o
  | unknown answer => exact Spans.reply rfl answer

theorem clientRequestHandler_spans (connected : Nat → Bool) (request : Request) :
    Spans connected ground (clientRequestHandler request) ground := by
  have sectioned : Spans connected ground [.wait .reqLock .handler, .post .reqLock] ground :=
    (Spans.waitOther rfl rfl).append (Spans.postOther rfl)
  exact (sectioned.append (handle_spans request)).append sectioned

theorem ground_at_start : ground.At [] := by
  constructor <;> simp [ground, held]

/-- `job_cleanup` and `worker_cleanup` release none of the semaphores. -/
theorem released_after_cleanup : Released connected (pre ++ workerCleanup) ↔ Released connected pre := by
  have same : ∀ l, l.shared connected = true → held (pre ++ workerCleanup) l = held pre l := by
    intro l shared
    rw [held_append]
    cases l <;> simp [Lock.shared, held, workerCleanup, Act.takes] at shared ⊢
  simp only [Released]
  exact forall₂_congr fun l shared => by rw [same l shared]

/-- A cancelled request handler has released every semaphore that others need exactly when it was
not cancelled inside one of the exposed places, and no send to a daemon that is still connected had
failed before. -/
theorem cancelled_released_iff (connected : Nat → Bool) (request : Request) (done rest : List Act)
    (a : Act) (site : Site) (split_ : clientRequestHandler request = done ++ a :: rest)
    (point : a.site = some site) :
    Released connected (done ++ workerCleanup) ↔
      site.exposed connected = false ∧ ∀ d, connected d = true → Act.failed d ∉ done := by
  have tells := (clientRequestHandler_spans connected request [] ground_at_start).1
  rw [split_, tells_append] at tells
  rw [released_after_cleanup]
  exact tells.2.1 site point

/-- A list request that has sent everything, cancelled when it waits for `req_lock` again. -/
theorem finished_list_released : Released (fun _ => true)
    ([.wait .reqLock .handler, .post .reqLock] ++ clientRequestList [(7, ⟨1, false⟩)] ++ workerCleanup) :=
  (cancelled_released_iff (fun _ => true) (.list [(7, ⟨1, false⟩)]) _ [.post .reqLock] (.wait .reqLock .handler)
    .handler rfl rfl).mpr ⟨rfl, by simp [Request.handle, clientRequestList, daemonSend]⟩

/-- A list request cancelled in its first `send` to a daemon keeps `daemons_lock`, `list_lock` and the
daemon's socket. -/
theorem sending_list_keeps_locks :
    ∃ done rest, clientRequestHandler (.list [(7, ⟨1, false⟩)]) = done ++ .call (.listSend 7) :: rest ∧
      held (done ++ workerCleanup) .daemonsLock = 1 ∧ held (done ++ workerCleanup) .listLock = 1 ∧
      held (done ++ workerCleanup) (.socketLock 7) = 1 ∧ ¬ Released (fun _ => true) (done ++ workerCleanup) := by
  refine ⟨[.wait .reqLock .handler, .post .reqLock, .wait .listLock .listWait, .wait .daemonsLock .listDaemons,
    .call .listEnterSend, .wait (.socketLock 7) .listEnterSend], _, rfl, rfl, rfl, rfl, ?_⟩
  intro released
  exact absurd (released .daemonsLock rfl) (by decide)

end Pire2Pire.Requests.Cancellation
