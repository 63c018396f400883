import Pire2Pire.Conf
import Pire2Pire.Library.Runs
import Pire2Pire.Protocol.CmdParser
import Mathlib.Logic.Function.Basic

/-! The connections that `start_server` accepts on its two ports, and the threads of `clients_pool` and
`daemons_pool` that serve them.

A connection is counted by `client_add` or `daemon_add`, that is once a thread of the pool serves it;
until then it waits in the queue of the pool. -/
namespace Pire2Pire.Capacity

open Library Protocol

/-- The argument of a queued `handle_client` or `handle_daemon`. -/
inductive Job where
  -- `client_new` had no memory
  | null
  -- accepted on the port of this kind of peers
  | accepted (c : Nat)
  -- a daemon that this one has connected to
  | dialled (c : Nat)
deriving DecidableEq, Repr

/-- A thread of the pool. -/
inductive Worker where
  | idle
  | took (job : Job)
  -- behind `client_add` or `daemon_add`
  | serving (job : Job)
  -- behind `client_remove` or `daemon_remove`
  | cleaning
deriving DecidableEq, Repr

/-- One kind of peers: the queue and the threads of its pool, the shared counter, and what was sent to
connections that were not served. -/
structure Port where
  queue : List Job
  workers : List Worker
  count : Int
  replies : List (Nat × CString)
deriving DecidableEq, Repr

abbrev State := PeerKind → Port

/-- `pool_create`. -/
def start (prefs : Prefs) : State :=
  fun kind => ⟨[], List.replicate (kind.maxPeers prefs).toNat .idle, 0, []⟩

inductive Event where
  -- the results of `inet_ntop` and `client_new`
  | client (c : Nat) (ntop new : Bool)
  -- the same, behind the line that `socket_try_getline` returns
  | daemon (c : Nat) (ident : Option CString) (ntop new : Bool)
  -- `client_request_connect` or `daemon_request_neighbour` queues a daemon
  | dial (c : Nat)
  | take (kind : PeerKind) (w : Nat)
  | add (kind : PeerKind) (w : Nat)
  -- the peer hangs up or quits
  | remove (kind : PeerKind) (w : Nat)
  | release (kind : PeerKind) (w : Nat)
deriving DecidableEq, Repr

/-! ### Arrivals -/

/-- What becomes of a connection that was not refused. -/
inductive Admission where
  | closed (reply : Option CString)
  | queued (job : Job) (reply : Option CString)
deriving DecidableEq, Repr

def oops : CString := " < Oops\n".toList
def noMemory : CString := " < Sorry pal :(\n".toList
def identificationTimedOut : CString := "error: identification timed out\n".toList

def tooMany : PeerKind → CString
  | .client => " < Too many clients\n".toList
  | .daemon => " < Too many daemons\n".toList

/-- A client that could not be allocated is queued as NULL. -/
def clientAdmission (c : Nat) (ntop new : Bool) : Admission :=
  if !ntop then .closed (some oops)
  else if !new then .queued .null (some noMemory)
  else .queued (.accepted c) none

/-- The port in the line `neighbour ADDR:PORT`. -/
def identify (ident : CString) : Option Int32 :=
  match cmdParse ident none with
  | .error _ => none
  | .ok pcmd =>
    match pcmd.argv with
    | command :: address :: _ =>
      if command ≠ "neighbour".toList then none
      else (strchr address ':').map fun colon => atoi (colon.drop 1)
    | _ => none

def daemonAdmission (c : Nat) (ident : Option CString) (ntop new : Bool) : Admission :=
  match ident with
  | none => .closed (some identificationTimedOut)
  | some line =>
    match identify line with
    | none => .closed none
    | some _ =>
      if !ntop then .closed (some oops)
      else if !new then .closed (some noMemory)
      else .queued (.accepted c) none

namespace Port

def reply (p : Port) (c : Nat) : Option CString → Port
  | none => p
  | some text => { p with replies := p.replies ++ [(c, text)] }

def letIn (p : Port) (c : Nat) : Admission → Port
  | .closed text => p.reply c text
  | .queued job text => { p.reply c text with queue := p.queue ++ [job] }

/-- `if (client_count () > prefs->max_clients)` and its sibling. -/
def arrive (p : Port) (max : Int) (full : CString) (c : Nat) (admission : Admission) : Port :=
  if p.count > max then p.reply c (some full) else p.letIn c admission

/-! ### The threads of the pool -/

def take (p : Port) (w : Nat) : Option Port :=
  match p.workers[w]?, p.queue with
  | some .idle, job :: queue => some { p with queue := queue, workers := p.workers.set w (.took job) }
  | _, _ => none

def add (p : Port) (w : Nat) : Option Port :=
  match p.workers[w]? with
  | some (.took .null) => some { p with workers := p.workers.set w .idle }
  | some (.took job) => some { p with workers := p.workers.set w (.serving job), count := p.count + 1 }
  | _ => none

def remove (p : Port) (w : Nat) : Option Port :=
  match p.workers[w]? with
  | some (.serving _) => some { p with workers := p.workers.set w .cleaning, count := p.count - 1 }
  | _ => none

def release (p : Port) (w : Nat) : Option Port :=
  match p.workers[w]? with
  | some .cleaning => some { p with workers := p.workers.set w .idle }
  | _ => none

end Port

def step (prefs : Prefs) (s : State) : Event → Option State
  | .client c ntop new =>
    some (Function.update s .client ((s .client).arrive (PeerKind.client.maxPeers prefs) (tooMany .client) c
      (clientAdmission c ntop new)))
  | .daemon c ident ntop new =>
    some (Function.update s .daemon ((s .daemon).arrive (PeerKind.daemon.maxPeers prefs) (tooMany .daemon) c
      (daemonAdmission c ident ntop new)))
  | .dial c => some (Function.update s .daemon { s .daemon with queue := (s .daemon).queue ++ [.dialled c] })
  | .take kind w => ((s kind).take w).map (Function.update s kind)
  | .add kind w => ((s kind).add w).map (Function.update s kind)
  | .remove kind w => ((s kind).remove w).map (Function.update s kind)
  | .release kind w => ((s kind).release w).map (Function.update s kind)

/-! ### Open connections -/

def Job.isOpen : Job → Bool
  | .accepted _ => true
  | .null | .dialled _ => false

def Worker.isOpen : Worker → Bool
  | .took job | .serving job => job.isOpen
  | .idle | .cleaning => false

def Worker.counted : Worker → Bool
  | .serving _ => true
  | .idle | .took _ | .cleaning => false

/-- The connections that came in on the port and were neither refused nor have ended. -/
def Port.opened (p : Port) : Nat :=
  p.queue.countP Job.isOpen + p.workers.countP Worker.isOpen

/-- The connection that an event brings to a port. -/
def Event.arrival (kind : PeerKind) : Event → Option Nat
  | .client c _ _ => if kind = .client then some c else none
  | .daemon c _ _ _ => if kind = .daemon then some c else none
  | _ => none

/-- Never more than the limit are open, and one more is refused. -/
def Capped (prefs : Prefs) (s : State) (e : Event) (t : State) : Prop :=
  ∀ kind : PeerKind, (t kind).opened ≤ kind.maxPeers prefs ∧
    ∀ c, e.arrival kind = some c → kind.maxPeers prefs ≤ (s kind).opened →
      t kind = { s kind with replies := (s kind).replies ++ [(c, tooMany kind)] }

/-- A connection comes in only while fewer than the limit are open. -/
def Room (prefs : Prefs) (s : State) : Event → Prop
  | .client _ _ _ => (s .client).opened < PeerKind.client.maxPeers prefs
  | .daemon _ _ _ _ => (s .daemon).opened < PeerKind.daemon.maxPeers prefs
  | _ => True

instance (prefs : Prefs) (s : State) : (e : Event) → Decidable (Room prefs s e)
  | .client _ _ _ | .daemon _ _ _ _ => inferInstanceAs (Decidable (_ < _))
  | .dial _ | .take _ _ | .add _ _ | .remove _ _ | .release _ _ => isTrue trivial

/-! ### Ports -/

/-- Every counted connection has a thread of its own. -/
structure Port.Staffed (max : Int) (p : Port) : Prop where
  threads : p.workers.length = max
  count : p.count = p.workers.countP Worker.counted
  bound : p.opened ≤ max

variable {prefs : Prefs} {s t : State} {e : Event} {p q : Port} {max : Int} {w c : Nat} {kind : PeerKind}
  {full : CString} {admission : Admission}

namespace Port

/-- The check never refuses anybody: there are only as many threads as the limit says. -/
theorem count_le (staffed : p.Staffed max) : p.count ≤ max := by
  rw [staffed.count, ← staffed.threads]
  exact Int.ofNat_le.mpr List.countP_le_length

theorem arrive_eq (staffed : p.Staffed max) : p.arrive max full c admission = p.letIn c admission := by
  rw [arrive, if_neg (Int.not_lt.mpr (count_le staffed))]

@[simp] theorem reply_queue (text : Option CString) : (p.reply c text).queue = p.queue := by
  cases text <;> rfl

@[simp] theorem reply_workers (text : Option CString) : (p.reply c text).workers = p.workers := by
  cases text <;> rfl

@[simp] theorem reply_count (text : Option CString) : (p.reply c text).count = p.count := by
  cases text <;> rfl

theorem letIn_staffed (staffed : p.Staffed max) (room : p.opened < max) : (p.letIn c admission).Staffed max := by
  cases admission with
  | closed text =>
    refine ⟨by simpa [letIn] using staffed.threads, by simpa [letIn] using staffed.count, ?_⟩
    simpa [letIn, opened] using staffed.bound
  | queued job text =>
    -- one connection more is open, for which there was room
    refine ⟨by simpa [letIn] using staffed.threads, by simpa [letIn] using staffed.count, ?_⟩
    have atMostOne : List.countP Job.isOpen [job] ≤ 1 := List.countP_le_length
    simp only [letIn, opened, reply_workers, List.countP_append, Int.natCast_add] at room ⊢
    omega

theorem dial_staffed (staffed : p.Staffed max) :
    Staffed max { p with queue := p.queue ++ [.dialled c] } := by
  refine ⟨staffed.threads, staffed.count, ?_⟩
  simpa [opened, Job.isOpen] using staffed.bound

theorem countP_set (f : Worker → Bool) {before : Worker} (here : p.workers[w]? = some before) (after : Worker) :
    ((p.workers.set w after).countP f : Int) =
      p.workers.countP f - (if f before then 1 else 0) + if f after then 1 else 0 := by
  obtain ⟨bound, same⟩ := List.getElem?_eq_some_iff.mp here
  rw [List.countP_set bound, same]
  have one : f before = true → 0 < p.workers.countP f := by
    intro counts
    exact List.countP_pos_iff.mpr ⟨before, List.mem_of_getElem? here, counts⟩
  cases old : f before with
  | false => cases new : f after <;> simp
  | true =>
    have positive := one old
    cases new : f after <;> simp <;> omega

/-- One thread moves on. -/
theorem set_staffed {before after : Worker} {queue : List Job} {count : Int} (staffed : p.Staffed max)
    (here : p.workers[w]? = some before)
    (counts : count = p.count - (if before.counted then 1 else 0) + if after.counted then 1 else 0)
    (opens : queue.countP Job.isOpen + (if after.isOpen then 1 else 0) ≤
      p.queue.countP Job.isOpen + if before.isOpen then 1 else 0) :
    Staffed max { p with queue := queue, workers := p.workers.set w after, count := count } := by
  refine ⟨by simpa using staffed.threads, ?_, ?_⟩
  · rw [countP_set Worker.counted here, counts, staffed.count]
  -- what a thread gives up and what it or the queue gets is counted together
  · have bound := staffed.bound
    simp only [opened, Int.natCast_add] at bound ⊢
    rw [countP_set Worker.isOpen here]
    cases isOpen : before.isOpen <;> cases opens' : after.isOpen <;> simp [isOpen, opens'] at opens ⊢ <;> omega

theorem take_staffed (staffed : p.Staffed max) (taken : p.take w = some q) : q.Staffed max := by
  unfold take at taken
  split at taken
  next job queue here shape =>
    cases taken
    apply set_staffed staffed here
    · simp [Worker.counted]
    · -- the connection moves from the queue to the thread
      cases isOpen : job.isOpen <;> simp [shape, Worker.isOpen, isOpen]
  · cases taken

theorem add_staffed (staffed : p.Staffed max) (taken : p.add w = some q) : q.Staffed max := by
  unfold add at taken
  split at taken
  -- a NULL job is thrown away
  next here =>
    cases taken
    apply set_staffed staffed here
    · simp [Worker.counted]
    · simp [Worker.isOpen]
  -- the peer is added to the list and counted
  next job _ here =>
    cases taken
    apply set_staffed staffed here
    · simp [Worker.counted]
    · exact Nat.le_refl _
  · cases taken

theorem remove_staffed (staffed : p.Staffed max) (taken : p.remove w = some q) : q.Staffed max := by
  unfold remove at taken
  split at taken
  next job here =>
    -- the peer is taken from the list before its memory is released
    cases taken
    apply set_staffed staffed here
    · simp [Worker.counted]
    · simp [Worker.isOpen]
  · cases taken

theorem release_staffed (staffed : p.Staffed max) (taken : p.release w = some q) : q.Staffed max := by
  unfold release at taken
  split at taken
  next here =>
    cases taken
    apply set_staffed staffed here
    · simp [Worker.counted]
    · simp [Worker.isOpen]
  · cases taken

end Port

/-! ### One event -/

def Staffed (prefs : Prefs) (s : State) : Prop :=
  ∀ kind : PeerKind, (s kind).Staffed (kind.maxPeers prefs)

theorem staffed_update (staffed : Staffed prefs s) (changed : p.Staffed (kind.maxPeers prefs)) :
    Staffed prefs (Function.update s kind p) := by
  intro other
  -- the other port is not touched
  by_cases same : other = kind
  · subst same
    rw [Function.update_self]
    exact changed
  · rw [Function.update_of_ne same]
    exact staffed other

theorem staffed_step (staffed : Staffed prefs s) (room : Room prefs s e) (taken : step prefs s e = some t) :
    Staffed prefs t := by
  cases e with
  | client c ntop new =>
    cases taken
    apply staffed_update staffed
    -- the check passes, so everything depends on the room there was
    rw [Port.arrive_eq (staffed .client)]
    exact Port.letIn_staffed (staffed .client) room
  | daemon c ident ntop new =>
    cases taken
    apply staffed_update staffed
    rw [Port.arrive_eq (staffed .daemon)]
    exact Port.letIn_staffed (staffed .daemon) room
  | dial c =>
    cases taken
    exact staffed_update staffed (Port.dial_staffed (staffed .daemon))
  | take kind w =>
    obtain ⟨p, moved, rfl⟩ := Option.map_eq_some_iff.mp taken
    exact staffed_update staffed (Port.take_staffed (staffed kind) moved)
  | add kind w =>
    obtain ⟨p, moved, rfl⟩ := Option.map_eq_some_iff.mp taken
    exact staffed_update staffed (Port.add_staffed (staffed kind) moved)
  | remove kind w =>
    obtain ⟨p, moved, rfl⟩ := Option.map_eq_some_iff.mp taken
    exact staffed_update staffed (Port.remove_staffed (staffed kind) moved)
  | release kind w =>
    obtain ⟨p, moved, rfl⟩ := Option.map_eq_some_iff.mp taken
    exact staffed_update staffed (Port.release_staffed (staffed kind) moved)

/-- What an admitted or closed connection is told is never that there are too many. -/
def Admission.Polite (full : CString) : Admission → Prop
  | .closed text => text ≠ some full
  | .queued _ _ => True

theorem clientAdmission_polite (c : Nat) (ntop new : Bool) :
    (clientAdmission c ntop new).Polite (tooMany .client) := by
  cases ntop <;> cases new <;> simp [clientAdmission, Admission.Polite] <;> decide

theorem daemonAdmission_polite (c : Nat) (ident : Option CString) (ntop new : Bool) :
    (daemonAdmission c ident ntop new).Polite (tooMany .daemon) := by
  cases ident with
  | none => simp only [daemonAdmission, Admission.Polite]; decide
  | some line =>
    cases identified : identify line with
    | none => simp [daemonAdmission, identified, Admission.Polite]
    | some port => cases ntop <;> cases new <;> simp [daemonAdmission, identified, Admission.Polite] <;> decide

theorem Port.letIn_ne (polite : admission.Polite full) :
    p.letIn c admission ≠ { p with replies := p.replies ++ [(c, full)] } := by
  intro same
  cases admission with
  | closed text =>
    -- a reply there is, but not that one
    have replies := congrArg Port.replies same
    cases text with
    | none => simp [letIn, reply] at replies
    | some text =>
      simp only [letIn, reply, List.append_cancel_left_eq, List.cons.injEq, Prod.mk.injEq, true_and,
        and_true] at replies
      exact polite (by rw [replies])
  | queued job text =>
    -- the queue has grown, while a refusal leaves it
    have queue := congrArg Port.queue same
    simp [letIn] at queue

/-- The counter never exceeds the limit, so a connection that comes in at the limit is not refused. -/
theorem room_iff_capped (staffed : Staffed prefs s) (defined : (step prefs s e).isSome) :
    Room prefs s e ↔ ∃ t, step prefs s e = some t ∧ Capped prefs s e t := by
  obtain ⟨t, taken⟩ := Option.isSome_iff_exists.mp defined
  constructor
  · intro room
    refine ⟨t, taken, ?_⟩
    intro kind
    refine ⟨(staffed_step staffed room taken kind).bound, ?_⟩
    -- at the limit there is no room, so nobody arrived
    intro c arrival full
    cases e with
    | client c' ntop new =>
      cases kind with
      | client => exact absurd room (Int.not_lt.mpr full)
      | daemon => cases arrival
    | daemon c' ident ntop new =>
      cases kind with
      | client => cases arrival
      | daemon => exact absurd room (Int.not_lt.mpr full)
    | dial _ => cases arrival
    | take _ _ => cases arrival
    | add _ _ => cases arrival
    | remove _ _ => cases arrival
    | release _ _ => cases arrival
  · rintro ⟨t', taken', capped⟩
    cases Option.some.inj (taken.symm.trans taken')
    cases e with
    | client c ntop new =>
      cases taken
      -- were the port full, the arrival would have to be refused, but the check lets it in
      apply Int.not_le.mp
      intro full
      have refused := (capped .client).2 c rfl full
      rw [Function.update_self, Port.arrive_eq (staffed .client)] at refused
      exact Port.letIn_ne (clientAdmission_polite c ntop new) refused
    | daemon c ident ntop new =>
      cases taken
      apply Int.not_le.mp
      intro full
      have refused := (capped .daemon).2 c rfl full
      rw [Function.update_self, Port.arrive_eq (staffed .daemon)] at refused
      exact Port.letIn_ne (daemonAdmission_polite c ident ntop new) refused
    | dial _ => trivial
    | take _ _ => trivial
    | add _ _ => trivial
    | remove _ _ => trivial
    | release _ _ => trivial

/-! ### Whole runs -/

theorem staffed_start (conf : List (CString × CString)) : Staffed (confRetrieve conf) (start (confRetrieve conf)) := by
  intro kind
  have positive := maxPeers_gt conf kind
  -- the pool has a thread for each peer that is allowed
  have threads : ((kind.maxPeers (confRetrieve conf)).toNat : Int) = kind.maxPeers (confRetrieve conf) :=
    Int.toNat_of_nonneg (by omega)
  refine ⟨by simpa [start] using threads, ?_, ?_⟩
  · simp [start, List.countP_replicate, Worker.counted]
  · simp [start, Port.opened, List.countP_replicate, Worker.isOpen]
    omega

/-- The limits are kept in exactly those runs in which nobody connects while the limit is reached. -/
theorem capped_iff_room (conf : List (CString × CString)) (es : List Event) (s : State)
    (ran : exec (step (confRetrieve conf)) (start (confRetrieve conf)) es = some s) :
    Upholds (step (confRetrieve conf)) (Capped (confRetrieve conf)) (start (confRetrieve conf)) es ↔
      Along (step (confRetrieve conf)) (Room (confRetrieve conf)) (start (confRetrieve conf)) es :=
  upholds_iff_along (fun s e => (step (confRetrieve conf) s e).isSome) (Room (confRetrieve conf))
    (Capped (confRetrieve conf)) (Staffed (confRetrieve conf))
    (fun _ _ staffed defined => room_iff_capped staffed defined)
    (fun _ _ t staffed defined taken capped =>
      staffed_step staffed ((room_iff_capped staffed defined).mpr ⟨t, taken, capped⟩) taken)
    (staffed_start conf) (along_defined ran)

/-- Two clients, the second of which leaves before a third one comes. -/
theorem capped_iff_room_two :
    let conf := [("max_clients".toList, "2".toList)]
    let prefs := confRetrieve conf
    let es := [.client 0 true true, .client 1 true true, .take .client 0, .take .client 1, .add .client 1,
      .remove .client 1, .client 2 true true, .daemon 3 (some "neighbour 10.0.0.2:7331".toList) true true]
    Upholds (step prefs) (Capped prefs) (start prefs) es := by
  intro conf prefs es
  obtain ⟨s, ran⟩ : ∃ s, exec (step prefs) (start prefs) es = some s :=
    Option.isSome_iff_exists.mp (by decide +kernel)
  exact (capped_iff_room conf es s ran).mpr (by decide +kernel)

/-- Three clients connect while the limit is two; none is refused. The third waits for a thread. -/
theorem capped_overrun :
    let prefs := confRetrieve [("max_clients".toList, "2".toList)]
    let es := [.client 0 true true, .client 1 true true, .client 2 true true, .take .client 0, .take .client 1,
      .add .client 0, .add .client 1]
    PeerKind.client.maxPeers prefs = 2 ∧ (exec (step prefs) (start prefs) es).any fun s =>
      decide ((s .client).opened = 3) && decide ((s .client).replies = []) := by
  decide +kernel

end Pire2Pire.Capacity
