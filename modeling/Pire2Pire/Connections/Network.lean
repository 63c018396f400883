import Pire2Pire.Connections.Connect
import Pire2Pire.Connections.Neighbourhood
import Mathlib.Algebra.BigOperators.Group.Finset.Piecewise
import Mathlib.Data.Fintype.Prod

/-! Several daemons: who is in whose list while users connect daemons and ask for neighbourhoods.

A connection that a daemon makes carries one line, its identification, until `start_server` on the other side reads it.
The `neighbour` lines that a daemon sends are handled by threads of a pool, so they are taken in any order. No daemon
leaves, sends do not fail, and a daemon is reached at its own address only. -/
namespace Pire2Pire.Network

open Library Protocol Transfer Neighbours Replies
open Capacity (identify)
open Connect (inetPton inetPton_eq_some_iff)

variable {ι : Type}

/-! ### The daemons -/

/-- The daemons that run, each with the preferences of a configuration file and listening on the port in them. -/
structure Overlay (ι : Type) where
  host : ι → Host
  configured : ∀ i, ∃ lines, (host i).prefs = confRetrieve lines
  listener : Ipv4 → UInt16 → Option ι
  listener_iff : ∀ address port j,
    listener address port = some j ↔
      (host j).myIp = address ∧ sinPort (host j).prefs.daemonPort = port

/-- Whom `connect ()` leads to, if a daemon listens there. -/
def Overlay.target (o : Overlay ι) (addr : CString) (port : Int32) : Option ι :=
  (inetPton addr).bind fun address => o.listener address (sinPort port)

/-- An entry of a list leads to this daemon. -/
def Overlay.Leads (o : Overlay ι) (d : Daemon) (j : ι) : Prop := o.target d.addr d.port = some j

instance [DecidableEq ι] (o : Overlay ι) (d : Daemon) (j : ι) : Decidable (o.Leads d j) :=
  inferInstanceAs (Decidable (_ = _))

/-- The threads of `daemons_pool`. -/
def Overlay.maxDaemons (o : Overlay ι) (i : ι) : Int := PeerKind.daemon.maxPeers (o.host i).prefs

/-- Daemons that share no address, and that have another one than the loopback. -/
structure Overlay.OnePerHost (o : Overlay ι) : Prop where
  distinct : ∀ i j, (o.host i).myIp = (o.host j).myIp → i = j
  loopback : ∀ i, inetNtop (o.host i).myIp ≠ "127.0.0.1".toList

variable {o : Overlay ι} {i j : ι} {d : Daemon} {dialling : Dialling} {addr cmd : CString} {port : Int32}
  {attempt : Attempt} {daemons : List Daemon}

/-! ### Addresses -/

theorem target_iff :
    o.target addr port = some j ↔
      addr = inetNtop (o.host j).myIp ∧ sinPort (o.host j).prefs.daemonPort = sinPort port := by
  unfold Overlay.target
  simp only [Option.bind_eq_some_iff, o.listener_iff]
  constructor
  · rintro ⟨address, parsed, rfl, samePort⟩
    exact ⟨inetPton_eq_some_iff.mp parsed, samePort⟩
  · rintro ⟨rfl, samePort⟩
    exact ⟨_, inetPton_eq_some_iff.mpr rfl, rfl, samePort⟩

theorem leads_self (o : Overlay ι) (j : ι) (neighbour : Bool) :
    o.Leads ⟨inetNtop (o.host j).myIp, (o.host j).prefs.daemonPort, neighbour⟩ j :=
  target_iff.mpr ⟨rfl, rfl⟩

/-- The check of `isMyself` keeps a daemon from its own address. -/
theorem leads_other (leads : o.Leads d j) (other : isMyself (o.host i) d.addr = false) : j ≠ i := by
  rintro rfl
  have own : isMyself (o.host j) d.addr = true := by
    unfold isMyself
    rw [(target_iff.mp leads).1]
    simp
  rw [own] at other
  cases other

/-! ### What the handlers queue -/

/-- A daemon that a handler queues has been sent the identification, and it has not its own address. -/
structure Dials (host : Host) (dialling : Dialling) (d : Daemon) : Prop where
  sent : dialling.sent = [identMsg host]
  other : isMyself host d.addr = false

theorem dials_neighbour (handled : daemonRequestNeighbour (o.host i) daemons cmd attempt = some dialling)
    (queued : dialling.queued = some d) :
    Dials (o.host i) dialling d ∧ neighbourAddress cmd = some (d.addr, d.port) := by
  cases parsed : neighbourAddress cmd with
  | none => simp [daemonRequestNeighbour, parsed] at handled
  | some address =>
    simp only [daemonRequestNeighbour, parsed, Option.bind_eq_bind, Option.bind_some, identMsg_fits] at handled
    by_cases myself : isMyself (o.host i) address.1
    · simp only [myself, if_true] at handled
      repeat' split at handled
      all_goals cases handled; cases queued
    · simp only [myself] at handled
      -- only the last of the returns has a daemon
      repeat' split at handled
      all_goals cases handled
      all_goals cases queued
      exact ⟨⟨rfl, by simpa using myself⟩, rfl⟩

theorem dials_connect (handled : Neighbours.clientRequestConnect (o.host i) cmd attempt = some dialling)
    (queued : dialling.queued = some d) : Dials (o.host i) dialling d := by
  unfold Neighbours.clientRequestConnect at handled
  -- a line that is not understood queues nothing
  split at handled
  · cases handled
    cases queued
  split at handled
  next first address rest shape =>
    split at handled
    · cases handled
      cases queued
    next ip port valid =>
      simp only [Option.bind_eq_bind, identMsg_fits, Option.bind_some] at handled
      cases myself : isMyself (o.host i) ip with
      | true =>
        rw [if_pos myself] at handled
        cases handled
        cases queued
      | false =>
        simp only [myself, Bool.false_eq_true, if_false] at handled
        -- nor does a call that fails
        split at handled
        · obtain ⟨answer, -, same⟩ := Option.bind_eq_some_iff.mp handled
          cases same
          cases queued
        split at handled
        · obtain ⟨answer, -, same⟩ := Option.bind_eq_some_iff.mp handled
          cases same
          cases queued
        split at handled
        · cases handled
          cases queued
        · obtain ⟨answer, -, same⟩ := Option.bind_eq_some_iff.mp handled
          cases same
          cases queued
          exact ⟨rfl, myself⟩
  · cases handled
    cases queued

/-! ### The network -/

structure Net (ι : Type) where
  node : ι → Neighbours.State
  /-- by the daemon that has connected and the one that has to accept: the identifications not read yet -/
  pending : ι × ι → List CString
  /-- the `neighbour` lines that were sent to a daemon and not handled yet -/
  inbox : ι → List CString

def Net.start : Net ι := ⟨fun _ => Neighbours.start, fun _ => [], fun _ => []⟩

inductive Event (ι : Type) where
  -- a client of the daemon types a `connect`
  | connect (i : ι) (cmd : CString) (attempt : Attempt)
  -- a client of a daemon has any `neighbour` line sent to another one, with `raw`
  | raw (j i : ι) (line : CString)
  -- the k-th listed daemon asks for the neighbourhood, also with `raw`
  | neighbourhood (i : ι) (k : Nat)
  -- `daemon_request_neighbour` handles the k-th line
  | handle (i : ι) (k : Nat) (attempt : Attempt)
  -- or there are too many requests from the daemon that has sent it
  | tooMany (i : ι) (k : Nat)
  -- `start_server` accepts a connection that another daemon has made; `timely` if it identifies itself in time
  | accept (i j : ι) (timely : Bool)
  -- `handle_daemon` starts with the k-th of the queued daemons
  | begin (i : ι) (k : Nat)
deriving DecidableEq, Repr

/-- What users do. The other events follow from these. -/
def Event.typed : Event ι → Bool
  | .connect .. | .raw .. | .neighbourhood .. => true
  | .handle .. | .tooMany .. | .accept .. | .begin .. => false

variable [DecidableEq ι]

def Net.queue (s : Net ι) (i : ι) (d : Daemon) : Net ι :=
  { s with node := Function.update s.node i { s.node i with queued := (s.node i).queued ++ [d] } }

def Net.setInbox (s : Net ι) (i : ι) (lines : List CString) : Net ι :=
  { s with inbox := Function.update s.inbox i lines }

def Net.setPending (s : Net ι) (i j : ι) (lines : List CString) : Net ι :=
  { s with pending := Function.update s.pending (i, j) lines }

/-- What a handler leaves behind. A connection was made only if a daemon listens there; `daemon_new` has its memory. -/
def Net.link (o : Overlay ι) (s : Net ι) (i : ι) (dialling : Dialling) : Option (Net ι) :=
  match dialling.queued, dialling.sent with
  | some d, sent => (o.target d.addr d.port).map fun j => (s.queue i d).setPending i j (s.pending (i, j) ++ sent)
  | none, [] => some s
  | none, _ :: _ => none

/-- `start_server`, with the address of the peer. -/
def Net.accept (o : Overlay ι) (s : Net ι) (i j : ι) (timely : Bool) (ident : CString) : Net ι :=
  if (s.node i).daemons.length > o.maxDaemons i then s
  else if !timely then s
  else
    match identify (messageOf ident) with
    | none => s
    | some port => s.queue i ⟨inetNtop (o.host j).myIp, port, false⟩

/-- Daemon `i` has daemon `j` in its list. -/
def Net.Lists (o : Overlay ι) (s : Net ι) (i j : ι) : Prop := ∃ d ∈ (s.node i).daemons, o.Leads d j

instance (o : Overlay ι) (s : Net ι) (i j : ι) : Decidable (s.Lists o i j) :=
  inferInstanceAs (Decidable (∃ d ∈ _, _))

/-- No result where the source follows a NULL or overruns a buffer, or where a connection is made to nobody. -/
def step (o : Overlay ι) (s : Net ι) : Event ι → Option (Net ι)
  | .connect i cmd attempt => do
    let dialling ← Neighbours.clientRequestConnect (o.host i) cmd attempt
    s.link o i dialling
  | .raw j i line => if s.Lists o j i then some (s.setInbox i (s.inbox i ++ [line])) else none
  | .neighbourhood i k => do
    let d ← (s.node i).daemons[k]?
    let j ← o.target d.addr d.port
    if !s.Lists o j i then none
    let texts ← daemonRequestNeighbourhood d.addr (s.node i).daemons
    return s.setInbox j (s.inbox j ++ texts.map messageOf)
  | .handle i k attempt => do
    let line ← (s.inbox i)[k]?
    let dialling ← daemonRequestNeighbour (o.host i) (s.node i).daemons line attempt
    (s.setInbox i ((s.inbox i).eraseIdx k)).link o i dialling
  | .tooMany i k => if k < (s.inbox i).length then some (s.setInbox i ((s.inbox i).eraseIdx k)) else none
  | .accept i j timely =>
    match s.pending (j, i) with
    | [] => none
    | ident :: pending => some ((s.setPending j i pending).accept o i j timely ident)
  | .begin i k => do
    -- only on an idle thread of the pool
    if (s.node i).daemons.length ≥ o.maxDaemons i then none
    let node ← Neighbours.step (o.host i) (s.node i) (.begin k)
    return { s with node := Function.update s.node i node }

/-- The daemons in the list and in the queue. -/
def Net.entries (s : Net ι) (i : ι) : List Daemon := (s.node i).daemons ++ (s.node i).queued

def Net.count (o : Overlay ι) (s : Net ι) (i j : ι) : Nat := (s.entries i).countP fun d => o.Leads d j

/-- No identification and no line waits. -/
def Net.Quiet (s : Net ι) : Prop := (∀ i j, s.pending (i, j) = []) ∧ ∀ i, s.inbox i = []

/-- Nor does a daemon in a queue. -/
def Net.AtRest (s : Net ι) : Prop := s.Quiet ∧ ∀ i, (s.node i).queued = []

instance [Fintype ι] (s : Net ι) : Decidable s.Quiet :=
  inferInstanceAs (Decidable (_ ∧ _))

instance [Fintype ι] (s : Net ι) : Decidable s.AtRest :=
  inferInstanceAs (Decidable (_ ∧ _))

/-! ### Conditions on runs -/

/-- Identifications come in time for `start_server`. -/
def Event.Timely : Event ι → Prop
  | .accept _ _ timely => timely = true
  | _ => True

instance : (e : Event ι) → Decidable e.Timely
  | .accept .. => inferInstanceAs (Decidable (_ = _))
  | .connect .. | .raw .. | .neighbourhood .. | .handle .. | .tooMany .. | .begin .. => isTrue trivial

/-- Daemon `i` handles every line, and it gets its connection to every daemon that runs. -/
def Undisturbed (o : Overlay ι) (i : ι) (s : Net ι) : Event ι → Prop
  | .handle i' k attempt =>
    i' = i → ∀ line ∈ (s.inbox i)[k]?, ∀ address ∈ neighbourAddress line,
      (o.target address.1 address.2).isSome → attempt.socket = true ∧ attempt.connect = true ∧ attempt.new = true
  | .tooMany i' _ => i' ≠ i
  | _ => True

instance (o : Overlay ι) (i : ι) (s : Net ι) : (e : Event ι) → Decidable (Undisturbed o i s e)
  | .handle i' k _ =>
    inferInstanceAs (Decidable (i' = i → ∀ line ∈ (s.inbox i)[k]?, ∀ address ∈ neighbourAddress line, _ → _ ∧ _ ∧ _))
  | .tooMany .. => inferInstanceAs (Decidable (_ ≠ _))
  | .connect .. | .raw .. | .neighbourhood .. | .accept .. | .begin .. => isTrue trivial

variable {s t : Net ι} {e : Event ι} {i' j' : ι} {d' : Daemon} {k : Nat} {line : CString} {lines : List CString}

/-! ### Lists and lines behind a step -/

/-- The k-th of the queued daemons is in the list. -/
def Net.begun (s : Net ι) (i : ι) (k : Nat) (d : Daemon) : Net ι :=
  { s with node := Function.update s.node i ⟨d :: (s.node i).daemons, (s.node i).queued.eraseIdx k⟩ }

theorem count_eq_of_perm (perm : (t.entries i).Perm (s.entries i)) : t.count o i j = s.count o i j :=
  perm.countP_eq _

theorem entries_queue_self : (s.queue i d).entries i = s.entries i ++ [d] := by
  simp [Net.entries, Net.queue]

theorem entries_queue_other (other : i' ≠ i) : (s.queue i d).entries i' = s.entries i' := by
  simp [Net.entries, Net.queue, Function.update_of_ne other]

theorem mem_entries_queue : d' ∈ (s.queue i d).entries i' ↔ d' ∈ s.entries i' ∨ i' = i ∧ d' = d := by
  by_cases same : i' = i
  · subst same
    simp [entries_queue_self]
  · simp [entries_queue_other same, same]

/-- An entry counts for the daemon that it leads to. -/
theorem count_queue (leads : o.Leads d j) :
    (s.queue i d).count o i' j' = s.count o i' j' + if i' = i ∧ j' = j then 1 else 0 := by
  have only : o.Leads d j' ↔ j' = j := by
    unfold Overlay.Leads at leads ⊢
    rw [leads, Option.some.injEq, eq_comm]
  unfold Net.count
  by_cases same : i' = i
  · subst same
    rw [entries_queue_self, List.countP_append]
    simp [only]
  · rw [entries_queue_other same]
    simp [same]

theorem daemons_queue : ((s.queue i d).node i').daemons = (s.node i').daemons := by
  by_cases same : i' = i
  · subst same
    simp [Net.queue]
  · simp [Net.queue, Function.update_of_ne same]

theorem entries_begun (here : (s.node i).queued[k]? = some d) : ((s.begun i k d).entries i').Perm (s.entries i') := by
  by_cases same : i' = i
  · subst same
    -- the daemon moves from the queue to the list
    obtain ⟨bound, rfl⟩ := List.getElem?_eq_some_iff.mp here
    have moved := List.getElem_cons_eraseIdx_perm bound
    simp only [Net.entries, Net.begun, Function.update_self]
    exact List.perm_middle.symm.trans (moved.append_left _)
  · simp [Net.entries, Net.begun, Function.update_of_ne same]

theorem pending_setPending_self : (s.setPending i j lines).pending (i, j) = lines := by
  simp [Net.setPending]

theorem length_pending_setPending :
    ((s.setPending i j lines).pending (i', j')).length =
      if i' = i ∧ j' = j then lines.length else (s.pending (i', j')).length := by
  by_cases same : i' = i ∧ j' = j
  · obtain ⟨rfl, rfl⟩ := same
    simp [Net.setPending]
  · have other : (i', j') ≠ (i, j) := by simpa using same
    simp [Net.setPending, same]

theorem mem_pending_setPending (member : line ∈ (s.setPending i j lines).pending (i', j')) :
    (i' = i ∧ j' = j ∧ line ∈ lines) ∨ line ∈ s.pending (i', j') := by
  by_cases same : (i', j') = (i, j)
  · obtain ⟨rfl, rfl⟩ := Prod.mk.inj same
    rw [pending_setPending_self] at member
    exact .inl ⟨rfl, rfl, member⟩
  · simp only [Net.setPending, Function.update_of_ne same] at member
    exact .inr member

/-! ### What a step does -/

/-- Daemon `i` has connected to daemon `j`. -/
def Net.dialled (o : Overlay ι) (s : Net ι) (i : ι) (d : Daemon) (j : ι) : Net ι :=
  (s.queue i d).setPending i j (s.pending (i, j) ++ [identMsg (o.host i)])

theorem link_cases (linked : s.link o i dialling = some t)
    (dials : ∀ d, dialling.queued = some d → Dials (o.host i) dialling d) :
    dialling.queued = none ∧ t = s ∨
      ∃ d j, dialling.queued = some d ∧ o.Leads d j ∧ j ≠ i ∧ t = s.dialled o i d j := by
  unfold Net.link at linked
  split at linked
  next d queued =>
    obtain ⟨j, leads, rfl⟩ := Option.map_eq_some_iff.mp linked
    have dial := dials d queued
    refine .inr ⟨d, j, queued, leads, leads_other leads dial.other, ?_⟩
    rw [Net.dialled, dial.sent]
  next queued _ =>
    cases linked
    exact .inl ⟨queued, rfl⟩
  next => cases linked

/-- A step brings lines, connects one daemon to another, accepts a connection or starts a thread. -/
inductive Change (o : Overlay ι) (s : Net ι) (e : Event ι) : Net ι → Prop where
  | lines (i : ι) (lines : List CString) : Change o s e (s.setInbox i lines)
  | dials (i j : ι) (lines : List CString) (d : Daemon) (leads : o.Leads d j) (other : j ≠ i) :
    Change o s e ((s.setInbox i lines).dialled o i d j)
  | accepts (i j : ι) (timely : Bool) (ident : CString) (pending : List CString) (isAccept : e = .accept i j timely)
    (first : s.pending (j, i) = ident :: pending) :
    Change o s e ((s.setPending j i pending).accept o i j timely ident)
  | begins (i : ι) (k : Nat) (d : Daemon) (room : (s.node i).daemons.length < o.maxDaemons i)
    (here : (s.node i).queued[k]? = some d) : Change o s e (s.begun i k d)

theorem step_connect (taken : step o s (.connect i cmd attempt) = some t) :
    ∃ dialling, Neighbours.clientRequestConnect (o.host i) cmd attempt = some dialling ∧
      s.link o i dialling = some t :=
  Option.bind_eq_some_iff.mp taken

theorem step_handle (taken : step o s (.handle i k attempt) = some t) :
    ∃ line dialling, (s.inbox i)[k]? = some line ∧
      daemonRequestNeighbour (o.host i) (s.node i).daemons line attempt = some dialling ∧
      (s.setInbox i ((s.inbox i).eraseIdx k)).link o i dialling = some t := by
  obtain ⟨line, here, taken⟩ := Option.bind_eq_some_iff.mp taken
  obtain ⟨dialling, handled, linked⟩ := Option.bind_eq_some_iff.mp taken
  exact ⟨line, dialling, here, handled, linked⟩

theorem step_tooMany (taken : step o s (.tooMany i k) = some t) :
    k < (s.inbox i).length ∧ t = s.setInbox i ((s.inbox i).eraseIdx k) := by
  simp only [step] at taken
  split at taken
  next bound =>
    cases taken
    exact ⟨bound, rfl⟩
  · cases taken

theorem step_accept {timely : Bool} (taken : step o s (.accept i j timely) = some t) :
    ∃ ident pending, s.pending (j, i) = ident :: pending ∧
      t = (s.setPending j i pending).accept o i j timely ident := by
  simp only [step] at taken
  split at taken
  · cases taken
  next ident pending first =>
    cases taken
    exact ⟨ident, pending, first, rfl⟩

theorem step_raw (taken : step o s (.raw j i line) = some t) :
    s.Lists o j i ∧ t = s.setInbox i (s.inbox i ++ [line]) := by
  simp only [step] at taken
  split at taken
  next lists =>
    cases taken
    exact ⟨lists, rfl⟩
  · cases taken

theorem step_neighbourhood (taken : step o s (.neighbourhood i k) = some t) :
    ∃ d j texts, (s.node i).daemons[k]? = some d ∧ o.Leads d j ∧ s.Lists o j i ∧
      daemonRequestNeighbourhood d.addr (s.node i).daemons = some texts ∧
      t = s.setInbox j (s.inbox j ++ texts.map messageOf) := by
  obtain ⟨d, asker, taken⟩ := Option.bind_eq_some_iff.mp taken
  obtain ⟨j, leads, taken⟩ := Option.bind_eq_some_iff.mp taken
  by_cases lists : s.Lists o j i
  · simp only [lists, decide_true, Bool.not_true, Bool.false_eq_true, if_false] at taken
    obtain ⟨texts, handled, taken⟩ := Option.bind_eq_some_iff.mp taken
    cases taken
    exact ⟨d, j, texts, asker, leads, lists, handled, rfl⟩
  · simp [lists] at taken

theorem step_begin (taken : step o s (.begin i k) = some t) :
    ∃ d, (s.node i).daemons.length < o.maxDaemons i ∧ (s.node i).queued[k]? = some d ∧ t = s.begun i k d := by
  simp only [step] at taken
  split at taken
  · cases taken
  next room =>
    obtain ⟨node, begun, taken⟩ := Option.bind_eq_some_iff.mp taken
    obtain ⟨d, here, rfl⟩ := Option.map_eq_some_iff.mp begun
    cases taken
    exact ⟨d, not_le.mp room, here, rfl⟩

theorem setInbox_self (s : Net ι) (i : ι) : s.setInbox i (s.inbox i) = s := by
  simp [Net.setInbox]

theorem step_change (taken : step o s e = some t) : Change o s e t := by
  cases e with
  | connect i cmd attempt =>
    obtain ⟨dialling, handled, linked⟩ := step_connect taken
    -- the inbox is as it was
    rw [← setInbox_self s i] at linked
    rcases link_cases linked fun d queued => dials_connect handled queued with
      ⟨-, rfl⟩ | ⟨d, j, -, leads, other, rfl⟩
    · exact .lines i _
    · exact .dials i j _ d leads other
  | raw j i line =>
    obtain ⟨-, rfl⟩ := step_raw taken
    exact .lines i _
  | neighbourhood i k =>
    obtain ⟨d, j, texts, -, -, -, -, rfl⟩ := step_neighbourhood taken
    exact .lines j _
  | handle i k attempt =>
    obtain ⟨line, dialling, -, handled, linked⟩ := step_handle taken
    rcases link_cases linked fun d queued => (dials_neighbour handled queued).1 with
      ⟨-, rfl⟩ | ⟨d, j, -, leads, other, rfl⟩
    · exact .lines i _
    · exact .dials i j _ d leads other
  | tooMany i k =>
    obtain ⟨-, rfl⟩ := step_tooMany taken
    exact .lines i _
  | accept i j timely =>
    obtain ⟨ident, pending, first, rfl⟩ := step_accept taken
    exact .accepts i j timely ident pending rfl first
  | begin i k =>
    obtain ⟨d, room, here, rfl⟩ := step_begin taken
    exact .begins i k d room here

/-! ### Entries are genuine -/

/-- Entries lead to other daemons that run, there are no more of them listed than the pool has threads, and what waits
on a connection is the identification of the daemon that has made it. -/
structure Genuine (o : Overlay ι) (s : Net ι) : Prop where
  entries : ∀ i, ∀ d ∈ s.entries i, ∃ j, j ≠ i ∧ o.Leads d j
  room : ∀ i, (s.node i).daemons.length ≤ o.maxDaemons i
  pending : ∀ i j, ∀ line ∈ s.pending (i, j), j ≠ i ∧ line = identMsg (o.host i)

omit [DecidableEq ι] in
theorem genuine_start (o : Overlay ι) : Genuine o .start where
  entries := by simp [Net.entries, Net.start, Neighbours.start]
  room := by
    intro i
    obtain ⟨lines, prefs⟩ := o.configured i
    have positive := maxPeers_gt lines .daemon
    rw [← prefs] at positive
    exact (Int.zero_le_ofNat 1).trans positive.le
  pending := by simp [Net.start]

/-- An identification is always understood, and there is always room. -/
theorem accept_eq (room : (s.node i).daemons.length ≤ o.maxDaemons i) (timely : Bool) :
    s.accept o i j timely (identMsg (o.host j)) =
      if timely then s.queue i ⟨inetNtop (o.host j).myIp, (o.host j).prefs.daemonPort, false⟩ else s := by
  unfold Net.accept
  rw [(identMsg_decoded (o.host j)).2.1, if_neg (not_lt.mpr room)]
  cases timely with
  | false => rfl
  | true => rfl

theorem genuine_queue (genuine : Genuine o s) (leads : o.Leads d j) (other : j ≠ i) : Genuine o (s.queue i d) where
  entries := by
    intro i' d' member
    rcases mem_entries_queue.mp member with old | ⟨rfl, rfl⟩
    · exact genuine.entries i' d' old
    · exact ⟨j, other, leads⟩
  room := by
    intro i'
    rw [daemons_queue]
    exact genuine.room i'
  pending := genuine.pending

theorem genuine_setPending (genuine : Genuine o s)
    (idents : ∀ line ∈ lines, j ≠ i ∧ line = identMsg (o.host i)) : Genuine o (s.setPending i j lines) where
  entries := genuine.entries
  room := genuine.room
  pending := by
    intro i' j' line member
    rcases mem_pending_setPending member with ⟨rfl, rfl, new⟩ | old
    · exact idents line new
    · exact genuine.pending i' j' line old

theorem genuine_setInbox (genuine : Genuine o s) : Genuine o (s.setInbox i lines) :=
  ⟨genuine.entries, genuine.room, genuine.pending⟩

theorem genuine_begun (genuine : Genuine o s) (room : (s.node i).daemons.length < o.maxDaemons i)
    (here : (s.node i).queued[k]? = some d) : Genuine o (s.begun i k d) where
  entries := fun i' d' member => genuine.entries i' d' ((entries_begun here).subset member)
  room := by
    intro i'
    by_cases same : i' = i
    · subst same
      simp only [Net.begun, Function.update_self, List.length_cons]
      omega
    · simp only [Net.begun, Function.update_of_ne same]
      exact genuine.room i'
  pending := genuine.pending

theorem genuine_step (genuine : Genuine o s) (taken : step o s e = some t) : Genuine o t := by
  cases step_change taken with
  | lines i lines => exact genuine_setInbox genuine
  | dials i j lines d leads other =>
    refine genuine_setPending (genuine_queue (genuine_setInbox genuine) leads other) ?_
    intro line member
    rcases List.mem_append.mp member with old | new
    · exact genuine.pending i j line old
    · exact ⟨other, List.mem_singleton.mp new⟩
  | accepts i j timely ident pending isAccept first =>
    have waiting := genuine.pending j i
    rw [first] at waiting
    obtain ⟨other, rfl⟩ := waiting ident List.mem_cons_self
    have read : Genuine o (s.setPending j i pending) :=
      genuine_setPending genuine fun line member => waiting line (List.mem_cons_of_mem _ member)
    rw [accept_eq (read.room i)]
    split
    · exact genuine_queue read (leads_self o j false) other.symm
    · exact read
  | begins i k d room here => exact genuine_begun genuine room here

/-! ### Links agree -/

/-- Between two daemons each has as many entries for the other, counting the connections that have still to be
accepted. -/
def Agree (o : Overlay ι) (s : Net ι) : Prop :=
  ∀ i j, s.count o i j + (s.pending (j, i)).length = s.count o j i + (s.pending (i, j)).length

theorem agree_start (o : Overlay ι) : Agree o .start := by
  intro i j
  rfl

theorem agree_step (genuine : Genuine o s) (agree : Agree o s) (isTimely : e.Timely) (taken : step o s e = some t) :
    Agree o t := by
  intro a b
  have before := agree a b
  cases step_change taken with
  | lines i lines => exact before
  | dials i j lines d leads other =>
    have counts (a b : ι) : ((s.setInbox i lines).dialled o i d j).count o a b =
        s.count o a b + if a = i ∧ b = j then 1 else 0 := count_queue leads
    have waits (a b : ι) : (((s.setInbox i lines).dialled o i d j).pending (a, b)).length =
        (s.pending (a, b)).length + if a = i ∧ b = j then 1 else 0 := by
      rw [Net.dialled, length_pending_setPending]
      by_cases here : a = i ∧ b = j
      · obtain ⟨rfl, rfl⟩ := here
        simp [Net.setInbox]
      · simp [here, Net.queue, Net.setInbox]
    rw [counts a b, counts b a, waits a b, waits b a]
    omega
  | accepts i j timely ident pending isAccept first =>
    subst isAccept
    have inTime : timely = true := isTimely
    have waiting := genuine.pending j i
    rw [first] at waiting
    obtain ⟨other, rfl⟩ := waiting ident List.mem_cons_self
    rw [accept_eq (s := s.setPending j i pending) (genuine.room i), if_pos inTime]
    -- what was pending is an entry now
    have counts (a b : ι) :
        ((s.setPending j i pending).queue i
          ⟨inetNtop (o.host j).myIp, (o.host j).prefs.daemonPort, false⟩).count o a b =
            s.count o a b + if a = i ∧ b = j then 1 else 0 := count_queue (leads_self o j false)
    have waits (a b : ι) : ((s.setPending j i pending).pending (a, b)).length + (if b = i ∧ a = j then 1 else 0) =
        (s.pending (a, b)).length := by
      rw [length_pending_setPending]
      by_cases here : a = j ∧ b = i
      · obtain ⟨rfl, rfl⟩ := here
        simp [first]
      · simp [here, and_comm]
    have forth := waits a b
    have back := waits b a
    rw [counts a b, counts b a]
    change _ + ((s.setPending j i pending).pending (b, a)).length =
      _ + ((s.setPending j i pending).pending (a, b)).length
    omega
  | begins i k d room here =>
    have same (a b : ι) : (s.begun i k d).count o a b = s.count o a b := count_eq_of_perm (entries_begun here)
    rw [same a b, same b a]
    exact before

theorem exec_genuine {es : List (Event ι)} (genuine : Genuine o s) (ran : exec (step o) s es = some t) : Genuine o t :=
  exec_invariant_all (Genuine o) (fun _ _ _ genuine taken => genuine_step genuine taken) genuine ran

theorem exec_agree {es : List (Event ι)} (genuine : Genuine o s) (agree : Agree o s)
    (timely : ∀ e ∈ es, e.Timely) (ran : exec (step o) s es = some t) : Agree o t := by
  -- the two invariants go together
  have both : Genuine o t ∧ Agree o t := exec_invariant (fun _ e => e.Timely) (fun s => Genuine o s ∧ Agree o s)
    (fun _ _ _ inv isTimely taken => ⟨genuine_step inv.1 taken, agree_step inv.1 inv.2 isTimely taken⟩)
    ⟨genuine, agree⟩ (along_of_forall timely) ran
  exact both.2

/-- Where no daemon is queued, the entries are those of the list. -/
theorem lists_iff_count (queued : (s.node i).queued = []) : s.Lists o i j ↔ 0 < s.count o i j := by
  unfold Net.Lists Net.count Net.entries
  rw [queued, List.append_nil, List.countP_pos_iff]
  simp

/-- Hosts with an address each. -/
def Overlay.ofHosts {n : Nat} (host : Fin n → Host) (configured : ∀ i, ∃ lines, (host i).prefs = confRetrieve lines)
    (apart : ∀ i j, (host i).myIp = (host j).myIp → i = j) : Overlay (Fin n) where
  host := host
  configured := configured
  listener address port :=
    (List.finRange n).find? fun j => (host j).myIp = address ∧ sinPort (host j).prefs.daemonPort = port
  listener_iff := by
    intro address port j
    constructor
    · intro found
      simpa using List.find?_some found
    · intro there
      -- there is one, and it has the same address
      obtain ⟨j', found⟩ : ∃ j', (List.finRange n).find? (fun j => decide ((host j).myIp = address ∧
          sinPort (host j).prefs.daemonPort = port)) = some j' :=
        Option.isSome_iff_exists.mp (List.find?_isSome.mpr ⟨j, List.mem_finRange j, by simpa using there⟩)
      have there' := List.find?_some found
      rw [decide_eq_true_eq] at there'
      rw [found, apart j' j (there'.1.trans there.1.symm)]

def threeHosts : Fin 3 → Host
  | 0 => ⟨⟨10, 0, 0, 1⟩, confRetrieve []⟩
  | 1 => ⟨⟨10, 0, 0, 2⟩, confRetrieve []⟩
  | 2 => ⟨⟨10, 0, 0, 3⟩, confRetrieve []⟩

def three : Overlay (Fin 3) :=
  .ofHosts threeHosts (fun i => ⟨[], by match i with | 0 | 1 | 2 => rfl⟩) (by decide)

/-- Daemon 1 is connected to daemon 2, and then daemon 0 to daemon 1. -/
def joining : List (Event (Fin 3)) :=
  [.connect 1 "connect 10.0.0.3:7331".toList Neighbours.succeeds, .begin 1 0, .accept 2 1 true, .begin 2 0,
    .connect 0 "connect 10.0.0.2:7331".toList Neighbours.succeeds, .accept 1 0 true, .begin 1 0, .begin 0 0]

theorem inetNtop_injective {a b : Ipv4} (same : inetNtop a = inetNtop b) : a = b :=
  Option.some.inj ((inetPton_eq_some_iff.mpr same.symm).symm.trans (inetPton_eq_some_iff.mpr rfl))

omit [DecidableEq ι] in
/-- Of daemons on different hosts, the address alone tells which is meant. -/
theorem leads_of_addr (apart : o.OnePerHost) (leads : o.Leads d j) (leads' : o.Leads d' j')
    (same : d'.addr = d.addr) : j' = j := by
  apply apart.distinct
  apply inetNtop_injective
  rw [← (target_iff.mp leads).1, ← (target_iff.mp leads').1, same]

/-- A line tells of a daemon. -/
def Tells (o : Overlay ι) (line : CString) (j : ι) : Prop :=
  ∃ d, neighbourAddress line = some (d.addr, d.port) ∧ o.Leads d j

/-- Daemon `i` has an entry for daemon `j`, or a line that tells of it. -/
def Heard (o : Overlay ι) (i j : ι) (s : Net ι) : Prop :=
  (∃ d ∈ s.entries i, o.Leads d j) ∨ ∃ line ∈ s.inbox i, Tells o line j

omit [DecidableEq ι] in
theorem tells_neighbourLine (leads : o.Leads d j) : Tells o (messageOf (neighbourLine d)) j := by
  refine ⟨d, neighbourAddress_neighbourLine_of_noColon ?_, leads⟩
  rw [(target_iff.mp leads).1]
  exact Connect.colon_notMem_inetNtop _

theorem entries_step (taken : step o s e = some t) (member : d ∈ s.entries i) : d ∈ t.entries i := by
  cases step_change taken with
  | lines i' lines => exact member
  | dials i' j' lines d' leads other => exact mem_entries_queue.mpr (.inl member)
  | accepts i' j' timely ident pending isAccept first =>
    unfold Net.accept
    split
    · exact member
    split
    · exact member
    split
    · exact member
    · exact mem_entries_queue.mpr (.inl member)
  | begins i' k d' room here => exact (entries_begun here).symm.subset member

omit [DecidableEq ι] in
/-- A daemon that is told of another one knows it already, or it gets its connection and queues it. -/
theorem told_dials (apart : o.OnePerHost) (entries : ∀ d ∈ daemons, ∃ j, j ≠ i ∧ o.Leads d j) (other : j ≠ i)
    (tells : Tells o line j) (succeeds : attempt.socket = true ∧ attempt.connect = true ∧ attempt.new = true)
    (handled : daemonRequestNeighbour (o.host i) daemons line attempt = some dialling) :
    (∃ d ∈ daemons, o.Leads d j) ∨ ∃ d, dialling.queued = some d ∧ o.Leads d j := by
  obtain ⟨d, parsed, leads⟩ := tells
  obtain ⟨socket, connect, new⟩ := succeeds
  by_cases known : daemons.any (·.addr = d.addr)
  · left
    obtain ⟨d', inList, same⟩ : ∃ d' ∈ daemons, d'.addr = d.addr := by simpa using known
    obtain ⟨j', -, leads'⟩ := entries d' inList
    rw [leads_of_addr apart leads leads' same] at leads'
    exact ⟨d', inList, leads'⟩
  · right
    have myself : isMyself (o.host i) d.addr = false := by
      rw [(target_iff.mp leads).1]
      have differ : inetNtop (o.host j).myIp ≠ inetNtop (o.host i).myIp :=
        fun same => other (apart.distinct _ _ (inetNtop_injective same))
      exact decide_eq_false (not_or.mpr ⟨differ, apart.loopback j⟩)
    simp only [daemonRequestNeighbour, parsed, Option.bind_eq_bind, Option.bind_some, identMsg_fits, known, myself,
      socket, connect, new] at handled
    cases handled
    exact ⟨⟨d.addr, d.port, true⟩, rfl, leads⟩

theorem inbox_link (linked : s.link o i dialling = some t) : t.inbox = s.inbox := by
  unfold Net.link at linked
  split at linked
  · obtain ⟨j, -, rfl⟩ := Option.map_eq_some_iff.mp linked
    rfl
  · cases linked
    rfl
  · cases linked

theorem entries_link (linked : s.link o i dialling = some t) (queued : dialling.queued = some d) :
    d ∈ t.entries i := by
  unfold Net.link at linked
  rw [queued] at linked
  obtain ⟨j, -, rfl⟩ := Option.map_eq_some_iff.mp linked
  exact mem_entries_queue.mpr (.inr ⟨rfl, rfl⟩)

theorem inbox_accept (timely : Bool) (ident : CString) : (s.accept o i j timely ident).inbox = s.inbox := by
  unfold Net.accept
  split
  · rfl
  split
  · rfl
  split
  · rfl
  · rfl

theorem inbox_setInbox_self : (s.setInbox i lines).inbox i = lines := by
  simp [Net.setInbox]

theorem inbox_setInbox_other (other : i' ≠ i) : (s.setInbox i lines).inbox i' = s.inbox i' := by
  simp [Net.setInbox, Function.update_of_ne other]

/-- Lines that come in stay behind those that are there. -/
theorem mem_inbox_append (member : line ∈ s.inbox i) : line ∈ (s.setInbox i' (s.inbox i' ++ lines)).inbox i := by
  by_cases same : i = i'
  · subst same
    rw [inbox_setInbox_self]
    exact List.mem_append_left _ member
  · rwa [inbox_setInbox_other same]

/-- What a daemon has heard of it keeps, until the line is handled and the daemon is known. -/
theorem heard_step (apart : o.OnePerHost) (genuine : Genuine o s) (other : j ≠ i) (heard : Heard o i j s)
    (undisturbed : Undisturbed o i s e) (taken : step o s e = some t) : Heard o i j t := by
  rcases heard with ⟨d, entry, leads⟩ | ⟨line, waits, tells⟩
  · exact .inl ⟨d, entries_step taken entry, leads⟩
  -- which steps take the line away
  cases e with
  | connect i' cmd attempt =>
    obtain ⟨dialling, -, linked⟩ := step_connect taken
    rw [← inbox_link linked] at waits
    exact .inr ⟨line, waits, tells⟩
  | raw j' i' more =>
    obtain ⟨-, rfl⟩ := step_raw taken
    exact .inr ⟨line, mem_inbox_append waits, tells⟩
  | neighbourhood i' k =>
    obtain ⟨d, j', texts, -, -, -, -, rfl⟩ := step_neighbourhood taken
    exact .inr ⟨line, mem_inbox_append waits, tells⟩
  | handle i' k attempt =>
    obtain ⟨line', dialling, here, handled, linked⟩ := step_handle taken
    have inbox := congrFun (inbox_link linked) i
    by_cases mine : i' = i
    · subst mine
      rw [inbox_setInbox_self] at inbox
      obtain ⟨bound, at_⟩ := List.getElem?_eq_some_iff.mp here
      have rest := (List.getElem_cons_eraseIdx_perm bound).symm.subset waits
      rw [at_, List.mem_cons, ← inbox] at rest
      rcases rest with rfl | rest
      · -- it is the line that is handled
        obtain ⟨d, parsed, leads⟩ := tells
        have reached := undisturbed rfl line (by simp [here]) (d.addr, d.port) (by simp [parsed])
          (Option.isSome_iff_exists.mpr ⟨j, leads⟩)
        rcases told_dials apart (fun d member => genuine.entries i' d (List.mem_append_left _ member)) other
          ⟨d, parsed, leads⟩ reached handled with ⟨d, known, leads⟩ | ⟨d, queued, leads⟩
        · exact .inl ⟨d, entries_step taken (List.mem_append_left _ known), leads⟩
        · exact .inl ⟨d, entries_link linked queued, leads⟩
      · exact .inr ⟨line, rest, tells⟩
    · rw [inbox_setInbox_other (Ne.symm mine)] at inbox
      rw [← inbox] at waits
      exact .inr ⟨line, waits, tells⟩
  | tooMany i' k =>
    obtain ⟨-, rfl⟩ := step_tooMany taken
    rw [← inbox_setInbox_other (Ne.symm undisturbed)] at waits
    exact .inr ⟨line, waits, tells⟩
  | accept i' j' timely =>
    obtain ⟨ident, pending, -, rfl⟩ := step_accept taken
    refine .inr ⟨line, ?_, tells⟩
    rwa [inbox_accept]
  | begin i' k =>
    obtain ⟨d, -, -, rfl⟩ := step_begin taken
    exact .inr ⟨line, waits, tells⟩

/-- An answer to `neighbourhood` tells of all that are listed. -/
theorem heard_asked {m : ι} (apart : o.OnePerHost) (other : j ≠ i)
    (asker : (s.node m).daemons[k]? = some d) (leads : o.Leads d i) (listed : s.Lists o m j)
    (asked : step o s (.neighbourhood m k) = some t) : Heard o i j t := by
  obtain ⟨d', member, leads'⟩ := listed
  obtain ⟨d, i', texts, here, leads'', -, handled, rfl⟩ := step_neighbourhood asked
  cases Option.some.inj (asker.symm.trans here)
  cases Option.some.inj (leads.symm.trans leads'')
  -- the asker has another address
  have differ : d'.addr ≠ d.addr := fun same => other (leads_of_addr apart leads leads' same)
  have told : neighbourLine d' ∈ texts := (mem_daemonRequestNeighbourhood handled).mpr ⟨d', member, differ, rfl⟩
  refine .inr ⟨_, ?_, tells_neighbourLine leads'⟩
  rw [inbox_setInbox_self]
  exact List.mem_append_right _ (List.mem_map_of_mem told)

theorem exec_heard {es : List (Event ι)} (apart : o.OnePerHost) (genuine : Genuine o s) (other : j ≠ i)
    (heard : Heard o i j s) (undisturbed : Along (step o) (Undisturbed o i) s es)
    (ran : exec (step o) s es = some t) : Heard o i j t := by
  have both : Genuine o t ∧ Heard o i j t := exec_invariant (Undisturbed o i) (fun s => Genuine o s ∧ Heard o i j s)
    (fun _ _ _ inv undisturbed taken =>
      ⟨genuine_step inv.1 taken, heard_step apart inv.1 other inv.2 undisturbed taken⟩)
    ⟨genuine, heard⟩ undisturbed ran
  exact both.2

/-- What follows when daemon 0 has asked daemon 1. -/
def telling : List (Event (Fin 3)) :=
  [.handle 0 0 Neighbours.succeeds, .accept 2 0 true, .begin 0 0, .begin 2 0]

section Rest

variable [Fintype ι]

/-- A bound on the steps that follow from what was typed: a line may lead to a connection, and a connection to an entry
in the queues of both sides. -/
def Net.work (s : Net ι) : Nat :=
  4 * ∑ i, (s.inbox i).length + ∑ i, (s.node i).queued.length + 2 * ∑ p, (s.pending p).length

/-- One value of a sum is exchanged. -/
theorem sum_update {κ α : Type} [Fintype κ] [DecidableEq κ] (f : κ → α) (size : α → Nat) (i : κ) (a : α) :
    ∑ k, size (Function.update f i a k) + size (f i) = ∑ k, size (f k) + size a := by
  have changed : ∀ k, size (Function.update f i a k) = Function.update (fun k => size (f k)) i (size a) k := by
    intro k
    by_cases same : k = i
    · subst same
      simp
    · simp [Function.update_of_ne same]
  simp only [changed]
  rw [Finset.sum_update_of_mem (Finset.mem_univ i),
    Finset.sum_eq_add_sum_sdiff_singleton_of_mem (Finset.mem_univ i) fun k => size (f k)]
  omega

theorem work_setInbox (s : Net ι) (i : ι) (lines : List CString) :
    (s.setInbox i lines).work + 4 * (s.inbox i).length = s.work + 4 * lines.length := by
  have total := sum_update s.inbox List.length i lines
  simp only [Net.work, Net.setInbox]
  omega

theorem work_setPending (s : Net ι) (i j : ι) (lines : List CString) :
    (s.setPending i j lines).work + 2 * (s.pending (i, j)).length = s.work + 2 * lines.length := by
  have total := sum_update s.pending List.length (i, j) lines
  simp only [Net.work, Net.setPending]
  omega

theorem work_queue : (s.queue i d).work = s.work + 1 := by
  have total := sum_update s.node (fun node => node.queued.length) i
    { s.node i with queued := (s.node i).queued ++ [d] }
  simp only [List.length_append, List.length_singleton] at total
  simp only [Net.work, Net.queue]
  omega

theorem work_begun (here : (s.node i).queued[k]? = some d) : (s.begun i k d).work + 1 = s.work := by
  have total := sum_update s.node (fun node => node.queued.length) i
    ⟨d :: (s.node i).daemons, (s.node i).queued.eraseIdx k⟩
  have bound := (List.getElem?_eq_some_iff.mp here).1
  simp only [List.length_eraseIdx_of_lt bound] at total
  simp only [Net.work, Net.begun]
  omega

theorem work_accept (timely : Bool) (ident : CString) : (s.accept o i j timely ident).work ≤ s.work + 1 := by
  unfold Net.accept
  split
  · exact Nat.le_succ _
  split
  · exact Nat.le_succ _
  split
  · exact Nat.le_succ _
  · exact work_queue.le

theorem work_eraseIdx (bound : k < (s.inbox i).length) :
    (s.setInbox i ((s.inbox i).eraseIdx k)).work + 4 = s.work := by
  have changed := work_setInbox s i ((s.inbox i).eraseIdx k)
  rw [List.length_eraseIdx_of_lt bound] at changed
  omega

theorem work_link (linked : s.link o i dialling = some t)
    (dials : ∀ d, dialling.queued = some d → Dials (o.host i) dialling d) : t.work ≤ s.work + 3 := by
  rcases link_cases linked dials with ⟨-, rfl⟩ | ⟨d, j, -, -, -, rfl⟩
  · omega
  · have pending := work_setPending (s.queue i d) i j (s.pending (i, j) ++ [identMsg (o.host i)])
    rw [work_queue, List.length_append, List.length_singleton] at pending
    change (s.dialled o i d j).work + 2 * (s.pending (i, j)).length = _ at pending
    omega

/-- Every step that no user has asked for uses up some of the work. -/
theorem work_falls (follows : e.typed = false) (taken : step o s e = some t) : t.work < s.work := by
  cases e with
  | connect | raw | neighbourhood => cases follows
  | handle i k attempt =>
    obtain ⟨line, dialling, here, handled, linked⟩ := step_handle taken
    have less := work_eraseIdx (List.getElem?_eq_some_iff.mp here).1
    have more := work_link linked fun d queued => (dials_neighbour handled queued).1
    omega
  | tooMany i k =>
    obtain ⟨bound, rfl⟩ := step_tooMany taken
    have less := work_eraseIdx bound
    omega
  | accept i j timely =>
    obtain ⟨ident, pending, first, rfl⟩ := step_accept taken
    have less := work_setPending s j i pending
    rw [first, List.length_cons] at less
    have more := work_accept (s := s.setPending j i pending) (o := o) (i := i) (j := j) timely ident
    omega
  | begin i k =>
    obtain ⟨d, -, here, rfl⟩ := step_begin taken
    exact Nat.lt_of_succ_le (work_begun here).le

/-- Every line under way tells of a daemon. -/
def Told (o : Overlay ι) (s : Net ι) : Prop := ∀ i, ∀ line ∈ s.inbox i, ∃ j, Tells o line j

omit [Fintype ι] in
theorem told_setInbox (told : Told o s) (tells : ∀ line ∈ lines, ∃ j, Tells o line j) :
    Told o (s.setInbox i lines) := by
  intro i' line member
  by_cases same : i' = i
  · subst same
    rw [inbox_setInbox_self] at member
    exact tells line member
  · rw [inbox_setInbox_other same] at member
    exact told i' line member

omit [Fintype ι] in
/-- Only what users make up does not. -/
theorem told_step (genuine : Genuine o s) (told : Told o s) (notRaw : ∀ j i line, e ≠ .raw j i line)
    (taken : step o s e = some t) : Told o t := by
  have fewer (i : ι) (k : Nat) : Told o (s.setInbox i ((s.inbox i).eraseIdx k)) :=
    told_setInbox told fun line member => told i line (List.mem_of_mem_eraseIdx member)
  cases e with
  | connect i cmd attempt =>
    obtain ⟨dialling, -, linked⟩ := step_connect taken
    unfold Told
    rwa [inbox_link linked]
  | raw j i line => exact absurd rfl (notRaw j i line)
  | neighbourhood i k =>
    obtain ⟨d, j, texts, -, -, -, handled, rfl⟩ := step_neighbourhood taken
    apply told_setInbox told
    intro line member
    rcases List.mem_append.mp member with old | new
    · exact told j line old
    · -- the answer is made of entries
      obtain ⟨text, inside, rfl⟩ := List.mem_map.mp new
      obtain ⟨d', listed, -, rfl⟩ := (mem_daemonRequestNeighbourhood handled).mp inside
      obtain ⟨j', -, leads⟩ := genuine.entries i d' (List.mem_append_left _ listed)
      exact ⟨j', tells_neighbourLine leads⟩
  | handle i k attempt =>
    obtain ⟨line, dialling, -, -, linked⟩ := step_handle taken
    unfold Told
    rw [inbox_link linked]
    exact fewer i k
  | tooMany i k =>
    obtain ⟨-, rfl⟩ := step_tooMany taken
    exact fewer i k
  | accept i j timely =>
    obtain ⟨ident, pending, -, rfl⟩ := step_accept taken
    unfold Told
    rwa [inbox_accept]
  | begin i k =>
    obtain ⟨d, -, -, rfl⟩ := step_begin taken
    exact told

omit [Fintype ι] in
/-- A handler that is told of a daemon has a result. -/
theorem told_handled (s : Net ι) (i : ι) (daemons : List Daemon) (tells : Tells o line j) :
    ∃ dialling t, daemonRequestNeighbour (o.host i) daemons line Neighbours.succeeds = some dialling ∧
      s.link o i dialling = some t := by
  obtain ⟨d, parsed, leads⟩ := tells
  by_cases known : daemons.any (·.addr = d.addr)
  · refine ⟨⟨none, [], none⟩, s, ?_, rfl⟩
    simp only [daemonRequestNeighbour, parsed, Option.bind_eq_bind, Option.bind_some, known, if_true]
    rfl
  · by_cases myself : isMyself (o.host i) d.addr
    · refine ⟨⟨none, [], none⟩, s, ?_, rfl⟩
      simp only [daemonRequestNeighbour, parsed, Option.bind_eq_bind, Option.bind_some, known, myself, if_true]
      rfl
    · refine ⟨⟨none, [identMsg (o.host i)], some ⟨d.addr, d.port, true⟩⟩,
        s.dialled o i ⟨d.addr, d.port, true⟩ j, ?_, ?_⟩
      · unfold Neighbours.succeeds
        simp only [daemonRequestNeighbour, parsed, Option.bind_eq_bind, Option.bind_some, known, myself, identMsg_fits]
        rfl
      · unfold Net.link
        dsimp only
        rw [show o.target d.addr d.port = some j from leads]
        rfl

/-- Nothing waits, apart from queued daemons for which their pool has no thread. -/
def Net.Settled (o : Overlay ι) (s : Net ι) : Prop :=
  s.Quiet ∧ ∀ i, (s.node i).queued = [] ∨ o.maxDaemons i ≤ (s.node i).daemons.length

omit [Fintype ι] in
/-- Until all is settled, something can be done, and without a failure. -/
theorem goes_on (told : Told o s) (moving : ¬s.Settled o) :
    ∃ e t, (e.typed = false ∧ e.Timely) ∧ (∀ i, Undisturbed o i s e) ∧ step o s e = some t := by
  by_cases idle : ∀ i j, s.pending (i, j) = []
  · by_cases silent : ∀ i, s.inbox i = []
    · -- a daemon is queued, and there is a thread for it
      have busy : ¬∀ i, (s.node i).queued = [] ∨ o.maxDaemons i ≤ (s.node i).daemons.length :=
        fun settled => moving ⟨⟨idle, silent⟩, settled⟩
      simp only [not_forall, not_or, not_le] at busy
      obtain ⟨i, queued, room⟩ := busy
      obtain ⟨d, ds, shape⟩ := List.exists_cons_of_ne_nil queued
      refine ⟨.begin i 0, s.begun i 0 d, ⟨rfl, trivial⟩, fun _ => trivial, ?_⟩
      simp [step, Neighbours.step, shape, Net.begun, room]
    · rw [not_forall] at silent
      obtain ⟨i, silent⟩ := silent
      obtain ⟨line, lines, waits⟩ := List.exists_cons_of_ne_nil silent
      obtain ⟨j, tells⟩ := told i line (by simp [waits])
      obtain ⟨dialling, t, handled, linked⟩ := told_handled (s.setInbox i ((s.inbox i).eraseIdx 0)) i
        (s.node i).daemons tells
      refine ⟨.handle i 0 Neighbours.succeeds, t, ⟨rfl, trivial⟩, ?_, ?_⟩
      · intro i' _ line _ address _ _
        exact ⟨rfl, rfl, rfl⟩
      · simp only [step, waits, List.getElem?_cons_zero, Option.bind_eq_bind, Option.bind_some, handled]
        rwa [waits] at linked
  · simp only [not_forall] at idle
    obtain ⟨i, j, idle⟩ := idle
    obtain ⟨ident, pending, first⟩ := List.exists_cons_of_ne_nil idle
    refine ⟨.accept j i true, (s.setPending i j pending).accept o j i true ident, ⟨rfl, rfl⟩, fun _ => trivial, ?_⟩
    simp only [step, first]

end Rest

end Pire2Pire.Network
