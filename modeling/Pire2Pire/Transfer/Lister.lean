import Pire2Pire.Library.Runs
import Pire2Pire.Transfer.Messages

/-! The client that asked for the list last, and the executions of `daemon_request_file` that forward
announcements to it.

`client_request_list` stores the client in `list_client`; the line that would take it out again is
commented out, and `handle_client` does not look at `list_client` when a client leaves. -/
namespace Pire2Pire.Lister

open Library Transfer

/-- An execution of `daemon_request_file` that has found a lister. -/
structure Forwarding where
  cmd : CString
  lister : Nat
deriving DecidableEq, Repr

/-- A client is named by its allocation. It is in `clients` from `client_add` to `client_remove`, and
freed only after its remaining requests were cleaned. `fault` is set by the first access to a client
that was freed. -/
structure State where
  used : List Nat
  clients : List Nat
  leaving : List Nat
  listClient : Option Nat
  fileCache : FileCache
  forwardings : List Forwarding
  forwarded : List (Nat × CString)
  fault : Bool
deriving DecidableEq, Repr

def start : State := ⟨[], [], [], none, .empty, [], [], false⟩

inductive Event where
  -- `client_new` and `client_add`
  | connect (c : Nat)
  -- a worker runs `client_request_list` for a request of the client
  | list (c : Nat)
  -- a `file` line: `lister = list_client`
  | file (cmd : CString)
  -- the rest of `daemon_request_file`
  | answer (i : Nat)
  -- `handle_requests` returns and the client is taken out of `clients`
  | leave (c : Nat)
  -- `client_free`
  | free (c : Nat)
deriving DecidableEq, Repr

/-- `client_send` to the lister. -/
def clientSend (s : State) (c : Nat) (text : CString) : State :=
  if c ∈ s.clients ∨ c ∈ s.leaving then { s with forwarded := s.forwarded ++ [(c, text)] }
  else { s with fault := true }

def sendAll (s : State) (c : Nat) : List Sent → State
  | [] => s
  | .client text :: sent => sendAll (clientSend s c text) c sent
  -- error replies go to the daemon that sent the line
  | .daemon _ :: sent => sendAll s c sent

def step (s : State) : Event → Option State
  | .connect c => if c ∈ s.used then none else some { s with used := c :: s.used, clients := c :: s.clients }
  | .list c => if c ∈ s.clients ∨ c ∈ s.leaving then some { s with listClient := some c } else none
  | .file cmd =>
    match s.listClient with
    | none => some s
    | some lister => some { s with forwardings := s.forwardings ++ [⟨cmd, lister⟩] }
  | .answer i =>
    match s.forwardings[i]? with
    | none => none
    | some f =>
      (daemonRequestFile true s.fileCache f.cmd).map fun (cache, sent) =>
        sendAll { s with fileCache := cache, forwardings := s.forwardings.eraseIdx i } f.lister sent
  | .leave c =>
    if c ∈ s.clients then some { s with clients := s.clients.erase c, leaving := c :: s.leaving } else none
  | .free c => if c ∈ s.leaving then some { s with leaving := s.leaving.erase c } else none

/-- A client that leaves is neither the lister nor about to be sent an announcement, and `list` is not
run for a client that is leaving. -/
def Considerate (s : State) : Event → Prop
  | .leave c => s.listClient ≠ some c ∧ ∀ f ∈ s.forwardings, f.lister ≠ c
  | .list c => c ∈ s.clients
  | _ => True

instance (s : State) : (e : Event) → Decidable (Considerate s e)
  | .leave _ => inferInstanceAs (Decidable (_ ∧ _))
  | .list _ => inferInstanceAs (Decidable (_ ∈ _))
  | .connect _ | .file _ | .answer _ | .free _ => isTrue trivial

/-- `list_client` is NULL or a connected client, and nothing was forwarded to a freed one. -/
def Valid (s : State) : Prop :=
  (s.listClient = none ∨ ∃ c ∈ s.clients, s.listClient = some c) ∧ s.fault = false

/-! ### Connected listers -/

/-- Everybody whom an announcement may be sent to is connected. -/
structure Connected (s : State) : Prop where
  lister : ∀ c, s.listClient = some c → c ∈ s.clients
  forwardings : ∀ f ∈ s.forwardings, f.lister ∈ s.clients
  fault : s.fault = false

variable {s t : State} {c : Nat} {e : Event} {sent : List Sent}

theorem clientSend_connected (connected : c ∈ s.clients) (text : CString) :
    clientSend s c text = { s with forwarded := s.forwarded ++ [(c, text)] } := by
  simp [clientSend, connected]

theorem sendAll_connected (s : State) (sent : List Sent) (connected : c ∈ s.clients) :
    ∃ forwarded, sendAll s c sent = { s with forwarded := forwarded } := by
  induction sent generalizing s with
  | nil => exact ⟨s.forwarded, rfl⟩
  | cons message sent ih =>
    cases message with
    -- an error reply goes to the daemon, not to the client
    | daemon text => exact ih _ connected
    | client text =>
      rw [sendAll, clientSend_connected connected]
      obtain ⟨forwarded, same⟩ := ih (s := { s with forwarded := s.forwarded ++ [(c, text)] }) connected
      exact ⟨forwarded, same⟩

theorem connected_step (connected : Connected s) (considerate : Considerate s e) (taken : step s e = some t) :
    Connected t := by
  cases e with
  -- one more client is connected, and nobody is forgotten
  | connect c =>
    simp only [step] at taken
    split at taken
    · cases taken
    · cases taken
      exact ⟨fun d lister => List.mem_cons_of_mem _ (connected.lister d lister),
        fun f member => List.mem_cons_of_mem _ (connected.forwardings f member), connected.fault⟩
  | list c =>
    simp only [step] at taken
    -- the lister is connected when it asks
    split at taken
    · cases taken
      refine ⟨?_, connected.forwardings, connected.fault⟩
      intro d lister
      cases lister
      exact considerate
    · cases taken
  | file cmd =>
    -- without a lister nothing is forwarded later
    cases lister : s.listClient with
    | none =>
      simp only [step, lister, Option.some.injEq] at taken
      subst taken
      exact connected
    | some d =>
      simp only [step, lister, Option.some.injEq] at taken
      subst taken
      refine ⟨fun c same => connected.lister c (lister.trans same), ?_, connected.fault⟩
      intro f member
      -- the new forwarding goes to the lister, who is connected
      rcases List.mem_append.mp member with old | new
      · exact connected.forwardings f old
      · rw [List.mem_singleton.mp new]
        exact connected.lister d lister
  | answer i =>
    simp only [step] at taken
    split at taken
    · cases taken
    next f here =>
      obtain ⟨⟨cache, sent⟩, -, rfl⟩ := Option.map_eq_some_iff.mp taken
      have there : f.lister ∈ s.clients := connected.forwardings f (List.mem_of_getElem? here)
      -- the lister is connected, so the answer only adds to what was forwarded
      obtain ⟨forwarded, same⟩ := sendAll_connected
        { s with fileCache := cache, forwardings := s.forwardings.eraseIdx i } sent there
      simp only [same]
      exact ⟨connected.lister, fun g member => connected.forwardings g (List.mem_of_mem_eraseIdx member),
        connected.fault⟩
  | leave c =>
    simp only [step] at taken
    split at taken
    · cases taken
      refine ⟨?_, ?_, connected.fault⟩
      -- whoever leaves is neither the lister nor waited for
      · intro d lister
        have other : d ≠ c := by
          rintro rfl
          exact considerate.1 lister
        exact (List.mem_erase_of_ne other).mpr (connected.lister d lister)
      · intro f member
        exact (List.mem_erase_of_ne (considerate.2 f member)).mpr (connected.forwardings f member)
    · cases taken
  | free c =>
    -- memory is freed of clients that have left, whom nobody is to be sent to
    simp only [step] at taken
    split at taken
    · cases taken
      exact ⟨connected.lister, connected.forwardings, connected.fault⟩
    · cases taken

theorem connected_start : Connected start := by
  refine ⟨?_, ?_, rfl⟩
  · intro c lister
    cases lister
  · intro f member
    cases member

/-- Runs in which no client leaves while it is the lister. -/
theorem considerate_valid (es : List Event) (s : State) (ran : exec step start es = some s)
    (considerate : Along step Considerate start es) : Valid s := by
  have connected : Connected s := exec_invariant Considerate Connected
    (fun _ _ _ connected considerate taken => connected_step connected considerate taken)
    connected_start considerate ran
  refine ⟨?_, connected.fault⟩
  cases lister : s.listClient with
  | none => exact .inl rfl
  | some c => exact .inr ⟨c, connected.lister c lister, rfl⟩

def announcement : CString :=
  "file song ".toList ++ List.replicate 32 'a' ++ " 3 10.0.0.1:4242".toList

/-- A second client takes the list before the first one leaves. -/
theorem considerate_valid_two :
    let es := [.connect 0, .list 0, .connect 1, .list 1, .leave 0, .free 0, .file announcement, .answer 0]
    ∃ s, exec step start es = some s ∧ Valid s := by
  intro es
  obtain ⟨s, ran⟩ : ∃ s, exec step start es = some s := Option.isSome_iff_exists.mp (by decide +kernel)
  exact ⟨s, ran, considerate_valid es s ran (by decide +kernel)⟩

/-- The lister leaves; the next announcement is forwarded to freed memory. -/
theorem valid_stale :
    ∃ s, exec step start [.connect 0, .list 0, .leave 0, .free 0, .file announcement, .answer 0] = some s ∧
      s.listClient = some 0 ∧ s.fault = true ∧ ¬ Valid s := by
  obtain ⟨s, ran⟩ : ∃ s, exec step start
      [.connect 0, .list 0, .leave 0, .free 0, .file announcement, .answer 0] = some s :=
    Option.isSome_iff_exists.mp (by decide +kernel)
  have outcome : (exec step start [.connect 0, .list 0, .leave 0, .free 0, .file announcement, .answer 0]).all
      fun s => s.listClient = some 0 ∧ s.fault = true := by
    decide +kernel
  simp only [ran, Option.all_some, decide_eq_true_eq] at outcome
  refine ⟨s, ran, outcome.1, outcome.2, ?_⟩
  intro valid
  cases outcome.2.symm.trans valid.2

end Pire2Pire.Lister
