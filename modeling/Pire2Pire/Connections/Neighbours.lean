import Pire2Pire.Conf
import Pire2Pire.Library.Runs
import Pire2Pire.Transfer.Messages
import Mathlib.Data.List.Nodup

/-! Connecting to other daemons: `client_request_connect`, `daemon_request_neighbour`, and the jobs they
queue for `daemons_pool`.

`daemon_request_neighbour` looks the address up in `daemons` and queues `handle_daemon`, all under
`daemons_lock`; the daemon gets into the list only when a thread of the pool starts with the job. -/
namespace Pire2Pire.Neighbours

open Library Protocol Transfer

/-- `struct daemon`, and whether a `neighbour` message has brought it. -/
structure Daemon where
  addr : CString
  port : Int32
  neighbour : Bool
deriving DecidableEq, Repr

/-- Whether `socket`, `connect` and `daemon_new` succeed, and the text of errno if not. -/
structure Attempt where
  socket : Bool
  connect : Bool
  new : Bool
  strerror : CString
deriving DecidableEq, Repr

/-- The address and the preferences of this daemon. -/
structure Host where
  myIp : Ipv4
  prefs : Prefs

/-- What a handler leaves behind: the answer to the client, the lines on the new connection, and the
daemon that it queues. -/
structure Dialling where
  answer : Option CString
  sent : List CString
  queued : Option Daemon
deriving DecidableEq, Repr

/-- The size of `ident_msg` and of `answer`. -/
def lineSize : Nat := 256

/-- `"neighbour %s:%d\n"` -/
def identMsg (host : Host) : CString :=
  "neighbour ".toList ++ inetNtop host.myIp ++ ':' :: (decimal host.prefs.daemonPort.toInt ++ ['\n'])

def isMyself (host : Host) (ip : CString) : Bool :=
  ip = inetNtop host.myIp ∨ ip = "127.0.0.1".toList

/-- The address in the line `neighbour IP:PORT`; a missing blank or colon makes `strchr` return NULL. -/
def neighbourAddress (cmd : CString) : Option (CString × Int32) := do
  let blank ← strchr cmd ' '
  let colon ← strchr (blank.drop 1) ':'
  return (cutAt (blank.drop 1) ':', atoi (colon.drop 1))

/-- No result where the source follows a NULL or overruns its buffer. -/
def daemonRequestNeighbour (host : Host) (daemons : List Daemon) (cmd : CString) (attempt : Attempt) :
    Option Dialling := do
  let (ip, port) ← neighbourAddress cmd
  if daemons.any (·.addr = ip) then return ⟨none, [], none⟩
  if isMyself host ip then return ⟨none, [], none⟩
  if !attempt.socket then return ⟨none, [], none⟩
  if !attempt.connect then return ⟨none, [], none⟩
  let ident ← sprintfInto lineSize (identMsg host)
  if !attempt.new then return ⟨none, [ident], none⟩
  return ⟨none, [ident], some ⟨ip, port, true⟩⟩

inductive AddressError where
  | notACouple
  | noPortSpecified
  | noIpSpecified
  | invalidPort
deriving DecidableEq, Repr

def AddressError.answer : AddressError → CString
  | .notACouple => " < connect: you must specify an ip and a port\n".toList
  | .noPortSpecified => " < connect: no port specified\n".toList
  | .noIpSpecified => " < connect: no ip specified\n".toList
  | .invalidPort => " < connect: invalid port\n".toList

def isValidIpPort (address : CString) : Except AddressError (CString × Int32) :=
  match strchr address ':' with
  | none => .error .notACouple
  | some colon =>
    if colon.drop 1 = [] then .error .noPortSpecified
    else if !(colon.drop 1).all Char.isDigit then .error .invalidPort
    else if cutAt address ':' = [] then .error .noIpSpecified
    else .ok (cutAt address ':', atoi (colon.drop 1))

/-- No result where the source overruns one of its buffers. -/
def clientRequestConnect (host : Host) (cmd : CString) (attempt : Attempt) : Option Dialling :=
  match cmdParse cmd none with
  | .error _ => some ⟨none, [], none⟩
  | .ok pcmd =>
    match pcmd.argv with
    | _ :: address :: _ =>
      match isValidIpPort address with
      | .error error => some ⟨some error.answer, [], none⟩
      | .ok (ip, port) => do
        if isMyself host ip then return ⟨some " < connect: can't connect to myself\n".toList, [], none⟩
        if !attempt.socket then
          let answer ← sprintfInto lineSize (" < connect: could not open a new socket to ".toList ++ ip ++
            ", error: ".toList ++ attempt.strerror ++ ['\n'])
          return ⟨some answer, [], none⟩
        if !attempt.connect then
          let answer ← sprintfInto lineSize (" < connect: could not connect to ".toList ++ ip ++ ':' ::
            (decimal port.toInt ++ ", error: ".toList ++ attempt.strerror ++ ['\n']))
          return ⟨some answer, [], none⟩
        let ident ← sprintfInto lineSize (identMsg host)
        if !attempt.new then return ⟨some " < connect: could not create a new daemon object".toList, [ident], none⟩
        let answer ← sprintfInto lineSize (" < connect: connected to ".toList ++ ip ++ " successfully\n".toList)
        return ⟨some answer, [ident], some ⟨ip, port, false⟩⟩
    | _ => some ⟨some " < connect: Syntax is \"connect IP:PORT\"\n".toList, [], none⟩

/-! ### The list of daemons -/

/-- `queued` are the jobs of `daemons_pool` that no thread has started with. -/
structure State where
  daemons : List Daemon
  queued : List Daemon
deriving DecidableEq, Repr

def start : State := ⟨[], []⟩

inductive Event where
  | neighbour (cmd : CString) (attempt : Attempt)
  | connect (cmd : CString) (attempt : Attempt)
  -- a daemon that has identified itself to `start_server`
  | accept (addr : CString) (port : Int32)
  -- `handle_daemon` starts with the i-th of the queued daemons
  | begin (i : Nat)
  -- and ends with the i-th of the listed ones
  | remove (i : Nat)
deriving DecidableEq, Repr

def step (host : Host) (s : State) : Event → Option State
  | .neighbour cmd attempt =>
    (daemonRequestNeighbour host s.daemons cmd attempt).map fun dialling =>
      { s with queued := s.queued ++ dialling.queued.toList }
  | .connect cmd attempt =>
    (clientRequestConnect host cmd attempt).map fun dialling =>
      { s with queued := s.queued ++ dialling.queued.toList }
  | .accept addr port => some { s with queued := s.queued ++ [⟨addr, port, false⟩] }
  | .begin i => (s.queued[i]?).map fun d => ⟨d :: s.daemons, s.queued.eraseIdx i⟩
  | .remove i => if i < s.daemons.length then some { s with daemons := s.daemons.eraseIdx i } else none

/-- The addresses of the daemons that `neighbour` messages have brought. -/
def neighbourAddrs (daemons : List Daemon) : List CString :=
  (daemons.filter Daemon.neighbour).map Daemon.addr

/-- A `neighbour` line for an address that is not listed finds no daemon with that address waiting in
the queue because of an earlier one. -/
def Unqueued (s : State) : Event → Prop
  | .neighbour cmd _ =>
    ∀ address ∈ neighbourAddress cmd, (∀ d ∈ s.daemons, d.addr ≠ address.1) →
      address.1 ∉ neighbourAddrs s.queued
  | _ => True

instance (s : State) : (e : Event) → Decidable (Unqueued s e)
  | .neighbour cmd _ => inferInstanceAs (Decidable (∀ address ∈ neighbourAddress cmd, _ → ¬ _))
  | .connect _ _ | .accept _ _ | .begin _ | .remove _ => isTrue trivial

variable {host : Host} {s t : State} {e : Event} {cmd : CString} {attempt : Attempt} {daemons : List Daemon}
  {dialling : Dialling} {d : Daemon} {i : Nat}

/-! ### What the handlers queue -/

theorem length_identMsg (host : Host) :
    (identMsg host).length = 12 + (inetNtop host.myIp).length + (decimal host.prefs.daemonPort.toInt).length := by
  have word : "neighbour ".toList.length = 10 := by decide +kernel
  unfold identMsg
  -- the texts are not to be unfolded, only their lengths matter
  generalize decimal host.prefs.daemonPort.toInt = digits
  generalize inetNtop host.myIp = ip
  rw [List.length_append, List.length_append, word]
  simp only [List.length_append, List.length_cons, List.length_nil]
  omega

theorem identMsg_fits (host : Host) : sprintfInto lineSize (identMsg host) = some (identMsg host) := by
  have address := length_inetNtop_le host.myIp
  have port := length_decimal_int host.prefs.daemonPort
  have short : (identMsg host).length + 1 ≤ lineSize := by
    rw [length_identMsg, lineSize]
    omega
  rw [sprintfInto, if_pos short]

/-- What a `neighbour` line sends is the identification, and a daemon that it queues has an address that
is not listed. -/
theorem daemonRequestNeighbour_spec (handled : daemonRequestNeighbour host daemons cmd attempt = some dialling) :
    (∀ line ∈ dialling.sent, line = identMsg host) ∧
      ∀ d, dialling.queued = some d →
        ∃ address ∈ neighbourAddress cmd, d = ⟨address.1, address.2, true⟩ ∧ ∀ d ∈ daemons, d.addr ≠ address.1 := by
  cases parsed : neighbourAddress cmd with
  | none => simp [daemonRequestNeighbour, parsed] at handled
  | some address =>
    simp only [daemonRequestNeighbour, parsed, Option.bind_eq_bind, Option.bind_some, identMsg_fits] at handled
    -- the loop over `daemons` goes on with `goto out` at the first equal address
    by_cases known : daemons.any (·.addr = address.1)
    · rw [if_pos known] at handled
      cases handled
      simp
    · rw [if_neg known] at handled
      have absent : ∀ d ∈ daemons, d.addr ≠ address.1 := by simpa using known
      -- only the last of the returns has a daemon
      repeat' split at handled
      all_goals cases handled
      all_goals simp
      exact absent

theorem neighbourAddress_subset {address : CString × Int32} (parsed : neighbourAddress cmd = some address) :
    ∀ c ∈ address.1, c ∈ cmd := by
  -- the address is what stands behind the blank, up to the colon
  obtain ⟨blank, first, parsed⟩ := Option.bind_eq_some_iff.mp parsed
  obtain ⟨colon, -, parsed⟩ := Option.bind_eq_some_iff.mp parsed
  obtain ⟨before, behind, rfl, -, rfl⟩ := strchr_some first
  cases parsed
  intro c member
  have inside : c ∈ behind := mem_of_mem_cutAt member
  simp [inside]

theorem isValidIpPort_ok {address ip : CString} {port : Int32} (valid : isValidIpPort address = .ok (ip, port)) :
    ip = cutAt address ':' := by
  unfold isValidIpPort at valid
  -- only the last return of the function has an address
  repeat' split at valid
  all_goals cases valid
  rfl

/-- What a client's `connect` sends is the identification, and a daemon that it queues is none that a
`neighbour` line has brought, with an address that stands in the command. -/
theorem clientRequestConnect_spec (handled : clientRequestConnect host cmd attempt = some dialling) :
    (∀ line ∈ dialling.sent, line = identMsg host) ∧
      ∀ d, dialling.queued = some d → d.neighbour = false ∧ ∀ c ∈ d.addr, c ∈ cmd := by
  unfold clientRequestConnect at handled
  split at handled
  · cases handled
    simp
  next pcmd parsed =>
    -- the parser has found no option, so `argv` is the words of the line
    obtain ⟨rfl, -, -⟩ := (cmdParse_plain rfl).mp parsed
    split at handled
    next first address rest shape =>
      split at handled
      · cases handled
        simp
      next ip port valid =>
        have inside : ∀ c ∈ ip, c ∈ cmd := by
          intro c member
          rw [isValidIpPort_ok valid] at member
          have token : address ∈ words isADelimiter cmd := by
            rw [show words isADelimiter cmd = _ from shape]
            simp
          exact words_subset token c (mem_of_mem_cutAt member)
        simp only [Option.bind_eq_bind, identMsg_fits, Option.bind_some] at handled
        -- each failure has its own answer to the client, and only the last branch queues a daemon
        by_cases myself : isMyself host ip
        · rw [if_pos myself] at handled
          cases handled
          simp
        · rw [if_neg myself] at handled
          cases socket : attempt.socket with
          | false =>
            simp only [socket, Bool.not_false, if_true, Option.bind_eq_some_iff] at handled
            obtain ⟨answer, -, same⟩ := handled
            cases same
            simp
          | true =>
            cases connect : attempt.connect with
            | false =>
              simp only [socket, connect, Bool.not_true, Bool.false_eq_true, if_false, Bool.not_false, if_true,
                Option.bind_eq_some_iff] at handled
              obtain ⟨answer, -, same⟩ := handled
              cases same
              simp
            | true =>
              cases new : attempt.new with
              | false =>
                simp only [socket, connect, new, Bool.not_true, Bool.false_eq_true, if_false, Bool.not_false,
                  if_true] at handled
                cases handled
                simp
              | true =>
                simp only [socket, connect, new, Bool.not_true, Bool.false_eq_true, if_false,
                  Option.bind_eq_some_iff] at handled
                obtain ⟨answer, -, same⟩ := handled
                cases same
                simpa using inside
    · cases handled
      simp

/-! ### Distinct neighbours -/

/-- No address is listed or waiting twice because of `neighbour` messages. -/
def Distinct (s : State) : Prop :=
  (neighbourAddrs (s.daemons ++ s.queued)).Nodup

theorem neighbourAddrs_append (xs ys : List Daemon) :
    neighbourAddrs (xs ++ ys) = neighbourAddrs xs ++ neighbourAddrs ys := by
  simp [neighbourAddrs]

theorem neighbourAddrs_perm {xs ys : List Daemon} (perm : xs.Perm ys) :
    (neighbourAddrs xs).Perm (neighbourAddrs ys) :=
  (perm.filter Daemon.neighbour).map Daemon.addr

theorem neighbourAddrs_sublist {xs ys : List Daemon} (sublist : xs.Sublist ys) :
    (neighbourAddrs xs).Sublist (neighbourAddrs ys) :=
  (sublist.filter Daemon.neighbour).map Daemon.addr

theorem distinct_other (distinct : Distinct s) (other : d.neighbour = false) :
    Distinct { s with queued := s.queued ++ [d] } := by
  -- it is not counted, so its address may be there already
  unfold Distinct at distinct ⊢
  rw [← List.append_assoc, neighbourAddrs_append (s.daemons ++ s.queued)]
  simpa [neighbourAddrs, other] using distinct

theorem distinct_step (distinct : Distinct s) (unqueued : Unqueued s e) (taken : step host s e = some t) :
    Distinct t := by
  cases e with
  | neighbour cmd attempt =>
    obtain ⟨dialling, handled, rfl⟩ := Option.map_eq_some_iff.mp taken
    cases queued : dialling.queued with
    | none => simpa [queued] using distinct
    | some d =>
      -- the check was made against the list only
      obtain ⟨address, parsed, rfl, absent⟩ := (daemonRequestNeighbour_spec handled).2 d queued
      have waiting := unqueued address parsed absent
      have listed : address.1 ∉ neighbourAddrs s.daemons := by
        intro member
        obtain ⟨d, inList, same⟩ := List.mem_map.mp member
        exact absent d (List.mem_of_mem_filter inList) same
      unfold Distinct at distinct ⊢
      simp only [Option.toList_some]
      rw [← List.append_assoc, neighbourAddrs_append (s.daemons ++ s.queued)]
      -- the new address is in neither part
      apply List.Nodup.append distinct (List.nodup_singleton _)
      intro addr old new
      rw [List.mem_singleton.mp new, neighbourAddrs_append, List.mem_append] at old
      exact old.elim listed waiting
  -- no `neighbour` line has brought this daemon
  | connect cmd attempt =>
    obtain ⟨dialling, handled, rfl⟩ := Option.map_eq_some_iff.mp taken
    cases queued : dialling.queued with
    | none => simpa [queued] using distinct
    | some d => exact distinct_other distinct ((clientRequestConnect_spec handled).2 d queued).1
  | accept addr port =>
    cases taken
    exact distinct_other distinct rfl
  | begin i =>
    obtain ⟨d, here, rfl⟩ := Option.map_eq_some_iff.mp taken
    -- the daemon moves from the queue to the list
    have moved : (d :: s.daemons ++ s.queued.eraseIdx i).Perm (s.daemons ++ s.queued) := by
      obtain ⟨bound, rfl⟩ := List.getElem?_eq_some_iff.mp here
      have shape : s.queued = s.queued.take i ++ s.queued[i] :: s.queued.drop (i + 1) := by
        rw [← List.drop_eq_getElem_cons bound, List.take_append_drop]
      refine List.perm_middle.symm.trans (List.Perm.append_left s.daemons ?_)
      rw [List.eraseIdx_eq_take_drop_succ]
      conv_rhs => rw [shape]
      exact List.perm_middle.symm
    exact (neighbourAddrs_perm moved).nodup_iff.mpr distinct
  | remove i =>
    simp only [step] at taken
    split at taken
    -- the daemon leaves the list when its thread ends
    · cases taken
      have fewer : (s.daemons.eraseIdx i ++ s.queued).Sublist (s.daemons ++ s.queued) :=
        (List.eraseIdx_sublist s.daemons i).append_right s.queued
      exact distinct.sublist (neighbourAddrs_sublist fewer)
    · cases taken

theorem distinct_start : Distinct start :=
  List.nodup_nil

/-- Runs in which no two lines for one address come before the first of them has led to an entry. -/
theorem unqueued_nodup (host : Host) (es : List Event) (s : State) (ran : exec (step host) start es = some s)
    (unqueued : Along (step host) Unqueued start es) : (neighbourAddrs s.daemons).Nodup := by
  -- the invariant is about the queue too, since that is where the next entries come from
  have distinct : Distinct s := exec_invariant Unqueued Distinct
    (fun _ _ _ distinct unqueued taken => distinct_step distinct unqueued taken)
    distinct_start unqueued ran
  exact distinct.sublist (neighbourAddrs_sublist (List.sublist_append_left _ _))

def succeeds : Attempt := ⟨true, true, true, []⟩

/-- The second line comes when the daemon is in the list. -/
theorem unqueued_nodup_listed :
    let host : Host := ⟨⟨10, 0, 0, 1⟩, Prefs.default⟩
    let es := [.neighbour "neighbour 10.0.0.2:7331".toList succeeds, .begin 0,
      .neighbour "neighbour 10.0.0.2:7331".toList succeeds]
    ∃ s, exec (step host) start es = some s ∧ (neighbourAddrs s.daemons).Nodup := by
  intro host es
  obtain ⟨s, ran⟩ : ∃ s, exec (step host) start es = some s := Option.isSome_iff_exists.mp (by decide +kernel)
  exact ⟨s, ran, unqueued_nodup host es s ran (by decide +kernel)⟩

/-- Both lines pass the check before `handle_daemon` has started once. -/
theorem nodup_race :
    let host : Host := ⟨⟨10, 0, 0, 1⟩, Prefs.default⟩
    let es := [.neighbour "neighbour 10.0.0.2:7331".toList succeeds,
      .neighbour "neighbour 10.0.0.2:7331".toList succeeds, .begin 0, .begin 0]
    ∃ s, exec (step host) start es = some s ∧ ¬ (neighbourAddrs s.daemons).Nodup := by
  intro host es
  obtain ⟨s, ran⟩ : ∃ s, exec (step host) start es = some s := Option.isSome_iff_exists.mp (by decide +kernel)
  refine ⟨s, ran, ?_⟩
  -- the two entries are there in the end, one by each thread
  have twice : (exec (step host) start es).all fun s =>
      neighbourAddrs s.daemons = ["10.0.0.2".toList, "10.0.0.2".toList] := by
    decide +kernel
  simp only [ran, Option.all_some, decide_eq_true_eq] at twice
  rw [twice]
  decide

/-! ### The texts of the addresses -/

/-- Lines are read from a connection, and the address of a peer that connects is the text that `inet_ntop`
makes of it. -/
def Arrives : Event → Prop
  | .neighbour cmd _ => Received cmd
  | .connect cmd _ => Received cmd
  | .accept addr _ => ∃ ip, addr = inetNtop ip
  | .begin _ => True
  | .remove _ => True

def CleanAddresses (s : State) : Prop :=
  ∀ d ∈ s.daemons ++ s.queued, Received d.addr

theorem cleanAddresses_queue {queued : Option Daemon} (clean : CleanAddresses s)
    (new : ∀ d, queued = some d → Received d.addr) :
    CleanAddresses { s with queued := s.queued ++ queued.toList } := by
  -- the list is as before, and the queue has at most one daemon more
  intro d member
  simp only [List.mem_append, Option.mem_toList] at member
  rcases member with listed | waiting | added
  · exact clean d (List.mem_append_left _ listed)
  · exact clean d (List.mem_append_right _ waiting)
  · exact new d added

theorem cleanAddresses_step (clean : CleanAddresses s) (arrives : Arrives e) (taken : step host s e = some t) :
    CleanAddresses t := by
  cases e with
  -- the address is a part of the line
  | neighbour cmd attempt =>
    obtain ⟨dialling, handled, rfl⟩ := Option.map_eq_some_iff.mp taken
    apply cleanAddresses_queue clean
    intro d queued
    obtain ⟨address, parsed, rfl, -⟩ := (daemonRequestNeighbour_spec handled).2 d queued
    exact received_subset arrives (neighbourAddress_subset parsed)
  | connect cmd attempt =>
    obtain ⟨dialling, handled, rfl⟩ := Option.map_eq_some_iff.mp taken
    apply cleanAddresses_queue clean
    intro d queued
    exact received_subset arrives ((clientRequestConnect_spec handled).2 d queued).2
  | accept addr port =>
    obtain ⟨ip, rfl⟩ := arrives
    cases taken
    have new : ∀ d, some (⟨inetNtop ip, port, false⟩ : Daemon) = some d → Received d.addr := by
      rintro d ⟨⟩
      exact (inetNtop_field ip).toReceived
    exact cleanAddresses_queue clean new
  -- an entry that moves from the queue to the list was clean before
  | begin i =>
    obtain ⟨d, here, rfl⟩ := Option.map_eq_some_iff.mp taken
    intro d' member
    simp only [List.cons_append, List.mem_cons, List.mem_append] at member
    rcases member with rfl | listed | waiting
    · exact clean d' (List.mem_append_right _ (List.mem_of_getElem? here))
    · exact clean d' (List.mem_append_left _ listed)
    · exact clean d' (List.mem_append_right _ (List.mem_of_mem_eraseIdx waiting))
  | remove i =>
    simp only [step] at taken
    split at taken
    · cases taken
      intro d member
      simp only [List.mem_append] at member
      rcases member with listed | waiting
      · exact clean d (List.mem_append_left _ (List.mem_of_mem_eraseIdx listed))
      · exact clean d (List.mem_append_right _ waiting)
    · cases taken

/-- No address in the list of daemons can break a line. -/
theorem daemons_received {es : List Event} (arrive : ∀ e ∈ es, Arrives e)
    (ran : exec (step host) start es = some s) : ∀ d ∈ s.daemons, Received d.addr := by
  have clean : CleanAddresses s := exec_invariant (fun _ e => Arrives e) CleanAddresses
    (fun _ _ _ clean arrives taken => cleanAddresses_step clean arrives taken)
    (by simp [CleanAddresses, start]) (along_of_forall arrive) ran
  intro d listed
  exact clean d (List.mem_append_left _ listed)

end Pire2Pire.Neighbours
