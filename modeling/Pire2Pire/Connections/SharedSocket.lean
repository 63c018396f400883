import Mathlib.Data.List.DropRight
import Mathlib.Data.List.Perm.Subperm
import Pire2Pire.Connections.Replies

/-! Handlers that send to one daemon at the same time.

`socket_lock` makes a call of `daemon_send` atomic, not a line: `client_request_raw` sends the command and
its `'\n'` in two calls. It holds `daemons_lock` meanwhile, which keeps out `client_request_list` and
`daemon_request_neighbourhood`, but `client_request_get` and `daemon_request_list` send without it. -/
namespace Pire2Pire.SharedSocket

open Library Protocol Transfer Neighbours Replies

/-! ### The handlers -/

/-- What an execution does with what it shares with the others: `daemons_lock` and the connection. -/
inductive Action where
  | semWait
  | semPost
  | daemonSend (text : CString)
deriving DecidableEq, Repr

/-- From where the daemon has been found. `cmd` is the received line, `raw IP:PORT CMD ..`, and there are
at least two blanks in it. -/
def clientRequestRaw (cmd : CString) : Option (List Action) := do
  let first ← strchr cmd ' '
  let second ← strchr (first.drop 1) ' '
  return [.semWait, .daemonSend (second.drop 1), .daemonSend ['\n'], .semPost]

/-- The part of the loop that is about one daemon. -/
def clientRequestList : List Action :=
  [.semWait, .daemonSend "list\n".toList, .semPost]

/-- From `find_daemon` on, which takes the lock and gives it back. -/
def clientRequestGetSend (entry : FileEntry) : Option (List Action) :=
  (getMessage entry).map fun answer => [.semWait, .semPost, .daemonSend answer]

inductive Handler where
  | raw (cmd : CString) (received : Received cmd)
  | list
  | get (entry : FileEntry) (created : Created entry)
  | fileList (host : Announcer) (dir : List DirEntry)
  | neighbourhood (addr : CString) (daemons : List Daemon) (addresses : ∀ d ∈ daemons, Received d.addr)

def Handler.actions : Handler → Option (List Action)
  | .raw cmd _ => clientRequestRaw cmd
  | .list => some clientRequestList
  | .get entry _ => clientRequestGetSend entry
  | .fileList host dir => (daemonRequestList host dir).map fun answers => answers.map .daemonSend
  | .neighbourhood addr daemons _ =>
    (daemonRequestNeighbourhood addr daemons).map fun answers =>
      .semWait :: (answers.map .daemonSend ++ [.semPost])

/-- A handler that gets as far as the daemon and overruns no buffer. -/
structure Task where
  handler : Handler
  actions : List Action
  runs : handler.actions = some actions

/-! ### Executions -/

/-- What an execution has still to do; `pending` is what it has sent since its last `'\n'`. -/
structure Execution where
  pending : CString
  todo : List Action
deriving DecidableEq, Repr

/-- `lock` is the execution that holds `daemons_lock`. -/
structure State where
  wire : List Char
  lock : Option Nat
  executions : List Execution
deriving DecidableEq, Repr

def start (tasks : List Task) : State :=
  ⟨[], none, tasks.map fun t => ⟨[], t.actions⟩⟩

/-- Execution `i` goes on. -/
def step (s : State) (i : Nat) : Option State :=
  match s.executions[i]? with
  | some ⟨pending, .semWait :: todo⟩ =>
    if s.lock = none then some { s with lock := some i, executions := s.executions.set i ⟨pending, todo⟩ }
    else none
  | some ⟨pending, .semPost :: todo⟩ =>
    some { s with lock := none, executions := s.executions.set i ⟨pending, todo⟩ }
  | some ⟨pending, .daemonSend text :: todo⟩ =>
    some { s with
      wire := s.wire ++ text
      executions := s.executions.set i ⟨if Terminated text then [] else pending ++ text, todo⟩ }
  | _ => none

/-! ### Lines -/

/-- The lines that an execution has not ended yet: its texts put together up to each `'\n'`. -/
def owed : CString → List Action → List CString
  | pending, [] => if pending = [] then [] else [pending]
  | pending, .semWait :: todo => owed pending todo
  | pending, .semPost :: todo => owed pending todo
  | pending, .daemonSend text :: todo =>
    if Terminated text then (pending ++ messageOf text) :: owed [] todo else owed (pending ++ text) todo

def Execution.owed (x : Execution) : List CString :=
  SharedSocket.owed x.pending x.todo

/-- The lines that the handlers mean to send: what the peer would read of each alone. -/
def meant (tasks : List Task) : List CString :=
  tasks.flatMap fun t => owed [] t.actions

/-- What the peer need not wait for: everything up to the last `'\n'`. -/
def completed (wire : List Char) : List Char :=
  wire.rdropWhile (· ≠ '\n')

/-- Every line that the peer reads is a line that some handler meant to send, each of these is read once
at most, and all are in the end. -/
structure Atomic (tasks : List Task) (s : State) : Prop where
  lines : ∃ lines, DecodesTo (completed s.wire) lines ∧ lines.Subperm (meant tasks)
  all : (∀ x ∈ s.executions, x.todo = []) → ∃ lines, DecodesTo s.wire lines ∧ lines.Perm (meant tasks)

def sendsNext (s : State) (i : Nat) : Bool :=
  match s.executions[i]? with
  | some ⟨_, .daemonSend _ :: _⟩ => true
  | _ => false

/-- An execution that sends without holding `daemons_lock` finds no other one between its command and the
`'\n'` for it. -/
def Undisturbed (s : State) (i : Nat) : Prop :=
  s.lock ≠ some i → sendsNext s i → ∀ x ∈ s.executions.eraseIdx i, x.pending = []

instance (s : State) (i : Nat) : Decidable (Undisturbed s i) :=
  inferInstanceAs (Decidable (_ → _ → ∀ x ∈ _, _))

def CleanNames : Handler → Prop
  | .fileList _ dir => ∀ entry ∈ dir, Listed entry → '\n' ∉ entry.name.text ∧ '\r' ∉ entry.name.text
  | _ => True

variable {s t : State} {i : Nat} {held : Bool} {pending text : CString} {todo : List Action}
  {texts lines : List CString} {tasks : List Task} {h : Handler} {actions : List Action}

/-! ### Executions that keep their lines together -/

/-- A line is left open only under the lock, which is not given back before its end. -/
def Proper : Bool → CString → List Action → Prop
  | _, pending, [] => pending = []
  | _, pending, .semWait :: todo => pending = [] ∧ Proper true [] todo
  | held, pending, .semPost :: todo => held = true ∧ pending = [] ∧ Proper false [] todo
  | held, pending, .daemonSend text :: todo =>
    if Terminated text then Received (pending ++ messageOf text) ∧ Proper held [] todo
    else held = true ∧ Proper true (pending ++ text) todo

theorem proper_pending (proper : Proper held pending todo) : '\n' ∉ pending := by
  induction todo generalizing held pending with
  | nil =>
    -- at the end nothing is left open
    rw [show pending = [] from proper]
    simp
  | cons action todo ih =>
    cases action with
    | semWait =>
      rw [proper.1]
      simp
    | semPost =>
      rw [proper.2.1]
      simp
    -- either the text closes the line, which is then received as a whole, or the line stays open for the rest
    | daemonSend text =>
      unfold Proper at proper
      split at proper
      · exact (received_append.mp proper.1).1.noNewline
      · intro found
        exact ih proper.2 (List.mem_append_left _ found)

/-- Whole lines do not need the lock. -/
theorem proper_lines (whole : ∀ text ∈ texts, Terminated text ∧ Received (messageOf text))
    (rest : Proper held [] todo) : Proper held [] (texts.map .daemonSend ++ todo) := by
  induction texts with
  | nil => exact rest
  | cons text texts ih =>
    obtain ⟨⟨ended, received⟩, later⟩ := List.forall_mem_cons.mp whole
    simp only [List.map_cons, List.cons_append, Proper, ended, if_true, List.nil_append]
    exact ⟨received, ih later⟩

theorem proper_raw {cmd : CString} (received : Received cmd) (runs : clientRequestRaw cmd = some actions) :
    Proper false [] actions := by
  obtain ⟨first, blank, runs⟩ := Option.bind_eq_some_iff.mp runs
  obtain ⟨second, blank', runs⟩ := Option.bind_eq_some_iff.mp runs
  cases runs
  -- the command is a part of the received line, so it has no line end of its own
  have inside : ∀ c ∈ second.drop 1, c ∈ cmd := by
    obtain ⟨before, behind, rfl, -, rfl⟩ := strchr_some blank
    obtain ⟨before', behind', shape, -, rfl⟩ := strchr_some blank'
    have shape : behind = before' ++ ' ' :: behind' := shape
    intro c member
    have member : c ∈ behind' := member
    simp [shape, member]
  have clean := received_subset received inside
  -- `raw` sends it as it is: open until the second call
  have unended : ¬ Terminated (second.drop 1) := fun ended => clean.noNewline (List.mem_of_getLast? ended)
  have newline : Terminated ['\n'] ∧ messageOf ['\n'] = [] := by decide
  simp only [Proper, unended, newline, if_true, if_false, List.nil_append, List.append_nil, clean, and_self]

theorem proper_actions (clean : CleanNames h) (runs : h.actions = some actions) : Proper false [] actions := by
  cases h with
  | raw cmd received => exact proper_raw received runs
  | list =>
    cases runs
    -- the other handlers send whole lines, with or without the lock
    have line : Terminated "list\n".toList ∧ Received (messageOf "list\n".toList) := by decide +kernel
    simp only [clientRequestList, Proper, line, if_true, List.nil_append, and_self]
  | get entry created =>
    obtain ⟨answer, sent, rfl⟩ := Option.map_eq_some_iff.mp runs
    have good := created_goodKey created
    have fields : ∀ w ∈ ["get".toList, entry.key, decimal 0, decimal entry.size.toInt64.toInt], Field w := by
      simp only [List.mem_cons, List.not_mem_nil, or_false, forall_eq_or_imp, forall_eq]
      exact ⟨literal_field (by decide) (by decide), good.field, decimal_field _, decimal_field _⟩
    have line : Terminated answer ∧ Received (messageOf answer) := by
      rw [getMessage_eq good, Option.some.injEq] at sent
      rw [← sent, messageOf_line]
      exact ⟨terminated_line _, received_joinFields fields⟩
    simp only [Proper, line, if_true, List.nil_append, and_self]
  | fileList host dir =>
    obtain ⟨answers, sent, rfl⟩ := Option.map_eq_some_iff.mp runs
    have sends := sends_list sent
    -- a name with a line end in it would be announced as two lines
    have whole := fun text member => And.intro (sends.ended.mpr id text member) (sends.readable.mpr clean text member)
    rw [← List.append_nil (answers.map _)]
    exact proper_lines whole rfl
  | neighbourhood addr daemons addresses =>
    obtain ⟨answers, sent, rfl⟩ := Option.map_eq_some_iff.mp runs
    have sends := sends_neighbourhood addresses sent
    have whole := fun text member => And.intro (sends.ended.mpr id text member) (sends.readable.mpr trivial text member)
    exact ⟨rfl, proper_lines whole ⟨rfl, rfl, rfl⟩⟩

/-! ### The state of a run -/

/-- Of the lines that are meant some are on the wire, and the rest is still to come; behind the former
there is at most one text without its end, whose sender holds the lock. -/
structure Kept (tasks : List Task) (s : State) : Prop where
  proper : ∀ i x, s.executions[i]? = some x → Proper (decide (s.lock = some i)) x.pending x.todo
  guarded : ∀ i x, s.executions[i]? = some x → x.pending ≠ [] → s.lock = some i
  accounted : ∃ done : List CString, (∀ line ∈ done, Received line) ∧
    s.wire = (done.flatMap fun line => line ++ ['\n']) ++ s.executions.flatMap Execution.pending ∧
    (done ++ s.executions.flatMap Execution.owed).Perm (meant tasks)

/-- An execution and the others. -/
theorem split_at {xs : List Execution} {x : Execution} (here : xs[i]? = some x) :
    ∃ before behind, xs = before ++ x :: behind ∧ xs.eraseIdx i = before ++ behind ∧
      ∀ y, xs.set i y = before ++ y :: behind := by
  obtain ⟨bound, rfl⟩ := List.getElem?_eq_some_iff.mp here
  refine ⟨xs.take i, xs.drop (i + 1), ?_, List.eraseIdx_eq_take_drop_succ xs i, ?_⟩
  · rw [← List.drop_eq_getElem_cons bound, List.take_append_drop]
  · intro y
    rw [List.set_eq_take_append_cons_drop, if_pos bound]

theorem step_cases (taken : step s i = some t) :
    ∃ pending action todo, s.executions[i]? = some ⟨pending, action :: todo⟩ ∧
      ((action = .semWait ∧ s.lock = none ∧
          t = { s with lock := some i, executions := s.executions.set i ⟨pending, todo⟩ }) ∨
        (action = .semPost ∧ t = { s with lock := none, executions := s.executions.set i ⟨pending, todo⟩ }) ∨
        ∃ text, action = .daemonSend text ∧ t = { s with
          wire := s.wire ++ text
          executions := s.executions.set i ⟨if Terminated text then [] else pending ++ text, todo⟩ }) := by
  unfold step at taken
  split at taken
  -- `sem_wait` blocks while another execution holds the lock
  next pending todo here =>
    split at taken
    next free =>
      cases taken
      exact ⟨pending, _, todo, here, .inl ⟨rfl, free, rfl⟩⟩
    · cases taken
  next pending todo here =>
    cases taken
    exact ⟨pending, _, todo, here, .inr (.inl ⟨rfl, rfl⟩)⟩
  next pending text todo here =>
    cases taken
    exact ⟨pending, _, todo, here, .inr (.inr ⟨text, rfl, rfl⟩)⟩
  · cases taken

/-- What is known of an execution after one of them has gone on. -/
theorem forall_set {P : Nat → Execution → Prop} {xs : List Execution} {y : Execution} (own : P i y)
    (others : ∀ j x, j ≠ i → xs[j]? = some x → P j x) : ∀ j x, (xs.set i y)[j]? = some x → P j x := by
  intro j x found
  by_cases same : j = i
  · subst same
    rw [List.getElem?_set_self'] at found
    obtain ⟨-, -, rfl⟩ := Option.map_eq_some_iff.mp found
    exact own
  · rw [List.getElem?_set_ne (Ne.symm same)] at found
    exact others j x same found

/-- The lock changes hands. -/
theorem kept_lock {lock : Option Nat} (kept : Kept tasks s) {action : Action}
    (here : s.executions[i]? = some ⟨[], action :: todo⟩) (same : owed [] (action :: todo) = owed [] todo)
    (own : Proper (decide (lock = some i)) [] todo)
    (others : ∀ j, j ≠ i → (s.lock = some j ↔ lock = some j)) :
    Kept tasks { s with lock := lock, executions := s.executions.set i ⟨[], todo⟩ } := by
  refine ⟨?_, ?_, ?_⟩
  -- only the own execution has moved, and for the others the lock looks as before
  · refine forall_set own ?_
    intro j x differ found
    have proper := kept.proper j x found
    rwa [decide_eq_decide.mpr (others j differ)] at proper
  · refine forall_set (by simp) ?_
    intro j x differ found left
    exact (others j differ).mp (kept.guarded j x found left)
  -- the lock is not on the wire, and no line is opened or closed
  · obtain ⟨done, received, wire, perm⟩ := kept.accounted
    obtain ⟨before, behind, shape, -, set⟩ := split_at here
    refine ⟨done, received, ?_, ?_⟩
    · rw [set, wire, shape]
      simp
    · rw [set]
      rw [shape] at perm
      simpa [Execution.owed, same] using perm

/-- A call of `daemon_send` while no other line is open. -/
theorem kept_send (kept : Kept tasks s) (here : s.executions[i]? = some ⟨pending, .daemonSend text :: todo⟩)
    (alone : ∀ x ∈ s.executions.eraseIdx i, x.pending = []) :
    Kept tasks { s with
      wire := s.wire ++ text
      executions := s.executions.set i ⟨if Terminated text then [] else pending ++ text, todo⟩ } := by
  have proper := kept.proper i _ here
  simp only [Proper] at proper
  obtain ⟨done, received, wire, perm⟩ := kept.accounted
  obtain ⟨before, behind, shape, others, set⟩ := split_at here
  rw [others, List.forall_mem_append] at alone
  -- the only pending text on the wire is the own one
  have silent : before.flatMap Execution.pending = [] ∧ behind.flatMap Execution.pending = [] :=
    ⟨List.flatMap_eq_nil_iff.mpr alone.1, List.flatMap_eq_nil_iff.mpr alone.2⟩
  rw [shape] at wire perm
  simp only [List.flatMap_append, List.flatMap_cons, silent, List.nil_append, List.append_nil] at wire
  simp only [List.flatMap_append, List.flatMap_cons, Execution.owed, owed] at perm
  have otherProper := fun j x (differ : j ≠ i) found => kept.proper j x found
  have otherGuarded := fun j x (differ : j ≠ i) found => kept.guarded j x found
  by_cases ended : Terminated text
  -- the text ends a line: it is done, and one line less is owed
  · simp only [ended, if_true] at proper perm ⊢
    refine ⟨forall_set proper.2 otherProper, forall_set (by simp) otherGuarded,
      done ++ [pending ++ messageOf text], ?_, ?_, ?_⟩
    · exact List.forall_mem_append.mpr ⟨received, by simpa using proper.1⟩
    · have bytes : pending ++ text = (pending ++ messageOf text) ++ ['\n'] := by
        rw [List.append_assoc, ← text_eq ended]
      simp only [set, List.flatMap_append, List.flatMap_cons, List.flatMap_nil, silent, List.append_nil]
      rw [wire, List.append_assoc, bytes]
    · rw [set]
      simp only [List.flatMap_append, List.flatMap_cons, Execution.owed]
      refine List.Perm.trans ?_ perm
      rw [List.append_assoc]
      apply List.Perm.append_left done
      -- the line moves from the front of what is owed to its place
      simp only [List.cons_append, List.nil_append]
      exact List.perm_middle.symm
  -- the text leaves its line open, which is allowed under the lock alone
  · simp only [ended, if_false] at proper perm ⊢
    have holds : s.lock = some i := of_decide_eq_true proper.1
    refine ⟨forall_set ?_ otherProper, forall_set (fun _ => holds) otherGuarded, done, received, ?_, ?_⟩
    · simp only [holds, decide_true]
      exact proper.2
    · simp only [set, List.flatMap_append, List.flatMap_cons, silent, List.nil_append, List.append_nil]
      rw [wire, List.append_assoc]
    · rw [set]
      simpa only [List.flatMap_append, List.flatMap_cons, Execution.owed] using perm

/-- Whoever holds the lock finds no line of another execution open. -/
theorem alone_of_lock (kept : Kept tasks s) (holds : s.lock = some i) :
    ∀ x ∈ s.executions.eraseIdx i, x.pending = [] := by
  intro x other
  obtain ⟨j, differ, found⟩ := List.mem_eraseIdx_iff_getElem?.mp other
  by_contra left
  have owner := kept.guarded j x found left
  rw [holds, Option.some.injEq] at owner
  exact differ owner.symm

theorem kept_step (kept : Kept tasks s) (undisturbed : Undisturbed s i) (taken : step s i = some t) :
    Kept tasks t := by
  obtain ⟨pending, action, todo, here, cases⟩ := step_cases taken
  have proper := kept.proper i _ here
  rcases cases with ⟨rfl, free, rfl⟩ | ⟨rfl, rfl⟩ | ⟨text, rfl, rfl⟩
  -- `sem_wait`
  · obtain ⟨rfl, rest⟩ := proper
    refine kept_lock kept here rfl (by simpa using rest) ?_
    intro j differ
    simp [free, Ne.symm differ]
  -- `sem_post`: `Proper` says that the lock is the own one and that no line is open
  · obtain ⟨holds, rfl, rest⟩ := proper
    have holds : s.lock = some i := of_decide_eq_true holds
    refine kept_lock kept here rfl (by simpa using rest) ?_
    intro j differ
    simp [holds, Ne.symm differ]
  -- `daemon_send`: the lock keeps the others silent, and without it the hypothesis does
  · apply kept_send kept here
    by_cases holds : s.lock = some i
    · exact alone_of_lock kept holds
    · exact undisturbed holds (by simp [sendsNext, here])

theorem kept_start (clean : ∀ t ∈ tasks, CleanNames t.handler) : Kept tasks (start tasks) := by
  have executions : ∀ (i : Nat) x, (start tasks).executions[i]? = some x →
      ∃ t ∈ tasks, (⟨[], t.actions⟩ : Execution) = x := by
    intro i x found
    rw [start, List.getElem?_map] at found
    obtain ⟨t, member, rfl⟩ := Option.map_eq_some_iff.mp found
    exact ⟨t, List.mem_of_getElem? member, rfl⟩
  refine ⟨?_, ?_, [], by simp, ?_, ?_⟩
  -- each handler is proper from its first action on
  · intro i x found
    obtain ⟨t, member, rfl⟩ := executions i x found
    exact proper_actions (clean t member) t.runs
  · intro i x found left
    obtain ⟨t, member, rfl⟩ := executions i x found
    exact absurd rfl left
  · simp [start, List.flatMap_map]
  · simp [start, meant, List.flatMap_map, Execution.owed]

theorem decodesTo_lines (received : ∀ line ∈ lines, Received line) :
    DecodesTo (lines.flatMap fun line => line ++ ['\n']) lines := by
  induction lines with
  | nil => exact decodesTo_nil
  | cons line lines ih =>
    obtain ⟨first, rest⟩ := List.forall_mem_cons.mp received
    rw [List.flatMap_cons, List.append_assoc]
    exact (decodesTo_cons first).mpr (ih rest)

theorem completed_lines (noNewline : '\n' ∉ text) :
    completed ((lines.flatMap fun line => line ++ ['\n']) ++ text) = lines.flatMap fun line => line ++ ['\n'] := by
  have behind : ∀ c ∈ text.reverse, decide (c ≠ '\n') = true := by
    intro c member
    simp only [decide_eq_true_eq]
    rintro rfl
    exact noNewline (List.mem_reverse.mp member)
  rw [completed, List.rdropWhile, List.reverse_append, List.dropWhile_append_of_pos behind]
  -- the last line ends in `'\n'`, which is where `completed` stops
  cases lines using List.reverseRecOn with
  | nil => rfl
  | append_singleton lines line => simp

/-- In every run in which no handler sends without the lock into the middle of another one's line, the peer
reads whole lines. -/
theorem undisturbed_atomic (tasks : List Task) (clean : ∀ t ∈ tasks, CleanNames t.handler) (es : List Nat)
    (s : State) (ran : exec step (start tasks) es = some s) (undisturbed : Along step Undisturbed (start tasks) es) :
    Atomic tasks s := by
  have kept : Kept tasks s := exec_invariant Undisturbed (Kept tasks)
    (fun _ _ _ kept undisturbed taken => kept_step kept undisturbed taken) (kept_start clean) undisturbed ran
  obtain ⟨done, received, wire, perm⟩ := kept.accounted
  refine ⟨⟨done, ?_, ?_⟩, ?_⟩
  -- a text that is still open is behind the last `'\n'`
  · have noNewline : '\n' ∉ s.executions.flatMap Execution.pending := by
      intro found
      obtain ⟨x, member, inside⟩ := List.mem_flatMap.mp found
      obtain ⟨i, here⟩ := List.getElem?_of_mem member
      exact proper_pending (kept.proper i x here) inside
    rw [wire, completed_lines noNewline]
    exact decodesTo_lines received
  -- what is done is a part of what is meant
  · exact (List.sublist_append_left _ _).subperm.trans perm.subperm
  -- at the end nothing is owed, so what is done is all that is meant
  · intro finished
    have nothing : ∀ x ∈ s.executions, x.pending = [] ∧ x.owed = [] := by
      intro x member
      obtain ⟨i, here⟩ := List.getElem?_of_mem member
      have proper := kept.proper i x here
      rw [finished x member] at proper
      have empty : x.pending = [] := proper
      exact ⟨empty, by rw [Execution.owed, finished x member, empty]; rfl⟩
    refine ⟨done, ?_, ?_⟩
    · rw [wire, List.flatMap_eq_nil_iff.mpr fun x member => (nothing x member).1, List.append_nil]
      exact decodesTo_lines received
    · rwa [List.flatMap_eq_nil_iff.mpr fun x member => (nothing x member).2, List.append_nil] at perm

def rawTask : Task where
  handler := .raw "raw 10.0.0.2:7331 neighbourhood".toList (by decide +kernel)
  actions := [.semWait, .daemonSend "neighbourhood".toList, .daemonSend ['\n'], .semPost]
  runs := by decide +kernel

/-- The answer to a `list` of the same daemon. -/
def fileTask : Task where
  handler := .fileList tmpHost [⟨song, true, some 7, Vector.replicate 16 0⟩]
  actions := [.daemonSend (fileMessage tmpHost song (Vector.replicate 16 0) 7)]
  runs := by decide +kernel

/-- The file is announced when the command has not been sent yet. -/
theorem undisturbed_atomic_before :
    ∃ s, exec step (start [rawTask, fileTask]) [0, 1, 0, 0, 0] = some s ∧ Atomic [rawTask, fileTask] s := by
  obtain ⟨s, ran⟩ : ∃ s, exec step (start [rawTask, fileTask]) [0, 1, 0, 0, 0] = some s :=
    Option.isSome_iff_exists.mp (by decide +kernel)
  refine ⟨s, ran, undisturbed_atomic _ ?_ _ s ran (by decide +kernel)⟩
  simp [rawTask, fileTask, CleanNames, song]

/-- The file is announced between the command and its `'\n'`. -/
theorem atomic_split :
    ∃ s, exec step (start [rawTask, fileTask]) [0, 0, 1, 0, 0] = some s ∧ ¬ Atomic [rawTask, fileTask] s := by
  refine ⟨⟨"neighbourhood".toList ++ fileMessage tmpHost song (Vector.replicate 16 0) 7 ++ ['\n'], none,
    [⟨[], []⟩, ⟨[], []⟩]⟩, by decide +kernel, ?_⟩
  -- the peer reads the command and the announcement as one line, and nobody meant to send that line
  rintro ⟨⟨lines, decodes, some'⟩, -⟩
  have merged : DecodesTo (completed ("neighbourhood".toList ++
      fileMessage tmpHost song (Vector.replicate 16 0) 7 ++ ['\n']))
      ["neighbourhood".toList ++ messageOf (fileMessage tmpHost song (Vector.replicate 16 0) 7), []] := by
    decide +kernel
  rw [decodesTo_unique decodes merged] at some'
  have member := some'.subset List.mem_cons_self
  revert member
  decide +kernel

end Pire2Pire.SharedSocket
