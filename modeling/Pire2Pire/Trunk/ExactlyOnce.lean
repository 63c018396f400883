import Pire2Pire.Trunk.Dispatch

/-! What trunk relies on for every request to be executed once: an invariant that says of every request how far it has
got and who holds it. -/
namespace Pire2Pire.Trunk

open Library

/-! ### Where a request is -/

inductive Stage where
  | unmade
  /-- created by the loop and not linked yet -/
  | fresh
  /-- linked, and its thread is not created yet -/
  | linked
  /-- its thread `w` has not called the callback yet -/
  | dispatched (w : Nat)
  | executed (w : Nat)
  | removed (w : Nat)
  | freed
deriving DecidableEq

def Stage.holder : Stage → Option Nat
  | .dispatched w | .executed w | .removed w => some w
  | .unmade | .fresh | .linked | .freed => none

/-- The request is still with the loop. -/
def Stage.early : Stage → Bool
  | .fresh | .linked => true
  | .unmade | .dispatched _ | .executed _ | .removed _ | .freed => false

def Stage.allocated : Stage → Bool
  | .unmade | .freed => false
  | .fresh | .linked | .dispatched _ | .executed _ | .removed _ => true

def Stage.listed : Stage → Bool
  | .linked | .dispatched _ | .executed _ => true
  | .unmade | .fresh | .removed _ | .freed => false

def Stage.accepted : Stage → Bool
  | .unmade | .fresh => false
  | .linked | .dispatched _ | .executed _ | .removed _ | .freed => true

def Stage.timesExecuted : Stage → Nat
  | .unmade | .fresh | .linked | .dispatched _ => 0
  | .executed _ | .removed _ | .freed => 1

def Stage.timesRemoved : Stage → Nat
  | .unmade | .fresh | .linked | .dispatched _ | .executed _ => 0
  | .removed _ | .freed => 1

def Stage.timesFreed : Stage → Nat
  | .freed => 1
  | _ => 0

/-- The stage of the request of a thread. -/
def ThreadPc.stage (w : Nat) : ThreadPc → Stage
  | .reading => .dispatched w
  | .executing | .removing => .executed w
  | .freeing => .removed w

/-- The request that the loop has created or linked and not given to a thread. -/
def LoopPc.request : LoopPc → Option Nat
  | .linking r _ | .storing r _ | .completing r | .starting r => some r
  | .reading | .creating _ | .killing | .freeing | .finished => none

/-- What the stage says about the memory and the history of the request. -/
structure RequestFits (s : State) (r : Nat) (l : Stage) : Prop where
  made : s.lines r = none ↔ l = .unmade
  cell : l.allocated = true →
    ∃ y, s.reqs r = some y ∧ s.lines r = some y.cmd ∧ ∀ w, l.holder = some w → y.threadId = w
  listed : r ∈ s.requests ↔ l.listed = true
  accepted : r ∈ s.accepted ↔ l.accepted = true
  executed : (s.executions.map Prod.snd).count r = l.timesExecuted
  removed : s.removals.count r = l.timesRemoved
  freed : s.frees.count r = l.timesFreed
  held : ∀ w, l.holder = some w → ∃ x, s.threads w = some x ∧ x.startedFor = r
  pending : l.early = true → s.loop.request = some r

/-- The callback is the one for the line of the request. -/
def Chosen (s : State) (r : Nat) (callback : Callback) : Prop :=
  ∃ line, s.lines r = some line ∧ callback = callbackFor line

/-- The positions of the loop at which the wrapper is as it was when the last thread was created. -/
def LoopPc.keeps : LoopPc → Bool
  | .reading | .creating _ | .linking _ _ | .storing _ _ | .killing | .freeing => true
  | .completing _ | .starting _ | .finished => false

structure ThreadFits (s : State) (stage : Nat → Stage) (w : Nat) (x : Thread) : Prop where
  stage : stage x.startedFor = x.pc.stage w
  r : ∀ q, x.r = some q → q = x.startedFor
  argument : ∀ q, x.argument = some q → q = x.startedFor
  callback : ∀ callback, x.callback = some callback → Chosen s x.startedFor callback
  read : x.pc ≠ .reading → x.AllRead
  unread : ¬ x.AllRead → s.loop.keeps = true ∧ s.wrapper.request = some x.startedFor ∧
    ∃ callback, s.wrapper.callback = some callback ∧ Chosen s x.startedFor callback

/-- What the position of the loop says about its request and the wrapper. -/
def LoopFits (s : State) (stage : Nat → Stage) : Prop :=
  match s.loop with
  | .linking r callback => stage r = .fresh ∧ Chosen s r callback
  | .storing r callback => stage r = .linked ∧ Chosen s r callback
  | .completing r => stage r = .linked ∧ ∃ callback, s.wrapper.callback = some callback ∧ Chosen s r callback
  | .starting r => stage r = .linked ∧ s.wrapper.request = some r ∧
      ∃ callback, s.wrapper.callback = some callback ∧ Chosen s r callback
  | .finished => ∀ w x, s.threads w = some x → x.pc = .freeing
  | .reading | .creating _ | .killing | .freeing => True

/-- The invariant, for an assignment of stages. -/
structure Inv (s : State) (stage : Nat → Stage) : Prop where
  sound : s.fault = false
  requests : ∀ r, RequestFits s r (stage r)
  once : s.requests.Nodup
  threads : ∀ w x, s.threads w = some x → ThreadFits s stage w x
  known : ∀ w x, s.threads w = some x → w ∈ s.created
  loop : LoopFits s stage
  own : ∀ callback r, (callback, r) ∈ s.executions → Chosen s r callback

variable {s t : State} {stage : Nat → Stage} {r w : Nat} {x : Thread}

theorem start_inv : Inv start fun _ => .unmade := by
  refine ⟨rfl, ?_, ?_, ?_, ?_, trivial, ?_⟩
  · intro r
    constructor <;> simp [start, Stage.allocated, Stage.listed, Stage.accepted, Stage.timesExecuted,
      Stage.timesRemoved, Stage.timesFreed, Stage.holder, Stage.early]
  all_goals simp [start]

/-- Nothing blocks a request thread. -/
theorem threadStep_progress (here : s.threads w = some x) (read : x.pc ≠ .reading → x.AllRead) :
    ∃ act, (threadStep s w act).isSome := by
  obtain ⟨pc, q, r, callback, argument⟩ := x
  cases pc with
  | reading =>
    -- the reads come in the order of the source, then the call
    cases r with
    | none => exact ⟨.readRequest, by simpa [threadStep, here] using readWrapper_isSome ..⟩
    | some r =>
      cases callback with
      | none => exact ⟨.readCallback, by simpa [threadStep, here] using readWrapper_isSome ..⟩
      | some callback =>
        cases argument with
        | none => exact ⟨.readArgument, by simpa [threadStep, here] using readWrapper_isSome ..⟩
        | some argument => exact ⟨.call, by simp [threadStep, here]⟩
  | executing => exact ⟨.finish, by simp [threadStep, here]⟩
  | removing =>
    obtain ⟨r, rfl⟩ := Option.isSome_iff_exists.mp (read (by simp)).1
    refine ⟨.remove, ?_⟩
    simp only [threadStep, here]
    apply useRequest_isSome
    intro y
    split
    · rfl
    · exact removeRequest_isSome (fun u => rfl) _
  | freeing =>
    obtain ⟨r, rfl⟩ := Option.isSome_iff_exists.mp (read (by simp)).1
    refine ⟨.free, ?_⟩
    simp only [threadStep, here]
    exact useRequest_isSome fun y => rfl

/-- The invariant says all that is wanted. -/
theorem inv_exactlyOnce (inv : Inv s stage) : ExactlyOnce s := by
  refine ⟨inv.sound, inv.own, ?_, ?_, fun w x here => threadStep_progress here (inv.threads w x here).read⟩
  · intro r
    rw [(inv.requests r).executed, (inv.requests r).removed, (inv.requests r).freed]
    cases stage r <;> simp [Stage.timesExecuted, Stage.timesRemoved, Stage.timesFreed]
  · intro r accepted
    have fits := inv.requests r
    rw [fits.executed, fits.removed, fits.freed]
    rw [fits.accepted] at accepted
    -- by the stage: linked and not started, with a thread, or at its end
    cases at_ : stage r with
    | unmade => simp [at_, Stage.accepted] at accepted
    | fresh => simp [at_, Stage.accepted] at accepted
    | linked =>
      have position := fits.pending (by rw [at_]; rfl)
      have loop := inv.loop
      cases pc : s.loop <;> simp_all [LoopPc.request, LoopFits]
    | dispatched w => exact .inr (.inr (.inr (.inr ⟨w, fits.held w (by rw [at_]; rfl)⟩)))
    | executed w => exact .inr (.inr (.inr (.inr ⟨w, fits.held w (by rw [at_]; rfl)⟩)))
    | removed w => exact .inr (.inr (.inr (.inr ⟨w, fits.held w (by rw [at_]; rfl)⟩)))
    | freed => simp [Stage.timesExecuted, Stage.timesRemoved, Stage.timesFreed]

/-! ### Frames -/

theorem ThreadPc.stage_holder (pc : ThreadPc) : (pc.stage w).holder = some w := by
  cases pc <;> rfl

/-- A thread was not started for a request that it does not hold. -/
theorem Inv.apart (inv : Inv s stage) (here : s.threads w = some x) (other : (stage r).holder ≠ some w) :
    x.startedFor ≠ r := by
  rintro rfl
  rw [(inv.threads w x here).stage] at other
  exact other x.pc.stage_holder

/-- What is known of a thread stays known while its request stays where it is and the wrapper is as it was. -/
theorem ThreadFits.frame {stage' : Nat → Stage} (fits : ThreadFits s stage w x)
    (same : stage' x.startedFor = stage x.startedFor)
    (chosen : ∀ callback, Chosen s x.startedFor callback → Chosen t x.startedFor callback)
    (wrapper : t.wrapper = s.wrapper) (keeps : ¬ x.AllRead → t.loop.keeps = true) :
    ThreadFits t stage' w x := by
  refine ⟨same ▸ fits.stage, fits.r, fits.argument, ?_, fits.read, ?_⟩
  · intro callback read
    exact chosen callback (fits.callback callback read)
  · intro unread
    obtain ⟨-, request, callback, stored, choice⟩ := fits.unread unread
    exact ⟨keeps unread, wrapper ▸ request, callback, wrapper ▸ stored, chosen callback choice⟩

/-! ### The steps of the loop -/

/-- A move of the loop to another position that has the same request. -/
theorem goto_inv {pc : LoopPc} (inv : Inv s stage) (same : pc.request = s.loop.request)
    (fits : LoopFits { s with loop := pc } stage)
    (keeps : ∀ w x, s.threads w = some x → ¬ x.AllRead → pc.keeps = true) :
    Inv { s with loop := pc } stage := by
  refine ⟨inv.sound, ?_, inv.once, ?_, inv.known, fits, inv.own⟩
  · intro r
    exact { inv.requests r with pending := fun early => same.trans ((inv.requests r).pending early) }
  · intro w x here
    exact (inv.threads w x here).frame rfl (fun _ => id) rfl (keeps w x here)

theorem create_inv {message : CString} {garbage : Nat} (inv : Inv s stage) (pc : s.loop = .creating message)
    (unmade : s.lines r = none) :
    Inv { s with
      reqs := s.reqs.set r ⟨message, garbage⟩
      lines := s.lines.set r message
      loop := .linking r (callbackFor message) } (Function.update stage r .fresh) := by
  have new := ((inv.requests r).made).mp unmade
  have chosen : ∀ q callback, Chosen s q callback →
      ∃ line, s.lines.set r message q = some line ∧ callback = callbackFor line := by
    rintro q callback ⟨line, made, rfl⟩
    have other : q ≠ r := by
      rintro rfl
      simp [unmade] at made
    exact ⟨line, by simp [Heap.set_other _ _ other, made], rfl⟩
  refine ⟨inv.sound, (Function.forall_update_iff stage _).mpr ⟨?_, ?_⟩, inv.once, ?_, inv.known, ?_, ?_⟩
  · have fits := inv.requests r
    rw [new] at fits
    refine { fits with made := ?_, cell := ?_, held := ?_, pending := ?_ }
    · simp
    · simp [Stage.holder]
    · simp [Stage.holder]
    · intro _
      rfl
  · intro q other
    have fits := inv.requests q
    refine { fits with made := ?_, cell := ?_, pending := ?_ }
    · simpa [Heap.set_other _ _ other] using fits.made
    · simpa [Heap.set_other _ _ other] using fits.cell
    -- the loop had no request before
    · intro early
      have busy := fits.pending early
      simp [pc, LoopPc.request] at busy
  · intro w x here
    refine (inv.threads w x here).frame ?_ (chosen _) rfl (fun _ => rfl)
    exact Function.update_of_ne (inv.apart here (by simp [new, Stage.holder])) ..
  · exact ⟨Function.update_self .., message, by simp, rfl⟩
  · intro callback q executed
    exact chosen q callback (inv.own callback q executed)

theorem link_inv {callback : Callback} (inv : Inv s stage) (pc : s.loop = .linking r callback) :
    Inv { s with
      requests := r :: s.requests
      accepted := r :: s.accepted
      loop := .storing r callback } (Function.update stage r .linked) := by
  have loop := inv.loop
  simp only [LoopFits, pc] at loop
  obtain ⟨fresh, choice⟩ := loop
  have fits := inv.requests r
  rw [fresh] at fits
  have unlisted : r ∉ s.requests := by
    rw [fits.listed]
    simp [Stage.listed]
  refine ⟨inv.sound, (Function.forall_update_iff stage _).mpr ⟨?_, ?_⟩, List.nodup_cons.mpr ⟨unlisted, inv.once⟩,
    ?_, inv.known, ⟨Function.update_self .., choice⟩, inv.own⟩
  · refine { fits with made := ?_, listed := ?_, accepted := ?_, pending := fun _ => rfl }
    · simpa using fits.made
    · simp [Stage.listed]
    · simp [Stage.accepted]
  · intro q other
    have fits := inv.requests q
    refine { fits with listed := ?_, accepted := ?_, pending := ?_ }
    · simpa [other] using fits.listed
    · simpa [other] using fits.accepted
    · intro early
      rw [← fits.pending early, pc]
      rfl
  · intro w x here
    refine (inv.threads w x here).frame ?_ (fun _ => id) rfl (fun _ => rfl)
    exact Function.update_of_ne (inv.apart here (by simp [fresh, Stage.holder])) ..

/-- The wrapper may be written once no thread is going to read it any more. -/
theorem store_inv {callback : Callback} (inv : Inv s stage) (pc : s.loop = .storing r callback)
    (read : ∀ w x, s.threads w = some x → x.AllRead) :
    Inv { s with wrapper := { s.wrapper with callback := some callback }, loop := .completing r } stage := by
  have loop := inv.loop
  simp only [LoopFits, pc] at loop
  refine ⟨inv.sound, ?_, inv.once, ?_, inv.known, ⟨loop.1, callback, rfl, loop.2⟩, inv.own⟩
  · intro q
    refine { inv.requests q with pending := ?_ }
    intro early
    rw [← (inv.requests q).pending early, pc]
    rfl
  · intro w x here
    refine { inv.threads w x here with unread := ?_ }
    intro unread
    exact absurd (read w x here) unread

theorem complete_inv (inv : Inv s stage) (pc : s.loop = .completing r) :
    Inv { s with wrapper := { s.wrapper with request := some r }, loop := .starting r } stage := by
  have loop := inv.loop
  simp only [LoopFits, pc] at loop
  refine ⟨inv.sound, ?_, inv.once, ?_, inv.known, ⟨loop.1, rfl, loop.2⟩, inv.own⟩
  · intro q
    refine { inv.requests q with pending := ?_ }
    intro early
    rw [← (inv.requests q).pending early, pc]
    rfl
  · intro w x here
    refine { inv.threads w x here with unread := ?_ }
    intro unread
    -- the callback could only be stored when every thread had read
    have keeps := ((inv.threads w x here).unread unread).1
    simp [pc, LoopPc.keeps] at keeps

theorem startThread_inv {y : Request} (inv : Inv s stage) (pc : s.loop = .starting r) (cell : s.reqs r = some y)
    (new : s.threads w = none) :
    Inv { s with
      reqs := s.reqs.set r { y with threadId := w }
      threads := s.threads.set w ⟨.reading, r, none, none, none⟩
      created := w :: s.created
      loop := .reading } (Function.update stage r (.dispatched w)) := by
  have loop := inv.loop
  simp only [LoopFits, pc] at loop
  obtain ⟨linked, request, choice⟩ := loop
  refine ⟨inv.sound, (Function.forall_update_iff stage _).mpr ⟨?_, ?_⟩, inv.once, ?_, ?_, trivial, inv.own⟩
  · have fits := inv.requests r
    rw [linked] at fits
    obtain ⟨y', cell', made, -⟩ := fits.cell rfl
    cases Option.some.inj (cell.symm.trans cell')
    refine { fits with made := ?_, cell := ?_, held := ?_, pending := ?_ }
    · simpa using fits.made
    · intro _
      exact ⟨_, Heap.set_here .., made, by simp [Stage.holder]⟩
    · intro w' held
      simp only [Stage.holder, Option.some.injEq] at held
      subst held
      exact ⟨_, Heap.set_here .., rfl⟩
    · simp [Stage.early]
  · intro q other
    have fits := inv.requests q
    refine { fits with cell := ?_, held := ?_, pending := ?_ }
    · simpa [Heap.set_other _ _ other] using fits.cell
    · intro w' held
      obtain ⟨x', here, startedFor⟩ := fits.held w' held
      have elsewhere : w' ≠ w := by
        rintro rfl
        simp [new] at here
      exact ⟨x', by simpa [Heap.set_other _ _ elsewhere] using here, startedFor⟩
    · intro early
      have busy := fits.pending early
      simp only [pc, LoopPc.request, Option.some.injEq] at busy
      exact absurd busy.symm other
  · apply Heap.forall_set
    -- the new thread will find its own request and callback in the wrapper
    · exact ⟨Function.update_self .., by simp, by simp, by simp, by simp, fun _ => ⟨rfl, request, choice⟩⟩
    · intro w' x' _ here
      refine (inv.threads w' x' here).frame ?_ (fun _ => id) rfl (fun _ => rfl)
      exact Function.update_of_ne (inv.apart here (by simp [linked, Stage.holder])) ..
  · apply Heap.forall_set
    · exact List.mem_cons_self
    · intro w' x' _ here
      exact List.mem_cons_of_mem _ (inv.known w' x' here)

/-! ### The steps of the request threads -/

theorem LoopFits.frame {stage' : Nat → Stage} (fits : LoopFits s stage) (loop : t.loop = s.loop)
    (wrapper : t.wrapper = s.wrapper) (lines : t.lines = s.lines)
    (same : ∀ q, (stage q).early = true → stage' q = stage q)
    (late : s.loop = .finished → ∀ w x, t.threads w = some x → x.pc = .freeing) : LoopFits t stage' := by
  have kept : ∀ q l, l.early = true → stage q = l → stage' q = l := by
    rintro q l early rfl
    exact same q early
  cases pc : s.loop with
  | linking r callback =>
    simp only [LoopFits, pc, loop, Chosen, lines] at fits ⊢
    exact ⟨kept r _ rfl fits.1, fits.2⟩
  | storing r callback =>
    simp only [LoopFits, pc, loop, Chosen, lines] at fits ⊢
    exact ⟨kept r _ rfl fits.1, fits.2⟩
  | completing r =>
    simp only [LoopFits, pc, loop, Chosen, lines, wrapper] at fits ⊢
    exact ⟨kept r _ rfl fits.1, fits.2⟩
  | starting r =>
    simp only [LoopFits, pc, loop, Chosen, lines, wrapper] at fits ⊢
    exact ⟨kept r _ rfl fits.1, fits.2⟩
  | finished =>
    simp only [LoopFits, loop, pc]
    exact late pc
  | _ => simp only [LoopFits, loop, pc]

theorem held_set {x' : Thread} {q w' : Nat} (here : s.threads w = some x) (same : x'.startedFor = x.startedFor)
    (held : ∃ y, s.threads w' = some y ∧ y.startedFor = q) :
    ∃ y, s.threads.set w x' w' = some y ∧ y.startedFor = q := by
  obtain ⟨y, cell, startedFor⟩ := held
  by_cases elsewhere : w' = w
  · subst elsewhere
    cases Option.some.inj (here.symm.trans cell)
    exact ⟨x', Heap.set_here .., same.trans startedFor⟩
  · exact ⟨y, (Heap.set_other _ _ elsewhere).trans cell, startedFor⟩

/-- A thread gets on without its request getting on. -/
theorem setThread_inv {x' : Thread} (inv : Inv s stage) (here : s.threads w = some x)
    (same : x'.startedFor = x.startedFor) (fits : ThreadFits s stage w x') (going : s.loop ≠ .finished) :
    Inv (s.setThread w x') stage := by
  refine ⟨inv.sound, ?_, inv.once, Heap.forall_set ?_ ?_, Heap.forall_set ?_ ?_, ?_, inv.own⟩
  · intro q
    exact { inv.requests q with held := fun w' held => held_set here same ((inv.requests q).held w' held) }
  · exact { fits with }
  · intro w' y _ cell
    exact { inv.threads w' y cell with }
  · exact inv.known w x here
  · intro w' y _ cell
    exact inv.known w' y cell
  · exact inv.loop.frame rfl rfl rfl (fun _ _ => rfl) (fun finished => absurd finished going)

/-- The stage of the request of a thread, and what it excludes: the other threads have other requests, and the loop
has another one. -/
theorem Inv.moves {l : Stage} (inv : Inv s stage) (here : s.threads w = some x) :
    (∀ w' y, w' ≠ w → s.threads w' = some y →
      Function.update stage x.startedFor l y.startedFor = stage y.startedFor) ∧
      ∀ q, (stage q).early = true → Function.update stage x.startedFor l q = stage q := by
  have fits := (inv.threads w x here).stage
  constructor
  · intro w' y other cell
    refine Function.update_of_ne (inv.apart cell ?_) ..
    rw [fits, x.pc.stage_holder]
    exact fun same => other (Option.some.inj same).symm
  · intro q early
    refine Function.update_of_ne ?_ ..
    rintro rfl
    rw [fits] at early
    cases pc : x.pc <;> simp [pc, ThreadPc.stage, Stage.early] at early

theorem call_inv {callback : Callback} (inv : Inv s stage) (here : s.threads w = some x) (pc : x.pc = .reading)
    (read : x.AllRead) (function : x.callback = some callback) (going : s.loop ≠ .finished) :
    Inv { s.setThread w { x with pc := .executing } with
      executions := (callback, x.startedFor) :: s.executions } (Function.update stage x.startedFor (.executed w)) := by
  have fits := inv.threads w x here
  have own := fits.stage
  rw [pc] at own
  have request := inv.requests x.startedFor
  rw [own] at request
  obtain ⟨apart, early⟩ := inv.moves (l := .executed w) here
  refine ⟨inv.sound, (Function.forall_update_iff stage _).mpr ⟨?_, ?_⟩, inv.once, Heap.forall_set ?_ ?_,
    Heap.forall_set ?_ ?_, ?_, ?_⟩
  · refine { request with made := ?_, executed := ?_, held := ?_, pending := ?_ }
    · simpa [State.setThread, ThreadPc.stage] using request.made
    · simpa [ThreadPc.stage, Stage.timesExecuted] using request.executed
    · intro w' held
      exact held_set here rfl (request.held w' held)
    · simp [Stage.early]
  · intro q other
    have fits := inv.requests q
    refine { fits with executed := ?_, held := fun w' held => held_set here rfl (fits.held w' held) }
    simpa [other.symm] using fits.executed
  · exact { fits with stage := Function.update_self .., read := fun _ => read }
  · intro w' y other cell
    exact (inv.threads w' y cell).frame (apart w' y other cell) (fun _ => id) rfl
      (fun unread => ((inv.threads w' y cell).unread unread).1)
  · exact inv.known w x here
  · intro w' y _ cell
    exact inv.known w' y cell
  · exact inv.loop.frame rfl rfl rfl early (fun finished => absurd finished going)
  · intro callback' q executed
    rcases List.mem_cons.mp executed with new | old
    · cases new
      exact fits.callback callback function
    · exact inv.own callback' q old

theorem remove_inv (inv : Inv s stage) (here : s.threads w = some x) (pc : x.pc = .removing)
    (going : s.loop ≠ .finished) :
    Inv ({ s with requests := s.requests.erase x.startedFor, removals := x.startedFor :: s.removals }.setThread w
      { x with pc := .freeing }) (Function.update stage x.startedFor (.removed w)) := by
  have fits := inv.threads w x here
  have own := fits.stage
  rw [pc] at own
  have request := inv.requests x.startedFor
  rw [own] at request
  obtain ⟨apart, early⟩ := inv.moves (l := .removed w) here
  refine ⟨inv.sound, (Function.forall_update_iff stage _).mpr ⟨?_, ?_⟩, inv.once.erase _, Heap.forall_set ?_ ?_,
    Heap.forall_set ?_ ?_, ?_, inv.own⟩
  · refine { request with made := ?_, listed := ?_, removed := ?_, held := ?_, pending := ?_ }
    · simpa [State.setThread, ThreadPc.stage] using request.made
    · simp [State.setThread, inv.once.mem_erase_iff, Stage.listed]
    · simpa [State.setThread, ThreadPc.stage, Stage.timesRemoved] using request.removed
    · intro w' held
      exact held_set here rfl (request.held w' held)
    · simp [Stage.early]
  · intro q other
    have fits := inv.requests q
    refine { fits with listed := ?_, removed := ?_, held := fun w' held => held_set here rfl (fits.held w' held) }
    · simpa [State.setThread, inv.once.mem_erase_iff, other] using fits.listed
    · simpa [State.setThread, other.symm] using fits.removed
  · exact { fits with stage := Function.update_self .., read := fun _ => fits.read (by simp [pc]) }
  · intro w' y other cell
    exact (inv.threads w' y cell).frame (apart w' y other cell) (fun _ => id) rfl
      (fun unread => ((inv.threads w' y cell).unread unread).1)
  · exact inv.known w x here
  · intro w' y _ cell
    exact inv.known w' y cell
  · exact inv.loop.frame rfl rfl rfl early (fun finished => absurd finished going)

/-- A thread frees its request and ends. -/
theorem free_inv (inv : Inv s stage) (here : s.threads w = some x) (pc : x.pc = .freeing) :
    Inv { s with
      reqs := s.reqs.free x.startedFor
      frees := x.startedFor :: s.frees
      threads := s.threads.free w } (Function.update stage x.startedFor .freed) := by
  have own := (inv.threads w x here).stage
  rw [pc] at own
  have request := inv.requests x.startedFor
  rw [own] at request
  obtain ⟨apart, early⟩ := inv.moves (l := .freed) here
  have others : ∀ w' y, s.threads.free w w' = some y → w' ≠ w ∧ s.threads w' = some y := by
    intro w' y cell
    by_cases same : w' = w
    · subst same
      simp at cell
    · exact ⟨same, by simpa [Heap.free_other _ same] using cell⟩
  refine ⟨inv.sound, (Function.forall_update_iff stage _).mpr ⟨?_, ?_⟩, inv.once, ?_, ?_, ?_, inv.own⟩
  · refine { request with made := ?_, cell := ?_, listed := ?_, freed := ?_, held := ?_, pending := ?_ }
    · simpa [ThreadPc.stage] using request.made
    · simp [Stage.allocated]
    · simpa [ThreadPc.stage, Stage.listed] using request.listed
    · simpa [ThreadPc.stage, Stage.timesFreed] using request.freed
    · simp [Stage.holder]
    · simp [Stage.early]
  · intro q other
    have fits := inv.requests q
    refine { fits with cell := ?_, freed := ?_, held := ?_ }
    · simpa [Heap.free_other _ other] using fits.cell
    · simpa [other.symm] using fits.freed
    -- the thread was started for the request that it frees, so another one has another thread
    · intro w' held
      obtain ⟨y, cell, startedFor⟩ := fits.held w' held
      have elsewhere : w' ≠ w := by
        rintro rfl
        cases Option.some.inj (here.symm.trans cell)
        exact other startedFor.symm
      exact ⟨y, (Heap.free_other _ elsewhere).trans cell, startedFor⟩
  · intro w' y cell
    obtain ⟨other, cell⟩ := others w' y cell
    exact (inv.threads w' y cell).frame (apart w' y other cell) (fun _ => id) rfl
      (fun unread => ((inv.threads w' y cell).unread unread).1)
  · intro w' y cell
    exact inv.known w' y (others w' y cell).2
  · refine inv.loop.frame rfl rfl rfl early ?_
    intro finished w' y cell
    have late := inv.loop
    simp only [LoopFits, finished] at late
    exact late w' y (others w' y cell).2

/-! ### Runs -/

/-- What the code relies on. The loop stores a new callback only when every thread has read the wrapper,
`pthread_create` succeeds, the client is freed only when every thread has unlinked its request, and a thread that
unlinks its request meets no other linked request with the same `thread_id` (that of a request without a thread is
arbitrary). -/
def Settled (s : State) : Event → Prop
  | .loop .store => ∀ w ∈ s.created, ∀ x ∈ s.threads w, x.AllRead
  | .loop (.start created) => created.isSome
  | .loop .free => ∀ w ∈ s.created, ∀ x ∈ s.threads w, x.pc = .freeing
  | .thread w .remove => ∀ x ∈ s.threads w, ∀ r ∈ x.r, ∀ y ∈ s.reqs r, ∀ q ∈ s.requests,
      (s.reqs q).map Request.threadId = some y.threadId → q = r
  | _ => True

instance (s : State) (e : Event) : Decidable (Settled s e) := by
  unfold Settled
  split <;> infer_instance

/-- Every linked request is allocated. -/
theorem Inv.useRequests (inv : Inv s stage) {rs : List Nat} {k : Option State} (linked : ∀ q ∈ rs, q ∈ s.requests) :
    s.useRequests rs k = k := by
  have allocated : rs.all (fun q => (s.reqs q).isSome) = true := by
    rw [List.all_eq_true]
    intro q member
    have listed := ((inv.requests q).listed).mp (linked q member)
    obtain ⟨y, cell, -⟩ := (inv.requests q).cell (by cases at_ : stage q <;> simp_all [Stage.listed, Stage.allocated])
    simp [cell]
  simp [State.useRequests, allocated]

theorem loopStep_inv {act : LoopAct} (inv : Inv s stage) (settled : Settled s (.loop act))
    (taken : loopStep s act = some t) : ∃ stage', Inv t stage' := by
  unfold loopStep at taken
  split at taken
  next pc => -- the connection is closed
    cases taken
    exact ⟨stage, goto_inv inv (by rw [pc]; rfl) trivial (fun _ _ _ _ => rfl)⟩
  next message pc =>
    split at taken
    next => -- quit
      cases taken
      exact ⟨stage, goto_inv inv (by rw [pc]; rfl) trivial (fun _ _ _ _ => rfl)⟩
    next =>
      split at taken
      next => -- too many requests
        cases taken
        exact ⟨stage, inv⟩
      next =>
        cases taken
        exact ⟨stage, goto_inv inv (by rw [pc]; rfl) trivial (fun _ _ _ _ => rfl)⟩
  next message pc => -- no memory
    cases taken
    exact ⟨stage, goto_inv inv (by rw [pc]; rfl) trivial (fun _ _ _ _ => rfl)⟩
  next message r garbage pc =>
    split at taken
    next unmade =>
      cases taken
      exact ⟨_, create_inv inv pc unmade⟩
    next => cases taken
  next r callback pc => -- link
    have fresh := inv.loop
    simp only [LoopFits, pc] at fresh
    obtain ⟨y, cell, -⟩ := (inv.requests r).cell (by rw [fresh.1]; rfl)
    rw [State.link, useRequest_some cell, inv.useRequests (fun q => List.mem_of_mem_take)] at taken
    cases taken
    exact ⟨_, link_inv inv pc⟩
  next r callback pc => -- store
    cases taken
    refine ⟨_, store_inv inv pc ?_⟩
    intro w x here
    exact settled w (inv.known w x here) x here
  next r pc => -- complete
    cases taken
    exact ⟨_, complete_inv inv pc⟩
  next => cases settled
  next r w pc => -- start
    have linked := inv.loop
    simp only [LoopFits, pc] at linked
    obtain ⟨y, cell, -⟩ := (inv.requests r).cell (by rw [linked.1]; rfl)
    unfold State.startThread at taken
    split at taken
    next new =>
      rw [useRequest_some cell] at taken
      cases taken
      exact ⟨_, startThread_inv inv pc cell new⟩
    next => cases taken
  next pc => -- kill
    rw [inv.useRequests (fun q => id)] at taken
    cases taken
    exact ⟨stage, goto_inv inv (by rw [pc]; rfl) trivial (fun _ _ _ _ => rfl)⟩
  next pc => -- free
    cases taken
    have late : ∀ w x, s.threads w = some x → x.pc = .freeing :=
      fun w x here => settled w (inv.known w x here) x here
    refine ⟨stage, goto_inv inv (by rw [pc]; rfl) late ?_⟩
    intro w x here unread
    exact absurd ((inv.threads w x here).read (by simp [late w x here])) unread
  next => cases taken

/-- The client and the wrapper exist as long as a thread needs them. -/
theorem Inv.going (inv : Inv s stage) (here : s.threads w = some x) (pc : x.pc ≠ .freeing) :
    s.loop ≠ .finished := by
  intro finished
  have late := inv.loop
  simp only [LoopFits, finished] at late
  exact pc (late w x here)

/-- The search for the request by its thread finds it. -/
theorem removeRequest_own {y : Request} {k : State → Option State} (inv : Inv s stage) (listed : r ∈ s.requests)
    (cell : s.reqs r = some y)
    (only : ∀ q ∈ s.requests, (s.reqs q).map Request.threadId = some y.threadId → q = r) :
    s.removeRequest y.threadId k =
      k { s with requests := s.requests.erase r, removals := r :: s.removals } := by
  have found : s.requests.find? (fun q => (s.reqs q).map Request.threadId = some y.threadId) = some r := by
    cases search : s.requests.find? (fun q => (s.reqs q).map Request.threadId = some y.threadId) with
    | none =>
      have absent := List.find?_eq_none.mp search r listed
      simp [cell] at absent
    | some q =>
      have matching := List.find?_some search
      rw [only q (List.mem_of_find?_eq_some search) (by simpa using matching)]
  have linked : ∀ q ∈ s.visited y.threadId, q ∈ s.requests := fun q => List.mem_of_mem_take
  rw [State.removeRequest, inv.useRequests linked, found]

theorem threadStep_inv {act : ThreadAct} (inv : Inv s stage) (settled : Settled s (.thread w act))
    (taken : threadStep s w act = some t) : ∃ stage', Inv t stage' := by
  unfold threadStep at taken
  split at taken
  next => cases taken
  next x here =>
  have fits := inv.threads w x here
  have going := inv.going here
  split at taken
  next q callback argument => -- readRequest
    obtain ⟨-, request, -⟩ := fits.unread (by simp [Thread.AllRead])
    rw [readWrapper_some (going (by simp)) request] at taken
    cases taken
    refine ⟨stage, setThread_inv inv here rfl ?_ (going (by simp))⟩
    exact { fits with r := by simp, read := by simp, unread := fun _ => fits.unread (by simp [Thread.AllRead]) }
  next q r argument => -- readCallback
    obtain ⟨-, -, callback, stored, choice⟩ := fits.unread (by simp [Thread.AllRead])
    rw [readWrapper_some (going (by simp)) stored] at taken
    cases taken
    refine ⟨stage, setThread_inv inv here rfl ?_ (going (by simp))⟩
    refine { fits with callback := ?_, read := by simp, unread := fun _ => fits.unread (by simp [Thread.AllRead]) }
    rintro _ ⟨⟩
    exact choice
  next q r callback => -- readArgument
    obtain ⟨-, request, -⟩ := fits.unread (by simp [Thread.AllRead])
    rw [readWrapper_some (going (by simp)) request] at taken
    cases taken
    refine ⟨stage, setThread_inv inv here rfl ?_ (going (by simp))⟩
    exact { fits with argument := by simp, read := by simp, unread := fun _ => fits.unread (by simp [Thread.AllRead]) }
  next q r callback argument => -- call
    have own : argument = q := fits.argument argument rfl
    subst own
    cases taken
    exact ⟨_, call_inv inv here rfl ⟨rfl, rfl, rfl⟩ rfl (going (by simp))⟩
  next q r callback argument => -- use
    have own : argument = q := fits.argument argument rfl
    subst own
    obtain ⟨y, cell, -⟩ := (inv.requests argument).cell (by rw [fits.stage]; rfl)
    rw [useRequest_some cell, if_neg (going (by simp))] at taken
    cases taken
    exact ⟨stage, inv⟩
  next q r callback argument => -- finish
    cases taken
    refine ⟨stage, setThread_inv inv here rfl ?_ (going (by simp))⟩
    exact { fits with read := fun _ => fits.read (by simp) }
  next q r callback argument => -- remove
    have own : r = q := fits.r r rfl
    subst own
    obtain ⟨y, cell, -⟩ := (inv.requests r).cell (by rw [fits.stage]; rfl)
    have listed : r ∈ s.requests := (inv.requests r).listed.mpr (by rw [fits.stage]; rfl)
    have only := settled _ here r rfl y cell
    rw [useRequest_some cell, if_neg (going (by simp)), removeRequest_own inv listed cell only] at taken
    cases taken
    exact ⟨_, remove_inv inv here rfl (going (by simp))⟩
  next q r callback argument => -- free
    have own : r = q := fits.r r rfl
    subst own
    obtain ⟨y, cell, -⟩ := (inv.requests r).cell (by rw [fits.stage]; rfl)
    rw [useRequest_some cell] at taken
    cases taken
    exact ⟨_, free_inv inv here rfl⟩
  next => cases taken

/-- The loop accepts a line: the request gets the name `r`, its thread the id `w`. -/
def accept (line : String) (r w : Nat) : List Event :=
  [.loop (.line (some line.toList)), .loop (.create (some (r, 0))), .loop .link, .loop .store, .loop .complete,
    .loop (.start (some w))]

/-- A thread reads the wrapper and calls the callback. -/
def begin (w : Nat) : List Event :=
  [.thread w .readRequest, .thread w .readArgument, .thread w .readCallback, .thread w .call]

def conclude (w : Nat) : List Event :=
  [.thread w .use, .thread w .finish, .thread w .remove, .thread w .free]

/-- Two requests at a time, and the client quits when both are done. -/
def twoRequests : List Event :=
  accept "help" 5 1 ++ begin 1 ++ accept "list" 6 2 ++ begin 2 ++ conclude 2 ++ conclude 1 ++
    [.loop (.line (some "quit".toList)), .loop .kill, .loop .free]

end Pire2Pire.Trunk
