import Pire2Pire.Transfer.AskGet
import Pire2Pire.Transfer.ServeGet

/-! `get` requests that run at the same time. Both handlers keep their intermediate results in file-scope
variables, which all workers share. -/
namespace Pire2Pire.Transfer

open Library Protocol

/-! ### Any number of requests -/

/-- Wherever a request is, what it has put out is an answer. -/
theorem served_answer {host : Sharer} {q : GetRequest} {t : Solo GetVal GetPhase GetOut}
    (served : Served host q t) : Answer host q t.out := by
  unfold Served at served
  split at served
  next => exact served.1 ▸ .nothing
  next => exact served.1 ▸ .nothing
  next => exact served.1 ▸ .nothing
  next => exact served.1 ▸ .nothing
  next => exact served.1 ▸ .nothing
  next => exact served.1 ▸ .nothing
  next =>
    obtain ⟨f, port, offered, -⟩ := served
    obtain ⟨pcmd, line, asks, announced, out⟩ := offered.line
    exact out ▸ .ready asks announced
  next =>
    obtain ⟨f, port, offered, -⟩ := served
    obtain ⟨pcmd, line, asks, announced, out⟩ := offered.line
    exact out ▸ .ready asks announced
  next => exact served
  next => exact served

/-- A request has sent its one `get` line, or none. -/
theorem asking_lines {asker : Asker} {q : ClientRequest} {t : Solo AskVal AskPhase AskOut}
    (asking : Asking asker q t) :
    (t.proc = .sent → AskedOnce asker q t.out) ∧ (t.proc ≠ .sent → getLines t.out = []) := by
  unfold Asking at asking
  split at asking
  next at_ => exact ⟨by simp [at_], fun _ => asking.1⟩
  next at_ => exact ⟨by simp [at_], fun _ => asking.1⟩
  next at_ => exact ⟨by simp [at_], fun _ => asking.1⟩
  next at_ => exact ⟨by simp [at_], fun _ => asking.1⟩
  next at_ => exact ⟨by simp [at_], fun _ => asking⟩
  next at_ => exact ⟨fun _ => asking, by simp [at_]⟩

/-- In every run in which no request is disturbed, each does what it does alone: the peer gets a `ready` line
for its own key and on the announced connection the file with that key; the client's request sends one `get`
line, for its own key, to a seeder of that key, and misses to do so only if it cannot be met or a send fails. -/
theorem undisturbed_gets (host : Sharer) (asker : Asker) :
    (∀ (store : ∀ v, GetVal v) (requests : Nat → GetRequest) (es : List (Nat × GetCalls))
        (s : Shared GetVal GetPhase GetOut),
      exec (daemonRequestGet host).sharedStep (.start store fun i => .setR (some (requests i))) es = some s →
      Along (daemonRequestGet host).sharedStep (daemonRequestGet host).Undisturbed
        (.start store fun i => .setR (some (requests i))) es →
      (∀ e ∈ es, WholeSends e.2) →
      ∀ i, (daemonRequestGet host).AsIfAlone store (fun i => .setR (some (requests i))) es s i ∧
        Answer host (requests i) (partOf i s.out)) ∧
    (∀ (store : ∀ v, AskVal v) (requests : Nat → ClientRequest) (es : List (Nat × AskCalls))
        (s : Shared AskVal AskPhase AskOut),
      exec (clientRequestGet asker).sharedStep (.start store fun i => .setR (some (requests i))) es = some s →
      Along (clientRequestGet asker).sharedStep (clientRequestGet asker).Undisturbed
        (.start store fun i => .setR (some (requests i))) es →
      ∀ i, (clientRequestGet asker).AsIfAlone store (fun i => .setR (some (requests i))) es s i ∧
        (s.procs i = .sent → AskedOnce asker (requests i) (partOf i s.out)) ∧
        (s.procs i ≠ .sent → getLines (partOf i s.out) = []) ∧
        (Askable asker (requests i) → (∀ e ∈ es, e.2.Succeed) → s.procs i ≠ .failed)) := by
  constructor
  · intro store requests es s ran undisturbed whole i
    -- the serving side: the invariant of the phases is carried over from a run that is alone
    have start : Served host (requests i) (.start store (.setR (some (requests i)))) := ⟨rfl, rfl⟩
    obtain ⟨alone, t, matched, served⟩ := undisturbed_invariant WholeSends (Served host (requests i))
      (fun _ _ _ served whole taken => served_step served whole taken) start whole undisturbed ran
    exact ⟨alone, matched.out ▸ served_answer served⟩
  · intro store requests es s ran undisturbed i
    -- the asking side: one invariant for what was sent, another for what has not failed
    have start : Asking asker (requests i) (.start store (.setR (some (requests i)))) := ⟨rfl, rfl⟩
    obtain ⟨alone, t, matched, asking⟩ := undisturbed_invariant (fun _ => True) (Asking asker (requests i))
      (fun _ _ _ asking _ taken => asking_step asking taken) start (fun _ _ => trivial) undisturbed ran
    have lines := asking_lines asking
    rw [matched.out, matched.proc] at lines
    refine ⟨alone, lines.1, lines.2, ?_⟩
    intro able succeed
    have start : OnTrack asker (requests i) (.start store (.setR (some (requests i)))) := rfl
    obtain ⟨-, t, matched, onTrack⟩ := undisturbed_invariant AskCalls.Succeed (OnTrack asker (requests i))
      (fun _ _ _ onTrack succeed taken => onTrack_step able onTrack succeed taken) start succeed undisturbed ran
    intro failed
    simp [OnTrack, matched.proc, failed] at onTrack

/-! ### Two requests -/

/-- The MD5 digests of the texts `a` and `b`. -/
def digestOfA : Digest :=
  ⟨#[0x0c, 0xc1, 0x75, 0xb9, 0xc0, 0xf1, 0xb6, 0xa8, 0x31, 0xc3, 0x99, 0xe2, 0x69, 0x77, 0x26, 0x61], rfl⟩

def digestOfB : Digest :=
  ⟨#[0x92, 0xeb, 0x5f, 0xfe, 0xe6, 0xae, 0x2f, 0xec, 0x3a, 0xd7, 0x1c, 0x77, 0x75, 0x31, 0x57, 0x8f], rfl⟩

/-- A folder with two files of one byte each. -/
def twoFiles : Sharer where
  sharedFolder := "/tmp".toList
  myIp := ⟨10, 0, 0, 1⟩
  files := [⟨"fileA".toList, [97], by decide⟩, ⟨"fileB".toList, [98], by decide⟩]
  distinct := by decide
  mdFile content := if content = [97] then digestOfA else digestOfB

/-- Peer 1 asks for the first file, every other peer for the second. -/
def twoGets (i : Nat) : GetRequest :=
  if i = 0 then ⟨1, "get ".toList ++ getMd5 digestOfA ++ " 0 1".toList⟩
  else ⟨i + 1, "get ".toList ++ getMd5 digestOfB ++ " 0 1".toList⟩

/-- All the phases of one request, listening on that port. -/
def allPhases (i : Nat) (port : UInt16) : List (Nat × GetCalls) :=
  [(i, {}), (i, {}), (i, {}), (i, {}), (i, { listening := some port }), (i, {}), (i, {}),
    (i, { chunks := [⟨some 1, [some 1]⟩] })]

abbrev servingStart : Shared GetVal GetPhase GetOut :=
  .start emptyStore fun i => .setR (some (twoGets i))

/-- Two entries, each with the daemon that has the file. -/
def twoSeeders : Asker where
  fileCache := .node ⟨"fileA".toList, getMd5 digestOfA, 1, [⟨"10.0.0.1".toList, 7331⟩]⟩ .empty
    (.node ⟨"fileB".toList, getMd5 digestOfB, 1, [⟨"10.0.0.2".toList, 7331⟩]⟩ .empty .empty)
  daemons := [⟨11, "10.0.0.1".toList⟩, ⟨12, "10.0.0.2".toList⟩]

def twoAsks (i : Nat) : ClientRequest :=
  if i = 0 then ⟨1, "get ".toList ++ getMd5 digestOfA⟩ else ⟨i + 1, "get ".toList ++ getMd5 digestOfB⟩

def emptyAskStore : ∀ v, AskVal v
  | .r => none
  | .answer => []
  | .fileToDl => none
  | .d => none

abbrev askingStart : Shared AskVal AskPhase AskOut :=
  .start emptyAskStore fun i => .setR (some (twoAsks i))

/-- The second request starts when the first has its entry, and goes on when that has sent its line. -/
def staggeredAsks : List (Nat × AskCalls) :=
  [(0, {}), (0, {}), (1, {}), (0, {}), (0, {}), (1, {}), (1, {}), (1, {})]

theorem orderly_gets_undisturbed :
    (∃ s, exec (daemonRequestGet twoFiles).sharedStep servingStart (allPhases 0 4001 ++ allPhases 1 4002) = some s ∧
      ∀ i, Answer twoFiles (twoGets i) (partOf i s.out)) ∧
    (∃ s, exec (clientRequestGet twoSeeders).sharedStep askingStart staggeredAsks = some s ∧
      AskedOnce twoSeeders (twoAsks 0) (partOf 0 s.out) ∧ AskedOnce twoSeeders (twoAsks 1) (partOf 1 s.out)) := by
  constructor
  -- one request after the other is undisturbed
  · have defined : (exec (daemonRequestGet twoFiles).sharedStep servingStart
        (allPhases 0 4001 ++ allPhases 1 4002)).isSome := by decide +kernel
    obtain ⟨s, ran⟩ := Option.isSome_iff_exists.mp defined
    refine ⟨s, ran, fun i => ?_⟩
    exact ((undisturbed_gets twoFiles twoSeeders).1 emptyStore twoGets _ s ran (by decide +kernel)
      (by unfold WholeSends Chunk.Whole; decide +kernel) i).2
  · have ends : (exec (clientRequestGet twoSeeders).sharedStep askingStart staggeredAsks).map
        (fun s => (s.procs 0, s.procs 1)) = some (.sent, .sent) := by decide +kernel
    obtain ⟨s, ran, procs⟩ := Option.map_eq_some_iff.mp ends
    obtain ⟨first, second⟩ := Prod.mk.inj procs
    have each := (undisturbed_gets twoFiles twoSeeders).2 emptyAskStore twoAsks _ s ran (by decide +kernel)
    exact ⟨s, ran, (each 0).2.1 first, (each 1).2.1 second⟩

/-- A `ready` line in an answer goes to the peer of the request. -/
theorem answer_to_own_peer {host : Sharer} {q : GetRequest} {out : List GetOut} {daemon : Nat} {line : CString}
    (answer : Answer host q out) (member : .ready daemon line ∈ out) : daemon = q.daemon := by
  cases answer with
  | nothing => cases member
  | refused _ => simp at member
  | ready _ _ =>
    simp only [List.mem_singleton, GetOut.ready.injEq] at member
    exact member.1
  | sent _ _ _ _ =>
    simp only [List.mem_cons, GetOut.ready.injEq, List.not_mem_nil, or_false, reduceCtorEq] at member
    exact member.1

/-- The second request starts and is parsed before the first has sent its `ready` line. -/
def overlappingGets : List (Nat × GetCalls) :=
  [(0, {}), (0, {}), (0, {}), (0, {}), (0, { listening := some 4001 }), (1, {}), (1, {}), (0, {})]

/-- Peer 2, which asked for the second file, is told that the first file is ready; peer 1 is told nothing. -/
theorem overlapping_gets_mixed_up :
    ∃ s, exec (daemonRequestGet twoFiles).sharedStep servingStart overlappingGets = some s ∧
      partOf 0 s.out =
        [.ready 2 ("ready ".toList ++ getMd5 digestOfA ++ " 0 10.0.0.1 4001 tcp 0 1\n".toList)] ∧
      ¬Answer twoFiles (twoGets 0) (partOf 0 s.out) := by
  have ends : (exec (daemonRequestGet twoFiles).sharedStep servingStart overlappingGets).map
      (fun s => partOf 0 s.out) =
        some [.ready 2 ("ready ".toList ++ getMd5 digestOfA ++ " 0 10.0.0.1 4001 tcp 0 1\n".toList)] := by
    decide +kernel
  obtain ⟨s, ran, out⟩ := Option.map_eq_some_iff.mp ends
  refine ⟨s, ran, out, ?_⟩
  rw [out]
  intro answer
  have own := answer_to_own_peer answer List.mem_cons_self
  exact absurd own (by decide)

end Pire2Pire.Transfer
