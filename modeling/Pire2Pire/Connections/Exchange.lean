import Mathlib.Data.Multiset.DershowitzManna
import Mathlib.Order.WellFounded
import Mathlib.Tactic.Abel
import Pire2Pire.Connections.Commands
import Pire2Pire.Library.Chunks

/-! Two daemons that answer each other (`daemon_handler.c`): each reads the lines of the other, queues them,
handles them in several threads, and sends what the handlers say.

`daemon_request_unknown.c` has no answer since answers to answers once went on for ever. -/
namespace Pire2Pire.Exchange

open Library Protocol Transfer Replies

/-- One of the daemons, as far as the connection goes. -/
structure Side where
  /-- what has come from the other one and is not read yet -/
  wire : List Char
  /-- lines whose handlers have not started -/
  queued : List CString
  /-- handlers that have started, and what each still has to send -/
  running : List (List CString)
  deriving DecidableEq, Repr

/-- " < Too many requests, mister, plz calm down\n" -/
def tooMany : CString := " < Too many requests, mister, plz calm down\n".toList

inductive Label where
  | read
  | refuse (line : CString)
  | start
  | send
  | finish
  deriving DecidableEq, Repr

/-- What a daemon does, with its side and that of the other one before and after. A line that starts with "quit"
ends the reading. -/
inductive Move (k : Link) (limit : Nat) : Label → Side → Side → Side → Side → Prop
  | read {mine theirs : Side} {line : CString} {rest : List Char} (complete : '\n' ∈ mine.wire)
      (got : socketGetline mine.wire = (some line, rest)) (stays : ¬ "quit".toList <+: line)
      (room : mine.running.length ≠ limit) :
      Move k limit .read mine theirs { mine with wire := rest, queued := mine.queued ++ [line] } theirs
  | refuse {mine theirs : Side} {line : CString} {rest : List Char} (complete : '\n' ∈ mine.wire)
      (got : socketGetline mine.wire = (some line, rest)) (stays : ¬ "quit".toList <+: line)
      (full : mine.running.length = limit) :
      Move k limit (.refuse line) mine theirs { mine with wire := rest } { theirs with wire := theirs.wire ++ tooMany }
  | start {mine theirs : Side} {before after texts : List CString} (e : Request) (clean : CleanNames e)
      (queued : mine.queued = before ++ e.line :: after) (handled : handle k e = some texts) :
      Move k limit .start mine theirs
        { mine with queued := before ++ after, running := texts :: mine.running } theirs
  | send {mine theirs : Side} {before after : List (List CString)} {text : CString} {texts : List CString}
      (running : mine.running = before ++ (text :: texts) :: after) :
      Move k limit .send mine theirs { mine with running := before ++ texts :: after }
        { theirs with wire := theirs.wire ++ text }
  | finish {mine theirs : Side} {before after : List (List CString)} (running : mine.running = before ++ [] :: after) :
      Move k limit .finish mine theirs { mine with running := before ++ after } theirs

/-- Either of the two moves. -/
def Step (k : Bool → Link) (limit : Bool → Nat) (label : Label) (s s' : Bool → Side) : Prop :=
  ∃ b, Move (k b) (limit b) label (s b) (s !b) (s' b) (s' !b)

/-! ### Ranks -/

/-- The answers to a line have a lower rank. -/
def handlerRank : Handler → Nat
  | .list | .get | .neighbourhood => 2
  | .file | .ready => 1
  | .neighbour | .unknown => 0

def rank (line : CString) : Nat := handlerRank (handlerOf line)

/-- A text that a daemon answers with: a line, or an error without its end. -/
def Reply (text : CString) : Prop :=
  (∃ message, text = message ++ ['\n'] ∧ Received message) ∨ "error".toList <+: text ∧ '\n' ∉ text

variable {k : Link} {limit : Nat} {e : Request} {texts : List CString} {text line w : CString}

theorem rank_le (line : CString) : rank line ≤ 2 := by
  unfold rank
  cases handlerOf line <;> decide

theorem handlerOf_word (line : CString) : handlerOf line =
    if "list".toList = Commands.commandWord line then .list
    else if "get".toList = Commands.commandWord line then .get
    else if "file".toList = Commands.commandWord line then .file
    else if "neighbourhood".toList = Commands.commandWord line then .neighbourhood
    else if "neighbour".toList = Commands.commandWord line then .neighbour
    else if "ready".toList = Commands.commandWord line then .ready
    else .unknown := by
  unfold handlerOf
  simp only [Commands.isCmd_iff (by decide : ' ' ∉ "list".toList), Commands.isCmd_iff (by decide : ' ' ∉ "get".toList),
    Commands.isCmd_iff (by decide : ' ' ∉ "file".toList), Commands.isCmd_iff (by decide : ' ' ∉ "neighbourhood".toList),
    Commands.isCmd_iff (by decide : ' ' ∉ "neighbour".toList), Commands.isCmd_iff (by decide : ' ' ∉ "ready".toList)]

theorem rank_word {word : CString} (noSpace : ' ' ∉ word) (rest : CString) : rank (word ++ ' ' :: rest) = rank word := by
  have same : Commands.commandWord (word ++ ' ' :: rest) = Commands.commandWord word := by
    rw [Commands.commandWord, Commands.commandWord, cutAt_append noSpace, cutAt_eq_self noSpace]
  rw [rank, rank, handlerOf_word, handlerOf_word word, same]

/-- No command starts with "error", and neither does its answer matter. -/
theorem rank_error (error : "error".toList <+: line) : rank line = 0 := by
  obtain ⟨rest, rfl⟩ := error
  have first : (Commands.commandWord ("error".toList ++ rest)).head? = some 'e' := rfl
  have words : ∀ word ∈ ["list".toList, "get".toList, "file".toList, "neighbourhood".toList, "neighbour".toList,
      "ready".toList], word.head? ≠ some 'e' := by decide
  have other : ∀ word ∈ ["list".toList, "get".toList, "file".toList, "neighbourhood".toList, "neighbour".toList,
      "ready".toList], word ≠ Commands.commandWord ("error".toList ++ rest) :=
    fun word member same => words word member (same ▸ first)
  simp only [List.mem_cons, List.not_mem_nil, or_false, forall_eq_or_imp, forall_eq] at other
  rw [rank, handlerOf_word]
  simp only [other, if_false]
  rfl

/-! ### What is answered has a lower rank -/

theorem lowers_error (error : "error".toList <+: text) (noNewline : '\n' ∉ text) (known : 0 < rank line) :
    Reply text ∧ rank (messageOf text) < rank line := by
  have unended : ¬ Terminated text := fun ended => noNewline (List.mem_of_getLast? ended)
  refine ⟨.inr ⟨error, noNewline⟩, ?_⟩
  rwa [messageOf_text unended, rank_error error]

theorem lowers_line {word : CString} (noSpace : ' ' ∉ word) (shape : ∃ rest, text = word ++ ' ' :: rest ++ ['\n'])
    (readable : Received (messageOf text)) (lower : rank word < rank line) :
    Reply text ∧ rank (messageOf text) < rank line := by
  obtain ⟨rest, rfl⟩ := shape
  rw [messageOf_line] at readable ⊢
  exact ⟨.inl ⟨_, rfl, readable⟩, by rwa [rank_word noSpace]⟩

/-- A handler sends replies of a lower rank than the line. -/
theorem handle_lowers (clean : CleanNames e) (handled : handle k e = some texts) :
    ∀ text ∈ texts, Reply text ∧ rank (messageOf text) < rank e.line := by
  have sends := handle_sends handled
  have readable : ∀ t ∈ texts, Received (messageOf t) := sends.readable.mpr clean
  intro text member
  have clear := readable text member
  unfold handle at handled
  cases chosen : handlerOf e.line with
  | list =>
    rw [chosen] at handled
    obtain ⟨entry, -, -, size, -, rfl⟩ := (mem_daemonRequestList handled).mp member
    refine lowers_line (by decide : ' ' ∉ "file".toList) ?_ clear (by rw [rank, rank, chosen]; decide)
    exact ⟨_, rfl⟩
  | get =>
    rw [chosen] at handled
    have known : 0 < rank e.line := by rw [rank, chosen]; decide
    cases getReplies_reply handled with
    | refused refused =>
      rw [List.mem_singleton.mp member]
      unfold getArguments at refused
      split at refused
      · cases refused
        exact lowers_error (by decide +kernel) (by decide +kernel) known
      · split at refused
        · cases refused
          exact lowers_error (by decide +kernel) (by decide +kernel) known
        · cases refused
    | ready accepted available announced =>
      have same := List.mem_singleton.mp member
      unfold readyMessage at announced
      split at announced
      next first wanted beginning finish shape =>
        obtain ⟨-, line⟩ := sprintfInto_some.mp announced
        refine lowers_line (by decide : ' ' ∉ "ready".toList) ?_ clear (by rw [rank, rank, chosen]; decide)
        rw [same, ← line]
        exact ⟨_, rfl⟩
      · cases announced
    | nothing => simp at member
  | file =>
    rw [chosen] at handled
    have known : 0 < rank e.line := by rw [rank, chosen]; decide
    obtain ⟨⟨cache, sent⟩, ran, rfl⟩ := Option.map_eq_some_iff.mp handled
    unfold daemonRequestFile at ran
    split at ran
    · cases ran
      simp at member
    · split at ran
      · cases ran
        rw [List.mem_singleton.mp member]
        exact lowers_error (by decide +kernel) (by decide +kernel) known
      · split at ran
        · obtain ⟨port, -, ran⟩ := Option.bind_eq_some_iff.mp ran
          obtain ⟨updated, -, ran⟩ := Option.bind_eq_some_iff.mp ran
          cases ran
          simp [toDaemon] at member
        · cases ran
          rw [List.mem_singleton.mp member]
          exact lowers_error (by decide +kernel) (by decide +kernel) known
  | neighbourhood =>
    rw [chosen] at handled
    obtain ⟨d, -, -, rfl⟩ := (mem_daemonRequestNeighbourhood handled).mp member
    refine lowers_line (by decide : ' ' ∉ "neighbour".toList) ?_ clear (by rw [rank, rank, chosen]; decide)
    refine ⟨d.addr ++ ':' :: decimal d.port.toInt, ?_⟩
    have word : "neighbour ".toList = "neighbour".toList ++ [' '] := by decide
    unfold neighbourLine
    -- `decimal` is not to be unfolded below
    generalize decimal d.port.toInt = digits
    rw [word]
    generalize "neighbour".toList = start
    simp only [List.append_assoc, List.cons_append, List.nil_append]
  | ready =>
    rw [chosen] at handled
    have known : 0 < rank e.line := by rw [rank, chosen]; decide
    cases handled
    unfold daemonRequestReady at member
    split at member
    · split at member
      · simp [readyReplies] at member
      · split at member
        · simp [readyReplies] at member
        · split at member <;> simp [readyReplies] at member
    · rw [List.mem_singleton.mp member]
      exact lowers_error (by decide +kernel) (by decide +kernel) known
  | neighbour =>
    rw [chosen] at handled
    cases handled
    simp at member
  | unknown =>
    rw [chosen] at handled
    cases handled
    simp at member

/-! ### What is under way -/

def isNewline (byte : List Char) : Bool := byte == ['\n']

/-- The lines on a wire with their ends, and what has come of the next one. -/
def cut (tail wire : List Char) : List (List Char) × List Char :=
  gather isNewline tail (wire.map ([·]))

/-- What is read for a line. -/
def readAs (raw : List Char) : CString := stringRemoveTrailer (terminated raw)

/-- Whatever comes behind it, the line will not be answered, or it is the line that comes. -/
def Harmless (tail : List Char) : Prop := tail = [] ∨ "error".toList <+: tail

instance (tail : List Char) : Decidable (Harmless tail) := inferInstanceAs (Decidable (_ ∨ _))

def tailEnergy (tail : List Char) : Multiset Nat := if Harmless tail then 0 else {11}

/-- Each line and each text is a number, which gets smaller with every move. -/
def wireEnergy (wire : List Char) : Multiset Nat :=
  ↑((cut [] wire).1.map fun raw => 4 * rank (readAs raw) + 2) + tailEnergy (cut [] wire).2

def queuedEnergy (queued : List CString) : Multiset Nat := ↑(queued.map fun line => 4 * rank line + 1)

def runningEnergy (running : List (List CString)) : Multiset Nat :=
  ↑(running.flatMap fun texts => 0 :: texts.map fun text => 4 * rank (messageOf text) + 3)

def Side.energy (s : Side) : Multiset Nat := wireEnergy s.wire + queuedEnergy s.queued + runningEnergy s.running

def energy (s : Bool → Side) : Multiset Nat := (s true).energy + (s false).energy

/-- All that is still to be sent are replies. -/
def Proper (s : Side) : Prop := ∀ texts ∈ s.running, ∀ text ∈ texts, Reply text

variable {tail wire rest : List Char} {mine theirs mine' theirs' : Side} {label : Label}

theorem cut_text (noNewline : '\n' ∉ w) (tail : List Char) : cut tail w = ([], tail ++ w) := by
  induction w generalizing tail with
  | nil => simp [cut, gather]
  | cons c w ih =>
    simp only [List.mem_cons, not_or] at noNewline
    have differ : isNewline [c] = false := by simpa [isNewline] using Ne.symm noNewline.1
    have rest := ih noNewline.2 (tail ++ [c])
    rw [cut] at rest
    rw [cut, List.map_cons, gather_goes_on differ, rest, List.append_assoc, List.singleton_append]

theorem cut_append (tail xs ys : List Char) :
    cut tail (xs ++ ys) = ((cut tail xs).1 ++ (cut (cut tail xs).2 ys).1, (cut (cut tail xs).2 ys).2) := by
  rw [cut, List.map_append, gather_append]
  rfl

theorem cut_line (noNewline : '\n' ∉ w) (tail rest : List Char) :
    cut tail (w ++ '\n' :: rest) = ((tail ++ w ++ ['\n']) :: (cut [] rest).1, (cut [] rest).2) := by
  rw [cut_append, cut_text noNewline]
  rfl

theorem readAs_line (received : Received w) : readAs (w ++ ['\n']) = w := by
  have read := socketGetline_append received []
  rw [socketGetline, socketGetlineWithTrailer_append received.noNewline] at read
  simpa [readAs] using read

theorem readAs_error (error : "error".toList <+: w) (rest : List Char) : "error".toList <+: readAs (w ++ rest) := by
  obtain ⟨behind, rfl⟩ := error
  rw [readAs, terminated, stringRemoveTrailer, List.append_assoc]
  exact ⟨cutAt (cutAt (cutAt (behind ++ rest) '\x00') '\r') '\n', rfl⟩

theorem wireEnergy_read {line : CString} (complete : '\n' ∈ wire) (got : socketGetline wire = (some line, rest)) :
    wireEnergy wire = {4 * rank line + 2} + wireEnergy rest := by
  obtain ⟨raw, behind, rfl, clean⟩ := List.eq_append_cons_of_mem complete
  rw [socketGetline, socketGetlineWithTrailer_append clean] at got
  cases got
  rw [wireEnergy, cut_line clean, wireEnergy, List.nil_append, List.map_cons, ← Multiset.cons_coe,
    ← Multiset.singleton_add, add_assoc]
  rfl

/-- A reply on the wire becomes a line of at most its rank, or makes a line of what was there. -/
theorem wireEnergy_send (reply : Reply text) (wire : List Char) :
    ∃ kept added used : Multiset Nat, wireEnergy wire = kept + used ∧ wireEnergy (wire ++ text) = kept + added ∧
      ∀ y ∈ added, y ≤ 4 * rank (messageOf text) + 2 ∨ ∃ z ∈ used, y < z := by
  rcases reply with ⟨message, rfl, received⟩ | ⟨error, noNewline⟩
  · refine ⟨↑((cut [] wire).1.map fun raw => 4 * rank (readAs raw) + 2),
      {4 * rank (readAs ((cut [] wire).2 ++ message ++ ['\n'])) + 2}, tailEnergy (cut [] wire).2, rfl, ?_, ?_⟩
    · rw [wireEnergy, cut_append, cut_line received.noNewline, List.map_append, ← Multiset.coe_add]
      simp [cut, gather, tailEnergy, Harmless]
    · intro y member
      rw [Multiset.mem_singleton.mp member, messageOf_line]
      by_cases harmless : Harmless (cut [] wire).2
      · left
        rcases harmless with empty | error
        · rw [empty, List.nil_append, readAs_line received]
        · rw [List.append_assoc, rank_error (readAs_error error _)]
          omega
      · right
        refine ⟨11, by simp [tailEnergy, harmless], ?_⟩
        have most := rank_le (readAs ((cut [] wire).2 ++ message ++ ['\n']))
        omega
  · have shape : cut [] (wire ++ text) = ((cut [] wire).1, (cut [] wire).2 ++ text) := by
      rw [cut_append, cut_text noNewline, List.append_nil]
    by_cases before : Harmless (cut [] wire).2
    · have after : Harmless ((cut [] wire).2 ++ text) := by
        rcases before with empty | error'
        · rw [empty]
          exact .inr error
        · exact .inr (error'.trans (List.prefix_append _ _))
      refine ⟨wireEnergy wire, 0, 0, by simp, ?_, by simp⟩
      simp [wireEnergy, shape, tailEnergy, before, after]
    · by_cases after : Harmless ((cut [] wire).2 ++ text)
      · refine ⟨↑((cut [] wire).1.map fun raw => 4 * rank (readAs raw) + 2), 0, {11}, ?_, ?_, by simp⟩
        · simp [wireEnergy, tailEnergy, before]
        · simp [wireEnergy, shape, tailEnergy, after]
      · refine ⟨wireEnergy wire, 0, 0, by simp, ?_, by simp⟩
        simp [wireEnergy, shape, tailEnergy, before, after]

theorem reply_tooMany : Reply tooMany :=
  .inl ⟨" < Too many requests, mister, plz calm down".toList, by decide, by decide, by decide, by decide⟩

theorem rank_tooMany : rank (messageOf tooMany) = 0 := by decide

/-! ### Every move uses it up -/

theorem move_proper (moved : Move k limit label mine theirs mine' theirs') (proper : Proper mine)
    (proper' : Proper theirs) : Proper mine' ∧ Proper theirs' := by
  cases moved with
  | read | refuse => exact ⟨proper, proper'⟩
  | start e clean queued handled =>
    refine ⟨?_, proper'⟩
    intro texts member
    rcases List.mem_cons.mp member with rfl | old
    · exact fun text sent => (handle_lowers clean handled text sent).1
    · exact proper texts old
  | @send _ _ before after text texts running =>
    refine ⟨?_, proper'⟩
    intro texts' member
    rcases List.mem_append.mp member with old | new
    · exact proper texts' (by rw [running]; exact List.mem_append_left _ old)
    · rcases List.mem_cons.mp new with rfl | old
      · exact fun t sent => proper (text :: texts') (by simp [running]) t (List.mem_cons_of_mem _ sent)
      · exact proper texts' (by simp [running, old])
  | finish running =>
    refine ⟨?_, proper'⟩
    intro texts' member
    refine proper texts' ?_
    rw [running]
    rcases List.mem_append.mp member with old | old
    · exact List.mem_append_left _ old
    · exact List.mem_append_right _ (List.mem_cons_of_mem _ old)

theorem move_lowers (moved : Move k limit label mine theirs mine' theirs') (proper : Proper mine)
    (useful : ∀ line, label = .refuse line → rank line ≠ 0) :
    Multiset.IsDershowitzMannaLT (mine'.energy + theirs'.energy) (mine.energy + theirs.energy) := by
  cases moved with
  | @read _ _ line rest complete got stays room =>
    refine ⟨wireEnergy rest + queuedEnergy mine.queued + runningEnergy mine.running + theirs.energy,
      {4 * rank line + 1}, {4 * rank line + 2}, by simp, ?_, ?_, by simp⟩
    · simp only [Side.energy, queuedEnergy, List.map_append, List.map_cons, List.map_nil, ← Multiset.coe_add,
        Multiset.coe_singleton]
      abel
    · simp only [Side.energy, wireEnergy_read complete got]
      abel
  | @refuse _ _ line rest complete got stays full =>
    obtain ⟨kept, added, used, before, after, lower⟩ := wireEnergy_send reply_tooMany theirs.wire
    have positive := useful line rfl
    refine ⟨wireEnergy rest + queuedEnergy mine.queued + runningEnergy mine.running + kept +
      queuedEnergy theirs.queued + runningEnergy theirs.running, added, {4 * rank line + 2} + used, by simp, ?_, ?_, ?_⟩
    · simp only [Side.energy, after]
      abel
    · simp only [Side.energy, wireEnergy_read complete got, before]
      abel
    · intro y member
      rcases lower y member with low | ⟨z, inside, less⟩
      · rw [rank_tooMany] at low
        exact ⟨4 * rank line + 2, by simp, by omega⟩
      · exact ⟨z, by simp [inside], less⟩
  | @start _ _ before after texts e clean queued handled =>
    refine ⟨wireEnergy mine.wire + queuedEnergy (before ++ after) + runningEnergy mine.running + theirs.energy,
      ↑(0 :: texts.map fun text => 4 * rank (messageOf text) + 3), {4 * rank e.line + 1}, by simp, ?_, ?_, ?_⟩
    · simp only [Side.energy, runningEnergy, List.flatMap_cons, ← Multiset.coe_add]
      abel
    · simp only [Side.energy, queued, queuedEnergy, List.map_append, List.map_cons, ← Multiset.coe_add,
        ← Multiset.cons_coe, ← Multiset.singleton_add]
      abel
    · intro y member
      refine ⟨4 * rank e.line + 1, by simp, ?_⟩
      rcases List.mem_cons.mp (Multiset.mem_coe.mp member) with rfl | sent
      · omega
      · obtain ⟨text, inside, rfl⟩ := List.mem_map.mp sent
        have less := (handle_lowers clean handled text inside).2
        omega
  | @send _ _ before after text texts running =>
    have reply : Reply text := proper (text :: texts) (by simp [running]) text List.mem_cons_self
    obtain ⟨kept, added, used, before', after', lower⟩ := wireEnergy_send reply theirs.wire
    refine ⟨wireEnergy mine.wire + queuedEnergy mine.queued + runningEnergy (before ++ texts :: after) + kept +
      queuedEnergy theirs.queued + runningEnergy theirs.running, added,
      {4 * rank (messageOf text) + 3} + used, by simp, ?_, ?_, ?_⟩
    · simp only [Side.energy, after']
      abel
    · have more : runningEnergy mine.running =
          runningEnergy (before ++ texts :: after) + {4 * rank (messageOf text) + 3} := by
        simp only [running, runningEnergy, List.flatMap_append, List.flatMap_cons, List.map_cons, List.cons_append,
          ← Multiset.coe_add, ← Multiset.cons_coe, ← Multiset.singleton_add]
        abel
      simp only [Side.energy, before', more]
      abel
    · intro y member
      rcases lower y member with low | ⟨z, inside, less⟩
      · exact ⟨4 * rank (messageOf text) + 3, by simp, by omega⟩
      · exact ⟨z, by simp [inside], less⟩
  | @finish _ _ before after running =>
    refine ⟨wireEnergy mine.wire + queuedEnergy mine.queued + runningEnergy (before ++ after) + theirs.energy, 0, {0},
      by simp, ?_, ?_, by simp⟩
    · simp only [Side.energy]
      abel
    · simp only [Side.energy, running, runningEnergy, List.flatMap_append, List.flatMap_cons, List.map_nil,
        List.cons_append, List.nil_append, ← Multiset.coe_add, ← Multiset.cons_coe, ← Multiset.singleton_add]
      abel

/-! ### Runs -/

theorem energy_eq (s : Bool → Side) (b : Bool) : energy s = (s b).energy + (s !b).energy := by
  cases b with
  | true => rfl
  | false => exact add_comm _ _

variable {links : Bool → Link} {limits : Bool → Nat} {s s' : Bool → Side}

theorem step_proper (stepped : Step links limits label s s') (proper : ∀ b, Proper (s b)) : ∀ b, Proper (s' b) := by
  obtain ⟨b, moved⟩ := stepped
  obtain ⟨mine, theirs⟩ := move_proper moved (proper b) (proper !b)
  intro c
  by_cases same : c = b
  · exact same ▸ mine
  · have other : c = !b := by cases b <;> cases c <;> simp_all
    exact other ▸ theirs

theorem step_lowers (stepped : Step links limits label s s') (proper : ∀ b, Proper (s b))
    (useful : ∀ line, label = .refuse line → rank line ≠ 0) :
    Multiset.IsDershowitzMannaLT (energy s') (energy s) := by
  obtain ⟨b, moved⟩ := stepped
  rw [energy_eq s b, energy_eq s' b]
  exact move_lowers moved (proper b) useful

/-- A daemon at its limit, and whether a refusal is on its way to it. -/
def busy (limit : Nat) (waiting : Bool) : Side :=
  ⟨if waiting then tooMany else [], [], List.replicate limit []⟩

/-- The refusal is with the first daemon at every second step. -/
def pingPong (limits : Bool → Nat) (n : Nat) (b : Bool) : Side :=
  busy (limits b) (b == (n % 2 == 0))

def refusal : Label := .refuse (messageOf tooMany)

theorem pingPong_steps (links : Bool → Link) (limits : Bool → Nat) (n : Nat) :
    Step links limits refusal (pingPong limits n) (pingPong limits (n + 1)) := by
  have got : socketGetline tooMany = (some (messageOf tooMany), []) := by decide
  have move : ∀ k limit limit', Move k limit refusal (busy limit true) (busy limit' false) (busy limit false)
      (busy limit' true) := by
    intro k limit limit'
    have complete : '\n' ∈ tooMany := by decide
    have full : (busy limit true).running.length = limit := by simp [busy]
    exact .refuse complete got (by decide) full
  have parity : ((n + 1) % 2 == 0) = !(n % 2 == 0) := by
    rcases Nat.mod_two_eq_zero_or_one n with even | odd
    · simp [even, Nat.add_mod]
    · simp [odd, Nat.add_mod]
  refine ⟨n % 2 == 0, ?_⟩
  simp only [pingPong, parity]
  cases n % 2 == 0 <;> exact move _ _ _

/-- Two daemons that are both at their limits refuse each other's refusals for ever. -/
theorem refusals_go_on (links : Bool → Link) (limits : Bool → Nat) : ∃ run : Nat → Bool → Side,
    (∀ n, Step links limits refusal (run n) (run (n + 1))) ∧ (∀ n b, (run n b).running.length = limits b) ∧
      (run 0 true).wire = tooMany ∧ (run 0 false).wire = [] :=
  ⟨pingPong limits, pingPong_steps links limits, fun n b => by simp [pingPong, busy], rfl, rfl⟩

end Pire2Pire.Exchange
