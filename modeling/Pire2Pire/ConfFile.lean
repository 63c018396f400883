import Pire2Pire.Conf
import Pire2Pire.Library.Overriding
import Pire2Pire.Library.Scanf

/-! Reading the configuration file (`conf.c`): the text, and what becomes of it in `conf_retrieve`. -/
namespace Pire2Pire.ConfFile

open Library

/-! ### The preferences -/

/-- `struct prefs`, with its texts. -/
structure Conf extends Prefs where
  sharedFolder : CString
  interface : CString
  logFile : CString
  lockFile : CString
deriving DecidableEq, Repr

/-- The keys that are compared with. -/
inductive Setting where
  | clientPort
  | daemonPort
  | sharedFolder
  | interface
  | nbProc
  | maxClients
  | maxDaemons
  | maxRequestsPerClient
  | maxRequestsPerDaemon
  | logFile
  | lockFile
deriving DecidableEq, Repr

inductive Value where
  | number (n : Int32)
  | text (t : CString)
deriving DecidableEq, Repr

/-- Defined in the source and used nowhere. -/
def maxPort : Int32 := 49151

namespace Setting

/-- In the order of the comparisons. -/
def all : List Setting :=
  [clientPort, daemonPort, sharedFolder, interface, nbProc, maxClients, maxDaemons, maxRequestsPerClient,
    maxRequestsPerDaemon, logFile, lockFile]

def key : Setting → CString
  | clientPort => "client_port".toList
  | daemonPort => "daemon_port".toList
  | sharedFolder => "shared_folder".toList
  | interface => "interface".toList
  | nbProc => "nb_proc".toList
  | maxClients => "max_clients".toList
  | maxDaemons => "max_daemons".toList
  | maxRequestsPerClient => "max_requests_per_client".toList
  | maxRequestsPerDaemon => "max_requests_per_daemon".toList
  | logFile => "log_file".toList
  | lockFile => "lock_file".toList

def ofKey (key : CString) : Option Setting :=
  all.find? fun s => s.key = key

/-- What the source checks of a value. -/
def takes (value : CString) : Setting → Bool
  | clientPort | daemonPort => minPort < atoi value
  | sharedFolder | interface | logFile | lockFile => true
  | nbProc | maxClients | maxDaemons | maxRequestsPerClient | maxRequestsPerDaemon => 1 < atoi value

/-- What it ought to check: a port has an upper bound as well. -/
def admissible (value : CString) : Setting → Bool
  | clientPort | daemonPort => minPort < atoi value ∧ atoi value ≤ maxPort
  | sharedFolder | interface | logFile | lockFile => true
  | nbProc | maxClients | maxDaemons | maxRequestsPerClient | maxRequestsPerDaemon => 1 < atoi value

def read (value : CString) : Setting → Value
  | sharedFolder | interface | logFile | lockFile => .text value
  | clientPort | daemonPort | nbProc | maxClients | maxDaemons | maxRequestsPerClient | maxRequestsPerDaemon =>
    .number (atoi value)

end Setting

namespace Conf

def default : Conf :=
  ⟨Prefs.default, "/tmp".toList, "eth0".toList, "/tmp/default_log_file".toList, "/tmp/default_lock_file".toList⟩

def get (conf : Conf) : Setting → Value
  | .clientPort => .number conf.clientPort
  | .daemonPort => .number conf.daemonPort
  | .sharedFolder => .text conf.sharedFolder
  | .interface => .text conf.interface
  | .nbProc => .number conf.nbProc
  | .maxClients => .number conf.maxClients
  | .maxDaemons => .number conf.maxDaemons
  | .maxRequestsPerClient => .number conf.maxRequestsPerClient
  | .maxRequestsPerDaemon => .number conf.maxRequestsPerDaemon
  | .logFile => .text conf.logFile
  | .lockFile => .text conf.lockFile

/-- The branch for the key of `s`. -/
def update (conf : Conf) (value : CString) : Setting → Conf
  | .clientPort => { conf with clientPort := Prefs.numVal minPort value conf.clientPort }
  | .daemonPort => { conf with daemonPort := Prefs.numVal minPort value conf.daemonPort }
  | .sharedFolder => { conf with sharedFolder := value }
  | .interface => { conf with interface := value }
  | .nbProc => { conf with nbProc := Prefs.numVal 1 value conf.nbProc }
  | .maxClients => { conf with maxClients := Prefs.numVal 1 value conf.maxClients }
  | .maxDaemons => { conf with maxDaemons := Prefs.numVal 1 value conf.maxDaemons }
  | .maxRequestsPerClient => { conf with maxRequestsPerClient := Prefs.numVal 1 value conf.maxRequestsPerClient }
  | .maxRequestsPerDaemon => { conf with maxRequestsPerDaemon := Prefs.numVal 1 value conf.maxRequestsPerDaemon }
  | .logFile => { conf with logFile := value }
  | .lockFile => { conf with lockFile := value }

/-- The body of the loop. A key that is known makes it read `value`, which may never have been written. -/
def assign (conf : Conf) (key : CString) (value : Option CString) : Option Conf :=
  match Setting.ofKey key with
  | none => some conf
  | some s => value.map fun value => conf.update value s

end Conf

/-! ### The loop -/

/-- `"%s = %s\n"` -/
def lineFormat : List Directive := [.word, .blank, .char '=', .blank, .word, .blank]

/-- The size of `key` and of `value`. -/
def bufferSize : Nat := 256

/-- No result where a buffer is overrun, or read before it is written. -/
def retrieveLoop : Nat → CString → Option CString → Option CString → Conf → Option Conf
  | 0, _, _, _, _ => none
  | fuel + 1, text, key, value, conf =>
    let scanned := scan lineFormat text
    if scanned.eof then some conf
    else if scanned.stored.any fun word => bufferSize < word.length + 1 then none
    else do
      -- a buffer that nothing is stored in keeps what it has
      let key := (scanned.stored[0]?.map terminated).or key
      let value := (scanned.stored[1]?.map terminated).or value
      let conf ← conf.assign (← key) value
      retrieveLoop fuel scanned.rest key value conf

/-- `conf_retrieve`, with the text of the file if it can be opened. -/
def confRetrieve : Option CString → Option Conf
  | none => some Conf.default
  | some text => retrieveLoop (text.length + 1) text none none Conf.default

/-! ### What the text says -/

/-- A key, and the value if there is one behind a `=`. -/
structure Entry where
  key : CString
  value : Option CString
deriving DecidableEq, Repr

/-- The entries of a text, from its start on. The words are as C sees them in a buffer. -/
inductive Reads : CString → List Entry → Prop
  | nothing {text : CString} : IsBlank text → Reads text []
  | complete {a key b c value d rest : CString} {es : List Entry} :
    IsBlank a → IsWord key → IsBlank b → b ≠ [] → IsBlank c → IsWord value → IsBlank d → Ends (d ++ rest) →
    (∀ x ∈ rest.head?, isspace x = false) → Reads rest es →
    Reads (a ++ (key ++ (b ++ '=' :: (c ++ (value ++ (d ++ rest)))))) (⟨terminated key, some (terminated value)⟩ :: es)
  | noValue {a key b c : CString} :
    IsBlank a → IsWord key → IsBlank b → b ≠ [] → IsBlank c →
    Reads (a ++ (key ++ (b ++ '=' :: c))) [⟨terminated key, none⟩]
  | noEquals {a key b rest : CString} {es : List Entry} :
    IsBlank a → IsWord key → IsBlank b → Ends (b ++ rest) →
    (∀ x ∈ rest.head?, isspace x = false ∧ x ≠ '=') → Reads rest es →
    Reads (a ++ (key ++ (b ++ rest))) (⟨terminated key, none⟩ :: es)

def entriesFrom : Nat → CString → List Entry
  | 0, _ => []
  | fuel + 1, text =>
    match (scan lineFormat text).stored with
    | [] => []
    | key :: values => ⟨terminated key, values.head?.map terminated⟩ :: entriesFrom fuel (scan lineFormat text).rest

def entries (text : CString) : List Entry :=
  entriesFrom (text.length + 1) text

/-- Every run without white space is shorter than the buffers. -/
def ShortWords (text : CString) : Prop :=
  ∀ w, w <:+: text → (∀ c ∈ w, isspace c = false) → w.length < 256

/-- The value that an entry gives to `s`. -/
def Setting.overrides (s : Setting) (e : Entry) : Option Value :=
  if e.key = s.key then (e.value.filter s.admissible).map s.read else none

/-- By the last entry that gives it a value. -/
def expected (es : List Entry) (s : Setting) : Value :=
  lastGiven s.overrides (Conf.default.get s) es

/-- The preferences are the defaults, overridden by what the text says. -/
def Retrieves (text : CString) (result : Option Conf) : Prop :=
  ∃ conf, result = some conf ∧ ∀ s, conf.get s = expected (entries text) s

/-! ### What becomes of it -/

/-- An entry, and what `value` holds when it is looked at. -/
structure Turn where
  entry : Entry
  buffer : Option CString
deriving DecidableEq, Repr

def turns : Option CString → List Entry → List Turn
  | _, [] => []
  | buffer, e :: es => ⟨e, e.value.or buffer⟩ :: turns (e.value.or buffer) es

/-- The value that a turn of the loop gives to `s`. -/
def Setting.taken (s : Setting) (t : Turn) : Option Value :=
  if t.entry.key = s.key then (t.buffer.filter s.takes).map s.read else none

/-- No known key without a value comes before the first value; and the last turn that gives a value to `s` has an
entry that does so, or its entry has no value and by chance the one that is left is right. -/
structure Sound (es : List Entry) : Prop where
  written : ∀ t ∈ turns none es, (Setting.ofKey t.entry.key).isSome → t.buffer.isSome
  last : ∀ s t, lastGiver s.taken (turns none es) = some t →
    (s.overrides t.entry).isSome ∨ t.entry.value = none ∧ s.taken t = some (expected es s)

variable {text a key b c value d rest : CString} {buffer : Option CString} {es : List Entry} {e : Entry} {t : Turn}
  {ts : List Turn} {s : Setting} {conf conf' : Conf} {fuel : Nat}

/-! ### One call of `fscanf` -/

theorem scan_lineFormat (blank : IsBlank a) (word : IsWord key) (ends : Ends rest) :
    scan lineFormat (a ++ (key ++ rest)) =
      { scan [.blank, .char '=', .blank, .word, .blank] rest with
        stored := key :: (scan [.blank, .char '=', .blank, .word, .blank] rest).stored } :=
  scan_word _ blank word ends

theorem scan_equals (blankB : IsBlank b) (blankC : IsBlank c) (rest : CString) :
    scan [.blank, .char '=', .blank, .word, .blank] (b ++ '=' :: (c ++ rest)) =
      scan [.word, .blank] (rest.dropWhile isspace) := by
  have sign : isspace '=' = false := by decide
  rw [scan_blank blankB]
  simp only [scan, List.dropWhile_cons, sign, Bool.false_eq_true, if_false, if_true, dropWhile_blanks blankC]

theorem scan_complete (blankA : IsBlank a) (wordKey : IsWord key) (blankB : IsBlank b) (some_ : b ≠ [])
    (blankC : IsBlank c) (wordValue : IsWord value) (blankD : IsBlank d) (ends : Ends (d ++ rest))
    (starts : ∀ x ∈ rest.head?, isspace x = false) :
    scan lineFormat (a ++ (key ++ (b ++ '=' :: (c ++ (value ++ (d ++ rest)))))) = ⟨[key, value], false, rest⟩ := by
  have left : (d ++ rest).dropWhile isspace = rest := by
    rw [dropWhile_blanks blankD, dropWhile_head starts]
  have last := scan_word [.blank] isBlank_nil wordValue ends
  rw [scan_lineFormat blankA wordKey (ends_append blankB some_ _), scan_equals blankB blankC,
    dropWhile_word wordValue]
  rw [List.nil_append] at last
  rw [last]
  simp only [scan, left]

theorem scan_noValue (blankA : IsBlank a) (word : IsWord key) (blankB : IsBlank b) (some_ : b ≠ [])
    (blankC : IsBlank c) : scan lineFormat (a ++ (key ++ (b ++ '=' :: c))) = ⟨[key], true, []⟩ := by
  have equals := scan_equals blankB blankC []
  rw [List.append_nil] at equals
  rw [scan_lineFormat blankA word (ends_append blankB some_ _), equals]
  rfl

theorem scan_noEquals (blankA : IsBlank a) (word : IsWord key) (blankB : IsBlank b) (ends : Ends (b ++ rest))
    (other : ∀ x ∈ rest.head?, isspace x = false ∧ x ≠ '=') :
    (scan lineFormat (a ++ (key ++ (b ++ rest)))).stored = [key] ∧
      (scan lineFormat (a ++ (key ++ (b ++ rest)))).rest = rest := by
  rw [scan_lineFormat blankA word ends, scan_blank blankB]
  cases rest with
  | nil => exact ⟨rfl, rfl⟩
  | cons x rest =>
    obtain ⟨graph, different⟩ := other x rfl
    constructor <;> simp [scan, graph, different]

/-- Only at the end of the text is nothing stored. -/
theorem blank_of_stored (nothing : (scan lineFormat text).stored = []) : IsBlank text := by
  rcases exists_word text with blank | ⟨blanks, w, rest, rfl, blank, word, ends⟩
  · exact blank
  · rw [scan_lineFormat blank word ends] at nothing
    cases nothing

/-! ### The entries of a text -/

theorem exists_blanks (text : CString) :
    ∃ blanks rest, text = blanks ++ rest ∧ IsBlank blanks ∧ ∀ x ∈ rest.head?, isspace x = false := by
  refine ⟨text.takeWhile isspace, text.dropWhile isspace, List.takeWhile_append_dropWhile.symm,
    fun c member => List.mem_takeWhile_imp member, fun x head => ?_⟩
  have stops := List.head?_dropWhile_not isspace text
  rw [Option.mem_def] at head
  simpa [head] using stops

/-- A text that is not read to its end has one entry in front of a shorter text. -/
theorem reads_entriesFrom (enough : text.length < fuel) : Reads text (entriesFrom fuel text) := by
  induction fuel generalizing text with
  | zero => exact absurd enough (Nat.not_lt_zero _)
  | succ fuel ih =>
    rcases exists_word text with blank | ⟨a, key, tail, rfl, blankA, wordKey, endsKey⟩
    · have nothing : scan lineFormat text = ⟨[], true, []⟩ := scan_word_blank _ blank
      rw [entriesFrom, nothing]
      exact .nothing blank
    have keyLength := List.length_pos_iff.mpr wordKey.nonempty
    obtain ⟨b, behind, rfl, blankB, starts⟩ := exists_blanks tail
    by_cases equals : behind.head? = some '='
    case neg =>
      have other : ∀ x ∈ behind.head?, isspace x = false ∧ x ≠ '=' :=
        fun x head => ⟨starts x head, fun same => equals (same ▸ head)⟩
      obtain ⟨stored, left⟩ := scan_noEquals blankA wordKey blankB endsKey other
      simp only [entriesFrom, stored, left]
      simp only [List.length_append] at enough
      exact .noEquals blankA wordKey blankB endsKey other (ih (by omega))
    obtain ⟨behind, rfl⟩ := List.head?_eq_some_iff.mp equals
    -- a `=` in front of any white space were a part of the key
    have some_ : b ≠ [] := by
      rintro rfl
      exact absurd (endsKey '=' rfl) (by decide)
    rcases exists_word behind with blankC | ⟨c, value, tail, rfl, blankC, wordValue, endsValue⟩
    · simp only [entriesFrom, scan_noValue blankA wordKey blankB some_ blankC]
      have ended : entriesFrom fuel [] = [] := by
        cases fuel with
        | zero => rfl
        | succ fuel => rfl
      rw [ended]
      exact .noValue blankA wordKey blankB some_ blankC
    · obtain ⟨d, rest, rfl, blankD, startsRest⟩ := exists_blanks tail
      simp only [entriesFrom, scan_complete blankA wordKey blankB some_ blankC wordValue blankD endsValue startsRest]
      simp only [List.length_append, List.length_cons] at enough
      exact .complete blankA wordKey blankB some_ blankC wordValue blankD endsValue startsRest (ih (by omega))

theorem entriesFrom_of_reads (reads : Reads text es) (enough : text.length < fuel) : entriesFrom fuel text = es := by
  induction reads generalizing fuel with
  | nothing blank =>
    obtain ⟨fuel, rfl⟩ := Nat.exists_eq_add_one_of_ne_zero (Nat.ne_zero_of_lt enough)
    have nothing := scan_word_blank [.blank, .char '=', .blank, .word, .blank] blank
    rw [entriesFrom, lineFormat, nothing]
  | complete blankA wordKey blankB some_ blankC wordValue blankD ends starts _ ih =>
    obtain ⟨fuel, rfl⟩ := Nat.exists_eq_add_one_of_ne_zero (Nat.ne_zero_of_lt enough)
    simp only [entriesFrom, scan_complete blankA wordKey blankB some_ blankC wordValue blankD ends starts]
    simp only [List.length_append, List.length_cons] at enough
    rw [ih (by omega)]
    rfl
  | noValue blankA word blankB some_ blankC =>
    obtain ⟨fuel, rfl⟩ := Nat.exists_eq_add_one_of_ne_zero (Nat.ne_zero_of_lt enough)
    simp only [entriesFrom, scan_noValue blankA word blankB some_ blankC]
    cases fuel <;> rfl
  | noEquals blankA word blankB ends other _ ih =>
    obtain ⟨fuel, rfl⟩ := Nat.exists_eq_add_one_of_ne_zero (Nat.ne_zero_of_lt enough)
    obtain ⟨stored, left⟩ := scan_noEquals blankA word blankB ends other
    have keyLength := List.length_pos_iff.mpr word.nonempty
    simp only [entriesFrom, stored, left]
    simp only [List.length_append] at enough
    rw [ih (by omega)]
    rfl

/-- Every text has its entries, and no others. -/
theorem reads_iff : Reads text es ↔ entries text = es := by
  constructor
  · exact fun reads => entriesFrom_of_reads reads (Nat.lt_succ_self _)
  · rintro rfl
    exact reads_entriesFrom (Nat.lt_succ_self _)

/-! ### The branches -/

theorem ofKey_eq_some_iff : Setting.ofKey key = some s ↔ key = s.key := by
  constructor
  · intro found
    exact (by simpa using List.find?_some found : s.key = key).symm
  · rintro rfl
    -- no two settings have the same key
    cases s <;> decide +kernel

theorem get_update_same (conf : Conf) (value : CString) (s : Setting) :
    (conf.update value s).get s = if s.takes value then s.read value else conf.get s := by
  cases s <;> simp [Conf.update, Conf.get, Setting.takes, Setting.read, Prefs.numVal, apply_ite Value.number]

theorem get_update_other {s t : Setting} (other : s ≠ t) (conf : Conf) (value : CString) :
    (conf.update value s).get t = conf.get t := by
  cases s <;> cases t <;> first | rfl | exact absurd rfl other

theorem get_assign (assigned : conf.assign t.entry.key t.buffer = some conf') (s : Setting) :
    conf'.get s = (s.taken t).getD (conf.get s) := by
  unfold Conf.assign at assigned
  split at assigned
  next unknown =>
    cases assigned
    have other : t.entry.key ≠ s.key := fun same => by
      rw [ofKey_eq_some_iff.mpr same] at unknown
      cases unknown
    simp only [Setting.taken, other, if_false, Option.getD_none]
  next known found =>
    rw [ofKey_eq_some_iff] at found
    obtain ⟨value, held, rfl⟩ := Option.map_eq_some_iff.mp assigned
    by_cases same : known = s
    · subst same
      rw [get_update_same]
      cases passes : known.takes value <;> simp [Setting.taken, found, held, passes, Option.filter]
    · have other : t.entry.key ≠ s.key := fun equal =>
        same (Option.some.inj ((ofKey_eq_some_iff.mpr found).symm.trans (ofKey_eq_some_iff.mpr equal)))
      simp only [get_update_other same, Setting.taken, other, if_false, Option.getD_none]

theorem isSome_assign (conf : Conf) (t : Turn) :
    (conf.assign t.entry.key t.buffer).isSome ↔ ((Setting.ofKey t.entry.key).isSome → t.buffer.isSome) := by
  unfold Conf.assign
  cases Setting.ofKey t.entry.key <;> simp

/-! ### The turns of the loop -/

def Conf.play (conf : Conf) (ts : List Turn) : Option Conf :=
  ts.foldlM (fun conf t => conf.assign t.entry.key t.buffer) conf

theorem shortWords_rest (short : ShortWords text) : ShortWords (scan lineFormat text).rest :=
  fun w inside graph => short w (inside.trans (scan_rest_suffix _ _).isInfix) graph

/-- With words that fit, the loop plays its turns and ends at the end of the text. -/
theorem retrieveLoop_eq (keyBuffer buffer : Option CString) (conf : Conf) (short : ShortWords text)
    (enough : text.length < fuel) :
    retrieveLoop fuel text keyBuffer buffer conf = conf.play (turns buffer (entriesFrom fuel text)) := by
  induction fuel generalizing text keyBuffer buffer conf with
  | zero => exact absurd enough (Nat.not_lt_zero _)
  | succ fuel ih =>
    have progress := length_scan lineFormat text
    have rest := shortWords_rest short
    have fits : ∀ w ∈ (scan lineFormat text).stored, w.length < 256 := fun w member =>
      short w (mem_stored member).1 (mem_stored member).2.graph
    rw [retrieveLoop, entriesFrom]
    cases stored : (scan lineFormat text).stored with
    | nil =>
      have ended : (scan lineFormat text).eof = true := by
        have nothing := scan_word_blank [.blank, .char '=', .blank, .word, .blank] (blank_of_stored stored)
        rw [lineFormat, nothing]
        rfl
      simp only [ended, if_true]
      rfl
    | cons key values =>
      have goes : (scan lineFormat text).eof = false := by simp [Scanned.eof, stored]
      have fit : ((key :: values).any fun word => decide (bufferSize < word.length + 1)) = false := by
        rw [stored] at fits
        refine List.any_eq_false.mpr fun w member => ?_
        have small := fits w member
        rw [decide_eq_true_eq, bufferSize]
        omega
      rw [stored, List.length_cons] at progress
      have later := fun keyBuffer buffer conf => ih keyBuffer buffer conf rest (by omega)
      -- a word is stored, so the rest is shorter, and both sides take the same values from here
      simp only [goes, fit, Bool.false_eq_true, if_false, later]
      simp [Conf.play, turns, List.head?_eq_getElem?]

theorem isSome_play (conf : Conf) (ts : List Turn) :
    (conf.play ts).isSome ↔ ∀ t ∈ ts, (Setting.ofKey t.entry.key).isSome → t.buffer.isSome := by
  induction ts generalizing conf with
  | nil => simp [Conf.play]
  | cons t ts ih =>
    rw [List.forall_mem_cons, ← isSome_assign conf t]
    cases assigned : conf.assign t.entry.key t.buffer with
    | none => simp [Conf.play, assigned]
    | some conf => simpa [Conf.play, assigned] using ih conf

/-- A setting has the value of the last turn that gives it one. -/
theorem get_play (played : conf.play ts = some conf') (s : Setting) :
    conf'.get s = lastGiven s.taken (conf.get s) ts :=
  lastGiven_of_foldlM (fun conf => conf.get s) (fun _ _ _ assigned => get_assign assigned s) played

/-! ### What is given and what is right -/

theorem turns_entry (buffer : Option CString) (es : List Entry) : (turns buffer es).map Turn.entry = es := by
  induction es generalizing buffer with
  | nil => rfl
  | cons e es ih => rw [turns, List.map_cons, ih]

/-- An entry with a value writes it into the buffer. -/
theorem buffer_of_value (member : t ∈ turns buffer es) (has : t.entry.value = some value) : t.buffer = some value := by
  induction es generalizing buffer with
  | nil => cases member
  | cons e es ih =>
    cases List.mem_cons.mp member with
    | inl same =>
      subst same
      simp only at has
      simp only [has, Option.some_or]
    | inr later => exact ih later

theorem takes_of_admissible (admissible : s.admissible value = true) : s.takes value = true := by
  cases s <;> simp_all [Setting.takes, Setting.admissible]

/-- The code takes every value that is right. -/
theorem taken_of_overrides (member : t ∈ turns buffer es) (given : (s.overrides t.entry).isSome) :
    s.taken t = s.overrides t.entry := by
  by_cases same : t.entry.key = s.key
  case neg => simp [Setting.overrides, same] at given
  cases has : t.entry.value with
  | none => simp [Setting.overrides, same, has] at given
  | some value =>
    have held := buffer_of_value member has
    have admissible : s.admissible value = true := by
      simpa [Setting.overrides, same, has, Option.filter] using given
    simp [Setting.taken, Setting.overrides, same, has, held, admissible, takes_of_admissible admissible, Option.filter]

theorem overrides_eq_some_iff {v : Value} :
    s.overrides e = some v ↔ e.key = s.key ∧ ∃ value, e.value = some value ∧ s.admissible value = true ∧
      s.read value = v := by
  by_cases same : e.key = s.key
  · simp [Setting.overrides, same, Option.filter_eq_some_iff, and_assoc]
  · simp [Setting.overrides, same]

/-- No port is above the bound. -/
theorem expected_port (port : s = .clientPort ∨ s = .daemonPort) (es : List Entry) :
    ∃ n ≤ maxPort, expected es s = .number n := by
  rcases lastGiven_cases s.overrides (Conf.default.get s) es with byDefault | ⟨e, -, gives⟩
  · rw [expected, byDefault]
    rcases port with rfl | rfl
    · exact ⟨1337, by decide, rfl⟩
    · exact ⟨7331, by decide, rfl⟩
  · obtain ⟨-, value, -, admissible, reads⟩ := overrides_eq_some_iff.mp gives
    rw [expected, ← reads]
    rcases port with rfl | rfl
    · exact ⟨atoi value, (of_decide_eq_true admissible).2, rfl⟩
    · exact ⟨atoi value, (of_decide_eq_true admissible).2, rfl⟩

/-- What the code takes and should not is a port that is too high. -/
theorem high_port (takes : s.takes value = true) (inadmissible : s.admissible value = false) :
    (s = .clientPort ∨ s = .daemonPort) ∧ s.read value = .number (atoi value) ∧ maxPort < atoi value := by
  cases s <;> simp_all [Setting.takes, Setting.admissible, Setting.read]

theorem read_ne_expected (takes : s.takes value = true) (inadmissible : s.admissible value = false)
    (es : List Entry) : s.read value ≠ expected es s := by
  obtain ⟨port, number, high⟩ := high_port takes inadmissible
  obtain ⟨n, low, right⟩ := expected_port port es
  rw [number, right]
  intro same
  cases same
  exact absurd low (Int32.not_le.mpr high)

theorem taken_eq_some_iff {v : Value} :
    s.taken t = some v ↔ t.entry.key = s.key ∧ ∃ value, t.buffer = some value ∧ s.takes value = true ∧
      s.read value = v := by
  by_cases same : t.entry.key = s.key
  · simp [Setting.taken, same, Option.filter_eq_some_iff, and_assoc]
  · simp [Setting.taken, same]

/-- What the code takes for the value of `s` is right iff the turn that it takes it from is. -/
theorem given_eq_expected_iff (es : List Entry) (s : Setting) :
    lastGiven s.taken (Conf.default.get s) (turns none es) = expected es s ↔
      ∀ t, lastGiver s.taken (turns none es) = some t →
        (s.overrides t.entry).isSome ∨ t.entry.value = none ∧ s.taken t = some (expected es s) := by
  have right : expected es s = lastGiven (s.overrides ∘ Turn.entry) (Conf.default.get s) (turns none es) := by
    rw [expected, lastGiven_map, turns_entry]
  have weaker : ∀ t ∈ turns none es, ((s.overrides ∘ Turn.entry) t).isSome →
      s.taken t = (s.overrides ∘ Turn.entry) t := fun t member given => taken_of_overrides member given
  rw [right, lastGiven_eq_iff weaker, ← right]
  apply forall₂_congr
  intro t found
  constructor
  · rintro (given | chance)
    · exact .inl given
    cases has : t.entry.value with
    | none => exact .inr ⟨rfl, chance⟩
    | some value =>
      -- the value in the buffer is the one of the entry, so it is no port that is too high
      left
      have member : t ∈ turns none es := List.mem_reverse.mp (List.mem_of_find?_eq_some found)
      obtain ⟨key, value', held, passes, reads⟩ := taken_eq_some_iff.mp chance
      cases held.symm.trans (buffer_of_value member has)
      have admissible : s.admissible value = true := by
        by_contra inadmissible
        exact read_ne_expected passes (by simpa using inadmissible) es reads
      rw [overrides_eq_some_iff.mpr ⟨key, value, has, admissible, rfl⟩]
      rfl
  · rintro (given | ⟨-, chance⟩)
    · exact .inl given
    · exact .inr chance

/-- The file gives the preferences that it says iff no key is left to an old value and no port is too high. -/
theorem retrieves_iff_sound (text : CString) (short : ShortWords text) :
    Retrieves text (confRetrieve (some text)) ↔ Sound (entries text) := by
  have loop : confRetrieve (some text) = Conf.default.play (turns none (entries text)) :=
    retrieveLoop_eq none none _ short (Nat.lt_succ_self _)
  have played := isSome_play Conf.default (turns none (entries text))
  rw [loop]
  constructor
  · rintro ⟨conf, result, right⟩
    have written := played.mp (by rw [result]; rfl)
    refine ⟨written, fun s => ?_⟩
    rw [← given_eq_expected_iff, ← get_play result]
    exact right s
  · intro sound
    obtain ⟨conf, result⟩ := Option.isSome_iff_exists.mp (played.mpr sound.written)
    refine ⟨conf, result, fun s => ?_⟩
    rw [get_play result, given_eq_expected_iff]
    exact sound.last s

theorem shortWords_of_length (small : text.length < 256) : ShortWords text := by
  intro w inside _
  exact inside.length_le.trans_lt small

theorem mem_all (s : Setting) : s ∈ Setting.all := by
  cases s <;> decide

/-- The first lines of the file that comes with the program. -/
theorem daemon_conf_retrieved :
    let text := "client_port     = 1337\ndaemon_port     = 7331\nshared_folder   = /tmp/lol\n".toList
    Retrieves text (confRetrieve (some text)) := by
  intro text
  refine (retrieves_iff_sound text (shortWords_of_length (by decide +kernel))).mpr ⟨by decide +kernel, ?_⟩
  have complete : ∀ s ∈ Setting.all, (lastGiver s.taken (turns none (entries text))).all
      fun t => (s.overrides t.entry).isSome := by
    decide +kernel
  intro s t found
  have given := complete s (mem_all s)
  rw [found] at given
  exact .inl given

theorem not_retrieves {v : Value} (result : (confRetrieve (some text)).map (fun conf => conf.get s) = some v)
    (wrong : v ≠ expected (entries text) s) : ¬Retrieves text (confRetrieve (some text)) := by
  rintro ⟨conf, same, right⟩
  rw [same] at result
  cases result
  exact wrong (right s)

/-- A port that is no valid one is taken; and a key without a value gets that of the key before it. -/
theorem high_port_and_old_value_retrieved :
    let high := "client_port = 60000\n".toList
    let old := "log_file = /tmp/log\nshared_folder\n".toList
    ¬Retrieves high (confRetrieve (some high)) ∧ ¬Retrieves old (confRetrieve (some old)) := by
  intro high old
  constructor
  · have result : (confRetrieve (some high)).map (fun conf => conf.get .clientPort) = some (.number 60000) := by
      decide +kernel
    exact not_retrieves result (by decide +kernel)
  · have result : (confRetrieve (some old)).map (fun conf => conf.get .sharedFolder) =
        some (.text "/tmp/log".toList) := by
      decide +kernel
    exact not_retrieves result (by decide +kernel)

/-! ### The numbers -/

/-- The pair of words that a turn looks at. -/
def Turn.line (t : Turn) : Option (CString × CString) :=
  t.buffer.map fun value => (t.entry.key, value)

theorem update_toPrefs (conf : Conf) (value : CString) (s : Setting) :
    (conf.update value s).toPrefs = conf.toPrefs.set s.key value := by
  cases s <;> rfl

theorem set_unknown (unknown : Setting.ofKey key = none) (prefs : Prefs) (value : CString) :
    prefs.set key value = prefs := by
  have other : ∀ s : Setting, key ≠ s.key := fun s same => by
    rw [ofKey_eq_some_iff.mpr same] at unknown
    cases unknown
  unfold Prefs.set
  iterate 7 rw [if_neg]
  · exact other .maxRequestsPerDaemon
  · exact other .maxRequestsPerClient
  · exact other .maxDaemons
  · exact other .maxClients
  · exact other .nbProc
  · exact other .daemonPort
  · exact other .clientPort

theorem assign_toPrefs (assigned : conf.assign t.entry.key t.buffer = some conf') :
    conf'.toPrefs = t.line.elim conf.toPrefs fun line => conf.toPrefs.set line.1 line.2 := by
  unfold Conf.assign at assigned
  split at assigned
  next unknown =>
    cases assigned
    cases held : t.buffer <;> simp [Turn.line, held, set_unknown unknown]
  next s known =>
    obtain ⟨value, held, rfl⟩ := Option.map_eq_some_iff.mp assigned
    simp [Turn.line, held, update_toPrefs, ofKey_eq_some_iff.mp known]

theorem play_toPrefs (played : conf.play ts = some conf') :
    conf'.toPrefs = (ts.filterMap Turn.line).foldl (fun prefs line => prefs.set line.1 line.2) conf.toPrefs := by
  induction ts generalizing conf with
  | nil =>
    cases played
    rfl
  | cons t ts ih =>
    obtain ⟨middle, assigned, played⟩ := Option.bind_eq_some_iff.mp played
    rw [ih played, assign_toPrefs assigned]
    cases held : t.line with
    | none => simp only [List.filterMap_cons, held, Option.elim_none]
    | some line => simp only [List.filterMap_cons, held, Option.elim_some, List.foldl_cons]

/-- The numbers are those of the pairs of words that the loop looks at. -/
theorem confRetrieve_toPrefs (short : ShortWords text) (result : confRetrieve (some text) = some conf) :
    conf.toPrefs = Pire2Pire.confRetrieve ((turns none (entries text)).filterMap Turn.line) := by
  have loop : confRetrieve (some text) = Conf.default.play (turns none (entries text)) :=
    retrieveLoop_eq none none _ short (Nat.lt_succ_self _)
  exact play_toPrefs (loop.symm.trans result)

end Pire2Pire.ConfFile
