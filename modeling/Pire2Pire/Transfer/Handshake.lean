import Mathlib.Data.UInt
import Pire2Pire.Transfer.Messages

/-! The `get` and `ready` messages: four encoders and decoders that have to agree
(`client_requests/client_request_get.c`, `daemon_requests/daemon_request_get.c`,
`daemon_requests/daemon_request_ready.c`). -/
namespace Pire2Pire.Transfer

open Library Protocol

/-! ### The messages -/

/-- `"get %s %d %ld\n"` into `answer[256]`; the size is unsigned, the conversion is not. -/
def getMessage (entry : FileEntry) : Option CString :=
  sprintfInto 256 (joinFields ["get".toList, entry.key, decimal 0, decimal entry.size.toInt64.toInt] ++ ['\n'])

/-- The part of `daemon_request_get` that reads the command: its arguments, or the error it replies with.
The template has no entries. -/
def getArguments (cmd : CString) : Except CString ParsedCmd :=
  match cmdParse cmd (some []) with
  | .error _ => .error "error daemon_request_get: Command parse failed".toList
  | .ok pcmd =>
    if pcmd.argv.length ≠ 4 then .error "error daemon_request_get: Invalid number of arguments".toList
    else .ok pcmd

/-- `"ready %s 0 %s %d tcp %s %s\n"` into `answer[512]`; the last two fields are those of the command. -/
def readyMessage (key : CString) (myIp : Ipv4) (port : UInt16) (pcmd : ParsedCmd) : Option CString :=
  match pcmd.argv with
  | [_, _, beginning, finish] =>
    sprintfInto 512 (joinFields ["ready".toList, key, "0".toList, inetNtop myIp, decimal port.toNat,
      "tcp".toList, beginning, finish] ++ ['\n'])
  | _ => none

/-- The entry that some line, read from a connection and handled, puts into a cache. -/
def Created (entry : FileEntry) : Prop :=
  ∃ stream cmd cache cache' sent, (socketGetline stream).1 = some cmd ∧
    daemonRequestFile true cache cmd = some (cache', sent) ∧
    fileCacheGetByKey cache entry.key = none ∧ fileCacheGetByKey cache' entry.key = some entry

/-- The seeder reads `get`, the key, 0 and the size of the entry, and whatever address it answers with for a
file of that key, the other side finds the eight fields that it wrote. -/
def Agreement (entry : FileEntry) : Prop :=
  ∃ line, getMessage entry = some line ∧ ∃ cmd, (socketGetline line).1 = some cmd ∧
    ∃ pcmd, getArguments cmd = .ok pcmd ∧
      pcmd.argv = ["get".toList, entry.key, "0".toList, decimal entry.size.toNat] ∧
      ∀ key myIp port, strcmp key entry.key = .eq →
        ∃ answer, readyMessage key myIp port pcmd = some answer ∧
          ∃ ready, (socketGetline answer).1 = some ready ∧
            cmdToArgcArgv ready = ["ready".toList, key, "0".toList, inetNtop myIp, decimal port.toNat,
              "tcp".toList, "0".toList, decimal entry.size.toNat]

variable {entry : FileEntry}

/-! ### Keys and sizes in the cache -/

/-- A key that got into the cache is a field of 32 characters and no option. -/
structure GoodKey (key : CString) : Prop where
  field : Field key
  argument : tokenKind key = .argument
  length : key.length = fileKeySize

theorem created_goodKey (created : Created entry) : GoodKey entry.key := by
  obtain ⟨stream, cmd, cache, cache', sent, got, handled, absent, found⟩ := created
  obtain ⟨name, size, ip, port, fields, new⟩ := daemonRequestFile_creates handled absent found
  obtain ⟨-, length, -⟩ := fileCacheNew_some.mp new
  -- the key is a token of a line that was received
  have member := fields.mem.2.1
  exact ⟨field_of_mem_words (socketGetline_received got) member, fields.arguments _ member, length⟩

/-- A line with all its fields creates an entry in the empty cache. -/
theorem created_of_line (stream cmd name key size ip port : CString)
    (got : (socketGetline stream).1 = some cmd) (fields : FileLine cmd name key size ip port)
    (new : fileCacheNew name key (atol size).toUInt64 ip (atoi port) = some entry) : Created entry := by
  have keyed : entry.key = key := by
    rw [(fileCacheNew_some.mp new).2.2]
  have absent : fileCacheGetByKey .empty key = none := rfl
  obtain ⟨cache', added⟩ := fileCacheAdd_new absent name (atol size).toUInt64 ip (atoi port)
  have handled := daemonRequestFile_adds .empty fields
  rw [added, Option.map_some] at handled
  refine ⟨stream, cmd, .empty, cache', _, got, handled, rfl, ?_⟩
  rw [keyed, getByKey_add_new added absent, new]

/-- Printing an unsigned number with `%ld`. -/
theorem toInt_toInt64 (size : UInt64) :
    size.toInt64.toInt = if size.toNat < 2 ^ 63 then (size.toNat : Int) else size.toNat - 2 ^ 64 := by
  -- the format takes the bits of the number for a signed one
  have bits : size.toInt64.toInt = size.toBitVec.toInt := rfl
  rw [bits, BitVec.toInt_eq_toNat_cond, UInt64.toNat_toBitVec]
  have half : 2 * size.toNat < 2 ^ 64 ↔ size.toNat < 2 ^ 63 := by omega
  simp only [half]
  rfl

theorem toInt_toInt64_nonneg (size : UInt64) : 0 ≤ size.toInt64.toInt ↔ size.toNat < 2 ^ 63 := by
  have range := size.toNat_lt
  rw [toInt_toInt64]
  split <;> omega

/-! ### The agreement -/

theorem getMessage_eq (good : GoodKey entry.key) :
    getMessage entry = some (joinFields ["get".toList, entry.key, decimal 0,
      decimal entry.size.toInt64.toInt] ++ ['\n']) := by
  -- the longest line fits, whatever the size is
  have key := good.length
  have number := length_decimal_long entry.size.toInt64
  have zero : (decimal 0).length = 1 := by decide
  have get : "get".toList.length = 3 := by decide
  apply if_pos
  simp only [joinFields, List.length_append, List.length_cons, List.length_nil, get, zero, key, fileKeySize]
  omega

/-- What the seeder reads: the four fields, if the number is not negative. -/
theorem getMessage_words (good : GoodKey entry.key) :
    ∃ line cmd, getMessage entry = some line ∧ (socketGetline line).1 = some cmd ∧
      words isADelimiter cmd = ["get".toList, entry.key, decimal 0, decimal entry.size.toInt64.toInt] := by
  have fields : ∀ w ∈ ["get".toList, entry.key, decimal 0, decimal entry.size.toInt64.toInt], Field w := by
    simp only [List.mem_cons, List.not_mem_nil, or_false, forall_eq_or_imp, forall_eq]
    exact ⟨literal_field (by decide) (by decide), good.field, decimal_field _, decimal_field _⟩
  refine ⟨_, _, getMessage_eq good, ?_, words_joinFields fields⟩
  rw [socketGetline_joinFields fields]

theorem getArguments_ok_iff {cmd : CString} {pcmd : ParsedCmd} :
    getArguments cmd = .ok pcmd ↔
      pcmd = ⟨[], words isADelimiter cmd⟩ ∧ (words isADelimiter cmd).length = 4 ∧
        ∀ w ∈ words isADelimiter cmd, tokenKind w = .argument := by
  unfold getArguments
  constructor
  · intro accepted
    -- the parser first, then the count of its words
    split at accepted
    · cases accepted
    next parsed result =>
      obtain ⟨rfl, -, arguments⟩ := (cmdParse_plain rfl).mp result
      split at accepted
      · cases accepted
      next count =>
        cases accepted
        exact ⟨rfl, by simpa using count, arguments⟩
  · intro conditions
    obtain ⟨rfl, count, arguments⟩ := conditions
    have nonempty : words isADelimiter cmd ≠ [] := by
      intro empty
      simp [empty] at count
    have parsed : cmdParse cmd (some []) = .ok ⟨[], words isADelimiter cmd⟩ :=
      (cmdParse_plain rfl).mpr ⟨rfl, nonempty, arguments⟩
    simp only [parsed, count, ne_eq, not_true_eq_false, if_false]

/-- Where the last two arguments of the command are short fields, the other side finds the eight fields of the
answer. -/
theorem readyMessage_fields {key command wanted beginning finish : CString} {pcmd : ParsedCmd} (good : GoodKey key)
    (argv : pcmd.argv = [command, wanted, beginning, finish]) (beginningField : Field beginning)
    (finishField : Field finish) (short : beginning.length ≤ 20 ∧ finish.length ≤ 20) (myIp : Ipv4) (port : UInt16) :
    ∃ answer, readyMessage key myIp port pcmd = some answer ∧
      ∃ ready, (socketGetline answer).1 = some ready ∧
        cmdToArgcArgv ready = ["ready".toList, key, "0".toList, inetNtop myIp, decimal port.toNat,
          "tcp".toList, beginning, finish] := by
  -- every argument of the format is a field, so `cmd_to_argc_argv` finds the same eight
  have fields : ∀ w ∈ ["ready".toList, key, "0".toList, inetNtop myIp, decimal port.toNat, "tcp".toList,
      beginning, finish], Field w := by
    simp only [List.mem_cons, List.not_mem_nil, or_false, forall_eq_or_imp, forall_eq]
    exact ⟨literal_field (by decide) (by decide), good.field, literal_field (by decide) (by decide),
      inetNtop_field myIp, decimal_field _, literal_field (by decide) (by decide), beginningField, finishField⟩
  have fits : readyMessage key myIp port pcmd = some (joinFields ["ready".toList, key, "0".toList,
      inetNtop myIp, decimal port.toNat, "tcp".toList, beginning, finish] ++ ['\n']) := by
    have keySize := good.length
    have ip := length_inetNtop_le myIp
    have portSize : (decimal port.toNat).length ≤ 6 :=
      length_decimal_le (by decide) (by have := port.toNat_lt; omega : (port.toNat : Int).natAbs < 10 ^ 5)
    have literals : "ready".toList.length = 5 ∧ "0".toList.length = 1 ∧ "tcp".toList.length = 3 := by decide
    obtain ⟨ready, zero, tcp⟩ := literals
    simp only [readyMessage, argv]
    apply if_pos
    simp only [joinFields, List.length_append, List.length_cons, List.length_nil, ready, zero, tcp, keySize,
      fileKeySize]
    omega
  refine ⟨_, fits, _, ?_, cmdToArgcArgv_joinFields (by simp) fields⟩
  rw [socketGetline_joinFields fields]

theorem length_decimal_size {size : Nat} (small : size < 2 ^ 63) : (decimal size).length ≤ 20 :=
  length_decimal_le (by decide) (by omega : (size : Int).natAbs < 10 ^ 19)

/-- The two sides agree exactly on the entries whose size is not printed as a negative number. -/
theorem agreement_iff_small (entry : FileEntry) (created : Created entry) :
    Agreement entry ↔ entry.size.toNat < 2 ^ 63 := by
  have good := created_goodKey created
  obtain ⟨line, cmd, sent, got, shape⟩ := getMessage_words good
  constructor
  · intro agreed
    obtain ⟨line', sent', cmd', got', pcmd, accepted, -⟩ := agreed
    have sameLine : line' = line := Option.some.inj (sent'.symm.trans sent)
    subst sameLine
    have sameCmd : cmd' = cmd := Option.some.inj (got'.symm.trans got)
    subst sameCmd
    obtain ⟨-, -, arguments⟩ := getArguments_ok_iff.mp accepted
    -- the number was not taken for an option
    have argument := arguments (decimal entry.size.toInt64.toInt) (by simp [shape])
    exact (toInt_toInt64_nonneg _).mp ((argument_decimal_iff _).mp argument)
  · intro small
    -- a size that is not negative is printed as it is
    have printed : entry.size.toInt64.toInt = entry.size.toNat := by
      rw [toInt_toInt64, if_pos small]
    rw [printed] at shape
    have zero : decimal 0 = "0".toList := by decide
    have arguments : ∀ w ∈ words isADelimiter cmd, tokenKind w = .argument := by
      rw [shape]
      simp only [List.mem_cons, List.not_mem_nil, or_false, forall_eq_or_imp, forall_eq]
      exact ⟨by decide, good.argument, by decide, (argument_decimal_iff _).mpr (by omega)⟩
    refine ⟨line, sent, cmd, got, _, getArguments_ok_iff.mpr ⟨rfl, by simp [shape], arguments⟩, ?_, ?_⟩
    · rw [shape, zero]
    · intro key myIp port same
      -- the key that the seeder compares with is that of the request
      have sameKey : key = entry.key := (strcmp_eq_iff _ _).mp same
      subst sameKey
      exact readyMessage_fields good (by rw [shape, zero]) (literal_field (by decide) (by decide)) (decimal_field _)
        ⟨by decide, length_decimal_size small⟩ myIp port

def keyOfAs : CString :=
  List.replicate 32 'a'

/-- The entry that `file song aa..a SIZE 10.0.0.1:7331` makes. -/
def songEntry (size : UInt64) : FileEntry :=
  ⟨"song".toList, keyOfAs, size, [⟨"10.0.0.1".toList, 7331⟩]⟩

theorem songEntry_created : Created (songEntry 7) := by
  refine created_of_line ("file song ".toList ++ keyOfAs ++ " 7 10.0.0.1:7331\n".toList)
    ("file song ".toList ++ keyOfAs ++ " 7 10.0.0.1:7331".toList) "song".toList keyOfAs "7".toList
    "10.0.0.1".toList "7331".toList ?_ ?_ ?_
  · decide +kernel
  · exact ⟨⟨"file".toList, [], by decide +kernel⟩, by decide +kernel, by decide +kernel⟩
  · decide +kernel

/-- A tab hides the sign from the parser, but not from `atol`. -/
theorem negative_songEntry_created : Created (songEntry (2 ^ 64 - 5)) := by
  refine created_of_line ("file song ".toList ++ keyOfAs ++ " \t-5 10.0.0.1:7331\n".toList)
    ("file song ".toList ++ keyOfAs ++ " \t-5 10.0.0.1:7331".toList) "song".toList keyOfAs "\t-5".toList
    "10.0.0.1".toList "7331".toList ?_ ?_ ?_
  · decide +kernel
  · exact ⟨⟨"file".toList, [], by decide +kernel⟩, by decide +kernel, by decide +kernel⟩
  · decide +kernel

theorem song_agreed : Agreement (songEntry 7) :=
  (agreement_iff_small (songEntry 7) songEntry_created).mpr (by decide)

/-- The command `get aa..a 0 -5` is refused: `-5` is an unknown option. -/
theorem negative_song_not_agreed :
    Created (songEntry (2 ^ 64 - 5)) ∧ ¬Agreement (songEntry (2 ^ 64 - 5)) := by
  refine ⟨negative_songEntry_created, ?_⟩
  intro agreed
  obtain ⟨line, sent, cmd, got, pcmd, accepted, -⟩ := agreed
  have text : line = "get ".toList ++ keyOfAs ++ " 0 -5\n".toList := by
    have printed : getMessage (songEntry (2 ^ 64 - 5)) = some ("get ".toList ++ keyOfAs ++ " 0 -5\n".toList) := by
      decide +kernel
    exact Option.some.inj (sent.symm.trans printed)
  have command : cmd = "get ".toList ++ keyOfAs ++ " 0 -5".toList := by
    subst text
    have read : (socketGetline ("get ".toList ++ keyOfAs ++ " 0 -5\n".toList)).1 =
        some ("get ".toList ++ keyOfAs ++ " 0 -5".toList) := by
      decide +kernel
    exact Option.some.inj (got.symm.trans read)
  obtain ⟨-, -, arguments⟩ := getArguments_ok_iff.mp accepted
  subst command
  exact absurd (arguments "-5".toList (by decide +kernel)) (by decide)

end Pire2Pire.Transfer
