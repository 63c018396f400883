import Pire2Pire.Transfer.ShortSends

/-! Downloading a file by blocks (`branches/block_by_block`): how the range in a `get` message is understood by the
daemon that sends (`daemon_requests/daemon_request_get.c`) and by the one that receives
(`daemon_requests/daemon_request_ready.c`).

Both are told in `get KEY BEGIN END` which bytes are asked for. -/
namespace Pire2Pire.Blocks

open Library Protocol Transfer

/-! ### The daemon that receives -/

/-- How the calls in front of the loop turn out. -/
structure BlockCalls where
  socket : Bool
  inetPton : CString → Bool
  opens : Bool
  connects : Bool
  /-- `dl_file_new` and `dl_file_add`. -/
  queued : Bool

inductive BlockOutcome where
  | replies (text : CString)
  | givesUp
  /-- The loop is entered, with the file open. -/
  | downloads (path : CString) (beginning finish : Int32)
deriving DecidableEq, Repr

/-- `daemon_request_ready`, up to the loop. -/
def daemonRequestReady (sharedFolder : CString) (cache : FileCache) (calls : BlockCalls) (cmd : CString) :
    BlockOutcome :=
  match cmdToArgcArgv cmd with
  | _ :: key :: _delay :: ip :: _port :: _proto :: beginning :: finish :: _ =>
    if atoi beginning < 0 ∨ atoi finish < 0 ∨ atoi finish < atoi beginning then .givesUp
    else if !calls.socket then .givesUp
    else if !calls.inetPton ip then .givesUp
    else
      match fileCacheGetByKey cache key with
      | none => .givesUp
      | some file =>
        if calls.opens && calls.connects && calls.queued then
          .downloads (sharedFolder ++ '/' :: file.filename) (atoi beginning) (atoi finish)
        else .givesUp
  | _ => .replies "error daemon_request_ready: Invalid number of arguments".toList

/-- The range in a line that is accepted. -/
def boundaries (cmd : CString) : Option (Int32 × Int32) :=
  match cmdToArgcArgv cmd with
  | _ :: _key :: _delay :: _ip :: _port :: _proto :: beginning :: finish :: _ =>
    if atoi beginning < 0 ∨ atoi finish < 0 ∨ atoi finish < atoi beginning then none
    else some (atoi beginning, atoi finish)
  | _ => none

/-- `end - (begin - 1)`, the sum that the loop waits for. There is none if it overflows. -/
def blockLength (beginning finish : Int32) : Option Int :=
  if finish.toInt - (beginning.toInt - 1) < 2 ^ 31 then some (finish.toInt - (beginning.toInt - 1)) else none

/-- How many bytes the receiver of a `ready` line waits for. -/
def awaited (cmd : CString) : Option Int :=
  (boundaries cmd).bind fun (beginning, finish) => blockLength beginning finish

/-! ### The daemon that sends -/

/-- `daemon_request_get`, where no call fails but perhaps one of the last loop: the file that `find_file` found, the
`ready` line, and what was sent. The loop does not know about the range. -/
def daemonRequestGet (host : Sharer) (port : UInt16) (cmd : CString) (chunks : List Chunk) :
    Option (SharedFile × CString × Upload) :=
  match getArguments cmd with
  | .error _ => none
  | .ok pcmd => do
    let wanted ← pcmd.argv[1]?
    let (last, found) ← findFileLoop host wanted host.files none
    let f ← last.filter fun _ => found
    let ready ← readyMessage (host.keyOf f) host.myIp port pcmd
    let upload ← sendLoop f.content (.ofNat f.content.length) chunks
    return (f, ready, upload)

deriving instance DecidableEq for SharedFile

/-! ### The lines -/

/-- `get KEY BEGIN END`. -/
def getLine (key : CString) (beginning finish : Nat) : CString :=
  joinFields ["get".toList, key, decimal beginning, decimal finish]

/-- The line asks for a file of so many bytes: for all of it, the way `client_request_get` does, or for a block. -/
def Range (size beginning finish : Nat) : Prop :=
  beginning = 0 ∧ finish = size ∨ beginning ≤ finish ∧ finish < size

instance (size beginning finish : Nat) : Decidable (Range size beginning finish) :=
  inferInstanceAs (Decidable (_ ∨ _))

/-- The receiver waits for as many bytes as were sent, and for a block they are those of the range. -/
def Agrees (content : List UInt8) (beginning finish : Nat) (ready : CString) (upload : Upload) : Prop :=
  (∃ cmd, (socketGetline ready).1 = some cmd ∧ awaited cmd = some (upload.bytes.length : Int)) ∧
    (finish < content.length → upload.bytes = (content.drop beginning).take (finish + 1 - beginning))

variable {host : Sharer} {port : UInt16} {key cmd ready sharedFolder path : CString} {f : SharedFile}
  {chunks : List Chunk} {upload : Upload} {beginning finish : Nat}

/-- What the loop waits for is what the line says. -/
theorem boundaries_of_downloads {cache : FileCache} {calls : BlockCalls} {first last : Int32}
    (downloads : daemonRequestReady sharedFolder cache calls cmd = .downloads path first last) :
    boundaries cmd = some (first, last) := by
  unfold daemonRequestReady at downloads
  unfold boundaries
  split at downloads
  next head key delay ip port proto first' last' tail shape =>
    split at downloads
    · cases downloads
    next inside =>
      rw [if_neg inside]
      split at downloads
      · cases downloads
      split at downloads
      · cases downloads
      split at downloads
      · cases downloads
      split at downloads
      · cases downloads
        rfl
      · cases downloads
  · cases downloads

/-- `client_request_get` asks for the whole file with its size as the end. -/
theorem getMessage_getLine {entry : FileEntry} (good : GoodKey entry.key) (small : entry.size.toNat < 2 ^ 63) :
    getMessage entry = some (getLine entry.key 0 entry.size.toNat ++ ['\n']) := by
  rw [getMessage_eq good, toInt_toInt64, if_pos small]
  rfl

theorem keyOf_goodKey (host : Sharer) (f : SharedFile) : GoodKey (host.keyOf f) where
  field := getMd5_field _
  argument := argument_of_plain fun _ => isPlain_of_mem_getMd5
  length := length_getMd5 _

theorem atoi_decimal_nat {n : Nat} (small : n < 2 ^ 31) : (atoi (decimal n)).toInt = n := by
  have same : (Int32.ofNat n).toInt = n := Int32.toInt_ofNat_of_lt small
  have read := atoi_decimal (.ofNat n)
  rw [same] at read
  rw [read, same]

/-- What the sender is asked for is what it says in the `ready` line. -/
theorem daemonRequestGet_some (good : GoodKey key) (small : beginning < 2 ^ 63 ∧ finish < 2 ^ 63)
    (served : daemonRequestGet host port (getLine key beginning finish) chunks = some (f, ready, upload)) :
    sendLoop f.content (.ofNat f.content.length) chunks = some upload ∧
      ∃ cmd, (socketGetline ready).1 = some cmd ∧
        cmdToArgcArgv cmd = ["ready".toList, host.keyOf f, "0".toList, inetNtop host.myIp, decimal port.toNat,
          "tcp".toList, decimal beginning, decimal finish] := by
  have fields : ∀ w ∈ ["get".toList, key, decimal beginning, decimal finish], Field w := by
    simp only [List.mem_cons, List.not_mem_nil, or_false, forall_eq_or_imp, forall_eq]
    exact ⟨literal_field (by decide) (by decide), good.field, decimal_field _, decimal_field _⟩
  have shape : words isADelimiter (getLine key beginning finish) =
      ["get".toList, key, decimal beginning, decimal finish] := words_joinFields fields
  have arguments : ∀ w ∈ words isADelimiter (getLine key beginning finish), tokenKind w = .argument := by
    rw [shape]
    simp only [List.mem_cons, List.not_mem_nil, or_false, forall_eq_or_imp, forall_eq]
    exact ⟨by decide, good.argument, (argument_decimal_iff _).mpr (by omega), (argument_decimal_iff _).mpr (by omega)⟩
  have accepted : getArguments (getLine key beginning finish) =
      .ok ⟨[], ["get".toList, key, decimal beginning, decimal finish]⟩ :=
    getArguments_ok_iff.mpr ⟨by rw [shape], by rw [shape]; rfl, arguments⟩
  unfold daemonRequestGet at served
  rw [accepted] at served
  -- the line and the upload are those for the file that was found
  simp only [Option.bind_eq_bind, Option.bind_eq_some_iff, Option.pure_def, Option.some.injEq, Prod.mk.injEq] at served
  obtain ⟨wanted, -, ⟨last, found⟩, -, g, -, ready', answered, upload', sent, rfl, rfl, rfl⟩ := served
  have argv : (⟨[], ["get".toList, key, decimal beginning, decimal finish]⟩ : ParsedCmd).argv =
      ["get".toList, key, decimal beginning, decimal finish] := rfl
  obtain ⟨answer, answered', cmd, got, split⟩ := readyMessage_fields (keyOf_goodKey host g) argv (decimal_field _)
    (decimal_field _) ⟨length_decimal_size small.1, length_decimal_size small.2⟩ host.myIp port
  have same : answer = ready' := Option.some.inj (answered'.symm.trans answered)
  exact ⟨sent, cmd, same ▸ got, split⟩

/-- How many bytes the receiver waits for, where the numbers are small enough to be read. -/
theorem awaited_of_fields {key ip portText : CString} (order : beginning ≤ finish) (small : finish < 2 ^ 31)
    (shape : cmdToArgcArgv cmd =
      ["ready".toList, key, "0".toList, ip, portText, "tcp".toList, decimal beginning, decimal finish]) :
    awaited cmd = if finish + 1 - beginning < 2 ^ 31 then some ((finish + 1 - beginning : Nat) : Int) else none := by
  have first := atoi_decimal_nat (n := beginning) (by omega)
  have last := atoi_decimal_nat small
  have inside : ¬ (atoi (decimal beginning) < 0 ∨ atoi (decimal finish) < 0 ∨
      atoi (decimal finish) < atoi (decimal beginning)) := by
    simp only [Int32.lt_iff_toInt_lt, first, last, Int32.toInt_zero]
    omega
  unfold awaited boundaries
  rw [shape]
  dsimp only
  rw [if_neg inside, Option.bind_some, blockLength, first, last]
  have length : (finish : Int) - (beginning - 1) = (finish + 1 - beginning : Nat) := by omega
  rw [length]
  split <;> split <;> first | rfl | omega

/-- The receiver never waits for more bytes than an `int` can count. -/
theorem awaited_lt {length : Int} (waits : awaited cmd = some length) : length < 2 ^ 31 := by
  obtain ⟨⟨first, last⟩, -, fits⟩ := Option.bind_eq_some_iff.mp waits
  unfold blockLength at fits
  dsimp only at fits
  split at fits
  next small =>
    cases fits
    exact small
  · cases fits

/-- The two daemons agree on a range if and only if it is the whole file, with the last byte as the end, the file has
fewer bytes than an `int` can count, and no send was so short as to harm the file. -/
theorem ranges_agree_iff (host : Sharer) (port : UInt16) (f : SharedFile) (beginning finish : Nat)
    (nonempty : 1 ≤ f.content.length) (range : Range f.content.length beginning finish) (chunks : List Chunk)
    (ready : CString) (upload : Upload)
    (served : daemonRequestGet host port (getLine (host.keyOf f) beginning finish) chunks = some (f, ready, upload))
    (ended : upload.complete = true) :
    Agrees f.content beginning finish ready upload ↔
      beginning = 0 ∧ finish + 1 = f.content.length ∧ f.content.length < 2 ^ 31 ∧
        InOrder f.content (chunks.map Chunk.part) := by
  have inRange := f.inRange
  have bounds : beginning ≤ finish ∧ finish ≤ f.content.length := by
    unfold Range at range
    omega
  obtain ⟨sent, cmd, got, split⟩ := daemonRequestGet_some (keyOf_goodKey host f) ⟨by omega, by omega⟩ served
  obtain ⟨cover, same⟩ := sendLoop_copied f.toNat_size sent ended
  -- all of the file has been sent, whatever the range is
  have all : upload.bytes.length = f.content.length := by rw [same, length_copied cover]
  have exact_ : upload.bytes = f.content ↔ InOrder f.content (chunks.map Chunk.part) := by
    rw [same]
    exact copied_eq_iff cover
  constructor
  -- the receiver waits for the length of the range, which is therefore the length of the file
  · rintro ⟨⟨cmd', got', waits⟩, bytes⟩
    cases Option.some.inj (got.symm.trans got')
    rw [all] at waits
    have small := awaited_lt waits
    rw [awaited_of_fields bounds.1 (by omega) split] at waits
    split at waits
    next =>
      have count := Option.some.inj waits
      have whole : beginning = 0 ∧ finish + 1 = f.content.length := by
        unfold Range at range
        omega
      refine ⟨whole.1, whole.2, by omega, exact_.mp ?_⟩
      rw [bytes (by omega), whole.1, whole.2, List.drop_zero, Nat.sub_zero, List.take_length]
    · cases waits
  · rintro ⟨rfl, whole, small, inOrder⟩
    refine ⟨⟨cmd, got, ?_⟩, ?_⟩
    · rw [awaited_of_fields bounds.1 (by omega) split, Nat.sub_zero, whole, if_pos small, all]
    · intro _
      rw [exact_.mpr inOrder, Nat.sub_zero, whole, List.drop_zero, List.take_length]

/-- A daemon that shares one file of two bytes. -/
def twoBytes : SharedFile :=
  ⟨"ab".toList, [97, 98], by decide⟩

def smallSharer : Sharer where
  sharedFolder := "/tmp".toList
  myIp := ⟨10, 0, 0, 1⟩
  files := [twoBytes]
  distinct := by decide
  mdFile _ := Vector.replicate 16 0

def readyLine (beginning finish : Nat) : CString :=
  "ready 00000000000000000000000000000000 0 10.0.0.1 4001 tcp ".toList ++ decimal beginning ++ ' ' :: decimal finish ++
    ['\n']

/-- Both bytes asked for, with the last one as the end. -/
theorem whole_block_agrees :
    Agrees twoBytes.content 0 1 (readyLine 0 1) ⟨[97, 98], [], true⟩ ↔
      0 = 0 ∧ 1 + 1 = twoBytes.content.length ∧ twoBytes.content.length < 2 ^ 31 ∧
        InOrder twoBytes.content [(2, [2])] :=
  ranges_agree_iff smallSharer 4001 twoBytes 0 1 (by decide) (by decide) [⟨some 2, [some 2]⟩] _ _ (by decide +kernel)
    rfl

/-- The line for the whole file makes the receiver wait for three bytes out of two; the one for the last byte makes it
wait for one, and two are sent. -/
theorem ranges_disagree :
    (∃ ready upload, daemonRequestGet smallSharer 4001 (getLine (smallSharer.keyOf twoBytes) 0 2)
        [⟨some 2, [some 2]⟩] = some (twoBytes, ready, upload) ∧ upload.complete = true ∧
        ¬ Agrees twoBytes.content 0 2 ready upload) ∧
      ∃ ready upload, daemonRequestGet smallSharer 4001 (getLine (smallSharer.keyOf twoBytes) 1 1)
        [⟨some 2, [some 2]⟩] = some (twoBytes, ready, upload) ∧ upload.complete = true ∧
        ¬ Agrees twoBytes.content 1 1 ready upload := by
  refine ⟨⟨readyLine 0 2, ⟨[97, 98], [], true⟩, by decide +kernel, rfl, ?_⟩,
    ⟨readyLine 1 1, ⟨[97, 98], [], true⟩, by decide +kernel, rfl, ?_⟩⟩
  · rintro ⟨⟨cmd, got, waits⟩, -⟩
    have three : (socketGetline (readyLine 0 2)).1.bind awaited = some 3 := by decide +kernel
    rw [got, Option.bind_some, waits] at three
    cases three
  · rintro ⟨⟨cmd, got, waits⟩, -⟩
    have one : (socketGetline (readyLine 1 1)).1.bind awaited = some 1 := by decide +kernel
    rw [got, Option.bind_some, waits] at one
    cases one

end Pire2Pire.Blocks
