import Pire2Pire.Transfer.Messages

/-! Announcing the shared files (`daemon_requests/daemon_request_list.c`) and what the peer's cache
makes of it. -/
namespace Pire2Pire.Transfer

open Library Protocol

/-! ### The announcing daemon -/

/-- A name that the file system allows. -/
structure FileName where
  text : CString
  nonempty : text ≠ []
  short : text.length ≤ 255
  noSlash : '/' ∉ text
  noNul : '\x00' ∉ text

/-- What `readdir`, `stat` and `MDFile` say about an entry of the shared folder; `size` is `st_size`,
missing if `stat` fails. -/
structure DirEntry where
  name : FileName
  isRegular : Bool
  size : Option Nat
  digest : Digest

/-- The settings and the address that a daemon announces. -/
structure Announcer where
  sharedFolder : CString
  myIp : Ipv4
  daemonPort : Int32

/-- The size of `entry_full_path`. -/
def entryFullPathSize : Nat := 256

/-- The size of `answer`. -/
def answerSize : Nat := 512

/-- `"file %s %s %d %s:%d\n"`, with the size cast to `int`. -/
def fileMessage (host : Announcer) (name : FileName) (digest : Digest) (size : Nat) : CString :=
  joinFields ["file".toList, name.text, getMd5 digest, decimal (Int32.ofNat size).toInt,
    inetNtop host.myIp ++ ':' :: decimal host.daemonPort.toInt] ++ ['\n']

/-- The body of the loop for a regular file: the line to send, none if `stat` fails, and no result at all
if a buffer is overrun. -/
def announce (host : Announcer) (name : FileName) (digest : Digest) (size : Option Nat) :
    Option (Option CString) := do
  let _ ← sprintfInto entryFullPathSize (host.sharedFolder ++ '/' :: name.text)
  match size with
  | none => return none
  | some size => return some (← sprintfInto answerSize (fileMessage host name digest size))

/-- The lines that are sent for the entries of the shared folder. -/
def daemonRequestList (host : Announcer) : List DirEntry → Option (List CString)
  | [] => some []
  | entry :: dir =>
    (if entry.isRegular then announce host entry.name entry.digest entry.size else some none).bind fun answer =>
      (daemonRequestList host dir).map fun answers => answer.toList ++ answers

variable {host : Announcer} {name : FileName} {digest : Digest} {size : Nat} {cache cache' : FileCache}

/-! ### The round trip -/

/-- The cache has the file under its key, with its name and its size and the announcer as its only
seeder, and every other key as before. -/
def Recorded (host : Announcer) (name : FileName) (digest : Digest) (size : Nat) (cache cache' : FileCache) :
    Prop :=
  (∃ entry, fileCacheGetByKey cache' (getMd5 digest) = some entry ∧ entry.filename = name.text ∧
    entry.size.toNat = size ∧ entry.seeders = [⟨inetNtop host.myIp, host.daemonPort⟩]) ∧
  ∀ key, key ≠ getMd5 digest → fileCacheGetByKey cache' key = fileCacheGetByKey cache key

/-- The line is sent, the peer reads it and handles it, and its cache then has the file. -/
def RoundTrip (host : Announcer) (name : FileName) (digest : Digest) (size : Nat) (cache : FileCache) : Prop :=
  ∃ line, announce host name digest (some size) = some (some line) ∧ ∃ cmd, (socketGetline line).1 = some cmd ∧
    ∃ cache' sent, daemonRequestFile true cache cmd = some (cache', sent) ∧
      Recorded host name digest size cache cache'

/-- The files that get through. -/
structure Announceable (host : Announcer) (name : FileName) (size : Nat) : Prop where
  noBreak : ' ' ∉ name.text ∧ '\n' ∉ name.text ∧ '\r' ∉ name.text
  noOption : name.text.head? ≠ some '-' ∨ name.text = ['-'] ∨ name.text = ['-', '-']
  small : size < 2 ^ 31
  fits : host.sharedFolder.length + name.text.length + 2 ≤ entryFullPathSize

theorem Announceable.field (able : Announceable host name size) : Field name.text :=
  have ⟨noSpace, noNewline, noReturn⟩ := able.noBreak
  ⟨⟨noReturn, noNewline, name.noNul⟩, name.nonempty, noSpace⟩

theorem address_field (host : Announcer) :
    Field (inetNtop host.myIp ++ ':' :: decimal host.daemonPort.toInt) := by
  have ip := inetNtop_field host.myIp
  have port := decimal_field host.daemonPort.toInt
  refine ⟨⟨?_, ?_, ?_⟩, ?_, ?_⟩
  · simp [ip.noReturn, port.noReturn]
  · simp [ip.noNewline, port.noNewline]
  · simp [ip.noNul, port.noNul]
  · simp
  · simp [ip.noSpace, port.noSpace]

/-- The whole answer is at most 336 bytes long. -/
theorem length_fileMessage_le (host : Announcer) (name : FileName) (digest : Digest) (size : Nat) :
    (fileMessage host name digest size).length + 1 ≤ answerSize := by
  have key := length_getMd5 digest
  have ip := length_inetNtop_le host.myIp
  have port := length_decimal_int host.daemonPort
  have number := length_decimal_int (Int32.ofNat size)
  have short := name.short
  have file : "file".toList.length = 4 := by decide
  simp only [fileMessage, joinFields, List.length_append, List.length_cons, List.length_nil, answerSize,
    fileKeySize, file] at *
  omega

theorem announce_some {line : CString} :
    announce host name digest (some size) = some (some line) ↔
      host.sharedFolder.length + name.text.length + 2 ≤ entryFullPathSize ∧
        line = fileMessage host name digest size := by
  -- of the two buffers only the one for the path can be too small
  have answer : sprintfInto answerSize (fileMessage host name digest size) =
      some (fileMessage host name digest size) := if_pos (length_fileMessage_le host name digest size)
  by_cases fits : host.sharedFolder.length + name.text.length + 2 ≤ entryFullPathSize
  · have path : sprintfInto entryFullPathSize (host.sharedFolder ++ '/' :: name.text) =
        some (host.sharedFolder ++ '/' :: name.text) := if_pos (by simp; omega)
    simp [announce, path, answer, fits, eq_comm]
  · have path : sprintfInto entryFullPathSize (host.sharedFolder ++ '/' :: name.text) = none :=
      if_neg (by simp; omega)
    simp [announce, path, fits]

/-- What is sent for a regular file, if `stat` knows it. -/
theorem announce_toList {size : Option Nat} {answer : Option CString}
    (announced : announce host name digest size = some answer) :
    answer = size.map (fileMessage host name digest) := by
  cases size with
  | none =>
    simp only [announce, Option.bind_eq_bind, Option.bind_eq_some_iff, Option.pure_def, Option.some.injEq]
      at announced
    obtain ⟨-, -, rfl⟩ := announced
    rfl
  | some size =>
    cases answer with
    | none => simp [announce, Option.bind_eq_some_iff] at announced
    | some line => rw [(announce_some.mp announced).2, Option.map_some]

/-- The lines are those of the regular files that `stat` knows. -/
theorem mem_daemonRequestList {dir : List DirEntry} {line : CString} {lines : List CString}
    (sent : daemonRequestList host dir = some lines) :
    line ∈ lines ↔ ∃ entry ∈ dir, entry.isRegular = true ∧
      ∃ size, entry.size = some size ∧ fileMessage host entry.name entry.digest size = line := by
  induction dir generalizing lines with
  | nil =>
    cases sent
    simp
  | cons first dir ih =>
    simp only [daemonRequestList, Option.bind_eq_some_iff, Option.map_eq_some_iff] at sent
    obtain ⟨answer, head, answers, tail, rfl⟩ := sent
    -- the line of the first entry, or none
    have here : line ∈ answer.toList ↔ first.isRegular = true ∧
        ∃ size, first.size = some size ∧ fileMessage host first.name first.digest size = line := by
      by_cases regular : first.isRegular = true
      · rw [if_pos regular] at head
        rw [announce_toList head]
        simp [regular]
      · rw [if_neg regular, Option.some.injEq] at head
        subst head
        simp [regular]
    rw [List.mem_append, ih tail, here]
    simp only [List.mem_cons, or_and_right, exists_or, exists_eq_left]

/-- The fields of the line, as the peer reads them. -/
theorem fileMessage_fields (host : Announcer) (digest : Digest) (size : Nat) (whole : Field name.text) :
    ∃ cmd, (socketGetline (fileMessage host name digest size)).1 = some cmd ∧
      words isADelimiter cmd = ["file".toList, name.text, getMd5 digest, decimal (Int32.ofNat size).toInt,
        inetNtop host.myIp ++ ':' :: decimal host.daemonPort.toInt] := by
  -- each part of the format is a field, so the peer finds the same five
  have fields : ∀ w ∈ ["file".toList, name.text, getMd5 digest, decimal (Int32.ofNat size).toInt,
      inetNtop host.myIp ++ ':' :: decimal host.daemonPort.toInt], Field w := by
    simp only [List.mem_cons, List.not_mem_nil, or_false, forall_eq_or_imp, forall_eq]
    exact ⟨literal_field (by decide) (by decide), whole, getMd5_field digest, decimal_field _,
      address_field host⟩
  refine ⟨_, ?_, words_joinFields fields⟩
  rw [fileMessage, socketGetline_joinFields fields]

/-- The cast to `int` keeps small sizes, and only those. -/
theorem toInt_ofNat_iff (size : Nat) :
    0 ≤ (Int32.ofNat size).toInt ∧ (Int32.ofNat size).toInt.toNat = size ↔ size < 2 ^ 31 := by
  constructor
  -- a size that was cut off would have to be as large as it was
  · intro same
    have high := (Int32.ofNat size).toInt_lt
    omega
  · intro small
    rw [Int32.toInt_ofNat_of_lt small]
    simp

/-- What the peer makes of the line if the name and the number are arguments. -/
theorem fileLine_of_arguments {cmd : CString}
    (shape : words isADelimiter cmd = ["file".toList, name.text, getMd5 digest,
      decimal (Int32.ofNat size).toInt, inetNtop host.myIp ++ ':' :: decimal host.daemonPort.toInt])
    (argument : tokenKind name.text = .argument) (nonnegative : 0 ≤ (Int32.ofNat size).toInt) :
    FileLine cmd name.text (getMd5 digest) (decimal (Int32.ofNat size).toInt) (inetNtop host.myIp)
      (decimal host.daemonPort.toInt) := by
  have address : tokenKind (inetNtop host.myIp ++ ':' :: decimal host.daemonPort.toInt) = .argument := by
    -- an address starts with a digit, so it is no option
    refine (tokenKind_argument_iff _).mpr (.inl ?_)
    obtain ⟨c, rest, shape⟩ := List.exists_cons_of_ne_nil (inetNtop_ne_nil host.myIp)
    have plain : isPlain c := isPlain_of_mem_inetNtop (by rw [shape]; exact List.mem_cons_self)
    rw [shape, List.cons_append, List.head?_cons, Ne, Option.some.injEq]
    intro dash
    exact absurd (dash ▸ plain) (by decide)
  refine ⟨⟨_, [], shape⟩, ?_, ?_⟩
  · rw [shape]
    simp only [List.mem_cons, List.not_mem_nil, or_false, forall_eq_or_imp, forall_eq]
    exact ⟨by decide, argument, argument_of_plain fun _ => isPlain_of_mem_getMd5,
      (argument_decimal_iff _).mpr nonnegative, address⟩
  · intro colon
    exact absurd (isPlain_of_mem_inetNtop colon) (by decide)

/-- The entry that such a line creates. -/
theorem fileCacheNew_announced (host : Announcer) (name : FileName) (digest : Digest) (size : UInt64) :
    fileCacheNew name.text (getMd5 digest) size (inetNtop host.myIp) (atoi (decimal host.daemonPort.toInt)) =
      some ⟨name.text, getMd5 digest, size, [⟨inetNtop host.myIp, host.daemonPort⟩]⟩ := by
  have short := name.short
  have ip := length_inetNtop_le host.myIp
  refine fileCacheNew_some.mpr ⟨?_, length_getMd5 digest, ?_⟩
  · simp only [fileNameSize]
    omega
  · rw [atoi_decimal, List.take_of_length_le (by simp only [fileIpSize]; omega)]

/-- Every announceable file is recorded. -/
theorem roundTrip_of_announceable (able : Announceable host name size)
    (absent : fileCacheGetByKey cache (getMd5 digest) = none) : RoundTrip host name digest size cache := by
  obtain ⟨nonnegative, same⟩ := (toInt_ofNat_iff size).mpr able.small
  obtain ⟨cmd, got, shape⟩ := fileMessage_fields host digest size able.field
  have fields := fileLine_of_arguments shape ((tokenKind_argument_iff _).mpr able.noOption) nonnegative
  obtain ⟨cache', added⟩ := fileCacheAdd_new absent name.text
    (atol (decimal (Int32.ofNat size).toInt)).toUInt64 (inetNtop host.myIp)
    (atoi (decimal host.daemonPort.toInt))
  have handled : daemonRequestFile true cache cmd =
      some (cache', [.client (" < ".toList ++ cmd ++ ['\n'])]) := by
    rw [daemonRequestFile_adds cache fields, added]
    rfl
  refine ⟨_, announce_some.mpr ⟨able.fits, rfl⟩, cmd, got, cache', _, handled, ?_, ?_⟩
  · refine ⟨_, (getByKey_add_new added absent).trans (fileCacheNew_announced _ _ _ _), rfl, ?_, rfl⟩
    -- the number that was sent is read back as it was
    have high := (Int32.ofNat size).toInt_lt
    exact (toNat_atol_decimal nonnegative (by omega)).trans same
  -- the other keys keep what they had
  · intro key differ
    exact getByKey_add_other added differ

/-- Only announceable files are recorded: the name in the cache is a token of the line that arrived. -/
theorem announceable_of_roundTrip (absent : fileCacheGetByKey cache (getMd5 digest) = none)
    (trip : RoundTrip host name digest size cache) : Announceable host name size := by
  obtain ⟨line, sentOff, cmd, got, cache', sent, handled, ⟨entry, found, named, sized, -⟩, -⟩ := trip
  obtain ⟨fits, rfl⟩ := announce_some.mp sentOff
  obtain ⟨stored, number, ip, port, fields, new⟩ := daemonRequestFile_creates handled absent found
  obtain ⟨-, -, rfl⟩ := fileCacheNew_some.mp new
  subst named
  have isField := field_of_mem_words (socketGetline_received got) fields.mem.1
  have argument := fields.arguments _ fields.mem.1
  -- so the name was not broken up, and the tokens are those of the format
  obtain ⟨cmd', got', shape⟩ := fileMessage_fields host digest size isField
  have sameCmd : cmd' = cmd := Option.some.inj (got'.symm.trans got)
  subst sameCmd
  obtain ⟨first, rest, shape'⟩ := fields.argv
  have numbers : number = decimal (Int32.ofNat size).toInt := by
    rw [shape] at shape'
    simp only [List.cons.injEq] at shape'
    exact shape'.2.2.2.1.symm
  have nonnegative : 0 ≤ (Int32.ofNat size).toInt :=
    (argument_decimal_iff _).mp (numbers ▸ fields.arguments _ fields.mem.2.2)
  have high := (Int32.ofNat size).toInt_lt
  have same : (Int32.ofNat size).toInt.toNat = size := by
    rw [← toNat_atol_decimal nonnegative (by omega), ← numbers]
    exact sized
  exact ⟨⟨isField.noSpace, isField.noNewline, isField.noReturn⟩, (tokenKind_argument_iff _).mp argument,
    (toInt_ofNat_iff size).mp ⟨nonnegative, same⟩, fits⟩

/-- A file is recorded by the peer exactly if its name has no space and no line end and does not look like
an option, its size is an `int`, and its path fits the buffer of the announcer. -/
theorem announced_iff_announceable (host : Announcer) (name : FileName) (digest : Digest) (size : Nat)
    (cache : FileCache) (absent : fileCacheGetByKey cache (getMd5 digest) = none) :
    RoundTrip host name digest size cache ↔ Announceable host name size :=
  ⟨announceable_of_roundTrip absent, fun able => roundTrip_of_announceable able absent⟩

def song : FileName :=
  ⟨"song".toList, by decide, by decide, by decide, by decide⟩

def mySong : FileName :=
  ⟨"my song".toList, by decide, by decide, by decide, by decide⟩

def tmpHost : Announcer :=
  ⟨"/tmp".toList, ⟨10, 0, 0, 1⟩, 7331⟩

theorem song_announced : RoundTrip tmpHost song (Vector.replicate 16 0) 7 .empty :=
  (announced_iff_announceable tmpHost song (Vector.replicate 16 0) 7 .empty rfl).mpr
    ⟨by decide, by decide, by decide, by decide⟩

/-- The peer takes `my` for the name and `song` for a key of the wrong size. -/
theorem mySong_not_announced :
    fileCacheGetByKey .empty (getMd5 (Vector.replicate 16 0)) = none ∧
      ¬RoundTrip tmpHost mySong (Vector.replicate 16 0) 7 .empty := by
  refine ⟨rfl, ?_⟩
  intro trip
  have able := announceable_of_roundTrip rfl trip
  exact able.noBreak.1 (by decide)

end Pire2Pire.Transfer
