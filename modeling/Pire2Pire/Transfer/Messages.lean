import Pire2Pire.FileCache
import Pire2Pire.Protocol.Lines

/-! What the messages about files are made of, and the handler of the `file` message
(`daemon_requests/daemon_request_file.c`). -/
namespace Pire2Pire.Transfer

open Library Protocol

/-! ### Addresses and keys -/

structure Ipv4 where
  a : UInt8
  b : UInt8
  c : UInt8
  d : UInt8
deriving DecidableEq, Repr

def octet (n : UInt8) : CString :=
  Nat.toDigits 10 n.toNat

/-- The text of `my_ip`. -/
def inetNtop (ip : Ipv4) : CString :=
  octet ip.a ++ '.' :: (octet ip.b ++ '.' :: (octet ip.c ++ '.' :: octet ip.d))

/-- What `MDFile` computes. -/
abbrev Digest := Vector UInt8 16

/-- `%02x`. -/
def hexByte (byte : UInt8) : CString :=
  [Nat.digitChar (byte.toNat / 16), Nat.digitChar (byte.toNat % 16)]

def getMd5 (digest : Digest) : CString :=
  digest.toList.flatMap hexByte

/-- What can stand in an address or in a key. -/
def isPlain (c : Char) : Bool :=
  c.isAlphanum ∨ c = '.'

theorem digitChar_isPlain : ∀ n < 16, isPlain (Nat.digitChar n) := by
  decide

theorem isPlain_of_mem_octet {n : UInt8} {c : Char} (member : c ∈ octet n) : isPlain c := by
  have digit : c.isDigit := Nat.isDigit_of_mem_toDigits (by decide) (by decide) member
  simp [isPlain, Char.isAlphanum, digit]

theorem isPlain_of_mem_inetNtop {ip : Ipv4} {c : Char} (member : c ∈ inetNtop ip) : isPlain c := by
  have dot : isPlain '.' := by decide
  simp only [inetNtop, List.mem_append, List.mem_cons] at member
  rcases member with first | rfl | second | rfl | third | rfl | fourth
  · exact isPlain_of_mem_octet first
  · exact dot
  · exact isPlain_of_mem_octet second
  · exact dot
  · exact isPlain_of_mem_octet third
  · exact dot
  · exact isPlain_of_mem_octet fourth

theorem isPlain_of_mem_getMd5 {digest : Digest} {c : Char} (member : c ∈ getMd5 digest) : isPlain c := by
  obtain ⟨byte, -, inside⟩ := List.mem_flatMap.mp member
  have small := byte.toNat_lt
  simp only [hexByte, List.mem_cons, List.not_mem_nil, or_false] at inside
  cases inside with
  | inl high => exact high ▸ digitChar_isPlain _ (by omega)
  | inr low => exact low ▸ digitChar_isPlain _ (by omega)

theorem length_getMd5 (digest : Digest) : (getMd5 digest).length = fileKeySize := by
  -- two digits for each byte
  have pairs : ∀ bytes : List UInt8, (bytes.flatMap hexByte).length = 2 * bytes.length := by
    intro bytes
    induction bytes with
    | nil => rfl
    | cons byte bytes ih =>
      simp only [List.flatMap_cons, List.length_append, ih, hexByte, List.length_cons, List.length_nil]
      omega
  rw [getMd5, pairs, Vector.length_toList]
  rfl

theorem length_octet_le (n : UInt8) : (octet n).length ≤ 3 :=
  (Nat.length_toDigits_le_iff (by decide) (by decide)).mpr (Nat.lt_trans n.toNat_lt (by decide))

theorem length_inetNtop_le (ip : Ipv4) : (inetNtop ip).length ≤ 15 := by
  have a := length_octet_le ip.a
  have b := length_octet_le ip.b
  have c := length_octet_le ip.c
  have d := length_octet_le ip.d
  simp only [inetNtop, List.length_append, List.length_cons]
  omega

theorem inetNtop_ne_nil (ip : Ipv4) : inetNtop ip ≠ [] := by
  simp [inetNtop]

theorem getMd5_ne_nil (digest : Digest) : getMd5 digest ≠ [] := by
  have length := length_getMd5 digest
  intro empty
  simp [empty, fileKeySize] at length

theorem field_of_plain {w : CString} (nonempty : w ≠ []) (plain : ∀ c ∈ w, isPlain c) : Field w := by
  -- none of the bytes that end a field is plain
  refine ⟨⟨?_, ?_, ?_⟩, nonempty, ?_⟩ <;> (intro member; exact absurd (plain _ member) (by decide))

theorem literal_field {w : CString} (nonempty : w ≠ []) (plain : w.all isPlain) : Field w :=
  field_of_plain nonempty fun c member => List.all_eq_true.mp plain c member

theorem inetNtop_field (ip : Ipv4) : Field (inetNtop ip) :=
  field_of_plain (inetNtop_ne_nil ip) fun _ => isPlain_of_mem_inetNtop

theorem getMd5_field (digest : Digest) : Field (getMd5 digest) :=
  field_of_plain (getMd5_ne_nil digest) fun _ => isPlain_of_mem_getMd5

theorem decimal_field (n : Int) : Field (decimal n) := by
  refine ⟨⟨?_, ?_, ?_⟩, decimal_ne_nil n, ?_⟩ <;> exact notMem_decimal n (by decide) (by decide)

/-- A text that does not start with a dash is an argument. -/
theorem argument_of_plain {w : CString} (plain : ∀ c ∈ w, isPlain c) : tokenKind w = .argument := by
  refine (tokenKind_argument_iff w).mpr (.inl ?_)
  intro dash
  exact absurd (plain _ (List.mem_of_head? dash)) (by decide)

/-- A number is an argument unless it is negative. -/
theorem argument_decimal_iff (n : Int) : tokenKind (decimal n) = .argument ↔ 0 ≤ n := by
  -- the other two kinds of arguments are `-` and `--`, and a number is neither
  rw [tokenKind_argument_iff, Ne, decimal_head]
  constructor
  · intro cases
    rcases cases with nonnegative | one | two
    · omega
    · -- behind the sign there is at least one digit
      cases n with
      | ofNat n => exact Int.natCast_nonneg n
      | negSucc n => simp [decimal] at one
    · cases n with
      | ofNat n => exact Int.natCast_nonneg n
      | negSucc n =>
        have digits : Nat.toDigits 10 (n + 1) = ['-'] := by simpa [decimal] using two
        have member : '-' ∈ Nat.toDigits 10 (n + 1) := by simp [digits]
        exact absurd (Nat.isDigit_of_mem_toDigits (by decide) (by decide) member) (by decide)
  · intro nonnegative
    exact .inl (by omega)

/-! ### The `file` message -/

/-- A text handed to `daemon_send` or `client_send`. -/
inductive Sent where
  | daemon (text : CString)
  | client (text : CString)
deriving DecidableEq, Repr

/-- The new cache and what was sent; nothing where a NULL is followed or memory is overrun. -/
def daemonRequestFile (listClient : Bool) (cache : FileCache) (cmd : CString) :
    Option (FileCache × List Sent) :=
  if !listClient then some (cache, [])
  else
    match cmdParse cmd none with
    | .error _ => some (cache, [.daemon "error daemon_request_file: Command parse failed".toList])
    | .ok pcmd =>
      match pcmd.argv with
      | _ :: name :: key :: size :: address :: _ => do
        -- a missing ':' makes `strchr` return NULL
        let port ← strchr address ':'
        let cache ← fileCacheAdd cache name key (atol size).toUInt64 (cutAt address ':') (atoi (port.drop 1))
        return (cache, [.client (" < ".toList ++ cmd ++ ['\n'])])
      | _ => some (cache, [.daemon "error daemon_request_file: Invalid number of arguments".toList])

/-- The fields of a `file` line that gets as far as the cache. -/
structure FileLine (cmd name key size ip port : CString) : Prop where
  argv : ∃ first rest, words isADelimiter cmd = first :: name :: key :: size :: (ip ++ ':' :: port) :: rest
  arguments : ∀ w ∈ words isADelimiter cmd, tokenKind w = .argument
  noColon : ':' ∉ ip

variable {cache cache' : FileCache} {cmd name key size ip port : CString} {sent : List Sent}
  {entry : FileEntry}

theorem FileLine.mem (fields : FileLine cmd name key size ip port) :
    name ∈ words isADelimiter cmd ∧ key ∈ words isADelimiter cmd ∧ size ∈ words isADelimiter cmd := by
  obtain ⟨first, rest, shape⟩ := fields.argv
  simp [shape]

/-- A line with all its fields is added to the cache. -/
theorem daemonRequestFile_adds (cache : FileCache) (fields : FileLine cmd name key size ip port) :
    daemonRequestFile true cache cmd =
      (fileCacheAdd cache name key (atol size).toUInt64 ip (atoi port)).map fun cache =>
        (cache, [.client (" < ".toList ++ cmd ++ ['\n'])]) := by
  obtain ⟨first, rest, shape⟩ := fields.argv
  have parsed : cmdParse cmd none = .ok ⟨[], words isADelimiter cmd⟩ :=
    (cmdParse_plain rfl).mpr ⟨rfl, by simp [shape], fields.arguments⟩
  simp only [daemonRequestFile, Bool.not_true, Bool.false_eq_true, if_false, parsed, shape,
    strchr_append fields.noColon, cutAt_append fields.noColon, Option.bind_eq_bind, Option.bind_some,
    List.drop_one, List.tail_cons]
  cases fileCacheAdd cache name key (atol size).toUInt64 ip (atoi port) <;> rfl

/-- A line changes the cache only through the fields that it has. -/
theorem daemonRequestFile_cases {listClient : Bool}
    (handled : daemonRequestFile listClient cache cmd = some (cache', sent)) :
    cache' = cache ∨ listClient = true ∧ ∃ name key size ip port, FileLine cmd name key size ip port ∧
      fileCacheAdd cache name key (atol size).toUInt64 ip (atoi port) = some cache' := by
  unfold daemonRequestFile at handled
  cases listClient with
  | false =>
    -- nobody waits for a list, so the line is dropped
    simp only [Bool.not_false, if_true, Option.some.injEq, Prod.mk.injEq] at handled
    exact .inl handled.1.symm
  | true =>
    simp only [Bool.not_true, Bool.false_eq_true, if_false] at handled
    split at handled
    next => exact .inl (Prod.mk.inj (Option.some.inj handled)).1.symm
    next pcmd parsed =>
      obtain ⟨rfl, -, arguments⟩ := (cmdParse_plain rfl).mp parsed
      split at handled
      next first name key size address rest shape =>
        -- without a colon the source follows a NULL
        cases found : strchr address ':' with
        | none => simp [found] at handled
        | some colon =>
          obtain ⟨ip, port, rfl, noColon, rfl⟩ := strchr_some found
          have fields : FileLine cmd name key size ip port := ⟨⟨first, rest, shape⟩, arguments, noColon⟩
          simp only [found, cutAt_append noColon] at handled
          cases added : fileCacheAdd cache name key (atol size).toUInt64 ip (atoi port) with
          | none => simp [added] at handled
          | some updated =>
            refine .inr ⟨rfl, name, key, size, ip, port, fields, ?_⟩
            have same : updated = cache' := by
              simp [added] at handled
              exact handled.1
            rw [added, same]
      next => exact .inl (Prod.mk.inj (Option.some.inj handled)).1.symm

/-- An entry that a line creates is made of the fields of that line. -/
theorem daemonRequestFile_creates {listClient : Bool} {key : CString}
    (handled : daemonRequestFile listClient cache cmd = some (cache', sent))
    (absent : fileCacheGetByKey cache key = none) (created : fileCacheGetByKey cache' key = some entry) :
    ∃ name size ip port, FileLine cmd name key size ip port ∧
      fileCacheNew name key (atol size).toUInt64 ip (atoi port) = some entry := by
  cases daemonRequestFile_cases handled with
  | inl same =>
    rw [same, absent] at created
    cases created
  | inr changed =>
    obtain ⟨-, name, key', size, ip, port, fields, added⟩ := changed
    -- an entry under another key was there before
    by_cases own : key' = key
    · subst own
      rw [getByKey_add_new added absent] at created
      exact ⟨name, size, ip, port, fields, created⟩
    · rw [getByKey_add_other added (Ne.symm own), absent] at created
      cases created

end Pire2Pire.Transfer
