import Pire2Pire.Library.CString
import Pire2Pire.Library.StreamingHash

/-! The digests of a file and of a part of it (`util/md5/md5.c`). A file is its bytes, or cannot be opened; `fread`
reads less than it is asked for only at the end of the file. -/
namespace Pire2Pire.PartialDigest

open Library

variable {Context Digest : Type}

/-- The size of `buffer`. -/
def bufferSize : Nat := 1024

/-- `while ((len = fread (buffer, 1, 1024, file)) != 0)` -/
def mdFileLoop (h : StreamingHash Context Digest) (context : Context) (file : List UInt8) : Context :=
  if file = [] then context
  else mdFileLoop h (h.update context (file.take bufferSize)) (file.drop bufferSize)
termination_by file.length
decreasing_by
  have some_ := List.length_pos_iff.mpr ‹file ≠ []›
  rw [List.length_drop, bufferSize]
  omega

/-- Without a file `digest` is left as it was. -/
def mdFile (h : StreamingHash Context Digest) (file : Option (List UInt8)) : Option Digest :=
  file.map fun bytes => h.final (mdFileLoop h h.init bytes)

/-- `while (beginning > 1024)`, with the text for `perror` where the program exits. -/
def skipLoop (beginning : Nat) (file : List UInt8) : Except CString (Nat × List UInt8) :=
  if bufferSize < beginning then
    if file.take bufferSize = [] then .error "End of file".toList
    else skipLoop (beginning - bufferSize) (file.drop bufferSize)
  else .ok (beginning, file)
termination_by beginning
decreasing_by
  rw [bufferSize] at *
  omega

/-- `while (size > 1024)` -/
def readLoop (h : StreamingHash Context Digest) (context : Context) (size : Nat) (file : List UInt8) :
    Except CString (Context × Nat × List UInt8) :=
  if bufferSize < size then
    if file.take bufferSize = [] then .error "End of file".toList
    else readLoop h (h.update context (file.take bufferSize)) (size - bufferSize) (file.drop bufferSize)
  else .ok (context, size, file)
termination_by size
decreasing_by
  rw [bufferSize] at *
  omega

/-- What is done with an open file. -/
def digestPart (h : StreamingHash Context Digest) (file : List UInt8) (beginning size : Nat) :
    Except CString Digest := do
  let (beginning, file) ← skipLoop beginning file
  if file.take (beginning - 1) = [] then throw "End of file".toList
  let (context, size, file) ← readLoop h h.init size (file.drop (beginning - 1))
  if file.take size = [] then throw "End of file before end".toList
  return h.final (h.update context (file.take size))

/-- No result where `size` is out of range, or where `beginning - 1` is negative and so more than `buffer` can hold. -/
def mdPartOfFile (h : StreamingHash Context Digest) (file : Option (List UInt8)) (beginning end_ : Int32) :
    Option (Except CString Digest) :=
  let size := end_.toInt - beginning.toInt
  if size < -2 ^ 31 ∨ 2 ^ 31 ≤ size then none
  else
    match file with
    | none => some (.error "file can't be opened\n".toList)
    | some bytes =>
      if size < 0 then some (.error "Negative size".toList)
      else if beginning.toInt < 1 then none
      else some (digestPart h bytes beginning.toInt.toNat size.toNat)

/-- The octets `beginning` to `end_ - 1`, numbered from 1. -/
def octets (bytes : List UInt8) (beginning end_ : Nat) : List UInt8 :=
  (bytes.drop (beginning - 1)).take (end_ - beginning)

variable {h : StreamingHash Context Digest} {context : Context} {file bytes done : List UInt8} {beginning size : Nat}

theorem take_bufferSize_ne_nil (some_ : file ≠ []) : file.take bufferSize ≠ [] := by
  intro empty
  rcases List.take_eq_nil_iff.mp empty with zero | none_
  · exact absurd zero (by decide)
  · exact some_ none_

/-! ### The whole file -/

theorem mdFileLoop_absorbed (absorbed : h.Absorbed context done) (file : List UInt8) :
    h.Absorbed (mdFileLoop h context file) (done ++ file) := by
  fun_induction mdFileLoop h context file generalizing done with
  | case1 context => simpa using absorbed
  | case2 context file some_ ih =>
    have next := ih (absorbed.update (file.take bufferSize))
    rwa [List.append_assoc, List.take_append_drop] at next

theorem mdFile_eq (h : StreamingHash Context Digest) (bytes : List UInt8) :
    mdFile h (some bytes) = some (h.hash bytes) := by
  have whole := mdFileLoop_absorbed h.absorbed_init bytes
  rw [mdFile, Option.map_some, whole.final, List.nil_append]

/-! ### A part of the file -/

/-- What is left to skip is between 1 and the size of the buffer, and the rest is behind the cursor. -/
theorem skipLoop_ok (file : List UInt8) (first : 1 ≤ beginning) (inside : beginning ≤ file.length) :
    ∃ skipped, skipLoop beginning file = .ok (beginning - skipped, file.drop skipped) ∧
      bufferSize ∣ skipped ∧ skipped < beginning ∧ beginning - skipped ≤ bufferSize := by
  fun_induction skipLoop beginning file with
  | case1 beginning file more ended =>
    have nonempty : file ≠ [] := List.length_pos_iff.mp (by omega)
    exact absurd ended (take_bufferSize_ne_nil nonempty)
  | case2 beginning file more some_ ih =>
    obtain ⟨skipped, ran, blocks, before, last⟩ := ih (by omega) (by rw [List.length_drop]; omega)
    refine ⟨bufferSize + skipped, ?_, ?_, ?_, ?_⟩
    · rw [ran, List.drop_drop, Nat.sub_sub]
    · exact Nat.dvd_add (Nat.dvd_refl _) blocks
    · omega
    · omega
  | case3 beginning file last =>
    exact ⟨0, rfl, Nat.dvd_zero _, first, by omega⟩

/-- All but the last piece of the part has been read. -/
theorem readLoop_ok (file : List UInt8) (absorbed : h.Absorbed context done) (positive : 1 ≤ size)
    (inside : size ≤ file.length) :
    ∃ context' read, readLoop h context size file = .ok (context', size - read, file.drop read) ∧
      h.Absorbed context' (done ++ file.take read) ∧ read < size := by
  fun_induction readLoop h context size file generalizing done with
  | case1 context size file more ended =>
    have nonempty : file ≠ [] := List.length_pos_iff.mp (by omega)
    exact absurd ended (take_bufferSize_ne_nil nonempty)
  | case2 context size file more some_ ih =>
    obtain ⟨context', read, ran, absorbed', before⟩ :=
      ih (absorbed.update (file.take bufferSize)) (by omega) (by rw [List.length_drop]; omega)
    refine ⟨context', bufferSize + read, ?_, ?_, ?_⟩
    · rw [ran, List.drop_drop, Nat.sub_sub]
    · rwa [List.append_assoc, ← List.take_add] at absorbed'
    · omega
  | case3 context size file last =>
    exact ⟨context, 0, rfl, by simpa using absorbed, positive⟩

/-- The part is digested, but for a beginning that leaves nothing for the last read in front of it. -/
theorem digestPart_eq (first : 1 ≤ beginning) (positive : 1 ≤ size)
    (inside : beginning - 1 + size ≤ file.length) :
    digestPart h file beginning size =
      if beginning % bufferSize = 1 then .error "End of file".toList
      else .ok (h.hash ((file.drop (beginning - 1)).take size)) := by
  obtain ⟨skipped, skips, blocks, before, last⟩ := skipLoop_ok file first (by omega)
  have size_ : bufferSize = 1024 := rfl
  have left : beginning % bufferSize = 1 ↔ beginning - skipped = 1 := by
    obtain ⟨k, rfl⟩ := blocks
    rw [size_] at *
    omega
  rw [digestPart, skips]
  simp only [bind, Except.bind]
  by_cases nothing : beginning - skipped = 1
  · -- `fread` of no bytes returns 0
    rw [if_pos (left.mpr nothing), nothing, if_pos (List.take_zero)]
    rfl
  · rw [if_neg fun same => nothing (left.mp same)]
    have some_ : (file.drop skipped).take (beginning - skipped - 1) ≠ [] := by
      rw [← List.length_pos_iff, List.length_take, List.length_drop]
      omega
    have there : skipped + (beginning - skipped - 1) = beginning - 1 := by omega
    obtain ⟨context, read, reads, absorbed, unread⟩ :=
      readLoop_ok (file.drop (beginning - 1)) h.absorbed_init positive (by rw [List.length_drop]; omega)
    have rest : ((file.drop (beginning - 1)).drop read).take (size - read) ≠ [] := by
      rw [← List.length_pos_iff, List.length_take, List.length_drop, List.length_drop]
      omega
    rw [if_neg some_, List.drop_drop, there]
    simp only [pure, Except.pure, reads]
    rw [if_neg rest, (absorbed.update _).final, List.nil_append, ← List.take_add, Nat.add_sub_cancel' (by omega)]

theorem mdPartOfFile_eq (h : StreamingHash Context Digest) {beginning end_ : Int32} (first : 1 ≤ beginning.toInt)
    (some_ : beginning.toInt < end_.toInt) (inside : end_.toInt ≤ bytes.length + 1) :
    mdPartOfFile h (some bytes) beginning end_ =
      if beginning.toInt.toNat % bufferSize = 1 then some (.error "End of file".toList)
      else some (.ok (h.hash (octets bytes beginning.toInt.toNat end_.toInt.toNat))) := by
  have high := end_.toInt_lt
  have inRange : ¬(end_.toInt - beginning.toInt < -2 ^ 31 ∨ 2 ^ 31 ≤ end_.toInt - beginning.toInt) := by omega
  have positive : ¬end_.toInt - beginning.toInt < 0 := by omega
  have counted : ¬beginning.toInt < 1 := by omega
  have size : (end_.toInt - beginning.toInt).toNat = end_.toInt.toNat - beginning.toInt.toNat := by omega
  simp only [mdPartOfFile, if_neg inRange, if_neg positive, if_neg counted, size]
  rw [digestPart_eq (by omega) (by omega) (by omega), apply_ite some]
  rfl

/-- A part is digested iff its first octet is not the first behind a number of full buffers; so the whole file, whose
first octet is 1, never is. -/
theorem part_digested_iff (h : StreamingHash Context Digest) (bytes : List UInt8) (beginning end_ : Int32)
    (first : 1 ≤ beginning.toInt) (some_ : beginning.toInt < end_.toInt) (inside : end_.toInt ≤ bytes.length + 1) :
    (mdPartOfFile h (some bytes) beginning end_ =
        some (.ok (h.hash (octets bytes beginning.toInt.toNat end_.toInt.toNat))) ↔
      beginning.toInt % 1024 ≠ 1) ∧
    (beginning.toInt = 1 → end_.toInt = bytes.length + 1 →
      mdPartOfFile h (some bytes) beginning end_ ≠ (mdFile h (some bytes)).map .ok) := by
  have behindBuffers : beginning.toInt.toNat % bufferSize = 1 ↔ beginning.toInt % 1024 = 1 := by
    rw [bufferSize]
    omega
  rw [mdPartOfFile_eq h first some_ inside]
  simp only [behindBuffers]
  constructor
  · by_cases nothing : beginning.toInt % 1024 = 1
    · simp [nothing]
    · simp [nothing]
  · intro one _
    rw [if_pos (by omega), mdFile_eq]
    simp

/-- The exclusive or of the octets. -/
def parity : StreamingHash UInt8 UInt8 :=
  .ofFold (· ^^^ ·) 0 id

theorem second_octet_digested :
    mdPartOfFile parity (some [1, 2, 4]) 2 4 = some (.ok (parity.hash (octets [1, 2, 4] 2 4))) :=
  (part_digested_iff parity [1, 2, 4] 2 4 (by decide) (by decide) (by decide)).1.mpr (by decide)

/-- From the first octet on, nothing is digested. -/
theorem first_octet_aborts :
    ¬ ∀ (bytes : List UInt8) (beginning end_ : Int32), 1 ≤ beginning.toInt → beginning.toInt < end_.toInt →
      end_.toInt ≤ bytes.length + 1 → mdPartOfFile parity (some bytes) beginning end_ =
        some (.ok (parity.hash (octets bytes beginning.toInt.toNat end_.toInt.toNat))) := by
  intro digested
  have whole := digested [1, 2, 4] 1 4 (by decide) (by decide) (by decide)
  rw [mdPartOfFile_eq parity (by decide) (by decide) (by decide), if_pos (by decide)] at whole
  cases whole

end Pire2Pire.PartialDigest
