import Pire2Pire.Md5.Rfc
import Pire2Pire.Md5.Streaming
import Pire2Pire.Transfer.PartialDigest

/-! The digest of octets that come in pieces (`util/md5/md5_algorithm.c`), and of a file (`util/md5/md5.c`). -/
namespace Pire2Pire.Md5

open Library

variable {w : Nat}

/-- `MD5Init`, `MD5Update` with one piece after the other, `MD5Final`. -/
def digest (w : Nat) (buffer : Block) (pieces : List Input) : Option (Vector UInt8 16) :=
  (exec md5Update (md5Init buffer : Context w) pieces).bind md5Final

/-- No piece takes `MD5Update` beyond it. -/
def FitsAll (done : Nat) : List Input → Prop
  | [] => True
  | piece :: pieces => Fits done piece ∧ FitsAll (done + piece.bytes.length) pieces

instance FitsAll.decidable : ∀ done pieces, Decidable (FitsAll done pieces)
  | _, [] => isTrue trivial
  | done, piece :: pieces =>
    have := FitsAll.decidable (done + piece.bytes.length) pieces
    inferInstanceAs (Decidable (_ ∧ _))

def message (pieces : List Input) : List UInt8 := pieces.flatMap Input.bytes

/-- What the words of `w` bits make of a message: the count is right, but only its four low octets are used of each
half. -/
def digestOf (w : Nat) (message : List UInt8) : Vector UInt8 16 :=
  (feed 64 (transform (w := w)) initialState (message ++ paddingOf message.length ++
    encode [BitVec.ofNat w (8 * message.length), BitVec.ofNat w (8 * message.length / 2 ^ w)])).1.digest

variable {context context' : Context w} {bytes : List UInt8} {input : Input} {pieces : List Input}

/-! ### Runs -/

theorem exec_absorbed (wide : 32 ≤ w) (absorbed : Absorbed context bytes) (pieces : List Input) :
    (FitsAll bytes.length pieces →
        ∃ context', exec md5Update context pieces = some context' ∧ Absorbed context' (bytes ++ message pieces)) ∧
      (¬FitsAll bytes.length pieces → exec md5Update context pieces = none) := by
  induction pieces generalizing context bytes with
  | nil => exact ⟨fun _ => ⟨context, rfl, by simpa [message] using absorbed⟩, fun beyond => absurd trivial beyond⟩
  | cons piece pieces ih =>
    have first := md5Update_absorbed wide absorbed piece
    by_cases fits : Fits bytes.length piece
    · obtain ⟨context₁, updated, absorbed₁⟩ := first.1 fits
      have rest := ih absorbed₁
      rw [List.length_append, List.append_assoc] at rest
      simp only [exec, updated, Option.bind_some, FitsAll, fits, true_and]
      exact rest
    · exact ⟨fun all => absurd all.1 fits, fun _ => by rw [exec, first.2 fits]; rfl⟩

/-! ### The end -/

theorem fits_small {n : Nat} (small : input.bytes.length < 2 ^ 29) : Fits n input := by
  unfold Fits
  omega

theorem toNat_padLen {index : BitVec 32} {n : Nat} (at_ : index.toNat = n % 64) :
    (if index < 56 then 56 - index else 120 - index).toNat = (paddingOf n).length := by
  have fifty : index < 56 ↔ n % 64 < 56 := by
    rw [BitVec.lt_def, at_]
    rfl
  have length : (paddingOf n).length = 1 + (119 - n % 64) % 64 := by
    rw [paddingOf, List.length_cons, List.length_replicate, Nat.add_comm]
  rw [length]
  split
  next small =>
    have below : index ≤ 56 := by
      rw [BitVec.le_def, at_]
      exact Nat.le_of_lt (fifty.mp small)
    rw [BitVec.toNat_sub_of_le below, at_]
    change 56 - n % 64 = _
    have := fifty.mp small
    omega
  next large =>
    have below : index ≤ 120 := by
      rw [BitVec.le_def, at_]
      change n % 64 ≤ 120
      omega
    rw [BitVec.toNat_sub_of_le below, at_]
    change 120 - n % 64 = _
    have := mt fifty.mpr large
    omega

theorem take_padding (n : Nat) : padding.take (paddingOf n).length = paddingOf n := by
  rw [padding, paddingOf, List.length_cons, List.length_replicate, List.take_succ_cons, List.take_replicate,
    Nat.min_eq_left (by omega)]

/-- The digest of what a context has absorbed. -/
theorem md5Final_eq (wide : 32 ≤ w) (absorbed : Absorbed context bytes) :
    md5Final context = some (feed 64 (transform (w := w)) initialState
      (bytes ++ paddingOf bytes.length ++ encode [context.count0, context.count1])).1.digest := by
  have padLen := toNat_padLen (toNat_index wide absorbed.count)
  have padded := take_padding bytes.length
  have tail : (encode [context.count0, context.count1]).length = 8 := length_encode _
  have short : (padding.take (paddingOf bytes.length).length).length < 2 ^ 29 := by
    rw [padded, paddingOf, List.length_cons, List.length_replicate]
    omega
  obtain ⟨context₁, updated₁, absorbed₁⟩ :=
    (md5Update_absorbed wide absorbed ⟨_, Nat.lt_trans short (by decide)⟩).1 (fits_small short)
  obtain ⟨context₂, updated₂, absorbed₂⟩ :=
    (md5Update_absorbed wide absorbed₁ ⟨encode [context.count0, context.count1], by omega⟩).1
      (fits_small (by dsimp only; omega))
  have fed := absorbed₂.fed
  dsimp only at fed
  rw [padded] at fed
  simp only [md5Final, padLen, bind, Option.bind, updated₁, updated₂, fed, pure]

/-! ### The count -/

/-- The upper word of the count counts on where the lower one overflows. -/
structure Counted (context : Context w) (n : Nat) : Prop where
  low : context.count0 = .ofNat w (8 * n)
  high : context.count1 = .ofNat w (8 * n / 2 ^ w)

theorem counted_init (buffer : Block) : Counted (md5Init buffer : Context w) 0 :=
  ⟨rfl, by rw [Nat.mul_zero, Nat.zero_div]; rfl⟩

theorem setWidth_length (wide : 32 ≤ w) (input : Input) :
    ((BitVec.ofNat 32 input.bytes.length).setWidth w).toNat = input.bytes.length := by
  have power : 2 ^ 32 ≤ 2 ^ w := Nat.pow_le_pow_right (by decide) wide
  rw [BitVec.toNat_setWidth, length_toNat, Nat.mod_eq_of_lt (Nat.lt_of_lt_of_le input.counted power)]

/-- The comparison that finds the overflow. -/
theorem overflow_iff (x y : BitVec w) : x + y < y ↔ 2 ^ w ≤ x.toNat + y.toNat := by
  have left := x.isLt
  have right := y.isLt
  rw [BitVec.lt_def, BitVec.toNat_add]
  by_cases carried : 2 ^ w ≤ x.toNat + y.toNat
  · rw [Nat.mod_eq_sub_mod carried, Nat.mod_eq_of_lt (by omega)]
    omega
  · rw [Nat.mod_eq_of_lt (by omega)]
    omega

/-- Either the shift by 29 gets the bits that the other one loses, or there are none. -/
theorem counted_update {n : Nat} (wide : 32 ≤ w) (fine : w = 32 ∨ input.bytes.length < 2 ^ 29)
    (counted : Counted context n) (updated : md5Update context input = some context')
    (low : context'.count0 = .ofNat w (8 * (n + input.bytes.length))) :
    Counted context' (n + input.bytes.length) := by
  refine ⟨low, ?_⟩
  have length := setWidth_length wide input
  have lost : 8 * input.bytes.length / 2 ^ w = input.bytes.length / 2 ^ 29 := by
    rcases fine with rfl | small
    · omega
    · have power : 2 ^ 32 ≤ 2 ^ w := Nat.pow_le_pow_right (by decide) wide
      rw [Nat.div_eq_of_lt (by omega), Nat.div_eq_of_lt small]
  have upper : (BitVec.ofNat 32 input.bytes.length).setWidth w >>> 29 = .ofNat w (input.bytes.length / 2 ^ 29) := by
    apply BitVec.eq_of_toNat_eq
    have below := Nat.lt_of_le_of_lt (Nat.div_le_self input.bytes.length (2 ^ 29)) (length ▸ BitVec.isLt _)
    rw [BitVec.toNat_ushiftRight, length, Nat.shiftRight_eq_div_pow, BitVec.toNat_ofNat, Nat.mod_eq_of_lt below]
  have carry : BitVec.ofNat w (8 * n) + (BitVec.ofNat 32 input.bytes.length).setWidth w <<< 3 <
      (BitVec.ofNat 32 input.bytes.length).setWidth w <<< 3 ↔
        2 ^ w ≤ 8 * n % 2 ^ w + 8 * input.bytes.length % 2 ^ w := by
    rw [overflow_iff, BitVec.toNat_shiftLeft, length, Nat.shiftLeft_eq, BitVec.toNat_ofNat,
      Nat.mul_comm input.bytes.length]
  rw [count1_update updated, counted.low, counted.high, upper, Nat.mul_add, Nat.add_div (Nat.two_pow_pos w), lost]
  simp only [carry]
  by_cases carried : 2 ^ w ≤ 8 * n % 2 ^ w + 8 * input.bytes.length % 2 ^ w
  · rw [if_pos carried, if_pos carried, BitVec.ofNat_add, BitVec.ofNat_add, BitVec.add_assoc, BitVec.add_assoc,
      BitVec.add_comm 1]
    rfl
  · rw [if_neg carried, if_neg carried, Nat.add_zero, BitVec.ofNat_add]

theorem exec_counted (wide : 32 ≤ w) (pieces : List Input) (fine : w = 32 ∨ ∀ p ∈ pieces, p.bytes.length < 2 ^ 29)
    (absorbed : Absorbed context bytes) (counted : Counted context bytes.length)
    (ran : exec md5Update context pieces = some context') :
    Counted context' (bytes ++ message pieces).length := by
  induction pieces generalizing context bytes with
  | nil =>
    cases ran
    simpa [message] using counted
  | cons piece pieces ih =>
    obtain ⟨context₁, updated, rest⟩ := exec_cons_some.mp ran
    have fits : Fits bytes.length piece := by
      by_contra beyond
      rw [(md5Update_absorbed wide absorbed piece).2 beyond] at updated
      cases updated
    obtain ⟨_, updated', absorbed₁⟩ := (md5Update_absorbed wide absorbed piece).1 fits
    cases updated.symm.trans updated'
    have small : w = 32 ∨ piece.bytes.length < 2 ^ 29 := fine.imp_right fun all => all piece List.mem_cons_self
    have low := absorbed₁.count
    rw [List.length_append] at low
    have counted₁ := counted_update wide small counted updated low
    rw [← List.length_append] at counted₁
    have whole := ih (fine.imp_right fun all p member => all p (List.mem_cons_of_mem _ member)) absorbed₁ counted₁ rest
    rwa [List.append_assoc] at whole

/-! ### The digest of pieces -/

/-- What comes out if `MD5Update` stays inside its inputs, where the count is kept right. -/
theorem digest_eq (wide : 32 ≤ w) (buffer : Block) (pieces : List Input)
    (fine : w = 32 ∨ ∀ p ∈ pieces, p.bytes.length < 2 ^ 29) :
    digest w buffer pieces = if FitsAll 0 pieces then some (digestOf w (message pieces)) else none := by
  have ran := exec_absorbed wide (absorbed_init buffer) pieces
  by_cases fits : FitsAll 0 pieces
  · obtain ⟨context, finished, absorbed⟩ := ran.1 fits
    have counted := exec_counted wide pieces fine (absorbed_init buffer) (counted_init buffer) finished
    rw [List.nil_append] at absorbed counted
    rw [digest, finished, Option.bind_some, md5Final_eq wide absorbed, if_pos fits, counted.low, counted.high]
    rfl
  · rw [digest, ran.2 fits, if_neg fits]
    rfl

theorem fitsAll_small (small : ∀ p ∈ pieces, p.bytes.length < 2 ^ 29) (done : Nat) : FitsAll done pieces := by
  induction pieces generalizing done with
  | nil => trivial
  | cons piece pieces ih =>
    exact ⟨fits_small (small piece List.mem_cons_self), ih (fun p member => small p (List.mem_cons_of_mem _ member)) _⟩

/-! ### Words of 32 bits -/

theorem transform_eq (state : State 32) (whole : bytes.length = 64) : transform state bytes = compress state bytes := by
  rw [transform, dif_pos whole, md5Transform_eq]

theorem feed_eq (state : State 32) (bytes : List UInt8) :
    feed 64 transform state bytes = feed 64 compress state bytes := by
  fun_induction feed 64 (transform (w := 32)) state bytes with
  | case1 state bytes whole ih =>
    rw [ih, transform_eq state (List.length_take_of_le whole.2), feed.eq_def 64 compress state, if_pos whole]
  | case2 state bytes short => rw [feed, if_neg short]

/-- An octet of a word. -/
theorem octet_eq (n : Nat) {k : Nat} (inside : k + 8 ≤ 32) :
    UInt8.ofBitVec (((BitVec.ofNat 32 n >>> k) &&& 0xff).setWidth 8) = .ofNat (n / 2 ^ k) := by
  obtain ⟨j, same⟩ := Nat.exists_eq_add_of_le inside
  have split : 2 ^ 32 = 2 ^ k * (2 ^ 8 * 2 ^ j) := by
    rw [← Nat.pow_add, ← Nat.pow_add, same, Nat.add_assoc]
  apply UInt8.toNat_inj.mp
  have mask : (0xff : Word).toNat = 2 ^ 8 - 1 := rfl
  rw [UInt8.toNat_ofBitVec, BitVec.toNat_setWidth, BitVec.toNat_and, mask, Nat.and_two_pow_sub_one_eq_mod,
    BitVec.toNat_ushiftRight, Nat.shiftRight_eq_div_pow, BitVec.toNat_ofNat, split, Nat.mod_mul_right_div_self,
    Nat.mod_mod, Nat.mod_mod_of_dvd _ (Dvd.intro _ rfl), UInt8.toNat_ofNat']

theorem encode_count (n : Nat) :
    encode [BitVec.ofNat 32 (8 * n), BitVec.ofNat 32 (8 * n / 2 ^ 32)] = lengthOctets n := by
  have first (m : Nat) : UInt8.ofBitVec ((BitVec.ofNat 32 m &&& 0xff).setWidth 8) = .ofNat m := by
    simpa using octet_eq m (show 0 + 8 ≤ 32 by decide)
  simp only [encode, lengthOctets, List.range, List.range.loop, List.map_cons, List.map_nil, first,
    octet_eq _ (show 8 + 8 ≤ 32 by decide), octet_eq _ (show 16 + 8 ≤ 32 by decide),
    octet_eq _ (show 24 + 8 ≤ 32 by decide), Nat.div_div_eq_div_mul, Nat.reducePow, Nat.reduceMul, Nat.div_one]

theorem digestOf_eq (message : List UInt8) : digestOf 32 message = md5 message := by
  rw [digestOf, md5, feed_eq, encode_count]

/-! ### The results -/

/-- With words of 32 bits the digest is that of the specification, in whatever pieces the message comes, as long as
`MD5Update` stays inside each of them; and if it does not, it reads beyond one. -/
theorem digest_eq_md5 (buffer : Block) (pieces : List Input) :
    digest 32 buffer pieces = if FitsAll 0 pieces then some (md5 (message pieces)) else none := by
  rw [digest_eq (by decide) buffer pieces (.inl rfl), digestOf_eq]

/-! ### Files -/

/-- `while ((len = fread (buffer, 1, 1024, file)) != 0)` -/
def mdFileLoop (context : Context w) (file : List UInt8) : Option (Context w) :=
  if file = [] then some context
  else do
    let context ← md5Update context ⟨file.take 1024, by
      rw [List.length_take]
      omega⟩
    mdFileLoop context (file.drop 1024)
termination_by file.length
decreasing_by
  have some_ := List.length_pos_iff.mpr ‹file ≠ []›
  rw [List.length_drop]
  omega

/-- `MDFile`, of a file that can be opened. -/
def mdFile (w : Nat) (buffer : Block) (file : List UInt8) : Option (Vector UInt8 16) :=
  (mdFileLoop (md5Init buffer : Context w) file).bind md5Final

/-- The pieces that `fread` gives. -/
def readings (file : List UInt8) : List Input :=
  if file = [] then []
  else ⟨file.take 1024, by
    rw [List.length_take]
    omega⟩ :: readings (file.drop 1024)
termination_by file.length
decreasing_by
  have some_ := List.length_pos_iff.mpr ‹file ≠ []›
  rw [List.length_drop]
  omega

theorem mdFileLoop_eq (context : Context w) (file : List UInt8) :
    mdFileLoop context file = exec md5Update context (readings file) := by
  fun_induction readings file generalizing context with
  | case1 => rw [mdFileLoop, if_pos rfl, exec]
  | case2 file some_ ih =>
    rw [mdFileLoop, if_neg some_, exec]
    exact congrArg _ (funext fun context => ih context)

theorem message_readings (file : List UInt8) : message (readings file) = file := by
  fun_induction readings file with
  | case1 => rfl
  | case2 file some_ ih =>
    rw [message, List.flatMap_cons]
    exact (congrArg (file.take 1024 ++ ·) ih).trans (List.take_append_drop 1024 file)

theorem readings_small (file : List UInt8) : ∀ p ∈ readings file, p.bytes.length < 2 ^ 29 := by
  fun_induction readings file with
  | case1 => simp
  | case2 file some_ ih =>
    intro p member
    rcases List.mem_cons.mp member with rfl | later
    · rw [List.length_take]
      omega
    · exact ih p later

/-- The specified digest, as a hash of what has come so far. -/
def specified : StreamingHash (List UInt8) (Vector UInt8 16) where
  init := []
  update := (· ++ ·)
  final := md5
  hash := md5
  final_updates pieces := by
    rw [← List.nil_append pieces.flatten]
    generalize ([] : List UInt8) = done
    induction pieces generalizing done with
    | nil => rw [List.foldl_nil, List.flatten_nil, List.append_nil]
    | cons piece pieces ih => rw [List.foldl_cons, ih, List.flatten_cons, List.append_assoc]

/-- Whatever the width of the words and whatever was in the buffer, the digest of a file is there and depends on nothing
but its octets; with words of 32 bits it is the specified one. -/
theorem file_digested (wide : 32 ≤ w) (buffer : Block) (file : List UInt8) :
    mdFile w buffer file = some (digestOf w file) ∧
      (w = 32 → mdFile w buffer file = PartialDigest.mdFile specified (some file)) := by
  have pieces := digest_eq wide buffer (readings file) (.inr (readings_small file))
  rw [if_pos (fitsAll_small (readings_small file) 0), message_readings] at pieces
  have whole : mdFile w buffer file = some (digestOf w file) := by
    rw [mdFile, mdFileLoop_eq]
    exact pieces
  refine ⟨whole, ?_⟩
  rintro rfl
  rw [whole, digestOf_eq, PartialDigest.mdFile_eq]
  rfl

def anyBlock : Block := ⟨List.replicate 64 7, List.length_replicate⟩

theorem file_digested_wide :
    mdFile 64 anyBlock [1, 2, 3] = some (digestOf 64 [1, 2, 3]) ∧
      (64 = 32 → mdFile 64 anyBlock [1, 2, 3] = PartialDigest.mdFile specified (some [1, 2, 3])) :=
  file_digested (by decide) anyBlock [1, 2, 3]

/-- With words of 64 bits the digest is another one, already for an empty file. -/
theorem wide_words_differ : digestOf 64 [] ≠ md5 [] := by
  have single (w : Nat) : digestOf w [] = (transform (w := w) initialState (paddingOf 0 ++
      encode [BitVec.ofNat w 0, BitVec.ofNat w 0])).digest := by
    have block : (paddingOf 0 ++ encode [BitVec.ofNat w 0, BitVec.ofNat w 0]).length = 64 := by
      rw [List.length_append, length_encode]
      rfl
    have rest : feed 64 (transform (w := w)) initialState
        (paddingOf 0 ++ encode [BitVec.ofNat w 0, BitVec.ofNat w 0] ++ []) = _ := feed_block (by decide) block []
    rw [List.append_nil, feed_short (by decide : ([] : List UInt8).length < 64)] at rest
    simp only [digestOf, List.length_nil, Nat.mul_zero, Nat.zero_div, List.nil_append, rest]
  rw [← digestOf_eq, single, single]
  decide +kernel

end Pire2Pire.Md5
