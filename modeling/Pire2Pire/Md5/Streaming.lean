import Pire2Pire.Library.BlockHash
import Pire2Pire.Library.Runs
import Pire2Pire.Md5.Algorithm

/-! `MD5Update` and `MD5Final`: what they read and write, and that a context only knows what it was given, not in which
pieces. -/
namespace Pire2Pire.Md5

open Library

variable {w : Nat}

/-- The transformation, of 64 octets. -/
def transform (state : State w) (bytes : List UInt8) : State w :=
  if whole : bytes.length = 64 then md5Transform state ⟨bytes, whole⟩ else state

/-- The loop of `MD5Update` does not go beyond the input: either nothing waits in the buffer, or what waits and the
input are together fewer octets than an `unsigned int` can count. -/
def Fits (done : Nat) (input : Input) : Prop :=
  done % 64 = 0 ∨ done % 64 + input.bytes.length < 2 ^ 32

instance (done : Nat) (input : Input) : Decidable (Fits done input) :=
  inferInstanceAs (Decidable (_ ∨ _))

/-- The context that has got these octets. -/
structure Absorbed (context : Context w) (bytes : List UInt8) : Prop where
  count : context.count0 = .ofNat w (8 * bytes.length)
  fed : feed 64 transform initialState bytes = (context.state, context.buffer.bytes.take (bytes.length % 64))

variable {context context' : Context w} {bytes : List UInt8} {input : Input} {state : State w} {buffer : Block}
  {n index : Nat}

theorem transform_block (state : State w) (block : Block) : transform state block.bytes = md5Transform state block := by
  rw [transform, dif_pos block.length]

theorem feed_whole (state : State w) (whole : 64 ≤ bytes.length) :
    feed 64 transform state bytes =
      feed 64 transform (md5Transform state ⟨bytes.take 64, List.length_take_of_le whole⟩) (bytes.drop 64) := by
  rw [← transform_block]
  exact (congrArg (feed 64 transform state) (List.take_append_drop 64 bytes).symm).trans
    (feed_block (by decide) (List.length_take_of_le whole) _)

/-! ### The buffer -/

theorem md5Memcpy_eq (buffer : Block) (fits : index + bytes.length ≤ 64) :
    ∃ buffer', md5Memcpy buffer index bytes = some buffer' ∧
      buffer'.bytes.take (index + bytes.length) = buffer.bytes.take index ++ bytes := by
  refine ⟨_, dif_pos fits, ?_⟩
  have front : (buffer.bytes.take index ++ bytes).length = index + bytes.length := by
    rw [List.length_append, List.length_take, buffer.length]
    omega
  exact List.take_left' front

/-- The number of octets that wait in the buffer. -/
theorem toNat_index (wide : 32 ≤ w) (count : context.count0 = .ofNat w (8 * n)) : context.index.toNat = n % 64 := by
  obtain ⟨k, rfl⟩ := Nat.exists_eq_add_of_le wide
  have power : 2 ^ (32 + k) = 8 * (64 * 2 ^ (23 + k)) := by
    rw [show 32 + k = 3 + (6 + (23 + k)) by omega, Nat.pow_add, Nat.pow_add]
  have mask : (0x3f : BitVec (32 + k)).toNat = 2 ^ 6 - 1 := by
    have positive := Nat.two_pow_pos (23 + k)
    have literal : (0x3f : BitVec (32 + k)) = BitVec.ofNat (32 + k) 63 := rfl
    rw [literal, BitVec.toNat_ofNat, Nat.mod_eq_of_lt (by omega)]
    rfl
  have low : (((context.count0 >>> 3) &&& 0x3f : BitVec (32 + k))).toNat = n % 64 := by
    rw [BitVec.toNat_and, mask, Nat.and_two_pow_sub_one_eq_mod, BitVec.toNat_ushiftRight, count, BitVec.toNat_ofNat,
      power, Nat.mul_mod_mul_left, Nat.shiftRight_eq_div_pow, Nat.mul_div_cancel_left _ (by decide)]
    exact Nat.mod_mod_of_dvd n (Dvd.intro _ rfl)
  rw [Context.index, BitVec.toNat_setWidth, low]
  omega

/-! ### The loop over the whole blocks of the input -/

/-- The test of the loop, in which `i + 63` may wrap around. -/
theorem more_iff {inputLen : BitVec 32} (length : inputLen.toNat = input.bytes.length) (i : BitVec 32) :
    i + 63 < inputLen ↔ (i.toNat + 63) % 2 ^ 32 < input.bytes.length := by
  rw [BitVec.lt_def, BitVec.toNat_add, length]
  rfl

/-- The loop stops at the last octets that are not a whole block, unless it gets to the end of the numbers before. -/
theorem transformLoop_eq (state : State w) {inputLen i : BitVec 32} (length : inputLen.toNat = input.bytes.length)
    (inside : i.toNat ≤ input.bytes.length) :
    transformLoop input inputLen state i =
      if input.bytes.length - (input.bytes.length - i.toNat) % 64 + 63 < 2 ^ 32 then
        some ((feed 64 transform state (input.bytes.drop i.toNat)).1,
          .ofNat 32 (input.bytes.length - (input.bytes.length - i.toNat) % 64))
      else none := by
  have counted := input.counted
  fun_induction transformLoop input inputLen state i with
  | case1 state i more fits ih =>
    have next : (i + 64).toNat = i.toNat + 64 := by
      rw [BitVec.toNat_add]
      exact Nat.mod_eq_of_lt (Nat.lt_of_le_of_lt fits counted)
    have rest : (input.bytes.length - (i.toNat + 64)) % 64 = (input.bytes.length - i.toNat) % 64 := by omega
    have block : 64 ≤ (input.bytes.drop i.toNat).length := by
      rw [List.length_drop]
      omega
    rw [ih (by omega), next, rest, feed_whole state block, List.drop_drop]
  | case2 state i more outside =>
    rw [more_iff length] at more
    rw [if_neg (by omega)]
  | case3 state i last =>
    rw [more_iff length] at last
    have short : (input.bytes.drop i.toNat).length < 64 := by
      rw [List.length_drop]
      omega
    have here : input.bytes.length - (input.bytes.length - i.toNat) % 64 = i.toNat := by omega
    rw [if_pos (by omega), feed_short short, here, BitVec.ofNat_toNat, BitVec.setWidth_eq]

/-! ### Updates -/

theorem length_toNat (input : Input) : (BitVec.ofNat 32 input.bytes.length).toNat = input.bytes.length := by
  rw [BitVec.toNat_ofNat, Nat.mod_eq_of_lt input.counted]

theorem count_update (wide : 32 ≤ w) (count : context.count0 = .ofNat w (8 * n)) (input : Input) :
    context.count0 + (BitVec.ofNat 32 input.bytes.length).setWidth w <<< 3 =
      .ofNat w (8 * (n + input.bytes.length)) := by
  have counted := input.counted
  have power : 2 ^ 32 ≤ 2 ^ w := Nat.pow_le_pow_right (by decide) wide
  apply BitVec.eq_of_toNat_eq
  rw [count, BitVec.toNat_add, BitVec.toNat_shiftLeft, BitVec.toNat_setWidth, length_toNat, Nat.shiftLeft_eq,
    BitVec.toNat_ofNat, BitVec.toNat_ofNat, Nat.mod_eq_of_lt (Nat.lt_of_lt_of_le counted power)]
  rw [← Nat.add_mod, Nat.mul_add, Nat.mul_comm input.bytes.length]

/-- A slice that is there. -/
theorem slice_eq {i len : BitVec 32} (inside : i.toNat + len.toNat ≤ input.bytes.length) :
    input.slice i len = some ((input.bytes.drop i.toNat).take len.toNat) :=
  if_pos inside

theorem fits_iff (full : 64 ≤ n % 64 + input.bytes.length) :
    Fits n input ↔
      input.bytes.length - (input.bytes.length - (64 - n % 64)) % 64 + 63 < 2 ^ 32 := by
  have counted := input.counted
  unfold Fits
  omega

/-- What is fed behind the octets that wait, when they become a block together with the first of the input. -/
theorem feed_filled (held : List UInt8) (filled : buffer.bytes = held ++ bytes.take (64 - held.length)) :
    feed 64 transform state (held ++ bytes) =
      feed 64 transform (md5Transform state buffer) (bytes.drop (64 - held.length)) := by
  have block : (held ++ bytes.take (64 - held.length)).length = 64 := filled ▸ buffer.length
  rw [← transform_block, filled, ← feed_block (by decide) block, List.append_assoc, List.take_append_drop]

theorem length_held (buffer : Block) (n : Nat) : (buffer.bytes.take (n % 64)).length = n % 64 := by
  rw [List.length_take, buffer.length]
  omega

theorem toNat_partLen (index : context.index.toNat = n % 64) : (64 - context.index).toNat = 64 - n % 64 := by
  have below : context.index ≤ 64 := by
    rw [BitVec.le_def, index]
    change _ ≤ 64
    omega
  rw [BitVec.toNat_sub_of_le below, index]
  rfl

/-- An input that does not fill the buffer. -/
theorem md5Update_short (wide : 32 ≤ w) (absorbed : Absorbed context bytes)
    (short : bytes.length % 64 + input.bytes.length < 64) :
    ∃ context', md5Update context input = some context' ∧ Absorbed context' (bytes ++ input.bytes) := by
  have index := toNat_index wide absorbed.count
  have len := length_toNat input
  have test : ¬(64 - context.index ≤ BitVec.ofNat 32 input.bytes.length) := by
    rw [BitVec.le_def, toNat_partLen index, len]
    omega
  have room : bytes.length % 64 + input.bytes.length ≤ 64 := Nat.le_of_lt short
  obtain ⟨buffer, copied, front⟩ := md5Memcpy_eq context.buffer room
  have all : BitVec.ofNat 32 input.bytes.length - 0 = BitVec.ofNat 32 input.bytes.length := BitVec.sub_zero _
  have whole : input.slice 0 (BitVec.ofNat 32 input.bytes.length - 0) = some input.bytes := by
    rw [all, slice_eq (by rw [len]; exact Nat.le_of_eq (Nat.zero_add _)), len]
    exact congrArg some List.take_length
  refine ⟨_, by simp only [md5Update, if_neg test, whole, index, copied, bind, Option.bind, pure]; rfl, ?_, ?_⟩
  · rw [List.length_append]
    exact count_update wide absorbed.count input
  · have length : (bytes ++ input.bytes).length % 64 = bytes.length % 64 + input.bytes.length := by
      rw [List.length_append]
      omega
    rw [feed_append, absorbed.fed, feed_short (by rw [List.length_append, length_held]; exact short), length, front]

/-- What is left behind the whole blocks goes to the front of the buffer. -/
theorem copy_rest (block : Block) {p : Nat} (inside : p ≤ input.bytes.length) (short : input.bytes.length - p < 64) :
    ∃ rest buffer, input.slice (.ofNat 32 p) (.ofNat 32 input.bytes.length - .ofNat 32 p) = some rest ∧
      md5Memcpy block 0 rest = some buffer ∧ buffer.bytes.take (input.bytes.length - p) = input.bytes.drop p := by
  have counted := input.counted
  have len := length_toNat input
  have start : (BitVec.ofNat 32 p).toNat = p := by
    rw [BitVec.toNat_ofNat, Nat.mod_eq_of_lt (by omega)]
  have left : (BitVec.ofNat 32 input.bytes.length - BitVec.ofNat 32 p).toNat = input.bytes.length - p := by
    rw [BitVec.toNat_sub_of_le (by rw [BitVec.le_def, start, len]; exact inside), start, len]
  have all : (input.bytes.drop p).take (input.bytes.length - p) = input.bytes.drop p :=
    List.take_of_length_le (Nat.le_of_eq List.length_drop)
  have room : 0 + (input.bytes.drop p).length ≤ 64 := by
    rw [List.length_drop]
    omega
  obtain ⟨buffer, copied, front⟩ := md5Memcpy_eq block room
  refine ⟨input.bytes.drop p, buffer, ?_, copied, ?_⟩
  · rw [slice_eq (by rw [start, left]; omega), start, left, all]
  · rw [List.length_drop, Nat.zero_add] at front
    exact front

/-- An input that fills the buffer. -/
theorem md5Update_full (wide : 32 ≤ w) (absorbed : Absorbed context bytes)
    (full : 64 ≤ bytes.length % 64 + input.bytes.length) :
    (Fits bytes.length input →
        ∃ context', md5Update context input = some context' ∧ Absorbed context' (bytes ++ input.bytes)) ∧
      (¬Fits bytes.length input → md5Update context input = none) := by
  have index := toNat_index wide absorbed.count
  have len := length_toNat input
  have part := toNat_partLen index
  have held := length_held context.buffer bytes.length
  have test : 64 - context.index ≤ BitVec.ofNat 32 input.bytes.length := by
    rw [BitVec.le_def, part, len]
    omega
  have first : input.slice 0 (64 - context.index) = some (input.bytes.take (64 - bytes.length % 64)) := by
    rw [slice_eq (by rw [part]; change 0 + _ ≤ _; omega), part]
    rfl
  have room : bytes.length % 64 + (input.bytes.take (64 - bytes.length % 64)).length ≤ 64 := by
    rw [List.length_take]
    omega
  obtain ⟨block, filled, front⟩ := md5Memcpy_eq context.buffer room
  have loop := transformLoop_eq (md5Transform context.state block) len
    (show (64 - context.index).toNat ≤ input.bytes.length by rw [part]; omega)
  rw [part] at loop
  rw [fits_iff full]
  constructor
  · intro fits
    rw [if_pos fits] at loop
    obtain ⟨rest, buffer, sliced, copied, kept⟩ := copy_rest block
      (Nat.sub_le input.bytes.length ((input.bytes.length - (64 - bytes.length % 64)) % 64)) (by omega)
    have zero : (0 : BitVec 32).toNat = 0 := rfl
    refine ⟨_, by
      simp only [md5Update, if_pos test, first, index, filled, loop, sliced, zero, copied, bind, Option.bind, pure]; rfl,
      ?_, ?_⟩
    · rw [List.length_append]
      exact count_update wide absorbed.count input
    · -- the first block is what waited and the first of the input
      have whole : block.bytes = context.buffer.bytes.take (bytes.length % 64) ++
          input.bytes.take (64 - (context.buffer.bytes.take (bytes.length % 64)).length) := by
        rw [held, ← front, List.take_of_length_le]
        rw [block.length, List.length_take]
        omega
      have waits : (bytes ++ input.bytes).length % 64 = (input.bytes.length - (64 - bytes.length % 64)) % 64 := by
        rw [List.length_append]
        omega
      rw [feed_append, absorbed.fed, feed_filled _ whole, held, waits]
      refine Prod.ext rfl ?_
      rw [feed_rest (by decide), List.drop_drop, List.length_drop]
      have back : input.bytes.length - (input.bytes.length - (input.bytes.length - (64 - bytes.length % 64)) % 64) =
          (input.bytes.length - (64 - bytes.length % 64)) % 64 := by omega
      rw [back] at kept
      rw [kept]
      congr 1
      omega
  · intro beyond
    rw [if_neg beyond] at loop
    simp only [md5Update, if_pos test, first, index, filled, loop, bind, Option.bind, pure]

/-- The whole of `MD5Update`: it knows the octets it was given before and now, or it has gone beyond its input. -/
theorem md5Update_absorbed (wide : 32 ≤ w) (absorbed : Absorbed context bytes) (input : Input) :
    (Fits bytes.length input →
        ∃ context', md5Update context input = some context' ∧ Absorbed context' (bytes ++ input.bytes)) ∧
      (¬Fits bytes.length input → md5Update context input = none) := by
  by_cases full : 64 ≤ bytes.length % 64 + input.bytes.length
  · exact md5Update_full wide absorbed full
  · refine ⟨fun _ => md5Update_short wide absorbed (by omega), fun beyond => absurd ?_ beyond⟩
    unfold Fits
    omega

/-- The upper word of the count. -/
theorem count1_update (updated : md5Update context input = some context') :
    context'.count1 =
      (if context.count0 + (BitVec.ofNat 32 input.bytes.length).setWidth w <<< 3 <
          (BitVec.ofNat 32 input.bytes.length).setWidth w <<< 3 then context.count1 + 1 else context.count1) +
        (BitVec.ofNat 32 input.bytes.length).setWidth w >>> 29 := by
  simp only [md5Update, bind, pure] at updated
  split at updated
  · simp only [Option.bind_eq_some_iff] at updated
    obtain ⟨_, -, _, -, _, -, _, -, _, -, _, -, same⟩ := updated
    cases same
    rfl
  · simp only [Option.bind_eq_some_iff] at updated
    obtain ⟨_, -, _, -, _, -, same⟩ := updated
    cases same
    rfl

theorem absorbed_init (buffer : Block) : Absorbed (md5Init buffer : Context w) [] := by
  refine ⟨rfl, ?_⟩
  rw [feed_short (by decide)]
  rfl

end Pire2Pire.Md5
