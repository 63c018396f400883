import Pire2Pire.Library.BlockHash
import Pire2Pire.Md5.Algorithm

/-! The digest as it is specified: padding, blocks, and 64 operations that are read from tables. The transformation
of the source, in which they are written out one by one, is compared with it. -/
namespace Pire2Pire.Md5

open Library

abbrev Word := BitVec 32

/-- The integer parts of 2³² times the absolute values of the sines of 1 to 64. -/
def sines : Vector Word 64 := #v[
  0xd76aa478, 0xe8c7b756, 0x242070db, 0xc1bdceee, 0xf57c0faf, 0x4787c62a, 0xa8304613, 0xfd469501,
  0x698098d8, 0x8b44f7af, 0xffff5bb1, 0x895cd7be, 0x6b901122, 0xfd987193, 0xa679438e, 0x49b40821,
  0xf61e2562, 0xc040b340, 0x265e5a51, 0xe9b6c7aa, 0xd62f105d, 0x02441453, 0xd8a1e681, 0xe7d3fbc8,
  0x21e1cde6, 0xc33707d6, 0xf4d50d87, 0x455a14ed, 0xa9e3e905, 0xfcefa3f8, 0x676f02d9, 0x8d2a4c8a,
  0xfffa3942, 0x8771f681, 0x6d9d6122, 0xfde5380c, 0xa4beea44, 0x4bdecfa9, 0xf6bb4b60, 0xbebfbc70,
  0x289b7ec6, 0xeaa127fa, 0xd4ef3085, 0x04881d05, 0xd9d4d039, 0xe6db99e5, 0x1fa27cf8, 0xc4ac5665,
  0xf4292244, 0x432aff97, 0xab9423a7, 0xfc93a039, 0x655b59c3, 0x8f0ccc92, 0xffeff47d, 0x85845dd1,
  0x6fa87e4f, 0xfe2ce6e0, 0xa3014314, 0x4e0811a1, 0xf7537e82, 0xbd3af235, 0x2ad7d2bb, 0xeb86d391]

/-- The shifts of a round, again and again. -/
def shift (round : Nat) (n : Nat) : Nat :=
  match round with
  | 0 => #[7, 12, 17, 22].getD (n % 4) 0
  | 1 => #[5, 9, 14, 20].getD (n % 4) 0
  | 2 => #[4, 11, 16, 23].getD (n % 4) 0
  | _ => #[6, 10, 15, 21].getD (n % 4) 0

/-- The word of the block that an operation takes. -/
def wordIndex (round : Nat) (n : Nat) : Nat :=
  match round with
  | 0 => n % 16
  | 1 => (5 * n + 1) % 16
  | 2 => (3 * n + 5) % 16
  | _ => 7 * n % 16

def mix (round : Nat) (x y z : Word) : Word :=
  match round with
  | 0 => (x &&& y) ||| (~~~x &&& z)
  | 1 => (x &&& z) ||| (y &&& ~~~z)
  | 2 => x ^^^ y ^^^ z
  | _ => y ^^^ (x ||| ~~~z)

/-- One operation; the registers then change places. -/
def operation (x : Vector Word 16) (state : State 32) (n : Fin 64) : State 32 :=
  let round := n.val / 16
  let sum := state.a + mix round state.b state.c state.d + x[wordIndex round n % 16] + sines[n]
  ⟨state.d, state.b + sum.rotateLeft (shift round n), state.b, state.c⟩

/-- Four octets as a number, the low-order one first. -/
def littleEndian (bytes : List UInt8) : Nat :=
  bytes.foldr (fun byte number => byte.toNat + 256 * number) 0

def compress (state : State 32) (block : List UInt8) : State 32 :=
  let x : Vector Word 16 := .ofFn fun k => .ofNat 32 (littleEndian ((block.drop (4 * k)).take 4))
  let after := (List.finRange 64).foldl (operation x) state
  ⟨state.a + after.a, state.b + after.b, state.c + after.c, state.d + after.d⟩

/-- One octet, and as few zeros as leave eight octets of a block. -/
def paddingOf (length : Nat) : List UInt8 :=
  0x80 :: List.replicate ((119 - length % 64) % 64) 0

/-- The number of bits modulo 2⁶⁴ in eight octets, the low-order one first. -/
def lengthOctets (length : Nat) : List UInt8 :=
  (List.range 8).map fun k => .ofNat (8 * length / 256 ^ k)

/-- The digest of a message. -/
def md5 (message : List UInt8) : Vector UInt8 16 :=
  (feed 64 compress initialState (message ++ paddingOf message.length ++ lengthOctets message.length)).1.digest

variable {x : Vector Word 16} {r state : State 32}

/-! ### The operations and the macros -/

theorem rotateLeft_eq {s : Nat} (x : Word) (small : s < 32) : rotateLeft x s = x.rotateLeft s := by
  rw [rotateLeft, BitVec.rotateLeft_def, Nat.mod_eq_of_lt small]

theorem shift_lt (round n : Nat) : shift round n < 32 := by
  have cases_ : n % 4 = 0 ∨ n % 4 = 1 ∨ n % 4 = 2 ∨ n % 4 = 3 := by omega
  unfold shift
  split <;> rcases cases_ with at_ | at_ | at_ | at_ <;> rw [at_] <;> decide

/-- The new value of the register, added up in the other order. -/
theorem step_eq (round n : Nat) (a b c d y ac : Word) :
    step (mix round) a b c d y (shift round n) ac =
      b + (a + mix round b c d + y + ac).rotateLeft (shift round n) := by
  rw [step, rotateLeft_eq _ (shift_lt round n), BitVec.add_comm, ← BitVec.add_assoc, ← BitVec.add_assoc]

/-- The registers change places. -/
def State.turn (r : State 32) : State 32 := ⟨r.d, r.a, r.b, r.c⟩

section

variable (n : Fin 64)

theorem operation_first : operation x r n =
    (r.abcd (mix (n / 16)) x[wordIndex (n / 16) n % 16] (shift (n / 16) n) sines[n]).turn := by
  rw [State.abcd, step_eq]
  rfl

theorem operation_second : operation x r.turn n =
    (r.dabc (mix (n / 16)) x[wordIndex (n / 16) n % 16] (shift (n / 16) n) sines[n]).turn.turn := by
  rw [State.dabc, step_eq]
  rfl

theorem operation_third : operation x r.turn.turn n =
    (r.cdab (mix (n / 16)) x[wordIndex (n / 16) n % 16] (shift (n / 16) n) sines[n]).turn.turn.turn := by
  rw [State.cdab, step_eq]
  rfl

theorem operation_fourth : operation x r.turn.turn.turn n =
    r.bcda (mix (n / 16)) x[wordIndex (n / 16) n % 16] (shift (n / 16) n) sines[n] := by
  rw [State.bcda, step_eq]
  rfl

end

theorem four_operations (x : Vector Word 16) (r : State 32) (n₁ n₂ n₃ n₄ : Fin 64) (ns : List (Fin 64)) :
    (n₁ :: n₂ :: n₃ :: n₄ :: ns).foldl (operation x) r = ns.foldl (operation x) (r
      |> .abcd (mix (n₁ / 16)) x[wordIndex (n₁ / 16) n₁ % 16] (shift (n₁ / 16) n₁) sines[n₁]
      |> .dabc (mix (n₂ / 16)) x[wordIndex (n₂ / 16) n₂ % 16] (shift (n₂ / 16) n₂) sines[n₂]
      |> .cdab (mix (n₃ / 16)) x[wordIndex (n₃ / 16) n₃ % 16] (shift (n₃ / 16) n₃) sines[n₃]
      |> .bcda (mix (n₄ / 16)) x[wordIndex (n₄ / 16) n₄ % 16] (shift (n₄ / 16) n₄) sines[n₄]) := by
  simp only [List.foldl_cons]
  rw [operation_first n₁, operation_second n₂, operation_third n₃, operation_fourth n₄]

theorem round1_eq (x : Vector Word 16) (r : State 32) :
    ([0, 1, 2, 3, 4, 5, 6, 7, 8, 9, 10, 11, 12, 13, 14, 15] : List (Fin 64)).foldl (operation x) r = round1 x r := by
  simp only [four_operations, List.foldl_nil]
  rfl

theorem round2_eq (x : Vector Word 16) (r : State 32) :
    ([16, 17, 18, 19, 20, 21, 22, 23, 24, 25, 26, 27, 28, 29, 30, 31] : List (Fin 64)).foldl (operation x) r =
      round2 x r := by
  simp only [four_operations, List.foldl_nil]
  rfl

theorem round3_eq (x : Vector Word 16) (r : State 32) :
    ([32, 33, 34, 35, 36, 37, 38, 39, 40, 41, 42, 43, 44, 45, 46, 47] : List (Fin 64)).foldl (operation x) r =
      round3 x r := by
  simp only [four_operations, List.foldl_nil]
  rfl

theorem round4_eq (x : Vector Word 16) (r : State 32) :
    ([48, 49, 50, 51, 52, 53, 54, 55, 56, 57, 58, 59, 60, 61, 62, 63] : List (Fin 64)).foldl (operation x) r =
      round4 x r := by
  simp only [four_operations, List.foldl_nil]
  rfl

/-! ### The words of a block -/

/-- An octet in its place. -/
theorem toNat_place (byte : UInt8) {k : Nat} (small : k ≤ 24) :
    (byte.toBitVec.setWidth 32 <<< k : Word).toNat = 2 ^ k * byte.toNat := by
  have octet := byte.toNat_lt
  have power : 2 ^ k ≤ 2 ^ 24 := Nat.pow_le_pow_right (by decide) small
  have inside : 2 ^ k * byte.toNat < 2 ^ 32 :=
    calc 2 ^ k * byte.toNat < 2 ^ k * 2 ^ 8 := Nat.mul_lt_mul_of_pos_left octet (Nat.two_pow_pos k)
      _ ≤ 2 ^ 24 * 2 ^ 8 := Nat.mul_le_mul_right _ power
      _ = 2 ^ 32 := by decide
  have whole : byte.toNat % 2 ^ 32 = byte.toNat := Nat.mod_eq_of_lt (by omega)
  rw [BitVec.toNat_shiftLeft, BitVec.toNat_setWidth, UInt8.toNat_toBitVec, whole, Nat.shiftLeft_eq, Nat.mul_comm,
    Nat.mod_eq_of_lt inside]

theorem word_eq (b0 b1 b2 b3 : UInt8) :
    (b0.toBitVec.setWidth 32 ||| b1.toBitVec.setWidth 32 <<< 8 ||| b2.toBitVec.setWidth 32 <<< 16 |||
      b3.toBitVec.setWidth 32 <<< 24 : Word) = .ofNat 32 (littleEndian [b0, b1, b2, b3]) := by
  have octet0 := b0.toNat_lt
  have octet1 := b1.toNat_lt
  have octet2 := b2.toNat_lt
  have octet3 := b3.toNat_lt
  have low : (b0.toBitVec.setWidth 32 : Word).toNat = b0.toNat := by
    rw [BitVec.toNat_setWidth, UInt8.toNat_toBitVec, Nat.mod_eq_of_lt (by omega)]
  apply BitVec.eq_of_toNat_eq
  rw [BitVec.toNat_or, BitVec.toNat_or, BitVec.toNat_or, low, toNat_place b1 (by decide), toNat_place b2 (by decide),
    toNat_place b3 (by decide), BitVec.toNat_ofNat, Nat.mod_eq_of_lt (by simp [littleEndian]; omega)]
  -- the octets do not overlap, so they are added
  rw [Nat.or_comm b0.toNat, ← Nat.two_pow_add_eq_or_of_lt octet0, Nat.or_comm _ (2 ^ 16 * b2.toNat),
    ← Nat.two_pow_add_eq_or_of_lt (by omega), Nat.or_comm _ (2 ^ 24 * b3.toNat),
    ← Nat.two_pow_add_eq_or_of_lt (by omega)]
  simp only [littleEndian, List.foldr_cons, List.foldr_nil]
  omega

theorem getElem_decode (bytes : List UInt8) (k : Nat) (inside : k < (decode bytes : List Word).length) :
    (decode bytes : List Word)[k] = .ofNat 32 (littleEndian ((bytes.drop (4 * k)).take 4)) := by
  fun_induction decode bytes (w := 32) generalizing k with
  | case1 b0 b1 b2 b3 bytes ih =>
    cases k with
    | zero => exact word_eq b0 b1 b2 b3
    | succ k =>
      have behind : (b0 :: b1 :: b2 :: b3 :: bytes).drop (4 * (k + 1)) = bytes.drop (4 * k) := by
        rw [Nat.mul_add, Nat.add_comm, ← List.drop_drop]
        rfl
      rw [List.getElem_cons_succ, ih, behind]
  | case2 bytes short => cases inside

/-- The transformation that the source writes out is the one of the tables. -/
theorem md5Transform_eq (state : State 32) (block : Block) :
    md5Transform state block = compress state block.bytes := by
  have words : block.words = .ofFn fun k : Fin 16 => .ofNat 32 (littleEndian ((block.bytes.drop (4 * k)).take 4)) := by
    apply Vector.ext
    intro k inside
    rw [Vector.getElem_ofFn]
    exact getElem_decode block.bytes k (by rw [length_decode, block.length]; exact inside)
  have all : (List.finRange 64).foldl (operation block.words) state =
      round4 block.words (round3 block.words (round2 block.words (round1 block.words state))) := by
    rw [← round1_eq, ← round2_eq, ← round3_eq, ← round4_eq, ← List.foldl_append, ← List.foldl_append,
      ← List.foldl_append]
    rfl
  rw [compress, ← words, all]
  rfl

end Pire2Pire.Md5
