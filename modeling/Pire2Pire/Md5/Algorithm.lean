import Mathlib.Data.Nat.ModEq

/-! The message digest (`util/md5/md5_algorithm.c`). The width `w` is that of `unsigned long int`, which is `UINT4`:
32 bits on some machines, 64 on others. -/
namespace Pire2Pire.Md5

variable {w : Nat}

/-- `unsigned char [64]` -/
structure Block where
  bytes : List UInt8
  length : bytes.length = 64

/-- `state[0]` to `state[3]` -/
structure State (w : Nat) where
  a : BitVec w
  b : BitVec w
  c : BitVec w
  d : BitVec w
deriving DecidableEq

/-- `count[0]`, `count[1]` are `count0`, `count1`. -/
structure Context (w : Nat) where
  state : State w
  count0 : BitVec w
  count1 : BitVec w
  buffer : Block

/-- What an `unsigned int` can be the length of. -/
structure Input where
  bytes : List UInt8
  counted : bytes.length < 2 ^ 32

/-! ### The basic functions -/

def f (x y z : BitVec w) : BitVec w := (x &&& y) ||| (~~~x &&& z)

def g (x y z : BitVec w) : BitVec w := (x &&& z) ||| (y &&& ~~~z)

def h (x y z : BitVec w) : BitVec w := x ^^^ y ^^^ z

def i (x y z : BitVec w) : BitVec w := y ^^^ (x ||| ~~~z)

/-- `ROTATE_LEFT`; the bits above the 32nd are not cut off. -/
def rotateLeft (x : BitVec w) (n : Nat) : BitVec w := (x <<< n) ||| (x >>> (32 - n))

/-- What the macros leave in their first argument, with their own function. -/
def step (fn : BitVec w → BitVec w → BitVec w → BitVec w) (a b c d x : BitVec w) (s : Nat) (ac : BitVec w) : BitVec w :=
  rotateLeft (a + (fn b c d + x + ac)) s + b

/-! The macros with the registers as their first four arguments, in the four orders that occur. -/

/-- `(a, b, c, d, x, s, ac)` -/
def State.abcd (fn : BitVec w → BitVec w → BitVec w → BitVec w) (x : BitVec w) (s : Nat) (ac : BitVec w)
    (r : State w) : State w :=
  { r with a := step fn r.a r.b r.c r.d x s ac }

/-- `(d, a, b, c, x, s, ac)` -/
def State.dabc (fn : BitVec w → BitVec w → BitVec w → BitVec w) (x : BitVec w) (s : Nat) (ac : BitVec w)
    (r : State w) : State w :=
  { r with d := step fn r.d r.a r.b r.c x s ac }

/-- `(c, d, a, b, x, s, ac)` -/
def State.cdab (fn : BitVec w → BitVec w → BitVec w → BitVec w) (x : BitVec w) (s : Nat) (ac : BitVec w)
    (r : State w) : State w :=
  { r with c := step fn r.c r.d r.a r.b x s ac }

/-- `(b, c, d, a, x, s, ac)` -/
def State.bcda (fn : BitVec w → BitVec w → BitVec w → BitVec w) (x : BitVec w) (s : Nat) (ac : BitVec w)
    (r : State w) : State w :=
  { r with b := step fn r.b r.c r.d r.a x s ac }

/-! ### Words -/

/-- `Encode`: the four low octets of each word. -/
def encode : List (BitVec w) → List UInt8
  | [] => []
  | x :: xs =>
    .ofBitVec ((x &&& 0xff).setWidth 8) :: .ofBitVec (((x >>> 8) &&& 0xff).setWidth 8) ::
      .ofBitVec (((x >>> 16) &&& 0xff).setWidth 8) :: .ofBitVec (((x >>> 24) &&& 0xff).setWidth 8) :: encode xs

/-- `Decode` -/
def decode : List UInt8 → List (BitVec w)
  | b0 :: b1 :: b2 :: b3 :: bytes =>
    (b0.toBitVec.setWidth w ||| b1.toBitVec.setWidth w <<< 8 ||| b2.toBitVec.setWidth w <<< 16 |||
      b3.toBitVec.setWidth w <<< 24) :: decode bytes
  | _ => []

theorem length_encode (xs : List (BitVec w)) : (encode xs).length = 4 * xs.length := by
  induction xs with
  | nil => rfl
  | cons x xs ih =>
    simp only [encode, List.length_cons, ih]
    omega

theorem length_decode (bytes : List UInt8) : (decode bytes : List (BitVec w)).length = bytes.length / 4 := by
  fun_induction decode bytes (w := w) with
  | case1 b0 b1 b2 b3 bytes ih =>
    simp only [List.length_cons, ih]
    omega
  | case2 bytes short =>
    match bytes, short with
    | [], _ => rfl
    | [_], _ | [_, _], _ | [_, _, _], _ => simp
    | b0 :: b1 :: b2 :: b3 :: bytes, short => exact absurd rfl (short b0 b1 b2 b3 bytes)

/-- `UINT4 x[16]` -/
def Block.words (block : Block) : Vector (BitVec w) 16 :=
  ⟨(decode block.bytes).toArray, by rw [List.size_toArray, length_decode, block.length]⟩

/-! ### The transformation of a block -/

/-- `FF` -/
def round1 (x : Vector (BitVec w) 16) (r : State w) : State w :=
  r
    |> .abcd f x[0] 7 0xd76aa478
    |> .dabc f x[1] 12 0xe8c7b756
    |> .cdab f x[2] 17 0x242070db
    |> .bcda f x[3] 22 0xc1bdceee
    |> .abcd f x[4] 7 0xf57c0faf
    |> .dabc f x[5] 12 0x4787c62a
    |> .cdab f x[6] 17 0xa8304613
    |> .bcda f x[7] 22 0xfd469501
    |> .abcd f x[8] 7 0x698098d8
    |> .dabc f x[9] 12 0x8b44f7af
    |> .cdab f x[10] 17 0xffff5bb1
    |> .bcda f x[11] 22 0x895cd7be
    |> .abcd f x[12] 7 0x6b901122
    |> .dabc f x[13] 12 0xfd987193
    |> .cdab f x[14] 17 0xa679438e
    |> .bcda f x[15] 22 0x49b40821

/-- `GG` -/
def round2 (x : Vector (BitVec w) 16) (r : State w) : State w :=
  r
    |> .abcd g x[1] 5 0xf61e2562
    |> .dabc g x[6] 9 0xc040b340
    |> .cdab g x[11] 14 0x265e5a51
    |> .bcda g x[0] 20 0xe9b6c7aa
    |> .abcd g x[5] 5 0xd62f105d
    |> .dabc g x[10] 9 0x2441453
    |> .cdab g x[15] 14 0xd8a1e681
    |> .bcda g x[4] 20 0xe7d3fbc8
    |> .abcd g x[9] 5 0x21e1cde6
    |> .dabc g x[14] 9 0xc33707d6
    |> .cdab g x[3] 14 0xf4d50d87
    |> .bcda g x[8] 20 0x455a14ed
    |> .abcd g x[13] 5 0xa9e3e905
    |> .dabc g x[2] 9 0xfcefa3f8
    |> .cdab g x[7] 14 0x676f02d9
    |> .bcda g x[12] 20 0x8d2a4c8a

/-- `HH` -/
def round3 (x : Vector (BitVec w) 16) (r : State w) : State w :=
  r
    |> .abcd h x[5] 4 0xfffa3942
    |> .dabc h x[8] 11 0x8771f681
    |> .cdab h x[11] 16 0x6d9d6122
    |> .bcda h x[14] 23 0xfde5380c
    |> .abcd h x[1] 4 0xa4beea44
    |> .dabc h x[4] 11 0x4bdecfa9
    |> .cdab h x[7] 16 0xf6bb4b60
    |> .bcda h x[10] 23 0xbebfbc70
    |> .abcd h x[13] 4 0x289b7ec6
    |> .dabc h x[0] 11 0xeaa127fa
    |> .cdab h x[3] 16 0xd4ef3085
    |> .bcda h x[6] 23 0x4881d05
    |> .abcd h x[9] 4 0xd9d4d039
    |> .dabc h x[12] 11 0xe6db99e5
    |> .cdab h x[15] 16 0x1fa27cf8
    |> .bcda h x[2] 23 0xc4ac5665

/-- `II` -/
def round4 (x : Vector (BitVec w) 16) (r : State w) : State w :=
  r
    |> .abcd i x[0] 6 0xf4292244
    |> .dabc i x[7] 10 0x432aff97
    |> .cdab i x[14] 15 0xab9423a7
    |> .bcda i x[5] 21 0xfc93a039
    |> .abcd i x[12] 6 0x655b59c3
    |> .dabc i x[3] 10 0x8f0ccc92
    |> .cdab i x[10] 15 0xffeff47d
    |> .bcda i x[1] 21 0x85845dd1
    |> .abcd i x[8] 6 0x6fa87e4f
    |> .dabc i x[15] 10 0xfe2ce6e0
    |> .cdab i x[6] 15 0xa3014314
    |> .bcda i x[13] 21 0x4e0811a1
    |> .abcd i x[4] 6 0xf7537e82
    |> .dabc i x[11] 10 0xbd3af235
    |> .cdab i x[2] 15 0x2ad7d2bb
    |> .bcda i x[9] 21 0xeb86d391

def md5Transform (state : State w) (block : Block) : State w :=
  let x := block.words
  let ⟨a, b, c, d⟩ := round4 x (round3 x (round2 x (round1 x state)))
  ⟨state.a + a, state.b + b, state.c + c, state.d + d⟩

/-! ### The context -/

def initialState : State w := ⟨0x67452301, 0xefcdab89, 0x98badcfe, 0x10325476⟩

/-- `MD5Init` leaves the buffer as it is. -/
def md5Init (buffer : Block) : Context w := ⟨initialState, 0, 0, buffer⟩

/-- `MD5_memcpy` into the buffer, no result where it is overrun. -/
def md5Memcpy (buffer : Block) (index : Nat) (input : List UInt8) : Option Block :=
  if fits : index + input.length ≤ 64 then
    some ⟨buffer.bytes.take index ++ input ++ buffer.bytes.drop (index + input.length), by
      simp only [List.length_append, List.length_take, List.length_drop, buffer.length]
      omega⟩
  else none

/-- `len` octets from `&input[i]` on, no result where they are not all there. -/
def Input.slice (input : Input) (i len : BitVec 32) : Option (List UInt8) :=
  if i.toNat + len.toNat ≤ input.bytes.length then some ((input.bytes.drop i.toNat).take len.toNat) else none

/-- `for (i = partLen; i + 63 < inputLen; i += 64)`, no result where a block goes beyond the input. -/
def transformLoop (input : Input) (inputLen : BitVec 32) (state : State w) (i : BitVec 32) :
    Option (State w × BitVec 32) :=
  if i + 63 < inputLen then
    if inside : i.toNat + 64 ≤ input.bytes.length then
      transformLoop input inputLen
        (md5Transform state ⟨(input.bytes.drop i.toNat).take 64, List.length_take_of_le (by
          rw [List.length_drop]
          omega)⟩) (i + 64)
    else none
  else some (state, i)
termination_by input.bytes.length - i.toNat
decreasing_by
  have counted := input.counted
  have next : (i + 64).toNat = i.toNat + 64 := by
    rw [BitVec.toNat_add]
    exact Nat.mod_eq_of_lt (Nat.lt_of_le_of_lt inside counted)
  omega

/-- The number of bytes mod 64 -/
def Context.index (context : Context w) : BitVec 32 :=
  ((context.count0 >>> 3) &&& 0x3f).setWidth 32

def md5Update (context : Context w) (input : Input) : Option (Context w) := do
  let inputLen : BitVec 32 := .ofNat 32 input.bytes.length
  let index := context.index
  let bits := inputLen.setWidth w <<< 3
  let count0 := context.count0 + bits
  let count1 := if count0 < bits then context.count1 + 1 else context.count1
  let count1 := count1 + inputLen.setWidth w >>> 29
  let partLen := 64 - index
  let (state, buffer, index, i) ←
    if partLen ≤ inputLen then do
      let buffer ← md5Memcpy context.buffer index.toNat (← input.slice 0 partLen)
      let (state, i) ← transformLoop input inputLen (md5Transform context.state buffer) partLen
      pure (state, buffer, (0 : BitVec 32), i)
    else pure (context.state, context.buffer, index, (0 : BitVec 32))
  let buffer ← md5Memcpy buffer index.toNat (← input.slice i (inputLen - i))
  return ⟨state, count0, count1, buffer⟩

/-- `PADDING` -/
def padding : List UInt8 := 0x80 :: List.replicate 63 0

/-- `unsigned char digest[16]` -/
def State.digest (state : State w) : Vector UInt8 16 :=
  ⟨(encode [state.a, state.b, state.c, state.d]).toArray, rfl⟩

/-- The context is a local variable of the callers, so nothing is seen of it being zeroed. -/
def md5Final (context : Context w) : Option (Vector UInt8 16) := do
  let bits := encode [context.count0, context.count1]
  let index := context.index
  let padLen := if index < 56 then 56 - index else 120 - index
  let context ← md5Update context ⟨padding.take padLen.toNat, by
    simp only [padding, List.length_take, List.length_cons, List.length_replicate]
    omega⟩
  let context ← md5Update context ⟨bits, by simp [bits, length_encode]⟩
  return context.state.digest

end Pire2Pire.Md5
