import Mathlib.Algebra.Order.Ring.Int
import Mathlib.Data.List.TakeWhile

/-! Strings of C: the parts of `string.h`, `stdlib.h` and `printf` that programs use to write lines of
text and to read them back.

A byte is a `Char`; nothing depends on characters above 255 being absent. -/
namespace Pire2Pire.Library

/-- The characters in front of the terminating NUL. -/
abbrev CString := List Char

/-! ### Searching and comparing -/

/-- What C reads from a buffer: everything in front of its first NUL. -/
def terminated (bytes : List Char) : CString :=
  bytes.takeWhile (· != '\x00')

/-- The text from the first `c` on. -/
def strchr (s : CString) (c : Char) : Option CString :=
  if c ∈ s then some (s.dropWhile (· != c)) else none

/-- Writing a NUL over the first `c`. -/
def cutAt (s : CString) (c : Char) : CString :=
  s.takeWhile (· != c)

/-- The sign of `strcmp`; characters compare as unsigned numbers. -/
def strcmp : CString → CString → Ordering
  | [], [] => .eq
  | [], _ :: _ => .lt
  | _ :: _, [] => .gt
  | a :: s, b :: t => if a < b then .lt else if b < a then .gt else strcmp s t

/-- `sprintf` into an array of `size` bytes; writing past it is undefined. -/
def sprintfInto (size : Nat) (text : CString) : Option CString :=
  if text.length + 1 ≤ size then some text else none

theorem sprintfInto_some {size : Nat} {text out : CString} :
    sprintfInto size text = some out ↔ text.length + 1 ≤ size ∧ text = out := by
  by_cases fits : text.length + 1 ≤ size
  · simp [sprintfInto, fits]
  · simp only [sprintfInto, fits, if_false, reduceCtorEq, false_and]

theorem sprintfInto_isSome {size : Nat} {text : CString} : (sprintfInto size text).isSome ↔ text.length + 1 ≤ size := by
  by_cases fits : text.length + 1 ≤ size <;> simp [sprintfInto, fits]

theorem strcmp_self (s : CString) : strcmp s s = .eq := by
  induction s with
  | nil => rfl
  | cons a s ih => simp [strcmp, ih]

theorem strcmp_eq_iff (s t : CString) : strcmp s t = .eq ↔ s = t := by
  constructor
  · intro equal
    induction s generalizing t with
    | nil =>
      cases t with
      | nil => rfl
      | cons b t => simp [strcmp] at equal
    | cons a s ih =>
      cases t with
      | nil => simp [strcmp] at equal
      | cons b t =>
        -- neither character is below the other, so they are the same
        by_cases below : a < b
        · simp [strcmp, below] at equal
        · by_cases above : b < a
          · simp [strcmp, below, above] at equal
          · simp only [strcmp, below, above, if_false] at equal
            rw [ih t equal, Char.le_antisymm (Char.not_lt.mp above) (Char.not_lt.mp below)]
  · intro equal
    rw [equal]
    exact strcmp_self t

theorem ne_of_notMem {s : CString} {c : Char} (absent : c ∉ s) : ∀ x ∈ s, (x != c) = true := by
  intro x member
  have differ : x ≠ c := fun equal => absent (equal ▸ member)
  simpa using differ

theorem strchr_append {s : CString} {c : Char} (absent : c ∉ s) (rest : CString) :
    strchr (s ++ c :: rest) c = some (c :: rest) := by
  simp [strchr, List.dropWhile_append_of_pos (ne_of_notMem absent)]

theorem strchr_some {s found : CString} {c : Char} (search : strchr s c = some found) :
    ∃ before behind, s = before ++ c :: behind ∧ c ∉ before ∧ found = c :: behind := by
  -- the character is there, or the result were NULL
  have member : c ∈ s := by
    by_contra missing
    simp [strchr, missing] at search
  obtain ⟨before, behind, shape, absent⟩ := List.eq_append_cons_of_mem member
  rw [shape, strchr_append absent, Option.some.injEq] at search
  exact ⟨before, behind, shape, absent, search.symm⟩

theorem cutAt_append {s : CString} {c : Char} (absent : c ∉ s) (rest : CString) :
    cutAt (s ++ c :: rest) c = s := by
  simp [cutAt, List.takeWhile_append_of_pos (ne_of_notMem absent)]

/-- The first `c` takes a text apart in one way. -/
theorem append_cons_inj {s t s' t' : CString} {c : Char} (absent : c ∉ s) (absent' : c ∉ s')
    (same : s ++ c :: t = s' ++ c :: t') : s = s' ∧ t = t' := by
  have fronts := congrArg (cutAt · c) same
  simp only [cutAt_append absent, cutAt_append absent'] at fronts
  subst fronts
  exact ⟨rfl, by simpa using same⟩

theorem cutAt_eq_self {s : CString} {c : Char} (absent : c ∉ s) : cutAt s c = s :=
  List.takeWhile_eq_self_iff.mpr (ne_of_notMem absent)

theorem cutAt_append_text {w : CString} {c : Char} (absent : c ∉ w) (s : CString) :
    cutAt (w ++ s) c = w ++ cutAt s c :=
  List.takeWhile_append_of_pos (ne_of_notMem absent)

theorem notMem_cutAt (s : CString) (c : Char) : c ∉ cutAt s c := by
  intro member
  simpa using List.mem_takeWhile_imp member

theorem mem_of_mem_cutAt {s : CString} {c x : Char} (member : x ∈ cutAt s c) : x ∈ s :=
  (List.takeWhile_prefix _).subset member

/-! ### Numbers -/

/-- `%d` and `%ld`. -/
def decimal : Int → CString
  | .ofNat n => Nat.toDigits 10 n
  | .negSucc n => '-' :: Nat.toDigits 10 (n + 1)

def isspace (c : Char) : Bool :=
  c = ' ' ∨ c = '\t' ∨ c = '\n' ∨ c = '\x0b' ∨ c = '\x0c' ∨ c = '\r'

/-- The value of the leading digits. -/
def leadingNumber (s : CString) : Nat :=
  Nat.ofDigitChars 10 (s.takeWhile Char.isDigit) 0

/-- `strtol` in base 10: white space, a sign, digits; a value out of range gives the nearest bound. -/
def strtol (s : CString) : Int64 :=
  match s.dropWhile isspace with
  | '-' :: digits => .ofIntClamp (-leadingNumber digits)
  | '+' :: digits => .ofIntClamp (leadingNumber digits)
  | digits => .ofIntClamp (leadingNumber digits)

def atol (s : CString) : Int64 :=
  strtol s

/-- `(int) strtol (s)`. -/
def atoi (s : CString) : Int32 :=
  (strtol s).toInt32

theorem decimal_ne_nil (n : Int) : decimal n ≠ [] := by
  cases n with
  | ofNat n => exact Nat.toDigits_ne_nil
  | negSucc n => exact List.cons_ne_nil _ _

theorem isDigit_of_mem_decimal {n : Int} {c : Char} (member : c ∈ decimal n) : c.isDigit ∨ c = '-' := by
  cases n with
  | ofNat n => exact .inl (Nat.isDigit_of_mem_toDigits (by decide) (by decide) member)
  | negSucc n =>
    cases List.mem_cons.mp member with
    | inl sign => exact .inr sign
    | inr digit => exact .inl (Nat.isDigit_of_mem_toDigits (by decide) (by decide) digit)

theorem notMem_decimal (n : Int) {c : Char} (digit : c.isDigit = false) (sign : c ≠ '-') :
    c ∉ decimal n := by
  intro member
  cases isDigit_of_mem_decimal member with
  | inl isDigit => simp [digit] at isDigit
  | inr isSign => exact sign isSign

/-- Only a negative number is printed with a sign. -/
theorem decimal_head (n : Int) : (decimal n).head? = some '-' ↔ n < 0 := by
  cases n with
  | ofNat n =>
    -- a digit is no sign
    have noSign : (Nat.toDigits 10 n).head? ≠ some '-' := by
      intro head
      have digit := Nat.isDigit_of_mem_toDigits (by decide) (by decide) (List.mem_of_head? head)
      exact absurd digit (by decide)
    constructor
    · exact fun head => absurd head noSign
    · intro negative
      exact absurd negative (by simp)
  | negSucc n => simp [decimal, Int.negSucc_lt_zero]

theorem leadingNumber_toDigits (n : Nat) : leadingNumber (Nat.toDigits 10 n) = n := by
  have digits : (Nat.toDigits 10 n).takeWhile Char.isDigit = Nat.toDigits 10 n :=
    List.takeWhile_eq_self_iff.mpr fun c member =>
      Nat.isDigit_of_mem_toDigits (by decide) (by decide) member
  rw [leadingNumber, digits, Nat.ofDigitChars_ten_toDigits]

/-- Digits are read as they are, leading zeros included. -/
theorem strtol_digits {digits : CString} (nonempty : digits ≠ []) (all : ∀ c ∈ digits, c.isDigit = true) :
    strtol digits = .ofIntClamp (leadingNumber digits) := by
  obtain ⟨c, rest, rfl⟩ := List.exists_cons_of_ne_nil nonempty
  have digit : c.isDigit = true := all c List.mem_cons_self
  -- the text starts with a digit, so neither white space nor a sign is skipped
  have noSpace : isspace c = false := by
    simp only [isspace, decide_eq_false_iff_not, not_or]
    refine ⟨?_, ?_, ?_, ?_, ?_, ?_⟩ <;> (intro equal; subst equal; exact absurd digit (by decide))
  have minus : c ≠ '-' := by
    intro equal
    subst equal
    exact absurd digit (by decide)
  have plus : c ≠ '+' := by
    intro equal
    subst equal
    exact absurd digit (by decide)
  simp only [strtol, List.dropWhile_cons, noSpace, Bool.false_eq_true, if_false]
  split
  · exact absurd ‹_› (by simp [minus])
  · exact absurd ‹_› (by simp [plus])
  · rfl

/-- Reading what was printed: the number, brought into range. -/
theorem strtol_decimal (n : Int) : strtol (decimal n) = .ofIntClamp n := by
  cases n with
  | ofNat n =>
    have digits : ∀ c ∈ Nat.toDigits 10 n, c.isDigit = true := fun c member =>
      Nat.isDigit_of_mem_toDigits (by decide) (by decide) member
    rw [decimal, strtol_digits Nat.toDigits_ne_nil digits, leadingNumber_toDigits]
    rfl
  | negSucc n =>
    have sign : isspace '-' = false := by decide
    simp only [strtol, decimal, List.dropWhile_cons, sign, Bool.false_eq_true, if_false,
      leadingNumber_toDigits]
    rfl

/-- `atoi` gives the number that the digits make, as long as it is an `int`. -/
theorem atoi_digits {digits : CString} (nonempty : digits ≠ []) (all : ∀ c ∈ digits, c.isDigit = true)
    (small : leadingNumber digits < 2 ^ 31) : (atoi digits).toInt = leadingNumber digits := by
  have least : Int64.minValue.toInt = -2 ^ 63 := by decide
  have greatest : Int64.maxValue.toInt = 2 ^ 63 - 1 := by decide
  have inRange : (Int64.ofIntClamp (leadingNumber digits)).toInt = leadingNumber digits :=
    Int64.toInt_ofIntClamp (by omega) (by omega)
  rw [atoi, strtol_digits nonempty all, Int64.toInt_toInt32, inRange]
  exact Int.bmod_eq_of_le (by omega) (by omega)

/-- `int` values survive `%d` and `atoi`. -/
theorem atoi_decimal (n : Int32) : atoi (decimal n.toInt) = n := by
  have low := n.le_toInt
  have high := n.toInt_lt
  have least : Int64.minValue.toInt = -2 ^ 63 := by decide
  have greatest : Int64.maxValue.toInt = 2 ^ 63 - 1 := by decide
  -- an `int` is in the range of `long`, so nothing is clamped
  have inRange : (Int64.ofIntClamp n.toInt).toInt = n.toInt :=
    Int64.toInt_ofIntClamp (by omega) (by omega)
  rw [atoi, strtol_decimal]
  apply Int32.toInt.inj
  rw [Int64.toInt_toInt32, inRange]
  exact n.toInt_bmod

/-- A non-negative `long` survives `%ld`, `atol` and the conversion to `unsigned long`. -/
theorem toNat_atol_decimal {n : Int} (nonnegative : 0 ≤ n) (small : n < 2 ^ 63) :
    (atol (decimal n)).toUInt64.toNat = n.toNat := by
  have least : Int64.minValue.toInt = -2 ^ 63 := by decide
  have greatest : Int64.maxValue.toInt = 2 ^ 63 - 1 := by decide
  have inRange : (Int64.ofIntClamp n).toInt = n := Int64.toInt_ofIntClamp (by omega) (by omega)
  have positive : 0 ≤ Int64.ofIntClamp n := by
    rw [Int64.le_iff_toInt_le, inRange]
    exact nonnegative
  rw [atol, strtol_decimal, Int64.toNat_toUInt64_of_le positive, ← Int64.toNat_toInt, inRange]

/-- A number of at most `k` digits has a text of at most `k + 1` characters. -/
theorem length_decimal_le {n : Int} {k : Nat} (positive : 0 < k) (bound : n.natAbs < 10 ^ k) :
    (decimal n).length ≤ k + 1 := by
  cases n with
  | ofNat n =>
    have digits : (Nat.toDigits 10 n).length ≤ k :=
      (Nat.length_toDigits_le_iff (by decide) positive).mpr bound
    exact Nat.le_succ_of_le digits
  | negSucc n =>
    have digits : (Nat.toDigits 10 (n + 1)).length ≤ k :=
      (Nat.length_toDigits_le_iff (by decide) positive).mpr bound
    simpa [decimal] using digits

theorem length_decimal_int (n : Int32) : (decimal n.toInt).length ≤ 11 := by
  have low := n.le_toInt
  have high := n.toInt_lt
  exact length_decimal_le (by decide) (by omega : n.toInt.natAbs < 10 ^ 10)

theorem length_decimal_long (n : Int64) : (decimal n.toInt).length ≤ 20 := by
  have low := n.le_toInt
  have high := n.toInt_lt
  exact length_decimal_le (by decide) (by omega : n.toInt.natAbs < 10 ^ 19)

/-! ### Words -/

/-- The maximal runs of characters that are no delimiters. -/
def words (isDelimiter : Char → Bool) (s : CString) : List CString :=
  (s.splitOnP isDelimiter).filter (· ≠ [])

variable {isDelimiter : Char → Bool} {s w : CString} {d : Char}

theorem words_nil : words isDelimiter [] = [] := by
  simp [words]

theorem words_delimiter (delimits : isDelimiter d) (s : CString) :
    words isDelimiter (d :: s) = words isDelimiter s := by
  simp [words, List.splitOnP_cons_eq_if_modifyHead, delimits]

theorem words_append (nonempty : w ≠ []) (clean : ∀ c ∈ w, isDelimiter c = false) (delimits : isDelimiter d)
    (s : CString) : words isDelimiter (w ++ d :: s) = w :: words isDelimiter s := by
  simp [words, List.splitOnP_append_cons_of_forall_mem clean d delimits s, nonempty]

theorem words_single (nonempty : w ≠ []) (clean : ∀ c ∈ w, isDelimiter c = false) :
    words isDelimiter w = [w] := by
  simp [words, List.splitOnP_eq_singleton clean, nonempty]

theorem words_dropWhile (s : CString) : words isDelimiter (s.dropWhile isDelimiter) = words isDelimiter s := by
  induction s with
  | nil => rfl
  | cons c s ih =>
    by_cases delimits : isDelimiter c
    · rw [List.dropWhile_cons_of_pos delimits, ih, words_delimiter delimits]
    · rw [List.dropWhile_cons_of_neg delimits]

/-- The first word and what follows the delimiter behind it. -/
theorem words_cons {c : Char} (first : isDelimiter c = false) (s : CString) :
    words isDelimiter (c :: s) = (c :: s).takeWhile (fun x => !isDelimiter x) ::
      words isDelimiter (((c :: s).dropWhile fun x => !isDelimiter x).drop 1) := by
  have nonempty : (c :: s).takeWhile (fun x => !isDelimiter x) ≠ [] := by
    simp [first]
  have clean : ∀ x ∈ (c :: s).takeWhile (fun x => !isDelimiter x), isDelimiter x = false := by
    intro x member
    simpa using List.mem_takeWhile_imp member
  have parts := List.takeWhile_append_dropWhile (p := fun x => !isDelimiter x) (l := c :: s)
  -- the word ends at a delimiter or at the end of the text
  cases behind : (c :: s).dropWhile (fun x => !isDelimiter x) with
  | nil =>
    rw [behind, List.append_nil] at parts
    rw [parts] at nonempty clean
    rw [parts, words_single nonempty clean, List.drop_nil, words_nil]
  | cons d rest =>
    have delimits : isDelimiter d := by
      have head := List.head?_dropWhile_not (fun x => !isDelimiter x) (c :: s)
      simpa [behind] using head
    rw [behind] at parts
    rw [← words_append nonempty clean delimits, List.drop_one, List.tail_cons, parts]

theorem mem_splitOnP (member : w ∈ s.splitOnP isDelimiter) : ∀ c ∈ w, isDelimiter c = false ∧ c ∈ s := by
  induction s generalizing w with
  | nil => simp_all
  | cons a s ih =>
    rw [List.splitOnP_cons_eq_if_modifyHead] at member
    -- a delimiter starts a new piece
    by_cases delimits : isDelimiter a
    · simp only [delimits, if_true, List.mem_cons] at member
      cases member with
      | inl empty => simp [empty]
      | inr later => exact fun c inside => ⟨(ih later c inside).1, List.mem_cons_of_mem _ (ih later c inside).2⟩
    · -- the first piece gets `a` in front of it, the others are those of `s`
      simp only [delimits, Bool.false_eq_true, if_false] at member
      cases pieces : s.splitOnP isDelimiter with
      | nil => exact absurd pieces (by simp)
      | cons piece rest =>
        have known : ∀ w ∈ piece :: rest, ∀ c ∈ w, isDelimiter c = false ∧ c ∈ s := by
          intro w inside
          exact ih (pieces ▸ inside)
        rw [pieces, List.modifyHead_cons, List.mem_cons] at member
        intro c inside
        cases member with
        | inl first =>
          subst first
          cases List.mem_cons.mp inside with
          | inl same => exact ⟨by simpa [same] using delimits, by simp [same]⟩
          | inr old =>
            have := known piece (by simp) c old
            exact ⟨this.1, List.mem_cons_of_mem _ this.2⟩
        | inr later =>
          have := known w (List.mem_cons_of_mem _ later) c inside
          exact ⟨this.1, List.mem_cons_of_mem _ this.2⟩

theorem words_ne_nil (member : w ∈ words isDelimiter s) : w ≠ [] := by
  simpa using (List.mem_filter.mp member).2

theorem words_clean (member : w ∈ words isDelimiter s) : ∀ c ∈ w, isDelimiter c = false := by
  intro c inside
  exact (mem_splitOnP (List.mem_filter.mp member).1 c inside).1

theorem words_subset (member : w ∈ words isDelimiter s) : ∀ c ∈ w, c ∈ s := by
  intro c inside
  exact (mem_splitOnP (List.mem_filter.mp member).1 c inside).2

end Pire2Pire.Library
