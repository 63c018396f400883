import Pire2Pire.Protocol.Lines

/-! The plain splitter (`cmd_to_argc_argv` of `util/cmd.c`) with its indices, its count and its array. `malloc`,
`realloc` and `strdup` succeed. -/
namespace Pire2Pire.Splitter

open Library

/-- `is_a_delimiter` of `util/cmd.c`. -/
def isADelimiter (c : Char) : Bool :=
  c = ' ' ∨ c = '\x00'

/-- The value of an `int`; there is none where it overflows. -/
def intOf (n : Nat) : Option Nat :=
  if n < 2 ^ 31 then some n else none

/-- What is changed in the loop besides `i`. An entry of `argv` is a string or NULL. -/
structure Fields where
  beginning : Nat
  argc : Nat
  argv : List (Option CString)
deriving DecidableEq, Repr

/-- The body of the loop at a delimiter `s[i]`. -/
def addArgument (s : CString) (i : Nat) (fields : Fields) : Option Fields := do
  let _ ← intOf (i - fields.beginning + 1)
  let buffer := (s.drop fields.beginning).take (i - fields.beginning)
  let argc ← intOf (fields.argc + 1)
  let _ ← intOf (1 + argc)
  -- `realloc` adds the entry that becomes the last one
  let argv := fields.argv.set (argc - 1) (some buffer) ++ [none]
  let beginning ← intOf (i + 1)
  return ⟨beginning, argc, argv⟩

/-- The loop, with the text from `s[i]` on. The NUL that terminates `s` is the end of the list. -/
def splitLoop (s : CString) : CString → Nat → Fields → Option Fields
  | [], i, fields => addArgument s i fields
  | c :: text, i, fields =>
    if isADelimiter c then do
      let fields ← addArgument s i fields
      if c = '\x00' then return fields
      let i ← intOf (i + 1)
      splitLoop s text i fields
    else do
      let i ← intOf (i + 1)
      splitLoop s text i fields

/-- `argv` and `*argc`. -/
def cmdToArgcArgv (s : CString) : Option (List (Option CString) × Nat) :=
  (splitLoop s s 0 ⟨0, 0, [none]⟩).map fun fields => (fields.argv, fields.argc)

/-- A NULL-terminated array of the strings, and their number. -/
def argcArgv (strings : List CString) : List (Option CString) × Nat :=
  (strings.map some ++ [none], strings.length)

/-- The text is split into one string more than it has spaces, and they make it up again. -/
def RoundTrips (s : CString) : Prop :=
  ∃ strings, cmdToArgcArgv s = some (argcArgv strings) ∧ strings.length = s.count ' ' + 1 ∧
    (∀ w ∈ strings, ' ' ∉ w) ∧ [' '].intercalate strings = s

/-- Neither an index nor the size of the array overflows. -/
def Splittable (s : CString) : Prop :=
  s.length + 1 < 2 ^ 31 ∧ s.count ' ' + 2 < 2 ^ 31

instance (s : CString) : Decidable (Splittable s) :=
  inferInstanceAs (Decidable (_ ∧ _))

variable {s text current : CString} {strings : List CString} {i n : Nat} {fields : Fields}

/-! ### Splitting at spaces -/

theorem modifyHead_nil_append (strings : List CString) : strings.modifyHead (fun w => [] ++ w) = strings :=
  congrFun List.modifyHead_id strings

theorem length_splitOn (s : CString) : (s.splitOn ' ').length = s.count ' ' + 1 := by
  induction s with
  | nil => rfl
  | cons c s ih =>
    rw [List.splitOn_cons_eq_if_modifyHead, List.count_cons]
    by_cases blank : c = ' '
    · simp only [blank, beq_self_eq_true, if_true, List.length_cons, ih]
    · simp only [beq_iff_eq, blank, if_false, List.length_modifyHead, ih, Nat.add_zero]

theorem noSpace_of_mem_splitOn {w : CString} (member : w ∈ s.splitOn ' ') : ' ' ∉ w := by
  rw [List.splitOn_eq_splitOnP] at member
  intro found
  simpa using (mem_splitOnP member ' ' found).1

/-- The splitter that the handlers are modelled with. -/
theorem splitLoop_eq_splitOn (s : CString) (buffer : List Char) :
    Protocol.splitLoop s buffer = (s.splitOn ' ').modifyHead (buffer.reverse ++ ·) := by
  induction s generalizing buffer with
  | nil => simp [Protocol.splitLoop]
  | cons c s ih =>
    rw [Protocol.splitLoop, List.splitOn_cons_eq_if_modifyHead]
    by_cases blank : c = ' '
    · simp only [blank, beq_self_eq_true, if_true, ih, List.modifyHead_cons, List.append_nil, List.reverse_nil,
        List.nil_append]
      rw [show (fun x : CString => x) = id from rfl, List.modifyHead_id, id]
    · simp only [beq_iff_eq, blank, if_false, ih, List.modifyHead_modifyHead, List.reverse_cons, List.append_assoc,
        List.singleton_append, Function.comp_def]

theorem cmdToArgcArgv_eq_splitOn (s : CString) : Protocol.cmdToArgcArgv s = s.splitOn ' ' := by
  rw [Protocol.cmdToArgcArgv, splitLoop_eq_splitOn, List.reverse_nil, modifyHead_nil_append]

/-! ### The loop -/

/-- The fields when these strings are in the array. -/
def fieldsAt (beginning : Nat) (strings : List CString) : Fields :=
  ⟨beginning, strings.length, strings.map some ++ [none]⟩

/-- One string more is in the array, unless something overflows. -/
theorem addArgument_eq {b : Nat} (here : (s.drop b).take (i - b) = current) (strings : List CString) :
    addArgument s i (fieldsAt b strings) =
      if i + 1 < 2 ^ 31 ∧ strings.length + 2 < 2 ^ 31 then some (fieldsAt (i + 1) (strings ++ [current]))
      else none := by
  have placed : (strings.map some ++ [none]).set strings.length (some current) = (strings ++ [current]).map some := by
    rw [List.set_append_right _ _ (by simp), List.length_map, Nat.sub_self, List.set_cons_zero, List.map_append]
    rfl
  simp only [addArgument, fieldsAt, here, intOf]
  by_cases fits : i + 1 < 2 ^ 31 ∧ strings.length + 2 < 2 ^ 31
  · have size : i - b + 1 < 2 ^ 31 := by omega
    have counted : strings.length + 1 < 2 ^ 31 := by omega
    have grown : 1 + (strings.length + 1) < 2 ^ 31 := by omega
    simp only [fits, size, counted, grown, and_self, if_true, Option.bind_eq_bind, Option.bind_some,
      Nat.add_sub_cancel, placed, List.length_append, List.length_singleton, Option.pure_def]
  · rw [if_neg fits]
    by_cases index : i + 1 < 2 ^ 31
    · have many : ¬1 + (strings.length + 1) < 2 ^ 31 := by omega
      simp only [Option.bind_eq_bind]
      by_cases counted : strings.length + 1 < 2 ^ 31
      · simp only [counted, if_true, Option.bind_some, many, if_false, Option.bind_none, Option.bind_fun_none]
      · simp only [counted, if_false, Option.bind_none, Option.bind_fun_none]
    · simp only [index, if_false, Option.bind_eq_bind, Option.bind_none, Option.bind_fun_none]

/-- A character that is no delimiter belongs to the current string. -/
theorem current_read {b : Nat} {c : Char} (behind : s.drop i = c :: text) (start : b ≤ i)
    (here : (s.drop b).take (i - b) = current) : (s.drop b).take (i + 1 - b) = current ++ [c] := by
  have there : i + 1 - b = i - b + 1 := by omega
  have last : (s.drop b)[i - b]? = some c := by
    rw [List.getElem?_drop, Nat.add_sub_cancel' start, ← List.head?_drop, behind, List.head?_cons]
  rw [there, List.take_add_one, here, last]
  rfl

/-- The loop from any index on: `current` is what was read since `beginning`. -/
theorem splitLoop_eq {b : Nat} (text : CString) (noNul : '\x00' ∉ text) (behind : s.drop i = text) (start : b ≤ i)
    (here : (s.drop b).take (i - b) = current) (strings : List CString) :
    splitLoop s text i (fieldsAt b strings) =
      if i + text.length + 1 < 2 ^ 31 ∧ strings.length + text.count ' ' + 2 < 2 ^ 31 then
        some (fieldsAt (i + text.length + 1) (strings ++ (text.splitOn ' ').modifyHead (current ++ ·)))
      else none := by
  induction text generalizing i b current strings with
  | nil =>
    rw [splitLoop, addArgument_eq here]
    simp
  | cons c text ih =>
    have next : s.drop (i + 1) = text := by
      rw [← List.tail_drop, behind, List.tail_cons]
    simp only [List.mem_cons, not_or] at noNul
    have noEnd : c ≠ '\x00' := fun same => noNul.1 same.symm
    rw [splitLoop, List.splitOn_cons_eq_if_modifyHead, List.length_cons, List.count_cons]
    by_cases blank : c = ' '
    · -- the string ends here, and the next one is empty so far
      have empty : (s.drop (i + 1)).take (i + 1 - (i + 1)) = [] := by
        rw [Nat.sub_self, List.take_zero]
      have later := ih noNul.2 next le_rfl empty (strings ++ [current])
      have delimits : isADelimiter c = true := by
        simp [isADelimiter, blank]
      rw [if_pos delimits, addArgument_eq here]
      simp only [blank, beq_self_eq_true, if_true, List.modifyHead_cons, List.append_nil]
      by_cases added : i + 1 < 2 ^ 31 ∧ strings.length + 2 < 2 ^ 31
      · have position : i + 1 + text.length + 1 = i + (text.length + 1) + 1 := by omega
        have number : (strings ++ [current]).length + text.count ' ' + 2 =
            strings.length + (text.count ' ' + 1) + 2 := by
          rw [List.length_append, List.length_singleton]
          omega
        have goesOn : ' ' ≠ '\x00' := by decide
        rw [position, number, modifyHead_nil_append, List.append_assoc, List.singleton_append] at later
        simp only [added, and_self, if_true, intOf, Option.bind_eq_bind, Option.bind_some, goesOn, if_false, later]
      · have notAll : ¬(i + (text.length + 1) + 1 < 2 ^ 31 ∧ strings.length + (text.count ' ' + 1) + 2 < 2 ^ 31) := by
          omega
        rw [if_neg added, if_neg notAll]
        rfl
    · have delimits : isADelimiter c = false := by
        simp [isADelimiter, blank, noEnd]
      have later := ih noNul.2 next (Nat.le_succ_of_le start) (current_read behind start here) strings
      simp only [delimits, Bool.false_eq_true, if_false, beq_iff_eq, blank, Nat.add_zero, List.modifyHead_modifyHead]
      by_cases index : i + 1 < 2 ^ 31
      · have position : i + 1 + text.length + 1 = i + (text.length + 1) + 1 := by omega
        simp only [intOf, index, if_true, Option.bind_eq_bind, Option.bind_some, later, position, List.append_assoc,
          List.singleton_append]
        rfl
      · have notAll : ¬(i + (text.length + 1) + 1 < 2 ^ 31 ∧ strings.length + text.count ' ' + 2 < 2 ^ 31) := by
          omega
        rw [if_neg notAll, intOf, if_neg index]
        rfl

/-! ### Round trips -/

theorem cmdToArgcArgv_eq (noNul : '\x00' ∉ s) :
    cmdToArgcArgv s = if Splittable s then some (argcArgv (s.splitOn ' ')) else none := by
  have looped := splitLoop_eq (s := s) (i := 0) (b := 0) s noNul rfl le_rfl List.take_zero []
  rw [modifyHead_nil_append, Nat.zero_add, List.length_nil, Nat.zero_add, List.nil_append] at looped
  rw [cmdToArgcArgv, show (⟨0, 0, [none]⟩ : Fields) = fieldsAt 0 [] from rfl, looped]
  by_cases small : Splittable s
  · have fits : s.length + 1 < 2 ^ 31 ∧ s.count ' ' + 2 < 2 ^ 31 := small
    rw [if_pos small, if_pos fits]
    rfl
  · have overflows : ¬(s.length + 1 < 2 ^ 31 ∧ s.count ' ' + 2 < 2 ^ 31) := small
    rw [if_neg small, if_neg overflows]
    rfl

theorem roundTrips_iff (noNul : '\x00' ∉ s) : RoundTrips s ↔ Splittable s := by
  constructor
  · rintro ⟨strings, returned, -⟩
    by_contra overflows
    rw [cmdToArgcArgv_eq noNul, if_neg overflows] at returned
    cases returned
  · intro small
    refine ⟨s.splitOn ' ', ?_, length_splitOn s, fun w => noSpace_of_mem_splitOn, List.intercalate_splitOn ' '⟩
    rw [cmdToArgcArgv_eq noNul, if_pos small]

/-- A join of strings without NUL has none. -/
theorem noNul_intercalate (clean : ∀ w ∈ strings, '\x00' ∉ w) : '\x00' ∉ [' '].intercalate strings := by
  induction strings with
  | nil => simp
  | cons w strings ih =>
    obtain ⟨first, others⟩ := List.forall_mem_cons.mp clean
    cases strings with
    | nil => simpa using first
    | cons v strings =>
      rw [List.intercalate_cons_cons, List.mem_append, List.mem_append, List.mem_singleton, not_or, not_or]
      exact ⟨⟨first, by decide⟩, ih others⟩

/-- Splitting a text and joining the strings gives the text back, and joining strings and splitting the text gives the
strings back, iff neither an index nor the count overflows. -/
theorem splitter_roundTrips_iff (noNul : '\x00' ∉ s) (nonempty : strings ≠ [])
    (clean : ∀ w ∈ strings, ' ' ∉ w ∧ '\x00' ∉ w) :
    (RoundTrips s ↔ Splittable s) ∧
      (cmdToArgcArgv ([' '].intercalate strings) = some (argcArgv strings) ↔
        Splittable ([' '].intercalate strings)) := by
  refine ⟨roundTrips_iff noNul, ?_⟩
  have noSpaces : ∀ w ∈ strings, ' ' ∉ w := fun w member => (clean w member).1
  rw [cmdToArgcArgv_eq (noNul_intercalate fun w member => (clean w member).2),
    List.splitOn_intercalate ' ' noSpaces nonempty]
  split
  next small => simp only [small]
  next overflows => simp only [overflows, reduceCtorEq]

/-- Empty strings at both ends and in the middle. -/
theorem spaces_split :
    RoundTrips " get  KEY ".toList ∧
      cmdToArgcArgv ([' '].intercalate [[], "get".toList, [], "KEY".toList, []]) =
        some (argcArgv [[], "get".toList, [], "KEY".toList, []]) := by
  have iffs := @splitter_roundTrips_iff " get  KEY ".toList [[], "get".toList, [], "KEY".toList, []] (by decide)
    (by decide) (by decide)
  exact ⟨iffs.1.mpr (by decide +kernel), iffs.2.mpr (by decide +kernel)⟩

/-- The index of a text of 2^31 characters overflows. -/
theorem long_text_not_split : ¬ ∀ s : CString, '\x00' ∉ s → RoundTrips s := by
  intro trips
  have noNul : '\x00' ∉ List.replicate (2 ^ 31) 'a' := by
    intro member
    exact absurd (List.eq_of_mem_replicate member) (by decide)
  have small := (roundTrips_iff noNul).mp (trips _ noNul)
  have short := small.1
  rw [List.length_replicate] at short
  omega

end Pire2Pire.Splitter
