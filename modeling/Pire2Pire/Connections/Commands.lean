import Pire2Pire.Connections.Replies
import Pire2Pire.Protocol.CmdGrammar

/-! Which handler a line gets (`handle_requests` of `client_handler.c` and of `daemon_handler.c`), and what the
parser makes of the line afterwards. -/
namespace Pire2Pire.Commands

open Library Protocol

inductive Pool where
  | fast
  | slow
deriving DecidableEq, Repr

/-- What is queued for a line. -/
structure Job (H : Type) where
  pool : Pool
  handler : H
deriving DecidableEq, Repr

inductive ClientHandler where
  | connect
  | download
  | upload
  | get
  | help
  | info
  | list
  | raw
  | set
  | unknown
deriving DecidableEq, Repr

/-- `strncmp (message, "quit", 4) == 0`, which ends the loop. -/
def quits (message : CString) : Bool :=
  "quit".toList.isPrefixOf message

/-- The choice in `handle_requests` of `client_handler.c`. -/
def clientJob (message : CString) : Option (Job ClientHandler) :=
  if quits message then none
  else if isCmd message "connect".toList then some ⟨.slow, .connect⟩
  else if isCmd message "download".toList then some ⟨.fast, .download⟩
  else if isCmd message "upload".toList then some ⟨.fast, .upload⟩
  else if isCmd message "get".toList then some ⟨.fast, .get⟩
  else if isCmd message "help".toList then some ⟨.fast, .help⟩
  else if isCmd message "info".toList then some ⟨.fast, .info⟩
  else if isCmd message "list".toList then some ⟨.fast, .list⟩
  else if isCmd message "raw".toList then some ⟨.fast, .raw⟩
  else if isCmd message "set".toList then some ⟨.fast, .set⟩
  else some ⟨.fast, .unknown⟩

/-- The choice in `handle_requests` of `daemon_handler.c`. -/
def daemonJob (message : CString) : Option (Job Replies.Handler) :=
  if quits message then none
  else if isCmd message "list".toList then some ⟨.slow, .list⟩
  else if isCmd message "get".toList then some ⟨.fast, .get⟩
  else if isCmd message "file".toList then some ⟨.fast, .file⟩
  else if isCmd message "neighbourhood".toList then some ⟨.fast, .neighbourhood⟩
  else if isCmd message "neighbour".toList then some ⟨.fast, .neighbour⟩
  else if isCmd message "ready".toList then some ⟨.fast, .ready⟩
  else some ⟨.fast, .unknown⟩

/-! ### Chains of tests -/

/-- A chain of `IS_CMD` tests: the first that succeeds decides. -/
def firstTest {C : Type} (tests : List (CString × C)) (unknown : C) (message : CString) : C :=
  ((tests.find? fun test => isCmd message test.1).map Prod.snd).getD unknown

def clientTests : List (CString × Job ClientHandler) :=
  [("connect".toList, ⟨.slow, .connect⟩), ("download".toList, ⟨.fast, .download⟩),
    ("upload".toList, ⟨.fast, .upload⟩), ("get".toList, ⟨.fast, .get⟩), ("help".toList, ⟨.fast, .help⟩),
    ("info".toList, ⟨.fast, .info⟩), ("list".toList, ⟨.fast, .list⟩), ("raw".toList, ⟨.fast, .raw⟩),
    ("set".toList, ⟨.fast, .set⟩)]

def daemonTests : List (CString × Job Replies.Handler) :=
  [("list".toList, ⟨.slow, .list⟩), ("get".toList, ⟨.fast, .get⟩), ("file".toList, ⟨.fast, .file⟩),
    ("neighbourhood".toList, ⟨.fast, .neighbourhood⟩), ("neighbour".toList, ⟨.fast, .neighbour⟩),
    ("ready".toList, ⟨.fast, .ready⟩)]

/-- The part of a line before its first space. -/
def commandWord (line : CString) : CString :=
  cutAt line ' '

/-- The tests agree with each other and with the parser on what the command of a line is. -/
structure Agrees {C : Type} (tests : List (CString × C)) (unknown : C) (line : CString) : Prop where
  onlyWord : ∀ test ∈ tests, isCmd line test.1 = true ↔ test.1 = commandWord line
  atMostOne : (tests.filter fun test => isCmd line test.1).length ≤ 1
  anyOrder : ∀ tests', tests'.Perm tests → firstTest tests' unknown line = firstTest tests unknown line
  parsed : ∀ test ∈ tests, isCmd line test.1 = true → ∀ template parsed,
    cmdParse line template = .ok parsed → parsed.argv.head? = some (commandWord line)

variable {C : Type} {tests tests' : List (CString × C)} {unknown : C} {line word message : CString}
  {template : Option (List OptionTemplate)} {parsed : ParsedCmd}

theorem firstTest_cons (word : CString) (c : C) (tests : List (CString × C)) (unknown : C) (message : CString) :
    firstTest ((word, c) :: tests) unknown message =
      if isCmd message word then c else firstTest tests unknown message := by
  unfold firstTest
  rw [List.find?_cons]
  cases isCmd message word <;> rfl

theorem clientJob_eq (message : CString) :
    clientJob message = if quits message then none else some (firstTest clientTests ⟨.fast, .unknown⟩ message) := by
  unfold clientJob clientTests
  simp only [firstTest_cons, apply_ite some]
  rfl

theorem daemonJob_eq (message : CString) :
    daemonJob message = if quits message then none else some (firstTest daemonTests ⟨.fast, .unknown⟩ message) := by
  unfold daemonJob daemonTests
  simp only [firstTest_cons, apply_ite some]
  rfl

/-- The handler is the one that answers the line. -/
theorem handler_daemonJob (stays : quits message = false) :
    (daemonJob message).map Job.handler = some (Replies.handlerOf message) := by
  unfold daemonJob Replies.handlerOf
  simp only [stays, Bool.false_eq_true, if_false, apply_ite (Option.map Job.handler), Option.map_some, apply_ite some]

/-! ### The word of a command -/

/-- The line is the word, or goes on with a space behind it. -/
theorem isCmd_cases : isCmd line word = true ↔ line = word ∨ ∃ rest, line = word ++ ' ' :: rest := by
  simp only [isCmd, decide_eq_true_eq, List.isPrefixOf_iff_prefix]
  constructor
  · rintro ⟨⟨rest, rfl⟩, ends⟩
    cases rest with
    | nil => exact .inl (List.append_nil word)
    | cons c rest =>
      rcases ends with same | space
      · simp at same
      · simp only [List.getElem?_append_right le_rfl, Nat.sub_self, List.getElem?_cons_zero,
          Option.some.injEq] at space
        exact .inr ⟨rest, by rw [space]⟩
  · rintro (rfl | ⟨rest, rfl⟩)
    · exact ⟨List.prefix_rfl, .inl rfl⟩
    · exact ⟨List.prefix_append _ _, .inr (by simp)⟩

theorem isCmd_iff (noSpace : ' ' ∉ word) : isCmd line word = true ↔ word = commandWord line := by
  rw [isCmd_cases]
  constructor
  · rintro (rfl | ⟨rest, rfl⟩)
    · exact (cutAt_eq_self noSpace).symm
    · exact (cutAt_append noSpace rest).symm
  · rintro rfl
    by_cases blank : ' ' ∈ line
    · obtain ⟨front, rest, rfl, clean⟩ := List.eq_append_cons_of_mem blank
      exact .inr ⟨rest, by rw [commandWord, cutAt_append clean]⟩
    · exact .inl (cutAt_eq_self blank).symm

/-- What the word of a command is made of: neither of the delimiters of the parser, and no dash in front. -/
structure IsWord (word : CString) : Prop where
  nonempty : word ≠ []
  clean : ∀ c ∈ word, isADelimiter c = false
  noDash : word.head? ≠ some '-'

instance (word : CString) : Decidable (IsWord word) :=
  decidable_of_iff (word ≠ [] ∧ (word.all fun c => !isADelimiter c) = true ∧ word.head? ≠ some '-')
    ⟨fun parts => ⟨parts.1, by simpa using parts.2.1, parts.2.2⟩,
      fun isWord => ⟨isWord.nonempty, by simpa using isWord.clean, isWord.noDash⟩⟩

theorem IsWord.noSpace (isWord : IsWord word) : ' ' ∉ word := by
  intro blank
  exact absurd (isWord.clean ' ' blank) (by decide)

/-- The parser finds the word first, and it is no option. -/
theorem words_command (isWord : IsWord word) (command : isCmd line word = true) :
    ∃ tokens, words isADelimiter line = word :: tokens := by
  rcases isCmd_cases.mp command with rfl | ⟨rest, rfl⟩
  · exact ⟨[], words_single isWord.nonempty isWord.clean⟩
  · exact ⟨words isADelimiter rest, words_append isWord.nonempty isWord.clean (by decide) rest⟩

theorem argv_command (isWord : IsWord word) (command : isCmd line word = true)
    (parse : cmdParse line template = .ok parsed) : parsed.argv.head? = some word := by
  obtain ⟨tokens, split⟩ := words_command isWord command
  obtain ⟨parts, read, arguments, -, -⟩ := cmdParse_ok_iff.mp parse
  have positional : Positional word := .inl isWord.noDash
  rw [split, items, if_pos positional] at read
  -- the items of a line are those of its first token and of the others
  cases others : items (template.getD []) tokens with
  | error e =>
    rw [others] at read
    cases read
  | ok parts' =>
    rw [others] at read
    cases read
    rw [arguments]
    rfl

/-! ### Tests with different words -/

theorem atMostOne_of_words (distinct : (tests.map Prod.fst).Nodup)
    (onlyWord : ∀ test ∈ tests, isCmd line test.1 = true ↔ test.1 = word) :
    (tests.filter fun test => isCmd line test.1).length ≤ 1 := by
  -- all tests that succeed have one word, and no word occurs twice
  have same : ((tests.filter fun test => isCmd line test.1).map Prod.fst) =
      List.replicate (tests.filter fun test => isCmd line test.1).length word := by
    rw [List.eq_replicate_iff, List.length_map]
    refine ⟨rfl, fun w member => ?_⟩
    obtain ⟨test, succeeds, rfl⟩ := List.mem_map.mp member
    obtain ⟨inside, command⟩ := List.mem_filter.mp succeeds
    exact (onlyWord test inside).mp command
  have unique := distinct.sublist ((List.filter_sublist (p := fun test => isCmd line test.1)).map Prod.fst)
  rw [same] at unique
  exact List.nodup_replicate.mp unique

/-- Where at most one test succeeds, the order of the tests does not matter. -/
theorem firstTest_perm (perm : tests'.Perm tests)
    (atMostOne : (tests.filter fun test => isCmd line test.1).length ≤ 1) (unknown : C) :
    firstTest tests' unknown line = firstTest tests unknown line := by
  have permuted := perm.filter fun test => isCmd line test.1
  unfold firstTest
  rw [← List.head?_filter, ← List.head?_filter]
  cases succeed : tests.filter fun test => isCmd line test.1 with
  | nil =>
    rw [succeed] at permuted
    rw [List.perm_nil.mp permuted]
  | cons test others =>
    have single : others = [] := by
      rw [succeed, List.length_cons] at atMostOne
      exact List.length_eq_zero_iff.mp (by omega)
    rw [succeed, single] at permuted
    rw [List.perm_singleton.mp permuted, single]

theorem agrees_of_words (isWords : ∀ test ∈ tests, IsWord test.1) (distinct : (tests.map Prod.fst).Nodup)
    (unknown : C) (line : CString) : Agrees tests unknown line := by
  have onlyWord : ∀ test ∈ tests, isCmd line test.1 = true ↔ test.1 = commandWord line := by
    intro test member
    exact isCmd_iff (isWords test member).noSpace
  have atMostOne := atMostOne_of_words distinct onlyWord
  refine ⟨onlyWord, atMostOne, fun tests' perm => firstTest_perm perm atMostOne unknown, ?_⟩
  intro test member command template parsed parse
  rw [← (onlyWord test member).mp command]
  exact argv_command (isWords test member) command parse

theorem clientTests_words : (∀ test ∈ clientTests, IsWord test.1) ∧ (clientTests.map Prod.fst).Nodup := by
  decide +kernel

/-- `neighbour` and `neighbourhood` are different words, though one starts with the other. -/
theorem daemonTests_words : (∀ test ∈ daemonTests, IsWord test.1) ∧ (daemonTests.map Prod.fst).Nodup := by
  decide +kernel

/-- A line that does not start with `quit` gets the handler of its command word, in whatever order the tests are
made, and the parser finds the same word. -/
theorem dispatch_agrees (line : CString) (stays : ¬ "quit".toList <+: line) :
    (clientJob line = some (firstTest clientTests ⟨.fast, .unknown⟩ line) ∧
      Agrees clientTests ⟨.fast, .unknown⟩ line) ∧
    (daemonJob line = some (firstTest daemonTests ⟨.fast, .unknown⟩ line) ∧
      Agrees daemonTests ⟨.fast, .unknown⟩ line) := by
  have goesOn : quits line = false := by
    rw [quits, Bool.eq_false_iff, ne_eq, List.isPrefixOf_iff_prefix]
    exact stays
  constructor
  · rw [clientJob_eq, goesOn]
    exact ⟨rfl, agrees_of_words clientTests_words.1 clientTests_words.2 _ line⟩
  · rw [daemonJob_eq, goesOn]
    exact ⟨rfl, agrees_of_words daemonTests_words.1 daemonTests_words.2 _ line⟩

/-- A line that starts with two of the words. -/
theorem neighbourhood_dispatched :
    ¬ "quit".toList <+: "neighbourhood -a".toList ∧
      firstTest daemonTests.reverse ⟨.fast, .unknown⟩ "neighbourhood -a".toList = ⟨.fast, .neighbourhood⟩ := by
  have stays : ¬ "quit".toList <+: "neighbourhood -a".toList := by decide +kernel
  have agrees := (dispatch_agrees _ stays).2.2
  refine ⟨stays, ?_⟩
  rw [agrees.anyOrder _ (List.reverse_perm _)]
  decide +kernel

end Pire2Pire.Commands
