import Pire2Pire.Library.CString

/-! The option-aware command parser (`util/cmd_parser.c`). -/
namespace Pire2Pire.Protocol

open Library

/-- The terminating NUL, which the source counts as a delimiter too, is the end of the list here. -/
def isADelimiter (c : Char) : Bool :=
  c = ' ' ∨ c = '\n'

/-- The next token and the cursor behind it. The cursor is the part of the command not read yet. -/
def getToken (cursor : CString) : Option (CString × CString) :=
  match cursor.dropWhile isADelimiter with
  | [] => none
  | c :: start =>
    some ((c :: start).takeWhile fun c => !isADelimiter c,
      ((c :: start).dropWhile fun c => !isADelimiter c).drop 1)

inductive OptArg where
  | argRequired
  | noArg
deriving DecidableEq, Repr

/-- One entry of a template; the terminating entry is the end of the list. -/
structure OptionTemplate where
  shortName : Char
  longName : CString
  optArg : OptArg
deriving DecidableEq, Repr

structure ParsedOption where
  isInCmd : Bool := false
  value : Option CString := none
deriving DecidableEq, Repr

/-- `argc` is the length of `argv`. -/
structure ParsedCmd where
  options : List ParsedOption
  argv : List CString
deriving DecidableEq, Repr

inductive ParserError where
  | missingArgument
  | unknownOption
  | emptyCommand
deriving DecidableEq, Repr

/-- What a token stands for. -/
inductive TokenKind where
  | argument
  | longName (name : CString)
  | shortName (name : Char)
  | malformed
deriving DecidableEq, Repr

def tokenKind : CString → TokenKind
  -- "ls -" and "ls --" have an argument, not an option
  | ['-'] => .argument
  | ['-', '-'] => .argument
  | '-' :: '-' :: name => .longName name
  | ['-', name] => .shortName name
  | '-' :: _ => .malformed
  | _ => .argument

/-- The index of the option that a token names; without a template there is none. -/
def findOption (template : List OptionTemplate) : TokenKind → Option Nat
  | .longName name => template.findIdx? fun t => t.longName = name
  | .shortName name => template.findIdx? fun t => t.shortName = name
  | _ => none

/-- An option that is set again loses the value it had. -/
def markPresent (option : ParsedOption) : ParsedOption :=
  if option.isInCmd ∧ option.value.isSome then { option with value := none }
  else { option with isInCmd := true }

def requiresArgument (template : List OptionTemplate) (i : Nat) : Bool :=
  (template[i]?.map OptionTemplate.optArg) = some .argRequired

theorem dropWhile_head {cursor start : CString} {c : Char}
    (skipped : cursor.dropWhile isADelimiter = c :: start) : isADelimiter c = false := by
  have head := List.head?_dropWhile_not isADelimiter cursor
  simpa [skipped] using head

theorem getToken_shorter {cursor token rest : CString} (got : getToken cursor = some (token, rest)) :
    rest.length < cursor.length := by
  unfold getToken at got
  split at got
  · cases got
  next c start skipped =>
    obtain ⟨-, rfl⟩ := Prod.mk.inj (Option.some.inj got)
    -- at least the first character of the token is passed
    have first := dropWhile_head skipped
    have left : (c :: start).length ≤ cursor.length := skipped ▸ (List.dropWhile_suffix _).length_le
    have shorter : (start.dropWhile fun c => !isADelimiter c).length ≤ start.length :=
      (List.dropWhile_suffix _).length_le
    simp only [List.length_cons] at left
    simp only [List.dropWhile_cons, first, Bool.not_false, if_true, List.length_drop]
    omega

/-- The loop over the tokens; `arguments` is the list that the source builds backwards. -/
def cmdParseLoop (template : List OptionTemplate) (cursor : CString) (options : List ParsedOption)
    (arguments : List CString) : Except ParserError (List ParsedOption × List CString) :=
  match _got : getToken cursor with
  | none => .ok (options, arguments)
  | some (token, cursor') =>
    -- options may stand between arguments
    if tokenKind token = .argument then cmdParseLoop template cursor' options (token :: arguments)
    else
      match findOption template (tokenKind token) with
      | none => .error .unknownOption
      | some i =>
        if requiresArgument template i then
          match _got' : getToken cursor' with
          | none => .error .missingArgument
          | some (value, cursor'') =>
            cmdParseLoop template cursor''
              (options.modify i fun o => { markPresent o with value := some value }) arguments
        else cmdParseLoop template cursor' (options.modify i markPresent) arguments
termination_by cursor.length
decreasing_by
  · exact getToken_shorter _got
  · exact Nat.lt_trans (getToken_shorter _got') (getToken_shorter _got)
  · exact getToken_shorter _got

/-- A NULL template allows no options. -/
def cmdParse (cmd : CString) (template : Option (List OptionTemplate)) : Except ParserError ParsedCmd := do
  let entries := template.getD []
  let (options, arguments) ← cmdParseLoop entries cmd (entries.map fun _ => {}) []
  if arguments = [] then throw .emptyCommand
  return ⟨options, arguments.reverse⟩

/-! ### One token of the loop -/

variable {entries : List OptionTemplate} {cursor token rest cmd w : CString} {template : Option (List OptionTemplate)}
  {options : List ParsedOption} {arguments : List CString}

theorem cmdParseLoop_end (got : getToken cursor = none) :
    cmdParseLoop entries cursor options arguments = .ok (options, arguments) := by
  unfold cmdParseLoop
  split
  next => rfl
  next other => simp [got] at other

theorem cmdParseLoop_token (got : getToken cursor = some (token, rest)) :
    cmdParseLoop entries cursor options arguments =
      if tokenKind token = .argument then cmdParseLoop entries rest options (token :: arguments)
      else
        match findOption entries (tokenKind token) with
        | none => .error .unknownOption
        | some i =>
          if requiresArgument entries i then
            match getToken rest with
            | none => .error .missingArgument
            | some (value, rest') =>
              cmdParseLoop entries rest' (options.modify i fun o => { markPresent o with value := some value })
                arguments
          else cmdParseLoop entries rest (options.modify i markPresent) arguments := by
  rw [cmdParseLoop]
  split
  next none_ => simp [got] at none_
  next token' rest' got' =>
    obtain ⟨rfl, rfl⟩ := Prod.mk.inj (Option.some.inj (got.symm.trans got'))
    by_cases isArgument : tokenKind token = .argument
    · simp only [isArgument, if_true]
    · rw [if_neg isArgument, if_neg isArgument]
      cases findOption entries (tokenKind token) with
      | none => rfl
      | some i =>
        dsimp only
        by_cases required : requiresArgument entries i = true
        · rw [if_pos required, if_pos required]
          -- the inner match is the same but for the equation that it keeps
          split
          next none_ => rw [none_]
          next value some_ => rw [some_]
        · rw [if_neg required, if_neg required]

/-! ### The tokens of a command -/

theorem getToken_none (got : getToken cursor = none) : words isADelimiter cursor = [] := by
  unfold getToken at got
  split at got
  next skipped => rw [← words_dropWhile, skipped, words_nil]
  · cases got

theorem getToken_some (got : getToken cursor = some (token, rest)) :
    words isADelimiter cursor = token :: words isADelimiter rest := by
  unfold getToken at got
  split at got
  · cases got
  -- the delimiters in front of a token are skipped by both
  next c start skipped =>
    obtain ⟨rfl, rfl⟩ := Prod.mk.inj (Option.some.inj got)
    rw [← words_dropWhile, skipped, words_cons (dropWhile_head skipped)]

/-- The loop without options, over the tokens. -/
theorem cmdParseLoop_plain (cursor : CString) (options : List ParsedOption) (arguments : List CString) :
    cmdParseLoop [] cursor options arguments =
      if ∀ w ∈ words isADelimiter cursor, tokenKind w = .argument then
        .ok (options, (words isADelimiter cursor).reverse ++ arguments)
      else .error .unknownOption := by
  induction size : cursor.length using Nat.strong_induction_on generalizing cursor arguments with
  | _ n ih =>
    cases got : getToken cursor with
    | none => simp [cmdParseLoop_end got, getToken_none got]
    | some found =>
      obtain ⟨token, cursor'⟩ := found
      rw [cmdParseLoop_token got, getToken_some got]
      by_cases isArgument : tokenKind token = .argument
      · simp [isArgument, ih _ (size ▸ getToken_shorter got) cursor' _ rfl]
      · -- an empty template has no entry for the token
        have unknown : findOption [] (tokenKind token) = none := by
          cases tokenKind token <;> rfl
        simp [isArgument, unknown]

/-- Without options a command is the list of its tokens, provided that each is an argument. -/
theorem cmdParse_plain {parsed : ParsedCmd} (noOptions : template.getD [] = []) :
    cmdParse cmd template = .ok parsed ↔
      parsed = ⟨[], words isADelimiter cmd⟩ ∧ words isADelimiter cmd ≠ [] ∧
        ∀ w ∈ words isADelimiter cmd, tokenKind w = .argument := by
  simp only [cmdParse, noOptions, cmdParseLoop_plain, List.map_nil, List.append_nil]
  -- a token that is no argument is an unknown option, whatever else there is
  by_cases allArguments : ∀ w ∈ words isADelimiter cmd, tokenKind w = .argument
  -- a line without tokens is refused at the end of the loop
  · by_cases empty : words isADelimiter cmd = []
    · simp [empty, bind, Except.bind, throw, throwThe, MonadExceptOf.throw]
    · rw [if_pos allArguments]
      simp only [bind, Except.bind, pure, Except.pure, List.reverse_eq_nil_iff, empty, if_false,
        List.reverse_reverse, Except.ok.injEq]
      constructor
      · intro equal
        exact ⟨equal.symm, empty, allArguments⟩
      · intro parts
        exact parts.1.symm
  · rw [if_neg allArguments]
    simp [allArguments, bind, Except.bind]

/-! ### Arguments and options -/

theorem tokenKind_argument_iff (w : CString) :
    tokenKind w = .argument ↔ w.head? ≠ some '-' ∨ w = ['-'] ∨ w = ['-', '-'] := by
  unfold tokenKind
  split
  · simp
  · simp
  next name _ => simp_all
  next name _ => simp_all
  next rest _ _ _ _ => simp_all
  next notDash =>
    -- nothing that starts with a dash gets here
    have first : w.head? ≠ some '-' := by
      intro starts
      obtain ⟨rest, shape⟩ := List.head?_eq_some_iff.mp starts
      exact notDash rest shape
    simp [first]

end Pire2Pire.Protocol
