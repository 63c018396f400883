import Pire2Pire.Library.Allocation
import Pire2Pire.Protocol.CmdGrammar

/-! The memory of `cmd_parse`: which blocks the parser allocates, and what becomes of them until `cmd_parse_free` has
run on its result.

A token belongs in turn to the local variable, to an option, to a cell of the list of arguments and to `argv`. -/
namespace Pire2Pire.Protocol

open Library

/-! ### The objects -/

/-- A string that `get_token` has allocated. -/
structure Token where
  block : Nat
  text : CString
deriving DecidableEq, Repr

/-- `struct parsed_option`. -/
structure OwnedOption where
  isInCmd : Bool := false
  value : Option Token := none
deriving DecidableEq, Repr

/-- `struct parsed_cmd`: its own block, that of the array `options` (NULL without a template), and `argv` with its
array. -/
structure OwnedCmd where
  block : Nat
  array : Option Nat
  options : List OwnedOption
  argv : Option (Nat × List Token)
deriving DecidableEq, Repr

/-- `struct arg_list`. -/
structure ArgCell where
  block : Nat
  token : Token
deriving DecidableEq, Repr

/-- What `cmd_parse` returns: a structure, or one of the three pointers that stand for an error. -/
inductive Returned where
  | parsed (cmd : OwnedCmd)
  | failed (error : ParserError)
deriving DecidableEq, Repr

/-! ### Freeing -/

/-- The values of the options. -/
def optionBlocks (options : List OwnedOption) : List Nat :=
  options.filterMap fun option => option.value.map Token.block

def argvBlocks : Option (Nat × List Token) → List Nat
  | none => []
  | some (array, args) => args.map Token.block ++ [array]

/-- The blocks that `cmd_parse_free` frees, in this order. -/
def OwnedCmd.blocks (cmd : OwnedCmd) : List Nat :=
  optionBlocks cmd.options ++ cmd.array.toList ++ argvBlocks cmd.argv ++ [cmd.block]

/-- `cmd_parse_free` on a structure. -/
def freeCmd (cmd : OwnedCmd) (m : Ledger) : Ledger := m.freeAll cmd.blocks

/-- `cmd_parse_free`. There is no result if it follows a pointer that stands for an error: it knows two of the
three. -/
def cmdParseFree (returned : Returned) (m : Ledger) : Option Ledger :=
  match returned with
  | .failed .missingArgument => some m
  | .failed .unknownOption => some m
  | .failed .emptyCommand => none
  | .parsed cmd => some (freeCmd cmd m)

/-- `unlink_arg_list`, from the last cell on. -/
def unlinkArgList (arguments : List ArgCell) (m : Ledger) : Ledger :=
  m.freeAll (arguments.reverse.map ArgCell.block)

/-- `free_arg_list`, from the last cell on. -/
def freeArgList (arguments : List ArgCell) (m : Ledger) : Ledger :=
  m.freeAll (arguments.reverse.flatMap fun cell => [cell.token.block, cell.block])

/-- Behind the label `parse_error`. -/
def parseError (error : ParserError) (cmd : OwnedCmd) (arguments : List ArgCell) (token : Option Token)
    (m : Ledger) : Returned × Ledger :=
  (.failed error, (freeArgList arguments (freeCmd cmd m)).freeAll (token.map Token.block).toList)

/-! ### Parsing -/

/-- The option that a token names is marked; the value of an earlier occurrence is freed. -/
def OwnedOption.mark (option : OwnedOption) (m : Ledger) : OwnedOption × Ledger :=
  match option.isInCmd, option.value with
  | true, some token => ({ option with value := none }, m.free token.block)
  | _, _ => ({ option with isInCmd := true }, m)

def OwnedCmd.mark (cmd : OwnedCmd) (i : Nat) (m : Ledger) : OwnedCmd × Ledger :=
  match cmd.options[i]? with
  | some option => ({ cmd with options := cmd.options.set i (option.mark m).1 }, (option.mark m).2)
  | none => (cmd, m)

def OwnedCmd.setValue (cmd : OwnedCmd) (i : Nat) (token : Token) : OwnedCmd :=
  { cmd with options := cmd.options.modify i fun option => { option with value := some token } }

/-- Behind the loop: `argv` takes the tokens over from the list. -/
def finish (cmd : OwnedCmd) (arguments : List ArgCell) (m : Ledger) : Returned × Ledger :=
  if arguments = [] then parseError .emptyCommand cmd arguments none m
  else
    (.parsed { cmd with argv := some (m.next, arguments.reverse.map ArgCell.token) }, unlinkArgList arguments m.malloc)

/-- The loop over the tokens. -/
def ownedLoop (template : List OptionTemplate) (cursor : CString) (cmd : OwnedCmd) (arguments : List ArgCell)
    (m : Ledger) : Returned × Ledger :=
  match _got : getToken cursor with
  | none => finish cmd arguments m
  | some (text, cursor') =>
    if tokenKind text = .argument then
      -- the token, then the cell of the list
      ownedLoop template cursor' cmd (⟨m.malloc.next, ⟨m.next, text⟩⟩ :: arguments) m.malloc.malloc
    else
      match findOption template (tokenKind text) with
      | none => parseError .unknownOption cmd arguments (some ⟨m.next, text⟩) m.malloc
      | some i =>
        -- the token is freed before the option is marked
        if requiresArgument template i then
          match _got' : getToken cursor' with
          | none =>
            parseError .missingArgument (cmd.mark i (m.malloc.free m.next)).1 arguments none
              (cmd.mark i (m.malloc.free m.next)).2
          | some (text', cursor'') =>
            ownedLoop template cursor''
              ((cmd.mark i (m.malloc.free m.next)).1.setValue i ⟨(cmd.mark i (m.malloc.free m.next)).2.next, text'⟩)
              arguments (cmd.mark i (m.malloc.free m.next)).2.malloc
        else
          ownedLoop template cursor' (cmd.mark i (m.malloc.free m.next)).1 arguments
            (cmd.mark i (m.malloc.free m.next)).2
termination_by cursor.length
decreasing_by
  · exact getToken_shorter _got
  · exact Nat.lt_trans (getToken_shorter _got') (getToken_shorter _got)
  · exact getToken_shorter _got

/-- `cmd_parse`. `null` says whether `calloc` returns NULL where it is asked for no elements. -/
def ownedParse (cmd : CString) (template : Option (List OptionTemplate)) (null : Bool) : Returned × Ledger :=
  match template with
  | none => ownedLoop [] cmd ⟨Ledger.empty.next, none, [], none⟩ [] Ledger.empty.malloc
  | some entries =>
    if entries = [] ∧ null then ownedLoop [] cmd ⟨Ledger.empty.next, none, [], none⟩ [] Ledger.empty.malloc
    else
      ownedLoop entries cmd ⟨Ledger.empty.next, some Ledger.empty.malloc.next, entries.map fun _ => {}, none⟩ []
        Ledger.empty.malloc.malloc

/-! ### Who owns which block -/

/-- The caller owns what a parsed command holds. -/
def Returned.blocks : Returned → List Nat
  | .parsed cmd => cmd.blocks
  | .failed _ => []

def argBlocks (arguments : List ArgCell) : List Nat :=
  arguments.flatMap fun cell => [cell.token.block, cell.block]

/-- What holds in front of every token. -/
structure Holds (template : List OptionTemplate) (cmd : OwnedCmd) (arguments : List ArgCell) (m : Ledger) : Prop where
  owns : m.Owns (cmd.blocks ++ argBlocks arguments)
  argv : cmd.argv = none
  size : cmd.options.length = template.length
  marked : ∀ option ∈ cmd.options, option.value.isSome → option.isInCmd = true

variable {template : List OptionTemplate} {cmd : OwnedCmd} {arguments : List ArgCell} {m : Ledger} {i : Nat}
  {options : List OwnedOption} {option : OwnedOption} {rest : List Nat} {error : ParserError}

theorem parseError_owns {token : Option Token}
    (owns : m.Owns (cmd.blocks ++ (argBlocks arguments ++ (token.map Token.block).toList))) :
    (parseError error cmd arguments token m).2.Owns [] := by
  have same : (arguments.reverse.flatMap fun cell => [cell.token.block, cell.block]).Perm (argBlocks arguments) :=
    List.Perm.flatMap_right _ (List.reverse_perm arguments)
  have cells : (freeCmd cmd m).Owns _ := owns.freeAll.perm (same.append_right _)
  have token' : (freeArgList arguments (freeCmd cmd m)).Owns _ := cells.freeAll
  exact Ledger.Owns.freeAll (by simpa using token')

theorem argBlocks_perm (arguments : List ArgCell) :
    (argBlocks arguments).Perm (arguments.reverse.map ArgCell.block ++
      (arguments.reverse.map ArgCell.token).map Token.block) := by
  induction arguments with
  | nil => exact List.Perm.refl _
  | cons cell arguments ih =>
    rw [List.perm_iff_count] at ih ⊢
    intro b
    have others := ih b
    simp only [List.count_append, argBlocks, List.flatMap_cons, List.reverse_cons, List.map_append, List.map_cons,
      List.map_nil, List.count_cons, List.count_nil] at others ⊢
    omega

theorem finish_owns (holds : Holds template cmd arguments m) :
    (finish cmd arguments m).2.Owns (finish cmd arguments m).1.blocks := by
  unfold finish
  split
  next empty =>
    apply parseError_owns
    simpa using holds.owns
  next nonempty =>
    refine Ledger.Owns.freeAll (holds.owns.malloc.perm ?_)
    -- the cells go, and `argv` takes the tokens over
    rw [List.perm_iff_count]
    intro b
    have cells := (argBlocks_perm arguments).count_eq b
    simp only [Returned.blocks, OwnedCmd.blocks, holds.argv, argvBlocks, List.count_append, List.count_cons,
      List.count_nil] at cells ⊢
    omega

theorem optionBlocks_cons (option : OwnedOption) (options : List OwnedOption) :
    optionBlocks (option :: options) = (option.value.map Token.block).toList ++ optionBlocks options := by
  cases value : option.value <;> simp [optionBlocks, value]

/-- The values of the options apart from one of them. -/
theorem optionBlocks_set (here : options[i]? = some option) :
    ∃ others, (optionBlocks options).Perm ((option.value.map Token.block).toList ++ others) ∧
      ∀ option', (optionBlocks (options.set i option')).Perm ((option'.value.map Token.block).toList ++ others) := by
  induction options generalizing i with
  | nil => simp at here
  | cons first options ih =>
    cases i with
    | zero =>
      simp only [List.getElem?_cons_zero, Option.some.injEq] at here
      subst here
      refine ⟨optionBlocks options, ?_, ?_⟩
      · rw [optionBlocks_cons]
      · intro option'
        rw [List.set_cons_zero, optionBlocks_cons]
    | succ i =>
      rw [List.getElem?_cons_succ] at here
      obtain ⟨others, before, after⟩ := ih here
      refine ⟨(first.value.map Token.block).toList ++ others, ?_, ?_⟩
      · rw [optionBlocks_cons]
        exact (before.append_left _).trans (List.perm_append_comm_assoc ..)
      · intro option'
        rw [List.set_cons_succ, optionBlocks_cons]
        exact ((after option').append_left _).trans (List.perm_append_comm_assoc ..)

theorem blocks_perm {others : List Nat} (same : (optionBlocks cmd.options).Perm others) :
    (cmd.blocks ++ rest).Perm (others ++ (cmd.array.toList ++ argvBlocks cmd.argv ++ [cmd.block] ++ rest)) := by
  unfold OwnedCmd.blocks
  simp only [List.append_assoc]
  exact same.append_right _

/-- Marking an option frees the value that it had, and leaves it without one. -/
theorem mark_holds (holds : Holds template cmd arguments m) (known : i < template.length) :
    Holds template (cmd.mark i m).1 arguments (cmd.mark i m).2 ∧
      ∃ option, (cmd.mark i m).1.options[i]? = some option ∧ option.value = none ∧ option.isInCmd = true := by
  have inside : i < cmd.options.length := by rw [holds.size]; exact known
  have here : cmd.options[i]? = some cmd.options[i] := List.getElem?_eq_getElem inside
  generalize cmd.options[i] = option at here
  have member : option ∈ cmd.options := List.mem_of_getElem? here
  have marked := holds.marked option member
  obtain ⟨others, before, after⟩ := optionBlocks_set here
  have owns := holds.owns.perm (blocks_perm before).symm
  have result : cmd.mark i m = ({ cmd with options := cmd.options.set i (option.mark m).1 }, (option.mark m).2) := by
    simp [OwnedCmd.mark, here]
  rw [result]
  -- by the value: freed, or absent
  have fresh : (option.mark m).1.value = none ∧ (option.mark m).1.isInCmd = true ∧
      (option.mark m).2.Owns (others ++ (cmd.array.toList ++ argvBlocks cmd.argv ++ [cmd.block] ++
        argBlocks arguments)) := by
    cases value : option.value with
    | none => simpa [OwnedOption.mark, value] using owns
    | some token =>
      have present : option.isInCmd = true := marked (by simp [value])
      rw [value] at owns
      simpa [OwnedOption.mark, value, present] using owns.free
  obtain ⟨empty, present, owns'⟩ := fresh
  have blocks := after (option.mark m).1
  rw [empty] at blocks
  refine ⟨⟨owns'.perm (blocks_perm blocks), holds.argv, ?_, ?_⟩, (option.mark m).1, ?_, empty, present⟩
  · simpa using holds.size
  · intro other found value
    rcases List.mem_or_eq_of_mem_set found with old | rfl
    · exact holds.marked other old value
    · exact present
  · simp [inside]

/-- An option without a value takes the next block over. -/
theorem setValue_holds (holds : Holds template cmd arguments m) (here : cmd.options[i]? = some option)
    (empty : option.value = none) (present : option.isInCmd = true) (text : CString) :
    Holds template (cmd.setValue i ⟨m.next, text⟩) arguments m.malloc := by
  obtain ⟨others, before, after⟩ := optionBlocks_set here
  rw [empty] at before
  have inside : i < cmd.options.length := (List.getElem?_eq_some_iff.mp here).1
  have same : cmd.options[i] = option := (List.getElem?_eq_some_iff.mp here).2
  have result : cmd.setValue i ⟨m.next, text⟩ =
      { cmd with options := cmd.options.set i { option with value := some ⟨m.next, text⟩ } } := by
    simp [OwnedCmd.setValue, List.modify_eq_set_getElem?, here]
  rw [result]
  have owns := (holds.owns.perm (blocks_perm before).symm).malloc
  refine ⟨owns.perm ((blocks_perm (after _)).trans (.of_eq ?_)), holds.argv, ?_, ?_⟩
  · simp
  · simpa using holds.size
  · intro other found value
    rcases List.mem_or_eq_of_mem_set found with old | rfl
    · exact holds.marked other old value
    · exact present

/-- A positional token and the cell that takes it over. -/
theorem push_holds (holds : Holds template cmd arguments m) (text : CString) :
    Holds template cmd (⟨m.malloc.next, ⟨m.next, text⟩⟩ :: arguments) m.malloc.malloc := by
  refine ⟨holds.owns.malloc.malloc.perm ?_, holds.argv, holds.size, holds.marked⟩
  rw [List.perm_iff_count]
  intro b
  simp only [argBlocks, List.flatMap_cons, List.count_append, List.count_cons, List.count_nil]
  omega

theorem findOption_lt {kind : TokenKind} (found : findOption template kind = some i) : i < template.length := by
  cases kind with
  | longName name => exact (List.findIdx?_eq_some_iff_getElem.mp found).1
  | shortName name => exact (List.findIdx?_eq_some_iff_getElem.mp found).1
  | argument => cases found
  | malformed => cases found

/-- Whatever the loop returns, its caller owns what is left. -/
theorem ownedLoop_owns (cursor : CString) (holds : Holds template cmd arguments m) :
    (ownedLoop template cursor cmd arguments m).2.Owns (ownedLoop template cursor cmd arguments m).1.blocks := by
  induction size : cursor.length using Nat.strong_induction_on generalizing cursor cmd arguments m with
  | _ n ih =>
    unfold ownedLoop
    split
    next => exact finish_owns holds
    next text cursor' got =>
      have shorter := size ▸ getToken_shorter got
      split
      next => exact ih _ shorter cursor' (push_holds holds text) rfl
      next =>
        split
        next =>
          apply parseError_owns
          apply holds.owns.malloc.perm
          rw [List.perm_iff_count]
          intro b
          simp only [List.count_append, List.count_cons, Option.map_some, Option.toList_some, List.count_nil]
          omega
        next i found =>
          have freed : Holds template cmd arguments (m.malloc.free m.next) :=
            ⟨holds.owns.malloc.free, holds.argv, holds.size, holds.marked⟩
          obtain ⟨holds', option, here, empty, present⟩ := mark_holds freed (findOption_lt found)
          split
          next =>
            split
            next =>
              apply parseError_owns
              simpa using holds'.owns
            next text' cursor'' got' =>
              exact ih _ (Nat.lt_trans (getToken_shorter got') shorter) cursor''
                (setValue_holds holds' here empty present text') rfl
          next => exact ih _ shorter cursor' holds' rfl

theorem ownedParse_owns (cmd : CString) (template : Option (List OptionTemplate)) (null : Bool) :
    (ownedParse cmd template null).2.Owns (ownedParse cmd template null).1.blocks := by
  have noArray : Holds [] ⟨Ledger.empty.next, none, [], none⟩ [] Ledger.empty.malloc :=
    ⟨owns_empty.malloc, rfl, rfl, by simp⟩
  unfold ownedParse
  split
  next => exact ownedLoop_owns cmd noArray
  next entries =>
    split
    next => exact ownedLoop_owns cmd noArray
    next =>
      refine ownedLoop_owns cmd ⟨owns_empty.malloc.malloc.perm ?_, rfl, by simp, by simp⟩
      -- none of the options has a value yet
      have values : optionBlocks (entries.map fun _ => {}) = [] := by simp [optionBlocks]
      simp only [OwnedCmd.blocks, values]
      exact List.Perm.refl _

/-! ### The same parser -/

def OwnedOption.erase (option : OwnedOption) : ParsedOption :=
  ⟨option.isInCmd, option.value.map Token.text⟩

/-- The texts without the blocks that hold them. -/
def Returned.erase : Returned → Except ParserError ParsedCmd
  | .parsed cmd => .ok ⟨cmd.options.map OwnedOption.erase,
      ((cmd.argv.map Prod.snd).getD []).map Token.text⟩
  | .failed error => .error error

theorem erase_mark (option : OwnedOption) (m : Ledger) : (option.mark m).1.erase = markPresent option.erase := by
  obtain ⟨isInCmd, value⟩ := option
  cases isInCmd <;> cases value <;> simp [OwnedOption.mark, OwnedOption.erase, markPresent]

theorem options_mark (cmd : OwnedCmd) (i : Nat) (m : Ledger) :
    (cmd.mark i m).1.options.map OwnedOption.erase = (cmd.options.map OwnedOption.erase).modify i markPresent := by
  unfold OwnedCmd.mark
  rw [List.modify_eq_set_getElem?]
  cases here : cmd.options[i]? with
  | none => simp [here]
  | some option => simp [here, erase_mark, List.map_set]

theorem options_setValue (cmd : OwnedCmd) (i : Nat) (token : Token) :
    (cmd.setValue i token).options.map OwnedOption.erase =
      (cmd.options.map OwnedOption.erase).modify i fun o => { o with value := some token.text } := by
  unfold OwnedCmd.setValue
  rw [List.modify_eq_set_getElem?, List.modify_eq_set_getElem?]
  cases here : cmd.options[i]? with
  | none => simp [here]
  | some option => simp [here, OwnedOption.erase, List.map_set]

/-- What `cmdParse` does with the outcome of its loop. -/
def conclude (result : List ParsedOption × List CString) : Except ParserError ParsedCmd :=
  if result.2 = [] then .error .emptyCommand else .ok ⟨result.1, result.2.reverse⟩

/-- The parser that keeps track of its blocks does what the parser does. -/
theorem ownedLoop_erase (cursor : CString) (cmd : OwnedCmd) (arguments : List ArgCell) (m : Ledger) :
    (ownedLoop template cursor cmd arguments m).1.erase =
      (cmdParseLoop template cursor (cmd.options.map OwnedOption.erase)
        (arguments.map fun cell => cell.token.text)).bind conclude := by
  induction size : cursor.length using Nat.strong_induction_on generalizing cursor cmd arguments m with
  | _ n ih =>
    unfold ownedLoop
    split
    next got =>
      rw [cmdParseLoop_end got]
      unfold finish
      split
      next empty => simp [empty, parseError, Returned.erase, Except.bind, conclude]
      next nonempty =>
        simp [nonempty, Returned.erase, Except.bind, conclude, Function.comp_def]
    next text cursor' got =>
      have shorter := size ▸ getToken_shorter got
      rw [cmdParseLoop_token got]
      by_cases isArgument : tokenKind text = .argument
      · rw [if_pos isArgument, if_pos isArgument]
        exact ih _ shorter cursor' cmd _ _ rfl
      · rw [if_neg isArgument, if_neg isArgument]
        cases findOption template (tokenKind text) with
        | none => rfl
        | some i =>
          dsimp only
          by_cases required : requiresArgument template i = true
          · rw [if_pos required, if_pos required]
            split
            next none_ =>
              rw [none_]
              rfl
            next text' cursor'' got' =>
              rw [got', ih _ (Nat.lt_trans (getToken_shorter got') shorter) cursor'' _ _ _ rfl, options_setValue,
                options_mark, List.modify_modify_eq]
              rfl
          · rw [if_neg required, if_neg required, ih _ shorter cursor' _ _ _ rfl, options_mark]

theorem ownedParse_erase (cmd : CString) (template : Option (List OptionTemplate)) (null : Bool) :
    (ownedParse cmd template null).1.erase = cmdParse cmd template := by
  have concluded : ∀ entries : List OptionTemplate, cmdParse cmd (some entries) =
      (cmdParseLoop entries cmd (entries.map fun _ => {}) []).bind conclude := by
    intro entries
    simp only [cmdParse, Option.getD_some]
    cases cmdParseLoop entries cmd (entries.map fun _ => {}) [] with
    | error e => rfl
    | ok result =>
      by_cases empty : result.2 = []
      · simp [bind, Except.bind, conclude, empty, throw, throwThe, MonadExceptOf.throw]
      · simp [bind, Except.bind, conclude, empty, pure, Except.pure]
  have noTemplate : cmdParse cmd none = cmdParse cmd (some []) := rfl
  unfold ownedParse
  split
  next => rw [ownedLoop_erase, noTemplate, concluded]; rfl
  next entries =>
    split
    next empty => rw [ownedLoop_erase, concluded, empty.1]; rfl
    next =>
      rw [ownedLoop_erase, concluded]
      simp [OwnedOption.erase]

/-! ### Commands without an argument -/

/-- Every token is a known option or the value of one. -/
def OnlyOptions (entries : List OptionTemplate) : List CString → Prop
  | [] => True
  | token :: tokens =>
    ¬ Positional token ∧
      match denotes entries token with
      | none => False
      | some i =>
        if requiresArgument entries i then
          match tokens with
          | [] => False
          | _ :: tokens => OnlyOptions entries tokens
        else OnlyOptions entries tokens

theorem map_ok_iff {result : Except ParserError (List Item)} {item : Item} (noToken : item.token = none) :
    (∃ parts, result.map (item :: ·) = .ok parts ∧ parts.filterMap Item.token = []) ↔
      ∃ parts, result = .ok parts ∧ parts.filterMap Item.token = [] := by
  cases result with
  | error e => simp [Except.map]
  | ok parts => simp [Except.map, noToken]

theorem onlyOptions_iff (entries : List OptionTemplate) (tokens : List CString) :
    OnlyOptions entries tokens ↔ ∃ parts, items entries tokens = .ok parts ∧ parts.filterMap Item.token = [] := by
  fun_induction items entries tokens with
  | case1 => simp [OnlyOptions]
  | case2 token tokens positional ih =>
    -- a positional token ends up in `argv`
    rw [OnlyOptions.eq_def]
    have kept : (Item.positional token).token = some token := rfl
    cases items entries tokens <;> simp [positional, Except.map, kept]
  | case3 token tokens option unknown =>
    rw [OnlyOptions.eq_def]
    simp [unknown]
  | case4 token option i known required =>
    rw [OnlyOptions.eq_def]
    simp [known, required]
  | case5 token option i known required value tokens ih =>
    rw [map_ok_iff rfl, ← ih, OnlyOptions.eq_def]
    simp [option, known, required]
  | case6 token tokens option i known free ih =>
    rw [map_ok_iff rfl, ← ih, OnlyOptions.eq_def]
    simp [option, known, free]

theorem items_error (entries : List OptionTemplate) (tokens : List CString) :
    items entries tokens ≠ .error .emptyCommand := by
  fun_induction items entries tokens with
  | case1 => simp
  | case2 token tokens positional ih => cases read : items entries tokens <;> simp_all [Except.map]
  | case3 | case4 => simp
  | case5 token option i known required value tokens ih =>
    cases read : items entries tokens <;> simp_all [Except.map]
  | case6 token tokens option i known free ih => cases read : items entries tokens <;> simp_all [Except.map]

/-- The parser finds a command empty if and only if all it consists of is options. -/
theorem cmdParse_empty_iff (cmd : CString) (template : Option (List OptionTemplate)) :
    cmdParse cmd template = .error .emptyCommand ↔ OnlyOptions (template.getD []) (words isADelimiter cmd) := by
  have noOther := items_error (template.getD []) (words isADelimiter cmd)
  rw [cmdParse_items, onlyOptions_iff]
  generalize items (template.getD []) _ = read at noOther ⊢
  cases read with
  | error e => simpa [Except.bind] using noOther
  | ok parts => simp [Except.bind]

/-! ### `cmd_parse` and then `cmd_parse_free` -/

end Pire2Pire.Protocol
