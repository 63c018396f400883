import Pire2Pire.Protocol.CmdGrammar

/-! Reading the options of a parsed command (`cmd_get_next_opt` and `cmd_get_opt_value` of `util/cmd_parser.c`), in
the loop of `cmd_parser/main.c`.

A `char` is a byte here, so that of the value -1 is `'\xff'`. -/
namespace Pire2Pire.Protocol

open Library

/-- What `cmd_get_next_opt` returns when no option is left. -/
def noOptLeft : Char := '\xff'

/-- The loop of `cmd_get_next_opt` from the entries that are left. The terminating entry is the end of the list. No
result where it reads behind the options of the command. -/
def nextOptFrom (options : List ParsedOption) : List OptionTemplate → Nat → Option (Char × Nat)
  | [], optionIndex => some (noOptLeft, optionIndex)
  | entry :: left, optionIndex => do
    let option ← options[optionIndex]?
    if option.isInCmd then return (entry.shortName, optionIndex + 1)
    else nextOptFrom options left (optionIndex + 1)

/-- The `char` returned, and `*option_index` afterwards. -/
def cmdGetNextOpt (pcmd : ParsedCmd) (template : Option (List OptionTemplate)) (optionIndex : Nat) :
    Option (Char × Nat) :=
  match template with
  | none => some (noOptLeft, optionIndex)
  | some entries =>
    if optionIndex ≤ entries.length then nextOptFrom pcmd.options (entries.drop optionIndex) optionIndex else none

/-- The string returned; no result where the index in front of `*option_index` is none of the template. -/
def cmdGetOptValue (pcmd : ParsedCmd) (template : Option (List OptionTemplate)) (optionIndex : Nat) :
    Option (Option CString) :=
  match template, optionIndex with
  | none, _ => some none
  | some _, 0 => none
  | some entries, i + 1 => do
    let entry ← entries[i]?
    if entry.optArg = .noArg then return none
    else
      let option ← pcmd.options[i]?
      return option.value

/-- `n` calls of `cmd_get_next_opt`, each followed by one of `cmd_get_opt_value`: what they return, and the index
afterwards. -/
def optCalls (pcmd : ParsedCmd) (template : Option (List OptionTemplate)) :
    Nat → Nat → Option (List (Char × Option CString) × Nat)
  | 0, optIndex => some ([], optIndex)
  | n + 1, optIndex => do
    let (optRead, optIndex) ← cmdGetNextOpt pcmd template optIndex
    let optValue ← cmdGetOptValue pcmd template optIndex
    let (later, optIndex) ← optCalls pcmd template n optIndex
    return ((optRead, optValue) :: later, optIndex)

/-- `while ((opt_read = cmd_get_next_opt (pcmd, options, &opt_index)))`: what is read in each round. No result while it
goes on. -/
def readOpts (pcmd : ParsedCmd) (template : Option (List OptionTemplate)) :
    Nat → Nat → Option (List (Char × Option CString))
  | 0, _ => none
  | fuel + 1, optIndex => do
    let (optRead, optIndex) ← cmdGetNextOpt pcmd template optIndex
    if optRead = '\x00' then return []
    else
      let optValue ← cmdGetOptValue pcmd template optIndex
      let later ← readOpts pcmd template fuel optIndex
      return (optRead, optValue) :: later

/-- The value of the last occurrence of the option `i`. -/
def lastValue (parts : List Item) (entry : OptionTemplate) (i : Nat) : Option CString :=
  if entry.optArg = .noArg then none else (parts.filterMap (Item.valueFor i)).getLast?

/-- The options that occur in a command by the grammar, each once and in the order of the template, from the entry `i`
on. -/
def presentFrom (parts : List Item) : List OptionTemplate → Nat → List (Char × Option CString)
  | [], _ => []
  | entry :: left, i =>
    if parts.any (Item.isOption i) then
      (entry.shortName, lastValue parts entry i) :: presentFrom parts left (i + 1)
    else presentFrom parts left (i + 1)

/-- The documented loop, which ends with 0, ends and has read the options of the command. -/
def OptionsRead (cmd : CString) (template : Option (List OptionTemplate)) (pcmd : ParsedCmd) : Prop :=
  ∃ parts fuel, items (template.getD []) (words isADelimiter cmd) = .ok parts ∧
    readOpts pcmd template fuel 0 = some (presentFrom parts (template.getD []) 0)

variable {cmd : CString} {template : Option (List OptionTemplate)} {pcmd : ParsedCmd} {options : List ParsedOption}
  {entries left : List OptionTemplate} {entry : OptionTemplate} {parts : List Item} {i j : Nat} {c : Char}

/-! ### The end of the loop -/

/-- The function returns the short name of an entry or the value for the end. -/
theorem nextOptFrom_cases (returned : nextOptFrom options left i = some (c, j)) :
    c = noOptLeft ∨ ∃ entry ∈ left, c = entry.shortName := by
  induction left generalizing i with
  | nil =>
    cases returned
    exact .inl rfl
  | cons entry left ih =>
    rw [nextOptFrom, Option.bind_eq_bind, Option.bind_eq_some_iff] at returned
    obtain ⟨option, -, returned⟩ := returned
    split at returned
    · cases returned
      exact .inr ⟨entry, List.mem_cons_self, rfl⟩
    · rcases ih returned with last | ⟨entry', member, same⟩
      · exact .inl last
      · exact .inr ⟨entry', List.mem_cons_of_mem _ member, same⟩

theorem cmdGetNextOpt_cases (returned : cmdGetNextOpt pcmd template i = some (c, j)) :
    c = noOptLeft ∨ ∃ entry ∈ template.getD [], c = entry.shortName := by
  unfold cmdGetNextOpt at returned
  split at returned
  · cases returned
    exact .inl rfl
  next entries =>
    split at returned
    · rcases nextOptFrom_cases returned with last | ⟨entry, member, same⟩
      · exact .inl last
      · exact .inr ⟨entry, List.mem_of_mem_drop member, same⟩
    · cases returned

/-- Zero is the short name of the terminating entry only. -/
theorem cmdGetNextOpt_ne_zero (named : ∀ entry ∈ template.getD [], entry.shortName ≠ '\x00')
    (returned : cmdGetNextOpt pcmd template i = some (c, j)) : c ≠ '\x00' := by
  rcases cmdGetNextOpt_cases returned with rfl | ⟨entry, member, rfl⟩
  · decide
  · exact named entry member

theorem readOpts_endless (named : ∀ entry ∈ template.getD [], entry.shortName ≠ '\x00') (fuel i : Nat) :
    readOpts pcmd template fuel i = none := by
  induction fuel generalizing i with
  | zero => rfl
  | succ fuel ih =>
    rw [readOpts]
    cases returned : cmdGetNextOpt pcmd template i with
    | none => rfl
    | some next =>
      obtain ⟨c, j⟩ := next
      simp only [Option.bind_eq_bind, Option.bind_some, if_neg (cmdGetNextOpt_ne_zero named returned), ih j,
        Option.bind_none, Option.bind_fun_none]

/-! ### What the calls return -/

/-- The options of a parsed command, by the grammar. -/
def grammarOptions (parts : List Item) (entries : List OptionTemplate) : List ParsedOption :=
  entries.mapIdx fun i _ => ⟨parts.any (Item.isOption i), (parts.filterMap (Item.valueFor i)).getLast?⟩

theorem grammarOptions_getElem? (parts : List Item) (inside : entries[i]? = some entry) :
    (grammarOptions parts entries)[i]? =
      some ⟨parts.any (Item.isOption i), (parts.filterMap (Item.valueFor i)).getLast?⟩ := by
  rw [grammarOptions, List.getElem?_mapIdx, inside, Option.map_some]

/-- The next option by the grammar is the one that is returned, and its value is the one at the index then. -/
theorem nextOptFrom_present (options_ : pcmd.options = grammarOptions parts entries) (left_ : entries.drop i = left) :
    (presentFrom parts left i = [] ∧ nextOptFrom pcmd.options left i = some (noOptLeft, i + left.length)) ∨
      ∃ c value j, presentFrom parts left i = (c, value) :: presentFrom parts (entries.drop j) j ∧
        j ≤ entries.length ∧ nextOptFrom pcmd.options left i = some (c, j) ∧
        cmdGetOptValue pcmd (some entries) j = some value := by
  induction left generalizing i with
  | nil => exact .inl ⟨rfl, rfl⟩
  | cons entry left ih =>
    have here : entries[i]? = some entry := by
      rw [← List.head?_drop, left_, List.head?_cons]
    have behind : entries.drop (i + 1) = left := by
      rw [← List.tail_drop, left_, List.tail_cons]
    have option := grammarOptions_getElem? parts here
    rw [nextOptFrom, presentFrom, options_, option]
    simp only [Option.bind_eq_bind, Option.bind_some]
    by_cases present : parts.any (Item.isOption i) = true
    · rw [if_pos present, if_pos present]
      refine .inr ⟨entry.shortName, lastValue parts entry i, i + 1, ?_, ?_, rfl, ?_⟩
      · rw [behind]
      · have inside := (List.getElem?_eq_some_iff.mp here).1
        omega
      · simp only [cmdGetOptValue, here, options_, option, Option.bind_eq_bind, Option.bind_some, lastValue]
        split <;> rfl
    · rw [if_neg present, if_neg present, ← options_]
      rcases ih behind with ⟨none_, returned⟩ | later
      · refine .inl ⟨none_, ?_⟩
        rw [returned, List.length_cons]
        congr 2
        omega
      · exact .inr later

/-- The calls return what is present, and the next call the value for the end, as does every call after it. -/
theorem optCalls_present (options_ : pcmd.options = grammarOptions parts entries) (inside : i ≤ entries.length) :
    ∃ j, optCalls pcmd (some entries) (presentFrom parts (entries.drop i) i).length i =
        some (presentFrom parts (entries.drop i) i, j) ∧
      cmdGetNextOpt pcmd (some entries) j = some (noOptLeft, entries.length) := by
  induction size : (presentFrom parts (entries.drop i) i).length generalizing i with
  | zero =>
    -- nothing is left, so the first call is the last
    refine ⟨i, ?_, ?_⟩
    · rw [List.length_eq_zero_iff.mp size]
      rfl
    · rcases nextOptFrom_present options_ rfl with ⟨-, returned⟩ | ⟨c, value, j, present, -⟩
      · rw [cmdGetNextOpt, if_pos inside, returned, List.length_drop]
        congr 2
        omega
      · rw [present] at size
        cases size
  | succ n ih =>
    rcases nextOptFrom_present options_ rfl with ⟨none_, -⟩ | ⟨c, value, j, present, inside', returned, read⟩
    · rw [none_] at size
      cases size
    · rw [present, List.length_cons, Nat.succ_inj] at size
      obtain ⟨k, later, ended⟩ := ih inside' size
      refine ⟨k, ?_, ended⟩
      have first : cmdGetNextOpt pcmd (some entries) i = some (c, j) := by
        rw [cmdGetNextOpt, if_pos inside, returned]
      rw [optCalls, first]
      simp only [Option.bind_eq_bind, Option.bind_some, read, later, present]
      rfl

/-- The calls read the options of the command as documented, but the loop over them never ends: after the last option
it is -1 that is returned, not 0. -/
theorem options_read_endlessly (named : ∀ entry ∈ template.getD [], entry.shortName ≠ '\x00')
    (parse : cmdParse cmd template = .ok pcmd) :
    ¬ OptionsRead cmd template pcmd ∧
      ∃ parts i j, items (template.getD []) (words isADelimiter cmd) = .ok parts ∧
        optCalls pcmd template (presentFrom parts (template.getD []) 0).length 0 =
          some (presentFrom parts (template.getD []) 0, i) ∧
        cmdGetNextOpt pcmd template i = some (noOptLeft, j) ∧
        cmdGetNextOpt pcmd template j = some (noOptLeft, j) := by
  constructor
  · rintro ⟨parts, fuel, -, ended⟩
    rw [readOpts_endless named] at ended
    cases ended
  · obtain ⟨parts, read, -, -, options_⟩ := cmdParse_ok_iff.mp parse
    refine ⟨parts, ?_⟩
    cases template with
    | none => exact ⟨0, 0, read, rfl, rfl, rfl⟩
    | some entries =>
      obtain ⟨i, calls, ended⟩ := optCalls_present (i := 0) options_ (Nat.zero_le _)
      refine ⟨i, entries.length, read, calls, ended, ?_⟩
      rw [cmdGetNextOpt, if_pos le_rfl, List.drop_length]
      rfl

/-- The template of `main.c`, and a command with one of its options. -/
def mainOptions : List OptionTemplate :=
  [⟨'e', "exclude".toList, .argRequired⟩, ⟨'g', "gay".toList, .argRequired⟩, ⟨'r', "recursive".toList, .noArg⟩,
    ⟨'t', "tomato".toList, .argRequired⟩]

theorem mainOptions_parsed :
    cmdParse "list -e foo -r bla --exclude bar".toList (some mainOptions) =
      .ok ⟨[⟨true, some "bar".toList⟩, ⟨false, none⟩, ⟨true, none⟩, ⟨false, none⟩], ["list".toList, "bla".toList]⟩ := by
  rw [cmdParse_items]
  decide +kernel

theorem mainOptions_read_endlessly :
    ¬ OptionsRead "list -e foo -r bla --exclude bar".toList (some mainOptions)
      ⟨[⟨true, some "bar".toList⟩, ⟨false, none⟩, ⟨true, none⟩, ⟨false, none⟩], ["list".toList, "bla".toList]⟩ := by
  have named : ∀ entry ∈ (some mainOptions).getD [], entry.shortName ≠ '\x00' := by decide
  exact (options_read_endlessly named mainOptions_parsed).1

/-- The loop of `main.c` does not end. -/
theorem main_does_not_end :
    ¬ ∀ cmd template pcmd, (∀ entry ∈ template.getD [], entry.shortName ≠ '\x00') →
      cmdParse cmd template = .ok pcmd → OptionsRead cmd template pcmd := by
  intro ends
  have named : ∀ entry ∈ (some mainOptions).getD [], entry.shortName ≠ '\x00' := by decide
  obtain ⟨parts, fuel, -, ended⟩ := ends _ (some mainOptions) _ named mainOptions_parsed
  rw [readOpts_endless named] at ended
  cases ended

end Pire2Pire.Protocol
