import Pire2Pire.Protocol.CmdParser

/-! The grammar of commands, and that `cmd_parse` meets it. -/
namespace Pire2Pire.Protocol

open Library

/-! ### The grammar -/

/-- A token that is no option. -/
def Positional (token : CString) : Prop :=
  token.head? ≠ some '-' ∨ token = "-".toList ∨ token = "--".toList

instance (token : CString) : Decidable (Positional token) :=
  inferInstanceAs (Decidable (_ ∨ _ ∨ _))

/-- The first entry with the long name of `--name` or the short name of `-c`. -/
def denotes (entries : List OptionTemplate) : CString → Option Nat
  | '-' :: '-' :: name => entries.findIdx? fun entry => entry.longName = name
  | ['-', c] => entries.findIdx? fun entry => entry.shortName = c
  | _ => none

/-- A part of a command: a positional token, or an option with the value that it consumes. -/
inductive Item where
  | positional (token : CString)
  | option (i : Nat) (value : Option CString)
deriving DecidableEq, Repr

/-- The parts of a command, token by token. The first error wins. -/
def items (entries : List OptionTemplate) : List CString → Except ParserError (List Item)
  | [] => .ok []
  | token :: tokens =>
    if Positional token then (items entries tokens).map (.positional token :: ·)
    else
      match denotes entries token with
      | none => .error .unknownOption
      | some i =>
        if requiresArgument entries i then
          match tokens with
          | [] => .error .missingArgument
          | value :: tokens => (items entries tokens).map (.option i (some value) :: ·)
        else (items entries tokens).map (.option i none :: ·)

def Item.token : Item → Option CString
  | .positional token => some token
  | .option .. => none

def Item.isOption (i : Nat) : Item → Bool
  | .positional _ => false
  | .option j _ => j = i

/-- The value that an item gives to the entry `i`. -/
def Item.valueFor (i : Nat) : Item → Option CString
  | .positional _ => none
  | .option j value => if j = i then value else none

/-- What the grammar says about a command: `argv` are the positional tokens in order, an option is present if it
occurred, and its value is the one of its last occurrence. -/
def reference (cmd : CString) (template : Option (List OptionTemplate)) : Except ParserError ParsedCmd := do
  let entries := template.getD []
  let parts ← items entries (words (fun c => c = ' ' ∨ c = '\n') cmd)
  let argv := parts.filterMap Item.token
  if argv = [] then throw .emptyCommand
  return ⟨entries.mapIdx fun i _ => ⟨parts.any (Item.isOption i), (parts.filterMap (Item.valueFor i)).getLast?⟩, argv⟩

/-! ### The loop over the items -/

variable {entries : List OptionTemplate} {token : CString} {options : List ParsedOption} {parts : List Item}
  {i : Nat}

theorem positional_iff (token : CString) : Positional token ↔ tokenKind token = .argument :=
  (tokenKind_argument_iff token).symm

theorem findOption_denotes (option : ¬ Positional token) :
    findOption entries (tokenKind token) = denotes entries token := by
  rw [positional_iff] at option
  unfold tokenKind at option ⊢
  split at option
  · exact absurd rfl option
  · exact absurd rfl option
  next name _ => rfl
  next c noDash =>
    -- one character behind the dash, and no dash
    unfold denotes
    split
    next name shape =>
      cases shape
      exact absurd rfl noDash
    next c' _ shape =>
      cases shape
      rfl
    next _ notShort => exact absurd rfl (notShort c)
  next rest notDash notDashes notLong notShort =>
    unfold denotes
    split
    next name shape =>
      cases shape
      exact absurd rfl (notLong name)
    next c' _ shape =>
      cases shape
      exact absurd rfl (notShort c')
    next => rfl
  · exact absurd rfl option

/-- What the loop does to the options for an item. -/
def Item.apply (options : List ParsedOption) : Item → List ParsedOption
  | .positional _ => options
  | .option i none => options.modify i markPresent
  | .option i (some value) => options.modify i fun o => { markPresent o with value := some value }

/-- The loop over an item and those behind it. -/
theorem map_front (result : Except ParserError (List Item)) (item : Item) (arguments : List CString) :
    result.map (fun parts => (parts.foldl Item.apply (item.apply options),
        (parts.filterMap Item.token).reverse ++ (item.token.toList ++ arguments))) =
      (result.map (item :: ·)).map fun parts =>
        (parts.foldl Item.apply options, (parts.filterMap Item.token).reverse ++ arguments) := by
  cases result with
  | error e => rfl
  | ok parts =>
    cases item with
    | positional token => simp [Except.map, Item.token]
    | option i value =>
      have noToken : (Item.option i value).token = none := rfl
      simp [Except.map, noToken]

/-- The loop reads off the items of what is left of the command. -/
theorem cmdParseLoop_items (cursor : CString) (options : List ParsedOption) (arguments : List CString) :
    cmdParseLoop entries cursor options arguments =
      (items entries (words isADelimiter cursor)).map fun parts =>
        (parts.foldl Item.apply options, (parts.filterMap Item.token).reverse ++ arguments) := by
  induction size : cursor.length using Nat.strong_induction_on generalizing cursor options arguments with
  | _ n ih =>
    cases got : getToken cursor with
    | none =>
      rw [cmdParseLoop_end got, getToken_none got]
      rfl
    | some found =>
      obtain ⟨token, cursor'⟩ := found
      have shorter := size ▸ getToken_shorter got
      rw [cmdParseLoop_token got, getToken_some got, items]
      by_cases isArgument : tokenKind token = .argument
      · rw [if_pos isArgument, if_pos ((positional_iff token).mpr isArgument), ih _ shorter cursor' _ _ rfl]
        exact map_front _ (.positional token) arguments
      · have option : ¬ Positional token := fun positional => isArgument ((positional_iff token).mp positional)
        rw [if_neg isArgument, if_neg option, findOption_denotes option]
        cases denotes entries token with
        | none => rfl
        | some i =>
          dsimp only
          by_cases required : requiresArgument entries i = true
          · rw [if_pos required, if_pos required]
            -- the next token is the value, whatever it looks like
            cases got' : getToken cursor' with
            | none =>
              rw [getToken_none got']
              rfl
            | some found =>
              obtain ⟨value, cursor''⟩ := found
              dsimp only
              rw [getToken_some got', ih _ (Nat.lt_trans (getToken_shorter got') shorter) cursor'' _ _ rfl]
              exact map_front _ (.option i (some value)) arguments
          · rw [if_neg required, if_neg required, ih _ shorter cursor' _ _ rfl]
            exact map_front _ (.option i none) arguments

/-! ### The options at the end -/

/-- An option that takes no argument never gets a value, and one that takes an argument always does. -/
def Item.Fits (entries : List OptionTemplate) : Item → Prop
  | .positional _ => True
  | .option i value => value.isSome = requiresArgument entries i

theorem items_fit {tokens : List CString} (read : items entries tokens = .ok parts) :
    ∀ item ∈ parts, item.Fits entries := by
  induction size : tokens.length using Nat.strong_induction_on generalizing tokens parts with
  | _ n ih =>
    cases tokens with
    | nil =>
      cases read
      simp
    | cons token tokens =>
      -- every branch puts one item in front of those of a shorter list
      have later : ∀ {rest item}, rest.length < n → item.Fits entries →
          (items entries rest).map (item :: ·) = .ok parts → ∀ item ∈ parts, item.Fits entries := by
        intro rest item shorter fits read
        cases readRest : items entries rest with
        | error e =>
          rw [readRest] at read
          cases read
        | ok parts' =>
          rw [readRest] at read
          cases read
          exact List.forall_mem_cons.mpr ⟨fits, ih _ shorter readRest rfl⟩
      simp only [List.length_cons] at size
      rw [items] at read
      split at read
      · have fits : (Item.positional token).Fits entries := trivial
        exact later (by omega) fits read
      · split at read
        · cases read
        next i _ =>
          split at read
          next required =>
            split at read
            · cases read
            · simp only [List.length_cons] at size
              exact later (by omega) (by simp [Item.Fits, required]) read
          next free =>
            exact later (by omega) (by simpa [Item.Fits] using free) read

/-- What the items make of one option. -/
def described (i : Nat) (o : ParsedOption) (parts : List Item) : ParsedOption :=
  ⟨o.isInCmd || parts.any (Item.isOption i), (parts.filterMap (Item.valueFor i)).getLast?.or o.value⟩

theorem getElem?_apply (item : Item) (fits : item.Fits entries) (free : ∀ o, options[i]? = some o →
      requiresArgument entries i = false → o.value = none) :
    (item.apply options)[i]? = options[i]?.map fun o => described i o [item] := by
  cases item with
  | positional token => simp [Item.apply, described, Item.isOption, Item.valueFor]
  | option j value =>
    by_cases same : j = i
    · subst same
      cases value with
      | some value =>
        simp only [Item.apply, List.getElem?_modify_eq]
        congr 1
        funext o
        unfold markPresent
        split <;> simp_all [described, Item.isOption, Item.valueFor]
      | none =>
        simp only [Item.Fits, Option.isSome_none] at fits
        simp only [Item.apply, List.getElem?_modify_eq]
        cases here : options[j]? with
        | none => rfl
        | some o =>
          have empty := free o here fits.symm
          simp [markPresent, described, Item.isOption, Item.valueFor, empty]
    · cases value <;> simp [Item.apply, described, Item.isOption, Item.valueFor, same]

theorem described_append (o : ParsedOption) (item : Item) (parts : List Item) :
    described i (described i o [item]) parts = described i o (item :: parts) := by
  unfold described
  cases given : item.valueFor i with
  | none => simp [given, Bool.or_assoc]
  | some value =>
    cases last : (parts.filterMap (Item.valueFor i)).getLast? with
    | none => simp [given, Bool.or_assoc, List.getLast?_eq_none_iff.mp last]
    | some value' => simp [given, Bool.or_assoc, List.getLast?_cons, last]

/-- An entry that takes no argument is left without a value. -/
theorem described_free {o : ParsedOption} {item : Item} (fits : item.Fits entries)
    (free : requiresArgument entries i = false) (empty : o.value = none) : (described i o [item]).value = none := by
  cases item with
  | positional token => simpa [described, Item.valueFor] using empty
  | option j value =>
    by_cases same : j = i
    · subst same
      have none_ : value = none := by simpa [Item.Fits, free] using fits
      simp [described, Item.valueFor, none_, empty]
    · simp [described, Item.valueFor, same, empty]

theorem getElem?_foldl_apply (fits : ∀ item ∈ parts, item.Fits entries) (free : ∀ o, options[i]? = some o →
      requiresArgument entries i = false → o.value = none) :
    (parts.foldl Item.apply options)[i]? = options[i]?.map fun o => described i o parts := by
  induction parts generalizing options with
  | nil => simp [described]
  | cons item parts ih =>
    obtain ⟨here, later⟩ := List.forall_mem_cons.mp fits
    have first := getElem?_apply item here free
    rw [List.foldl_cons, ih later, first, Option.map_map]
    · congr 1
      funext o
      exact described_append o item parts
    · intro o there noArgument
      rw [first, Option.map_eq_some_iff] at there
      obtain ⟨o', there', rfl⟩ := there
      exact described_free here noArgument (free o' there' noArgument)

/-- From options that are not set, the loop leaves what the grammar says. -/
theorem foldl_apply_fresh (fits : ∀ item ∈ parts, item.Fits entries) :
    parts.foldl Item.apply (entries.map fun _ => {}) =
      entries.mapIdx fun i _ => ⟨parts.any (Item.isOption i), (parts.filterMap (Item.valueFor i)).getLast?⟩ := by
  apply List.ext_getElem?
  intro i
  rw [getElem?_foldl_apply fits]
  · simp only [described, List.getElem?_map, List.getElem?_mapIdx, Option.map_map, Function.comp_def, Bool.false_or,
      Option.or_none]
  · intro o there _
    rw [List.getElem?_map, Option.map_eq_some_iff] at there
    obtain ⟨entry, -, rfl⟩ := there
    rfl

/-- The result of the parser, by the items. -/
theorem cmdParse_items (cmd : CString) (template : Option (List OptionTemplate)) :
    cmdParse cmd template =
      (items (template.getD []) (words isADelimiter cmd)).bind fun parts =>
        if parts.filterMap Item.token = [] then .error .emptyCommand
        else .ok ⟨(template.getD []).mapIdx fun i _ =>
          ⟨parts.any (Item.isOption i), (parts.filterMap (Item.valueFor i)).getLast?⟩, parts.filterMap Item.token⟩ := by
  unfold cmdParse
  dsimp only
  rw [cmdParseLoop_items]
  cases read : items (template.getD []) (words isADelimiter cmd) with
  | error e => rfl
  | ok parts =>
    have options := foldl_apply_fresh (items_fit read)
    simp only [Except.map, bind, Except.bind, options, List.append_nil, List.reverse_reverse, List.reverse_eq_nil_iff]
    rfl

/-- A command that is parsed has its items, and one of them is an argument. -/
theorem cmdParse_ok_iff {cmd : CString} {template : Option (List OptionTemplate)} {parsed : ParsedCmd} :
    cmdParse cmd template = .ok parsed ↔
      ∃ parts, items (template.getD []) (words isADelimiter cmd) = .ok parts ∧
        parsed.argv = parts.filterMap Item.token ∧ parsed.argv ≠ [] ∧
        parsed.options = (template.getD []).mapIdx fun i _ =>
          ⟨parts.any (Item.isOption i), (parts.filterMap (Item.valueFor i)).getLast?⟩ := by
  rw [cmdParse_items]
  cases items (template.getD []) (words isADelimiter cmd) with
  | error e => simp [Except.bind]
  | ok parts =>
    simp only [Except.bind, Except.ok.injEq, exists_eq_left']
    obtain ⟨options, argv⟩ := parsed
    split
    next empty =>
      simp only [empty, reduceCtorEq, false_iff, not_and]
      intro same nonempty
      exact absurd same nonempty
    next some_ =>
      simp only [Except.ok.injEq, ParsedCmd.mk.injEq]
      constructor
      · rintro ⟨rfl, rfl⟩
        exact ⟨rfl, some_, rfl⟩
      · rintro ⟨rfl, -, rfl⟩
        exact ⟨rfl, rfl⟩

end Pire2Pire.Protocol
