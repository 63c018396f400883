import Pire2Pire.Connections.Neighbours
import Pire2Pire.Library.Scanf
import Pire2Pire.Protocol.SendLock
import Pire2Pire.Protocol.Splitter

/-! What `raw` forwards (`client_requests/client_request_raw.c`) after the `set` and `raw` lines before it: both
handlers walk through their options with the global `optind` of `util/cmd.c`. -/
namespace Pire2Pire.Raw

open Library Protocol Neighbours SendLock

/-! ### Options -/

/-- `struct option`, without the long name, which nothing looks at. -/
structure Opt where
  shortName : CString
  hasArg : Bool
deriving DecidableEq, Repr

def cmdEndOfOptions : Int := -1

def cmdNotAllowedOption : Int := -2

def cmdMissingArgument : Int := -3

/-- The size of `opterror`. -/
def errorSize : Nat := 256

/-- The second character of an argument, or its NUL, as the `int` that a `char` becomes. -/
def optionValue (option : CString) : Int :=
  (option.head?.map fun c => (Int8.ofNat c.toNat).toInt).getD 0

/-- The value returned, and `optind` afterwards. No result where `opterror` is overrun or `argv` left. -/
def cmdGetNextOption (options : List Opt) (argv : List CString) (optind : Nat) : Option (Int × Nat) :=
  if optind = argv.length then some (cmdEndOfOptions, optind)
  else do
    match ← argv[optind]? with
    | '-' :: option =>
      match options.find? fun o => o.shortName = option with
      | none =>
        let _ ← sprintfInto errorSize ("The option ".toList ++ '-' :: (option ++ " is not allowed\n".toList))
        return (cmdNotAllowedOption, optind)
      | some o =>
        if !o.hasArg then return (optionValue option, optind + 1)
        else if optind + 1 = argv.length ∨ argv[optind + 1]?.bind List.head? = some '-' then
          let _ ← sprintfInto errorSize ("The option ".toList ++ '-' :: (option ++ " requires an argument\n".toList))
          return (cmdMissingArgument, optind)
        else return (optionValue option, optind + 2)
    | _ => return (cmdEndOfOptions, optind)

/-- `while ((c = cmd_get_next_option (argc, argv, options)) > 0);` -/
def skipOptions (options : List Opt) (argv : List CString) : Nat → Nat → Option (Int × Nat)
  | 0, _ => none
  | fuel + 1, optind => do
    let (c, optind) ← cmdGetNextOption options argv optind
    if 0 < c then skipOptions options argv fuel optind else return (c, optind)

/-- The table of both handlers. -/
def options : List Opt := []

/-- `argv`, whose length is `argc`. The indices and the count of `cmd_to_argc_argv` are of type `int`. -/
def argcArgv (cmd : CString) : Option (List CString) :=
  if Splitter.Splittable cmd then some (cmdToArgcArgv cmd) else none

/-! ### The handlers -/

/-- The answer to the client, and what `daemon_send` puts on the sockets of the daemons, by their places in the list. -/
structure Outcome where
  answer : Option CString
  sent : List (Nat × CString)
deriving DecidableEq, Repr

/-- The size of `answer`. -/
def maxAnswerSize : Nat := 256

/-- `optind` afterwards, and what comes of the line. -/
def clientRequestSet (optind : Nat) (cmd : CString) : Option (Nat × Outcome) := do
  let argv ← argcArgv cmd
  let (c, optind) ← skipOptions options argv (argv.length + 1) optind
  if c = cmdNotAllowedOption then return (optind, ⟨none, []⟩)
  match (argv.length : Int) - optind with
  | 0 => return (optind, ⟨some " < No arguments, should display all available options\n".toList, []⟩)
  | 1 =>
    let argument ← argv[optind]?
    let answer ← sprintfInto maxAnswerSize (" < Should have set ".toList ++ argument ++ ['\n'])
    return (optind, ⟨some answer, []⟩)
  | _ => return (optind, ⟨some " < You shall only set one option at a time...\n".toList, []⟩)

/-- `strncmp ("127.0.0.1", r->client->addr, 9) == 0` -/
def trustedSource (addr : CString) : Bool :=
  "127.0.0.1".toList.isPrefixOf addr

inductive Search where
  | syntaxError
  | absent
  | found (i : Nat)
deriving DecidableEq, Repr

/-- The first daemon that has the address and the port of `argv[1]`. -/
def searchDaemon (daemons : List Daemon) (target : CString) : Search :=
  match strchr target ':' with
  | none => .syntaxError
  | some semicolon =>
    match sscanfInt (semicolon.drop 1) with
    | none => .syntaxError
    | some dPort =>
      match daemons.findIdx? fun d => cutAt target ':' = d.addr ∧ dPort = d.port with
      | none => .absent
      | some i => .found i

/-- What is put on the socket while no `send ()` fails. -/
def sendWhole (msg : CString) : Option CString :=
  if isPlainFormat msg then some (sendPart msg) else none

def syntaxAnswer : CString := " < Syntax: raw IP:PORT CMD\n".toList

def clientRequestRaw (optind : Nat) (cmd addr : CString) (daemons : List Daemon) : Option (Nat × Outcome) := do
  let argv ← argcArgv cmd
  -- what `c` is in the end does not matter
  let (_, optind) ← skipOptions options argv (argv.length + 1) optind
  if (argv.length : Int) - optind < 2 then return (optind, ⟨some syntaxAnswer, []⟩)
  if !trustedSource addr then return (optind, ⟨some " < raw: Sorry, I only trust 127.0.0.1\n".toList, []⟩)
  match searchDaemon daemons (← argv[1]?) with
  | .syntaxError => return (optind, ⟨some syntaxAnswer, []⟩)
  | .absent => return (optind, ⟨some " < raw: Please use connect before sending raw commands\n".toList, []⟩)
  | .found i =>
    let first ← strchr cmd ' '
    let second ← strchr (first.drop 1) ' '
    let command ← sendWhole (second.drop 1)
    let newline ← sendWhole ['\n']
    return (optind, ⟨some " < raw: Sent raw command successfully\n".toList, [(i, command), (i, newline)]⟩)

inductive Command where
  | set (cmd : CString)
  | raw (cmd addr : CString) (daemons : List Daemon)
deriving DecidableEq, Repr

def handle (optind : Nat) : Command → Option (Nat × Outcome)
  | .set cmd => clientRequestSet optind cmd
  | .raw cmd addr daemons => clientRequestRaw optind cmd addr daemons

def step (optind : Nat) (c : Command) : Option Nat :=
  (handle optind c).map Prod.fst

/-- `int optind = 1;` -/
def firstOptind : Nat := 1

/-! ### What is to be forwarded -/

/-- The first daemon with the address and the port that a field names. -/
structure FirstNamed (daemons : List Daemon) (field : CString) (i : Nat) (d : Daemon) : Prop where
  names : ∃ p, field = d.addr ++ ':' :: p ∧ ':' ∉ d.addr ∧ sscanfInt p = some d.port
  entry : daemons[i]? = some d
  first : ∀ j e, j < i → daemons[j]? = some e → e.addr = d.addr → e.port ≠ d.port

/-- All that is sent goes to daemon `i`, and it is the text, put together. -/
def AllTo (i : Nat) (text : CString) (sent : List (Nat × CString)) : Prop :=
  (∀ x ∈ sent, x.1 = i) ∧ (sent.map Prod.snd).flatten = text

/-- After the history, a trusted client's `rest` and a line end go to the daemon that `f1` names; otherwise nothing is
sent. -/
def ForwardsVerbatim (history : List Command) (f0 f1 rest addr : CString) (daemons : List Daemon) : Prop :=
  ∃ optind optind' outcome, exec step firstOptind history = some optind ∧
    handle optind (.raw (f0 ++ ' ' :: (f1 ++ ' ' :: rest)) addr daemons) = some (optind', outcome) ∧
    (∀ i d, "127.0.0.1".toList <+: addr → FirstNamed daemons f1 i d → AllTo i (rest ++ ['\n']) outcome.sent) ∧
    ((¬"127.0.0.1".toList <+: addr ∨ ¬∃ i d, FirstNamed daemons f1 i d) → outcome.sent = [])

/-- An option and the text of the error fit `opterror`. -/
def OptionFits (argv : List CString) : Prop :=
  ∀ option, argv[1]? = some ('-' :: option) → option.length ≤ 227

/-- The line is not too long to be split, an option fits `opterror`, the argument of `set` its answer, and what goes to
a daemon can be written to the log. -/
def Harmless : Command → Prop
  | .set cmd => Splitter.Splittable cmd ∧ OptionFits (cmdToArgcArgv cmd) ∧
    ∀ f0 argument, cmdToArgcArgv cmd = [f0, argument] → argument.head? ≠ some '-' → argument.length ≤ 235
  | .raw cmd addr daemons => Splitter.Splittable cmd ∧ OptionFits (cmdToArgcArgv cmd) ∧
    ∀ f0 f1 rest, cmd = f0 ++ ' ' :: (f1 ++ ' ' :: rest) → ' ' ∉ f0 → ' ' ∉ f1 → "127.0.0.1".toList <+: addr →
      (∃ i d, FirstNamed daemons f1 i d) → isPlainFormat rest = true

variable {cmd addr f0 f1 rest field argument option : CString} {argv : List CString} {daemons : List Daemon}
  {d : Daemon} {i optind optind' fuel : Nat} {history : List Command} {c : Command} {outcome : Outcome}

/-! ### The options -/

theorem cmdGetNextOption_argument (isSecond : argv[1]? = some argument) (noOption : argument.head? ≠ some '-') :
    cmdGetNextOption options argv 1 = some (cmdEndOfOptions, 1) := by
  obtain ⟨more, -⟩ := List.getElem?_eq_some_iff.mp isSecond
  unfold cmdGetNextOption
  rw [if_neg (Nat.ne_of_lt more), isSecond]
  match argument with
  | [] => rfl
  | c :: argument =>
    have other : c ≠ '-' := fun same => noOption (congrArg some same)
    simp only [Option.bind_eq_bind, Option.bind_some]
    split
    next same =>
      cases same
      exact absurd rfl other
    next => rfl

/-- The table is empty, so every option is an error. -/
theorem cmdGetNextOption_option (isSecond : argv[1]? = some ('-' :: option)) :
    cmdGetNextOption options argv 1 =
      (sprintfInto errorSize ("The option ".toList ++ '-' :: (option ++ " is not allowed\n".toList))).map
        fun _ => (cmdNotAllowedOption, 1) := by
  obtain ⟨more, -⟩ := List.getElem?_eq_some_iff.mp isSecond
  unfold cmdGetNextOption
  rw [if_neg (Nat.ne_of_lt more), isSecond]
  simp only [options, List.find?_nil, Option.bind_eq_bind, Option.bind_some]
  cases sprintfInto errorSize _ <;> rfl

theorem errorText_fits :
    (sprintfInto errorSize ("The option ".toList ++ '-' :: (option ++ " is not allowed\n".toList))).isSome ↔
      option.length ≤ 227 := by
  have before : "The option ".toList.length = 11 := by decide +kernel
  have behind : " is not allowed\n".toList.length = 16 := by decide +kernel
  rw [sprintfInto_isSome, List.length_append, List.length_cons, List.length_append, before, behind, errorSize]
  omega

/-- The walk ends with the first argument, and `optind` stays. -/
theorem skipOptions_fits (fuel : Nat) (some_ : argv ≠ []) (fits : OptionFits argv) :
    ∃ c, skipOptions options argv (fuel + 1) firstOptind = some (c, firstOptind) ∧
      (c = cmdNotAllowedOption ↔ argv[1]?.bind List.head? = some '-') := by
  have ended : ¬cmdEndOfOptions = cmdNotAllowedOption := by decide
  rw [firstOptind, skipOptions]
  -- without a second field, with one that is an option, and with another
  cases isSecond : argv[1]? with
  | none =>
    have single : argv.length = 1 := by
      have short := List.getElem?_eq_none_iff.mp isSecond
      have positive := List.length_pos_iff.mpr some_
      omega
    obtain ⟨f0, rfl⟩ := List.length_eq_one_iff.mp single
    exact ⟨cmdEndOfOptions, rfl, by simp [ended]⟩
  | some argument =>
    by_cases dash : argument.head? = some '-'
    · obtain ⟨option, rfl⟩ := List.head?_eq_some_iff.mp dash
      obtain ⟨text, written⟩ := Option.isSome_iff_exists.mp (errorText_fits.mpr (fits option isSecond))
      rw [cmdGetNextOption_option isSecond, written]
      exact ⟨cmdNotAllowedOption, rfl, by simp⟩
    · rw [cmdGetNextOption_argument isSecond dash]
      exact ⟨cmdEndOfOptions, rfl, by simp [ended, dash]⟩

theorem skipOptions_overrun (fuel : Nat) (overrun : ¬OptionFits argv) :
    skipOptions options argv fuel firstOptind = none := by
  unfold OptionFits at overrun
  push Not at overrun
  obtain ⟨option, isSecond, long⟩ := overrun
  have unwritten :
      sprintfInto errorSize ("The option ".toList ++ '-' :: (option ++ " is not allowed\n".toList)) = none := by
    rw [← Option.not_isSome_iff_eq_none, errorText_fits]
    omega
  cases fuel with
  | zero => rfl
  | succ fuel =>
    rw [firstOptind, skipOptions, cmdGetNextOption_option isSecond, unwritten]
    rfl

/-! ### The fields -/

/-- A line has one field, or one in front of the fields of the rest. -/
theorem cmdToArgcArgv_cases (cmd : CString) :
    (' ' ∉ cmd ∧ cmdToArgcArgv cmd = [cmd]) ∨
      ∃ f s, cmd = f ++ ' ' :: s ∧ ' ' ∉ f ∧ cmdToArgcArgv cmd = f :: cmdToArgcArgv s := by
  by_cases blank : ' ' ∈ cmd
  · obtain ⟨f, s, rfl, noSpace⟩ := List.eq_append_cons_of_mem blank
    exact .inr ⟨f, s, rfl, noSpace, cmdToArgcArgv_append noSpace s⟩
  · exact .inl ⟨blank, cmdToArgcArgv_single blank⟩

theorem cmdToArgcArgv_ne_nil (cmd : CString) : cmdToArgcArgv cmd ≠ [] := by
  rcases cmdToArgcArgv_cases cmd with ⟨-, single⟩ | ⟨f, s, -, -, split⟩
  · simp [single]
  · simp [split]

/-- With three fields there are two blanks, and the fields are what is between them. -/
theorem cmdToArgcArgv_three (three : 3 ≤ (cmdToArgcArgv cmd).length) :
    ∃ f0 f1 rest, cmd = f0 ++ ' ' :: (f1 ++ ' ' :: rest) ∧ ' ' ∉ f0 ∧ ' ' ∉ f1 := by
  rcases cmdToArgcArgv_cases cmd with ⟨-, single⟩ | ⟨f0, s, rfl, clean0, split⟩
  · simp [single] at three
  · rw [split] at three
    rcases cmdToArgcArgv_cases s with ⟨-, single⟩ | ⟨f1, rest, rfl, clean1, -⟩
    · simp [single] at three
    · exact ⟨f0, f1, rest, rfl, clean0, clean1⟩

theorem argv_line (clean0 : ' ' ∉ f0) (clean1 : ' ' ∉ f1) (rest : CString) :
    cmdToArgcArgv (f0 ++ ' ' :: (f1 ++ ' ' :: rest)) = f0 :: f1 :: cmdToArgcArgv rest := by
  rw [cmdToArgcArgv_append clean0, cmdToArgcArgv_append clean1]

/-! ### The daemon -/

theorem searchDaemon_found_iff :
    searchDaemon daemons field = .found i ↔ ∃ d, FirstNamed daemons field i d := by
  constructor
  · intro found
    unfold searchDaemon at found
    cases search : strchr field ':' with
    | none => simp [search] at found
    | some colon =>
      obtain ⟨ip, p, rfl, absent, rfl⟩ := strchr_some search
      simp only [search, List.drop_one, List.tail_cons, cutAt_append absent] at found
      split at found
      · cases found
      next dPort read =>
        split at found
        · cases found
        next j place =>
          cases found
          obtain ⟨inside, same, before⟩ := List.findIdx?_eq_some_iff_getElem.mp place
          obtain ⟨rfl, rfl⟩ := of_decide_eq_true same
          refine ⟨_, ⟨p, rfl, absent, read⟩, List.getElem?_eq_getElem inside, ?_⟩
          intro j e earlier entry sameAddr samePort
          obtain ⟨_, rfl⟩ := List.getElem?_eq_some_iff.mp entry
          exact before j earlier (decide_eq_true ⟨sameAddr.symm, samePort.symm⟩)
  · rintro ⟨d, ⟨p, rfl, absent, read⟩, entry, first⟩
    obtain ⟨inside, isEntry⟩ := List.getElem?_eq_some_iff.mp entry
    have place : (daemons.findIdx? fun e => d.addr = e.addr ∧ d.port = e.port) = some i := by
      refine List.findIdx?_eq_some_iff_getElem.mpr ⟨inside, by simp [isEntry], fun j earlier same => ?_⟩
      have equal := of_decide_eq_true same
      exact first j _ earlier (List.getElem?_eq_getElem _) equal.1.symm equal.2.symm
    simp only [searchDaemon, strchr_append absent, List.drop_one, List.tail_cons, cutAt_append absent, read, place]

theorem trustedSource_iff : trustedSource addr = true ↔ "127.0.0.1".toList <+: addr :=
  List.isPrefixOf_iff_prefix

/-! ### The handlers -/

/-- The end of a line that is short enough is sent as it is. -/
theorem sendWhole_line (small : Splitter.Splittable (f0 ++ ' ' :: (f1 ++ ' ' :: rest)))
    (plain : isPlainFormat rest = true) : sendWhole rest = some rest := by
  have shorter : rest.length < 2 ^ 31 := by
    have length := small.1
    simp only [List.length_append, List.length_cons] at length
    omega
  rw [sendWhole, if_pos plain, (sendPart_eq_self_iff rest).mpr shorter]

/-- It is what the loop makes of the line. -/
theorem argcArgv_eq (noNul : '\x00' ∉ cmd) :
    Splitter.cmdToArgcArgv cmd = (argcArgv cmd).map Splitter.argcArgv := by
  rw [Splitter.cmdToArgcArgv_eq noNul, argcArgv, Splitter.cmdToArgcArgv_eq_splitOn, apply_ite (Option.map _)]
  rfl

theorem argcArgv_small (small : Splitter.Splittable cmd) : argcArgv cmd = some (cmdToArgcArgv cmd) :=
  if_pos small

/-- A line that is too long, or whose option is, has no result. -/
theorem handle_undefined {line : CString} (addr : CString) (daemons : List Daemon)
    (undefined : ¬(Splitter.Splittable line ∧ OptionFits (cmdToArgcArgv line))) :
    clientRequestSet firstOptind line = none ∧ clientRequestRaw firstOptind line addr daemons = none := by
  unfold clientRequestSet clientRequestRaw
  by_cases small : Splitter.Splittable line
  · have overrun := skipOptions_overrun ((cmdToArgcArgv line).length + 1) fun fits => undefined ⟨small, fits⟩
    simp only [argcArgv_small small, Option.bind_eq_bind, Option.bind_some, overrun, Option.bind_none, and_self]
  · simp only [argcArgv, small, if_false, Option.bind_eq_bind, Option.bind_none, and_self]

theorem raw_short (small : Splitter.Splittable cmd) (fits : OptionFits (cmdToArgcArgv cmd))
    (short : (cmdToArgcArgv cmd).length < 3) :
    clientRequestRaw firstOptind cmd addr daemons = some (firstOptind, ⟨some syntaxAnswer, []⟩) := by
  obtain ⟨c, skipped, -⟩ := skipOptions_fits (cmdToArgcArgv cmd).length (cmdToArgcArgv_ne_nil cmd) fits
  have few : ((cmdToArgcArgv cmd).length : Int) - firstOptind < 2 := by
    rw [firstOptind]
    omega
  unfold clientRequestRaw
  simp only [argcArgv_small small, Option.bind_eq_bind, Option.bind_some, skipped, few, if_true, Option.pure_def]

/-- A line with enough fields, from where the source of it is checked. -/
theorem raw_line (clean0 : ' ' ∉ f0) (clean1 : ' ' ∉ f1)
    (small : Splitter.Splittable (f0 ++ ' ' :: (f1 ++ ' ' :: rest)))
    (fits : OptionFits (cmdToArgcArgv (f0 ++ ' ' :: (f1 ++ ' ' :: rest)))) :
    clientRequestRaw firstOptind (f0 ++ ' ' :: (f1 ++ ' ' :: rest)) addr daemons =
      if trustedSource addr then
        match searchDaemon daemons f1 with
        | .syntaxError => some (firstOptind, ⟨some syntaxAnswer, []⟩)
        | .absent => some (firstOptind, ⟨some " < raw: Please use connect before sending raw commands\n".toList, []⟩)
        | .found i => (sendWhole rest).map fun command =>
          (firstOptind, ⟨some " < raw: Sent raw command successfully\n".toList, [(i, command), (i, ['\n'])]⟩)
      else some (firstOptind, ⟨some " < raw: Sorry, I only trust 127.0.0.1\n".toList, []⟩) := by
  obtain ⟨c, skipped, -⟩ := skipOptions_fits (cmdToArgcArgv (f0 ++ ' ' :: (f1 ++ ' ' :: rest))).length
    (cmdToArgcArgv_ne_nil _) fits
  have fields := argv_line clean0 clean1 rest
  have enough : ¬((cmdToArgcArgv (f0 ++ ' ' :: (f1 ++ ' ' :: rest))).length : Int) - firstOptind < 2 := by
    have positive := List.length_pos_iff.mpr (cmdToArgcArgv_ne_nil rest)
    rw [fields, List.length_cons, List.length_cons, firstOptind]
    omega
  have newline : sendWhole ['\n'] = some ['\n'] := by decide
  unfold clientRequestRaw
  simp only [argcArgv_small small, Option.bind_eq_bind, Option.bind_some, skipped, enough, if_false]
  cases trustedSource addr with
  | false => rfl
  | true =>
    have target : (f0 :: f1 :: cmdToArgcArgv rest)[1]? = some f1 := rfl
    simp only [fields, target, Option.bind_some, Bool.not_true, Bool.false_eq_true, if_false, if_true]
    cases searchDaemon daemons f1 with
    | syntaxError => rfl
    | absent => rfl
    | found i =>
      -- the second blank of the line is the one behind `f1`
      simp only [strchr_append clean0, strchr_append clean1, List.drop_one, List.tail_cons, Option.bind_some, newline]
      cases sendWhole rest <;> rfl

/-- `set` looks at its argument only if there is just one, and no option. -/
theorem set_line (small : Splitter.Splittable cmd) (fits : OptionFits (cmdToArgcArgv cmd)) :
    clientRequestSet firstOptind cmd =
      if (cmdToArgcArgv cmd)[1]?.bind List.head? = some '-' then some (firstOptind, ⟨none, []⟩)
      else match cmdToArgcArgv cmd with
        | [] | [_] =>
          some (firstOptind, ⟨some " < No arguments, should display all available options\n".toList, []⟩)
        | [_, argument] =>
          (sprintfInto maxAnswerSize (" < Should have set ".toList ++ argument ++ ['\n'])).map fun answer =>
            (firstOptind, ⟨some answer, []⟩)
        | _ => some (firstOptind, ⟨some " < You shall only set one option at a time...\n".toList, []⟩) := by
  obtain ⟨c, skipped, optional⟩ :=
    skipOptions_fits (cmdToArgcArgv cmd).length (cmdToArgcArgv_ne_nil cmd) fits
  unfold clientRequestSet
  simp only [argcArgv_small small, Option.bind_eq_bind, Option.bind_some, skipped, Option.pure_def, optional]
  split
  · rfl
  -- by the number of arguments
  match fields : cmdToArgcArgv cmd with
  | [] => exact absurd fields (cmdToArgcArgv_ne_nil cmd)
  | [f0] => rfl
  | [f0, argument] =>
    have isSecond : [f0, argument][firstOptind]? = some argument := rfl
    simp only [isSecond, Option.bind_some]
    cases sprintfInto maxAnswerSize _ <;> rfl
  | f0 :: argument :: more :: rest =>
    split
    next none_ =>
      simp only [List.length_cons, firstOptind] at none_
      omega
    next one =>
      simp only [List.length_cons, firstOptind] at one
      omega
    next => rfl

theorem answer_fits :
    (sprintfInto maxAnswerSize (" < Should have set ".toList ++ argument ++ ['\n'])).isSome ↔
      argument.length ≤ 235 := by
  have before : " < Should have set ".toList.length = 19 := by decide +kernel
  rw [sprintfInto_isSome, List.length_append, List.length_append, before, List.length_singleton, maxAnswerSize]
  omega

/-- A harmless line has a result, and leaves `optind` where it was. -/
theorem handle_harmless (harmless : Harmless c) : ∃ outcome, handle firstOptind c = some (firstOptind, outcome) := by
  cases c with
  | set cmd =>
    obtain ⟨small, fits, answer⟩ := harmless
    simp only [handle, set_line small fits]
    split
    · exact ⟨_, rfl⟩
    next noOption =>
      match fields : cmdToArgcArgv cmd with
      | [] | [_] => exact ⟨_, rfl⟩
      | [f0, argument] =>
        rw [fields] at noOption
        obtain ⟨text, written⟩ := Option.isSome_iff_exists.mp (answer_fits.mpr (answer f0 argument fields noOption))
        exact ⟨_, by simp only [written, Option.map_some]; rfl⟩
      | _ :: _ :: _ :: _ => exact ⟨_, rfl⟩
  | raw cmd addr daemons =>
    obtain ⟨small, fits, plain⟩ := harmless
    by_cases short : (cmdToArgcArgv cmd).length < 3
    · exact ⟨_, raw_short small fits short⟩
    obtain ⟨f0, f1, rest, rfl, clean0, clean1⟩ := cmdToArgcArgv_three (Nat.not_lt.mp short)
    simp only [handle, raw_line clean0 clean1 small fits]
    split
    case isFalse => exact ⟨_, rfl⟩
    next trusted =>
      cases searched : searchDaemon daemons f1 with
      | syntaxError => exact ⟨_, rfl⟩
      | absent => exact ⟨_, rfl⟩
      | found i =>
        obtain ⟨d, named⟩ := searchDaemon_found_iff.mp searched
        have printed := plain f0 f1 rest rfl clean0 clean1 (trustedSource_iff.mp trusted) ⟨i, d, named⟩
        exact ⟨_, by simp only [sendWhole_line small printed, Option.map_some]; rfl⟩

/-- Any other line has none. -/
theorem handle_harmful (harmful : ¬Harmless c) : handle firstOptind c = none := by
  cases c with
  | set cmd =>
    by_cases defined : Splitter.Splittable cmd ∧ OptionFits (cmdToArgcArgv cmd)
    case neg => exact (handle_undefined [] [] defined).1
    simp only [Harmless, defined, true_and, not_forall] at harmful
    obtain ⟨f0, argument, fields, noOption, long⟩ := harmful
    have unwritten : sprintfInto maxAnswerSize (" < Should have set ".toList ++ argument ++ ['\n']) = none := by
      rw [← Option.not_isSome_iff_eq_none, answer_fits]
      exact long
    have second : ¬[f0, argument][1]?.bind List.head? = some '-' := noOption
    simp only [handle, set_line defined.1 defined.2, fields, second, if_false, unwritten, Option.map_none]
  | raw cmd addr daemons =>
    by_cases defined : Splitter.Splittable cmd ∧ OptionFits (cmdToArgcArgv cmd)
    case neg => exact (handle_undefined addr daemons defined).2
    simp only [Harmless, defined, true_and, not_forall] at harmful
    obtain ⟨f0, f1, rest, rfl, clean0, clean1, trusted, ⟨i, d, named⟩, unprintable⟩ := harmful
    have unsent : sendWhole rest = none := if_neg unprintable
    simp only [handle, raw_line clean0 clean1 defined.1 defined.2, trustedSource_iff.mpr trusted, if_true,
      searchDaemon_found_iff.mpr ⟨d, named⟩, unsent, Option.map_none]

/-! ### Histories -/

theorem step_harmless (harmless : Harmless c) : step firstOptind c = some firstOptind := by
  obtain ⟨outcome, ran⟩ := handle_harmless harmless
  rw [step, ran, Option.map_some]

/-- `optind` never moves. -/
theorem exec_harmless (all : ∀ c ∈ history, Harmless c) : exec step firstOptind history = some firstOptind := by
  induction history with
  | nil => rfl
  | cons c history ih =>
    -- each line starts with the `optind` that the first one did
    rw [List.forall_mem_cons] at all
    rw [exec, step_harmless all.1, Option.bind_some, ih all.2]

theorem harmless_of_exec (ran : exec step firstOptind history = some optind) : ∀ c ∈ history, Harmless c := by
  induction history with
  | nil => simp
  | cons c history ih =>
    have harmless : Harmless c := by
      by_contra harmful
      rw [exec, step, handle_harmful harmful] at ran
      cases ran
    rw [exec, step_harmless harmless, Option.bind_some] at ran
    exact List.forall_mem_cons.mpr ⟨harmless, ih ran⟩

/-- What a harmless `raw` sends. -/
theorem raw_forwards (clean0 : ' ' ∉ f0) (clean1 : ' ' ∉ f1)
    (harmless : Harmless (.raw (f0 ++ ' ' :: (f1 ++ ' ' :: rest)) addr daemons)) :
    ∃ outcome, handle firstOptind (.raw (f0 ++ ' ' :: (f1 ++ ' ' :: rest)) addr daemons) = some (firstOptind, outcome) ∧
      (∀ i d, "127.0.0.1".toList <+: addr → FirstNamed daemons f1 i d → AllTo i (rest ++ ['\n']) outcome.sent) ∧
      ((¬"127.0.0.1".toList <+: addr ∨ ¬∃ i d, FirstNamed daemons f1 i d) → outcome.sent = []) := by
  obtain ⟨small, fits, plain⟩ := harmless
  simp only [handle, raw_line clean0 clean1 small fits]
  -- no daemon is found unless it is the first that is named
  have unnamed : ∀ other, searchDaemon daemons f1 = other → (∀ i, other ≠ .found i) →
      ∀ i d, ¬FirstNamed daemons f1 i d :=
    fun other searched noPlace i d named => noPlace i (searched.symm.trans (searchDaemon_found_iff.mpr ⟨d, named⟩))
  split
  case isFalse untrusted =>
    have refused : ¬"127.0.0.1".toList <+: addr := fun trusted => untrusted (trustedSource_iff.mpr trusted)
    exact ⟨_, rfl, fun i d trusted => absurd trusted refused, fun _ => rfl⟩
  next trusted =>
    rw [trustedSource_iff] at trusted
    cases searched : searchDaemon daemons f1 with
    | syntaxError =>
      exact ⟨_, rfl, fun i d _ named => absurd named (unnamed _ searched (by simp) i d), fun _ => rfl⟩
    | absent =>
      exact ⟨_, rfl, fun i d _ named => absurd named (unnamed _ searched (by simp) i d), fun _ => rfl⟩
    | found i =>
      obtain ⟨d, named⟩ := searchDaemon_found_iff.mp searched
      have printed := plain f0 f1 rest rfl clean0 clean1 trusted ⟨i, d, named⟩
      simp only [sendWhole_line small printed, Option.map_some, Option.some.injEq, Prod.mk.injEq, true_and,
        exists_eq_left']
      constructor
      · intro j e _ other
        have same : i = j := by
          cases searched.symm.trans (searchDaemon_found_iff.mpr ⟨e, other⟩)
          rfl
        subst same
        exact ⟨by simp, by simp⟩
      · rintro (untrusted | noDaemon)
        · exact absurd trusted untrusted
        · exact absurd ⟨i, d, named⟩ noDaemon

/-- `raw` forwards its text iff every line of the history is harmless, and it is itself. -/
theorem forwards_iff_harmless (history : List Command) (rest addr : CString) (daemons : List Daemon)
    (clean0 : ' ' ∉ f0) (clean1 : ' ' ∉ f1) :
    ForwardsVerbatim history f0 f1 rest addr daemons ↔
      (∀ c ∈ history, Harmless c) ∧ Harmless (.raw (f0 ++ ' ' :: (f1 ++ ' ' :: rest)) addr daemons) := by
  constructor
  · rintro ⟨optind, optind', outcome, ran, handled, -, -⟩
    have all := harmless_of_exec ran
    cases (exec_harmless all).symm.trans ran
    refine ⟨all, ?_⟩
    by_contra harmful
    cases (handle_harmful harmful).symm.trans handled
  · rintro ⟨all, harmless⟩
    obtain ⟨outcome, handled, forwarded, silent⟩ := raw_forwards clean0 clean1 harmless
    exact ⟨_, _, outcome, exec_harmless all, handled, forwarded, silent⟩

/-- Behind an option that just fits. -/
theorem list_forwarded :
    ForwardsVerbatim [.set ("set -".toList ++ List.replicate 227 'x')] "raw".toList "10.0.0.2:7331".toList
      "list  all".toList "127.0.0.1".toList [⟨"10.0.0.2".toList, 7331, true⟩] := by
  refine (forwards_iff_harmless _ _ _ _ (by decide +kernel) (by decide +kernel)).mpr ⟨?_, by decide +kernel, ?_, ?_⟩
  · rw [List.forall_mem_singleton]
    have fields : cmdToArgcArgv ("set -".toList ++ List.replicate 227 'x') =
        ["set".toList, '-' :: List.replicate 227 'x'] := by
      decide +kernel
    refine ⟨by decide +kernel, fun option isSecond => ?_, fun f0 argument split noOption => ?_⟩
    · rw [fields] at isSecond
      cases isSecond
      exact Nat.le_of_eq List.length_replicate
    · cases fields.symm.trans split
      exact absurd rfl noOption
  · intro option isSecond
    have second : (cmdToArgcArgv ("raw".toList ++ ' ' :: ("10.0.0.2:7331".toList ++ ' ' :: "list  all".toList)))[1]? =
        some "10.0.0.2:7331".toList := by
      decide +kernel
    cases second.symm.trans isSecond
  · intro f0 f1 rest shape _ _ _ _
    -- there is no `%` in the whole line
    apply isPlainFormat_of_notMem
    intro member
    have inside : '%' ∈ f0 ++ ' ' :: (f1 ++ ' ' :: rest) := by simp [member]
    rw [← shape] at inside
    exact absurd inside (by decide +kernel)

/-- The text is a format to the log; and an option that is too long leaves no state to go on from. -/
theorem format_and_long_option_stop :
    let daemons : List Daemon := [⟨"10.0.0.2".toList, 7331, true⟩]
    ¬ForwardsVerbatim [] "raw".toList "10.0.0.2:7331".toList "%s".toList "127.0.0.1".toList daemons ∧
      ¬ForwardsVerbatim [.set ("set -".toList ++ List.replicate 300 'x')] "raw".toList "10.0.0.2:7331".toList
        "list".toList "127.0.0.1".toList daemons := by
  intro daemons
  constructor
  · rintro ⟨optind, optind', outcome, ran, handled, -, -⟩
    cases ran
    have stopped : handle firstOptind (.raw ("raw".toList ++ ' ' :: ("10.0.0.2:7331".toList ++ ' ' :: "%s".toList))
        "127.0.0.1".toList daemons) = none := by
      decide +kernel
    cases stopped.symm.trans handled
  · rintro ⟨optind, optind', outcome, ran, -, -, -⟩
    have stopped : exec step firstOptind [.set ("set -".toList ++ List.replicate 300 'x')] = none := by
      decide +kernel
    cases stopped.symm.trans ran

end Pire2Pire.Raw
