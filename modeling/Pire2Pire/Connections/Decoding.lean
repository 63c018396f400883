import Pire2Pire.Connections.Replies

/-! How the handlers take the lines of a peer apart: where they follow the result of `strchr`, and what they copy
into the fields of the cache (`daemon_requests/daemon_request_file.c`, `daemon_request_neighbour.c`,
`file_cache.c`).

Unlike `fileCacheAdd`, the functions here say what went wrong. Allocations and `sem_init` succeed. -/
namespace Pire2Pire.Decoding

open Library Protocol Transfer Neighbours Replies

inductive Fault where
  /-- a NULL is used as the place of a character -/
  | nullFollowed
  /-- more bytes are written than the field has -/
  | fieldOverrun
deriving DecidableEq, Repr

/-! ### Copying into a field -/

/-- `strncpy` writes `n` bytes, whatever the text; the result is what the field then holds. -/
def strncpyInto (size : Nat) (src : CString) (n : Nat) : Except Fault CString :=
  if n ≤ size then .ok (src.take n) else .error .fieldOverrun

/-- `strcpy` writes the text and its NUL. -/
def strcpyInto (size : Nat) (src : CString) : Except Fault CString :=
  if src.length + 1 ≤ size then .ok src else .error .fieldOverrun

/-- NULL for a name that is too long or a key of the wrong size. Every field has one byte more than its size. -/
def fileCacheNew (filename key : CString) (size : UInt64) (ip : CString) (port : Int32) :
    Except Fault (Option FileEntry) := do
  if filename.length > fileNameSize then return none
  let filename ← strncpyInto (fileNameSize + 1) filename (fileNameSize + 1)
  if key.length ≠ fileKeySize then return none
  let key ← strncpyInto (fileKeySize + 1) key (fileKeySize + 1)
  let ip ← strncpyInto (fileIpSize + 1) ip (fileIpSize + 1)
  return some ⟨filename, key, size, [⟨ip, port⟩]⟩

/-- What `strcmp` gives when it runs past a field that is not terminated. -/
abbrev Beyond := Seeder → CString → Bool

/-- `strcmp (s->ip, ip) == 0 && s->port == port` -/
def sameSeeder (beyond : Beyond) (s : Seeder) (ip : CString) (port : Int32) : Bool :=
  (if s.ip.length > fileIpSize ∧ s.ip <+: ip then beyond s ip else s.ip = ip) && s.port = port

def fileCacheAdd (beyond : Beyond) (tree : FileCache) (filename key : CString) (size : UInt64) (ip : CString)
    (port : Int32) : Except Fault FileCache :=
  match tree with
  | .empty => do
    match ← fileCacheNew filename key size ip port with
    | none => return .empty
    | some entry => return .node entry .empty .empty
  | .node entry left right =>
    match strcmp key entry.key with
    | .lt => do return .node entry (← fileCacheAdd beyond left filename key size ip port) right
    | .gt => do return .node entry left (← fileCacheAdd beyond right filename key size ip port)
    | .eq =>
      if entry.seeders.any fun s => sameSeeder beyond s ip port then return .node entry left right
      else do
        let ip ← strcpyInto (fileIpSize + 1) ip
        return .node { entry with seeders := ⟨ip, port⟩ :: entry.seeders } left right

/-! ### The handlers -/

/-- With `list_client` set. -/
def daemonRequestFile (beyond : Beyond) (cache : FileCache) (cmd : CString) :
    Except Fault (FileCache × List Sent) :=
  match cmdParse cmd none with
  | .error _ => .ok (cache, [.daemon "error daemon_request_file: Command parse failed".toList])
  | .ok pcmd =>
    match pcmd.argv with
    | _ :: name :: key :: size :: address :: _ =>
      match strchr address ':' with
      | none => .error .nullFollowed
      | some port => do
        let cache ← fileCacheAdd beyond cache name key (atol size).toUInt64 (cutAt address ':') (atoi (port.drop 1))
        return (cache, [.client (" < ".toList ++ cmd ++ ['\n'])])
    | _ => .ok (cache, [.daemon "error daemon_request_file: Invalid number of arguments".toList])

/-- The decoding of `daemon_request_neighbour`. -/
def neighbourAddress (cmd : CString) : Except Fault (CString × Int32) :=
  match strchr cmd ' ' with
  | none => .error .nullFollowed
  | some blank =>
    match strchr (blank.drop 1) ':' with
    | none => .error .nullFollowed
    | some colon => .ok (cutAt (blank.drop 1) ':', atoi (colon.drop 1))

/-- The handlers that the dispatcher chooses for these two messages decode the line without a fault. -/
def Robust (beyond : Beyond) (cache : FileCache) (cmd : CString) : Prop :=
  match handlerOf cmd with
  | .file => ∀ fault, daemonRequestFile beyond cache cmd ≠ .error fault
  | .neighbour => ∀ fault, neighbourAddress cmd ≠ .error fault
  | _ => True

/-- The copy into the field of a new seeder is not made, or the address has room in it. -/
def FitsCache (beyond : Beyond) (cache : FileCache) (key ip : CString) (port : Int32) : Prop :=
  ∀ entry, fileCacheGetByKey cache key = some entry →
    (∃ s ∈ entry.seeders, sameSeeder beyond s ip port = true) ∨ ip.length ≤ fileIpSize

/-- A `file` line of five or more tokens, none of them an option, has a colon in the fifth, and the address before
it is new, known or short enough; a `neighbour` line has a colon. -/
def Decodable (beyond : Beyond) (cache : FileCache) (cmd : CString) : Prop :=
  match handlerOf cmd with
  | .file => ∀ first name key size address rest,
      words isADelimiter cmd = first :: name :: key :: size :: address :: rest →
      (∀ w ∈ words isADelimiter cmd, tokenKind w = .argument) →
      ':' ∈ address ∧ ∀ port, strchr address ':' = some (':' :: port) →
        FitsCache beyond cache key (cutAt address ':') (atoi port)
  | .neighbour => ':' ∈ cmd
  | _ => True

variable {beyond : Beyond} {cache cache' : FileCache} {cmd name key size ip filename : CString} {n : UInt64}
  {port : Int32}

/-! ### The cache -/

/-- What the field holds after `strncpy` is a text that fits in it. -/
theorem strncpyInto_whole {limit : Nat} (small : name.length ≤ limit) :
    strncpyInto (limit + 1) name (limit + 1) = .ok name := by
  rw [strncpyInto, if_pos (Nat.le_refl _), List.take_of_length_le (by omega)]

/-- A new node never overruns its fields, and it is the one without the reasons. -/
theorem fileCacheNew_ok (filename key : CString) (n : UInt64) (ip : CString) (port : Int32) :
    fileCacheNew filename key n ip port = .ok (Pire2Pire.fileCacheNew filename key n ip port) := by
  unfold fileCacheNew Pire2Pire.fileCacheNew
  by_cases long : filename.length > fileNameSize
  · simp only [long, if_true]
    rfl
  by_cases wrong : key.length ≠ fileKeySize
  · simp only [long, if_false, strncpyInto_whole (Nat.not_lt.mp long), bind, Except.bind]
    rw [if_pos wrong, if_pos wrong]
    rfl
  -- both texts were measured before they are copied, and the address is cut
  have short : key.length ≤ fileKeySize := Nat.le_of_eq (Decidable.not_not.mp wrong)
  simp only [long, wrong, if_false, strncpyInto_whole (Nat.not_lt.mp long), strncpyInto_whole short]
  rfl

theorem strcpyInto_ok_iff {limit : Nat} :
    (∀ fault, strcpyInto (limit + 1) ip ≠ .error fault) ↔ ip.length ≤ limit := by
  unfold strcpyInto
  by_cases fits : ip.length + 1 ≤ limit + 1
  · simp [fits]
    omega
  · simp [fits]
    omega

theorem ok_ne_error {α : Type} (a : α) : ∀ fault : Fault, (Except.ok a : Except Fault α) ≠ .error fault := by
  intro fault same
  cases same

/-- A call overruns a field iff it adds a seeder to a known key and the address has no room. -/
theorem fileCacheAdd_ok_iff :
    (∀ fault, fileCacheAdd beyond cache filename key n ip port ≠ .error fault) ↔
      FitsCache beyond cache key ip port := by
  induction cache with
  | empty =>
    refine iff_of_true ?_ (by simp [FitsCache, fileCacheGetByKey])
    rw [fileCacheAdd, fileCacheNew_ok]
    cases Pire2Pire.fileCacheNew filename key n ip port <;> exact ok_ne_error _
  | node entry left right ihLeft ihRight =>
    simp only [FitsCache, fileCacheGetByKey] at ihLeft ihRight ⊢
    cases bias : strcmp key entry.key with
    | lt =>
      simp only [fileCacheAdd, bias]
      rw [← ihLeft]
      cases fileCacheAdd beyond left filename key n ip port <;> simp [bind, Except.bind, pure, Except.pure]
    | gt =>
      simp only [fileCacheAdd, bias]
      rw [← ihRight]
      cases fileCacheAdd beyond right filename key n ip port <;> simp [bind, Except.bind, pure, Except.pure]
    | eq =>
      simp only [fileCacheAdd, bias, Option.some.injEq, forall_eq']
      by_cases known : ∃ s ∈ entry.seeders, sameSeeder beyond s ip port = true
      -- a seeder that is found is not copied
      · have found := List.any_eq_true.mpr known
        simp only [found, if_true, known, true_or, iff_true]
        exact ok_ne_error _
      · have missing : entry.seeders.any (fun s => sameSeeder beyond s ip port) = false := by
          simpa using known
        simp only [missing, Bool.false_eq_true, if_false, known, false_or]
        rw [← strcpyInto_ok_iff]
        cases strcpyInto (fileIpSize + 1) ip <;> simp [bind, Except.bind, pure, Except.pure]

/-- Where the comparison stays inside the fields, it is the search of the other model. -/
theorem any_sameSeeder {seeders : List Seeder} {known : Bool} (search : registered seeders ip port = some known) :
    (seeders.any fun s => sameSeeder beyond s ip port) = known := by
  induction seeders with
  | nil => simpa [registered] using search
  | cons s seeders ih =>
    simp only [registered, Option.bind_eq_bind, Option.bind_eq_some_iff] at search
    obtain ⟨here, compared, rest⟩ := search
    have same : sameSeeder beyond s ip port = here := by
      simp only [Seeder.is] at compared
      split at compared
      · cases compared
      next inside =>
        rw [← Option.some.inj compared]
        simp [sameSeeder, inside]
    cases here with
    | true => simpa [same] using rest
    | false => simpa [same] using ih rest

/-- Where the function without the reasons has a result, it is this one. -/
theorem fileCacheAdd_eq (added : Pire2Pire.fileCacheAdd cache filename key n ip port = some cache') :
    fileCacheAdd beyond cache filename key n ip port = .ok cache' := by
  induction cache generalizing cache' with
  | empty =>
    simp only [Pire2Pire.fileCacheAdd] at added
    rw [fileCacheAdd, fileCacheNew_ok]
    cases new : Pire2Pire.fileCacheNew filename key n ip port with
    | none =>
      rw [new] at added
      exact congrArg Except.ok (Option.some.inj added)
    | some entry =>
      rw [new] at added
      exact congrArg Except.ok (Option.some.inj added)
  | node entry left right ihLeft ihRight =>
    cases bias : strcmp key entry.key with
    | lt =>
      simp only [Pire2Pire.fileCacheAdd, bias, Option.map_eq_some_iff] at added
      obtain ⟨left', addedLeft, rfl⟩ := added
      simp only [fileCacheAdd, bias, ihLeft addedLeft]
      rfl
    | gt =>
      simp only [Pire2Pire.fileCacheAdd, bias, Option.map_eq_some_iff] at added
      obtain ⟨right', addedRight, rfl⟩ := added
      simp only [fileCacheAdd, bias, ihRight addedRight]
      rfl
    | eq =>
      simp only [Pire2Pire.fileCacheAdd, bias, Option.bind_eq_bind, Option.bind_eq_some_iff] at added
      obtain ⟨known, search, added⟩ := added
      simp only [fileCacheAdd, bias, any_sameSeeder search]
      cases known with
      | true => exact congrArg Except.ok (Option.some.inj added)
      | false =>
        obtain ⟨entry', extended, shape⟩ := Option.bind_eq_some_iff.mp added
        -- the address was short enough, or nothing would have been added
        have fits : ip.length + 1 ≤ fileIpSize + 1 := by
          by_contra long
          rw [addSeeder, if_pos (by omega)] at extended
          cases extended
        cases addSeeder_some extended
        cases Option.some.inj shape
        simp only [strcpyInto, fits, if_true]
        rfl

/-! ### The lines -/

/-- Where the model without the reasons has a result, it is this one. -/
theorem daemonRequestFile_eq {out : FileCache × List Sent}
    (handled : Transfer.daemonRequestFile true cache cmd = some out) :
    daemonRequestFile beyond cache cmd = .ok out := by
  simp only [Transfer.daemonRequestFile, Bool.not_true, Bool.false_eq_true, if_false] at handled
  unfold daemonRequestFile
  cases parsed : cmdParse cmd none with
  | error failure =>
    rw [parsed] at handled
    exact congrArg Except.ok (Option.some.inj handled)
  | ok pcmd =>
    simp only [parsed] at handled
    split at handled
    next first name key size address rest shape =>
      obtain ⟨port, found, handled⟩ := Option.bind_eq_some_iff.mp handled
      obtain ⟨cache', added, shape'⟩ := Option.bind_eq_some_iff.mp handled
      simp only [shape, found, fileCacheAdd_eq added]
      exact congrArg Except.ok (Option.some.inj shape')
    next short =>
      dsimp only
      split
      next first name key size address rest shape => exact absurd shape (short _ _ _ _ _ _)
      next => exact congrArg Except.ok (Option.some.inj handled)

theorem neighbourAddress_eq (cmd : CString) :
    Neighbours.neighbourAddress cmd = (neighbourAddress cmd).toOption := by
  unfold neighbourAddress Neighbours.neighbourAddress
  cases strchr cmd ' ' with
  | none => rfl
  | some blank =>
    cases found : strchr (blank.drop 1) ':' with
    | none =>
      simp only [Option.bind_eq_bind, Option.bind_some, found]
      rfl
    | some colon =>
      simp only [Option.bind_eq_bind, Option.bind_some, found]
      rfl

theorem strchr_of_mem {c : Char} (member : c ∈ cmd) : ∃ rest, strchr cmd c = some (c :: rest) := by
  obtain ⟨before, behind, shape, absent⟩ := List.eq_append_cons_of_mem member
  exact ⟨behind, shape ▸ strchr_append absent behind⟩

theorem strchr_none {c : Char} (absent : c ∉ cmd) : strchr cmd c = none := by
  rw [strchr, if_neg absent]

/-- Five tokens or more are taken apart at the colon of the fifth. -/
theorem daemonRequestFile_five {first size address : CString} {rest : List CString}
    (shape : words isADelimiter cmd = first :: name :: key :: size :: address :: rest)
    (arguments : ∀ w ∈ words isADelimiter cmd, tokenKind w = .argument) :
    (∀ fault, daemonRequestFile beyond cache cmd ≠ .error fault) ↔
      ':' ∈ address ∧ ∀ port, strchr address ':' = some (':' :: port) →
        FitsCache beyond cache key (cutAt address ':') (atoi port) := by
  have parsed : cmdParse cmd none = .ok ⟨[], words isADelimiter cmd⟩ :=
    (cmdParse_plain rfl).mpr ⟨rfl, by simp [shape], arguments⟩
  simp only [daemonRequestFile, parsed, shape]
  by_cases colon : ':' ∈ address
  · obtain ⟨port, found⟩ := strchr_of_mem colon
    simp only [colon, true_and, found, List.drop_one, List.tail_cons, Option.some.injEq, List.cons.injEq,
      forall_eq']
    -- what is sent afterwards does not fail
    rw [← fileCacheAdd_ok_iff]
    cases fileCacheAdd beyond cache name key (atol size).toUInt64 (cutAt address ':') (atoi port) <;>
      simp [bind, Except.bind, pure, Except.pure]
  · simp only [strchr_none colon, colon, false_and, iff_false]
    exact fun fine => fine .nullFollowed rfl

theorem daemonRequestFile_ok_iff :
    (∀ fault, daemonRequestFile beyond cache cmd ≠ .error fault) ↔
      ∀ first name key size address rest, words isADelimiter cmd = first :: name :: key :: size :: address :: rest →
        (∀ w ∈ words isADelimiter cmd, tokenKind w = .argument) →
        ':' ∈ address ∧ ∀ port, strchr address ':' = some (':' :: port) →
          FitsCache beyond cache key (cutAt address ':') (atoi port) := by
  constructor
  · intro fine first name key size address rest shape arguments
    exact (daemonRequestFile_five shape arguments).mp fine
  · intro decodable
    cases parsed : cmdParse cmd none with
    | error failure => simp only [daemonRequestFile, parsed, ok_ne_error, not_false_eq_true, implies_true, ne_eq]
    | ok pcmd =>
      obtain ⟨rfl, -, arguments⟩ := (cmdParse_plain rfl).mp parsed
      -- a line with fewer tokens is answered before anything is taken apart
      by_cases five : ∃ first name key size address rest,
          words isADelimiter cmd = first :: name :: key :: size :: address :: rest
      · obtain ⟨first, name, key, size, address, rest, shape⟩ := five
        exact (daemonRequestFile_five shape arguments).mpr (decodable _ _ _ _ _ _ shape arguments)
      · simp only [daemonRequestFile, parsed]
        split
        next first name key size address rest shape => exact absurd ⟨_, _, _, _, _, _, shape⟩ five
        next => exact ok_ne_error _

/-- A line that is dispatched to `daemon_request_neighbour` has a blank if it has a colon. -/
theorem neighbourAddress_ok_iff (isNeighbour : isCmd cmd "neighbour".toList = true) :
    (∀ fault, neighbourAddress cmd ≠ .error fault) ↔ ':' ∈ cmd := by
  obtain ⟨starts, ends⟩ : "neighbour".toList <+: cmd ∧
      (cmd.length = "neighbour".toList.length ∨ cmd["neighbour".toList.length]? = some ' ') := by
    simpa only [isCmd, decide_eq_true_eq, List.isPrefixOf_iff_prefix] using isNeighbour
  obtain ⟨args, rfl⟩ := starts
  have word : ' ' ∉ "neighbour".toList := by decide
  cases args with
  | nil =>
    -- the bare word has neither
    refine iff_of_false (fun fine => fine .nullFollowed ?_) (by simp)
    rw [neighbourAddress, List.append_nil, strchr_none word]
  | cons c args =>
    have blank : c = ' ' := by
      rcases ends with short | here
      · simp at short
      · simpa using here
    subst blank
    have inArgs : ':' ∈ "neighbour".toList ++ ' ' :: args ↔ ':' ∈ args := by
      simp
    rw [inArgs, neighbourAddress, strchr_append word]
    simp only [List.drop_one, List.tail_cons]
    by_cases colon : ':' ∈ args
    · obtain ⟨port, found⟩ := strchr_of_mem colon
      simp only [found, colon, iff_true]
      exact ok_ne_error _
    · simp only [strchr_none colon, colon, iff_false]
      exact fun fine => fine .nullFollowed rfl

theorem isCmd_of_handlerOf (chosen : handlerOf cmd = .neighbour) : isCmd cmd "neighbour".toList = true := by
  unfold handlerOf at chosen
  split at chosen
  · cases chosen
  split at chosen
  · cases chosen
  split at chosen
  · cases chosen
  split at chosen
  · cases chosen
  split at chosen
  next isNeighbour => exact isNeighbour
  · split at chosen <;> cases chosen

/-- The decoding of a line goes well iff the colons are there, and a long address is not added to a known key. -/
theorem robust_iff_decodable (beyond : Beyond) (cache : FileCache) (cmd : CString) :
    Robust beyond cache cmd ↔ Decodable beyond cache cmd := by
  unfold Robust Decodable
  cases chosen : handlerOf cmd with
  | file => exact daemonRequestFile_ok_iff
  | neighbour => exact neighbourAddress_ok_iff (isCmd_of_handlerOf chosen)
  | list | get | neighbourhood | ready | unknown => exact Iff.rfl

/-- `file song KEY 7 ` and an address. -/
def fileLine (address : String) : CString :=
  "file song ".toList ++ List.replicate 32 'a' ++ " 7 ".toList ++ address.toList

/-- The cache after a first announcement. -/
def knownSong : FileCache :=
  .node ⟨"song".toList, List.replicate 32 'a', 7, [⟨"10.0.0.1".toList, 4242⟩]⟩ .empty .empty

/-- An address without a port, the bare word `neighbour`, and a second address of 17 characters. -/
theorem malformed_lines_fault :
    ¬Robust (fun _ _ => false) .empty (fileLine "10.0.0.1") ∧
      ¬Robust (fun _ _ => false) .empty "neighbour".toList ∧
      ¬Robust (fun _ _ => false) knownSong (fileLine "255.255.255.25555:4243") := by
  refine ⟨?_, ?_, ?_⟩
  · intro robust
    rw [Robust, show handlerOf (fileLine "10.0.0.1") = .file by decide +kernel] at robust
    exact robust .nullFollowed (by decide +kernel)
  · intro robust
    rw [Robust, show handlerOf "neighbour".toList = .neighbour by decide +kernel] at robust
    exact robust .nullFollowed (by decide +kernel)
  · intro robust
    rw [Robust, show handlerOf (fileLine "255.255.255.25555:4243") = .file by decide +kernel] at robust
    exact robust .fieldOverrun (by decide +kernel)

end Pire2Pire.Decoding
