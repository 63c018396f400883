import Pire2Pire.Connections.Port

/-! What `connect` dials: from the text of the line to the arguments of `connect ()`
(`client_requests/client_request_connect.c`). -/
namespace Pire2Pire.Connect

open Library Protocol Transfer Neighbours

/-! ### Addresses -/

/-- A number below 256 without leading zeros. -/
def parseOctet (w : CString) : Option UInt8 :=
  if leadingNumber w < 256 ∧ Nat.toDigits 10 (leadingNumber w) = w then some (.ofNat (leadingNumber w)) else none

/-- `inet_pton (AF_INET, ..)`; where it returns 0 the address is left as it was. -/
def inetPton (ip : CString) : Option Ipv4 :=
  match ip.splitOn '.' with
  | [a, b, c, d] => do return ⟨← parseOctet a, ← parseOctet b, ← parseOctet c, ← parseOctet d⟩
  | _ => none

/-! ### The handler -/

/-- What the client is answered. -/
inductive Reply where
  | nothing
  | error (text : CString)
  | success (text : CString)
  /-- `answer` is overrun -/
  | overrun
deriving DecidableEq, Repr

/-- The text that is sent; no result where a buffer is overrun. -/
def Reply.answer : Reply → Option (Option CString)
  | .nothing => some none
  | .error text => some (some text)
  | .success text => some (some text)
  | .overrun => none

def errorInto (text : CString) : Reply :=
  match sprintfInto lineSize text with
  | some text => .error text
  | none => .overrun

/-- The arguments of `connect ()`: the address is missing where it was never written, the port is in host order. -/
structure Dialled where
  address : Option Ipv4
  port : UInt16
deriving DecidableEq, Repr

structure Run where
  dialled : Option Dialled
  reply : Reply
deriving DecidableEq, Repr

def clientRequestConnect (host : Host) (cmd : CString) (attempt : Attempt) : Run :=
  match cmdParse cmd none with
  | .error _ => ⟨none, .nothing⟩
  | .ok pcmd =>
    match pcmd.argv with
    | _ :: address :: _ =>
      match isValidIpPort address with
      | .error error => ⟨none, .error error.answer⟩
      | .ok (ip, port) =>
        if isMyself host ip then ⟨none, .error " < connect: can't connect to myself\n".toList⟩
        else if !attempt.socket then
          ⟨none, errorInto (" < connect: could not open a new socket to ".toList ++ ip ++
            ", error: ".toList ++ attempt.strerror ++ ['\n'])⟩
        else
          -- only a negative result of `inet_pton` is looked at, and goes on all the same
          let dialled : Dialled := ⟨inetPton ip, sinPort port⟩
          if !attempt.connect then
            ⟨some dialled, errorInto (" < connect: could not connect to ".toList ++ ip ++ ':' ::
              (decimal port.toInt ++ ", error: ".toList ++ attempt.strerror ++ ['\n']))⟩
          else
            match sprintfInto lineSize (identMsg host) with
            | none => ⟨some dialled, .overrun⟩
            | some _ =>
              if !attempt.new then ⟨some dialled, .error " < connect: could not create a new daemon object".toList⟩
              else
                match sprintfInto lineSize (" < connect: connected to ".toList ++ ip ++ " successfully\n".toList) with
                | none => ⟨some dialled, .overrun⟩
                | some answer => ⟨some dialled, .success answer⟩
    | _ => ⟨none, .error " < connect: Syntax is \"connect IP:PORT\"\n".toList⟩

/-! ### What is typed -/

/-- The argument is `A:P` for the address and the port, and the address is not an own one. -/
def Names (host : Host) (argument : CString) (address : Ipv4) (port : UInt16) : Prop :=
  ∃ digits, argument = inetNtop address ++ ':' :: digits ∧ digits ≠ [] ∧ digits.all Char.isDigit = true ∧
    leadingNumber digits = port.toNat ∧ 0 < port.toNat ∧ isMyself host (inetNtop address) = false

def firstArgument (cmd : CString) : Option CString :=
  (words isADelimiter cmd)[1]?

/-- What was typed is dialled, and if it was no such address nothing is dialled and an error is reported. -/
structure DialsWhatWasTyped (host : Host) (cmd : CString) (run : Run) : Prop where
  named : ∀ argument address port, firstArgument cmd = some argument → Names host argument address port →
    run.dialled = some ⟨some address, port⟩
  unnamed : (¬∃ argument address port, firstArgument cmd = some argument ∧ Names host argument address port) →
    run.dialled = none ∧ ∃ text, run.reply = .error text

/-- The text in front of the colon is the text of an address, and the number behind it is one of a port. -/
def Proper (ip digits : CString) : Prop :=
  (∃ address, ip = inetNtop address) ∧ 0 < leadingNumber digits ∧ leadingNumber digits < 65536

/-- No word of the line is an option; and where the argument is some text, a colon and digits, and the text is no own
address, it is a proper one. If there is no socket, the argument is not a proper one and the error fits its buffer. -/
def WellTyped (host : Host) (cmd : CString) (attempt : Attempt) : Prop :=
  words isADelimiter cmd ≠ [] ∧ (∀ w ∈ words isADelimiter cmd, tokenKind w = .argument) ∧
    ∀ ip digits, firstArgument cmd = some (ip ++ ':' :: digits) → ':' ∉ ip → ip ≠ [] → digits ≠ [] →
      digits.all Char.isDigit = true → isMyself host ip = false →
      if attempt.socket then Proper ip digits
      else ¬Proper ip digits ∧ ∃ text, errorInto (" < connect: could not open a new socket to ".toList ++ ip ++
        ", error: ".toList ++ attempt.strerror ++ ['\n']) = .error text

variable {host : Host} {cmd ip digits argument w : CString} {attempt : Attempt} {address : Ipv4} {port : UInt16}

/-- The same answers as in the model that keeps what is queued and not what is dialled. -/
theorem clientRequestConnect_answer (host : Host) (cmd : CString) (attempt : Attempt) :
    (Neighbours.clientRequestConnect host cmd attempt).map Dialling.answer =
      (clientRequestConnect host cmd attempt).reply.answer := by
  unfold Neighbours.clientRequestConnect clientRequestConnect
  cases cmdParse cmd none with
  | error failure => rfl
  | ok pcmd =>
    obtain ⟨options, argv⟩ := pcmd
    match argv with
    | [] | [_] => rfl
    | _ :: argument :: _ =>
      dsimp only
      cases isValidIpPort argument with
      | error error => rfl
      | ok couple =>
        -- the branches are those of the source, in its order
        obtain ⟨ip, port⟩ := couple
        dsimp only
        cases isMyself host ip
        case true => rfl
        cases attempt.socket
        case false =>
          simp only [errorInto, Bool.not_false, Bool.false_eq_true, if_false, if_true]
          cases sprintfInto lineSize _ <;> rfl
        cases attempt.connect
        case false =>
          simp only [errorInto, Bool.not_false, Bool.not_true, Bool.false_eq_true, if_false, if_true]
          cases sprintfInto lineSize _ <;> rfl
        cases sprintfInto lineSize (identMsg host) with
        | none => rfl
        | some ident =>
          cases attempt.new
          case false => rfl
          simp only [Bool.false_eq_true, if_false, Bool.not_true, Option.bind_eq_bind, Option.bind_some]
          cases sprintfInto lineSize _ <;> rfl

theorem parseOctet_eq_some_iff {n : UInt8} : parseOctet w = some n ↔ w = octet n := by
  constructor
  · intro parsed
    simp only [parseOctet] at parsed
    split at parsed
    next fits =>
      cases parsed
      rw [octet, UInt8.toNat_ofNat_of_lt' fits.1]
      exact fits.2.symm
    · cases parsed
  · rintro rfl
    have value : leadingNumber (octet n) = n.toNat := leadingNumber_toDigits n.toNat
    have small := n.toNat_lt
    simp only [parseOctet, value]
    rw [if_pos ⟨small, rfl⟩, UInt8.ofNat_toNat]

theorem dot_notMem_octet (n : UInt8) : '.' ∉ octet n := by
  intro member
  have digit := Nat.isDigit_of_mem_toDigits (by decide) (by decide) member
  exact absurd digit (by decide)

theorem splitOn_inetNtop (address : Ipv4) :
    (inetNtop address).splitOn '.' = [octet address.a, octet address.b, octet address.c, octet address.d] := by
  have clean : ∀ w ∈ [octet address.a, octet address.b, octet address.c, octet address.d], '.' ∉ w := by
    simp only [List.forall_mem_cons, dot_notMem_octet, not_false_eq_true, List.not_mem_nil, false_imp_iff,
      implies_true, and_self]
  have whole := List.splitOn_intercalate '.' clean (by simp)
  simpa [inetNtop, List.intercalate] using whole

/-- The texts of addresses are those that `inet_ntop` writes. -/
theorem inetPton_eq_some_iff : inetPton ip = some address ↔ ip = inetNtop address := by
  constructor
  · intro parsed
    simp only [inetPton] at parsed
    split at parsed
    next a b c d split =>
      simp only [Option.bind_eq_bind, Option.bind_eq_some_iff, Option.pure_def, Option.some.injEq,
        parseOctet_eq_some_iff] at parsed
      obtain ⟨a', rfl, b', rfl, c', rfl, d', rfl, rfl⟩ := parsed
      have whole : ['.'].intercalate (ip.splitOn '.') = ip := List.intercalate_splitOn '.'
      rw [split] at whole
      rw [← whole]
      simp [inetNtop, List.intercalate]
    · cases parsed
  · rintro rfl
    have parse := fun n => (parseOctet_eq_some_iff (n := n)).mpr rfl
    simp [inetPton, splitOn_inetNtop, parse]

/-! ### The argument -/

theorem isValidIpPort_ok_iff {port : Int32} :
    isValidIpPort argument = .ok (ip, port) ↔ ∃ digits, argument = ip ++ ':' :: digits ∧ ':' ∉ ip ∧ ip ≠ [] ∧
      digits ≠ [] ∧ digits.all Char.isDigit = true ∧ port = atoi digits := by
  constructor
  · intro valid
    unfold isValidIpPort at valid
    cases search : strchr argument ':' with
    | none => simp [search] at valid
    | some colon =>
      obtain ⟨before, digits, rfl, absent, rfl⟩ := strchr_some search
      -- the checks in the order of the source
      simp only [search, List.drop_one, List.tail_cons, cutAt_append absent] at valid
      split at valid
      · cases valid
      next some_ =>
        split at valid
        · cases valid
        next digits_ =>
          split at valid
          · cases valid
          next nonempty =>
            cases valid
            exact ⟨digits, rfl, absent, nonempty, some_, by simpa using digits_, rfl⟩
  · rintro ⟨digits, rfl, absent, nonempty, some_, digits_, rfl⟩
    simp [isValidIpPort, strchr_append absent, cutAt_append absent, nonempty, some_, digits_]

/-- The port is dialled as it was typed if it is one. -/
theorem sinPort_atoi (nonempty : digits ≠ []) (all : digits.all Char.isDigit = true)
    (value : leadingNumber digits = port.toNat) : sinPort (atoi digits) = port := by
  have small := port.toNat_lt
  have read : (atoi digits).toInt = leadingNumber digits :=
    atoi_digits nonempty (List.all_eq_true.mp all) (by omega)
  have inRange : ((port.toNat : Int) % 2 ^ 16).toNat = port.toNat := by omega
  rw [sinPort, read, value, UInt16.ofInt, inRange, UInt16.ofNat_toNat]

theorem colon_notMem_inetNtop (address : Ipv4) : ':' ∉ inetNtop address := by
  intro member
  exact absurd (isPlain_of_mem_inetNtop member) (by decide)

/-- An argument of the right form names an address iff its parts are proper. -/
theorem names_iff_proper (absent : ':' ∉ ip) (nonempty : digits ≠ []) (all : digits.all Char.isDigit = true)
    (other : isMyself host ip = false) :
    (∃ address port, Names host (ip ++ ':' :: digits) address port) ↔ Proper ip digits := by
  constructor
  · rintro ⟨address, port, digits', shape, -, -, value, positive, -⟩
    -- neither text in front of the colon has one itself
    obtain ⟨rfl, rfl⟩ := append_cons_inj absent (colon_notMem_inetNtop address) shape
    have small := port.toNat_lt
    exact ⟨⟨address, rfl⟩, by omega, by omega⟩
  · rintro ⟨⟨address, rfl⟩, positive, small⟩
    have value : (UInt16.ofNat (leadingNumber digits)).toNat = leadingNumber digits :=
      UInt16.toNat_ofNat_of_lt' small
    exact ⟨address, .ofNat (leadingNumber digits), digits, rfl, nonempty, all, value.symm, by omega, other⟩

/-- What a proper argument is dialled as. -/
theorem named_parts (names : Names host (ip ++ ':' :: digits) address port) (absent : ':' ∉ ip) :
    inetPton ip = some address ∧ sinPort (atoi digits) = port := by
  obtain ⟨digits', shape, nonempty, all, value, -, -⟩ := names
  obtain ⟨rfl, rfl⟩ := append_cons_inj absent (colon_notMem_inetNtop address) shape
  exact ⟨inetPton_eq_some_iff.mpr rfl, sinPort_atoi nonempty all value⟩

/-- What a named address has is what `is_valid_ip_port` asks for. -/
theorem valid_of_names (names : Names host argument address port) :
    ∃ digits, isValidIpPort argument = .ok (inetNtop address, atoi digits) ∧
      isMyself host (inetNtop address) = false := by
  obtain ⟨digits, shape, nonempty, all, -, -, other⟩ := names
  exact ⟨digits, isValidIpPort_ok_iff.mpr ⟨digits, shape, colon_notMem_inetNtop address, inetNtop_ne_nil address,
    nonempty, all, rfl⟩, other⟩

/-! ### The line -/

theorem words_of_firstArgument (isFirst : firstArgument cmd = some argument) :
    ∃ first rest, words isADelimiter cmd = first :: argument :: rest := by
  match shape : words isADelimiter cmd with
  | first :: second :: rest =>
    simp only [firstArgument, shape, List.getElem?_cons_succ, List.getElem?_cons_zero, Option.some.injEq] at isFirst
    exact ⟨first, rest, by rw [isFirst]⟩
  | [_] => simp [firstArgument, shape] at isFirst
  | [] => simp [firstArgument, shape] at isFirst

theorem dials_of_unparsed
    (fails : ¬(words isADelimiter cmd ≠ [] ∧ ∀ w ∈ words isADelimiter cmd, tokenKind w = .argument)) :
    clientRequestConnect host cmd attempt = ⟨none, .nothing⟩ := by
  cases parsed : cmdParse cmd none with
  | error failure => simp only [clientRequestConnect, parsed]
  | ok pcmd => exact absurd ((cmdParse_plain rfl).mp parsed).2 fails

/-- To dial nothing is right if no address was typed, and an error is reported. -/
theorem dialsWhatWasTyped_none {reply : Reply} :
    DialsWhatWasTyped host cmd ⟨none, reply⟩ ↔
      (¬∃ argument address port, firstArgument cmd = some argument ∧ Names host argument address port) ∧
        ∃ text, reply = .error text := by
  constructor
  · intro dials
    have unnamed :
        ¬∃ argument address port, firstArgument cmd = some argument ∧ Names host argument address port := by
      rintro ⟨argument, address, port, isFirst, names⟩
      cases dials.named argument address port isFirst names
    exact ⟨unnamed, (dials.unnamed unnamed).2⟩
  · rintro ⟨unnamed, reported⟩
    exact ⟨fun argument address port isFirst names => absurd ⟨argument, address, port, isFirst, names⟩ unnamed,
      fun _ => ⟨rfl, reported⟩⟩

/-- With a valid argument that is no own address, what follows is decided by the system calls. -/
theorem clientRequestConnect_valid {first : CString} {rest : List CString} (attempt : Attempt)
    (shape : words isADelimiter cmd = first :: (ip ++ ':' :: digits) :: rest)
    (arguments : ∀ w ∈ words isADelimiter cmd, tokenKind w = .argument)
    (valid : isValidIpPort (ip ++ ':' :: digits) = .ok (ip, atoi digits)) (other : isMyself host ip = false) :
    if attempt.socket then
      (clientRequestConnect host cmd attempt).dialled = some ⟨inetPton ip, sinPort (atoi digits)⟩
    else clientRequestConnect host cmd attempt =
      ⟨none, errorInto (" < connect: could not open a new socket to ".toList ++ ip ++ ", error: ".toList ++
        attempt.strerror ++ ['\n'])⟩ := by
  have parsed : cmdParse cmd none = .ok ⟨[], words isADelimiter cmd⟩ :=
    (cmdParse_plain rfl).mpr ⟨rfl, by simp [shape], arguments⟩
  unfold clientRequestConnect
  simp only [parsed, shape, valid, other, Bool.false_eq_true, if_false]
  cases attempt.socket with
  | false => rfl
  | true =>
    -- the rest of the function only changes the reply
    simp only [Bool.not_true, Bool.false_eq_true, if_false, if_true]
    split
    · rfl
    split
    · rfl
    split
    · rfl
    split <;> rfl

theorem dials_valid_iff {first : CString} {rest : List CString}
    (shape : words isADelimiter cmd = first :: (ip ++ ':' :: digits) :: rest)
    (arguments : ∀ w ∈ words isADelimiter cmd, tokenKind w = .argument) (absent : ':' ∉ ip) (some_ : ip ≠ [])
    (nonempty : digits ≠ []) (all : digits.all Char.isDigit = true) (other : isMyself host ip = false) :
    DialsWhatWasTyped host cmd (clientRequestConnect host cmd attempt) ↔
      if attempt.socket then Proper ip digits
      else ¬Proper ip digits ∧ ∃ text, errorInto (" < connect: could not open a new socket to ".toList ++ ip ++
        ", error: ".toList ++ attempt.strerror ++ ['\n']) = .error text := by
  have valid := isValidIpPort_ok_iff.mpr ⟨digits, rfl, absent, some_, nonempty, all, rfl⟩
  have decided := clientRequestConnect_valid attempt shape arguments valid other
  have isFirst : firstArgument cmd = some (ip ++ ':' :: digits) := by
    simp [firstArgument, shape]
  have named : (∃ argument address port, firstArgument cmd = some argument ∧ Names host argument address port) ↔
      Proper ip digits := by
    rw [← names_iff_proper absent nonempty all other]
    simp only [isFirst, Option.some.injEq, exists_and_left, exists_eq_left']
  cases socket : attempt.socket with
  | false =>
    simp only [socket, Bool.false_eq_true, if_false] at decided ⊢
    rw [decided, dialsWhatWasTyped_none, named]
  | true =>
    simp only [socket, if_true] at decided ⊢
    constructor
    · intro dials
      by_contra improper
      have undialled := (dials.unnamed (mt named.mp improper)).1
      rw [decided] at undialled
      cases undialled
    · intro proper
      refine ⟨?_, fun unnamed => absurd (named.mpr proper) unnamed⟩
      intro argument address port isFirst' names
      cases isFirst.symm.trans isFirst'
      obtain ⟨read, converted⟩ := named_parts names absent
      rw [decided, read, converted]

/-- Any other line that is parsed is answered with an error. -/
theorem clientRequestConnect_invalid (attempt : Attempt)
    (arguments : ∀ w ∈ words isADelimiter cmd, tokenKind w = .argument) (some_ : words isADelimiter cmd ≠ [])
    (invalid : ∀ argument ip port, firstArgument cmd = some argument →
      isValidIpPort argument = .ok (ip, port) → isMyself host ip = true) :
    ∃ text, clientRequestConnect host cmd attempt = ⟨none, .error text⟩ := by
  have parsed : cmdParse cmd none = .ok ⟨[], words isADelimiter cmd⟩ := (cmdParse_plain rfl).mpr ⟨rfl, some_, arguments⟩
  unfold clientRequestConnect
  simp only [parsed]
  split
  next first argument rest shape =>
    have isFirst : firstArgument cmd = some argument := by
      simp [firstArgument, shape]
    cases checked : isValidIpPort argument with
    | error error => exact ⟨_, rfl⟩
    | ok couple =>
      obtain ⟨ip, port⟩ := couple
      simp only [invalid argument ip port isFirst checked, if_true]
      exact ⟨_, rfl⟩
  next => exact ⟨_, rfl⟩

/-- What is dialled is what was typed iff the line is well typed. -/
theorem dials_iff_wellTyped (host : Host) (cmd : CString) (attempt : Attempt) :
    DialsWhatWasTyped host cmd (clientRequestConnect host cmd attempt) ↔ WellTyped host cmd attempt := by
  by_cases parses : words isADelimiter cmd ≠ [] ∧ ∀ w ∈ words isADelimiter cmd, tokenKind w = .argument
  case neg =>
    -- the client gets no answer at all
    refine iff_of_false ?_ fun typed => parses ⟨typed.1, typed.2.1⟩
    rw [dials_of_unparsed parses, dialsWhatWasTyped_none]
    rintro ⟨-, text, reply⟩
    cases reply
  obtain ⟨some_, arguments⟩ := parses
  by_cases valid : ∃ ip digits, firstArgument cmd = some (ip ++ ':' :: digits) ∧ ':' ∉ ip ∧ ip ≠ [] ∧ digits ≠ [] ∧
      digits.all Char.isDigit = true ∧ isMyself host ip = false
  · obtain ⟨ip, digits, isFirst, absent, nonemptyIp, nonempty, all, other⟩ := valid
    obtain ⟨first, rest, shape⟩ := words_of_firstArgument isFirst
    rw [dials_valid_iff shape arguments absent nonemptyIp nonempty all other]
    constructor
    · intro decided
      refine ⟨some_, arguments, fun ip' digits' isFirst' absent' _ _ _ _ => ?_⟩
      -- the text is split at its first colon
      obtain ⟨rfl, rfl⟩ := append_cons_inj absent absent' (Option.some.inj (isFirst.symm.trans isFirst'))
      exact decided
    · intro typed
      exact typed.2.2 ip digits isFirst absent nonemptyIp nonempty all other
  · -- neither an address nor what looks like one was typed
    have invalid : ∀ argument ip port, firstArgument cmd = some argument →
        isValidIpPort argument = .ok (ip, port) → isMyself host ip = true := by
      intro argument ip port isFirst checked
      obtain ⟨digits, rfl, absent, nonemptyIp, nonempty, all, -⟩ := isValidIpPort_ok_iff.mp checked
      by_contra other
      exact valid ⟨ip, digits, isFirst, absent, nonemptyIp, nonempty, all, by simpa using other⟩
    obtain ⟨text, answered⟩ := clientRequestConnect_invalid attempt arguments some_ invalid
    rw [answered, dialsWhatWasTyped_none]
    refine iff_of_true ⟨?_, text, rfl⟩ ⟨some_, arguments, fun ip digits isFirst absent nonemptyIp nonempty all other =>
      absurd ⟨ip, digits, isFirst, absent, nonemptyIp, nonempty, all, other⟩ valid⟩
    rintro ⟨argument, address, port, isFirst, names⟩
    obtain ⟨digits, checked, other⟩ := valid_of_names names
    rw [invalid argument _ _ isFirst checked] at other
    cases other

/-- Of the port 70000 the low 16 bits are dialled. -/
theorem large_port_dials_other :
    let host : Host := ⟨⟨10, 0, 0, 9⟩, Prefs.default⟩
    let cmd := "connect 10.0.0.1:70000".toList
    (clientRequestConnect host cmd succeeds).dialled = some ⟨some ⟨10, 0, 0, 1⟩, 4464⟩ ∧
      ¬DialsWhatWasTyped host cmd (clientRequestConnect host cmd succeeds) := by
  intro host cmd
  have dialled : (clientRequestConnect host cmd succeeds).dialled = some ⟨some ⟨10, 0, 0, 1⟩, 4464⟩ := by
    decide +kernel
  refine ⟨dialled, fun dials => ?_⟩
  have isFirst : firstArgument cmd = some ("10.0.0.1".toList ++ ':' :: "70000".toList) := by
    decide +kernel
  have unnamed : ¬∃ argument address port, firstArgument cmd = some argument ∧ Names host argument address port := by
    rintro ⟨argument, address, port, isFirst', names⟩
    cases isFirst.symm.trans isFirst'
    have proper := (names_iff_proper (by decide +kernel) (by decide +kernel) (by decide +kernel) (by decide +kernel)).mp
      ⟨address, port, names⟩
    exact absurd proper.2.2 (by decide +kernel)
  rw [(dials.unnamed unnamed).1] at dialled
  cases dialled

end Pire2Pire.Connect
