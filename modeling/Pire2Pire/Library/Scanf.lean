import Pire2Pire.Library.CString

/-! Formatted input: the directives of `scanf` that read words and numbers. -/
namespace Pire2Pire.Library

/-- `%s`, white space, and any other character of a format. -/
inductive Directive where
  | word
  | blank
  | char (c : Char)
deriving DecidableEq, Repr

/-- The words stored so far, whether the input has ended in front of a directive, and the input left. -/
structure Scanned where
  stored : List CString
  exhausted : Bool
  rest : CString
deriving DecidableEq, Repr

def isGraph (c : Char) : Bool :=
  !isspace c

def scan : List Directive → CString → Scanned
  | [], s => ⟨[], false, s⟩
  | .word :: format, s =>
    match s.dropWhile isspace with
    | [] => ⟨[], true, []⟩
    | c :: s =>
      let later := scan format ((c :: s).dropWhile isGraph)
      { later with stored := (c :: s).takeWhile isGraph :: later.stored }
  | .blank :: format, s => scan format (s.dropWhile isspace)
  | .char _ :: _, [] => ⟨[], true, []⟩
  -- a character that does not match stays in the input
  | .char c :: format, d :: s => if d = c then scan format s else ⟨[], false, d :: s⟩

/-- The call returns EOF: the input has ended and nothing is stored. -/
def Scanned.eof (scanned : Scanned) : Bool :=
  scanned.exhausted && scanned.stored.isEmpty

/-- `sscanf` with `%d`; no result where it stores nothing. -/
def sscanfInt (s : CString) : Option Int32 :=
  let signed := s.dropWhile isspace
  let digits := match signed with
    | '-' :: digits => digits
    | '+' :: digits => digits
    | digits => digits
  if (digits.takeWhile Char.isDigit).isEmpty then none else some (atoi s)

/-! ### Words and white space -/

structure IsWord (w : CString) : Prop where
  nonempty : w ≠ []
  graph : ∀ c ∈ w, isspace c = false

def IsBlank (s : CString) : Prop :=
  ∀ c ∈ s, isspace c = true

/-- Nothing follows, or white space. -/
def Ends (s : CString) : Prop :=
  ∀ c ∈ s.head?, isspace c = true

variable {format : List Directive} {s w blanks rest : CString} {c : Char}

theorem isBlank_nil : IsBlank [] := by
  simp [IsBlank]

theorem dropWhile_blanks (blank : IsBlank blanks) (s : CString) :
    (blanks ++ s).dropWhile isspace = s.dropWhile isspace :=
  List.dropWhile_append_of_pos blank

theorem dropWhile_head (graph : ∀ c ∈ s.head?, isspace c = false) : s.dropWhile isspace = s := by
  cases s with
  | nil => rfl
  | cons c s => simp [graph c rfl]

theorem dropWhile_word (word : IsWord w) (rest : CString) : (w ++ rest).dropWhile isspace = w ++ rest := by
  obtain ⟨c, w', rfl⟩ := List.exists_cons_of_ne_nil word.nonempty
  simp [word.graph c List.mem_cons_self]

theorem ends_append (blank : IsBlank blanks) (nonempty : blanks ≠ []) (rest : CString) : Ends (blanks ++ rest) := by
  obtain ⟨c, blanks', rfl⟩ := List.exists_cons_of_ne_nil nonempty
  intro d head
  cases head
  exact blank c List.mem_cons_self

theorem takeWhile_word (word : IsWord w) (ends : Ends rest) : (w ++ rest).takeWhile isGraph = w := by
  have graph : ∀ c ∈ w, isGraph c = true := fun c member => by simp [isGraph, word.graph c member]
  rw [List.takeWhile_append_of_pos graph]
  cases rest with
  | nil => simp
  | cons d rest => simp [isGraph, ends d rfl]

theorem dropWhile_graph (word : IsWord w) (ends : Ends rest) : (w ++ rest).dropWhile isGraph = rest := by
  have graph : ∀ c ∈ w, isGraph c = true := fun c member => by simp [isGraph, word.graph c member]
  rw [List.dropWhile_append_of_pos graph]
  cases rest with
  | nil => rfl
  | cons d rest => simp [isGraph, ends d rfl]

/-- A text is white space, or starts with a word behind some. -/
theorem exists_word (s : CString) :
    IsBlank s ∨ ∃ blanks w rest, s = blanks ++ (w ++ rest) ∧ IsBlank blanks ∧ IsWord w ∧ Ends rest := by
  have parts := List.takeWhile_append_dropWhile (p := isspace) (l := s)
  have blank : IsBlank (s.takeWhile isspace) := fun c member => List.mem_takeWhile_imp member
  cases behind : s.dropWhile isspace with
  | nil =>
    rw [behind, List.append_nil] at parts
    exact .inl (parts ▸ blank)
  | cons c t =>
    have first : isspace c = false := by
      have head := List.head?_dropWhile_not isspace s
      simpa [behind] using head
    refine .inr ⟨s.takeWhile isspace, (c :: t).takeWhile isGraph, (c :: t).dropWhile isGraph, ?_, blank, ⟨?_, ?_⟩, ?_⟩
    · rw [List.takeWhile_append_dropWhile, ← behind, parts]
    · simp [isGraph, first]
    · intro d member
      simpa [isGraph] using List.mem_takeWhile_imp member
    · intro d head
      have stops := List.head?_dropWhile_not isGraph (c :: t)
      rw [Option.mem_def] at head
      simpa [head, isGraph] using stops

/-! ### The directives -/

theorem scan_word (format : List Directive) (blank : IsBlank blanks) (word : IsWord w) (ends : Ends rest) :
    scan (.word :: format) (blanks ++ (w ++ rest)) =
      { scan format rest with stored := w :: (scan format rest).stored } := by
  obtain ⟨c, w', rfl⟩ := List.exists_cons_of_ne_nil word.nonempty
  have skipped : (blanks ++ (c :: w' ++ rest)).dropWhile isspace = c :: (w' ++ rest) := by
    rw [dropWhile_blanks blank, dropWhile_word word, List.cons_append]
  have taken := takeWhile_word word ends
  have left := dropWhile_graph word ends
  rw [List.cons_append] at taken left
  simp only [scan, skipped, taken, left]

theorem scan_word_blank (format : List Directive) (blank : IsBlank s) : scan (.word :: format) s = ⟨[], true, []⟩ := by
  have skipped : s.dropWhile isspace = [] := List.dropWhile_eq_nil_iff.mpr blank
  simp only [scan, skipped]

theorem scan_blank (blank : IsBlank blanks) (s : CString) :
    scan (.blank :: format) (blanks ++ s) = scan (.blank :: format) s := by
  simp only [scan, dropWhile_blanks blank]

/-- What is stored are words of the input. -/
theorem mem_stored (member : w ∈ (scan format s).stored) : w <:+: s ∧ IsWord w := by
  -- induction on the format, of which only `%s` stores anything
  induction format generalizing s with
  | nil => cases member
  | cons directive format ih =>
    cases directive with
    | word =>
      rcases exists_word s with blank | ⟨blanks, first, rest, rfl, blank, word, ends⟩
      · rw [scan_word_blank format blank] at member
        cases member
      · rw [scan_word format blank word ends] at member
        cases List.mem_cons.mp member with
        | inl same => exact ⟨⟨blanks, rest, by simp [same]⟩, same ▸ word⟩
        | inr later =>
          obtain ⟨inside, isWord⟩ := ih later
          have behind : rest <:+ blanks ++ (first ++ rest) := ⟨blanks ++ first, by simp⟩
          exact ⟨inside.trans behind.isInfix, isWord⟩
    | blank =>
      obtain ⟨inside, isWord⟩ := ih (s := s.dropWhile isspace) member
      exact ⟨inside.trans (List.dropWhile_suffix _).isInfix, isWord⟩
    | char c =>
      cases s with
      | nil => cases member
      | cons d s =>
        simp only [scan] at member
        split at member
        · obtain ⟨inside, isWord⟩ := ih member
          exact ⟨inside.trans (List.suffix_cons d s).isInfix, isWord⟩
        · cases member

/-- What is left is behind at least one character for each word that is stored. -/
theorem scan_parts (format : List Directive) (s : CString) :
    ∃ taken, s = taken ++ (scan format s).rest ∧ (scan format s).stored.length ≤ taken.length := by
  induction format generalizing s with
  | nil => exact ⟨[], rfl, Nat.le_refl _⟩
  | cons directive format ih =>
    cases directive with
    | word =>
      rcases exists_word s with blank | ⟨blanks, first, rest, rfl, blank, word, ends⟩
      · rw [scan_word_blank format blank]
        exact ⟨s, by simp, by simp⟩
      · obtain ⟨taken, shape, enough⟩ := ih rest
        have positive := List.length_pos_iff.mpr word.nonempty
        rw [scan_word format blank word ends]
        refine ⟨blanks ++ (first ++ taken), ?_, ?_⟩
        · rw [List.append_assoc, List.append_assoc, ← shape]
        · simp only [List.length_cons, List.length_append]
          omega
    | blank =>
      obtain ⟨taken, shape, enough⟩ := ih (s.dropWhile isspace)
      refine ⟨s.takeWhile isspace ++ taken, ?_, ?_⟩
      · simp only [scan, List.append_assoc, ← shape, List.takeWhile_append_dropWhile]
      · rw [List.length_append]
        exact enough.trans (Nat.le_add_left _ _)
    | char c =>
      cases s with
      | nil => exact ⟨[], rfl, Nat.le_refl _⟩
      | cons d s =>
        simp only [scan]
        split
        · obtain ⟨taken, shape, enough⟩ := ih s
          exact ⟨d :: taken, by rw [List.cons_append, ← shape], enough.trans (Nat.le_succ _)⟩
        · exact ⟨[], rfl, Nat.le_refl _⟩

theorem length_scan (format : List Directive) (s : CString) :
    (scan format s).rest.length + (scan format s).stored.length ≤ s.length := by
  obtain ⟨taken, shape, enough⟩ := scan_parts format s
  have whole := congrArg List.length shape
  rw [List.length_append] at whole
  omega

theorem scan_rest_suffix (format : List Directive) (s : CString) : (scan format s).rest <:+ s := by
  obtain ⟨taken, shape, -⟩ := scan_parts format s
  exact ⟨taken, shape.symm⟩

end Pire2Pire.Library
