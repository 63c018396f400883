import Pire2Pire.Library.CString
import Pire2Pire.Library.Heap

/-! The lists of transfers in progress, `downloads` and `uploads` (`dl_file.c`). -/
namespace Pire2Pire.Transfer

open Library

/-- `struct dl_file`. -/
structure DlFile where
  next : Ptr
  path : CString
  totalSize : Int32
deriving DecidableEq, Repr

/-- What an entry says about its transfer. -/
def DlFile.entry (f : DlFile) : CString × Int32 :=
  (f.path, f.totalSize)

/-- The memory of the entries, and the head of one of the lists. -/
structure DlFiles where
  heap : Heap DlFile
  head : Ptr

/-- `dl_file_new`; `a` is what malloc returns. -/
def dlFileNew (q : DlFiles) (a : Ptr) (path : CString) (size : Int32) : Option (DlFiles × Nat) :=
  a.map fun f => ({ q with heap := q.heap.set f ⟨none, path, size⟩ }, f)

/-- `dl_file_add`, with its result stored in the head. -/
def dlFileAdd (q : DlFiles) (f : Nat) : Option DlFiles :=
  match q.head with
  | none => some { q with head := some f }
  | some head => (q.heap f).map fun x => ⟨q.heap.set f { x with next := some head }, some f⟩

/-- The loop of `dl_file_remove`; `t` is the entry in front of `tmp`. -/
def dlFileRemoveLoop (q : DlFiles) (f : Nat) : Nat → Ptr → Ptr → Option DlFiles
  | 0, _, _ => none
  | _ + 1, _, none => some q
  | fuel + 1, t, some tmp => do
    let x ← q.heap tmp
    if tmp = f then
      match t with
      | none => return { q with head := x.next }
      | some t =>
        let y ← q.heap t
        return { q with heap := q.heap.set t { y with next := x.next } }
    else dlFileRemoveLoop q f fuel (some tmp) x.next

/-- `dl_file_remove`, with its result stored in the head; `fuel` bounds the loop. -/
def dlFileRemove (fuel : Nat) (q : DlFiles) (f : Nat) : Option DlFiles :=
  dlFileRemoveLoop q f fuel none q.head

def dlFileFree (q : DlFiles) (f : Nat) : DlFiles :=
  { q with heap := q.heap.free f }

/-- An entry of a list: where it is, and what it says. -/
abbrev Listing := Nat × CString × Int32

/-- The list is `l`. -/
def Listed (q : DlFiles) (l : List Listing) : Prop :=
  Path DlFile.next DlFile.entry q.heap q.head l none

variable {q q' : DlFiles} {l before after : List Listing} {a fuel : Nat}

theorem listed_fresh (listed : Listed q l) (free : q.heap a = none) : a ∉ addrs l := by
  obtain ⟨cells, seg, rfl⟩ := path_iff_seg.mp listed
  simpa using seg_fresh seg free

theorem listed_head (listed : Listed q l) : q.head = l.head?.map Prod.fst := by
  cases l with
  | nil => exact listed
  | cons c l => exact listed.1

/-- A list does not have an entry more. -/
theorem listed_cons_ne {c : Listing} (longer : Listed q (c :: l)) : ¬Listed q l := by
  intro listed
  obtain ⟨cells, chain, shown⟩ := path_iff_seg.mp longer
  obtain ⟨cells', chain', shown'⟩ := path_iff_seg.mp listed
  have lengths := congrArg List.length (chain_unique chain chain')
  have long := congrArg List.length shown
  have short := congrArg List.length shown'
  simp only [List.length_map, List.length_cons] at long short
  omega

/-- A new entry that is added is the first one. -/
theorem dlFileAdd_listed (listed : Listed q l) (free : q.heap a = none) (path : CString) (size : Int32) :
    ∃ q₁ q₂, dlFileNew q (some a) path size = some (q₁, a) ∧ dlFileAdd q₁ a = some q₂ ∧
      Listed q₂ ((a, path, size) :: l) ∧ ∀ b, b ≠ a → q₂.heap b = q.heap b := by
  have unlisted := listed_fresh listed free
  have frame : ∀ x y, ∀ b ∈ addrs l, ((q.heap.set a x).set a y) b = q.heap b := by
    intro x y b member
    have differ : b ≠ a := fun same => unlisted (same ▸ member)
    rw [Heap.set_other _ _ differ, Heap.set_other _ _ differ]
  refine ⟨_, ⟨(q.heap.set a ⟨none, path, size⟩).set a ⟨q.head, path, size⟩, some a⟩, rfl, ?_, ?_, ?_⟩
  · cases head : q.head with
    -- without a list `next` stays as `dl_file_new` left it
    | none => simp [dlFileAdd, Heap.set]
    | some first => simp [dlFileAdd]
  · exact ⟨rfl, _, Heap.set_here .., rfl, path_congr (frame _ _) listed⟩
  · intro b differ
    simp [differ]

/-- The loop takes the entry out wherever it is; `passed` are the entries in front of `tmp`. -/
theorem dlFileRemoveLoop_listed {c : Listing} (passed : List Listing) (enough : before.length < fuel)
    (listed : Listed q (passed ++ (before ++ c :: after))) :
    ∃ q', dlFileRemoveLoop q c.1 fuel (passed.getLast?.map Prod.fst)
        ((before ++ c :: after).head?.map Prod.fst) = some q' ∧
      Listed q' (passed ++ (before ++ after)) ∧ ∀ b ∉ addrs (passed ++ before), q'.heap b = q.heap b := by
  -- induction on the entries between `tmp` and the one that is looked for
  induction before generalizing fuel passed with
  | nil =>
    obtain ⟨fuel, rfl⟩ := Nat.exists_eq_succ_of_ne_zero (Nat.ne_of_gt enough)
    have nodup := path_nodup listed
    obtain ⟨m, front, head, x, cell, shown, behind⟩ := path_append.mp listed
    rcases List.eq_nil_or_concat passed with rfl | ⟨init, d, rfl⟩
    · refine ⟨{ q with head := x.next }, ?_, behind, fun _ _ => rfl⟩
      simp only [List.getLast?_nil, Option.map_none, List.nil_append, List.head?_cons, Option.map_some,
        dlFileRemoveLoop, Option.bind_eq_bind, cell, Option.bind_some, if_true, Option.pure_def]
    · simp only [List.concat_eq_append, List.nil_append] at *
      obtain ⟨m', initFront, head', y, cell', shown', link⟩ := path_append.mp front
      simp only [addrs, List.map_append, List.nodup_append, List.map_cons, List.map_nil, List.mem_append,
        List.mem_cons] at nodup
      have outside : d.1 ∉ addrs init := fun member => nodup.1.2.2 d.1 member d.1 (.inl rfl) rfl
      have apart : ∀ b ∈ addrs after, b ≠ d.1 :=
        fun b member same => nodup.2.2 d.1 (.inr (.inl rfl)) b (.inr member) same.symm
      refine ⟨{ q with heap := q.heap.set d.1 { y with next := x.next } }, ?_, ?_, ?_⟩
      · simp only [List.getLast?_append, List.getLast?_singleton, Option.some_or, Option.map_some, List.head?_cons,
          dlFileRemoveLoop, Option.bind_eq_bind, cell, Option.bind_some, if_true, cell', Option.pure_def]
      · exact path_append.mpr ⟨x.next, path_relink cell' outside front rfl rfl,
          path_congr (fun b member => Heap.set_other _ _ (apart b member)) behind⟩
      · intro b notPassed
        exact Heap.set_other _ _ (fun same => notPassed (by simp [same]))
  | cons d before ih =>
    obtain ⟨fuel, rfl⟩ := Nat.exists_eq_succ_of_ne_zero (Nat.ne_of_gt (Nat.zero_lt_of_lt enough))
    have nodup := path_nodup listed
    obtain ⟨m, front, head, x, cell, shown, behind⟩ := path_append.mp listed
    have other : d.1 ≠ c.1 := by
      simp only [addrs, List.map_append, List.nodup_append, List.map_cons, List.cons_append, List.nodup_cons,
        List.mem_append, List.mem_cons, not_or] at nodup
      exact nodup.2.1.1.2.1
    obtain ⟨q', ran, taken, frame⟩ := ih (passed ++ [d]) (Nat.lt_of_succ_lt_succ enough) (by simpa using listed)
    refine ⟨q', ?_, by simpa using taken, by simpa using frame⟩
    have next : x.next = (before ++ c :: after).head?.map Prod.fst := by
      cases before with
      | nil => exact behind.1
      | cons e before => exact behind.1
    simp only [List.getLast?_append, List.getLast?_singleton, Option.some_or, Option.map_some] at ran
    simp only [List.cons_append, List.head?_cons, Option.map_some, dlFileRemoveLoop, Option.bind_eq_bind, cell,
      Option.bind_some, if_neg other, next, ran]

theorem dlFileRemove_listed {c : Listing} (before : List Listing) (enough : before.length < fuel)
    (listed : Listed q (before ++ c :: after)) :
    ∃ q', dlFileRemove fuel q c.1 = some q' ∧ Listed q' (before ++ after) ∧
      ∀ b ∉ addrs before, q'.heap b = q.heap b := by
  have head := listed_head listed
  obtain ⟨q', ran, taken, frame⟩ := dlFileRemoveLoop_listed [] enough listed
  exact ⟨q', by rw [dlFileRemove, head]; exact ran, taken, frame⟩

/-- Freeing an entry that is on no list. -/
theorem dlFileFree_listed (listed : Listed q l) (outside : a ∉ addrs l) : Listed (dlFileFree q a) l := by
  apply path_congr _ listed
  intro b member
  exact Heap.free_other _ (fun same => outside (same ▸ member))

/-- An entry that is added and taken out again leaves the list as it was. -/
theorem dlFile_roundTrip (listed : Listed q l) (free : q.heap a = none) (path : CString) (size : Int32)
    (positive : 0 < fuel) :
    ∃ q₁ q₂ q₃, dlFileNew q (some a) path size = some (q₁, a) ∧ dlFileAdd q₁ a = some q₂ ∧
      dlFileRemove fuel q₂ a = some q₃ ∧ Listed q₂ ((a, path, size) :: l) ∧ Listed (dlFileFree q₃ a) l := by
  obtain ⟨q₁, q₂, new, added, longer, -⟩ := dlFileAdd_listed listed free path size
  obtain ⟨q₃, removed, back, -⟩ := dlFileRemove_listed [] positive longer
  exact ⟨q₁, q₂, q₃, new, added, removed, longer, dlFileFree_listed back (listed_fresh listed free)⟩

end Pire2Pire.Transfer
