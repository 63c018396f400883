import Mathlib

/-! Ordered lists of separated integer intervals, and taking a block out of one of them. -/
namespace Pire2Pire.Library

/-- Both ends included. -/
abbrev Span := Int × Int

/-- Nonempty intervals in increasing order, with at least one integer between any two. -/
def Separated (l : List Span) : Prop :=
  (∀ x ∈ l, x.1 ≤ x.2) ∧ l.Pairwise fun x y => x.2 + 1 < y.1

def covered (l : List Span) : Set Int := {b | ∃ x ∈ l, x.1 ≤ b ∧ b ≤ x.2}

/-- The block lies inside one of the intervals. -/
def Within (s e : Int) (l : List Span) : Prop := ∃ x ∈ l, x.1 ≤ s ∧ e ≤ x.2

instance (s e : Int) (l : List Span) : Decidable (Within s e l) :=
  inferInstanceAs (Decidable (∃ x ∈ l, _))

/-- What is left of one interval around a block inside it. -/
def leftover (s e : Int) (x : Span) : List Span :=
  (if x.1 < s then [(x.1, s - 1)] else []) ++ (if e < x.2 then [(e + 1, x.2)] else [])

/-- Take the block out of the first interval it lies inside; a block that lies inside
none changes nothing. -/
def cut (s e : Int) : List Span → List Span
  | [] => []
  | x :: l => if x.1 ≤ s ∧ e ≤ x.2 then leftover s e x ++ l else x :: cut s e l

theorem separated_cons {x : Span} {l : List Span} :
    Separated (x :: l) ↔ x.1 ≤ x.2 ∧ (∀ y ∈ l, x.2 + 1 < y.1) ∧ Separated l := by
  simp only [Separated, List.forall_mem_cons, List.pairwise_cons]
  tauto

theorem covered_nil : covered [] = ∅ := by
  ext b
  simp [covered]

theorem covered_cons (x : Span) (l : List Span) :
    covered (x :: l) = Set.Icc x.1 x.2 ∪ covered l := by
  ext b
  simp [covered]

theorem covered_append (l r : List Span) : covered (l ++ r) = covered l ∪ covered r := by
  ext b
  simp only [covered, List.mem_append, Set.mem_ofPred_eq, Set.mem_union]
  constructor
  · rintro ⟨x, left | right, bounds⟩
    · exact Or.inl ⟨x, left, bounds⟩
    · exact Or.inr ⟨x, right, bounds⟩
  · rintro (⟨x, member, bounds⟩ | ⟨x, member, bounds⟩)
    · exact ⟨x, Or.inl member, bounds⟩
    · exact ⟨x, Or.inr member, bounds⟩

/-- A block that starts before the end of the first interval lies inside no later one. -/
theorem not_within_tail {s e : Int} {x : Span} {l : List Span} (sep : Separated (x :: l))
    (early : s ≤ x.2) : ¬ Within s e l := by
  rintro ⟨y, member, starts, _⟩
  have gap := (separated_cons.mp sep).2.1 y member
  omega

theorem cut_of_not_within {s e : Int} {l : List Span} (outside : ¬ Within s e l) :
    cut s e l = l := by
  induction l with
  | nil => rfl
  | cons x l ih =>
    have here : ¬ (x.1 ≤ s ∧ e ≤ x.2) := fun inside => outside ⟨x, by simp, inside⟩
    have later : ¬ Within s e l := fun ⟨y, member, inside⟩ => outside ⟨y, by simp [member], inside⟩
    simp only [cut, if_neg here, ih later]

theorem length_cut (s e : Int) (l : List Span) : (cut s e l).length ≤ l.length + 1 := by
  induction l with
  | nil => simp [cut]
  | cons x l ih =>
    simp only [cut]
    split
    · -- one interval becomes two at most
      simp only [leftover, List.length_append, List.length_cons]
      split <;> split <;> simp <;> omega
    · simp only [List.length_cons]
      omega

/-- Every interval of the result is part of an interval of the list. -/
theorem mem_cut {s e : Int} (ordered : s ≤ e) {l : List Span} {y : Span}
    (member : y ∈ cut s e l) : ∃ x ∈ l, x.1 ≤ y.1 ∧ y.2 ≤ x.2 := by
  induction l with
  | nil => simp [cut] at member
  | cons x l ih =>
    simp only [cut] at member
    split at member
    next inside =>
      -- a piece of the interval that is cut, or one of the others
      rcases List.mem_append.mp member with piece | later
      · refine ⟨x, by simp, ?_⟩
        simp only [leftover, List.mem_append] at piece
        rcases piece with piece | piece
        all_goals
          split at piece
          · simp only [List.mem_singleton] at piece
            subst y
            dsimp only
            omega
          · simp at piece
      · exact ⟨y, by simp [later], le_refl _, le_refl _⟩
    · rcases List.mem_cons.mp member with rfl | later
      · exact ⟨y, by simp, le_refl _, le_refl _⟩
      · obtain ⟨z, listed, bounds⟩ := ih later
        exact ⟨z, by simp [listed], bounds⟩

theorem separated_leftover {s e : Int} {x : Span} {l : List Span} (sep : Separated (x :: l))
    (ordered : s ≤ e) (inside : x.1 ≤ s ∧ e ≤ x.2) : Separated (leftover s e x ++ l) := by
  obtain ⟨_, gap, rest⟩ := separated_cons.mp sep
  have behind (y : Span) (member : y ∈ l) : s < y.1 ∧ e + 1 < y.1 := by
    have := gap y member
    omega
  -- by what is left on either side of the block
  unfold leftover
  by_cases left : x.1 < s <;> by_cases right : e < x.2
  · simp only [if_pos left, if_pos right, List.cons_append,
      List.nil_append]
    refine separated_cons.mpr ⟨by dsimp only; omega, ?_,
      separated_cons.mpr ⟨by dsimp only; omega, gap, rest⟩⟩
    intro y member
    rcases List.mem_cons.mp member with rfl | later
    · dsimp only
      omega
    · have := behind y later
      dsimp only
      omega
  · simp only [if_pos left, if_neg right, List.append_nil, List.singleton_append]
    refine separated_cons.mpr ⟨by dsimp only; omega, ?_, rest⟩
    intro y member
    have := behind y member
    dsimp only
    omega
  · simp only [if_neg left, if_pos right, List.nil_append, List.singleton_append]
    exact separated_cons.mpr ⟨by dsimp only; omega, gap, rest⟩
  · simpa only [if_neg left, if_neg right, List.nil_append] using rest

theorem separated_cut {s e : Int} (ordered : s ≤ e) {l : List Span} (sep : Separated l) :
    Separated (cut s e l) := by
  induction l with
  | nil => exact sep
  | cons x l ih =>
    simp only [cut]
    split
    next inside => exact separated_leftover sep ordered inside
    · obtain ⟨nonempty, gap, rest⟩ := separated_cons.mp sep
      refine separated_cons.mpr ⟨nonempty, ?_, ih rest⟩
      intro y member
      -- what is left of a later interval does not start before it
      obtain ⟨z, listed, starts, _⟩ := mem_cut ordered member
      have := gap z listed
      omega

theorem covered_leftover {s e : Int} {x : Span} (ordered : s ≤ e) (inside : x.1 ≤ s ∧ e ≤ x.2) :
    covered (leftover s e x) = Set.Icc x.1 x.2 \ Set.Icc s e := by
  ext b
  simp only [leftover, covered_append, Set.mem_union, Set.mem_sdiff, Set.mem_Icc]
  by_cases left : x.1 < s <;> by_cases right : e < x.2 <;>
    simp only [left, right, if_true, if_false, covered_cons, covered_nil, Set.mem_union,
      Set.mem_Icc, Set.mem_empty_iff_false, or_false, false_or, false_iff] <;> omega

/-- Cutting removes exactly the block when it lies inside an interval. -/
theorem covered_cut {s e : Int} (ordered : s ≤ e) {l : List Span} (sep : Separated l)
    (inside : Within s e l) : covered (cut s e l) = covered l \ Set.Icc s e := by
  induction l with
  | nil => simp [Within] at inside
  | cons x l ih =>
    obtain ⟨nonempty, gap, rest⟩ := separated_cons.mp sep
    simp only [cut]
    split
    next here =>
      -- The later intervals lie behind the block, so they lose nothing.
      have untouched : covered l = covered l \ Set.Icc s e := by
        ext b
        simp only [covered, Set.mem_ofPred_eq, Set.mem_sdiff, Set.mem_Icc]
        constructor
        · rintro ⟨y, member, bounds⟩
          have := gap y member
          exact ⟨⟨y, member, bounds⟩, by omega⟩
        · exact fun both => both.1
      rw [covered_append, covered_leftover ordered here, covered_cons, Set.union_sdiff_distrib,
        ← untouched]
    next here =>
      obtain ⟨y, member, starts, ends⟩ := inside
      rcases List.mem_cons.mp member with rfl | later
      · exact absurd ⟨starts, ends⟩ here
      · -- the block lies behind this interval, so the cut is made further on
        have beyond := gap y later
        rw [covered_cons, covered_cons, ih rest ⟨y, later, starts, ends⟩, Set.union_sdiff_distrib]
        congr 1
        ext b
        simp only [Set.mem_Icc, Set.mem_sdiff]
        omega

end Pire2Pire.Library
