import Mathlib.Data.List.Basic

/-! Lists of entries that override each other: what a value is in the end. -/
namespace Pire2Pire.Library

variable {α β γ σ : Type} {give strict : α → Option β} {l : List α} {x : α} {v value : β}

/-- The last element that gives a value. -/
def lastGiver (give : α → Option β) (l : List α) : Option α :=
  l.reverse.find? fun x => (give x).isSome

/-- The value that it gives, or the default. -/
def lastGiven (give : α → Option β) (value : β) (l : List α) : β :=
  (l.reverse.findSome? give).getD value

theorem lastGiven_cons (give : α → Option β) (value : β) (x : α) (l : List α) :
    lastGiven give value (x :: l) = lastGiven give ((give x).getD value) l := by
  rw [lastGiven, lastGiven, List.reverse_cons, List.findSome?_append]
  -- `x` counts only if none of the others gives a value
  cases l.reverse.findSome? give <;> simp

theorem lastGiven_map (give : α → Option β) (value : β) (part : γ → α) (l : List γ) :
    lastGiven (give ∘ part) value l = lastGiven give value (l.map part) := by
  rw [lastGiven, lastGiven, ← List.findSome?_map, List.map_reverse]

theorem lastGiven_of_none (nobody : lastGiver give l = none) : lastGiven give value l = value := by
  have nothing := List.find?_eq_none.mp nobody
  have given : l.reverse.findSome? give = none :=
    List.findSome?_eq_none_iff.mpr fun x member => by simpa using nothing x member
  rw [lastGiven, given, Option.getD_none]

theorem lastGiven_of_some (found : lastGiver give l = some x) (gives : give x = some v) :
    lastGiven give value l = v := by
  obtain ⟨-, before, behind, shape, none_⟩ := List.find?_eq_some_iff_append.mp found
  have given : l.reverse.findSome? give = some v :=
    List.findSome?_eq_some_iff.mpr ⟨before, x, behind, shape, gives, fun y member => by simpa using none_ y member⟩
  rw [lastGiven, given, Option.getD_some]

/-- A value given is given by some element. -/
theorem lastGiven_cases (give : α → Option β) (value : β) (l : List α) :
    lastGiven give value l = value ∨ ∃ x ∈ l, give x = some (lastGiven give value l) := by
  rw [lastGiven]
  cases found : l.reverse.findSome? give with
  | none => exact .inl rfl
  | some v =>
    obtain ⟨x, member, gives⟩ := List.exists_of_findSome?_eq_some found
    exact .inr ⟨x, List.mem_reverse.mp member, gives⟩

/-- Steps that each override a value leave the one given last. -/
theorem lastGiven_of_foldlM {step : σ → α → Option σ} (get : σ → β) {s t : σ}
    (overrides : ∀ s x t, step s x = some t → get t = (give x).getD (get s)) (ran : l.foldlM step s = some t) :
    get t = lastGiven give (get s) l := by
  induction l generalizing s with
  | nil =>
    cases ran
    rfl
  | cons x l ih =>
    obtain ⟨middle, stepped, ran⟩ := Option.bind_eq_some_iff.mp ran
    rw [ih ran, overrides s x middle stepped, lastGiven_cons]

/-- Giving more than is right does no harm iff who gives last gives what is right. -/
theorem lastGiven_eq_iff (weaker : ∀ x ∈ l, (strict x).isSome → give x = strict x) :
    lastGiven give value l = lastGiven strict value l ↔
      ∀ x, lastGiver give l = some x → (strict x).isSome ∨ give x = some (lastGiven strict value l) := by
  cases found : lastGiver give l with
  | none =>
    -- nobody gives anything
    have nobody : lastGiver strict l = none := by
      refine List.find?_eq_none.mpr fun x member something => ?_
      have silent := List.find?_eq_none.mp found x member
      rw [weaker x (List.mem_reverse.mp member) something] at silent
      exact silent something
    rw [lastGiven_of_none found, lastGiven_of_none nobody]
    simp
  | some x =>
    have takes : (give x).isSome := List.find?_some (p := fun x => (give x).isSome) found
    obtain ⟨v, gives⟩ := Option.isSome_iff_exists.mp takes
    rw [lastGiven_of_some found gives]
    constructor
    · rintro same y isLast
      cases isLast
      exact .inr (gives.trans (congrArg some same))
    · intro last
      rcases last x rfl with right | chance
      · obtain ⟨-, before, behind, shape, none_⟩ := List.find?_eq_some_iff_append.mp found
        have members : ∀ y ∈ before ++ x :: behind, y ∈ l := fun y member =>
          List.mem_reverse.mp (shape ▸ member)
        have same := weaker x (members x (by simp)) right
        -- whoever comes later gives nothing in either way
        have isLast : lastGiver strict l = some x := by
          refine List.find?_eq_some_iff_append.mpr ⟨right, before, behind, shape, fun y member => ?_⟩
          by_contra something
          have later : (strict y).isSome := Option.isSome_iff_ne_none.mpr (by simpa using something)
          have silent := none_ y member
          rw [weaker y (members y (List.mem_append_left _ member)) later, later] at silent
          cases silent
        rw [lastGiven_of_some isLast (same.symm.trans gives)]
      · exact Option.some.inj (gives.symm.trans chance)

end Pire2Pire.Library
