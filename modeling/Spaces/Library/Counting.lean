import Mathlib.Data.Fintype.Card
import Mathlib.Logic.Function.Basic

/-!
# Counting members

How many members of a finite type a property has, and how that changes when the
property changes at one member.
-/

namespace Spaces.Library

variable {ι : Type*} [Fintype ι]

def countOf (P : ι → Prop) [DecidablePred P] : Nat := (Finset.univ.filter P).card

section

variable {P Q : ι → Prop} [DecidablePred P] [DecidablePred Q]

theorem countOf_congr (h : ∀ i, P i ↔ Q i) : countOf P = countOf Q := by
  unfold countOf
  rw [Finset.filter_congr fun i _ => h i]

theorem countOf_le_card : countOf P ≤ Fintype.card ι := Finset.card_filter_le _ _

theorem countOf_eq_zero_iff : countOf P = 0 ↔ ∀ i, ¬P i := by
  simp [countOf, Finset.card_eq_zero, Finset.filter_eq_empty_iff]

theorem countOf_pos_iff : 0 < countOf P ↔ ∃ i, P i := by
  rw [Nat.pos_iff_ne_zero, Ne, countOf_eq_zero_iff]
  push Not
  rfl

variable [DecidableEq ι]

/-- One member comes to have the property. -/
theorem countOf_add_one {i : ι} (hi : ¬P i) (hi' : Q i) (h : ∀ j, j ≠ i → (Q j ↔ P j)) :
    countOf Q = countOf P + 1 := by
  have heq : Finset.univ.filter Q = insert i (Finset.univ.filter P) := by
    ext j
    by_cases hj : j = i
    · subst hj
      simp [hi']
    · simp [hj, h j hj]
  unfold countOf
  rw [heq, Finset.card_insert_of_notMem (by simp [hi])]

end

end Spaces.Library
