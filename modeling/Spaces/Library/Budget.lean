import Mathlib.Algebra.GroupWithZero.Nat
import Mathlib.Data.List.Basic

/-!
# Filling a budget in order

Items are taken from the front as long as the next one fits, and none after the
first that does not.
-/

namespace Spaces.Library

variable {α : Type} (size : α → Nat) (limit : Nat)

/-- The items that are taken, and whether one was left. -/
def fill : Nat → List α → List α × Bool
  | _, [] => ([], false)
  | used, item :: rest =>
      if limit < used + size item then ([], true)
      else (item :: (fill (used + size item) rest).1, (fill (used + size item) rest).2)

variable {size limit}

theorem fill_isPrefix (used : Nat) (items : List α) :
    (fill size limit used items).1 <+: items := by
  fun_induction fill size limit used items with
  | case1 => exact List.prefix_rfl
  | case2 => exact List.nil_prefix
  | case3 used item rest _ ih => exact List.cons_prefix_cons.mpr ⟨rfl, ih⟩

theorem fill_within {used : Nat} (h : used ≤ limit) (items : List α) :
    used + ((fill size limit used items).1.map size).sum ≤ limit := by
  fun_induction fill size limit used items with
  | case1 => exact h
  | case2 => exact h
  | case3 used item rest hfits ih =>
      rw [List.map_cons, List.sum_cons, ← Nat.add_assoc]
      exact ih (Nat.le_of_not_lt hfits)

theorem fill_cut_iff (used : Nat) (items : List α) :
    (fill size limit used items).2 = true
      ↔ (fill size limit used items).1.length < items.length := by
  fun_induction fill size limit used items with
  | case1 => simp
  | case2 => simp
  | case3 used item rest _ ih =>
      rw [List.length_cons, List.length_cons, Nat.succ_lt_succ_iff]
      exact ih

end Spaces.Library
