import Mathlib.Algebra.Order.Field.Basic
import Mathlib.Tactic.Linarith
import Mathlib.Tactic.Ring

/-!
# Clipping a segment against half-open intervals

A coordinate that moves evenly from `origin`, by `delta` in all, is in the interval
from `minimum` up to but not including `maximum` for the parameters in an interval
that is half-open as well. `clipAxis` narrows a range of parameters to the closure
of it.

So a parameter at which the coordinate is in the interval stays in the range. It
is at the lower end of what was cut off only where the coordinate rises and is at
its minimum, and at the upper end only where it falls and is at its minimum.
-/

namespace Spaces.Library

variable {K : Type} [Field K] [LinearOrder K] [IsStrictOrderedRing K]

/-- A range of parameters, from where the segment enters to where it leaves. -/
structure Range (K : Type) where
  enter : K
  leave : K

/-- The range along one axis, and none where the coordinate stays outside. -/
def clipAxis (minimum maximum origin delta : K) (range : Range K) : Option (Range K) :=
  if delta = 0 then
    if origin < minimum ∨ maximum ≤ origin then none else some range
  else
    let a := (minimum - origin) / delta
    let b := (maximum - origin) / delta
    some { enter := max range.enter (min a b), leave := min range.leave (max a b) }

/-! ## The ends of a range -/

omit [Field K] [IsStrictOrderedRing K] in
theorem eq_max_of_le {a b t : K} (ha : a ≤ t) (hb : b ≤ t) : t = max a b ↔ t = a ∨ t = b := by
  constructor
  · intro h
    rcases max_choice a b with hmax | hmax
    · exact .inl (h.trans hmax)
    · exact .inr (h.trans hmax)
  · rintro (rfl | rfl)
    · exact (max_eq_left hb).symm
    · exact (max_eq_right ha).symm

omit [Field K] [IsStrictOrderedRing K] in
theorem eq_min_of_le {a b t : K} (ha : t ≤ a) (hb : t ≤ b) : t = min a b ↔ t = a ∨ t = b := by
  constructor
  · intro h
    rcases min_choice a b with hmin | hmin
    · exact .inl (h.trans hmin)
    · exact .inr (h.trans hmin)
  · rintro (rfl | rfl)
    · exact (min_eq_left hb).symm
    · exact (min_eq_right ha).symm

variable {minimum maximum origin delta t : K}

omit [LinearOrder K] [IsStrictOrderedRing K] in
theorem eq_div_iff_at_minimum (hdelta : delta ≠ 0) :
    t = (minimum - origin) / delta ↔ origin + t * delta = minimum := by
  rw [eq_div_iff hdelta, eq_sub_iff_add_eq, add_comm]

/-! ## What stays in the range -/

/-- A parameter at which the coordinate is inside stays in the range. It is an end
of it only if it was, or if the coordinate is at its minimum there. -/
theorem clipAxis_inside {range : Range K} (hmin : minimum ≤ origin + t * delta)
    (hmax : origin + t * delta < maximum) (henter : range.enter ≤ t) (hleave : t ≤ range.leave) :
    ∃ clipped, clipAxis minimum maximum origin delta range = some clipped ∧
      clipped.enter ≤ t ∧ t ≤ clipped.leave ∧
      (t = clipped.enter ↔ t = range.enter ∨ (0 < delta ∧ origin + t * delta = minimum)) ∧
      (t = clipped.leave ↔ t = range.leave ∨ (delta < 0 ∧ origin + t * delta = minimum)) := by
  rcases lt_trichotomy delta 0 with hdelta | hdelta | hdelta
  · -- falling: it leaves at the minimum, and enters strictly before
    have ha : t ≤ (minimum - origin) / delta := by
      rw [le_div_iff_of_neg hdelta]
      linarith
    have hb : (maximum - origin) / delta < t := by
      rw [div_lt_iff_of_neg hdelta]
      linarith
    refine ⟨_, if_neg hdelta.ne, ?_⟩
    dsimp only
    rw [min_eq_right (hb.le.trans ha), max_eq_left (hb.le.trans ha)]
    refine ⟨max_le henter hb.le, le_min hleave ha, ?_, ?_⟩
    · rw [eq_max_of_le henter hb.le]
      simp only [hb.ne', hdelta.not_gt, false_and, or_false]
    · rw [eq_min_of_le hleave ha, eq_div_iff_at_minimum hdelta.ne]
      simp only [hdelta, true_and]
  · -- at rest: the range stays
    subst hdelta
    rw [mul_zero, add_zero] at hmin hmax
    refine ⟨range, ?_, henter, hleave, by simp, by simp⟩
    rw [clipAxis, if_pos rfl, if_neg]
    rw [not_or, not_lt, not_le]
    exact ⟨hmin, hmax⟩
  · -- rising: it enters at the minimum, and leaves strictly after
    have ha : (minimum - origin) / delta ≤ t := by
      rw [div_le_iff₀ hdelta]
      linarith
    have hb : t < (maximum - origin) / delta := by
      rw [lt_div_iff₀ hdelta]
      linarith
    refine ⟨_, if_neg hdelta.ne', ?_⟩
    dsimp only
    rw [min_eq_left (ha.trans hb.le), max_eq_right (ha.trans hb.le)]
    refine ⟨max_le henter ha, le_min hleave hb.le, ?_, ?_⟩
    · rw [eq_max_of_le henter ha, eq_div_iff_at_minimum hdelta.ne']
      simp only [hdelta, true_and]
    · rw [eq_min_of_le hleave hb.le]
      simp only [hb.ne, hdelta.not_gt, false_and, or_false]

end Spaces.Library
