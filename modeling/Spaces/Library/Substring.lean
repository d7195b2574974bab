import Mathlib.Data.List.Infix
import Mathlib.Tactic.Common

/-!
# Occurrences of a pattern

What Python's `in`, `str.count` and `str.replace` see of a pattern in a text. They are
told here by the first occurrence, which cuts the text in two.

For a pattern whose first symbol is nowhere else in it, no two occurrences overlap. So
where the pattern was put between two texts without it, it is found there, once, and
taking it out gives the two texts back.
-/

namespace Spaces.Library.Substring

variable {α : Type} {pattern before after text : List α} {c : α}

/-- A pattern that begins in front of itself has ended before itself, if its first
symbol is nowhere else in it. -/
theorem prefix_before (hhead : c ∉ pattern) (hbefore : before ≠ [])
    (h : c :: pattern <+: before ++ (c :: pattern) ++ after) : c :: pattern <+: before := by
  rw [List.append_assoc] at h
  rcases List.prefix_or_prefix_of_prefix h (List.prefix_append _ _) with hends | ⟨overlap, heq⟩
  · exact hends
  · cases overlap with
    | nil => rw [← heq, List.append_nil]
    | cons d overlap =>
        rw [← heq, List.prefix_append_right_inj, heq, List.cons_append,
          List.cons_prefix_cons] at h
        obtain ⟨rfl, -⟩ := h
        -- the symbol where the second occurrence begins is in the first one
        obtain ⟨first, before, rfl⟩ := List.exists_cons_of_ne_nil hbefore
        rw [List.cons_append, List.cons.injEq] at heq
        exact absurd (heq.2 ▸ List.mem_append_right before List.mem_cons_self) hhead

section

variable [DecidableEq α]

/-- What is before the first occurrence, and what is after it. -/
def cutAt (pattern : List α) : List α → Option (List α × List α)
  | [] => if pattern = [] then some ([], []) else none
  | c :: rest =>
      if pattern.isPrefixOf (c :: rest) then some ([], (c :: rest).drop pattern.length)
      else (cutAt pattern rest).map fun parts => (c :: parts.1, parts.2)

/-- `text.replace(pattern, "", 1)` -/
def removeFirst (pattern text : List α) : List α :=
  match cutAt pattern text with
  | some parts => parts.1 ++ parts.2
  | none => text

/-- The occurrences that do not overlap, from the front, where so many symbols are
still part of the last one. -/
def countFrom (pattern : List α) : Nat → List α → Nat
  | _, [] => 0
  | 0, c :: rest =>
      if pattern.isPrefixOf (c :: rest) then countFrom pattern (pattern.length - 1) rest + 1
      else countFrom pattern 0 rest
  | skip + 1, _ :: rest => countFrom pattern skip rest

/-- `text.count(pattern)`, for a pattern that is not empty. -/
def count (pattern text : List α) : Nat := countFrom pattern 0 text

/-! ## The first occurrence -/

theorem cutAt_eq_some (h : cutAt pattern text = some (before, after)) :
    text = before ++ pattern ++ after := by
  induction text generalizing before with
  | nil =>
      unfold cutAt at h
      split at h
      · next hpattern =>
          cases h
          rw [hpattern]
          rfl
      · cases h
  | cons c rest ih =>
      unfold cutAt at h
      split at h
      · next hstart =>
          cases h
          exact (List.prefix_iff_eq_append.mp (List.isPrefixOf_iff_prefix.mp hstart)).symm
      · obtain ⟨parts, hparts, heq⟩ := Option.map_eq_some_iff.mp h
        cases heq
        rw [ih hparts]
        rfl

theorem cutAt_eq_none_iff (hne : pattern ≠ []) :
    cutAt pattern text = none ↔ ¬ pattern <:+: text := by
  induction text with
  | nil => simp [cutAt, hne]
  | cons c rest ih =>
      rw [cutAt, List.infix_cons_iff, not_or, ← ih]
      split
      · next hstart => simp [List.isPrefixOf_iff_prefix.mp hstart]
      · next hstart =>
          rw [List.isPrefixOf_iff_prefix] at hstart
          simp [hstart]

theorem cutAt_append (hhead : c ∉ pattern) (hbefore : ¬ c :: pattern <:+: before) :
    cutAt (c :: pattern) (before ++ (c :: pattern) ++ after) = some (before, after) := by
  induction before with
  | nil =>
      have hstart : (c :: pattern).isPrefixOf (c :: (pattern ++ after)) = true :=
        List.isPrefixOf_iff_prefix.mpr (List.prefix_append _ _)
      rw [List.nil_append, List.cons_append, cutAt, if_pos hstart]
      simp
  | cons d before ih =>
      rw [List.infix_cons_iff, not_or] at hbefore
      have hstart : ¬ (c :: pattern).isPrefixOf (d :: (before ++ (c :: pattern) ++ after)) := by
        rw [List.isPrefixOf_iff_prefix]
        exact fun h => hbefore.1 (prefix_before hhead (List.cons_ne_nil d before) h)
      rw [List.cons_append, List.cons_append, cutAt, if_neg hstart, ih hbefore.2]
      rfl

/-- What is put behind the text goes into the part after the first occurrence. -/
theorem cutAt_extend (h : cutAt pattern text = some (before, after)) (more : List α) :
    cutAt pattern (text ++ more) = some (before, after ++ more) := by
  induction text generalizing before with
  | nil =>
      unfold cutAt at h
      split at h
      · next hpattern =>
          cases h
          rw [hpattern]
          cases more <;> rfl
      · cases h
  | cons c rest ih =>
      unfold cutAt at h
      split at h
      · next hstart =>
          cases h
          obtain ⟨after, hafter⟩ := List.isPrefixOf_iff_prefix.mp hstart
          rw [List.cons_append, cutAt, ← List.cons_append, ← hafter, List.append_assoc,
            if_pos (List.isPrefixOf_iff_prefix.mpr (List.prefix_append _ _)), List.drop_left,
            List.drop_left]
      · next hstart =>
          obtain ⟨parts, hparts, heq⟩ := Option.map_eq_some_iff.mp h
          cases heq
          -- the pattern is no longer than what it was found in
          have hlength : pattern.length ≤ (c :: rest).length := by
            rw [cutAt_eq_some hparts]
            simp only [List.length_cons, List.length_append]
            omega
          have hlater : ¬ pattern.isPrefixOf (c :: (rest ++ more)) = true := by
            rw [List.isPrefixOf_iff_prefix] at hstart ⊢
            intro h
            exact hstart (List.prefix_of_prefix_length_le h (List.prefix_append _ _) hlength)
          rw [List.cons_append, cutAt, if_neg hlater, ih hparts]
          rfl

/-- If the pattern is not in what follows its first occurrence, it is found nowhere
else. -/
theorem eq_of_cutAt {before' after' : List α} (hhead : c ∉ pattern)
    (h : cutAt (c :: pattern) text = some (before, after)) (hafter : ¬ c :: pattern <:+: after)
    (heq : text = before' ++ (c :: pattern) ++ after') : before' = before ∧ after' = after := by
  by_cases hbefore : c :: pattern <:+: before'
  · cases hcut : cutAt (c :: pattern) before' with
    | none => exact absurd hbefore ((cutAt_eq_none_iff (List.cons_ne_nil c pattern)).mp hcut)
    | some parts =>
        rw [heq, List.append_assoc, cutAt_extend hcut] at h
        cases h
        exact absurd ((List.infix_append parts.2 _ after').trans
          (List.append_assoc _ _ _ ▸ List.infix_refl _)) hafter
  · rw [heq, cutAt_append hhead hbefore] at h
    cases h
    exact ⟨rfl, rfl⟩

/-! ## How often it occurs -/

theorem countFrom_length {skipped : List α} (rest : List α) :
    countFrom pattern skipped.length (skipped ++ rest) = count pattern rest := by
  induction skipped with
  | nil => rfl
  | cons c skipped ih => exact ih

/-- The occurrences are the first one and those behind it. -/
theorem count_eq (hne : pattern ≠ []) : count pattern text =
    match cutAt pattern text with
    | some parts => count pattern parts.2 + 1
    | none => 0 := by
  obtain ⟨p, pattern, rfl⟩ := List.exists_cons_of_ne_nil hne
  induction text with
  | nil => simp [cutAt, count, countFrom]
  | cons c rest ih =>
      rw [cutAt, count, countFrom]
      by_cases hstart : (p :: pattern).isPrefixOf (c :: rest) = true
      · obtain ⟨after, hafter⟩ := List.isPrefixOf_iff_prefix.mp hstart
        rw [List.cons_append, List.cons.injEq] at hafter
        obtain ⟨rfl, rfl⟩ := hafter
        rw [if_pos hstart, if_pos hstart]
        simp only [List.length_cons, Nat.add_sub_cancel, countFrom_length, List.drop_succ_cons,
          List.drop_left]
      · rw [if_neg hstart, if_neg hstart]
        refine ih.trans ?_
        cases cutAt (p :: pattern) rest <;> rfl

theorem count_eq_zero_iff (hne : pattern ≠ []) : count pattern text = 0 ↔ ¬ pattern <:+: text := by
  rw [count_eq hne, ← cutAt_eq_none_iff hne]
  cases cutAt pattern text <;> simp

theorem count_eq_one_iff (hne : pattern ≠ []) : count pattern text = 1 ↔
    ∃ before after, cutAt pattern text = some (before, after) ∧ ¬ pattern <:+: after := by
  rw [count_eq hne]
  cases cutAt pattern text with
  | none => simp
  | some parts =>
      simp only [Nat.add_eq_right, count_eq_zero_iff hne, Option.some.injEq]
      constructor
      · intro h
        exact ⟨parts.1, parts.2, rfl, h⟩
      · rintro ⟨before, after, rfl, h⟩
        exact h

/-- A pattern put between two texts that do not hold it. -/
theorem count_append (hhead : c ∉ pattern) (hbefore : ¬ c :: pattern <:+: before)
    (hafter : ¬ c :: pattern <:+: after) :
    count (c :: pattern) (before ++ (c :: pattern) ++ after) = 1 :=
  (count_eq_one_iff (List.cons_ne_nil c pattern)).mpr
    ⟨before, after, cutAt_append hhead hbefore, hafter⟩

theorem removeFirst_append (hhead : c ∉ pattern) (hbefore : ¬ c :: pattern <:+: before) :
    removeFirst (c :: pattern) (before ++ (c :: pattern) ++ after) = before ++ after := by
  rw [removeFirst, cutAt_append hhead hbefore]

theorem removeFirst_of_cutAt (h : cutAt pattern text = some (before, after)) :
    removeFirst pattern text = before ++ after := by
  rw [removeFirst, h]

end

end Spaces.Library.Substring
