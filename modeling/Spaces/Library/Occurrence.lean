import Mathlib.Data.List.Infix
import Mathlib.Tactic.Common

/-!
# Looking for a pattern without going back

A reader that sees one symbol after another keeps how much of a pattern it has just
seen. Where a symbol is not the next one of the pattern it begins again, with the
first symbol of the pattern if that is what it saw.

This is right for patterns whose first symbol occurs in them once: no beginning of
such a pattern ends with a shorter one, so that nothing is lost by beginning again.
-/

namespace Spaces.Library.Occurrence

variable {α : Type*} {pattern seen : List α} {symbol : α} {matched i j : Nat}

/-- The first symbol is nowhere else in the pattern. -/
def Headed (pattern : List α) : Prop :=
  ∀ i (h : i < pattern.length), pattern[i] = pattern.get ⟨0, Nat.zero_lt_of_lt h⟩ → i = 0

/-- Of the beginnings of the pattern, only that of `matched` symbols ends what was
seen. The empty one ends everything and says nothing. -/
def Tracks (pattern seen : List α) (matched : Nat) : Prop :=
  ∀ j, 0 < j → j ≤ pattern.length → (pattern.take j <:+ seen ↔ j = matched)

theorem tracks_nil (pattern : List α) : Tracks pattern [] 0 := by
  intro j hpos hle
  refine ⟨fun h => ?_, fun h => absurd h hpos.ne'⟩
  have hlength := h.length_le
  rw [List.length_take, List.length_nil] at hlength
  omega

/-- A beginning ends what was seen if its last symbol is the last one that was seen,
and the rest of it ended what was seen before. -/
theorem take_succ_suffix_iff (h : j < pattern.length) :
    pattern.take (j + 1) <:+ seen ++ [symbol] ↔ pattern.take j <:+ seen ∧ pattern[j] = symbol := by
  rw [← List.take_concat_get' pattern j h, ← List.reverse_prefix, ← List.reverse_prefix,
    List.reverse_append, List.reverse_append]
  simp only [List.reverse_singleton, List.singleton_append, List.cons_prefix_cons]
  exact and_comm

/-- What ends what was seen is one of two beginnings, so only these can go on. -/
theorem Tracks.eq_zero_or (h : Tracks pattern seen matched) (hj : j ≤ pattern.length)
    (hsuffix : pattern.take j <:+ seen) : j = 0 ∨ j = matched := by
  rcases Nat.eq_zero_or_pos j with hzero | hpos
  · exact .inl hzero
  · exact .inr ((h j hpos hj).mp hsuffix)

theorem Tracks.suffix (h : Tracks pattern seen matched) (hle : matched ≤ pattern.length) :
    pattern.take matched <:+ seen := by
  rcases Nat.eq_zero_or_pos matched with hzero | hpos
  · rw [hzero, List.take_zero]
    exact List.nil_suffix
  · exact (h matched hpos hle).mpr rfl

/-- The symbol that comes next in the pattern. -/
theorem Tracks.next (h : Tracks pattern seen matched) (hheaded : Headed pattern)
    (hlt : matched < pattern.length) (hsymbol : pattern[matched] = symbol) :
    Tracks pattern (seen ++ [symbol]) (matched + 1) := by
  intro j hpos hle
  obtain ⟨i, rfl⟩ := Nat.exists_eq_succ_of_ne_zero hpos.ne'
  rw [take_succ_suffix_iff hle, Nat.succ_inj]
  constructor
  · rintro ⟨hsuffix, hat⟩
    rcases h.eq_zero_or (Nat.le_of_lt hle) hsuffix with rfl | rfl
    · exact (hheaded matched hlt (hsymbol.trans hat.symm)).symm
    · rfl
  · rintro rfl
    exact ⟨h.suffix (Nat.le_of_lt hlt), hsymbol⟩

/-- Any other symbol, with which at most the first one of the pattern was seen. -/
theorem Tracks.restart [DecidableEq α] (h : Tracks pattern seen matched)
    (hlt : matched < pattern.length) (hsymbol : pattern[matched] ≠ symbol) :
    Tracks pattern (seen ++ [symbol])
      (if symbol = pattern.get ⟨0, Nat.zero_lt_of_lt hlt⟩ then 1 else 0) := by
  intro j hpos hle
  obtain ⟨i, rfl⟩ := Nat.exists_eq_succ_of_ne_zero hpos.ne'
  rw [take_succ_suffix_iff hle]
  constructor
  · rintro ⟨hsuffix, hat⟩
    rcases h.eq_zero_or (Nat.le_of_lt hle) hsuffix with rfl | rfl
    · exact (if_pos hat.symm).symm
    · exact absurd hat hsymbol
  · intro heq
    by_cases hfirst : symbol = pattern.get ⟨0, Nat.zero_lt_of_lt hlt⟩
    · rw [if_pos hfirst] at heq
      obtain rfl : i = 0 := Nat.succ.inj heq
      exact ⟨by rw [List.take_zero]; exact List.nil_suffix, hfirst.symm⟩
    · rw [if_neg hfirst] at heq
      exact absurd heq (Nat.succ_ne_zero i)

theorem Tracks.suffix_iff (h : Tracks pattern seen matched) (hpos : 0 < pattern.length) :
    pattern <:+ seen ↔ matched = pattern.length := by
  have hwhole := h pattern.length hpos (Nat.le_refl _)
  rw [List.take_length] at hwhole
  exact hwhole.trans eq_comm

/-! ## Where a pattern occurs -/

/-- A pattern occurs in a longer text if it did before or has just been completed. -/
theorem infix_concat_iff : pattern <:+: seen ++ [symbol] ↔
    pattern <:+: seen ∨ pattern <:+ seen ++ [symbol] := by
  rw [← List.reverse_infix, List.reverse_append, List.reverse_singleton, List.singleton_append,
    List.infix_cons_iff, List.reverse_infix, ← List.reverse_prefix, List.reverse_append,
    List.reverse_singleton, List.singleton_append, or_comm]

end Spaces.Library.Occurrence
