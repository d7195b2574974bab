import Mathlib.Data.List.Basic
import Mathlib.Tactic.Common

/-!
# Longest common subsequences

The length of a longest common subsequence by its recursion, what that length
means, and that what two lists begin or end with in common can be cut off first.
-/

namespace Spaces.Library

variable {α : Type*}

/-- `n` is the length of a longest common subsequence. -/
structure IsLcsLength (n : Nat) (as bs : List α) : Prop where
  attained : ∃ common : List α, common.Sublist as ∧ common.Sublist bs ∧ common.length = n
  bound : ∀ common : List α, common.Sublist as → common.Sublist bs → common.length ≤ n

theorem IsLcsLength.unique {m n : Nat} {as bs : List α} (hm : IsLcsLength m as bs)
    (hn : IsLcsLength n as bs) : m = n := by
  obtain ⟨s, hs, hs', rfl⟩ := hm.attained
  obtain ⟨t, ht, ht', rfl⟩ := hn.attained
  exact Nat.le_antisymm (hn.bound s hs hs') (hm.bound t ht ht')

theorem IsLcsLength.reverse {n : Nat} {as bs : List α} (h : IsLcsLength n as bs) :
    IsLcsLength n as.reverse bs.reverse where
  attained := by
    obtain ⟨s, hs, hs', hlength⟩ := h.attained
    exact ⟨s.reverse, hs.reverse, hs'.reverse, by rw [List.length_reverse, hlength]⟩
  bound s hs hs' := by
    rw [← List.length_reverse]
    exact h.bound s.reverse (by simpa using hs.reverse) (by simpa using hs'.reverse)

section

variable [DecidableEq α]

def lcsLength : List α → List α → Nat
  | [], _ => 0
  | _ :: _, [] => 0
  | a :: as, b :: bs =>
      if a = b then lcsLength as bs + 1
      else max (lcsLength as (b :: bs)) (lcsLength (a :: as) bs)
termination_by as bs => as.length + bs.length

@[simp] theorem lcsLength_nil_left (bs : List α) : lcsLength [] bs = 0 := by rw [lcsLength]

@[simp] theorem lcsLength_nil_right (as : List α) : lcsLength as [] = 0 := by
  cases as <;> rw [lcsLength]

theorem lcsLength_cons_self (a : α) (as bs : List α) :
    lcsLength (a :: as) (a :: bs) = lcsLength as bs + 1 := by
  rw [lcsLength, if_pos rfl]

theorem lcsLength_cons_ne {a b : α} (h : a ≠ b) (as bs : List α) :
    lcsLength (a :: as) (b :: bs) =
      max (lcsLength as (b :: bs)) (lcsLength (a :: as) bs) := by
  rw [lcsLength, if_neg h]

theorem lcsLength_le_left (as bs : List α) : lcsLength as bs ≤ as.length := by
  induction as, bs using lcsLength.induct with
  | case1 bs => simp
  | case2 a as => simp
  | case3 as b bs ih =>
      rw [lcsLength_cons_self, List.length_cons]
      omega
  | case4 a as b bs h ih ih' =>
      rw [lcsLength_cons_ne h]
      simp only [List.length_cons] at ih' ⊢
      omega

theorem isLcsLength_lcsLength (as bs : List α) : IsLcsLength (lcsLength as bs) as bs := by
  induction as, bs using lcsLength.induct with
  | case1 bs =>
      rw [lcsLength_nil_left]
      exact ⟨⟨[], by simp⟩, fun s hs _ => by simp_all⟩
  | case2 a as =>
      rw [lcsLength_nil_right]
      exact ⟨⟨[], by simp⟩, fun s _ hs => by simp_all⟩
  | case3 as b bs ih =>
      rw [lcsLength_cons_self]
      obtain ⟨s, hs, hs', hlength⟩ := ih.attained
      refine ⟨⟨b :: s, hs.cons_cons b, hs'.cons_cons b, by simp [hlength]⟩, fun t ht ht' => ?_⟩
      have htail := ih.bound t.tail ht.tail ht'.tail
      rw [List.length_tail] at htail
      omega
  | case4 a as b bs h ih ih' =>
      rw [lcsLength_cons_ne h]
      constructor
      · rcases Nat.le_total (lcsLength (a :: as) bs) (lcsLength as (b :: bs)) with hle | hle
        · obtain ⟨s, hs, hs', hlength⟩ := ih.attained
          exact ⟨s, hs.cons a, hs', by omega⟩
        · obtain ⟨s, hs, hs', hlength⟩ := ih'.attained
          exact ⟨s, hs, hs'.cons b, by omega⟩
      · intro t ht ht'
        rcases List.sublist_cons_iff.mp ht with hshort | ⟨s, rfl, hs⟩
        · have := ih.bound t hshort ht'
          omega
        · -- It begins with the first element of the one list and not of the other.
          rcases List.sublist_cons_iff.mp ht' with hshort | ⟨s', heq, -⟩
          · have := ih'.bound (a :: s) ht hshort
            omega
          · injection heq with heq
            exact absurd heq h

theorem lcsLength_reverse (as bs : List α) :
    lcsLength as.reverse bs.reverse = lcsLength as bs :=
  (isLcsLength_lcsLength _ _).unique (isLcsLength_lcsLength as bs).reverse

theorem lcsLength_append_left (common as bs : List α) :
    lcsLength (common ++ as) (common ++ bs) = common.length + lcsLength as bs := by
  induction common with
  | nil => simp
  | cons c common ih =>
      rw [List.cons_append, List.cons_append, lcsLength_cons_self, ih, List.length_cons]
      omega

theorem lcsLength_append_right (common as bs : List α) :
    lcsLength (as ++ common) (bs ++ common) = lcsLength as bs + common.length := by
  rw [← lcsLength_reverse, List.reverse_append, List.reverse_append, lcsLength_append_left,
    lcsLength_reverse, List.length_reverse]
  omega

end

end Spaces.Library
