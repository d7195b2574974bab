import Mathlib.Data.List.Basic

/-!
# What a text is made of

Parts joined by a separator make the same text in two ways only where the
separator is inside a part. The first separator settles the part before it and
the last one the part after it.

Items written one after another can be told apart where no item's code begins
with the code of another.
-/

namespace Spaces.Library

/-! ## Parts joined by a separator -/

variable {α β : Type} {c : α} {a a' b b' : List α}

/-- Two ways to take a text apart at a separator. -/
theorem append_cons_eq_iff : a ++ c :: b = a' ++ c :: b' ↔
    (a = a' ∧ b = b') ∨ (∃ m, a' = a ++ c :: m ∧ b = m ++ c :: b') ∨
      ∃ m, a = a' ++ c :: m ∧ b' = m ++ c :: b := by
  constructor
  · intro h
    rcases List.append_eq_append_iff.mp h with ⟨m, ha, hb⟩ | ⟨m, ha, hb⟩
    · cases m with
      | nil =>
          rw [List.append_nil] at ha
          exact .inl ⟨ha.symm, (List.cons.inj hb).2⟩
      | cons d m =>
          obtain ⟨rfl, hrest⟩ := List.cons.inj hb
          exact .inr (.inl ⟨m, ha, hrest⟩)
    · cases m with
      | nil =>
          rw [List.append_nil] at ha
          exact .inl ⟨ha, (List.cons.inj hb).2.symm⟩
      | cons d m =>
          obtain ⟨rfl, hrest⟩ := List.cons.inj hb
          exact .inr (.inr ⟨m, ha, hrest⟩)
  · rintro (⟨rfl, rfl⟩ | ⟨m, rfl, rfl⟩ | ⟨m, rfl, rfl⟩)
    · rfl
    · simp
    · simp

/-- At the first of the separators there is one way. -/
theorem append_cons_inj_left (ha : c ∉ a) (ha' : c ∉ a') (h : a ++ c :: b = a' ++ c :: b') :
    a = a' ∧ b = b' := by
  rcases append_cons_eq_iff.mp h with hsame | ⟨m, hlonger, -⟩ | ⟨m, hlonger, -⟩
  · exact hsame
  · exact absurd (by simp [hlonger]) ha'
  · exact absurd (by simp [hlonger]) ha

/-- And at the last. -/
theorem append_cons_inj_right (hb : c ∉ b) (hb' : c ∉ b') (h : a ++ c :: b = a' ++ c :: b') :
    a = a' ∧ b = b' := by
  rcases append_cons_eq_iff.mp h with hsame | ⟨m, -, hlonger⟩ | ⟨m, -, hlonger⟩
  · exact hsame
  · exact absurd (by simp [hlonger]) hb
  · exact absurd (by simp [hlonger]) hb'

/-- Where one element of a kind stands in a text, and no other one does. -/
theorem append_cons_of_kind {p : α → Bool} {d : α} (ha : ∀ x ∈ a, ¬ p x = true)
    (hb : ∀ x ∈ b, ¬ p x = true) (hd : p d = true) (h : a ++ c :: b = a' ++ d :: b') :
    a = a' ∧ c = d ∧ b = b' := by
  rcases List.append_eq_append_iff.mp h with ⟨m, ha', hb'⟩ | ⟨m, ha', hb'⟩
  · cases m with
    | nil =>
        obtain ⟨hcd, hbb⟩ := List.cons.inj hb'
        exact ⟨by rw [ha', List.append_nil], hcd, hbb⟩
    | cons e m =>
        obtain ⟨-, hbb⟩ := List.cons.inj hb'
        exact absurd hd (hb d (by simp [hbb]))
  · cases m with
    | nil =>
        obtain ⟨hcd, hbb⟩ := List.cons.inj hb'
        exact ⟨by rw [ha', List.append_nil], hcd.symm, hbb.symm⟩
    | cons e m =>
        obtain ⟨hed, -⟩ := List.cons.inj hb'
        exact absurd hd (ha d (by simp [ha', hed]))

/-! ## Items one after another -/

/-- The code of an item is not empty, and no other item's code begins with it. -/
structure PrefixCode (code : β → List α) : Prop where
  ne_nil : ∀ x, code x ≠ []
  distinct : ∀ x y, code x <+: code y → x = y

theorem PrefixCode.flatMap_injective {code : β → List α} (h : PrefixCode code) :
    Function.Injective fun items : List β => items.flatMap code := by
  intro items
  induction items with
  | nil =>
      intro others heq
      cases others with
      | nil => rfl
      | cons y others => exact absurd (List.append_eq_nil_iff.mp heq.symm).1 (h.ne_nil y)
  | cons x items ih =>
      intro others heq
      cases others with
      | nil => exact absurd (List.append_eq_nil_iff.mp heq).1 (h.ne_nil x)
      | cons y others =>
          have happend : code x ++ items.flatMap code = code y ++ others.flatMap code := heq
          have hsame : x = y := by
            rcases List.append_eq_append_iff.mp happend with ⟨m, hy, -⟩ | ⟨m, hx, -⟩
            · exact h.distinct x y ⟨m, hy.symm⟩
            · exact (h.distinct y x ⟨m, hx.symm⟩).symm
          subst hsame
          rw [ih (List.append_cancel_left happend)]

end Spaces.Library
