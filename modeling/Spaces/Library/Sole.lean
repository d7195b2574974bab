import Mathlib.Data.List.Basic
import Mathlib.Data.List.Nodup

/-!
# Pairs that are each other's only choice

A pair is sole in a relation when neither side is related to anything else. Such
pairs are what a matching by evidence can trust, and evidence comes in degrees:
what is sole under weaker evidence cannot be taken away by stronger evidence,
since that is evidence of the weaker kind as well.
-/

namespace Spaces.Library

variable {α β : Type}

structure Sole (R : α → β → Prop) (a : α) (b : β) : Prop where
  related : R a b
  right : ∀ {b' : β}, R a b' → b' = b
  left : ∀ {a' : α}, R a' b → a' = a

namespace Sole

variable {R S : α → β → Prop} {a a' : α} {b b' : β}

/-- Of two degrees of evidence, what one settles cannot lead away from what the
other does. -/
theorem right_eq (h : Sole R a b) (h' : Sole S a b')
    (hle : (∀ a b, S a b → R a b) ∨ ∀ a b, R a b → S a b) : b' = b := by
  rcases hle with hle | hle
  · exact h.right (hle a b' h'.related)
  · exact (h'.right (hle a b h.related)).symm

theorem left_eq (h : Sole R a b) (h' : Sole S a' b)
    (hle : (∀ a b, S a b → R a b) ∨ ∀ a b, R a b → S a b) : a' = a := by
  rcases hle with hle | hle
  · exact h.left (hle a' b h'.related)
  · exact (h'.left (hle a b h.related)).symm

end Sole

/-! ## One of a kind in a list -/

variable {p : α → Bool} {l : List α}

theorem countP_pos_of_mem {a : α} (ha : a ∈ l) (hp : p a = true) : 0 < l.countP p :=
  List.countP_pos_iff.mpr ⟨a, ha, hp⟩

/-- In a list without repetitions, one of a kind is the only one. -/
theorem countP_eq_one (hl : l.Nodup) {a : α} (ha : a ∈ l) (hp : p a = true) :
    l.countP p = 1 ↔ ∀ b ∈ l, p b = true → b = a := by
  induction l with
  | nil => cases ha
  | cons c l ih =>
      obtain ⟨hc, hl⟩ := List.nodup_cons.mp hl
      rcases List.mem_cons.mp ha with rfl | ha
      · rw [List.countP_cons, hp, if_pos rfl]
        constructor
        · intro hone b hb hpb
          rcases List.mem_cons.mp hb with rfl | hb
          · rfl
          · have := countP_pos_of_mem hb hpb
            omega
        · intro honly
          have hnone : l.countP p = 0 := List.countP_eq_zero.mpr fun b hb hpb =>
            hc (honly b (List.mem_cons_of_mem _ hb) hpb ▸ hb)
          omega
      · have hne : c ≠ a := fun heq => hc (heq ▸ ha)
        have hpos := countP_pos_of_mem ha hp
        rw [List.countP_cons]
        constructor
        · intro hone b hb hpb
          rcases List.mem_cons.mp hb with rfl | hb
          · rw [hpb, if_pos rfl] at hone
            omega
          · exact (ih hl ha).mp (by omega) b hb hpb
        · intro honly
          have hpc : p c ≠ true := fun hpc => hne (honly c List.mem_cons_self hpc)
          rw [if_neg hpc]
          exact (ih hl ha).mpr fun b hb hpb => honly b (List.mem_cons_of_mem _ hb) hpb

end Spaces.Library
