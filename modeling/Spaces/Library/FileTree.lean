import Mathlib.Logic.Function.Basic

/-!
# Trees of files

A tree says what is at each place. A place is the names on the way to it, the last one
first, so that the parent of `name :: place` is `place`. What is at a place has a
directory above it: the operations keep this, since they make nothing elsewhere and
remove no directory.
-/

namespace Spaces.Library

inductive Kind (γ : Type) where
  | absent
  | dir
  | file (content : γ)
  | link
  | other
  deriving DecidableEq

structure FileTree (ν γ : Type) where
  kind : List ν → Kind γ
  root : kind [] = .dir
  parents : ∀ name place, kind (name :: place) ≠ .absent → kind place = .dir

namespace FileTree

variable {ν γ : Type} [DecidableEq ν] [DecidableEq γ]

/-- A new node, where there is nothing and a directory is above. -/
def make (tree : FileTree ν γ) (name : ν) (place : List ν) (node : Kind γ) : FileTree ν γ :=
  if h : tree.kind place = .dir ∧ tree.kind (name :: place) = .absent then
    { kind := Function.update tree.kind (name :: place) node
      root := by rw [Function.update_of_ne (List.cons_ne_nil name place).symm, tree.root]
      parents := by
        intro other above hother
        by_cases hself : other :: above = name :: place
        · cases hself
          rw [Function.update_of_ne (by simp)]
          exact h.1
        · rw [Function.update_of_ne hself] at hother
          have habove := tree.parents other above hother
          have hne : above ≠ name :: place := by
            rintro rfl
            rw [h.2] at habove
            cases habove
          rw [Function.update_of_ne hne]
          exact habove }
  else tree

/-- What is no directory is taken away. -/
def unlink (tree : FileTree ν γ) (place : List ν) : FileTree ν γ :=
  if h : tree.kind place ≠ .dir then
    { kind := Function.update tree.kind place .absent
      root := by
        rw [Function.update_of_ne, tree.root]
        rintro rfl
        exact h tree.root
      parents := by
        intro other above hother
        by_cases hself : other :: above = place
        · rw [hself, Function.update_self] at hother
          exact absurd rfl hother
        · rw [Function.update_of_ne hself] at hother
          have habove := tree.parents other above hother
          have hne : above ≠ place := by
            rintro rfl
            exact h habove
          rw [Function.update_of_ne hne]
          exact habove }
  else tree

variable {tree : FileTree ν γ} {name : ν} {place other : List ν}

theorem make_kind {node : Kind γ} (hplace : tree.kind place = .dir)
    (habsent : tree.kind (name :: place) = .absent) :
    (tree.make name place node).kind = Function.update tree.kind (name :: place) node := by
  rw [make, dif_pos ⟨hplace, habsent⟩]

/-- Nothing that is there is changed. -/
theorem make_of_present {node : Kind γ} (h : tree.kind other ≠ .absent) :
    (tree.make name place node).kind other = tree.kind other := by
  unfold make
  split
  · next hmade =>
      refine Function.update_of_ne ?_ ..
      rintro rfl
      exact h hmade.2
  · rfl

theorem unlink_kind (h : tree.kind place ≠ .dir) :
    (tree.unlink place).kind = Function.update tree.kind place .absent := by
  rw [unlink, dif_pos h]

theorem unlink_of_ne (h : other ≠ place) : (tree.unlink place).kind other = tree.kind other := by
  unfold unlink
  split
  · exact Function.update_of_ne h ..
  · rfl

omit [DecidableEq ν] [DecidableEq γ] in
/-- Above what is there are directories. -/
theorem dir_of_below (tree : FileTree ν γ) {above : List ν} (hne : above ≠ [])
    (h : tree.kind (above ++ place) ≠ .absent) : tree.kind place = .dir := by
  induction above with
  | nil => exact absurd rfl hne
  | cons name above ih =>
      have hdir := tree.parents name (above ++ place) h
      cases above with
      | nil => exact hdir
      | cons other above => exact ih (by simp) (by rw [hdir]; simp)

/-! ## Adding directories -/

/-- Nothing but directories has been added. -/
def DirsAdded (old new : FileTree ν γ) : Prop :=
  ∀ place, new.kind place = old.kind place ∨ (old.kind place = .absent ∧ new.kind place = .dir)

namespace DirsAdded

variable {old new newer : FileTree ν γ}

omit [DecidableEq ν] [DecidableEq γ] in
theorem refl (tree : FileTree ν γ) : DirsAdded tree tree := fun _ => .inl rfl

omit [DecidableEq ν] [DecidableEq γ] in
theorem trans (h : DirsAdded old new) (h' : DirsAdded new newer) : DirsAdded old newer := by
  intro place
  rcases h' place with hsame | ⟨habsent, hdir⟩
  · rw [hsame]
    exact h place
  · refine .inr ⟨?_, hdir⟩
    rcases h place with hold | ⟨-, hnew⟩
    · rw [← hold, habsent]
    · rw [hnew] at habsent
      cases habsent

theorem make (tree : FileTree ν γ) (name : ν) (place : List ν) :
    DirsAdded tree (tree.make name place .dir) := by
  intro other
  by_cases habsent : tree.kind other = .absent
  · unfold FileTree.make
    split
    · by_cases hother : other = name :: place
      · rw [hother] at habsent ⊢
        exact .inr ⟨habsent, Function.update_self ..⟩
      · exact .inl (Function.update_of_ne hother ..)
    · exact .inl rfl
  · exact .inl (make_of_present habsent)

omit [DecidableEq ν] [DecidableEq γ] in
theorem present (h : DirsAdded old new) (hplace : old.kind place ≠ .absent) :
    new.kind place = old.kind place := by
  rcases h place with hsame | ⟨habsent, -⟩
  · exact hsame
  · exact absurd habsent hplace

omit [DecidableEq ν] [DecidableEq γ] in
theorem absent (h : DirsAdded old new) (hplace : new.kind place = .absent) :
    old.kind place = .absent := by
  by_contra hne
  rw [h.present hne] at hplace
  exact hne hplace

end DirsAdded

end FileTree

end Spaces.Library
