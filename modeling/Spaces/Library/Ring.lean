import Mathlib.Logic.Function.Basic
import Mathlib.Data.Nat.ModEq

/-!
# A ring of numbered slots

A value is kept under a key in the next slot of a ring, and the slot's number is
its handle. An index leads from a key back to its slot. When the ring has gone
round, the slot of the oldest value is taken for the newest one, and the old
handle leads there.

`Consistent` says that the index and the slots name each other. The rules after
it say how long a handle keeps its meaning: through every step that does not
drop its key, until as many further slots were taken as the ring has.
-/

namespace Spaces.Library

variable {n : Nat} {κ α : Type}

structure Ring (n : Nat) (κ α : Type) where
  slots : Fin n → Option (κ × α)
  /-- The slot of each key. -/
  index : κ → Option (Fin n)
  next : Fin n

namespace Ring

/-- The slot after a slot. -/
def after [NeZero n] (i : Fin n) : Fin n := Fin.ofNat n (i + 1)

def empty [NeZero n] : Ring n κ α where
  slots := fun _ => none
  index := fun _ => none
  next := 0

/-- The key of a slot. -/
def holder (r : Ring n κ α) (i : Fin n) : Option κ := (r.slots i).map Prod.fst

/-- Put another value into the slot of a key. -/
def refresh (r : Ring n κ α) (i : Fin n) (k : κ) (v : α) : Ring n κ α :=
  { r with slots := Function.update r.slots i (some (k, v)) }

/-- The index leads to the slots that hold its keys, and to no others. -/
def Consistent (r : Ring n κ α) : Prop :=
  ∀ k i, r.index k = some i ↔ r.holder i = some k

variable {r : Ring n κ α} {k : κ} {i j : Fin n} {v : α}

theorem holder_of_slot (h : r.slots i = some (k, v)) : r.holder i = some k := by
  rw [holder, h]
  rfl

theorem consistent_empty [NeZero n] : (empty : Ring n κ α).Consistent := by
  intro k i
  simp [empty, holder]

theorem Consistent.inj (h : r.Consistent) (hi : r.holder i = some k)
    (hj : r.holder j = some k) : i = j :=
  Option.some.inj (((h k i).mpr hi).symm.trans ((h k j).mpr hj))

/-! ## Refreshing a slot -/

theorem slot_refresh (r : Ring n κ α) (i : Fin n) (k : κ) (v : α) (j : Fin n) :
    (r.refresh i k v).slots j = if j = i then some (k, v) else r.slots j :=
  Function.update_apply ..

theorem holder_refresh (hk : r.holder i = some k) (v : α) :
    (r.refresh i k v).holder = r.holder := by
  funext j
  show (Function.update r.slots i (some (k, v)) j).map Prod.fst = _
  rw [Function.update_apply]
  split
  · next hj => rw [hj, hk]; rfl
  · rfl

theorem Consistent.refresh (h : r.Consistent) (hk : r.holder i = some k) (v : α) :
    (r.refresh i k v).Consistent := by
  intro k' j
  rw [holder_refresh hk]
  exact h k' j

/-! ## Dropping a key and taking the next slot -/

variable [DecidableEq κ]

/-- Empty the slot of a key. -/
def drop (r : Ring n κ α) (k : κ) : Ring n κ α :=
  match r.index k with
  | none => r
  | some i =>
      { r with
        slots := Function.update r.slots i none
        index := Function.update r.index k none }

/-- Take the next slot, from whichever key has it. -/
def push [NeZero n] (r : Ring n κ α) (k : κ) (v : α) : Ring n κ α :=
  let index := match r.holder r.next with
    | some old => Function.update r.index old none
    | none => r.index
  { slots := Function.update r.slots r.next (some (k, v))
    index := Function.update index k (some r.next)
    next := after r.next }

theorem holder_drop (h : r.Consistent) (k : κ) (j : Fin n) :
    (r.drop k).holder j = if r.holder j = some k then none else r.holder j := by
  unfold drop
  cases hk : r.index k with
  | none =>
      have hne : r.holder j ≠ some k := by
        intro hj
        rw [(h k j).mpr hj] at hk
        cases hk
      rw [if_neg hne]
  | some i =>
      show (Function.update r.slots i none j).map Prod.fst = _
      have hi := (h k i).mp hk
      rw [Function.update_apply]
      split
      · next hj => rw [hj, if_pos hi]; rfl
      · next hj => rw [if_neg fun hheld => hj (h.inj hheld hi)]; rfl

theorem index_drop (r : Ring n κ α) (k k' : κ) :
    (r.drop k).index k' = if k' = k then none else r.index k' := by
  unfold drop
  cases hk : r.index k with
  | none =>
      by_cases hkey : k' = k
      · rw [if_pos hkey, hkey]
        exact hk
      · rw [if_neg hkey]
  | some i => exact Function.update_apply ..

/-- Dropping empties slots only. -/
theorem slot_of_drop {entry : κ × α} (h : (r.drop k).slots j = some entry) :
    r.slots j = some entry := by
  unfold drop at h
  split at h
  · exact h
  · next i _ =>
      replace h : Function.update r.slots i none j = some entry := h
      rw [Function.update_apply] at h
      split at h
      · cases h
      · exact h

@[simp]
theorem next_drop (r : Ring n κ α) (k : κ) : (r.drop k).next = r.next := by
  unfold drop
  split <;> rfl

theorem Consistent.drop (h : r.Consistent) (k : κ) : (r.drop k).Consistent := by
  intro k' j
  rw [index_drop, holder_drop h]
  by_cases hkey : k' = k
  · rw [if_pos hkey, hkey]
    split
    · simp
    · next hne => simp [hne]
  · rw [if_neg hkey]
    split
    · next hheld =>
        refine ⟨fun hindex => ?_, nofun⟩
        rw [(h k' j).mp hindex] at hheld
        exact absurd (Option.some.inj hheld) hkey
    · exact h k' j

theorem slot_push [NeZero n] (r : Ring n κ α) (k : κ) (v : α) (j : Fin n) :
    (r.push k v).slots j = if j = r.next then some (k, v) else r.slots j :=
  Function.update_apply ..

theorem holder_push [NeZero n] (r : Ring n κ α) (k : κ) (v : α) (j : Fin n) :
    (r.push k v).holder j = if j = r.next then some k else r.holder j := by
  show (Function.update r.slots r.next (some (k, v)) j).map Prod.fst = _
  rw [Function.update_apply]
  split <;> rfl

theorem index_push [NeZero n] (r : Ring n κ α) (k k' : κ) (v : α) :
    (r.push k v).index k' =
      if k' = k then some r.next
      else if r.holder r.next = some k' then none else r.index k' := by
  simp only [push, Function.update_apply]
  split
  · rfl
  · cases r.holder r.next with
    | none => simp
    | some old => simp [Function.update_apply, eq_comm]

theorem Consistent.push [NeZero n] (h : r.Consistent) (hk : r.index k = none) (v : α) :
    (r.push k v).Consistent := by
  intro k' j
  rw [index_push, holder_push]
  by_cases hkey : k' = k
  · rw [if_pos hkey, hkey]
    split
    · next hj => simp [hj]
    · next hj =>
        refine ⟨fun hindex => absurd (Option.some.inj hindex).symm hj, fun hheld => ?_⟩
        rw [(h k j).mpr hheld] at hk
        cases hk
  · rw [if_neg hkey]
    by_cases hj : j = r.next
    · rw [if_pos hj]
      split
      · simp [Ne.symm hkey]
      · next hlost =>
          refine ⟨fun hindex => ?_, fun heq => absurd (Option.some.inj heq).symm hkey⟩
          rw [hj] at hindex
          exact absurd ((h k' r.next).mp hindex) hlost
    · rw [if_neg hj]
      split
      · next hlost => exact ⟨nofun, fun hheld => absurd (h.inj hheld hlost) hj⟩
      · exact h k' j

/-! ## How long a handle keeps its meaning -/

/-- How many slots were taken after the slot `i`, when the next one is `next`. -/
def Behind (i next : Fin n) (m : Nat) : Prop := next.val = (i.val + 1 + m) % n

theorem behind_after [NeZero n] (i : Fin n) : Behind i (after i) 0 := rfl

theorem Behind.after [NeZero n] {next : Fin n} {m : Nat} (h : Behind i next m) :
    Behind i (Ring.after next) (m + 1) := by
  show (next.val + 1) % n = (i.val + 1 + (m + 1)) % n
  rw [h, Nat.mod_add_mod]
  rfl

/-- The ring does not come back to a slot before it has taken all the others. -/
theorem Behind.ne {next : Fin n} {m : Nat} (h : Behind i next m) (hm : m + 1 < n) :
    i ≠ next := by
  intro heq
  have hi : i.val = (i.val + 1 + m) % n := by rw [← h, heq]
  have hlt := i.isLt
  rcases Nat.lt_or_ge (i.val + 1 + m) n with hfew | hmany
  · rw [Nat.mod_eq_of_lt hfew] at hi
    omega
  · rw [Nat.mod_eq_sub_mod hmany, Nat.mod_eq_of_lt (by omega)] at hi
    omega

end Ring

end Spaces.Library
