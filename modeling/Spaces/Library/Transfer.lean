import Mathlib.Data.List.TakeDrop
import Mathlib.Tactic.Common

/-!
# Transfers in parts

A system call on a stream moves some of the bytes it was asked to move, is
interrupted, or fails. How a transfer is cut is data: a list of shares, one for
each call, and every list is one way it can go. When the list is used up, a call
moves all it can, so that every transfer comes to an end.
-/

namespace Spaces.Library.Transfer

variable {α : Type*}

/-- What one call does: it moves at most `more + 1` elements, is interrupted
before it has moved any, or fails. -/
inductive Share where
  | moved (more : Nat)
  | interrupted
  | failed
  deriving DecidableEq

/-- No call fails. -/
def Intact (shares : List Share) : Prop := Share.failed ∉ shares

theorem Intact.tail {share : Share} {shares : List Share} (h : Intact (share :: shares)) :
    Intact shares :=
  fun hmem => h (List.mem_cons_of_mem share hmem)

inductive Answer (α : Type*) where
  | moved (part : List α)
  | interrupted
  | failed

/-! ## Reading -/

/-- A stream with what will arrive on it before its end. -/
structure Source (α : Type*) where
  rest : List α
  shares : List Share := []

namespace Source

/-- One call that asks for at most `size` elements. An empty part is the end of
the stream. -/
def read (s : Source α) (size : Nat) : Answer α × Source α :=
  match s.shares with
  | [] => (.moved (s.rest.take size), { s with rest := s.rest.drop size })
  | .moved more :: shares =>
      let count := min size (more + 1)
      (.moved (s.rest.take count), ⟨s.rest.drop count, shares⟩)
  | .interrupted :: shares => (.interrupted, { s with shares })
  | .failed :: shares => (.failed, { s with shares })

variable {s s' : Source α} {size : Nat}

theorem read_moved {part : List α} (h : s.read size = (.moved part, s')) :
    s.rest = part ++ s'.rest ∧ part.length ≤ size ∧ s'.shares.length ≤ s.shares.length ∧
      (Intact s.shares → Intact s'.shares) ∧ (part = [] → 0 < size → s.rest = []) := by
  unfold read at h
  split at h
  · next hshares =>
      injection h with hpart hs
      injection hpart with hpart
      subst hpart hs
      refine ⟨(List.take_append_drop size s.rest).symm, List.length_take_le size s.rest,
        Nat.le_refl _, fun hintact => hintact, fun hpart hsize => ?_⟩
      rcases List.take_eq_nil_iff.mp hpart with hzero | hrest
      · omega
      · exact hrest
  · next more shares hshares =>
      injection h with hpart hs
      injection hpart with hpart
      subst hpart hs
      rw [hshares]
      refine ⟨(List.take_append_drop _ s.rest).symm, ?_, by simp, Intact.tail,
        fun hpart hsize => ?_⟩
      · simp only [List.length_take]
        omega
      · rcases List.take_eq_nil_iff.mp hpart with hzero | hrest
        · omega
        · exact hrest
  · cases h
  · cases h

theorem read_interrupted (h : s.read size = (.interrupted, s')) :
    ∃ shares, s.shares = .interrupted :: shares ∧ s' = { s with shares } := by
  unfold read at h
  split at h
  · cases h
  · cases h
  · next shares hshares =>
      injection h with _ hs
      exact ⟨shares, hshares, hs.symm⟩
  · cases h

theorem read_failed (h : s.read size = (.failed, s')) :
    ∃ shares, s.shares = .failed :: shares ∧ s' = { s with shares } := by
  unfold read at h
  split at h
  · cases h
  · cases h
  · cases h
  · next shares hshares =>
      injection h with _ hs
      exact ⟨shares, hshares, hs.symm⟩

theorem read_of_interrupted {shares : List Share} (h : s.shares = .interrupted :: shares)
    (size : Nat) : s.read size = (.interrupted, { s with shares }) := by
  rw [read, h]

end Source

/-! ## Writing -/

/-- A stream with what has been written to it. -/
structure Sink (α : Type*) where
  sent : List α
  shares : List Share := []

namespace Sink

/-- One call that asks to write `data`. -/
def write (s : Sink α) (data : List α) : Answer α × Sink α :=
  match s.shares with
  | [] => (.moved data, { s with sent := s.sent ++ data })
  | .moved more :: shares =>
      let part := data.take (more + 1)
      (.moved part, ⟨s.sent ++ part, shares⟩)
  | .interrupted :: shares => (.interrupted, { s with shares })
  | .failed :: shares => (.failed, { s with shares })

variable {s s' : Sink α} {data : List α}

theorem write_moved {part : List α} (h : s.write data = (.moved part, s')) :
    s'.sent = s.sent ++ part ∧ part <+: data ∧ s'.shares.length ≤ s.shares.length ∧
      (Intact s.shares → Intact s'.shares) ∧ (part = [] → data = []) := by
  unfold write at h
  split at h
  · injection h with hpart hs
    injection hpart with hpart
    subst hpart hs
    exact ⟨rfl, List.prefix_rfl, Nat.le_refl _, fun hintact => hintact, fun hdata => hdata⟩
  · next more shares hshares =>
      injection h with hpart hs
      injection hpart with hpart
      subst hpart hs
      rw [hshares]
      refine ⟨rfl, List.take_prefix _ data, by simp, Intact.tail, fun hpart => ?_⟩
      rcases List.take_eq_nil_iff.mp hpart with hzero | hdata
      · omega
      · exact hdata
  · cases h
  · cases h

theorem write_interrupted (h : s.write data = (.interrupted, s')) :
    ∃ shares, s.shares = .interrupted :: shares ∧ s' = { s with shares } := by
  unfold write at h
  split at h
  · cases h
  · cases h
  · next shares hshares =>
      injection h with _ hs
      exact ⟨shares, hshares, hs.symm⟩
  · cases h

theorem write_failed (h : s.write data = (.failed, s')) : Share.failed ∈ s.shares := by
  unfold write at h
  split at h
  · cases h
  · cases h
  · cases h
  · next shares hshares =>
      rw [hshares]
      exact List.mem_cons_self

/-- A call that fails has written nothing. -/
theorem write_failed_sent (h : s.write data = (.failed, s')) : s'.sent = s.sent := by
  unfold write at h
  split at h
  · cases h
  · cases h
  · cases h
  · injection h with _ hs
    rw [← hs]

end Sink

end Spaces.Library.Transfer
