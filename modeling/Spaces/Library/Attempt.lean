import Mathlib.Data.Option.Basic

/-!
# Attempts on a state

An attempt works on a state and may fail. What it did to the state stays when it
fails, so a part that comes after a failed one is not begun, and nothing is taken
back.

`Grows le m` is the judgement that `m` only ever moves the state up in a relation,
by either outcome.
-/

namespace Spaces.Library

def Attempt (σ α : Type) : Type := σ → Option α × σ

namespace Attempt

variable {σ α β : Type}

protected def bind (m : Attempt σ α) (f : α → Attempt σ β) : Attempt σ β := fun s =>
  match m s with
  | (some a, s') => f a s'
  | (none, s') => (none, s')

instance : Monad (Attempt σ) where
  pure a := fun s => (some a, s)
  bind := Attempt.bind

def look : Attempt σ σ := fun s => (some s, s)

/-- A change that cannot fail. -/
def update (f : σ → σ) : Attempt σ Unit := fun s => (some (), f s)

def fail (f : σ → σ) : Attempt σ α := fun s => (none, f s)

/-- The attempt so many times over, as long as it does not fail. -/
def times (m : Attempt σ Unit) : Nat → Attempt σ Unit
  | 0 => pure ()
  | n + 1 => do
      m
      times m n

/-! ## What a part leaves -/

theorem bind_of_some {m : Attempt σ α} {f : α → Attempt σ β} {s s' : σ} {a : α}
    (h : m s = (some a, s')) : (m >>= f) s = f a s' := by
  show Attempt.bind m f s = _
  rw [Attempt.bind, h]

theorem bind_of_none {m : Attempt σ α} {f : α → Attempt σ β} {s s' : σ}
    (h : m s = (none, s')) : (m >>= f) s = (none, s') := by
  show Attempt.bind m f s = _
  rw [Attempt.bind, h]

theorem bind_eq_some {m : Attempt σ α} {f : α → Attempt σ β} {s s' : σ} {b : β} :
    (m >>= f) s = (some b, s') ↔ ∃ a t, m s = (some a, t) ∧ f a t = (some b, s') := by
  cases hm : m s with
  | mk value t =>
      cases value with
      | none =>
          rw [bind_of_none hm]
          constructor
          · intro h
            cases h
          · rintro ⟨_, _, h, -⟩
            cases h
      | some a =>
          rw [bind_of_some hm]
          refine ⟨fun h => ⟨a, t, rfl, h⟩, fun ⟨_, _, h, hf⟩ => ?_⟩
          cases h
          exact hf

theorem bind_eq_none {m : Attempt σ α} {f : α → Attempt σ β} {s : σ}
    (h : ∀ a t, m s = (some a, t) → (f a t).1 = none) : ((m >>= f) s).1 = none := by
  cases hm : m s with
  | mk value t =>
      cases value with
      | none => rw [bind_of_none hm]
      | some a =>
          rw [bind_of_some hm]
          exact h a t hm

theorem bind_assoc {γ : Type} (m : Attempt σ α) (f : α → Attempt σ β) (g : β → Attempt σ γ) :
    (m >>= f) >>= g = m >>= fun a => f a >>= g := by
  funext s
  cases hm : m s with
  | mk value t =>
      cases value with
      | none => rw [bind_of_none hm, bind_of_none (bind_of_none hm)]
      | some a =>
          rw [bind_of_some hm]
          show Attempt.bind (m >>= f) g s = Attempt.bind (f a) g t
          rw [Attempt.bind, bind_of_some hm, Attempt.bind]

/-! ## States that only move up -/

def Grows (le : σ → σ → Prop) (m : Attempt σ α) : Prop := ∀ s, le s (m s).2

variable {le : σ → σ → Prop} {m : Attempt σ α}

theorem Grows.pure (hrefl : ∀ s, le s s) (a : α) : Grows le (Pure.pure a : Attempt σ α) := hrefl

theorem Grows.look (hrefl : ∀ s, le s s) : Grows le (Attempt.look : Attempt σ σ) := hrefl

theorem Grows.update {f : σ → σ} (h : ∀ s, le s (f s)) : Grows le (Attempt.update f) := h

theorem Grows.fail {f : σ → σ} (h : ∀ s, le s (f s)) : Grows le (Attempt.fail f : Attempt σ α) :=
  h

theorem Grows.bind (htrans : ∀ a b c, le a b → le b c → le a c) {f : α → Attempt σ β}
    (hm : Grows le m) (hf : ∀ a, Grows le (f a)) : Grows le (m >>= f) := by
  intro s
  have hfirst := hm s
  show le s (Attempt.bind m f s).2
  unfold Attempt.bind
  split
  · next a t hrun =>
      rw [hrun] at hfirst
      exact htrans _ _ _ hfirst (hf a t)
  · next t hrun =>
      rw [hrun] at hfirst
      exact hfirst

theorem Grows.times (hrefl : ∀ s, le s s) (htrans : ∀ a b c, le a b → le b c → le a c)
    {m : Attempt σ Unit} (h : Grows le m) (n : Nat) : Grows le (m.times n) := by
  induction n with
  | zero => exact Grows.pure hrefl ()
  | succ n ih => exact Grows.bind htrans h fun _ => ih

end Attempt

end Spaces.Library
