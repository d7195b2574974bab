import Mathlib.Algebra.Ring.Nat
import Mathlib.Data.Nat.Basic
import Mathlib.Tactic.Common

/-!
# Arithmetic and buffers that are left by failing

A product or a sum is taken at a width and must fit, and an access to a buffer must fall
inside of it. Whatever breaks this fails, so that a computation that ends has wrapped
nothing and has touched nothing outside its buffers.

`Runs m post` is the judgement for this: `m` ends, with a result of which `post` holds.
There is one rule for each operation, and one for a loop with a counter.
-/

namespace Spaces.Library

inductive Breach
  | wrapped
  | readOutside
  | wroteOutside
  deriving DecidableEq

abbrev Checked (α : Type) : Type := Except Breach α

namespace Checked

variable {α β σ : Type} {n : Nat}

def mul (width a b : Nat) : Checked Nat :=
  if a * b < 2 ^ width then .ok (a * b) else .error .wrapped

def add (width a b : Nat) : Checked Nat :=
  if a + b < 2 ^ width then .ok (a + b) else .error .wrapped

def load (buffer : Vector α n) (i : Nat) : Checked α :=
  if h : i < n then .ok (buffer.get ⟨i, h⟩) else .error .readOutside

def store (buffer : Vector α n) (i : Nat) (value : α) : Checked (Vector α n) :=
  if h : i < n then .ok (buffer.set i value h) else .error .wroteOutside

/-- The body for each number below a limit, in their order. The counter has a width. -/
def forBelow (width : Nat) (body : Nat → σ → Checked σ) (s : σ) : Nat → Checked σ
  | 0 => .ok s
  | i + 1 => do
      let s ← forBelow width body s i
      let s ← body i s
      let _ ← add width i 1
      return s

/-- `memcpy`, one element after another. -/
def copy {m : Nat} (source : Vector α n) (target : Vector α m) (i j count : Nat) :
    Checked (Vector α m) :=
  forBelow 64 (fun k target => do
    let value ← load source (← add 64 i k)
    store target (← add 64 j k) value) target count

/-! ## What ends -/

def Runs (m : Checked α) (post : α → Prop) : Prop := ∃ a, m = .ok a ∧ post a

variable {m : Checked α} {f : α → Checked β} {post middle : α → Prop} {goal : β → Prop}
  {width a b i : Nat}

theorem Runs.mono (h : Runs m middle) (hpost : ∀ a, middle a → post a) : Runs m post := by
  obtain ⟨a, hm, ha⟩ := h
  exact ⟨a, hm, hpost a ha⟩

theorem runs_ok {a : α} (h : post a) : Runs (.ok a) post := ⟨a, rfl, h⟩

theorem Runs.bind (h : Runs m middle) (hf : ∀ a, middle a → Runs (f a) goal) :
    Runs (m >>= f) goal := by
  obtain ⟨a, rfl, ha⟩ := h
  exact hf a ha

theorem runs_mul (h : a * b < 2 ^ width) : Runs (mul width a b) (· = a * b) :=
  ⟨a * b, if_pos h, rfl⟩

theorem runs_add (h : a + b < 2 ^ width) : Runs (add width a b) (· = a + b) :=
  ⟨a + b, if_pos h, rfl⟩

theorem runs_load (buffer : Vector α n) (h : i < n) :
    Runs (load buffer i) (fun _ => True) := ⟨_, dif_pos h, trivial⟩

theorem runs_store (buffer : Vector α n) (value : α) (h : i < n) :
    Runs (store buffer i value) (fun _ => True) := ⟨_, dif_pos h, trivial⟩

/-- A loop ends if its body does and the counter can hold the limit. -/
theorem runs_forBelow {body : Nat → σ → Checked σ} {limit : Nat} (hlimit : limit < 2 ^ width)
    (hbody : ∀ i < limit, ∀ s, Runs (body i s) (fun _ => True)) (s : σ) :
    Runs (forBelow width body s limit) (fun _ => True) := by
  induction limit with
  | zero => exact runs_ok trivial
  | succ i ih =>
      have hbefore := ih (Nat.lt_of_succ_lt hlimit) (fun j hj => hbody j (Nat.lt_succ_of_lt hj))
      refine hbefore.bind (fun t _ => ?_)
      refine (hbody i (Nat.lt_succ_self i) t).bind (fun u _ => ?_)
      exact (runs_add hlimit).bind (fun _ _ => runs_ok trivial)

/-- Copying ends if both ranges are inside and the buffers can be addressed. -/
theorem runs_copy {k j count : Nat} (source : Vector α n) (target : Vector α k)
    (hn : n < 2 ^ 64) (hk : k < 2 ^ 64) (hi : i + count ≤ n) (hj : j + count ≤ k) :
    Runs (copy source target i j count) (fun _ => True) := by
  refine runs_forBelow (by omega) (fun l hl s => ?_) target
  refine (runs_add (by omega)).bind (fun x hx => ?_)
  refine (runs_load source (by omega)).bind (fun value _ => ?_)
  refine (runs_add (by omega)).bind (fun y hy => ?_)
  exact runs_store s value (by omega)

end Checked

end Spaces.Library
