import Mathlib.Data.List.TakeDrop
import Mathlib.Tactic.Common

/-!
# A channel with faults

One direction of a stream: what was sent and not read yet is in flight, in order.
A fault alters a message in flight, or ends the stream in the middle of it. A
channel keeps a record of everything that was sent on it and of how much was
read, so that what a reader sees can be compared with what was sent.
-/

namespace Spaces.Library

structure Channel (α : Type*) where
  flight : List α := []
  /-- Nothing can be sent on a closed channel. -/
  closed : Bool := false
  sent : List α := []
  taken : Nat := 0

namespace Channel

variable {α : Type*}

def send (c : Channel α) (message : α) : Channel α :=
  { c with flight := c.flight ++ [message], sent := c.sent ++ [message] }

/-- The channel after its first message was read. -/
def read (c : Channel α) : Channel α :=
  { c with flight := c.flight.tail, taken := c.taken + 1 }

def alter (c : Channel α) (index : Nat) (message : α) : Channel α :=
  { c with flight := c.flight.set index message }

/-- Only the first `keep` messages still arrive, and of the next one the stump. -/
def cut (c : Channel α) (keep : Nat) (stump : α) : Channel α :=
  { c with
    flight := if keep < c.flight.length then c.flight.take keep ++ [stump] else c.flight
    closed := true }

/-- What is in flight is what was sent, but for the messages that a fault made
recognizable. -/
structure Faithful (fault : α → Prop) (c : Channel α) : Prop where
  genuine : ∀ (i : Nat) (message : α), c.flight[i]? = some message →
    fault message ∨ c.sent[c.taken + i]? = some message
  whole : c.closed = false → c.taken + c.flight.length = c.sent.length

variable {fault : α → Prop} {c : Channel α}

theorem faithful_empty : Faithful fault ({} : Channel α) where
  genuine i message h := by simp at h
  whole _ := rfl

namespace Faithful

theorem send (h : Faithful fault c) (hopen : c.closed = false) (message : α) :
    Faithful fault (c.send message) where
  genuine i sent hi := by
    have hwhole := h.whole hopen
    simp only [Channel.send] at hi ⊢
    rcases Nat.lt_trichotomy i c.flight.length with hlt | heq | hgt
    · rw [List.getElem?_append_left hlt] at hi
      rcases h.genuine i sent hi with hfault | hsent
      · exact .inl hfault
      · rw [List.getElem?_append_left (by omega)]
        exact .inr hsent
    · rw [heq, List.getElem?_concat_length] at hi
      rw [heq, hwhole, List.getElem?_concat_length]
      exact .inr hi
    · rw [List.getElem?_eq_none (by simp; omega)] at hi
      cases hi
  whole hclosed := by
    have hwhole := h.whole hclosed
    simp only [Channel.send, List.length_append, List.length_singleton]
    omega

theorem read (h : Faithful fault c) (hne : c.flight ≠ []) : Faithful fault c.read where
  genuine i message hi := by
    simp only [Channel.read, List.getElem?_tail] at hi ⊢
    rw [Nat.add_assoc, Nat.add_comm 1 i]
    exact h.genuine (i + 1) message hi
  whole hclosed := by
    have hwhole := h.whole hclosed
    have hpos := List.length_pos_iff.mpr hne
    simp only [Channel.read, List.length_tail]
    omega

theorem alter (h : Faithful fault c) (index : Nat) {message : α} (hfault : fault message) :
    Faithful fault (c.alter index message) where
  genuine i other hi := by
    simp only [Channel.alter, List.getElem?_set] at hi ⊢
    split at hi
    · split at hi
      · obtain rfl := Option.some.inj hi
        exact .inl hfault
      · cases hi
    · exact h.genuine i other hi
  whole hclosed := by
    have hwhole := h.whole hclosed
    simp only [Channel.alter, List.length_set]
    exact hwhole

theorem cut (h : Faithful fault c) (keep : Nat) {stump : α} (hfault : fault stump) :
    Faithful fault (c.cut keep stump) where
  genuine i message hi := by
    simp only [Channel.cut] at hi ⊢
    split at hi
    · rcases Nat.lt_trichotomy i (c.flight.take keep).length with hlt | heq | hgt
      · rw [List.getElem?_append_left hlt, List.getElem?_take] at hi
        split at hi
        · exact h.genuine i message hi
        · cases hi
      · rw [heq, List.getElem?_concat_length] at hi
        obtain rfl := Option.some.inj hi
        exact .inl hfault
      · rw [List.getElem?_eq_none (by simp at hgt ⊢; omega)] at hi
        cases hi
    · exact h.genuine i message hi
  whole hclosed := by cases hclosed

/-- The message that is read next was sent next, unless a fault shows. -/
theorem head (h : Faithful fault c) {message : α} {rest : List α}
    (hflight : c.flight = message :: rest) (hgood : ¬ fault message) :
    c.sent[c.taken]? = some message :=
  (h.genuine 0 message (by rw [hflight]; rfl)).resolve_left hgood

end Faithful

end Channel

end Spaces.Library
