import Mathlib.Data.List.Infix
import Mathlib.Tactic.Common

/-!
# Allocated memory

A block holds in each of its cells what was last written there. Writing behind the
end of it is a fault, and so is reading what was never written.

What is known of a block that is filled from its beginning is the text that it begins
with. Every rule here goes from one such text to the next.
-/

namespace Spaces.Library

variable {α : Type}

inductive Block.Fault where
  | outside
  | unwritten
  deriving DecidableEq

abbrev Access (α : Type) := Except Block.Fault α

abbrev Block (α : Type) := List (Option α)

namespace Block

def allocate (size : Nat) : Block α := List.replicate size none

def store (block : Block α) (offset : Nat) (value : α) : Access (Block α) :=
  if offset < block.length then .ok (block.set offset (some value)) else .error .outside

/-- `memcpy`, from the first byte to the last. -/
def copy (block : Block α) (offset : Nat) : List α → Access (Block α)
  | [] => .ok block
  | value :: values => do
      let block ← block.store offset value
      block.copy (offset + 1) values

/-- What is read up to the first zero. -/
def string [DecidableEq α] (zero : α) : Block α → Access (List α)
  | [] => .error .outside
  | none :: _ => .error .unwritten
  | some value :: block =>
      if value = zero then .ok []
      else do
        let rest ← string zero block
        return value :: rest

/-- The text that the block begins with. -/
def Begins (block : Block α) (text : List α) : Prop := text.map some <+: block

variable {block : Block α} {text values more : List α} {value zero : α}

theorem begins_nil (block : Block α) : Begins block [] := List.nil_prefix

theorem Begins.of_append (h : Begins block (text ++ more)) : Begins block text := by
  unfold Begins at h
  rw [List.map_append] at h
  exact (List.prefix_append _ _).trans h

theorem Begins.length_le (h : Begins block text) : text.length ≤ block.length := by
  have hle := List.IsPrefix.length_le h
  rwa [List.length_map] at hle

theorem Begins.store (h : Begins block text) (value : α) (hroom : text.length < block.length) :
    ∃ block', block.store text.length value = .ok block' ∧ Begins block' (text ++ [value])
      ∧ block'.length = block.length := by
  refine ⟨_, if_pos hroom, ?_, List.length_set⟩
  obtain ⟨rest, rfl⟩ := h
  cases rest with
  | nil => simp at hroom
  | cons cell rest =>
      refine ⟨rest, ?_⟩
      rw [List.set_append_right _ _ (by simp)]
      simp

theorem Begins.copy (h : Begins block text) (values : List α)
    (hroom : text.length + values.length ≤ block.length) :
    ∃ block', block.copy text.length values = .ok block' ∧ Begins block' (text ++ values)
      ∧ block'.length = block.length := by
  induction values generalizing block text with
  | nil => exact ⟨block, rfl, by rwa [List.append_nil], rfl⟩
  | cons value values ih =>
      rw [List.length_cons] at hroom
      obtain ⟨stored, hstore, hbegins, hlength⟩ := h.store value (by omega)
      have hroom' : (text ++ [value]).length + values.length ≤ stored.length := by
        rw [hlength, List.length_append, List.length_singleton]
        omega
      obtain ⟨copied, hcopy, hbegins', hlength'⟩ := ih hbegins hroom'
      refine ⟨copied, ?_, ?_, hlength'.trans hlength⟩
      · rw [Block.copy, hstore]
        rw [List.length_append, List.length_singleton] at hcopy
        exact hcopy
      · rwa [List.append_assoc, List.singleton_append] at hbegins'

theorem Begins.string [DecidableEq α] (h : Begins block (text ++ [zero])) (hzero : zero ∉ text) :
    block.string zero = .ok text := by
  induction text generalizing block with
  | nil =>
      obtain ⟨rest, rfl⟩ := h
      exact if_pos rfl
  | cons value text ih =>
      obtain ⟨rest, rfl⟩ := h
      obtain ⟨hne, hzero⟩ := List.ne_and_not_mem_of_not_mem_cons hzero
      have hrest := ih ⟨rest, rfl⟩ hzero
      rw [List.cons_append, List.map_cons, List.cons_append, Block.string, if_neg (Ne.symm hne),
        hrest]
      rfl

end Block

end Spaces.Library
