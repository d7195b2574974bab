import Mathlib.Data.List.Basic
import Mathlib.Tactic.Common

/-!
# Messages on a stream

A message is a text with a separator after it that the text does not have. A
reader that gets it in pieces knows by the separator where it ends, and a reader
that keeps only so much of a text knows whether it has kept all.
-/

namespace Spaces.Library.Framing

variable {α : Type*} {separator : α} {text got rest : List α}

/-- The first separator that is read ends the message. -/
theorem message_ends (htext : separator ∉ text) {count : Nat}
    (h : got ++ separator :: rest = (text ++ [separator]).take count) :
    got = text ∧ rest = [] ∧ text.length < count := by
  have hmem : separator ∈ (text ++ [separator]).take count := h ▸ by simp
  have hcount : text.length < count := by
    by_contra hle
    rw [List.take_append_of_le_length (by omega)] at hmem
    exact htext (List.mem_of_mem_take hmem)
  have hlength : (text ++ [separator]).length ≤ count := by
    rw [List.length_append, List.length_singleton]
    omega
  rw [List.take_of_length_le hlength] at h
  obtain ⟨htext, -, hrest⟩ := (List.append_cons_inj_of_notMem htext List.not_mem_nil).mp h.symm
  exact ⟨htext.symm, hrest.symm, hcount⟩

/-- What ends with the separator is all of the message. -/
theorem message_whole (htext : separator ∉ text) (h : got ++ rest = text ++ [separator])
    (hlast : got.getLast? = some separator) : got = text ++ [separator] ∧ rest = [] := by
  obtain ⟨start, rfl⟩ := List.getLast?_eq_some_iff.mp hlast
  rw [List.append_assoc, List.singleton_append] at h
  obtain ⟨rfl, -, rfl⟩ := (List.append_cons_inj_of_notMem htext List.not_mem_nil).mp h.symm
  exact ⟨rfl, rfl⟩

/-! ## A reader with a limit -/

/-- What is kept of a text by a reader that keeps at most `limit` elements, and
whether the text was longer. -/
structure Kept (limit : Nat) (got kept : List α) (oversized : Bool) : Prop where
  kept_eq : kept = got.take limit
  oversized_eq : oversized = decide (limit < got.length)

namespace Kept

variable {limit : Nat} {kept : List α} {oversized : Bool}

theorem nil (limit : Nat) : Kept limit ([] : List α) [] false where
  kept_eq := List.take_nil.symm
  oversized_eq := by simp

/-- There is room for another element. -/
theorem push (h : Kept limit got kept oversized) (hroom : kept.length < limit) (element : α) :
    Kept limit (got ++ [element]) (kept ++ [element]) oversized := by
  have hlength : got.length < limit := by
    rw [h.kept_eq, List.length_take] at hroom
    omega
  constructor
  · rw [h.kept_eq, List.take_of_length_le (Nat.le_of_lt hlength), List.take_of_length_le]
    rw [List.length_append, List.length_singleton]
    exact hlength
  · rw [h.oversized_eq, List.length_append, List.length_singleton]
    simp only [decide_eq_decide]
    omega

/-- There is none. -/
theorem overflow (h : Kept limit got kept oversized) (hroom : ¬ kept.length < limit)
    (element : α) : Kept limit (got ++ [element]) kept true := by
  have hlength : limit ≤ got.length := by
    rw [h.kept_eq, List.length_take] at hroom
    omega
  constructor
  · rw [h.kept_eq, List.take_append_of_le_length hlength]
  · rw [List.length_append, List.length_singleton]
    simp only [true_eq_decide_iff]
    omega

/-- The reader has the text, unless it says that it has not. -/
theorem whole (h : Kept limit got kept oversized) (hfits : oversized = false) : kept = got := by
  have hlength : ¬ limit < got.length := by
    rw [h.oversized_eq] at hfits
    exact of_decide_eq_false hfits
  rw [h.kept_eq, List.take_of_length_le (by omega)]

end Kept

end Spaces.Library.Framing
