import Spaces.Library.Joined
import Spaces.Library.Text

/-!
# Well-known names of the message bus

The bus takes a name of two elements or more, joined by full stops, of 255
characters at most. An element is made of ASCII letters, digits, `_` and `-`, and
does not begin with a digit.

A program that makes an element out of what it is given puts a letter before a
digit. It then makes one element out of two texts where the letter was there
already.
-/

namespace Spaces.Library

namespace BusName

def isElementChar (c : Char) : Bool := c.isAlphanum || c == '_' || c == '-'

def isElement : Text → Bool
  | [] => false
  | c :: rest => !c.isDigit && (c :: rest).all isElementChar

/-- Elements joined by full stops. -/
def isDotted (name : Text) : Bool := (name.splitOn '.').all isElement

def isWellKnown (name : Text) : Bool :=
  isDotted name && decide (2 ≤ (name.splitOn '.').length) && decide (name.length ≤ 255)

theorem not_mem_of_all {text : Text} (h : text.all isElementChar = true) : '.' ∉ text := by
  intro hmem
  exact absurd (List.all_eq_true.mp h '.' hmem) (by decide)

theorem isElement_cons {first : Char} {rest : Text} (hfirst : first.isDigit = false)
    (hall : (first :: rest).all isElementChar = true) : isElement (first :: rest) = true := by
  rw [isElement, hfirst, hall]
  rfl

theorem all_of_isElement {text : Text} (h : isElement text = true) :
    text.all isElementChar = true := by
  cases text with
  | nil => rfl
  | cons c rest => exact (Bool.and_eq_true_iff.mp h).2

theorem isDotted_of_isElement {text : Text} (h : isElement text = true) :
    isDotted text = true := by
  rw [isDotted, List.splitOn_eq_singleton (not_mem_of_all (all_of_isElement h))]
  simp [h]

theorem isDotted_append {a b : Text} (ha : isDotted a = true) (hb : isDotted b = true) :
    isDotted (a ++ '.' :: b) = true := by
  rw [isDotted, List.splitOn_append_cons_self, List.all_append]
  exact Bool.and_eq_true_iff.mpr ⟨ha, hb⟩

theorem isWellKnown_append {a b : Text} (ha : isDotted a = true) (hb : isDotted b = true) :
    isWellKnown (a ++ '.' :: b) = true ↔ (a ++ '.' :: b).length ≤ 255 := by
  have htwo : 2 ≤ ((a ++ '.' :: b).splitOn '.').length := by
    have hleft := List.length_pos_of_ne_nil (List.splitOn_ne_nil '.' a)
    have hright := List.length_pos_of_ne_nil (List.splitOn_ne_nil '.' b)
    rw [List.splitOn_append_cons_self, List.length_append]
    omega
  simp [isWellKnown, isDotted_append ha hb, htwo]

/-! ## A letter before a digit -/

def beginsWithDigit (text : Text) : Bool := text.head?.any Char.isDigit

/-- An `s` is put before a digit. -/
def lead (text : Text) : Text := if beginsWithDigit text then 's' :: text else text

theorem lead_append {a : Text} (h : a ≠ []) (b : Text) : lead (a ++ b) = lead a ++ b := by
  have hsame : beginsWithDigit (a ++ b) = beginsWithDigit a := by
    rw [beginsWithDigit, List.head?_append_of_ne_nil a h]
    rfl
  rw [lead, lead, hsame]
  split
  · rfl
  · rfl

theorem length_lead (text : Text) :
    (lead text).length = text.length + (beginsWithDigit text).toNat := by
  unfold lead
  cases beginsWithDigit text with
  | true => rfl
  | false => rfl

theorem beginsWithDigit_lead (text : Text) : beginsWithDigit (lead text) = false := by
  unfold lead
  split
  · rfl
  · next h => exact Bool.eq_false_iff.mpr h

/-- One text leads to another where the letter was there already. -/
theorem lead_eq_iff {a b : Text} : lead a = lead b ↔
    a = b ∨ (beginsWithDigit a = true ∧ b = 's' :: a) ∨
      (beginsWithDigit b = true ∧ a = 's' :: b) := by
  constructor
  · intro h
    unfold lead at h
    split at h
    · next ha =>
        split at h
        · exact .inl (List.cons.inj h).2
        · exact .inr (.inl ⟨ha, h.symm⟩)
    · split at h
      · next hb => exact .inr (.inr ⟨hb, h⟩)
      · exact .inl h
  · rintro (rfl | ⟨ha, rfl⟩ | ⟨hb, rfl⟩)
    · rfl
    · rw [lead, if_pos ha]
      rfl
    · rw [lead, lead, if_pos hb]
      rfl

theorem isElement_lead {text : Text} (h : text ≠ []) (hall : text.all isElementChar = true) :
    isElement (lead text) = true := by
  have hbegins := beginsWithDigit_lead text
  have hled : (lead text).all isElementChar = true := by
    unfold lead
    split
    · rw [List.all_cons, hall]
      rfl
    · exact hall
  cases hlead : lead text with
  | nil =>
      unfold lead at hlead
      split at hlead
      · cases hlead
      · exact absurd hlead h
  | cons c rest =>
      rw [hlead] at hbegins hled
      exact isElement_cons hbegins hled

end BusName

end Spaces.Library
