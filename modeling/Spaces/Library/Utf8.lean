import Spaces.Library.Text

/-!
# Texts as bytes

A character of ASCII is one byte, its number, and the bytes of any other are not ASCII.
Where a text is ASCII its characters may be counted for its bytes.
-/

namespace Spaces.Library.Text

variable {text : Text} {c : Char} {b : UInt8}

def utf8 (text : Text) : List UInt8 := text.flatMap String.utf8EncodeChar

/-- What the bytes are the text of, if they are UTF-8. -/
def decodeUtf8 (bytes : List UInt8) : Option Text :=
  (ByteArray.mk bytes.toArray).utf8Decode?.map Array.toList

theorem utf8_append (a b : Text) : utf8 (a ++ b) = utf8 a ++ utf8 b := List.flatMap_append

theorem le_or_right {k : Nat} (a b : UInt8) (h : k ≤ b.toNat) : k ≤ (a ||| b).toNat := by
  rw [UInt8.toNat_or]
  exact h.trans Nat.right_le_or

theorem high_of_mem_utf8EncodeChar (h : 128 ≤ c.toNat) (hb : b ∈ String.utf8EncodeChar c) :
    128 ≤ b.toNat := by
  have hne : c.utf8Size ≠ 1 := by
    intro hone
    have hle := UInt32.le_iff_toNat_le.mp (Char.utf8Size_eq_one_iff.mp hone)
    exact absurd (hle.trans_lt (by decide : (127 : UInt32).toNat < 128)) (Nat.not_lt.mpr h)
  rcases Char.utf8Size_eq c with hsize | hsize | hsize | hsize
  · exact absurd hsize hne
  · rw [String.utf8EncodeChar_eq_cons_cons hsize] at hb
    simp only [List.mem_cons, List.not_mem_nil, or_false] at hb
    rcases hb with rfl | rfl <;> exact le_or_right _ _ (by decide)
  · rw [String.utf8EncodeChar_eq_cons_cons_cons hsize] at hb
    simp only [List.mem_cons, List.not_mem_nil, or_false] at hb
    rcases hb with rfl | rfl | rfl <;> exact le_or_right _ _ (by decide)
  · rw [String.utf8EncodeChar_eq_cons_cons_cons_cons hsize] at hb
    simp only [List.mem_cons, List.not_mem_nil, or_false] at hb
    rcases hb with rfl | rfl | rfl | rfl <;> exact le_or_right _ _ (by decide)

/-- All characters are of one byte. -/
def Ascii (text : Text) : Prop := ∀ c ∈ text, c.utf8Size = 1

theorem Ascii.encodedLength_eq (h : Ascii text) : encodedLength text = text.length := by
  induction text with
  | nil => rfl
  | cons c rest ih =>
      rw [encodedLength, h c List.mem_cons_self, ih (fun d hd => h d (List.mem_cons_of_mem c hd)),
        List.length_cons, Nat.add_comm]

theorem Ascii.encodedTake_eq (h : Ascii text) (n : Nat) : encodedTake n text = text.take n := by
  induction text generalizing n with
  | nil =>
      rw [List.take_nil]
      cases n <;> rfl
  | cons c rest ih =>
      rw [encodedTake, h c List.mem_cons_self]
      cases n with
      | zero => rfl
      | succ n =>
          rw [if_pos (Nat.le_add_left 1 n), Nat.add_sub_cancel,
            ih (fun d hd => h d (List.mem_cons_of_mem c hd)), List.take_succ_cons]

end Spaces.Library.Text
