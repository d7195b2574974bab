import Spaces.Computer.Compaction

/-!
# What covering a text means

An aggregate gives its own text in parts, and its children must read like these parts
in their order, the first one at the front and, unless the text goes on, the last one at
the end. `childTextCovers` looks for each part at its first occurrence. A later one would
leave less text for the parts that come after it, so looking no further loses nothing:
what the earlier choice leaves over goes into the next gap, or into the tail.

The last part of a text that does not go on is the one that has no gap after it. It is
not looked for but compared with the end, behind whatever the search has passed.
-/

namespace Spaces.Computer.Accessibility

open Spaces.Library

variable {textPartial : Bool} {part back text : Text} {parts : List Text}

/-- Each part after a gap of its own. -/
def gapped (gaps parts : List Text) : Text := (List.zipWith (· ++ ·) gaps parts).flatten

theorem gapped_cons (gap part : Text) (gaps parts : List Text) :
    gapped (gap :: gaps) (part :: parts) = gap ++ part ++ gapped gaps parts := rfl

/-- The text is the parts in order, a gap before each of them and then a tail, which is
empty unless the text goes on. -/
def Gapped (textPartial : Bool) (parts : List Text) (text : Text) : Prop :=
  ∃ gaps tail, gaps.length = parts.length ∧ (textPartial = true ∨ tail = []) ∧
    text = gapped gaps parts ++ tail

/-- The text is `p0 g1 p1 … gn pn` and a tail. -/
def Covers (textPartial : Bool) (parts : List Text) (text : Text) : Prop :=
  match parts with
  | [] => textPartial = true ∨ text = []
  | first :: rest =>
      ∃ gaps tail, gaps.length = rest.length ∧ (textPartial = true ∨ tail = []) ∧
        text = first ++ gapped gaps rest ++ tail

theorem gapped_nil_iff : Gapped textPartial [] text ↔ textPartial = true ∨ text = [] := by
  constructor
  · rintro ⟨gaps, tail, hgaps, htail, rfl⟩
    rw [List.length_eq_zero_iff.mp hgaps]
    exact htail
  · intro h
    exact ⟨[], text, rfl, h, rfl⟩

theorem gapped_cons_iff : Gapped textPartial (part :: parts) text ↔
    ∃ gap back, Gapped textPartial parts back ∧ text = gap ++ part ++ back := by
  constructor
  · rintro ⟨gaps, tail, hgaps, htail, rfl⟩
    cases gaps with
    | nil => cases hgaps
    | cons gap gaps =>
        refine ⟨gap, gapped gaps parts ++ tail, ⟨gaps, tail, ?_, htail, rfl⟩, ?_⟩
        · exact Nat.succ_inj.mp hgaps
        · rw [gapped_cons, List.append_assoc]
  · rintro ⟨gap, back, ⟨gaps, tail, hgaps, htail, rfl⟩, rfl⟩
    refine ⟨gap :: gaps, tail, congrArg (· + 1) hgaps, htail, ?_⟩
    rw [gapped_cons, List.append_assoc (gap ++ part)]

/-- Text put before the parts goes into the first gap, or into the tail if there is no
part and the text goes on. -/
theorem Gapped.extend (h : Gapped textPartial parts back)
    (hopen : parts ≠ [] ∨ textPartial = true) (front : Text) :
    Gapped textPartial parts (front ++ back) := by
  cases parts with
  | nil => exact gapped_nil_iff.mpr (.inl (hopen.resolve_left (fun hne => hne rfl)))
  | cons part parts =>
      obtain ⟨gap, rest, hrest, rfl⟩ := gapped_cons_iff.mp h
      exact gapped_cons_iff.mpr ⟨front ++ gap, rest, hrest, by simp only [List.append_assoc]⟩

/-- The last part, which no tail follows. -/
theorem gapped_last_iff : Gapped false [part] text ↔ part <:+ text := by
  rw [gapped_cons_iff]
  constructor
  · rintro ⟨gap, back, hback, rfl⟩
    have hnil : back = [] := (gapped_nil_iff.mp hback).resolve_left Bool.false_ne_true
    rw [hnil, List.append_nil]
    exact List.suffix_append gap part
  · rintro ⟨gap, rfl⟩
    exact ⟨gap, [], gapped_nil_iff.mpr (.inr rfl), (List.append_nil _).symm⟩

theorem afterPart_append (front part : Text) :
    ∀ back : Text, ∃ rest, afterPart part (front ++ part ++ back) = some rest ∧
      back <:+ rest := by
  induction front with
  | nil =>
      intro back
      cases part with
      | nil =>
          cases back with
          | nil => exact ⟨[], rfl, List.suffix_refl _⟩
          | cons c back => exact ⟨c :: back, by simp [afterPart], List.suffix_refl _⟩
      | cons c part => exact ⟨back, by simp [afterPart], List.suffix_refl _⟩
  | cons c front ih =>
      intro back
      obtain ⟨rest, hrest, hsuffix⟩ := ih back
      rw [List.cons_append, List.cons_append, afterPart]
      split
      · next hstart =>
          -- an occurrence further to the front leaves more text after it
          refine ⟨_, rfl, ?_⟩
          have hlength : part.length ≤ (c :: front ++ part).length := by
            simp only [List.length_append, List.length_cons]
            omega
          rw [← List.cons_append, ← List.cons_append, List.drop_append_of_le_length hlength]
          exact List.suffix_append _ _
      · exact ⟨rest, hrest, hsuffix⟩

theorem afterPart_eq_some {part text rest : Text} (h : afterPart part text = some rest) :
    ∃ front, text = front ++ part ++ rest := by
  induction text with
  | nil =>
      unfold afterPart at h
      split at h
      · next hpart => exact ⟨[], by rw [hpart, ← Option.some.inj h]; rfl⟩
      · cases h
  | cons c text ih =>
      unfold afterPart at h
      split at h
      · next hstart =>
          refine ⟨[], ?_⟩
          rw [← Option.some.inj h, List.nil_append]
          exact (List.prefix_iff_eq_append.mp (List.isPrefixOf_iff_prefix.mp hstart)).symm
      · obtain ⟨front, hfront⟩ := ih h
        exact ⟨c :: front, by rw [hfront]; rfl⟩

/-- The first occurrence of a part does as well as any other. -/
theorem gapped_cons_iff_afterPart (hopen : parts ≠ [] ∨ textPartial = true) :
    Gapped textPartial (part :: parts) text ↔
      ∃ rest, afterPart part text = some rest ∧ Gapped textPartial parts rest := by
  rw [gapped_cons_iff]
  constructor
  · rintro ⟨gap, back, hback, rfl⟩
    obtain ⟨rest, hrest, front, rfl⟩ := afterPart_append gap part back
    exact ⟨front ++ back, hrest, hback.extend hopen front⟩
  · rintro ⟨rest, hrest, hparts⟩
    obtain ⟨gap, rfl⟩ := afterPart_eq_some hrest
    exact ⟨gap, rest, hparts, rfl⟩

theorem coverParts_iff_gapped {parts : List Text} : ∀ {cursor : Text},
    coverParts textPartial parts cursor = true ↔ Gapped textPartial parts cursor := by
  induction parts with
  | nil =>
      intro cursor
      rw [gapped_nil_iff, coverParts, Bool.or_eq_true, decide_eq_true_eq]
  | cons part parts ih =>
      intro cursor
      rw [coverParts]
      by_cases hlast : (parts = [] && !textPartial) = true
      · -- nothing comes after the part
        rw [if_pos hlast]
        simp only [Bool.and_eq_true, decide_eq_true_eq, Bool.not_eq_true'] at hlast
        rw [hlast.1, hlast.2, gapped_last_iff]
        exact List.isSuffixOf_iff_suffix
      · rw [if_neg hlast]
        have hopen : parts ≠ [] ∨ textPartial = true := by
          simp only [Bool.and_eq_true, decide_eq_true_eq, Bool.not_eq_true', not_and,
            Bool.not_eq_false] at hlast
          exact (Classical.em (parts = [])).elim (fun h => .inr (hlast h)) .inl
        rw [gapped_cons_iff_afterPart hopen, Option.any_eq_true]
        exact exists_congr (fun rest => and_congr_right (fun _ => ih))

/-- The greedy search finds the parts whenever there is a way to place them. -/
theorem childTextCovers_iff_covers (parts : List Text) (textPartial : Bool) (text : Text) :
    childTextCovers parts textPartial text = true ↔ Covers textPartial parts text := by
  cases parts with
  | nil => rw [childTextCovers, Covers, Bool.or_eq_true, decide_eq_true_eq]
  | cons first rest =>
      rw [childTextCovers, Bool.and_eq_true, coverParts_iff_gapped, List.isPrefixOf_iff_prefix]
      constructor
      · rintro ⟨⟨back, rfl⟩, gaps, tail, hgaps, htail, hback⟩
        rw [List.drop_left] at hback
        exact ⟨gaps, tail, hgaps, htail, by rw [hback, List.append_assoc]⟩
      · rintro ⟨gaps, tail, hgaps, htail, rfl⟩
        rw [List.append_assoc, List.drop_left]
        exact ⟨List.prefix_append _ _, gaps, tail, hgaps, htail, rfl⟩

end Spaces.Computer.Accessibility
