import Spaces.Library.Substring
import Spaces.Library.Text

/-!
# Line ends that are kept, and line ends that are replaced

`str.splitlines(keepends=True)` cuts a text without losing anything of it. Reading a file
in text mode does lose something: which of the line ends it had. A pattern that holds no
line end itself is in what was read if and only if it is in the file.
-/

namespace Spaces.Library.Text

variable {text line pattern : Text} {c : Char}

/-- The lines with their ends, the first of which begins with what was read already. -/
def keependsFrom (current : Text) : Text → List Text
  | [] => if current = [] then [] else [current]
  | '\r' :: '\n' :: rest => (current ++ ['\r', '\n']) :: keependsFrom [] rest
  | c :: rest =>
      if isLineBreak c then (current ++ [c]) :: keependsFrom [] rest
      else keependsFrom (current ++ [c]) rest

/-- `text.splitlines(keepends=True)` -/
def splitlinesKeepends (text : Text) : List Text := keependsFrom [] text

theorem flatten_keependsFrom (current text : Text) :
    (keependsFrom current text).flatten = current ++ text := by
  fun_induction keependsFrom current text with
  | case1 => rfl
  | case2 current hne => simp
  | case3 current rest ih => simp [ih]
  | case4 current c rest _ hbreak ih => simp [ih]
  | case5 current c rest _ hbreak ih => simp [ih]

theorem flatten_splitlinesKeepends (text : Text) : (splitlinesKeepends text).flatten = text :=
  flatten_keependsFrom [] text

theorem keependsFrom_unbroken (h : ∀ c ∈ line, isLineBreak c = false) (current rest : Text) :
    keependsFrom current (line ++ rest) = keependsFrom (current ++ line) rest := by
  induction line generalizing current with
  | nil => rw [List.nil_append, List.append_nil]
  | cons d line ih =>
      have hd := h d List.mem_cons_self
      rw [List.cons_append, keependsFrom.eq_3 _ _ _ (by rintro _ rfl; cases hd), hd,
        if_neg Bool.false_ne_true, ih (fun e he => h e (List.mem_cons_of_mem d he)),
        List.append_assoc, List.singleton_append]

theorem keependsFrom_break (h : isLineBreak c = true) (hc : c ≠ '\r') (current rest : Text) :
    keependsFrom current (c :: rest) = (current ++ [c]) :: keependsFrom [] rest := by
  rw [keependsFrom.eq_3 _ _ _ (by rintro _ rfl; exact absurd rfl hc), if_pos h]

/-! ## What reading replaces -/

theorem return_not_mem_universalNewlines (text : Text) : '\r' ∉ universalNewlines text := by
  fun_induction universalNewlines text with
  | case1 => exact List.not_mem_nil
  | case2 rest ih => simp [ih]
  | case3 rest _ ih => simp [ih]
  | case4 c rest _ hc ih =>
      rw [List.mem_cons, not_or]
      exact ⟨fun h => hc h.symm, ih⟩

theorem universalNewlines_cons (h : c ≠ '\r') (rest : Text) :
    universalNewlines (c :: rest) = c :: universalNewlines rest := by
  rw [universalNewlines.eq_4 _ _ (by rintro _ rfl; exact absurd rfl h)
    (by rintro rfl; exact absurd rfl h)]

/-- What is read of a part is part of what is read, if the next part cannot complete a
line end. -/
theorem universalNewlines_append (h : c ≠ '\n') (before rest : Text) :
    universalNewlines (before ++ c :: rest) =
      universalNewlines before ++ universalNewlines (c :: rest) := by
  fun_induction universalNewlines before with
  | case1 => rfl
  | case2 before ih => simp [universalNewlines, ih]
  | case3 before hbefore ih =>
      rw [List.cons_append, List.cons_append, ← ih]
      refine universalNewlines.eq_3 _ ?_
      intro later heq
      cases before with
      | nil =>
          cases heq
          exact h rfl
      | cons d before =>
          cases heq
          exact hbefore before rfl
  | case4 d before hbefore hd ih =>
      rw [List.cons_append, universalNewlines_cons hd, ih]
      rfl

theorem universalNewlines_unbroken (h : '\r' ∉ line) (rest : Text) :
    universalNewlines (line ++ rest) = line ++ universalNewlines rest := by
  induction line with
  | nil => rfl
  | cons d line ih =>
      rw [List.mem_cons, not_or] at h
      rw [List.cons_append, universalNewlines_cons (Ne.symm h.1), ih h.2]
      rfl

theorem eq_nil_of_begins (hpattern : c ∉ pattern) (h : pattern <+: c :: text) : pattern = [] := by
  cases pattern with
  | nil => rfl
  | cons d pattern =>
      rw [(List.cons_prefix_cons.mp h).1] at hpattern
      exact absurd List.mem_cons_self hpattern

theorem prefix_of_universalNewlines (hpattern : '\n' ∉ pattern)
    (h : pattern <+: universalNewlines text) : pattern <+: text := by
  fun_induction universalNewlines text generalizing pattern with
  | case1 => exact h
  | case2 rest ih =>
      rw [eq_nil_of_begins hpattern h]
      exact List.nil_prefix
  | case3 rest _ ih =>
      rw [eq_nil_of_begins hpattern h]
      exact List.nil_prefix
  | case4 c rest _ hc ih =>
      cases pattern with
      | nil => exact List.nil_prefix
      | cons d pattern =>
          rw [List.mem_cons, not_or] at hpattern
          rw [List.cons_prefix_cons] at h ⊢
          exact ⟨h.1, ih hpattern.2 h.2⟩

theorem infix_of_universalNewlines (hpattern : '\n' ∉ pattern)
    (h : pattern <:+: universalNewlines text) : pattern <:+: text := by
  fun_induction universalNewlines text with
  | case1 => exact h
  | case2 rest ih =>
      rcases List.infix_cons_iff.mp h with h | h
      · rw [eq_nil_of_begins hpattern h]
        exact List.nil_infix
      · exact (ih h).trans (List.suffix_append ['\r', '\n'] rest).isInfix
  | case3 rest _ ih =>
      rcases List.infix_cons_iff.mp h with h | h
      · rw [eq_nil_of_begins hpattern h]
        exact List.nil_infix
      · exact (ih h).trans (List.suffix_cons '\r' rest).isInfix
  | case4 c rest hfirst hc ih =>
      rcases List.infix_cons_iff.mp h with h | h
      · rw [← universalNewlines_cons (fun heq => hc heq)] at h
        exact (prefix_of_universalNewlines hpattern h).isInfix
      · exact (ih h).trans (List.suffix_cons c rest).isInfix

/-- A pattern without line ends is in what is read if and only if it is in the file. -/
theorem infix_universalNewlines_iff (hnewline : '\n' ∉ pattern) (hreturn : '\r' ∉ pattern) :
    pattern <:+: universalNewlines text ↔ pattern <:+: text := by
  constructor
  · exact infix_of_universalNewlines hnewline
  · rintro ⟨before, after, rfl⟩
    cases pattern with
    | nil => exact List.nil_infix
    | cons d pattern =>
        have hd : d ≠ '\n' := fun heq => hnewline (heq ▸ List.mem_cons_self)
        rw [List.append_assoc, List.cons_append, universalNewlines_append hd,
          ← List.cons_append, universalNewlines_unbroken hreturn, ← List.append_assoc]
        exact ⟨_, _, rfl⟩

end Spaces.Library.Text
