import Mathlib.Data.List.DropRight
import Mathlib.Data.List.TakeWhile

/-!
# Text, as Python's `str` methods cut it

A text is the list of its characters. The functions keep Python's names and
follow its documentation: what counts as white space, which characters end a
line for `splitlines`, and that `open` reads every line end as `\n`. The lines
a reader of the file sees are another matter: those end at `\n` alone, and are
`lines`.
-/

namespace Spaces.Library

abbrev Text := List Char

namespace Text

/-- `str.isspace`, for one character. -/
def isSpace (c : Char) : Bool :=
  let n := c.toNat
  (9 ≤ n && n ≤ 13) || (28 ≤ n && n ≤ 32) || n == 0x85 || n == 0xa0 || n == 0x1680
    || (0x2000 ≤ n && n ≤ 0x200a) || n == 0x2028 || n == 0x2029 || n == 0x202f
    || n == 0x205f || n == 0x3000

def lstrip (text : Text) : Text := text.dropWhile isSpace
def rstrip (text : Text) : Text := text.rdropWhile isSpace
def strip (text : Text) : Text := rstrip (lstrip text)

/-- What the Unicode database says of a character. It is fixed here for ASCII
only. -/
structure Unicode where
  isalnum : Char → Bool
  isdigit : Char → Bool
  /-- The value `int` reads a digit as. There are digits it refuses. -/
  decimal : Char → Option Nat
  casefold : Char → Text
  isdigit_ascii : ∀ c, c.toNat < 128 → isdigit c = c.isDigit
  decimal_ascii : ∀ c, c.isDigit → decimal c = some (c.toNat - 48)

/-- The line boundaries of `str.splitlines`, but for `\r\n`. -/
def isLineBreak (c : Char) : Bool :=
  let n := c.toNat
  (10 ≤ n && n ≤ 13) || (28 ≤ n && n ≤ 30) || n == 0x85 || n == 0x2028 || n == 0x2029

/-- The lines of a text whose first line begins with what was read already. -/
def splitlinesFrom (current : Text) : Text → List Text
  | [] => if current = [] then [] else [current]
  | '\r' :: '\n' :: rest => current :: splitlinesFrom [] rest
  | c :: rest =>
      if isLineBreak c then current :: splitlinesFrom [] rest
      else splitlinesFrom (current ++ [c]) rest

def splitlines (text : Text) : List Text := splitlinesFrom [] text

/-- What `open` in text mode makes of the line ends of a file. -/
def universalNewlines : Text → Text
  | [] => []
  | '\r' :: '\n' :: rest => '\n' :: universalNewlines rest
  | '\r' :: rest => '\n' :: universalNewlines rest
  | c :: rest => c :: universalNewlines rest

/-- `text.split()` -/
def words (text : Text) : List Text := (text.splitOnP isSpace).filter (· ≠ [])

/-- `str.removesuffix`. -/
def removeSuffix {α : Type} [DecidableEq α] (suffix text : List α) : List α :=
  if suffix <:+ text then text.take (text.length - suffix.length) else text

/-- `str.removeprefix`. -/
def removePrefix {α : Type} [DecidableEq α] (start text : List α) : List α :=
  if start <+: text then text.drop start.length else text

/-- The length of the UTF-8 encoding of a text. -/
def encodedLength : Text → Nat
  | [] => 0
  | c :: rest => c.utf8Size + encodedLength rest

/-- What decoding makes of the first bytes of the encoding of a text, when the
bytes of a character that is cut in two are ignored. -/
def encodedTake : Nat → Text → Text
  | _, [] => []
  | n, c :: rest =>
      if c.utf8Size ≤ n then c :: encodedTake (n - c.utf8Size) rest else []

/-- The part before the first of a character, and the part after it. -/
def cut {α : Type} [DecidableEq α] (c : α) (text : List α) : Option (List α × List α) :=
  if c ∈ text then some (text.takeWhile (· ≠ c), (text.dropWhile (· ≠ c)).tail) else none

/-- The lines of a text for a reader that ends them at `\n`. -/
def lines (text : Text) : List Text := text.splitOn '\n'

/-- `"\n".join(...)` with a last `"\n"`. -/
def joinLines (ls : List Text) : Text := ['\n'].intercalate ls ++ ['\n']

def firstLine (text : Text) : Text := (lines text).head (List.splitOn_ne_nil _ _)
def laterLines (text : Text) : List Text := (lines text).tail

/-- What is so of the characters of a literal is so without a look at its bytes. -/
theorem of_literal (P : Text → Prop) {s : String} {text : Text} (h : s = String.ofList text)
    (hP : P text) : P s.toList := by
  rw [h, String.toList_ofList]
  exact hP

theorem encodedTake_isPrefix (n : Nat) (text : Text) : encodedTake n text <+: text := by
  fun_induction encodedTake n text with
  | case1 n => exact List.nil_prefix
  | case2 n c rest _ ih => exact List.cons_prefix_cons.mpr ⟨rfl, ih⟩
  | case3 n c rest _ => exact List.nil_prefix

theorem removeSuffix_isPrefix {α : Type} [DecidableEq α] (suffix text : List α) :
    removeSuffix suffix text <+: text := by
  unfold removeSuffix
  split
  · exact List.take_prefix _ _
  · exact List.prefix_refl text

@[simp]
theorem removeSuffix_append {α : Type} [DecidableEq α] (suffix text : List α) :
    removeSuffix suffix (text ++ suffix) = text := by
  unfold removeSuffix
  rw [if_pos (List.suffix_append text suffix), List.length_append, Nat.add_sub_cancel,
    List.take_left]

/-! ## What the cuts keep -/

theorem mem_strip {c : Char} {text : Text} (h : c ∈ strip text) : c ∈ text :=
  (List.dropWhile_sublist _).mem ((List.rdropWhile_prefix isSpace _).sublist.mem h)

theorem splitlinesFrom_unbroken (text current : Text)
    (hcurrent : ∀ c ∈ current, isLineBreak c = false) :
    ∀ line ∈ splitlinesFrom current text, ∀ c ∈ line, isLineBreak c = false := by
  fun_induction splitlinesFrom current text with
  | case1 => simp
  | case2 current hne =>
      intro line hline
      rw [List.mem_singleton] at hline
      rwa [hline]
  | case3 current rest ih =>
      intro line hline
      rcases List.mem_cons.mp hline with rfl | hline
      · exact hcurrent
      · exact ih (by simp) line hline
  | case4 current c rest _ hbreak ih =>
      intro line hline
      rcases List.mem_cons.mp hline with rfl | hline
      · exact hcurrent
      · exact ih (by simp) line hline
  | case5 current c rest _ hbreak ih =>
      refine ih ?_
      intro d hd
      rcases List.mem_append.mp hd with hd | hd
      · exact hcurrent d hd
      · rw [List.mem_singleton.mp hd]
        exact Bool.eq_false_iff.mpr hbreak

theorem isLineBreak_of_mem_splitlines {text line : Text} (h : line ∈ splitlines text) :
    ∀ c ∈ line, isLineBreak c = false :=
  splitlinesFrom_unbroken text [] (by simp) line h

theorem splitlines_unbroken {text line : Text} (h : line ∈ splitlines text) :
    '\n' ∉ line :=
  fun hmem => Bool.false_ne_true (isLineBreak_of_mem_splitlines h '\n' hmem).symm

/-! ## Words, and lines that hold no line boundary -/

theorem mem_of_mem_intercalate {sep : Text} {items : List Text} {c : Char}
    (h : c ∈ sep.intercalate items) : c ∈ sep ∨ ∃ item ∈ items, c ∈ item := by
  induction items with
  | nil => cases h
  | cons item items ih =>
      rcases eq_or_ne items [] with rfl | hitems
      · rw [List.intercalate_singleton] at h
        exact .inr ⟨item, List.mem_cons_self, h⟩
      · rw [List.intercalate_cons_of_ne_nil hitems] at h
        rcases List.mem_append.mp h with h | h
        · rcases List.mem_append.mp h with h | h
          · exact .inr ⟨item, List.mem_cons_self, h⟩
          · exact .inl h
        · rcases ih h with h | ⟨other, hother, h⟩
          · exact .inl h
          · exact .inr ⟨other, List.mem_cons_of_mem item hother, h⟩

/-- A word, what ends it, and the words of the rest. -/
theorem words_cons {sep : Char} (hsep : isSpace sep = true) {word : Text} (hne : word ≠ [])
    (h : ∀ c ∈ word, isSpace c = false) (rest : Text) :
    words (word ++ sep :: rest) = word :: words rest := by
  rw [words, List.splitOnP_append_cons_of_forall_mem h sep hsep,
    List.filter_cons_of_pos (by simpa using hne)]
  rfl

/-- The parts of a text hold what the text holds, but no separator. -/
theorem mem_of_mem_splitOnP {p : Char → Bool} {text part : Text}
    (h : part ∈ text.splitOnP p) {c : Char} (hc : c ∈ part) : c ∈ text ∧ p c = false := by
  induction text generalizing part with
  | nil =>
      rw [List.splitOnP_nil, List.mem_singleton] at h
      subst h
      cases hc
  | cons d text ih =>
      rw [List.splitOnP_cons_eq_if_modifyHead] at h
      split at h
      · rcases List.mem_cons.mp h with rfl | h
        · cases hc
        · exact (ih h hc).imp_left (List.mem_cons_of_mem d)
      · next hd =>
          cases hparts : text.splitOnP p with
          | nil => exact absurd hparts (List.splitOnP_ne_nil _ _)
          | cons first later =>
              rw [hparts] at h ih
              rcases List.mem_cons.mp h with rfl | h
              · rcases List.mem_cons.mp hc with rfl | hc
                · exact ⟨List.mem_cons_self, Bool.eq_false_iff.mpr hd⟩
                · exact (ih List.mem_cons_self hc).imp_left (List.mem_cons_of_mem d)
              · exact (ih (List.mem_cons_of_mem first h) hc).imp_left (List.mem_cons_of_mem d)

theorem isSpace_of_mem_words {text word : Text} (h : word ∈ words text) {c : Char}
    (hc : c ∈ word) : isSpace c = false :=
  (mem_of_mem_splitOnP (List.mem_filter.mp h).1 hc).2

theorem mem_of_mem_splitOn {sep : Char} {text part : Text} (h : part ∈ text.splitOn sep)
    {c : Char} (hc : c ∈ part) : c ∈ text ∧ c ≠ sep := by
  rw [List.splitOn_eq_splitOnP] at h
  have hmem := mem_of_mem_splitOnP h hc
  exact ⟨hmem.1, fun heq => by simpa [heq] using hmem.2⟩

theorem splitlinesFrom_cons {c : Char} (h : isLineBreak c = false) (current rest : Text) :
    splitlinesFrom current (c :: rest) = splitlinesFrom (current ++ [c]) rest := by
  rw [splitlinesFrom.eq_3 _ _ _ (by rintro _ rfl; cases h), h, if_neg Bool.false_ne_true]

theorem splitlinesFrom_break {c : Char} (h : isLineBreak c = true) (hc : c ≠ '\r')
    (current rest : Text) :
    splitlinesFrom current (c :: rest) = current :: splitlines rest := by
  rw [splitlinesFrom.eq_3 _ _ _ (by rintro _ rfl; exact absurd rfl hc), if_pos h]
  rfl

theorem splitlinesFrom_line {line : Text} (h : ∀ c ∈ line, isLineBreak c = false) {c : Char}
    (hbreak : isLineBreak c = true) (hc : c ≠ '\r') (current rest : Text) :
    splitlinesFrom current (line ++ c :: rest) = (current ++ line) :: splitlines rest := by
  induction line generalizing current with
  | nil => rw [List.nil_append, List.append_nil, splitlinesFrom_break hbreak hc]
  | cons d line ih =>
      rw [List.cons_append, splitlinesFrom_cons (h d List.mem_cons_self),
        ih (fun e he => h e (List.mem_cons_of_mem d he)), List.append_assoc,
        List.singleton_append]

/-- What stands before a `\n` does not change the lines behind it. -/
theorem splitlines_subset_append {before : Text} (h : '\r' ∉ before) (rest : Text) :
    splitlines rest ⊆ splitlines (before ++ '\n' :: rest) := by
  have hall : ∀ current, splitlines rest ⊆ splitlinesFrom current (before ++ '\n' :: rest) := by
    induction before with
    | nil =>
        intro current
        rw [List.nil_append, splitlinesFrom_break (by decide) (by decide)]
        exact List.subset_cons_self current _
    | cons d before ih =>
        rw [List.mem_cons, not_or] at h
        intro current
        rw [List.cons_append,
          splitlinesFrom.eq_3 _ _ _ (by rintro _ rfl; exact absurd rfl h.1)]
        split
        · exact List.subset_cons_of_subset current (ih h.2 [])
        · exact ih h.2 _
  exact hall []

/-- Lines that each end in `\n` are split at their ends. -/
theorem splitlines_terminated {items : List Text}
    (h : ∀ item ∈ items, ∀ c ∈ item, isLineBreak c = false) :
    splitlines (items.flatMap (· ++ ['\n'])) = items := by
  induction items with
  | nil => rfl
  | cons item items ih =>
      rw [List.flatMap_cons, List.append_assoc, List.singleton_append, splitlines,
        splitlinesFrom_line (h item List.mem_cons_self) (by decide) (by decide),
        List.nil_append,
        ih fun i hi => h i (List.mem_cons_of_mem item hi)]

theorem universalNewlines_eq {text : Text} (h : '\r' ∉ text) :
    universalNewlines text = text := by
  induction text with
  | nil => rfl
  | cons c rest ih =>
      rw [List.mem_cons, not_or] at h
      rw [universalNewlines.eq_4 _ _ (by rintro _ rfl; exact absurd rfl h.1)
        (by rintro rfl; exact absurd rfl h.1), ih h.2]

theorem isSpace_of_isLineBreak {c : Char} (h : isLineBreak c = true) : isSpace c = true := by
  unfold isLineBreak at h
  unfold isSpace
  grind

/-- The parts of a cut are parts of the text, and the first is without the
character. -/
theorem cut_eq_some {α : Type} [DecidableEq α] {c : α} {text before after : List α}
    (h : cut c text = some (before, after)) :
    text = before ++ c :: after ∧ c ∉ before := by
  unfold cut at h
  split at h
  · next hmem =>
      cases h
      refine ⟨?_, fun hin => ?_⟩
      · have hne : text.dropWhile (· ≠ c) ≠ [] := by
          rw [Ne, List.dropWhile_eq_nil_iff]
          intro hall
          simpa using hall c hmem
        have hhead : (text.dropWhile (· ≠ c)).head hne = c := by
          simpa using List.head_dropWhile_not (· ≠ c) hne
        calc text
            = text.takeWhile (· ≠ c) ++ text.dropWhile (· ≠ c) :=
              List.takeWhile_append_dropWhile.symm
          _ = text.takeWhile (· ≠ c)
                ++ (text.dropWhile (· ≠ c)).head hne :: (text.dropWhile (· ≠ c)).tail := by
              rw [List.cons_head_tail]
          _ = text.takeWhile (· ≠ c) ++ c :: (text.dropWhile (· ≠ c)).tail := by
              rw [hhead]
      · simpa using List.mem_takeWhile_imp hin
  · cases h

@[simp]
theorem cut_append_cons {α : Type} [DecidableEq α] {c : α} {before : List α} (h : c ∉ before)
    (after : List α) :
    cut c (before ++ c :: after) = some (before, after) := by
  have hall : ∀ b ∈ before, (decide (b ≠ c)) = true := fun b hb =>
    decide_eq_true fun heq => h (heq ▸ hb)
  unfold cut
  rw [if_pos (by simp), List.takeWhile_append_of_pos hall, List.dropWhile_append_of_pos hall]
  simp

/-- Every line that was written is read back as its own lines, and what ends
the text is one empty line. -/
theorem lines_joinLines {ls : List Text} (h : ls ≠ []) :
    lines (joinLines ls) = ls.flatMap lines ++ [[]] := by
  unfold joinLines
  induction ls with
  | nil => exact absurd rfl h
  | cons l ls ih =>
      cases ls with
      | nil =>
          simp only [List.intercalate_singleton, List.flatMap_cons, List.flatMap_nil,
            List.append_nil]
          exact List.splitOn_append_cons_self l []
      | cons m ms =>
          rw [List.intercalate_cons_cons, List.append_assoc, List.append_assoc,
            List.flatMap_cons, List.append_assoc, ← ih (List.cons_ne_nil m ms)]
          exact List.splitOn_append_cons_self l _

/-- A list with an end mark after every item. -/
theorem splitOn_terminated {c : Char} {items : List Text} (h : ∀ item ∈ items, c ∉ item) :
    (items.flatMap (· ++ [c])).splitOn c = items ++ [[]] := by
  induction items with
  | nil => rfl
  | cons item items ih =>
      rw [List.flatMap_cons, List.append_assoc, List.singleton_append,
        List.splitOn_append_cons_self_of_not_mem (h item List.mem_cons_self),
        ih fun i hi => h i (List.mem_cons_of_mem item hi), List.cons_append]

theorem lines_eq_singleton {text : Text} (h : '\n' ∉ text) : lines text = [text] :=
  List.splitOn_eq_singleton h

theorem lines_eq (text : Text) : lines text = firstLine text :: laterLines text :=
  (List.cons_head_tail _).symm

/-- What stands before a text goes into the first of its lines. -/
theorem lines_append {before : Text} (h : '\n' ∉ before) (text : Text) :
    lines (before ++ text) = (before ++ firstLine text) :: laterLines text := by
  induction before with
  | nil => exact lines_eq text
  | cons c before ih =>
      have hc : c ≠ '\n' := fun heq => h (heq ▸ List.mem_cons_self)
      have hstep : lines (c :: (before ++ text))
          = (lines (before ++ text)).modifyHead (List.cons c) := by
        unfold lines
        rw [List.splitOn_cons_eq_if_modifyHead, if_neg (by simpa using hc)]
      rw [List.cons_append, hstep, ih (fun hmem => h (List.mem_cons_of_mem c hmem))]
      rfl

@[simp]
theorem firstLine_eq {text : Text} (h : '\n' ∉ text) : firstLine text = text := by
  simp only [firstLine, lines_eq_singleton h, List.head_cons]

@[simp]
theorem laterLines_eq {text : Text} (h : '\n' ∉ text) : laterLines text = [] := by
  simp only [laterLines, lines_eq_singleton h, List.tail_cons]

theorem mem_of_mem_lines {text line : Text} (h : line ∈ lines text) {c : Char}
    (hc : c ∈ line) : c ∈ text :=
  (mem_of_mem_splitOn h hc).1

theorem isSpace_of_isDigit {c : Char} (h : c.isDigit = true) : isSpace c = false := by
  have hrange : 48 ≤ c.toNat ∧ c.toNat ≤ 57 := by
    simpa [Char.isDigit, UInt32.le_iff_toNat_le] using h
  unfold isSpace
  grind

theorem isSpace_toDigits (n : Nat) : ∀ c ∈ Nat.toDigits 10 n, isSpace c = false :=
  fun _ hc => isSpace_of_isDigit (Nat.isDigit_of_mem_toDigits (by omega) (by omega) hc)

/-- What is no digit is not in the text of a number. -/
theorem not_mem_toDigits {c : Char} (hc : c.isDigit = false) (n : Nat) :
    c ∉ Nat.toDigits 10 n := fun hmem => by
  have := Nat.isDigit_of_mem_toDigits (by omega) (by omega) hmem
  rw [hc] at this
  cases this

end Text

end Spaces.Library
