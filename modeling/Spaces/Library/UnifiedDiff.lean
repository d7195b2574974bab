import Mathlib.Algebra.GroupWithZero.Nat
import Mathlib.Data.Option.Basic
import Spaces.Library.Text

/-!
# Unified diffs without context

Hunks, what they make of a list of rows, and their text. A range of a header is
the number of its first row and how many rows it has. Rows are numbered from one,
a count that is left out is one, and a range without rows names the row before it.

A reader holds every coordinate against the rows: a hunk stands where both its
ranges say, and it takes away only rows that are there.
-/

namespace Spaces.Library.UnifiedDiff

/-- Where a range begins, as a number of rows before it. -/
def position (start count : Nat) : Option Nat :=
  if count = 0 then some start else if start = 0 then none else some (start - 1)

structure Hunk (α : Type) where
  oldStart : Nat
  newStart : Nat
  removed : List α
  added : List α
  deriving DecidableEq

/-! ## Application -/

section

variable {α : Type} [DecidableEq α]

/-- What the hunks make of the rows that follow the first `oldAt` of the one text
and the first `newAt` of the other. -/
def apply : Nat → Nat → List (Hunk α) → List α → Option (List α)
  | _, _, [], rows => some rows
  | oldAt, newAt, hunk :: hunks, rows => do
      let oldIndex ← position hunk.oldStart hunk.removed.length
      let newIndex ← position hunk.newStart hunk.added.length
      let kept := oldIndex - oldAt
      guard (oldAt ≤ oldIndex ∧ kept ≤ rows.length ∧ newAt + kept = newIndex)
      guard (hunk.removed <+: rows.drop kept)
      let rest ← apply (oldIndex + hunk.removed.length) (newIndex + hunk.added.length) hunks
        (rows.drop (kept + hunk.removed.length))
      pure (rows.take kept ++ hunk.added ++ rest)

def removedCount (hunks : List (Hunk α)) : Nat := (hunks.map (·.removed.length)).sum
def addedCount (hunks : List (Hunk α)) : Nat := (hunks.map (·.added.length)).sum

/-- A hunk whose ranges name the place at which it stands. -/
structure Hunk.At (hunk : Hunk α) (oldIndex newIndex : Nat) : Prop where
  old : position hunk.oldStart hunk.removed.length = some oldIndex
  new : position hunk.newStart hunk.added.length = some newIndex

theorem apply_cons {oldAt newAt : Nat} {hunk : Hunk α} {hunks : List (Hunk α)}
    {kept rows rest : List α} (hat : hunk.At (oldAt + kept.length) (newAt + kept.length))
    (hrest : apply (oldAt + kept.length + hunk.removed.length)
      (newAt + kept.length + hunk.added.length) hunks rows = some rest) :
    apply oldAt newAt (hunk :: hunks) (kept ++ hunk.removed ++ rows) =
      some (kept ++ hunk.added ++ rest) := by
  have hkept : oldAt + kept.length - oldAt = kept.length := Nat.add_sub_cancel_left ..
  have hdrop : (kept ++ hunk.removed ++ rows).drop (kept.length + hunk.removed.length) = rows := by
    rw [← List.length_append, List.drop_left]
  rw [apply, hat.old, hat.new]
  dsimp only [Option.bind_eq_bind, Option.bind_some]
  rw [hkept, hdrop, hrest, List.append_assoc kept, List.drop_left, List.take_left]
  rw [guard, if_pos ⟨Nat.le_add_right .., by simp, rfl⟩]
  rw [guard, if_pos (List.prefix_append _ _)]
  rfl

end

/-! ## Text -/

def number (text : Text) : Option Nat :=
  if text ≠ [] ∧ text.all Char.isDigit then some (Nat.ofDigitChars 10 text 0) else none

def range (text : Text) : Option (Nat × Nat) :=
  match text.splitOn ',' with
  | [start] => do pure (← number start, 1)
  | [start, count] => do pure (← number start, ← number count)
  | _ => none

def header (row : Text) : Option ((Nat × Nat) × (Nat × Nat)) :=
  match row.splitOn ' ' with
  | [['@', '@'], '-' :: old, '+' :: new, ['@', '@']] => do pure (← range old, ← range new)
  | _ => none

/-- As many rows with a mark, and the rows after them. -/
def marked (mark : Char) : Nat → List Text → Option (List Text × List Text)
  | 0, rows => some ([], rows)
  | n + 1, (c :: row) :: rows =>
      if c = mark then (marked mark n rows).map fun (found, rest) => (row :: found, rest)
      else none
  | _ + 1, _ => none

/-- The hunks of a list of rows. Each takes its header at least, so that there are
no more of them than rows. -/
def hunks : Nat → List Text → Option (List (Hunk Text))
  | _, [] => some []
  | 0, _ :: _ => none
  | fuel + 1, row :: rows => do
      let (old, new) ← header row
      let (removed, rows) ← marked '-' old.2 rows
      let (added, rows) ← marked '+' new.2 rows
      let rest ← hunks fuel rows
      pure (⟨old.1, new.1, removed, added⟩ :: rest)

/-- The rows of a text in which each ends with a newline. -/
def rows (text : Text) : List Text := text.lines.dropLast

def unrows (rows : List Text) : Text := rows.flatMap (· ++ ['\n'])

def parse (diff : Text) : Option (List (Hunk Text)) := hunks (rows diff).length (rows diff)

/-- A text after a diff, in the diff's own text. -/
def patch (previous diff : Text) : Option Text := do
  let hunks ← parse diff
  let rows ← apply 0 0 hunks (rows previous)
  pure (unrows rows)

theorem rows_unrows {texts : List Text} (h : ∀ text ∈ texts, '\n' ∉ text) :
    rows (unrows texts) = texts := by
  unfold rows unrows Text.lines
  rw [Text.splitOn_terminated h, List.dropLast_concat]

/-- Every text is rows that end, and what stands after the last of them. -/
theorem exists_unrows_append (text : Text) :
    ∃ texts last, (∀ row ∈ texts, '\n' ∉ row) ∧ '\n' ∉ last ∧ text = unrows texts ++ last := by
  induction text with
  | nil => exact ⟨[], [], by simp, by simp, rfl⟩
  | cons c text ih =>
      obtain ⟨texts, last, hrows, hlast, rfl⟩ := ih
      by_cases hc : c = '\n'
      · refine ⟨[] :: texts, last, ?_, hlast, by simp [unrows, hc]⟩
        intro row hrow
        rcases List.mem_cons.mp hrow with rfl | hrow
        · exact List.not_mem_nil
        · exact hrows row hrow
      · -- The character goes before what comes first.
        have hne : '\n' ≠ c := fun heq => hc heq.symm
        cases texts with
        | nil => exact ⟨[], c :: last, by simp, by simp [hne, hlast], rfl⟩
        | cons first texts =>
            refine ⟨(c :: first) :: texts, last, ?_, hlast, by simp [unrows]⟩
            intro row hrow
            rcases List.mem_cons.mp hrow with rfl | hrow
            · have := hrows first List.mem_cons_self
              simp [hne, this]
            · exact hrows row (List.mem_cons_of_mem first hrow)

/-- A text that is empty or ends with a newline. -/
def Terminated (text : Text) : Prop := text = [] ∨ text.getLast? = some '\n'

theorem Terminated.exists_unrows {text : Text} (h : Terminated text) :
    ∃ texts, (∀ row ∈ texts, '\n' ∉ row) ∧ text = unrows texts := by
  obtain ⟨texts, last, hrows, hlast, rfl⟩ := exists_unrows_append text
  refine ⟨texts, hrows, ?_⟩
  rcases h with h | h
  · rw [(List.append_eq_nil_iff.mp h).2, List.append_nil]
  · rcases eq_or_ne last [] with rfl | hne
    · rw [List.append_nil]
    · rw [List.getLast?_append_of_ne_nil _ hne] at h
      exact absurd (List.mem_of_getLast? h) hlast

@[simp]
theorem number_toDigits (n : Nat) : number (Nat.toDigits 10 n) = some n := by
  unfold number
  rw [if_pos, Nat.ofDigitChars_ten_toDigits]
  refine ⟨Nat.toDigits_ne_nil, ?_⟩
  rw [List.all_eq_true]
  exact fun c hc => Nat.isDigit_of_mem_toDigits (by omega) (by omega) hc

theorem range_start (start : Nat) : range (Nat.toDigits 10 start) = some (start, 1) := by
  unfold range
  rw [List.splitOn_eq_singleton (Text.not_mem_toDigits (by decide) start)]
  simp

theorem range_both (start count : Nat) :
    range (Nat.toDigits 10 start ++ ',' :: Nat.toDigits 10 count) = some (start, count) := by
  unfold range
  rw [List.splitOn_append_cons_self_of_not_mem (Text.not_mem_toDigits (by decide) start),
    List.splitOn_eq_singleton (Text.not_mem_toDigits (by decide) count)]
  simp

theorem header_of_ranges {old new : Text} {oldRange newRange : Nat × Nat} (ho : ' ' ∉ old)
    (hn : ' ' ∉ new) (hold : range old = some oldRange) (hnew : range new = some newRange) :
    header (['@', '@', ' ', '-'] ++ old ++ [' ', '+'] ++ new ++ [' ', '@', '@']) =
      some (oldRange, newRange) := by
  have hsplit : (['@', '@', ' ', '-'] ++ old ++ [' ', '+'] ++ new ++ [' ', '@', '@']).splitOn ' '
      = [['@', '@'], '-' :: old, '+' :: new, ['@', '@']] := by
    have hfirst : ['@', '@', ' ', '-'] ++ old ++ [' ', '+'] ++ new ++ [' ', '@', '@']
        = ['@', '@'] ++ ' ' :: (('-' :: old) ++ ' ' :: (('+' :: new) ++ ' ' :: ['@', '@'])) := by
      simp
    rw [hfirst, List.splitOn_append_cons_self_of_not_mem (by decide),
      List.splitOn_append_cons_self_of_not_mem (by simpa using ho),
      List.splitOn_append_cons_self_of_not_mem (by simpa using hn),
      List.splitOn_eq_singleton (by decide)]
  unfold header
  rw [hsplit]
  simp [hold, hnew]

@[simp]
theorem marked_map (mark : Char) (found rest : List Text) :
    marked mark found.length (found.map (mark :: ·) ++ rest) = some (found, rest) := by
  induction found with
  | nil => rfl
  | cons row found ih =>
      rw [List.length_cons, List.map_cons, List.cons_append, marked, if_pos rfl, ih]
      rfl

/-- A hunk's rows behind a header that names its ranges. -/
theorem hunks_cons {fuel : Nat} {row : Text} {hunk : Hunk Text} {rest : List Text}
    {later : List (Hunk Text)}
    (hrow : header row =
      some ((hunk.oldStart, hunk.removed.length), (hunk.newStart, hunk.added.length)))
    (hrest : hunks fuel rest = some later) :
    hunks (fuel + 1)
      (row :: (hunk.removed.map ('-' :: ·) ++ (hunk.added.map ('+' :: ·) ++ rest))) =
        some (hunk :: later) := by
  rw [hunks, hrow]
  simp [hrest]

theorem hunks_mono {fuel more : Nat} {rows : List Text} {found : List (Hunk Text)}
    (h : hunks fuel rows = some found) (hle : fuel ≤ more) : hunks more rows = some found := by
  induction fuel generalizing more rows found with
  | zero =>
      cases rows with
      | nil => simpa [hunks] using h
      | cons row rows => cases h
  | succ fuel ih =>
      cases rows with
      | nil => simpa [hunks] using h
      | cons row rows =>
          obtain ⟨more, rfl⟩ := Nat.exists_eq_add_of_le' (Nat.lt_of_lt_of_le fuel.succ_pos hle)
          rw [hunks] at h ⊢
          simp only [Option.bind_eq_bind, Option.bind_eq_some_iff] at h ⊢
          obtain ⟨ranges, hranges, removed, hremoved, added, hadded, later, hlater, hfound⟩ := h
          exact ⟨ranges, hranges, removed, hremoved, added, hadded, later,
            ih hlater (by omega), hfound⟩

end Spaces.Library.UnifiedDiff
