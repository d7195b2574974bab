import Spaces.Library.Subsequence
import Spaces.Library.UnifiedDiff

/-!
# Tree diffs

An accessibility tree is rendered to rows, and a client that has the last rendering
is sent the rows that changed. The rows in which both renderings begin and end are
set aside; for the others a table of longest common subsequences says, at every pair
of places, which side loses less by going on.

A text is its characters, and the widths of the counters are not modelled: a table
of more than six million entries is never made. Whether memory is given for a table
is an input.
-/

namespace Spaces.Computer.TreeDiff

open Spaces.Library

/-! ## The function -/

/-- `g_strsplit` at newlines: an empty text has no parts. -/
def strsplit (text : Text) : List Text := if text = [] then [] else text.splitOn '\n'

def treeRows (text : Text) : List Text :=
  let parts := strsplit text
  if parts.getLast? = some [] then parts.dropLast else parts

/-- How many rows both lists begin with. -/
def commonRows : List Text → List Text → Nat
  | o :: old, n :: now => if o = n then commonRows old now + 1 else 0
  | _, _ => 0

/-- The entries for one old row, from the entries for the next. The last is for the
place after all new rows. -/
def lcsRow (o : Text) : List Text → List UInt32 → List UInt32
  | [], _ => [0]
  | n :: now, below =>
      let right := lcsRow o now below.tail
      (if o = n then 1 + below.tail.headD 0 else max (below.headD 0) (right.headD 0)) :: right

def lcsTable : List Text → List Text → List (List UInt32)
  | [], now => [List.replicate (now.length + 1) 0]
  | o :: old, now =>
      let rest := lcsTable old now
      lcsRow o now (rest.headD []) :: rest

def entry (table : List (List UInt32)) (i j : Nat) : UInt32 := (table.getD i []).getD j 0

/-- The rows of one hunk: what is taken away and what is added from a place on, until
the rows there are the same. -/
def hunkLoop (lcs : Nat → Nat → UInt32) (i j : Nat) : List Text → List Text →
    List Text × List Text
  | o :: old, n :: now =>
      if o = n then ([], [])
      else if lcs (i + 1) j ≥ lcs i (j + 1) then
        let (removed, added) := hunkLoop lcs (i + 1) j old (n :: now)
        (o :: removed, added)
      else
        let (removed, added) := hunkLoop lcs i (j + 1) (o :: old) now
        (removed, n :: added)
  | o :: old, [] =>
      let (removed, added) := hunkLoop lcs (i + 1) j old []
      (o :: removed, added)
  | [], n :: now =>
      let (removed, added) := hunkLoop lcs i (j + 1) [] now
      (removed, n :: added)
  | [], [] => ([], [])
termination_by old now => old.length + now.length

def treeDiffRange (start count : Nat) : Text :=
  Nat.toDigits 10 (start + if count ≠ 0 then 1 else 0) ++
    if count ≠ 1 then ',' :: Nat.toDigits 10 count else []

def hunkText (oldAt newAt : Nat) (removed added : List Text) : Text :=
  ['@', '@', ' ', '-'] ++ treeDiffRange oldAt removed.length
    ++ [' ', '+'] ++ treeDiffRange newAt added.length
    ++ [' ', '@', '@'] ++ ['\n']
    ++ removed.flatMap (fun row => '-' :: row ++ ['\n'])
    ++ added.flatMap (fun row => '+' :: row ++ ['\n'])

/-- Each turn takes a row at least. -/
def walkLoop (lcs : Nat → Nat → UInt32) (before : Nat) : Nat → Nat → Nat → List Text →
    List Text → Text
  | 0, _, _, _, _ => []
  | fuel + 1, i, j, old, now =>
      if old = [] ∧ now = [] then []
      else if old ≠ [] ∧ old.head? = now.head? then
        walkLoop lcs before fuel (i + 1) (j + 1) old.tail now.tail
      else
        let (removed, added) := hunkLoop lcs i j old now
        hunkText (before + i) (before + j) removed added ++
          walkLoop lcs before fuel (i + removed.length) (j + added.length)
            (old.drop removed.length) (now.drop added.length)

def treeDiff (allocated : Nat → Bool) (previous current unchangedText : Text) : Option Text :=
  if previous = current then some unchangedText
  else
    let old := treeRows previous
    let now := treeRows current
    let before := commonRows old now
    let after := commonRows (old.drop before).reverse (now.drop before).reverse
    let n := old.length - before - after
    let m := now.length - before - after
    if n ≠ 0 ∧ m > 6000000 / n then none
    else if allocated ((n + 1) * (m + 1)) = false then none
    else
      let oldPart := (old.drop before).take n
      let newPart := (now.drop before).take m
      let lcs := entry (lcsTable oldPart newPart)
      let out := walkLoop lcs before (n + m) 0 0 oldPart newPart
      if 5 * out.length ≤ 3 * current.length then some out else none

/-! ## The table -/

theorem toNat_max (a b : UInt32) : (max a b).toNat = max a.toNat b.toNat := by
  change (if a ≤ b then b else a).toNat = _
  split
  · next h => rw [Nat.max_eq_right (UInt32.le_iff_toNat_le.mp h)]
  · next h => rw [Nat.max_eq_left (Nat.le_of_not_le fun hle => h (UInt32.le_iff_toNat_le.mpr hle))]

theorem lcsLength_lt {old now : List Text} (h : old.length * now.length ≤ 6000000) :
    lcsLength old now < 2 ^ 32 := by
  cases now with
  | nil => simp
  | cons n now =>
      have hle := lcsLength_le_left old (n :: now)
      have hmul := Nat.le_mul_of_pos_right old.length (Nat.succ_pos now.length)
      have hle' := Nat.le_trans hle (Nat.le_trans hmul h)
      omega

theorem lcsRow_spec {o : Text} {old now : List Text} {below : List UInt32}
    (hsmall : (old.length + 1) * now.length ≤ 6000000)
    (hbelow : ∀ b ≤ now.length, (below.getD b 0).toNat = lcsLength old (now.drop b)) :
    ∀ b ≤ now.length, ((lcsRow o now below).getD b 0).toNat =
      lcsLength (o :: old) (now.drop b) := by
  induction now generalizing below with
  | nil =>
      intro b hb
      obtain rfl := Nat.le_zero.mp hb
      simp [lcsRow]
  | cons n now ih =>
      have hsmall' : (old.length + 1) * now.length ≤ 6000000 :=
        Nat.le_trans (Nat.mul_le_mul_left _ (Nat.le_succ _)) hsmall
      have hright : ∀ b ≤ now.length,
          ((lcsRow o now below.tail).getD b 0).toNat = lcsLength (o :: old) (now.drop b) := by
        refine ih hsmall' fun b hb => ?_
        have := hbelow (b + 1) (by simpa using hb)
        cases below <;> simpa using this
      intro b hb
      cases b with
      | succ b =>
          rw [lcsRow, List.getD_cons_succ, List.drop_succ_cons]
          exact hright b (by simpa using hb)
      | zero =>
          rw [lcsRow, List.getD_cons_zero, List.drop_zero]
          have hfirst := hright 0 (Nat.zero_le _)
          have hself := hbelow 0 (Nat.zero_le _)
          have hnext := hbelow 1 (by simp)
          rw [List.drop_zero] at hfirst hself
          rw [List.drop_one, List.tail_cons] at hnext
          split
          · next heq =>
              subst heq
              have hlt : lcsLength (o :: old) (o :: now) < 2 ^ 32 :=
                lcsLength_lt (by simpa using hsmall)
              rw [lcsLength_cons_self] at hlt ⊢
              have hhead : (below.tail.headD 0).toNat = lcsLength old now := by
                rw [← hnext]
                rcases below with _ | ⟨_, _ | _⟩ <;> rfl
              rw [UInt32.toNat_add, hhead, UInt32.toNat_one]
              omega
          · next hne =>
              rw [lcsLength_cons_ne hne, toNat_max, ← hself, ← hfirst]
              congr 2
              · cases below <;> rfl
              · cases lcsRow o now below.tail <;> rfl

/-- What the entries from a place on are. -/
def Lengths (lcs : Nat → Nat → UInt32) (i j : Nat) (old now : List Text) : Prop :=
  ∀ a ≤ old.length, ∀ b ≤ now.length,
    (lcs (i + a) (j + b)).toNat = lcsLength (old.drop a) (now.drop b)

theorem lengths_lcsTable {old now : List Text} (hsmall : old.length * now.length ≤ 6000000) :
    Lengths (entry (lcsTable old now)) 0 0 old now := by
  intro a ha b hb
  rw [Nat.zero_add, Nat.zero_add]
  induction old generalizing a b with
  | nil =>
      obtain rfl := Nat.le_zero.mp ha
      have : b < now.length + 1 := by omega
      simp [entry, lcsTable, List.getD_eq_getElem?_getD, this]
  | cons o old ih =>
      have hsmall' : old.length * now.length ≤ 6000000 :=
        Nat.le_trans (Nat.mul_le_mul_right _ (Nat.le_succ _)) hsmall
      cases a with
      | succ a => exact ih hsmall' a (by simpa using ha) b hb
      | zero =>
          refine lcsRow_spec (by simpa using hsmall) (fun b hb => ?_) b hb
          have := ih hsmall' 0 (Nat.zero_le _) b hb
          rw [List.drop_zero] at this
          rw [← this, entry]
          cases lcsTable old now <;> rfl

namespace Lengths

variable {lcs : Nat → Nat → UInt32} {i j : Nat} {o n : Text} {old now : List Text}

theorem drop (h : Lengths lcs i j old now) {a b : Nat} (ha : a ≤ old.length)
    (hb : b ≤ now.length) : Lengths lcs (i + a) (j + b) (old.drop a) (now.drop b) := by
  intro a' ha' b' hb'
  rw [List.length_drop] at ha' hb'
  rw [Nat.add_assoc, Nat.add_assoc, h (a + a') (by omega) (b + b') (by omega),
    List.drop_drop, List.drop_drop]

theorem tail_old (h : Lengths lcs i j (o :: old) now) : Lengths lcs (i + 1) j old now := by
  simpa using h.drop (a := 1) (b := 0) (by simp) (Nat.zero_le _)

theorem tail_now (h : Lengths lcs i j old (n :: now)) : Lengths lcs i (j + 1) old now := by
  simpa using h.drop (a := 0) (b := 1) (Nat.zero_le _) (by simp)

theorem tails (h : Lengths lcs i j (o :: old) (n :: now)) :
    Lengths lcs (i + 1) (j + 1) old now := h.tail_old.tail_now

/-- The comparison of the walk is one of the two lists without one row each. -/
theorem ge_iff (h : Lengths lcs i j (o :: old) (n :: now)) :
    lcs (i + 1) j ≥ lcs i (j + 1) ↔ lcsLength (o :: old) now ≤ lcsLength old (n :: now) := by
  have hold := h 1 (by simp) 0 (Nat.zero_le _)
  have hnow := h 0 (Nat.zero_le _) 1 (by simp)
  simp only [Nat.add_zero, List.drop_one, List.tail_cons, List.drop_zero] at hold hnow
  rw [← hold, ← hnow]
  exact UInt32.le_iff_toNat_le

end Lengths

/-! ## Hunks -/

open UnifiedDiff in
def hunkOf (oldAt newAt : Nat) (removed added : List Text) : Hunk Text where
  oldStart := oldAt + if removed.length ≠ 0 then 1 else 0
  newStart := newAt + if added.length ≠ 0 then 1 else 0
  removed := removed
  added := added

theorem position_start (start count : Nat) :
    UnifiedDiff.position (start + if count ≠ 0 then 1 else 0) count = some start := by
  unfold UnifiedDiff.position
  by_cases h : count = 0 <;> simp [h]

theorem hunkOf_at (oldAt newAt : Nat) (removed added : List Text) :
    (hunkOf oldAt newAt removed added).At oldAt newAt :=
  ⟨position_start oldAt removed.length, position_start newAt added.length⟩

theorem range_treeDiffRange (start count : Nat) :
    UnifiedDiff.range (treeDiffRange start count) =
      some (start + (if count ≠ 0 then 1 else 0), count) := by
  unfold treeDiffRange
  by_cases h : count = 1
  · rw [if_neg (not_not.mpr h), List.append_nil, UnifiedDiff.range_start, h]
  · rw [if_pos h, UnifiedDiff.range_both]

theorem not_mem_treeDiffRange {c : Char} (hdigit : c.isDigit = false) (hcomma : c ≠ ',')
    (start count : Nat) : c ∉ treeDiffRange start count := by
  unfold treeDiffRange
  have := Text.not_mem_toDigits hdigit
  split <;> simp [this, hcomma]

def headerRow (oldAt newAt : Nat) (removed added : List Text) : Text :=
  ['@', '@', ' ', '-'] ++ treeDiffRange oldAt removed.length
    ++ [' ', '+'] ++ treeDiffRange newAt added.length ++ [' ', '@', '@']

theorem header_headerRow (oldAt newAt : Nat) (removed added : List Text) :
    UnifiedDiff.header (headerRow oldAt newAt removed added) =
      some (((hunkOf oldAt newAt removed added).oldStart, removed.length),
        ((hunkOf oldAt newAt removed added).newStart, added.length)) :=
  UnifiedDiff.header_of_ranges
    (not_mem_treeDiffRange (by decide) (by decide) oldAt removed.length)
    (not_mem_treeDiffRange (by decide) (by decide) newAt added.length)
    (range_treeDiffRange oldAt removed.length) (range_treeDiffRange newAt added.length)

def hunkRows (oldAt newAt : Nat) (removed added : List Text) : List Text :=
  headerRow oldAt newAt removed added :: (removed.map ('-' :: ·) ++ added.map ('+' :: ·))

theorem hunkText_eq (oldAt newAt : Nat) (removed added : List Text) :
    hunkText oldAt newAt removed added =
      UnifiedDiff.unrows (hunkRows oldAt newAt removed added) := by
  simp [hunkText, hunkRows, headerRow, UnifiedDiff.unrows, List.flatMap_map]

theorem hunkRows_unbroken {oldAt newAt : Nat} {removed added : List Text}
    (hremoved : ∀ row ∈ removed, '\n' ∉ row) (hadded : ∀ row ∈ added, '\n' ∉ row) :
    ∀ row ∈ hunkRows oldAt newAt removed added, '\n' ∉ row := by
  intro row hrow
  unfold hunkRows at hrow
  rcases List.mem_cons.mp hrow with rfl | hrow
  · have hrange := fun start count =>
      not_mem_treeDiffRange (c := '\n') (by decide) (by decide) start count
    simp [headerRow, hrange]
  · rcases List.mem_append.mp hrow with hrow | hrow
    · obtain ⟨row, hmem, rfl⟩ := List.mem_map.mp hrow
      simpa using hremoved row hmem
    · obtain ⟨row, hmem, rfl⟩ := List.mem_map.mp hrow
      simpa using hadded row hmem

/-! ## Scripts -/

/-- Rows that say, as a diff that begins at a place of both lists, how the one list
becomes the other, and with no hunk row too many. -/
structure IsScript (oldAt newAt : Nat) (old now rows : List Text)
    (hunks : List (UnifiedDiff.Hunk Text)) : Prop where
  unbroken : ∀ row ∈ rows, '\n' ∉ row
  parses : UnifiedDiff.hunks rows.length rows = some hunks
  removed : UnifiedDiff.removedCount hunks + lcsLength old now = old.length
  added : UnifiedDiff.addedCount hunks + lcsLength old now = now.length
  /-- Rows before the place may be kept, and rows after both lists too. -/
  applies : ∀ kept last : List Text, ∀ oldStart newStart,
    oldStart + kept.length = oldAt → newStart + kept.length = newAt →
      UnifiedDiff.apply oldStart newStart hunks (kept ++ old ++ last) =
        some (kept ++ now ++ last)

namespace IsScript

variable {oldAt newAt : Nat} {old now rows : List Text} {hunks : List (UnifiedDiff.Hunk Text)}

theorem nil (oldAt newAt : Nat) : IsScript oldAt newAt [] [] [] [] where
  unbroken := by simp
  parses := rfl
  removed := by simp [UnifiedDiff.removedCount]
  added := by simp [UnifiedDiff.addedCount]
  applies kept last _ _ _ _ := rfl

theorem keep (h : IsScript (oldAt + 1) (newAt + 1) old now rows hunks) (row : Text) :
    IsScript oldAt newAt (row :: old) (row :: now) rows hunks where
  unbroken := h.unbroken
  parses := h.parses
  removed := by
    have := h.removed
    rw [lcsLength_cons_self, List.length_cons]
    omega
  added := by
    have := h.added
    rw [lcsLength_cons_self, List.length_cons]
    omega
  applies kept last oldStart newStart hold hnew := by
    have := h.applies (kept ++ [row]) last oldStart newStart (by simp; omega) (by simp; omega)
    simpa using this

theorem hunk {removed added : List Text}
    (h : IsScript (oldAt + removed.length) (newAt + added.length) old now rows hunks)
    (hlcs : lcsLength (removed ++ old) (added ++ now) = lcsLength old now)
    (hremoved : ∀ row ∈ removed, '\n' ∉ row) (hadded : ∀ row ∈ added, '\n' ∉ row) :
    IsScript oldAt newAt (removed ++ old) (added ++ now)
      (hunkRows oldAt newAt removed added ++ rows)
      (hunkOf oldAt newAt removed added :: hunks) where
  unbroken row hrow := by
    rcases List.mem_append.mp hrow with hrow | hrow
    · exact hunkRows_unbroken hremoved hadded row hrow
    · exact h.unbroken row hrow
  parses := by
    have hcons := @UnifiedDiff.hunks_cons _ _ (hunkOf oldAt newAt removed added) _ _
      (header_headerRow oldAt newAt removed added) h.parses
    rw [hunkRows, List.cons_append, List.append_assoc]
    exact UnifiedDiff.hunks_mono hcons (by simp; omega)
  removed := by
    have := h.removed
    rw [hlcs, UnifiedDiff.removedCount, List.map_cons, List.sum_cons, List.length_append]
    unfold UnifiedDiff.removedCount at this
    have : (hunkOf oldAt newAt removed added).removed = removed := rfl
    rw [this]
    omega
  added := by
    have := h.added
    rw [hlcs, UnifiedDiff.addedCount, List.map_cons, List.sum_cons, List.length_append]
    unfold UnifiedDiff.addedCount at this
    have : (hunkOf oldAt newAt removed added).added = added := rfl
    rw [this]
    omega
  applies kept last oldStart newStart hold hnew := by
    subst hold hnew
    have hrest := h.applies [] last (oldStart + kept.length + removed.length)
      (newStart + kept.length + added.length) rfl rfl
    have := UnifiedDiff.apply_cons (hunkOf_at _ _ removed added) hrest
    simpa [hunkOf] using this

end IsScript

/-! ## The walk -/

/-- A hunk takes the same rows from both lists as a longest common subsequence
leaves out of them. -/
theorem hunkLoop_spec {lcs : Nat → Nat → UInt32} {i j : Nat} {old now : List Text}
    (hl : Lengths lcs i j old now) :
    ∃ old' now', old = (hunkLoop lcs i j old now).1 ++ old' ∧
      now = (hunkLoop lcs i j old now).2 ++ now' ∧ lcsLength old now = lcsLength old' now' := by
  fun_induction hunkLoop lcs i j old now with
  | case1 i j o old now => exact ⟨_, _, rfl, rfl, rfl⟩
  | case2 i j o old n now hne hge removed added heq ih =>
      obtain ⟨old', now', hold, hnow, hlcs⟩ := ih hl.tail_old
      rw [heq] at hold hnow
      refine ⟨old', now', congrArg (o :: ·) hold, hnow, ?_⟩
      rw [lcsLength_cons_ne hne, Nat.max_eq_left (hl.ge_iff.mp hge), hlcs]
  | case3 i j o old n now hne hlt removed added heq ih =>
      obtain ⟨old', now', hold, hnow, hlcs⟩ := ih hl.tail_now
      rw [heq] at hold hnow
      refine ⟨old', now', hold, congrArg (n :: ·) hnow, ?_⟩
      rw [lcsLength_cons_ne hne, Nat.max_eq_right (Nat.le_of_not_le fun hle =>
        hlt (hl.ge_iff.mpr hle)),
        hlcs]
  | case4 i j o old removed added heq ih =>
      obtain ⟨old', now', hold, hnow, hlcs⟩ := ih hl.tail_old
      rw [heq] at hold hnow
      exact ⟨old', now', congrArg (o :: ·) hold, hnow, by simpa using hlcs⟩
  | case5 i j n now removed added heq ih =>
      obtain ⟨old', now', hold, hnow, hlcs⟩ := ih hl.tail_now
      rw [heq] at hold hnow
      exact ⟨old', now', hold, congrArg (n :: ·) hnow, by simpa using hlcs⟩
  | case6 i j => exact ⟨[], [], rfl, rfl, rfl⟩

/-- A hunk that begins where the rows differ is not empty. -/
theorem hunkLoop_pos (lcs : Nat → Nat → UInt32) (i j : Nat) {old now : List Text}
    (hsome : ¬(old = [] ∧ now = [])) (hdiffer : ¬(old ≠ [] ∧ old.head? = now.head?)) :
    0 < (hunkLoop lcs i j old now).1.length + (hunkLoop lcs i j old now).2.length := by
  cases old with
  | nil =>
      cases now with
      | nil => simp at hsome
      | cons n now =>
          rw [hunkLoop]
          exact Nat.add_pos_right _ (Nat.succ_pos _)
  | cons o old =>
      cases now with
      | nil =>
          rw [hunkLoop]
          exact Nat.add_pos_left (Nat.succ_pos _) _
      | cons n now =>
          have hne : o ≠ n := by simpa using hdiffer
          rw [hunkLoop, if_neg hne]
          split
          · exact Nat.add_pos_left (Nat.succ_pos _) _
          · exact Nat.add_pos_right _ (Nat.succ_pos _)

theorem walkLoop_isScript (before : Nat) {lcs : Nat → Nat → UInt32} {fuel i j : Nat}
    {old now : List Text} (hl : Lengths lcs i j old now)
    (hfuel : old.length + now.length ≤ fuel) (hold : ∀ row ∈ old, '\n' ∉ row)
    (hnow : ∀ row ∈ now, '\n' ∉ row) :
    ∃ rows hunks, walkLoop lcs before fuel i j old now = UnifiedDiff.unrows rows ∧
      IsScript (before + i) (before + j) old now rows hunks := by
  fun_induction walkLoop lcs before fuel i j old now with
  | case1 i j old now =>
      obtain rfl : old = [] := List.length_eq_zero_iff.mp (by omega)
      obtain rfl : now = [] := List.length_eq_zero_iff.mp (by omega)
      exact ⟨[], [], rfl, .nil _ _⟩
  | case2 fuel i j old now hnil =>
      obtain ⟨rfl, rfl⟩ := hnil
      exact ⟨[], [], rfl, .nil _ _⟩
  | case3 fuel i j old now _ hsame ih =>
      obtain ⟨hne, hhead⟩ := hsame
      cases old with
      | nil => exact absurd rfl hne
      | cons o old =>
          cases now with
          | nil => simp at hhead
          | cons n now =>
              obtain rfl : o = n := by simpa using hhead
              simp only [List.length_cons] at hfuel
              obtain ⟨rows, hunks, htext, hscript⟩ := ih hl.tails
                (by simp only [List.tail_cons]; omega)
                (fun row hrow => hold row (List.mem_cons_of_mem o hrow))
                (fun row hrow => hnow row (List.mem_cons_of_mem o hrow))
              exact ⟨rows, hunks, htext, hscript.keep o⟩
  | case4 fuel i j old now hsome hdiffer removed added heq ih =>
      obtain ⟨old', now', hold', hnow', hlcs⟩ := hunkLoop_spec hl
      have hpos := hunkLoop_pos lcs i j hsome hdiffer
      rw [heq] at hold' hnow' hpos
      simp only at hold' hnow' hpos
      subst hold' hnow'
      simp only [List.drop_left, List.length_append] at ih hfuel
      have hl' := hl.drop (a := removed.length) (b := added.length) (by simp) (by simp)
      rw [List.drop_left, List.drop_left] at hl'
      obtain ⟨rows, hunks, htext, hscript⟩ := ih hl' (by omega)
        (fun row hrow => hold row (List.mem_append_right _ hrow))
        (fun row hrow => hnow row (List.mem_append_right _ hrow))
      refine ⟨hunkRows (before + i) (before + j) removed added ++ rows,
        hunkOf (before + i) (before + j) removed added :: hunks, ?_, ?_⟩
      · rw [List.drop_left, List.drop_left, htext, hunkText_eq]
        simp [UnifiedDiff.unrows]
      · exact IsScript.hunk (by simpa [Nat.add_assoc] using hscript) hlcs
          (fun row hrow => hold row (List.mem_append_left _ hrow))
          (fun row hrow => hnow row (List.mem_append_left _ hrow))

/-! ## The whole diff -/

theorem treeRows_unrows {rows : List Text} (h : ∀ row ∈ rows, '\n' ∉ row) :
    treeRows (UnifiedDiff.unrows rows) = rows := by
  unfold treeRows strsplit
  cases rows with
  | nil => rfl
  | cons row rows =>
      have hne : UnifiedDiff.unrows (row :: rows) ≠ [] := by simp [UnifiedDiff.unrows]
      rw [if_neg hne]
      unfold UnifiedDiff.unrows
      rw [Text.splitOn_terminated h]
      simp only [List.getLast?_concat, if_pos, List.dropLast_concat]

theorem commonRows_spec (old now : List Text) :
    ∃ same old' now', old = same ++ old' ∧ now = same ++ now' ∧
      commonRows old now = same.length := by
  fun_induction commonRows old now with
  | case1 old o now ih =>
      obtain ⟨same, old', now', hold, hnow, hlength⟩ := ih
      exact ⟨o :: same, old', now', congrArg (o :: ·) hold, congrArg (o :: ·) hnow,
        congrArg (· + 1) hlength⟩
  | case2 o old n now hne => exact ⟨[], _, _, rfl, rfl, rfl⟩
  | case3 old now hne => exact ⟨[], _, _, rfl, rfl, rfl⟩

/-- The parts that the trimming leaves. -/
theorem trimmed (old now : List Text) :
    ∃ first oldPart newPart last, old = first ++ oldPart ++ last ∧
      now = first ++ newPart ++ last ∧ commonRows old now = first.length ∧
      commonRows (old.drop first.length).reverse (now.drop first.length).reverse =
        last.length := by
  obtain ⟨first, old', now', rfl, rfl, hfirst⟩ := commonRows_spec old now
  obtain ⟨same, oldPart, newPart, hold, hnow, hlast⟩ :=
    commonRows_spec old'.reverse now'.reverse
  refine ⟨first, oldPart.reverse, newPart.reverse, same.reverse, ?_, ?_, hfirst, ?_⟩
  · rw [List.append_assoc, ← List.reverse_append, ← hold, List.reverse_reverse]
  · rw [List.append_assoc, ← List.reverse_append, ← hnow, List.reverse_reverse]
  · rw [List.drop_left, List.drop_left, hlast, List.length_reverse]

theorem mul_le_of_small {n m : Nat} (h : ¬(n ≠ 0 ∧ m > 6000000 / n)) : n * m ≤ 6000000 := by
  rcases Nat.eq_zero_or_pos n with rfl | hpos
  · omega
  · have hle : m ≤ 6000000 / n := by
      rw [not_and, Nat.not_lt] at h
      exact h (by omega)
    calc n * m ≤ n * (6000000 / n) := Nat.mul_le_mul_left n hle
      _ ≤ 6000000 := Nat.mul_div_le 6000000 n

theorem treeDiff_isScript {allocated : Nat → Bool} {unchangedText diff : Text}
    {old now : List Text} (hold : ∀ row ∈ old, '\n' ∉ row) (hnow : ∀ row ∈ now, '\n' ∉ row)
    (hne : UnifiedDiff.unrows old ≠ UnifiedDiff.unrows now)
    (h : treeDiff allocated (UnifiedDiff.unrows old) (UnifiedDiff.unrows now) unchangedText =
      some diff) :
    ∃ rows hunks, diff = UnifiedDiff.unrows rows ∧ (∀ row ∈ rows, '\n' ∉ row) ∧
      UnifiedDiff.hunks rows.length rows = some hunks ∧
      UnifiedDiff.apply 0 0 hunks old = some now ∧
      UnifiedDiff.removedCount hunks + lcsLength old now = old.length ∧
      UnifiedDiff.addedCount hunks + lcsLength old now = now.length := by
  obtain ⟨first, oldPart, newPart, last, rfl, rfl, hfirst, hlast⟩ := trimmed old now
  unfold treeDiff at h
  rw [if_neg hne, treeRows_unrows hold, treeRows_unrows hnow] at h
  simp only [hfirst, hlast] at h
  have hlength : ∀ part : List Text,
      (first ++ part ++ last).length - first.length - last.length = part.length := fun part => by
    simp only [List.length_append]
    omega
  have hpart : ∀ part : List Text,
      ((first ++ part ++ last).drop first.length).take part.length = part := fun part => by
    rw [List.append_assoc, List.drop_left, List.take_left]
  simp only [hlength, hpart] at h
  split at h
  · cases h
  · next hsmall =>
      split at h
      · cases h
      · obtain ⟨rows, hunks, htext, hscript⟩ := walkLoop_isScript first.length
          (lengths_lcsTable (mul_le_of_small hsmall)) (Nat.le_refl _)
          (fun row hrow => hold row (by simp [hrow])) (fun row hrow => hnow row (by simp [hrow]))
        rw [htext] at h
        split at h
        · injection h with h
          have hlcs : lcsLength (first ++ oldPart ++ last) (first ++ newPart ++ last) =
              first.length + lcsLength oldPart newPart + last.length := by
            rw [lcsLength_append_right, lcsLength_append_left]
          have hremoved := hscript.removed
          have hadded := hscript.added
          refine ⟨rows, hunks, h.symm, hscript.unbroken, hscript.parses,
            hscript.applies first last 0 0 (by simp) (by simp), ?_, ?_⟩
          · rw [hlcs]
            simp only [List.length_append]
            omega
          · rw [hlcs]
            simp only [List.length_append]
            omega
        · cases h

/-- A diff that is sent, read as a unified diff, makes the current text of the
previous one, and no script takes away or adds fewer rows. -/
theorem treeDiff_roundTrip {allocated : Nat → Bool}
    {previous current unchangedText diff : Text} (hprevious : UnifiedDiff.Terminated previous)
    (hcurrent : UnifiedDiff.Terminated current) (hne : previous ≠ current)
    (h : treeDiff allocated previous current unchangedText = some diff) :
    UnifiedDiff.patch previous diff = some current ∧
      ∃ hunks n, UnifiedDiff.parse diff = some hunks ∧
        IsLcsLength n (UnifiedDiff.rows previous) (UnifiedDiff.rows current) ∧
        UnifiedDiff.removedCount hunks = (UnifiedDiff.rows previous).length - n ∧
        UnifiedDiff.addedCount hunks = (UnifiedDiff.rows current).length - n := by
  obtain ⟨old, hold, rfl⟩ := hprevious.exists_unrows
  obtain ⟨now, hnow, rfl⟩ := hcurrent.exists_unrows
  obtain ⟨rows, hunks, rfl, hrows, hparse, happly, hremoved, hadded⟩ :=
    treeDiff_isScript hold hnow hne h
  have hparse' : UnifiedDiff.parse (UnifiedDiff.unrows rows) = some hunks := by
    rw [UnifiedDiff.parse, UnifiedDiff.rows_unrows hrows, hparse]
  rw [UnifiedDiff.rows_unrows hold, UnifiedDiff.rows_unrows hnow]
  refine ⟨?_, hunks, lcsLength old now, hparse', isLcsLength_lcsLength old now, by omega,
    by omega⟩
  rw [UnifiedDiff.patch, hparse', UnifiedDiff.rows_unrows hold]
  simp [happly]

/-- A row longer than a hunk. -/
def sampleRow : Text := List.replicate 30 'w'

theorem treeDiff_roundTrip_sample :
    let previous := sampleRow ++ ['\n']
    let current := sampleRow ++ ['\n', 'a', '\n']
    let diff := ['@', '@', ' ', '-', '1', ',', '0', ' ', '+', '2', ' ', '@', '@', '\n', '+',
      'a', '\n']
    UnifiedDiff.patch previous diff = some current ∧
      ∃ hunks n, UnifiedDiff.parse diff = some hunks ∧
        IsLcsLength n (UnifiedDiff.rows previous) (UnifiedDiff.rows current) ∧
        UnifiedDiff.removedCount hunks = (UnifiedDiff.rows previous).length - n ∧
        UnifiedDiff.addedCount hunks = (UnifiedDiff.rows current).length - n := by
  refine @treeDiff_roundTrip (fun _ => true) _ _ [] _ (.inr (by decide)) (.inr (by decide))
    (by decide) ?_
  have hold : treeRows (sampleRow ++ ['\n']) = [sampleRow] := by decide
  have hnow : treeRows (sampleRow ++ ['\n', 'a', '\n']) = [sampleRow, ['a']] := by decide
  simp only [treeDiff, hold, hnow]
  simp [commonRows, walkLoop, hunkLoop, hunkText, treeDiffRange, sampleRow]
  decide

end Spaces.Computer.TreeDiff
