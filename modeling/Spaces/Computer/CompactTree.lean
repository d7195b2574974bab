import Spaces.Computer.Compaction

/-!
# The shape of a compacted tree

The rows that stay keep their order, and the parent and the depth of each are
those of the tree without the rows that went: the nearest ancestor that stays,
and how many ancestors stay. A row with an element id is not prose, and stays.

The chain of ancestors is read off the input alone. The two arrays `renumber`
keeps are what it makes of that chain, for the rows it has passed.
-/

namespace Spaces.Computer.Accessibility

open Spaces.Library

variable (rows : List Row)

/-- Every parent comes before its children. -/
def ParentsFirst : Prop := ∀ i < rows.length, (rowAt rows i).parentIndex < i

instance : Decidable (ParentsFirst rows) :=
  inferInstanceAs (Decidable (∀ i < rows.length, (rowAt rows i).parentIndex < i))

/-! ## Ancestors -/

/-- The nearest ancestor first. -/
def ancestorsFrom : Nat → Nat → List Nat
  | 0, _ => []
  | fuel + 1, i =>
      match parent? rows i with
      | some p => p :: ancestorsFrom fuel p
      | none => []

def ancestors (i : Nat) : List Nat := ancestorsFrom rows i i

variable {rows}

theorem ParentsFirst.parent_lt (h : ParentsFirst rows) {i p : Nat} (hi : i < rows.length)
    (hp : parent? rows i = some p) : p < i := by
  have hlt := h i hi
  unfold parent? at hp
  split at hp
  · have := Option.some.inj hp
    omega
  · cases hp

/-- Any fuel that covers the row's index gives all its ancestors. -/
theorem ParentsFirst.ancestorsFrom_congr (h : ParentsFirst rows) {fuel : Nat} :
    ∀ {fuel' i : Nat}, i < rows.length → i ≤ fuel → i ≤ fuel' →
      ancestorsFrom rows fuel i = ancestorsFrom rows fuel' i := by
  have hroot : ∀ {n : Nat}, 0 < rows.length → ancestorsFrom rows n 0 = [] := by
    intro n hlength
    cases n with
    | zero => rfl
    | succ n =>
        rw [ancestorsFrom]
        cases hp : parent? rows 0 with
        | none => rfl
        | some p => exact absurd (h.parent_lt hlength hp) (Nat.not_lt_zero p)
  induction fuel with
  | zero =>
      intro fuel' i hi hfuel _
      obtain rfl := Nat.le_zero.mp hfuel
      rw [hroot hi, hroot hi]
  | succ fuel ih =>
      intro fuel' i hi hfuel hfuel'
      cases fuel' with
      | zero =>
          obtain rfl := Nat.le_zero.mp hfuel'
          rw [hroot hi, hroot hi]
      | succ fuel' =>
          rw [ancestorsFrom, ancestorsFrom]
          cases hp : parent? rows i with
          | none => rfl
          | some p =>
              have hlt := h.parent_lt hi hp
              exact congrArg (List.cons p) (ih (by omega) (by omega) (by omega))

theorem ParentsFirst.ancestors_of_parent (h : ParentsFirst rows) {i p : Nat}
    (hi : i < rows.length) (hp : parent? rows i = some p) :
    ancestors rows i = p :: ancestors rows p := by
  have hlt := h.parent_lt hi hp
  unfold ancestors
  rw [h.ancestorsFrom_congr hi (Nat.le_refl i) (Nat.le_succ i), ancestorsFrom, hp]
  show p :: _ = p :: _
  rw [h.ancestorsFrom_congr (by omega) (Nat.le_of_lt hlt) (Nat.le_refl p)]

theorem ancestors_of_root {i : Nat} (hp : parent? rows i = none) : ancestors rows i = [] := by
  unfold ancestors
  cases i with
  | zero => rfl
  | succ i => rw [ancestorsFrom, hp]

/-! ## The rows that stay, by what they were -/

/-- The rows that stay, in order. -/
def retained (d : Distilled) (n : Nat) : List Nat := (List.range n).filter fun i => !d.omitted i

/-- The new index of a row that stays. -/
def rank (d : Distilled) (i : Nat) : Nat := (retained d i).length

/-- The ancestors that stay. -/
def retainedAncestors (rows : List Row) (d : Distilled) (i : Nat) : List Nat :=
  (ancestors rows i).filter fun a => !d.omitted a

/-- The new index of the nearest of them. -/
def nearest (rows : List Row) (d : Distilled) (i : Nat) : Int :=
  match retainedAncestors rows d i with
  | [] => -1
  | a :: _ => rank d a

/-- A row that stays, in the compacted tree. -/
def compactRow (rows : List Row) (d : Distilled) (i : Nat) : Row :=
  { rowAt rows i with
    textTruncated := d.truncated i
    elementIndex := rank d i
    parentIndex := nearest rows d i
    depth := (retainedAncestors rows d i).length }

variable {d : Distilled}

theorem retained_succ (n : Nat) :
    retained d (n + 1) = if d.omitted n then retained d n else retained d n ++ [n] := by
  rw [retained, List.range_succ, List.filter_append]
  cases h : d.omitted n with
  | true => simp [h, retained]
  | false => simp [h, retained]

theorem rank_mono {i j : Nat} (hij : i ≤ j) : rank d i ≤ rank d j := by
  induction j with
  | zero => rw [Nat.le_zero.mp hij]
  | succ j ih =>
      rcases Nat.le_succ_iff.mp hij with hle | rfl
      · refine Nat.le_trans (ih hle) ?_
        rw [rank, rank, retained_succ]
        split
        · exact Nat.le_refl _
        · simp
      · exact Nat.le_refl _

theorem rank_lt {i j : Nat} (hi : d.omitted i = false) (hij : i < j) :
    rank d i < rank d j := by
  refine Nat.lt_of_lt_of_le ?_ (rank_mono (Nat.succ_le_of_lt hij))
  rw [rank, rank, Nat.succ_eq_add_one, retained_succ, hi]
  simp

/-! ## Renumbering -/

/-- The arrays after so many rows. -/
structure RenumberedUpTo (rows : List Row) (d : Distilled) (n : Nat) (r : Renumbered) :
    Prop where
  compact : r.compact = (retained d n).map (compactRow rows d)
  omitted : ∀ i < n, d.omitted i = true → r.parents i = nearest rows d i
  kept : ∀ i < n, d.omitted i = false → r.parents i = rank d i
  depths : ∀ i < n, d.omitted i = false →
    r.depths (rank d i) = (retainedAncestors rows d i).length

/-- Above the nearest ancestor that stays are its own ancestors. -/
theorem ParentsFirst.retainedAncestors_eq_cons (h : ParentsFirst rows) {n : Nat} :
    ∀ {a : Nat} {above : List Nat}, n < rows.length →
      retainedAncestors rows d n = a :: above →
      a < n ∧ d.omitted a = false ∧ above = retainedAncestors rows d a := by
  induction n using Nat.strongRecOn with
  | ind n ih =>
      intro a above hn heq
      unfold retainedAncestors at heq
      cases hp : parent? rows n with
      | none =>
          rw [ancestors_of_root hp] at heq
          cases heq
      | some p =>
          have hlt := h.parent_lt hn hp
          rw [h.ancestors_of_parent hn hp, List.filter_cons] at heq
          split at heq
          · next hkept =>
              obtain ⟨rfl, rfl⟩ := List.cons.inj heq
              exact ⟨hlt, by simpa using hkept, rfl⟩
          · obtain ⟨hless, hstays, habove⟩ := ih p hlt (by omega) heq
            exact ⟨by omega, hstays, habove⟩

variable {n : Nat} {r : Renumbered}

theorem RenumberedUpTo.length (h : RenumberedUpTo rows d n r) : r.compact.length = rank d n := by
  rw [h.compact, List.length_map]
  rfl

/-- The parent that `renumberRow` computes, and the depth it finds there. -/
theorem RenumberedUpTo.parent (h : RenumberedUpTo rows d n r) (hfirst : ParentsFirst rows)
    (hn : n < rows.length) :
    (match parent? rows n with
      | some p => r.parents p
      | none => -1) = nearest rows d n := by
  cases hp : parent? rows n with
  | none =>
      simp only [nearest, retainedAncestors, ancestors_of_root hp, List.filter_nil]
  | some p =>
      have hlt := hfirst.parent_lt hn hp
      simp only [nearest, retainedAncestors, hfirst.ancestors_of_parent hn hp, List.filter_cons]
      cases homitted : d.omitted p with
      | true => exact h.omitted p hlt homitted
      | false => exact h.kept p hlt homitted

theorem RenumberedUpTo.depth (h : RenumberedUpTo rows d n r) (hfirst : ParentsFirst rows)
    (hn : n < rows.length) :
    (if 0 ≤ nearest rows d n then r.depths (nearest rows d n).toNat + 1 else 0) =
      (retainedAncestors rows d n).length := by
  unfold nearest
  cases heq : retainedAncestors rows d n with
  | nil => rfl
  | cons a above =>
      obtain ⟨hlt, hstays, rfl⟩ := hfirst.retainedAncestors_eq_cons hn heq
      show (if 0 ≤ (rank d a : Int) then r.depths (rank d a : Int).toNat + 1 else 0) = _
      rw [if_pos (Int.natCast_nonneg _), Int.toNat_natCast, h.depths a hlt hstays]
      rfl

theorem RenumberedUpTo.next (h : RenumberedUpTo rows d n r) (hfirst : ParentsFirst rows)
    (hn : n < rows.length) : RenumberedUpTo rows d (n + 1) (renumberRow rows d r n) := by
  unfold renumberRow
  extract_lets parent index depth
  have hparent : parent = nearest rows d n := h.parent hfirst hn
  have hdepth : depth = (retainedAncestors rows d n).length := by
    simp only [depth, hparent]
    exact h.depth hfirst hn
  have hindex : index = rank d n := h.length
  split
  · next homitted =>
      refine ⟨?_, fun i hi hgone => ?_, fun i hi hkept => ?_, fun i hi hkept => ?_⟩
      · rw [retained_succ, if_pos homitted]
        exact h.compact
      · show Function.update r.parents n parent i = _
        rw [Function.update_apply]
        split
        · next heq => rw [heq, hparent]
        · exact h.omitted i (by omega) hgone
      · show Function.update r.parents n parent i = _
        have hne : i ≠ n := fun heq => by rw [heq, homitted] at hkept; cases hkept
        rw [Function.update_apply, if_neg hne]
        exact h.kept i (by omega) hkept
      · have hne : i ≠ n := fun heq => by rw [heq, homitted] at hkept; cases hkept
        exact h.depths i (by omega) hkept
  · next homitted =>
      have hstays : d.omitted n = false := Bool.eq_false_iff.mpr homitted
      refine ⟨?_, fun i hi hgone => ?_, fun i hi hkept => ?_, fun i hi hkept => ?_⟩
      · rw [retained_succ, if_neg homitted, List.map_append, ← h.compact, hparent, hdepth,
          hindex]
        rfl
      · show Function.update r.parents n (index : Int) i = _
        have hne : i ≠ n := fun heq => by rw [heq, hstays] at hgone; cases hgone
        rw [Function.update_apply, if_neg hne]
        exact h.omitted i (by omega) hgone
      · show Function.update r.parents n (index : Int) i = _
        rw [Function.update_apply]
        split
        · next heq => rw [heq, hindex]
        · exact h.kept i (by omega) hkept
      · show Function.update r.depths index depth (rank d i) = _
        rw [Function.update_apply, hindex]
        by_cases heq : i = n
        · rw [heq, if_pos rfl, hdepth]
        · have hlt : rank d i < rank d n := rank_lt hkept (by omega)
          rw [if_neg (by omega)]
          exact h.depths i (by omega) hkept

theorem renumberedUpTo (hfirst : ParentsFirst rows) :
    ∀ {n : Nat}, n ≤ rows.length → RenumberedUpTo rows d n
      ((List.range n).foldl (renumberRow rows d) ⟨fun _ => -1, fun _ => 0, []⟩) := by
  intro n
  induction n with
  | zero => exact fun _ => ⟨rfl, nofun, nofun, nofun⟩
  | succ n ih =>
      intro hn
      rw [List.range_succ, List.foldl_append]
      exact (ih (by omega)).next hfirst hn

/-! ## Rows with an element id stay -/

/-- Only prose rows go. -/
def OnlyProse (rows : List Row) (d : Distilled) : Prop :=
  ∀ j, d.omitted j = true → (content rows j).isSome

theorem settle_gone {leaf : Nat → Bool} {goes : List Nat → Bool} {children run : List Nat}
    {j : Nat} (hrun : ∀ j ∈ run, leaf j = true)
    (h : j ∈ (settle leaf goes run children).2) : leaf j = true := by
  induction children generalizing run with
  | nil =>
      unfold settle at h
      split at h
      · exact hrun j h
      · cases h
  | cons child rest ih =>
      unfold settle at h
      split at h
      · next hleaf =>
          refine ih (fun j hj => ?_) h
          rcases List.mem_append.mp hj with hj | hj
          · exact hrun j hj
          · exact List.mem_singleton.mp hj ▸ hleaf
      · split at h
        · rcases List.mem_append.mp h with h | h
          · exact hrun j h
          · exact ih (List.forall_mem_nil _) h
        · exact ih (List.forall_mem_nil _) h

theorem OnlyProse.next (h : OnlyProse rows d) (i : Nat) :
    OnlyProse rows (distillRow rows d i) := by
  intro j hj
  unfold distillRow at hj
  extract_lets kept gone descendants covered at hj
  simp only [Bool.or_eq_true, Bool.and_eq_true, beq_iff_eq, List.contains_iff_mem] at hj
  rcases hj with (hj | hj) | ⟨rfl, hj⟩
  · exact h j hj
  · have hleaf := settle_gone (List.forall_mem_nil _) hj
    exact (Bool.and_eq_true_iff.mp hleaf).1
  · simp only [covered, coveredBy, Bool.and_eq_true] at hj
    exact hj.1.1

theorem onlyProse_distill (rows : List Row) : OnlyProse rows (distill rows) := by
  have hrun : Reachable (distillRow rows) (.initial rows) (distill rows) :=
    Guarded.run _ _
  exact hrun.invariant nofun fun d i h _ => h.next i

/-! ## The compacted tree -/

/-- What compaction makes of a tree: the rows that stay, in their order, each under
its nearest ancestor that stays and as deep as it has of them. -/
structure CompactsTo (rows compact : List Row) : Prop where
  renumbered : compact =
    (retained (distill rows) rows.length).map (compactRow rows (distill rows))
  kept : ∀ i < rows.length, (rowAt rows i).elementId ≠ none →
    i ∈ retained (distill rows) rows.length

theorem compactTextRows_compacts (h : ParentsFirst rows) :
    CompactsTo rows (compactTextRows rows) where
  renumbered := (renumberedUpTo h (Nat.le_refl _)).compact
  kept i hi hid := by
    refine List.mem_filter.mpr ⟨List.mem_range.mpr hi, ?_⟩
    cases homitted : (distill rows).omitted i with
    | false => rfl
    | true =>
        have hprose := onlyProse_distill rows i homitted
        unfold content at hprose
        split at hprose
        · next hrow =>
            rw [proseRow, Bool.and_eq_true] at hrow
            exact absurd (Option.isNone_iff_eq_none.mp hrow.1) hid
        · cases hprose

/-- A paragraph with a link in it, in a window. -/
def linkedParagraph : List Row :=
  [{ elementId := some 0, role := some "frame".toList, label := some "Window".toList },
   { parentIndex := 0, depth := 1, role := some "paragraph".toList,
     value := some "See now".toList,
     textParts := some ["See".toList, "now".toList] },
   { parentIndex := 1, depth := 2, role := some "static".toList,
     label := some "See".toList },
   { elementId := some 1, parentIndex := 1, depth := 2, role := some "link".toList,
     label := some "this".toList },
   { parentIndex := 1, depth := 2, role := some "static".toList,
     label := some "now".toList }]

theorem linkedParagraph_compacts :
    CompactsTo linkedParagraph (compactTextRows linkedParagraph) :=
  compactTextRows_compacts (by decide)

/-- The paragraph goes, and its children become the window's. -/
example : (compactTextRows linkedParagraph).map (fun row => (row.parentIndex, row.label)) =
    [(-1, some "Window".toList), (0, some "See".toList), (0, some "this".toList),
     (0, some "now".toList)] := by decide

end Spaces.Computer.Accessibility
