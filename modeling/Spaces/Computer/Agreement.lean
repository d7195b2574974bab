import Mathlib.Algebra.Order.Ring.Rat
import Mathlib.Algebra.Field.Rat
import Spaces.Computer.Pairing

/-!
# One window to a candidate, one candidate to a window

Two questions about the associations as a whole: whether two windows can come to
the same candidate, and whether the two modes, with a picture and without, come
to the same one for a window.

Uniqueness is only asked of the evidence and of the filter of the window at hand.
So two windows share a candidate where their evidence is not comparable: one has
it by its title and the other by its size, or the one looks for it in its process
and the other, whose process the bus does not know, everywhere. And the two modes
part where the title alone settles a window in its process and its size rules
that candidate out.
-/

namespace Spaces.Computer.Association

open Spaces.Library

variable {K : Type} [Doubles K] {d : Desktop K} {readText : Bool} {f : Int} {i j : Nat}
  {q q' : Nat × Nat}

/-- The process in which the candidates of a window are looked for. -/
def scope (d : Desktop K) (i : Nat) : Int := (d.windows[i]?.map (pidFilterOf d)).getD 0

/-- The only pair with the evidence of one of the stages that the window comes to. -/
def Settled (d : Desktop K) (readText : Bool) (i : Nat) (q : Nat × Nat) : Prop :=
  SettledByTitle d readText (scope d i) i q ∨ SettledBySize d readText (scope d i) i q

theorem selected_iff : selected d readText i = some q ↔ Settled d readText i q := by
  unfold selected Settled scope
  cases hw : d.windows[i]? with
  | some w => exact found_select hw
  | none =>
      have hno : ∀ {f E q}, ¬ Has d f E i q := by
        rintro f E q ⟨w, e, hw', -⟩
        rw [hw] at hw'
        cases hw'
      constructor
      · nofun
      · rintro (⟨E, -, h⟩ | ⟨-, E, -, h⟩)
        · exact absurd h.related hno
        · exact absurd h.related hno

theorem Settled.right_eq (h : Settled d readText i q) (h' : Settled d readText i q') :
    q' = q := by
  rcases h with h | h
  · rcases h' with h' | h'
    · exact h.right_eq h'
    · exact absurd h.has_first (h'.1 q)
  · rcases h' with h' | h'
    · exact absurd h'.has_first (h.1 q')
    · exact h.right_eq h'

/-! ## Two windows -/

/-- Different windows have different candidates. -/
def Injective (d : Desktop K) (readText : Bool) : Prop :=
  ∀ i j q, selected d readText i = some q → selected d readText j = some q → i = j

/-- A candidate that a window has by its title, and that another, which has no
candidate of its title, has by its size. -/
def TitleClash (d : Desktop K) (readText : Bool) : Prop :=
  ∃ i j q, scope d i = scope d j ∧ SettledByTitle d readText (scope d i) i q ∧
    SettledBySize d readText (scope d j) j q

/-- A candidate that a window has in its process, and that another, whose process
the bus does not know, has among all. -/
def ScopeClash (d : Desktop K) (readText : Bool) : Prop :=
  ∃ i j q, scope d i ≠ 0 ∧ scope d j = 0 ∧ Settled d readText i q ∧ Settled d readText j q

/-- The process of a candidate that passes two filters is known to both. -/
theorem Has.same_filter {f' : Int} {E E' : AccessibilityEvidence} (h : Has d f E i q)
    (h' : Has d f' E' j q) (hf : f ≠ 0) (hf' : f' ≠ 0) : f = f' := by
  obtain ⟨-, e, -, -, he, rfl, -⟩ := h
  obtain ⟨-, e', -, -, he', hplace, -⟩ := h'
  obtain ⟨app, happ, hpasses, -, -⟩ := mem_entries.mp he
  obtain ⟨app', happ', hpasses', -, -⟩ := mem_entries.mp he'
  rw [hplace] at happ'
  obtain rfl := Option.some.inj (happ.symm.trans happ')
  have hpid : app.pid = f := by simpa [passes, hf] using hpasses
  have hpid' : app.pid = f' := by simpa [passes, hf'] using hpasses'
  exact hpid.symm.trans hpid'

theorem Settled.has (h : Settled d readText i q) : ∃ E, Has d (scope d i) E i q := by
  rcases h with ⟨E, -, h⟩ | ⟨-, E, -, h⟩
  · exact ⟨E, h.related⟩
  · exact ⟨E, h.related⟩

theorem injective_iff (d : Desktop K) (readText : Bool) :
    Injective d readText ↔ ¬ TitleClash d readText ∧ ¬ ScopeClash d readText := by
  constructor
  · intro h
    constructor
    · rintro ⟨i, j, q, hscope, htitle, hsize⟩
      have heq := h i j q (selected_iff.mpr (.inl htitle)) (selected_iff.mpr (.inr hsize))
      -- by size, so nothing has the title
      exact hsize.1 q (heq ▸ htitle.has_first)
    · rintro ⟨i, j, q, hi, hj, hsettled, hsettled'⟩
      have heq := h i j q (selected_iff.mpr hsettled) (selected_iff.mpr hsettled')
      exact hi (heq ▸ hj)
  · rintro ⟨htitle, hscope⟩ i j q hi hj
    have hi := selected_iff.mp hi
    have hj := selected_iff.mp hj
    have hsame : scope d i = scope d j := by
      obtain ⟨E, hhas⟩ := hi.has
      obtain ⟨E', hhas'⟩ := hj.has
      by_cases hzero : scope d i = 0
      · by_cases hzero' : scope d j = 0
        · exact hzero.trans hzero'.symm
        · exact absurd ⟨j, i, q, hzero', hzero, hj, hi⟩ hscope
      · by_cases hzero' : scope d j = 0
        · exact absurd ⟨i, j, q, hzero, hzero', hi, hj⟩ hscope
        · exact hhas.same_filter hhas' hzero hzero'
    rcases hi with hi | hi
    · rcases hj with hj | hj
      · rw [← hsame] at hj
        exact hj.left_eq hi
      · exact absurd ⟨i, j, q, hsame, hi, hj⟩ htitle
    · rcases hj with hj | hj
      · exact absurd ⟨j, i, q, hsame.symm, hj, hi⟩ htitle
      · rw [← hsame] at hj
        exact hj.left_eq hi

/-! ## Two modes -/

/-- Both modes come to the same candidate, where they come to one. -/
def Agrees (d : Desktop K) (i : Nat) : Prop :=
  ∀ q q', selected d true i = some q → selected d false i = some q' → q = q'

/-- The title settles the window in its process, on a candidate that does not have
its size, and the size settles it on another. -/
def Diverted (d : Desktop K) (i : Nat) : Prop :=
  scope d i ≠ 0 ∧ (∃ q, Sole (Has d (scope d i) byTitle) i q) ∧
    (∀ q, ¬ Has d (scope d i) bySizedTitle i q) ∧
    ∃ q, ∃ E ∈ sizeStages, Sole (Has d (scope d i) E) i q

/-- The evidence for a pair adds up. -/
theorem Has.both (htitle : Has d f byTitle i q) (hsize : Has d f bySize i q) :
    Has d f bySizedTitle i q := by
  obtain ⟨w, e, hw, hf, he, hplace, hev⟩ := htitle
  obtain ⟨w', e', hw', -, he', hplace', hev'⟩ := hsize
  obtain rfl := Option.some.inj (hw.symm.trans hw')
  obtain rfl := entries_inj he he' (hplace.trans hplace'.symm)
  refine ⟨w, e, hw, hf, he, hplace, ?_⟩
  rw [accessibilityEvidence_eq] at hev hev' ⊢
  simp only [byTitle, bySize, bySizedTitle, Bool.and_eq_true] at hev hev' ⊢
  exact ⟨⟨hev.1.1, hev'.1.2⟩, hev.2⟩

theorem firstEvidence_zero (readText readText' : Bool) :
    firstEvidence readText 0 = firstEvidence readText' 0 := by
  cases readText <;> cases readText' <;> rfl

theorem firstEvidence_true (hf : f ≠ 0) : firstEvidence true f = byTitle := by
  simp [firstEvidence, hf, byTitle]

/-- With a picture the title settles no more than it does without. -/
theorem SettledByTitle.without_picture (h : SettledByTitle d false f i q) :
    SettledByTitle d true f i q := by
  obtain ⟨E, hE, hsole⟩ := h
  rcases hE with _ | ⟨_, hE⟩
  · exact ⟨bySizedTitle, .tail _ (.head _), hsole⟩
  · exact ⟨E, .tail _ hE, hsole⟩

theorem agrees_iff (d : Desktop K) (i : Nat) : Agrees d i ↔ ¬ Diverted d i := by
  constructor
  · rintro h ⟨hf, ⟨q, htitle⟩, hunsized, q', E, hE, hsize⟩
    have hq : Settled d true i q :=
      .inl ⟨firstEvidence true (scope d i), .head _, firstEvidence_true hf ▸ htitle⟩
    have hq' : Settled d false i q' := .inr ⟨hunsized, E, hE, hsize⟩
    have heq := h q q' (selected_iff.mpr hq) (selected_iff.mpr hq')
    have hwithin : ∀ E ∈ sizeStages, bySize.within E = true := by decide
    exact hunsized q (htitle.related.both (heq ▸ hsize.related.weaken (hwithin E hE)))
  · intro hdiverted q q' hq hq'
    have hq := selected_iff.mp hq
    have hq' := selected_iff.mp hq'
    by_cases hf : scope d i = 0
    · -- without a filter both modes begin alike
      have hsame : Settled d false i q := by
        unfold Settled SettledByTitle SettledBySize titleStages at hq ⊢
        rw [hf, firstEvidence_zero false true]
        rwa [hf] at hq
      exact (hsame.right_eq hq').symm
    · rcases hq with hq | hq
      · rcases hq' with hq' | hq'
        · exact hq'.without_picture.right_eq hq
        · -- the title alone, and the size elsewhere
          refine absurd ⟨hf, ⟨q, ?_⟩, hq'.1, q', hq'.2⟩ hdiverted
          obtain ⟨E, hE, hsole⟩ := hq
          rcases hE with _ | ⟨_, hE⟩
          · exact firstEvidence_true hf ▸ hsole
          · have hwithin : ∀ E ∈ [bySizedTitle, byPlacedTitle], bySizedTitle.within E = true := by
              decide
            exact absurd (hsole.related.weaken (hwithin E hE)) (hq'.1 q)
      · have hunsized : ∀ q, ¬ Has d (scope d i) bySizedTitle i q := fun q h =>
          hq.1 q (firstEvidence_true hf ▸ h.weaken rfl)
        rcases hq' with hq' | hq'
        · exact absurd hq'.has_first (hunsized q')
        · have hq : SettledBySize d false (scope d i) i q := ⟨hunsized, hq.2⟩
          exact hq'.right_eq hq

/-! ## Where they fail -/

instance : Doubles ℚ where
  near a b := a - b ≤ 2 && b - a ≤ 2
  positive a := 0 < a

/-- A rectangle at the corner of the screen. -/
def sized (width height : ℚ) : RawRect ℚ := some ⟨0, 0, width, height⟩

/-- A window of an application that the bus knows, and one of the same title of an
application that it does not know. -/
def sharedTitle : Desktop ℚ where
  windows :=
    [{ pid := 10, title := some "Notes".toList, shown := true, frame := sized 100 100 },
     { pid := 20, title := some "Notes".toList, shown := true, frame := sized 300 200 }]
  apps := [{ pid := 10, windows :=
    [{ title := some "Notes".toList, shown := true, bounds := sized 300 200 }] }]
  displays := []

theorem sharedTitle_notInjective :
    ¬ ∀ (d : Desktop ℚ) (readText : Bool), Injective d readText := by
  intro h
  exact absurd (h sharedTitle true 0 1 (0, 0) (by decide +kernel) (by decide +kernel)) (by decide)

/-- A window whose title has moved on in its accessible tree, beside a dialogue of
its size. -/
def movedTitle : Desktop ℚ where
  windows :=
    [{ pid := 10, title := some "Notes".toList, shown := true, frame := sized 300 200 }]
  apps := [{ pid := 10, windows :=
    [{ title := some "Notes".toList, shown := true, bounds := sized 100 100 },
     { title := some "Open".toList, shown := true, bounds := sized 300 200 }] }]
  displays := []

theorem movedTitle_disagrees : ¬ ∀ (d : Desktop ℚ) (i : Nat), Agrees d i := by
  intro h
  exact absurd (h movedTitle 0 (0, 0) (0, 1) (by decide +kernel) (by decide +kernel)) (by decide)

end Spaces.Computer.Association
