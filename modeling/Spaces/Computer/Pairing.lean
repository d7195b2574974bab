import Mathlib.Data.List.Sigma
import Spaces.Computer.Association
import Spaces.Library.Sole

/-!
# What the stages settle

A search settles a window on a candidate exactly when each is the only one with
the evidence for the other among the windows and candidates that pass the
filter: the pair is `Sole` in `Has`. So the stages can be compared by what their
evidence asks for, and two stages disagree only where neither asks for all that
the other does.
-/

namespace Spaces.Computer.Association

open Spaces.Library

variable {K : Type}

/-! ## The inventories, by place -/

theorem nodup_zipIdx {α : Type} (l : List α) : l.zipIdx.Nodup :=
  (List.nodup_zipIdx_map_snd l).of_map _

theorem mem_entries {apps : List (App K)} {f : Int} {e : Entry K} :
    e ∈ entries apps f ↔ ∃ app, apps[e.place.1]? = some app ∧ passes f app.pid = true ∧
      app.windows[e.place.2]? = some e.candidate ∧ e.pid = app.pid := by
  unfold entries
  rw [List.mem_flatMap]
  constructor
  · rintro ⟨⟨app, i⟩, happ, he⟩
    dsimp only at he
    split at he
    · next hpasses =>
        obtain ⟨⟨candidate, j⟩, hcandidate, rfl⟩ := List.mem_map.mp he
        exact ⟨app, List.mem_zipIdx_iff_getElem?.mp happ, hpasses,
          List.mem_zipIdx_iff_getElem?.mp hcandidate, rfl⟩
    · cases he
  · rintro ⟨app, happ, hpasses, hcandidate, hpid⟩
    refine ⟨(app, e.place.1), List.mem_zipIdx_iff_getElem?.mpr happ, ?_⟩
    dsimp only
    rw [if_pos hpasses]
    refine List.mem_map.mpr ⟨(e.candidate, e.place.2),
      List.mem_zipIdx_iff_getElem?.mpr hcandidate, ?_⟩
    obtain ⟨place, pid, candidate⟩ := e
    exact congrArg (Entry.mk place · candidate) hpid.symm

theorem entries_inj {apps : List (App K)} {f : Int} {e e' : Entry K} (he : e ∈ entries apps f)
    (he' : e' ∈ entries apps f) (hplace : e.place = e'.place) : e = e' := by
  obtain ⟨app, happ, -, hcandidate, hpid⟩ := mem_entries.mp he
  obtain ⟨app', happ', -, hcandidate', hpid'⟩ := mem_entries.mp he'
  rw [← hplace] at happ' hcandidate'
  obtain rfl := Option.some.inj (happ.symm.trans happ')
  obtain ⟨place, pid, candidate⟩ := e
  obtain ⟨place', pid', candidate'⟩ := e'
  cases hplace
  cases hpid
  cases hpid'
  cases Option.some.inj (hcandidate.symm.trans hcandidate')
  rfl

theorem nodup_entries (apps : List (App K)) (f : Int) : (entries apps f).Nodup := by
  refine List.nodup_flatMap.mpr ⟨?_, ?_⟩
  · rintro ⟨app, i⟩ -
    dsimp only
    split
    · refine List.Nodup.map ?_ (nodup_zipIdx app.windows)
      rintro ⟨c, j⟩ ⟨c', j'⟩ heq
      cases heq
      rfl
    · exact List.nodup_nil
  · have hplaces := List.pairwise_map.mp (List.nodup_zipIdx_map_snd apps)
    refine hplaces.imp fun {x y} hne => ?_
    intro e hx hy
    -- the places of one application begin with its index
    have hindex : ∀ (z : App K × Nat), (e ∈ if passes f z.1.pid then
        z.1.windows.zipIdx.map fun x => ⟨(z.2, x.2), z.1.pid, x.1⟩
        else []) → e.place.1 = z.2 := by
      intro z hz
      split at hz
      · obtain ⟨c, -, rfl⟩ := List.mem_map.mp hz
        rfl
      · cases hz
    exact hne ((hindex x hx).symm.trans (hindex y hy))

theorem passes_pidFilterOf (d : Desktop K) (w : Window K) :
    passes (pidFilterOf d w) w.pid = true := by
  unfold passes pidFilterOf
  split
  · simp
  · rfl

/-! ## One search -/

variable [Doubles K]

section Search

variable {d : Desktop K} {w : Window K} {f : Int} {E : AccessibilityEvidence}

/-- The candidate has the evidence, and the window alone has it. -/
def singled (d : Desktop K) (w : Window K) (f : Int) (E : AccessibilityEvidence)
    (e : Entry K) : Bool :=
  accessibilityEvidence d.displays w e.candidate E &&
    accessibilityCompositorMatches d e.candidate f E = 1

/-- The candidate has the evidence, and another window has it as well. -/
def contested (d : Desktop K) (w : Window K) (f : Int) (E : AccessibilityEvidence)
    (e : Entry K) : Bool :=
  accessibilityEvidence d.displays w e.candidate E &&
    accessibilityCompositorMatches d e.candidate f E > 1

theorem accessibilityEvidence_eq (displays : List (Display K)) (candidate : Candidate K) :
    accessibilityEvidence displays w candidate E =
      (accessibilityCandidateVisible w candidate &&
        (!E.title || accessibilityTitlesMatch w candidate) &&
        (!E.size || (accessibilitySize displays w candidate).2.isSome) &&
        (!E.position || (accessibilitySize displays w candidate).2.any fun (client, ratio) =>
          accessibilityPosition candidate (accessibilitySize displays w candidate).1
            client ratio)) := by
  unfold accessibilityEvidence
  rcases accessibilitySize displays w candidate with ⟨anchor, _ | ⟨client, ratio⟩⟩ <;>
  cases accessibilityCandidateVisible w candidate <;>
  cases accessibilityTitlesMatch w candidate <;>
  cases E.title <;> cases E.size <;> cases E.position <;> simp

/-- The checks of the search are those of `accessibilityEvidence`. -/
theorem forward_eq (c : Candidate K) (hvisible : accessibilityCandidateVisible w c = true) :
    ((E.title && !accessibilityTitlesMatch w c) ||
      (E.size && !(accessibilitySize d.displays w c).2.isSome) ||
      (E.position && !((accessibilitySize d.displays w c).2.isSome &&
        accessibilityPosition c (accessibilitySize d.displays w c).1
          (((accessibilitySize d.displays w c).2.map Prod.fst).getD .zero)
          (((accessibilitySize d.displays w c).2.map Prod.snd).getD 1)))) =
      !accessibilityEvidence d.displays w c E := by
  rw [accessibilityEvidence_eq, hvisible]
  rcases accessibilitySize d.displays w c with ⟨anchor, _ | ⟨client, ratio⟩⟩ <;>
  cases accessibilityTitlesMatch w c <;>
  cases E.title <;> cases E.size <;> cases E.position <;> simp

/-- What one candidate adds to a search. -/
theorem findStep_eq (r : AccessibilityMatch K) (e : Entry K) :
    (findStep d w f E r e).matched = r.matched + (singled d w f E e).toNat ∧
      (findStep d w f E r e).ambiguous = (r.ambiguous || contested d w f E e) ∧
      (findStep d w f E r e).candidate =
        if singled d w f E e then some e else r.candidate := by
  unfold findStep singled contested
  extract_lets candidate title size sized client ratio position counted reverse
  split
  · next hhidden =>
      rw [accessibilityEvidence_eq]
      rw [Bool.not_eq_true'] at hhidden
      simp [hhidden, candidate]
  · next hvisible =>
      have hforward := forward_eq (d := d) (E := E) candidate (by simpa using hvisible)
      rw [show _ = _ from hforward]
      cases accessibilityEvidence d.displays w candidate E with
      | false => simp [counted]
      | true =>
          have hcount : accessibilityCompositorMatches d e.candidate f E = reverse := rfl
          simp only [Bool.not_true, Bool.false_eq_true, if_false, Bool.true_and, hcount]
          split
          · next hreverse => simp [counted, hreverse, candidate]
          · next hreverse => simp [counted, not_not.mp hreverse]

theorem foldl_findStep (l : List (Entry K)) : ∀ r : AccessibilityMatch K,
    (l.foldl (findStep d w f E) r).matched = r.matched + l.countP (singled d w f E) ∧
      (l.foldl (findStep d w f E) r).ambiguous = (r.ambiguous || l.any (contested d w f E)) ∧
      (l.foldl (findStep d w f E) r).candidate =
        ((l.filter (singled d w f E)).getLast?).or r.candidate := by
  induction l with
  | nil => intro r; simp
  | cons e l ih =>
      intro r
      obtain ⟨hmatched, hambiguous, hcandidate⟩ := findStep_eq (d := d) (w := w) (f := f)
        (E := E) r e
      obtain ⟨ihmatched, ihambiguous, ihcandidate⟩ := ih (findStep d w f E r e)
      rw [List.foldl_cons, ihmatched, ihambiguous, ihcandidate, hmatched, hambiguous,
        hcandidate, List.countP_cons, List.any_cons, List.filter_cons]
      refine ⟨?_, Bool.or_assoc _ _ _, ?_⟩
      · cases singled d w f E e with
        | false => rfl
        | true =>
            show r.matched + 1 + _ = r.matched + (_ + 1)
            omega
      · cases singled d w f E e with
        | false => rfl
        | true =>
            -- the last one stays
            show _ = Option.or (List.getLast? (e :: l.filter (singled d w f E))) _
            rw [List.getLast?_cons]
            cases (l.filter (singled d w f E)).getLast? <;> rfl

/-- The evidence of a pair of places, among what passes a filter. -/
def Has (d : Desktop K) (f : Int) (E : AccessibilityEvidence) (i : Nat) (q : Nat × Nat) : Prop :=
  ∃ w e, d.windows[i]? = some w ∧ passes f w.pid = true ∧ e ∈ entries d.apps f ∧
    e.place = q ∧ accessibilityEvidence d.displays w e.candidate E = true

theorem compositorMatches_eq (c : Candidate K) :
    accessibilityCompositorMatches d c f E = d.windows.zipIdx.countP fun x =>
      passes f x.1.pid && accessibilityEvidence d.displays x.1 c E := by
  unfold accessibilityCompositorMatches
  conv_lhs => rw [← List.zipIdx_map_fst 0 d.windows]
  rw [List.countP_map]
  rfl

variable {i : Nat}

/-- The window itself is counted. -/
theorem compositorMatches_pos (hw : d.windows[i]? = some w) (hf : passes f w.pid = true)
    {c : Candidate K} (hev : accessibilityEvidence d.displays w c E = true) :
    0 < accessibilityCompositorMatches d c f E := by
  refine List.countP_pos_iff.mpr ⟨w, List.mem_of_getElem? hw, ?_⟩
  rw [hf, hev]
  rfl

/-- It is counted alone when no other window has the evidence. -/
theorem compositorMatches_eq_one (hw : d.windows[i]? = some w) (hf : passes f w.pid = true)
    {e : Entry K} (he : e ∈ entries d.apps f)
    (hev : accessibilityEvidence d.displays w e.candidate E = true) :
    accessibilityCompositorMatches d e.candidate f E = 1 ↔
      ∀ {j : Nat}, Has d f E j e.place → j = i := by
  have hmem : (w, i) ∈ d.windows.zipIdx := List.mem_zipIdx_iff_getElem?.mpr hw
  rw [compositorMatches_eq, countP_eq_one (nodup_zipIdx _) hmem (by simp [hf, hev])]
  constructor
  · rintro honly j ⟨w', e', hw', hf', he', hplace, hev'⟩
    obtain rfl := entries_inj he' he hplace
    exact congrArg Prod.snd
      (honly (w', j) (List.mem_zipIdx_iff_getElem?.mpr hw') (by simp [hf', hev']))
  · rintro honly ⟨w', j⟩ hmem' hev'
    have hw' : d.windows[j]? = some w' := List.mem_zipIdx_iff_getElem?.mp hmem'
    obtain ⟨hf', hev'⟩ := Bool.and_eq_true_iff.mp hev'
    obtain rfl := honly (j := j) ⟨w', e, hw', hf', he, rfl, hev'⟩
    rw [Option.some.inj (hw'.symm.trans hw)]

/-- The candidate of a match that its callers take. -/
def AccessibilityMatch.found (m : AccessibilityMatch K) : Option (Nat × Nat) :=
  if m.unique then m.candidate.map Entry.place else none

/-- A search finds the pairs that are each other's only choice. -/
theorem found_find (hw : d.windows[i]? = some w) (hf : passes f w.pid = true)
    {q : Nat × Nat} : (findAccessibilityMatch d w f E).found = some q ↔
      Sole (Has d f E) i q := by
  obtain ⟨hmatched, hambiguous, hcandidate⟩ := foldl_findStep (d := d) (w := w) (f := f)
    (E := E) (entries d.apps f) .empty
  have hunique : (findAccessibilityMatch d w f E).unique = true ↔
      (entries d.apps f).countP (singled d w f E) = 1 ∧
        ∀ e ∈ entries d.apps f, contested d w f E e = false := by
    unfold AccessibilityMatch.unique findAccessibilityMatch
    rw [hmatched, hambiguous]
    simp [AccessibilityMatch.empty]
  have hcandidate : (findAccessibilityMatch d w f E).candidate =
      ((entries d.apps f).filter (singled d w f E)).getLast? :=
    hcandidate.trans (Option.or_none)
  unfold AccessibilityMatch.found
  constructor
  · intro hfound
    split at hfound
    · next h =>
        obtain ⟨hone, hclear⟩ := hunique.mp h
        rw [List.countP_eq_length_filter] at hone
        obtain ⟨e, hfilter⟩ := List.length_eq_one_iff.mp hone
        have honly : ∀ e', e' ∈ entries d.apps f ∧ singled d w f E e' = true ↔ e' = e :=
          fun e' => by rw [← List.mem_filter, hfilter, List.mem_singleton]
        obtain ⟨he, hsingled⟩ := (honly e).mpr rfl
        obtain ⟨hev, hcount⟩ := Bool.and_eq_true_iff.mp hsingled
        rw [hcandidate, hfilter] at hfound
        obtain rfl : e.place = q := Option.some.inj hfound
        refine ⟨⟨w, e, hw, hf, he, rfl, hev⟩, ?_, ?_⟩
        · rintro q' ⟨w', e', hw', -, he', rfl, hev'⟩
          obtain rfl := Option.some.inj (hw'.symm.trans hw)
          have hpos := compositorMatches_pos hw hf hev'
          have hless := hclear e' he'
          simp only [contested, hev', Bool.true_and, decide_eq_false_iff_not] at hless
          have hsingled' : singled d w' f E e' = true := by
            simp only [singled, hev', Bool.true_and, decide_eq_true_eq]
            omega
          rw [(honly e').mp ⟨he', hsingled'⟩]
        · exact (compositorMatches_eq_one hw hf he hev).mp (of_decide_eq_true hcount)
    · cases hfound
  · rintro ⟨⟨w', e, hw', -, he, rfl, hev⟩, hright, hleft⟩
    obtain rfl := Option.some.inj (hw'.symm.trans hw)
    have hcount := (compositorMatches_eq_one hw hf he hev).mpr hleft
    have honly : ∀ e' ∈ entries d.apps f,
        accessibilityEvidence d.displays w' e'.candidate E = true → e' = e :=
      fun e' he' hev' => entries_inj he' he (hright ⟨w', e', hw, hf, he', rfl, hev'⟩)
    have hsingled : singled d w' f E e = true := by simp [singled, hev, hcount]
    have hone : (entries d.apps f).countP (singled d w' f E) = 1 :=
      (countP_eq_one (nodup_entries _ _) he hsingled).mpr fun e' he' h =>
        honly e' he' (Bool.and_eq_true_iff.mp h).1
    have hclear : ∀ e' ∈ entries d.apps f, contested d w' f E e' = false := by
      intro e' he'
      refine Bool.eq_false_iff.mpr fun h => ?_
      obtain ⟨hev', hmany⟩ := Bool.and_eq_true_iff.mp h
      obtain rfl := honly e' he' hev'
      rw [hcount] at hmany
      cases hmany
    rw [if_pos (hunique.mpr ⟨hone, hclear⟩), hcandidate]
    rw [List.countP_eq_length_filter] at hone
    obtain ⟨e', hfilter⟩ := List.length_eq_one_iff.mp hone
    have hmem : e ∈ [e'] := hfilter ▸ List.mem_filter.mpr ⟨he, hsingled⟩
    rw [hfilter, List.mem_singleton.mp hmem]
    rfl

/-- A search comes up with something when the window has the evidence of anything. -/
theorem find_some (hw : d.windows[i]? = some w) (hf : passes f w.pid = true) :
    ((findAccessibilityMatch d w f E).matched ≠ 0 ∨
      (findAccessibilityMatch d w f E).ambiguous = true) ↔ ∃ q, Has d f E i q := by
  obtain ⟨hmatched, hambiguous, -⟩ := foldl_findStep (d := d) (w := w) (f := f)
    (E := E) (entries d.apps f) .empty
  unfold findAccessibilityMatch
  rw [hmatched, hambiguous]
  constructor
  · rintro (h | h)
    · obtain ⟨e, he, hsingled⟩ := List.countP_pos_iff.mp
        (Nat.pos_of_ne_zero fun h0 => h (by rw [h0]; rfl))
      exact ⟨e.place, w, e, hw, hf, he, rfl, (Bool.and_eq_true_iff.mp hsingled).1⟩
    · obtain ⟨e, he, hcontested⟩ := List.any_eq_true.mp h
      exact ⟨e.place, w, e, hw, hf, he, rfl, (Bool.and_eq_true_iff.mp hcontested).1⟩
  · rintro ⟨q, w', e, hw', -, he, -, hev⟩
    obtain rfl := Option.some.inj (hw'.symm.trans hw)
    have hpos := compositorMatches_pos hw hf hev
    by_cases hone : accessibilityCompositorMatches d e.candidate f E = 1
    · have hcounted := countP_pos_of_mem he (p := singled d w' f E) (by simp [singled, hev, hone])
      exact .inl (by simp only [AccessibilityMatch.empty]; omega)
    · refine .inr (List.any_eq_true.mpr ⟨e, he, ?_⟩)
      simp only [contested, hev, Bool.true_and, decide_eq_true_eq]
      omega

theorem unique_find (hw : d.windows[i]? = some w) (hf : passes f w.pid = true) :
    (findAccessibilityMatch d w f E).unique = true ↔ ∃ q, Sole (Has d f E) i q := by
  constructor
  · intro h
    have hcandidate : (findAccessibilityMatch d w f E).candidate.isSome = true := by
      obtain ⟨hmatched, -, hcandidate⟩ := foldl_findStep (d := d) (w := w) (f := f)
        (E := E) (entries d.apps f) .empty
      have hone : (findAccessibilityMatch d w f E).matched = 1 :=
        of_decide_eq_true (Bool.and_eq_true_iff.mp h).1
      unfold findAccessibilityMatch at hone ⊢
      rw [hmatched, List.countP_eq_length_filter] at hone
      obtain ⟨e, hfilter⟩ := List.length_eq_one_iff.mp
        (hone.symm.trans (Nat.zero_add _)).symm
      rw [hcandidate, hfilter]
      rfl
    obtain ⟨e, he⟩ := Option.isSome_iff_exists.mp hcandidate
    refine ⟨e.place, (found_find hw hf).mp ?_⟩
    rw [AccessibilityMatch.found, if_pos h, he]
    rfl
  · rintro ⟨q, hsole⟩
    have hfound := (found_find hw hf).mpr hsole
    rw [AccessibilityMatch.found] at hfound
    split at hfound
    · next h => exact h
    · cases hfound

end Search

/-! ## The stages -/

/-- What asks for less. -/
def AccessibilityEvidence.within (E E' : AccessibilityEvidence) : Bool :=
  (!E.title || E'.title) && (!E.size || E'.size) && (!E.position || E'.position)

def byTitle : AccessibilityEvidence := { title := true }
def bySizedTitle : AccessibilityEvidence := { title := true, size := true }
def byPlacedTitle : AccessibilityEvidence := { title := true, size := true, position := true }
def byPlace : AccessibilityEvidence := { size := true, position := true }
def bySize : AccessibilityEvidence := { size := true }

/-- What the first stage asks for. -/
def firstEvidence (readText : Bool) (f : Int) : AccessibilityEvidence :=
  { title := true, size := !readText || f = 0 }

variable {d : Desktop K} {f : Int} {readText : Bool} {i j : Nat} {q q' : Nat × Nat}

theorem Has.weaken {E E' : AccessibilityEvidence} (h : Has d f E' i q)
    (hle : E.within E' = true) : Has d f E i q := by
  obtain ⟨w, e, hw, hf, he, hplace, hev⟩ := h
  refine ⟨w, e, hw, hf, he, hplace, ?_⟩
  rw [accessibilityEvidence_eq] at hev ⊢
  simp only [AccessibilityEvidence.within, Bool.and_eq_true, Bool.or_eq_true,
    Bool.not_eq_true'] at hle hev ⊢
  obtain ⟨⟨⟨hvisible, htitle⟩, hsize⟩, hposition⟩ := hev
  refine ⟨⟨⟨hvisible, ?_⟩, ?_⟩, ?_⟩
  · exact hle.1.1.elim .inl fun h => htitle.imp_left fun h' => absurd (h'.symm.trans h) nofun
  · exact hle.1.2.elim .inl fun h => hsize.imp_left fun h' => absurd (h'.symm.trans h) nofun
  · exact hle.2.elim .inl fun h => hposition.imp_left fun h' => absurd (h'.symm.trans h) nofun

/-- The stages that ask for the title. -/
def titleStages (readText : Bool) (f : Int) : List AccessibilityEvidence :=
  [firstEvidence readText f, bySizedTitle, byPlacedTitle]

def sizeStages : List AccessibilityEvidence := [byPlace, bySize]

/-- A stage that asks for the title settles the window. -/
def SettledByTitle (d : Desktop K) (readText : Bool) (f : Int) (i : Nat) (q : Nat × Nat) : Prop :=
  ∃ E ∈ titleStages readText f, Sole (Has d f E) i q

/-- No candidate passes the first stage, and one that asks for no title settles the
window. -/
def SettledBySize (d : Desktop K) (readText : Bool) (f : Int) (i : Nat) (q : Nat × Nat) : Prop :=
  (∀ q, ¬ Has d f (firstEvidence readText f) i q) ∧ ∃ E ∈ sizeStages, Sole (Has d f E) i q

/-- One asks for all that the other does. -/
def AccessibilityEvidence.comparable (E E' : AccessibilityEvidence) : Bool :=
  E.within E' || E'.within E

theorem comparable_titleStages {E E' : AccessibilityEvidence} (h : E ∈ titleStages readText f)
    (h' : E' ∈ titleStages readText f) : E.comparable E' = true := by
  have hall : ∀ wantsSize : Bool,
      ∀ E ∈ [{ title := true, size := wantsSize }, bySizedTitle, byPlacedTitle],
        ∀ E' ∈ [{ title := true, size := wantsSize }, bySizedTitle, byPlacedTitle],
          E.comparable E' = true := by
    decide
  exact hall (!readText || f = 0) E h E' h'

theorem comparable_sizeStages {E E' : AccessibilityEvidence} (h : E ∈ sizeStages)
    (h' : E' ∈ sizeStages) : E.comparable E' = true := by
  have hall : ∀ E ∈ sizeStages, ∀ E' ∈ sizeStages, E.comparable E' = true := by decide
  exact hall E h E' h'

theorem within_titleStages {E : AccessibilityEvidence} (h : E ∈ titleStages readText f) :
    (firstEvidence readText f).within E = true := by
  have hall : ∀ wantsSize : Bool,
      ∀ E ∈ [{ title := true, size := wantsSize }, bySizedTitle, byPlacedTitle],
        AccessibilityEvidence.within { title := true, size := wantsSize } E = true := by
    decide
  exact hall (!readText || f = 0) E h

theorem weaken_of_comparable {E E' : AccessibilityEvidence} (h : E.comparable E' = true) :
    (∀ i q, Has d f E' i q → Has d f E i q) ∨ ∀ i q, Has d f E i q → Has d f E' i q :=
  (Bool.or_eq_true_iff.mp h).imp (fun hle _ _ hhas => hhas.weaken hle)
    fun hle _ _ hhas => hhas.weaken hle

theorem SettledByTitle.right_eq (h : SettledByTitle d readText f i q)
    (h' : SettledByTitle d readText f i q') : q' = q := by
  obtain ⟨E, hE, hsole⟩ := h
  obtain ⟨E', hE', hsole'⟩ := h'
  exact hsole.right_eq hsole' (weaken_of_comparable (comparable_titleStages hE hE'))

theorem SettledByTitle.left_eq (h : SettledByTitle d readText f i q)
    (h' : SettledByTitle d readText f j q) : j = i := by
  obtain ⟨E, hE, hsole⟩ := h
  obtain ⟨E', hE', hsole'⟩ := h'
  exact hsole.left_eq hsole' (weaken_of_comparable (comparable_titleStages hE hE'))

theorem SettledBySize.right_eq (h : SettledBySize d readText f i q)
    (h' : SettledBySize d readText f i q') : q' = q := by
  obtain ⟨-, E, hE, hsole⟩ := h
  obtain ⟨-, E', hE', hsole'⟩ := h'
  exact hsole.right_eq hsole' (weaken_of_comparable (comparable_sizeStages hE hE'))

theorem SettledBySize.left_eq (h : SettledBySize d readText f i q)
    (h' : SettledBySize d readText f j q) : j = i := by
  obtain ⟨-, E, hE, hsole⟩ := h
  obtain ⟨-, E', hE', hsole'⟩ := h'
  exact hsole.left_eq hsole' (weaken_of_comparable (comparable_sizeStages hE hE'))

/-- What is settled by title passes the first stage. -/
theorem SettledByTitle.has_first (h : SettledByTitle d readText f i q) :
    Has d f (firstEvidence readText f) i q := by
  obtain ⟨E, hE, hsole⟩ := h
  exact hsole.related.weaken (within_titleStages hE)

/-! ## The stages in their order -/

/-- The match of the first of the stages that is unique, or another. -/
def firstUnique (d : Desktop K) (w : Window K) (f : Int) (stages : List AccessibilityEvidence)
    (otherwise : AccessibilityEvidence) : AccessibilityMatch K :=
  let find := findAccessibilityMatch d w f
  find ((stages.find? fun E => (find E).unique).getD otherwise)

section

variable {w : Window K} {f : Int} {E otherwise : AccessibilityEvidence}
  {stages : List AccessibilityEvidence}

theorem firstUnique_nil : firstUnique d w f [] otherwise = findAccessibilityMatch d w f otherwise :=
  rfl

theorem firstUnique_pos (h : (findAccessibilityMatch d w f E).unique = true) :
    firstUnique d w f (E :: stages) otherwise = findAccessibilityMatch d w f E := by
  simp [firstUnique, h]

theorem firstUnique_neg (h : ¬ (findAccessibilityMatch d w f E).unique = true) :
    firstUnique d w f (E :: stages) otherwise = firstUnique d w f stages otherwise := by
  simp [firstUnique, h]

theorem firstUnique_singleton : firstUnique d w f [E] E = findAccessibilityMatch d w f E := by
  by_cases h : (findAccessibilityMatch d w f E).unique = true
  · exact firstUnique_pos h
  · exact (firstUnique_neg h).trans firstUnique_nil

end

omit [Doubles K] in
theorem many_of_refused {m : AccessibilityMatch K} (hsome : m.matched ≠ 0 ∨ m.ambiguous = true)
    (hrefused : ¬ m.unique = true) : (m.matched > 1 || m.ambiguous) = true := by
  cases hambiguous : m.ambiguous with
  | true => exact Bool.or_true _
  | false =>
      rw [hambiguous] at hsome
      have hmatched : m.matched ≠ 0 := hsome.resolve_right Bool.false_ne_true
      have hmany : m.matched ≠ 1 := by
        intro hone
        exact hrefused (by rw [AccessibilityMatch.unique, hone, hambiguous]; rfl)
      rw [Bool.or_false, decide_eq_true_eq]
      omega

/-- Where a candidate passes the first stage, each stage asks for the title. -/
theorem select_titled {w : Window K}
    (hsome : (findAccessibilityMatch d w (pidFilterOf d w)
        (firstEvidence readText (pidFilterOf d w))).matched ≠ 0 ∨
      (findAccessibilityMatch d w (pidFilterOf d w)
        (firstEvidence readText (pidFilterOf d w))).ambiguous = true) :
    selectAccessibilityMatch d w readText = firstUnique d w (pidFilterOf d w)
      (titleStages readText (pidFilterOf d w)) (firstEvidence readText (pidFilterOf d w)) := by
  unfold selectAccessibilityMatch
  extract_lets f find evidence first sized second title positioned
  by_cases hfirst : first.unique = true
  · have hsecond : second = first := by
      obtain ⟨hone, hclear⟩ := Bool.and_eq_true_iff.mp hfirst
      have hone : first.matched = 1 := of_decide_eq_true hone
      have hclear : first.ambiguous = false := by simpa using hclear
      simp [second, hone, hclear]
    rw [hsecond, if_pos hfirst]
    exact (firstUnique_pos hfirst).symm
  refine Eq.trans ?_ (firstUnique_neg hfirst).symm
  have hmany : (first.matched > 1 || first.ambiguous) = true := many_of_refused hsome hfirst
  by_cases hsized : sized.unique = true
  · have hsecond : second = sized := by
      have hsize : evidence.size = false := by
        rw [Bool.eq_false_iff]
        intro hsize
        have hsame : evidence = bySizedTitle :=
          congrArg (AccessibilityEvidence.mk true · false) hsize
        exact hfirst (show (find evidence).unique = true from hsame ▸ hsized)
      simp [second, hmany, hsize, hsized]
    rw [hsecond, if_pos hsized]
    exact (firstUnique_pos hsized).symm
  refine Eq.trans ?_ (firstUnique_neg hsized).symm
  have hsecond : second = first := by simp [second, hsized]
  have htitle : title = true := by
    simp only [title, hsecond, Bool.or_eq_true, decide_eq_true_eq]
    exact hsome
  have hpositioned : positioned = find byPlacedTitle := by
    simp only [positioned, htitle]
    rfl
  rw [hsecond, if_neg hfirst, hpositioned, htitle]
  by_cases hplaced : (find byPlacedTitle).unique = true
  · rw [if_pos hplaced]
    exact (firstUnique_pos hplaced).symm
  · rw [if_neg hplaced, if_neg (by decide), firstUnique_neg hplaced, firstUnique_nil]
    rfl

/-- Where none does, no stage asks for it. -/
theorem select_untitled {w : Window K}
    (hmatched : (findAccessibilityMatch d w (pidFilterOf d w)
      (firstEvidence readText (pidFilterOf d w))).matched = 0)
    (hambiguous : (findAccessibilityMatch d w (pidFilterOf d w)
      (firstEvidence readText (pidFilterOf d w))).ambiguous = false) :
    selectAccessibilityMatch d w readText =
      firstUnique d w (pidFilterOf d w) sizeStages bySize := by
  unfold selectAccessibilityMatch
  extract_lets f find evidence first sized second title positioned
  have hmatched : first.matched = 0 := hmatched
  have hambiguous : first.ambiguous = false := hambiguous
  have hsecond : second = first := by simp [second, hmatched, hambiguous]
  have hfirst : ¬ first.unique = true := by simp [AccessibilityMatch.unique, hmatched]
  have htitle : title = false := by simp [title, hsecond, hmatched, hambiguous]
  have hpositioned : positioned = find byPlace := by
    simp only [positioned, htitle]
    rfl
  rw [hsecond, if_neg hfirst, hpositioned, htitle]
  by_cases hplaced : (find byPlace).unique = true
  · rw [if_pos hplaced]
    exact (firstUnique_pos hplaced).symm
  · rw [if_neg hplaced]
    refine Eq.trans ?_ (firstUnique_neg hplaced).symm
    rw [if_pos (by decide)]
    exact firstUnique_singleton.symm

/-- What is found by stages of which any two are comparable. -/
theorem found_firstUnique {w : Window K} {f : Int} (hw : d.windows[i]? = some w)
    (hf : passes f w.pid = true) {stages : List AccessibilityEvidence}
    {otherwise : AccessibilityEvidence} (hmem : otherwise ∈ stages)
    (hcomparable : ∀ E ∈ stages, ∀ E' ∈ stages, E.comparable E' = true) :
    (firstUnique d w f stages otherwise).found = some q ↔
      ∃ E ∈ stages, Sole (Has d f E) i q := by
  unfold firstUnique
  dsimp only
  cases hstage : stages.find? fun E => (findAccessibilityMatch d w f E).unique with
  | some E =>
      have hE : E ∈ stages := List.mem_of_find?_eq_some hstage
      have hfirst := List.find?_some hstage
      obtain ⟨q', hq'⟩ := (unique_find hw hf).mp hfirst
      refine (found_find hw hf).trans ⟨fun h => ⟨E, hE, h⟩, ?_⟩
      rintro ⟨E', hE', h⟩
      rw [hq'.right_eq h (weaken_of_comparable (hcomparable E hE E' hE'))]
      exact hq'
  | none =>
      have hnone : ∀ E ∈ stages, ¬ Sole (Has d f E) i q := fun E hE h =>
        List.find?_eq_none.mp hstage E hE ((unique_find hw hf).mpr ⟨q, h⟩)
      refine (found_find hw hf).trans ⟨fun h => absurd h (hnone otherwise hmem), ?_⟩
      rintro ⟨E, hE, h⟩
      exact absurd h (hnone E hE)

theorem found_select {w : Window K} (hw : d.windows[i]? = some w) :
    (selectAccessibilityMatch d w readText).found = some q ↔
      SettledByTitle d readText (pidFilterOf d w) i q ∨
        SettledBySize d readText (pidFilterOf d w) i q := by
  have hf := passes_pidFilterOf d w
  by_cases hany : ∃ q, Has d (pidFilterOf d w) (firstEvidence readText (pidFilterOf d w)) i q
  · have hnosize : ¬ SettledBySize d readText (pidFilterOf d w) i q := fun h =>
      h.1 _ hany.choose_spec
    rw [or_iff_left hnosize, select_titled ((find_some hw hf).mpr hany)]
    exact found_firstUnique hw hf (.head _) fun _ hE _ hE' => comparable_titleStages hE hE'
  · have hnotitle : ¬ SettledByTitle d readText (pidFilterOf d w) i q := fun h =>
      hany ⟨q, h.has_first⟩
    have hneither := mt (find_some hw hf).mp hany
    rw [not_or, not_not, Bool.not_eq_true] at hneither
    rw [or_iff_right hnotitle, select_untitled hneither.1 hneither.2]
    refine (found_firstUnique hw hf (.tail _ (.head _)) fun _ hE _ hE' =>
      comparable_sizeStages hE hE').trans ⟨fun h => ⟨not_exists.mp hany, h⟩, And.right⟩

end Spaces.Computer.Association
