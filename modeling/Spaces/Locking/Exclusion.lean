import Spaces.Locking.SpaceLock

/-!
# One process in the body

The lock of a directory is no lock of the path: a waiter can get it when the directory
is no longer there. What makes it one is the comparison after it. A process passes it
only with the directory at the path, and from then on nobody else can enter before it
has removed that directory, since only a process in the body removes, and what is at the
path stays its own.

A process of which the directory has been removed is still in the body, with nothing
left to do there; another may have made the directory anew and entered.
-/

namespace Spaces.Locking

open Spaces.Library

variable {ι : Type}

/-! ## The invariant -/

/-- What a process knows at each call. -/
def Sound (s : System ι) (q : ι) : Prop :=
  match (s.process q).phase with
  | .lock => ∃ d, (s.process q).descriptor = some d
  | .compare | .removed => ∃ d, (s.process q).descriptor = some d ∧ s.owner d = some q
  | .body => ∃ d, (s.process q).descriptor = some d ∧ s.owner d = some q ∧ s.entry = .dir d
  | .unlock => ∃ d, (s.process q).descriptor = some d
  | .closeDescriptor => ∀ d, s.owner d ≠ some q
  | _ => (s.process q).descriptor = none

structure Inv (s : System ι) : Prop where
  sound : ∀ q, Sound s q
  owned : ∀ d q, s.owner d = some q → (s.process q).descriptor = some d
  /-- The number tells the directory at the path from all that are open. -/
  named : ∀ q d e, (s.process q).descriptor = some d → s.entry = .dir e → d.id = e.id → d = e

/-- In the body, and not as one that has removed the directory. -/
def System.Inside (s : System ι) (q : ι) : Prop := (s.process q).phase = .body

def System.InBody (s : System ι) (q : ι) : Prop :=
  (s.process q).phase = .body ∨ (s.process q).phase = .removed

theorem Initial.inv {s : System ι} (h : Initial s) : Inv s := by
  refine ⟨fun q => ?_, fun d q hq => ?_, fun q d e hd => ?_⟩
  · unfold Sound
    rw [(h.process q).1]
    exact (h.process q).2
  · rw [h.owner] at hq
    cases hq
  · rw [(h.process q).2] at hd
    cases hd

section

variable {s : System ι}

theorem Inv.inside (h : Inv s) {q : ι} (hq : s.Inside q) :
    ∃ d, (s.process q).descriptor = some d ∧ s.owner d = some q ∧ s.entry = .dir d := by
  have hsound := h.sound q
  unfold Sound at hsound
  rw [hq] at hsound
  exact hsound

/-- The lock of the directory at the path has one owner. -/
theorem Inv.exclusive (h : Inv s) {p q : ι} (hp : s.Inside p) (hq : s.Inside q) : p = q := by
  obtain ⟨d, -, hd, hentry⟩ := h.inside hp
  obtain ⟨e, -, he, hentry'⟩ := h.inside hq
  rw [hentry] at hentry'
  cases hentry'
  rw [hd] at he
  cases he
  rfl

/-- A process keeps what it knows when its own state and locks stay, and the path as long
as it is inside. -/
theorem Sound.of_same {t : System ι} {p : ι} (h : Sound s p)
    (hprocess : t.process p = s.process p) (howner : ∀ d, t.owner d = some p ↔ s.owner d = some p)
    (hentry : s.Inside p → t.entry = s.entry) : Sound t p := by
  unfold Sound at h ⊢
  rw [hprocess]
  split at h
  · next hp => simpa only [hp] using h
  · next hp => simpa only [hp, howner] using h
  · next hp => simpa only [hp, howner] using h
  · next hp => simpa only [hp, howner, hentry hp] using h
  · next hp => simpa only [hp] using h
  · exact fun d hd => h d ((howner d).mp hd)
  · exact h

/-! ## What a step can do -/

/-- The phases without a descriptor. -/
def Phase.outside : Phase → Bool
  | .lock | .compare | .body | .removed | .unlock | .closeDescriptor => false
  | _ => true

theorem Inv.outside (h : Inv s) {q : ι} (hout : (s.process q).phase.outside = true) :
    (s.process q).descriptor = none := by
  have hsound := h.sound q
  unfold Sound at hsound
  split at hsound
  all_goals first
    | exact hsound
    | next hp =>
        rw [hp] at hout
        cases hout

theorem Inv.opened (h : Inv s) {q : ι} (hin : (s.process q).phase.outside = false)
    (hclose : (s.process q).phase ≠ .closeDescriptor) :
    ∃ d, (s.process q).descriptor = some d := by
  have hsound := h.sound q
  unfold Sound at hsound
  split at hsound
  · exact hsound
  · exact ⟨_, hsound.choose_spec.1⟩
  · exact ⟨_, hsound.choose_spec.1⟩
  · exact ⟨_, hsound.choose_spec.1⟩
  · exact hsound
  · next hp => exact absurd hp hclose
  · unfold Phase.outside at hin
    split at hin
    all_goals contradiction

theorem sound_of_outside {q : ι} (hout : (s.process q).phase.outside = true)
    (hdescriptor : (s.process q).descriptor = none) : Sound s q := by
  unfold Sound
  split
  all_goals first
    | exact hdescriptor
    | next hp =>
        rw [hp] at hout
        cases hout

/-- A directory that is made is none that is open. -/
theorem Inv.withDirectory (h : Inv s) {id : FileId} (habsent : s.entry = .absent)
    (hid : Unused s id) : Inv (s.withDirectory id) := by
  refine ⟨fun p => ?_, h.owned, fun p d e hd he heq => ?_⟩
  · refine (h.sound p).of_same rfl (fun _ => Iff.rfl) fun hp => ?_
    obtain ⟨d, -, -, hentry⟩ := h.inside hp
    rw [habsent] at hentry
    cases hentry
  · cases he
    exact absurd heq (hid p d hd)

variable [DecidableEq ι]

/-- What a process does to the path, the locks and itself. -/
inductive Move (s : System ι) (q : ι) : System ι → Prop
  | walk (process : Process) : (s.process q).phase.outside = true →
      process.descriptor = (s.process q).descriptor → process.phase.outside = true →
      Move s q (s.set q process)
  | make (id : FileId) : (s.process q).phase = .makeDirectory → s.entry = .absent →
      Unused s id → Move s q ((s.withDirectory id).goTo q .ownedIsSymlink)
  | makeHome (id : FileId) : s.Inside q → s.entry = .absent → Unused s id →
      Move s q (s.withDirectory id)
  | openPath (d : Directory) : (s.process q).phase = .openPath → s.entry = .dir d →
      Move s q (s.set q { s.process q with phase := .lock, descriptor := some d })
  | lock (d : Directory) : (s.process q).phase = .lock → (s.process q).descriptor = some d →
      s.owner d = none →
      Move s q { s.goTo q .compare with owner := Function.update s.owner d (some q) }
  | enter (d e : Directory) : (s.process q).phase = .compare →
      (s.process q).descriptor = some d → s.entry = .dir e → d.id = e.id →
      Move s q (s.goTo q .body)
  | remove (d : Directory) : s.Inside q → s.entry = .dir d →
      Move s q { s.goTo q .removed with entry := .absent }
  | finish : (s.process q).phase.outside = false → (s.process q).phase ≠ .closeDescriptor →
      Move s q (s.goTo q .unlock)
  | unlock : (s.process q).phase = .unlock → Move s q ((s.released q).goTo q .closeDescriptor)
  | close : (s.process q).phase = .closeDescriptor → Move s q (s.closed q)
  | kill : Move s q ((s.released q).closed q)

/-- Whatever raises goes out: to the `finally` with a descriptor, and to the end without. -/
theorem move_raise (h : Inv s) {q : ι} (hclose : (s.process q).phase ≠ .closeDescriptor) :
    Move s q (s.raise q) := by
  unfold System.raise
  cases hout : (s.process q).phase.outside with
  | true =>
      rw [h.outside hout]
      exact .walk _ hout rfl rfl
  | false =>
      obtain ⟨d, hd⟩ := h.opened hout hclose
      rw [hd]
      exact .finish hout hclose

theorem move_go (h : Inv s) {q : ι} {id : FileId} (hok : NotReused s (.go q id)) :
    s.go q id = s ∨ Move s q (s.go q id) := by
  have hwalk : ∀ phase : Phase, (s.process q).phase.outside = true → phase.outside = true →
      Move s q (s.goTo q phase) := fun phase hout hphase => .walk _ hout rfl hphase
  have hraise : (s.process q).phase ≠ .closeDescriptor → Move s q (s.raise q) :=
    move_raise h
  unfold System.go
  split
  · exact .inl rfl
  · exact .inl rfl
  · exact .inl rfl
  · next hp =>
      rw [hp] at hwalk hraise
      split
      · exact .inr (hraise (by simp))
      · exact .inr (hwalk _ rfl rfl)
  · next hp =>
      rw [hp] at hwalk
      exact .inr (hwalk _ rfl (by split <;> rfl))
  · next hp =>
      rw [hp] at hwalk hraise
      split
      · exact .inr (hwalk _ rfl rfl)
      · exact .inr (hraise (by simp))
  · next hp =>
      rw [hp] at hwalk hraise
      dsimp only
      split
      · exact .inr (hraise (by simp))
      · exact .inr (hwalk _ rfl (by split <;> rfl))
  · next hp =>
      rw [hp] at hwalk
      unfold System.makeDirectory
      split
      · next hentry => exact .inr (.make id hp hentry (hok hp))
      · exact .inr (hwalk _ rfl rfl)
  · next hp =>
      rw [hp] at hwalk hraise
      split
      · exact .inr (hwalk _ rfl rfl)
      · exact .inr (hraise (by simp))
  · next hp =>
      rw [hp] at hwalk hraise
      split
      · exact .inr (hraise (by simp))
      · exact .inr (hwalk _ rfl rfl)
  · next hp =>
      rw [hp] at hwalk hraise
      split
      · exact .inr (hwalk _ rfl rfl)
      · exact .inr (hraise (by simp))
  · next hp =>
      rw [hp] at hwalk hraise
      split
      · exact .inr (hwalk _ rfl rfl)
      · exact .inr (hraise (by simp))
  · next hp =>
      rw [hp] at hwalk hraise
      split
      · exact .inr (hwalk _ rfl rfl)
      · exact .inr (hraise (by simp))
  · next hp =>
      rw [hp] at hraise
      unfold System.openPath
      split
      · next d hentry => exact .inr (.openPath d hp hentry)
      · exact .inr (hraise (by simp))
  · next hp =>
      unfold System.lock
      split
      · exact .inl rfl
      · next d hd =>
          split
          · next hfree => exact .inr (.lock d hp hd hfree)
          · exact .inl rfl
  · next hp =>
      rw [hp] at hraise
      unfold System.compare
      split
      · next d e hd hentry =>
          split
          · exact .inr (hraise (by simp))
          · next heq =>
              push Not at heq
              have hid : d.id = e.id := by
                cases hdid : d.id
                cases heid : e.id
                simp_all
              exact .inr (.enter d e hp hd hentry hid)
      · exact .inr (hraise (by simp))
  · next hp => exact .inr (.unlock hp)
  · next hp => exact .inr (.close hp)

/-- Each step is nothing, or one of the moves. -/
theorem step_moves (h : Inv s) {e : Event ι} (hok : NotReused s e) :
    step s e = s ∨ Move s e.process (step s e) := by
  cases e with
  | call q operation =>
      simp only [step]
      split
      · next hp => exact .inr (.walk _ (by rw [Event.process, hp]; rfl) rfl rfl)
      · exact .inl rfl
  | go q id => exact move_go h hok
  | makeHome q id =>
      simp only [step]
      split
      · next hp =>
          split
          · next hentry => exact .inr (.makeHome id hp.1 hentry hok)
          · exact .inl rfl
      · exact .inl rfl
  | remove q =>
      simp only [step]
      split
      · next hp =>
          split
          · next d hentry => exact .inr (.remove d hp.1 hentry)
          · exact .inr (move_raise h (by rw [Event.process, hp.1]; simp))
      · exact .inl rfl
  | leave q =>
      simp only [step]
      split
      · next hp =>
          rcases hp with hp | hp
          · exact .inr (.finish (by rw [Event.process, hp]; rfl) (by rw [Event.process, hp]; simp))
          · exact .inr (.finish (by rw [Event.process, hp]; rfl) (by rw [Event.process, hp]; simp))
      · exact .inl rfl
  | fail q =>
      simp only [step]
      split
      · exact .inl rfl
      · exact .inl rfl
      · exact .inl rfl
      · next hclose => exact .inr (move_raise h hclose)
  | kill q => exact .inr .kill

/-! ## What a move keeps -/

theorem Inv.of_move {t : System ι} {q : ι} (h : Inv s)
    (hothers : ∀ p, p ≠ q → t.process p = s.process p ∧
      (∀ d, t.owner d = some p ↔ s.owner d = some p) ∧ (s.Inside p → t.entry = s.entry))
    (hsound : Sound t q)
    (howned : ∀ d, t.owner d = some q → (t.process q).descriptor = some d)
    (hnamed : ∀ p d e, (t.process p).descriptor = some d → t.entry = .dir e → d.id = e.id →
      d = e) : Inv t := by
  refine ⟨fun p => ?_, fun d p hd => ?_, hnamed⟩
  · by_cases hpq : p = q
    · rw [hpq]
      exact hsound
    · obtain ⟨hprocess, howner, hentry⟩ := hothers p hpq
      exact (h.sound p).of_same hprocess howner hentry
  · by_cases hpq : p = q
    · subst hpq
      exact howned d hd
    · obtain ⟨hprocess, howner, -⟩ := hothers p hpq
      rw [hprocess]
      exact h.owned d p ((howner d).mp hd)

@[simp] theorem set_self (q : ι) (process : Process) : (s.set q process).process q = process :=
  Function.update_self ..

@[simp] theorem set_other {p q : ι} (h : p ≠ q) (process : Process) :
    (s.set q process).process p = s.process p := Function.update_of_ne h ..

@[simp] theorem set_entry (q : ι) (process : Process) : (s.set q process).entry = s.entry := rfl

@[simp] theorem set_owner (q : ι) (process : Process) : (s.set q process).owner = s.owner := rfl

/-- A process that goes on keeps what it has open. -/
theorem descriptor_goTo (q p : ι) (phase : Phase) :
    ((s.goTo q phase).process p).descriptor = (s.process p).descriptor := by
  by_cases hpq : p = q
  · rw [hpq, System.goTo, set_self]
  · rw [System.goTo, set_other hpq]

@[simp] theorem released_process (q : ι) : (s.released q).process = s.process := rfl

@[simp] theorem released_entry (q : ι) : (s.released q).entry = s.entry := rfl

theorem released_owner_other {p q : ι} (h : p ≠ q) (d : Directory) :
    (s.released q).owner d = some p ↔ s.owner d = some p := by
  simp only [System.released]
  split
  · next hd => simp [hd.1, h.symm]
  · rfl

/-- All the locks of a process go. -/
theorem Inv.released_owner_self (h : Inv s) (q : ι) (d : Directory) :
    (s.released q).owner d ≠ some q := by
  intro hd
  simp only [System.released] at hd
  split at hd
  · cases hd
  · next hnot => exact hnot ⟨hd, h.owned d q hd⟩

/-- When only one process changes, and not what it has open. -/
theorem Inv.set (h : Inv s) {q : ι} {process : Process}
    (hdescriptor : process.descriptor = (s.process q).descriptor)
    (hsound : Sound (s.set q process) q) : Inv (s.set q process) := by
  refine h.of_move (q := q) (fun p hp => ⟨set_other hp _, fun _ => Iff.rfl, fun _ => rfl⟩) hsound
    (fun d hd => ?_) fun p d e hd => ?_
  · rw [set_self, hdescriptor]
    exact h.owned d q hd
  · by_cases hp : p = q
    · rw [hp, set_self, hdescriptor] at hd
      exact h.named q d e hd
    · rw [set_other hp] at hd
      exact h.named p d e hd

/-- A process is at its end, and has no lock. -/
theorem Inv.closed {t : System ι} {q : ι} (h : Inv s) (hprocess : t.process = s.process)
    (hentry : t.entry = s.entry)
    (howner : ∀ p, p ≠ q → ∀ d, t.owner d = some p ↔ s.owner d = some p)
    (hlocks : ∀ d, t.owner d ≠ some q) : Inv (t.closed q) := by
  refine h.of_move (q := q) (fun p hp => ⟨?_, howner p hp, fun _ => hentry⟩) ?_
    (fun d hd => absurd hd (hlocks d)) fun p d e hd he => ?_
  · rw [System.closed, set_other hp, hprocess]
  · exact sound_of_outside (by rw [System.closed, set_self]; rfl) (by rw [System.closed, set_self])
  · by_cases hp : p = q
    · rw [hp, System.closed, set_self] at hd
      cases hd
    · rw [System.closed, set_other hp, hprocess] at hd
      exact h.named p d e hd (hentry ▸ he)

theorem move_inv (h : Inv s) {q : ι} {t : System ι} (hmove : Move s q t) : Inv t := by
  cases hmove with
  | walk process hout hdescriptor hphase =>
      refine h.set hdescriptor (sound_of_outside ?_ ?_)
      · rw [set_self]
        exact hphase
      · rw [set_self, hdescriptor]
        exact h.outside hout
  | make id hp habsent hid =>
      have hmade := h.withDirectory habsent hid
      refine hmade.set rfl (sound_of_outside ?_ ?_)
      · rw [set_self]
        rfl
      · rw [set_self]
        exact h.outside (by rw [hp]; rfl)
  | makeHome id _ habsent hid => exact h.withDirectory habsent hid
  | openPath d hp hentry =>
      have hnone : (s.process q).descriptor = none := h.outside (by rw [hp]; rfl)
      refine h.of_move (q := q) (fun p hpq => ⟨set_other hpq _, fun _ => Iff.rfl, fun _ => rfl⟩)
        ?_ (fun d' hd' => ?_) fun p d' e hd' he hid => ?_
      · unfold Sound
        rw [set_self]
        exact ⟨d, rfl⟩
      · have hopen := h.owned d' q hd'
        rw [hnone] at hopen
        cases hopen
      · by_cases hpq : p = q
        · rw [hpq, set_self] at hd'
          rw [set_entry, hentry] at he
          cases hd'
          cases he
          rfl
        · rw [set_other hpq] at hd'
          exact h.named p d' e hd' he hid
  | lock d hp hd hfree =>
      refine h.of_move (q := q) (fun p hpq => ⟨set_other hpq _, fun d' => ?_, fun _ => rfl⟩)
        ?_ (fun d' hd' => ?_) fun p d' e hd' he hid => ?_
      · by_cases hdd : d' = d
        · subst hdd
          simp [hfree, hpq.symm]
        · simp [Function.update_of_ne hdd]
      · unfold Sound
        simp only [System.goTo, set_self]
        exact ⟨d, hd, Function.update_self ..⟩
      · simp only [System.goTo, set_self] at hd' ⊢
        by_cases hdd : d' = d
        · rw [hdd, hd]
        · rw [Function.update_of_ne hdd] at hd'
          exact h.owned d' q hd'
      · rw [descriptor_goTo] at hd'
        exact h.named p d' e hd' he hid
  | enter d e hp hd hentry hid =>
      have hsound := h.sound q
      unfold Sound at hsound
      rw [hp] at hsound
      obtain ⟨d', hd', howner⟩ := hsound
      rw [hd] at hd'
      cases hd'
      have heq := h.named q d e hd hentry hid
      subst heq
      refine h.set rfl ?_
      unfold Sound
      rw [set_self]
      exact ⟨d, hd, howner, hentry⟩
  | remove d hq hentry =>
      obtain ⟨d', hd', howner, -⟩ := h.inside hq
      refine h.of_move (q := q) (fun p hpq => ⟨set_other hpq _, fun _ => Iff.rfl, fun hp => ?_⟩)
        ?_ (fun d hd => ?_) fun p d e hd he => ?_
      · exact absurd (h.exclusive hp hq) hpq
      · unfold Sound
        simp only [System.goTo, set_self]
        exact ⟨d', hd', howner⟩
      · simp only [System.goTo, set_self]
        exact h.owned d q hd
      · cases he
  | finish hin hclose =>
      refine h.set rfl ?_
      unfold Sound
      rw [set_self]
      exact h.opened hin hclose
  | unlock hp =>
      refine h.of_move (q := q) (fun p hpq => ⟨set_other hpq _, released_owner_other hpq,
        fun _ => rfl⟩) ?_ (fun d hd => absurd hd (h.released_owner_self q d)) fun p d e hd => ?_
      · unfold Sound
        simp only [System.goTo, set_self]
        exact h.released_owner_self q
      · rw [descriptor_goTo, released_process] at hd
        exact h.named p d e hd
  | close hp =>
      have hsound := h.sound q
      unfold Sound at hsound
      rw [hp] at hsound
      exact h.closed rfl rfl (fun _ _ _ => Iff.rfl) hsound
  | kill => exact h.closed rfl rfl (fun _ hpq => released_owner_other hpq) (h.released_owner_self q)

theorem step_inv (h : Inv s) {e : Event ι} (hok : NotReused s e) : Inv (step s e) := by
  rcases step_moves h hok with hsame | hmove
  · rw [hsame]
    exact h
  · exact move_inv h hmove

/-! ## Runs -/

theorem inv_run {start : System ι} (hstart : Initial start) (h : Guarded step NotReused start s) :
    Inv s :=
  h.invariant hstart.inv fun _ _ hinv hok => step_inv hinv hok

/-- What a process does that neither changes the path nor has anything of another. -/
structure Leaves (s : System ι) (q : ι) (t : System ι) : Prop where
  entry : t.entry = s.entry
  others : ∀ p, p ≠ q → t.process p = s.process p ∧ ∀ d, t.owner d = some p ↔ s.owner d = some p
  out : t = s ∨ ¬t.InBody q

theorem leaves_goTo {q : ι} {phase : Phase} (h : phase ≠ .body ∧ phase ≠ .removed) :
    Leaves s q (s.goTo q phase) := by
  refine ⟨rfl, fun p hp => ⟨set_other hp _, fun _ => Iff.rfl⟩, .inr fun hbody => ?_⟩
  simp only [System.InBody, System.goTo, set_self] at hbody
  rcases hbody with hbody | hbody
  · exact h.1 hbody
  · exact h.2 hbody

/-- A process that has removed the directory has nothing more to do in the body. -/
theorem removed_step {q : ι} (hq : (s.process q).phase = .removed) {e : Event ι}
    (he : e.process = q) : Leaves s q (step s e) := by
  have hself : Leaves s q s := ⟨rfl, fun p _ => ⟨rfl, fun _ => Iff.rfl⟩, .inl rfl⟩
  have hraise : Leaves s q (s.raise q) := by
    unfold System.raise
    exact leaves_goTo (by split <;> simp)
  subst he
  cases e with
  | call q operation =>
      simp only [Event.process] at hq
      simpa only [step, hq, reduceCtorEq, if_false] using hself
  | go q id =>
      simp only [Event.process] at hq
      simpa only [step, System.go, hq] using hself
  | makeHome q id =>
      simp only [Event.process] at hq
      simpa only [step, hq, reduceCtorEq, false_and, if_false] using hself
  | remove q =>
      simp only [Event.process] at hq
      simpa only [step, hq, reduceCtorEq, false_and, if_false] using hself
  | leave q =>
      simp only [Event.process] at hq
      simp only [step, hq, or_true, if_true]
      exact leaves_goTo (by simp)
  | fail q =>
      simp only [Event.process] at hq
      simp only [step, hq]
      exact hraise
  | kill q =>
      refine ⟨rfl, fun p hp => ⟨set_other hp _, released_owner_other hp⟩, .inr fun hbody => ?_⟩
      simp [System.InBody, System.closed, step, Event.process] at hbody

/-- In every run at most one process is in the body that has not removed the directory, and
its lock is on the directory at the path. -/
theorem spaceLock_exclusive {start : System ι} (hstart : Initial start)
    (h : Guarded step NotReused start s) :
    (∀ p q, s.Inside p → s.Inside q → p = q) ∧
      (∀ q, s.Inside q → ∃ d, (s.process q).descriptor = some d ∧ s.owner d = some q ∧
        s.entry = .dir d) ∧
      ∀ q, s.InBody q → ¬s.Inside q → ∀ e, e.process = q → Leaves s q (step s e) := by
  have hinv := inv_run hstart h
  refine ⟨fun p q hp hq => hinv.exclusive hp hq, fun q hq => hinv.inside hq,
    fun q hbody hnot e he => removed_step ?_ he⟩
  rcases hbody with hbody | hbody
  · exact absurd hbody hnot
  · exact hbody

end

/-! ## A directory that is made anew -/

/-- One process is to delete the Space, and another to create it. -/
def twoCallers : System Bool where
  entry := .dir ⟨⟨1, 5⟩, 0⟩
  owner := fun _ => none
  process := fun _ => {}
  made := 1

/-- The directory is removed, and before the lock is given up it is made anew. -/
def deletedAndMade : List (Event Bool) :=
  .call false .delete :: List.replicate 7 (.go false ⟨1, 6⟩) ++ .remove false ::
    .call true .create :: List.replicate 11 (.go true ⟨1, 6⟩)

def madeAnew : System Bool := deletedAndMade.foldl step twoCallers

theorem madeAnew_reached : Guarded step NotReused twoCallers madeAnew :=
  Guarded.start.foldl (by decide)

theorem spaceLock_exclusive_madeAnew :
    (∀ p q, madeAnew.Inside p → madeAnew.Inside q → p = q) ∧
      (∀ q, madeAnew.Inside q → ∃ d, (madeAnew.process q).descriptor = some d ∧
        madeAnew.owner d = some q ∧ madeAnew.entry = .dir d) ∧
      ∀ q, madeAnew.InBody q → ¬madeAnew.Inside q → ∀ e, e.process = q →
        Leaves madeAnew q (step madeAnew e) :=
  spaceLock_exclusive ⟨fun _ => rfl, fun _ => ⟨rfl, rfl⟩⟩ madeAnew_reached

/-- The one that has removed the directory is still in the body when the other enters. -/
theorem madeAnew_both :
    ∃ s, Guarded step NotReused twoCallers s ∧ ¬∀ p q, s.InBody p → s.InBody q → p = q := by
  refine ⟨madeAnew, madeAnew_reached, fun h => ?_⟩
  have hfalse : madeAnew.InBody false := .inr (by decide)
  have htrue : madeAnew.InBody true := .inl (by decide)
  cases h false true hfalse htrue

end Spaces.Locking
