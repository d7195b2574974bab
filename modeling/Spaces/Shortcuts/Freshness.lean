import Spaces.Library.Runs
import Spaces.Shortcuts.Completeness
import Spaces.Shortcuts.Monitor

/-!
# What the guest changes reaches the host

A change in a directory that is watched queues an event, so that the thread does not go
back to sleep on it. A directory is watched once `refresh` has come to it, and `refresh`
comes after the scan: what is changed in a directory that is not watched yet, after the
scan has begun, is neither seen nor reported. `Timely` leaves this out. Then, whenever the
thread sleeps, either an event is queued or the shortcuts are those of the rootfs and all
directories are watched.

The induction runs over the steps of the guest and the thread. While `refresh` is on, the
directories that are not watched are below those it has still to list.
-/

namespace Spaces.Shortcuts

open Spaces.Library

/-! ## The condition -/

/-- An application directory, or below one. -/
def ShortcutWorker.Inside (worker : ShortcutWorker) (place : Place) : Prop :=
  ∃ origin directory, worker.directory origin = some directory ∧ directory <:+ place

instance (worker : ShortcutWorker) (place : Place) : Decidable (worker.Inside place) :=
  decidable_of_iff
    (∃ origin ∈ [Origin.system, .localOrigin], ∃ directory ∈ worker.directory origin,
      directory <:+ place)
    ⟨fun ⟨origin, _, directory, hdirectory, hbelow⟩ => ⟨origin, directory, hdirectory, hbelow⟩,
      fun ⟨origin, directory, hdirectory, hbelow⟩ =>
        ⟨origin, by cases origin <;> simp, directory, hdirectory, hbelow⟩⟩

/-- The guest changes files and directories below the application directories. -/
def ShortcutWorker.Concerns (worker : ShortcutWorker) : Event → Prop
  | .guest change => ∃ above ∈ change.directories, worker.Inside above
  | _ => True

instance (worker : ShortcutWorker) : (e : Event) → Decidable (worker.Concerns e)
  | .guest change =>
      inferInstanceAs (Decidable (∃ above ∈ change.directories, worker.Inside above))
  | .stray => inferInstanceAs (Decidable True)
  | .work _ => inferInstanceAs (Decidable True)

/-- Between the beginning of a scan and the end of the refresh. -/
def Phase.reading : Phase → Bool
  | .scanning _ => true
  | .refreshing _ _ _ => true
  | _ => false

/-- While it reads, and nothing is queued, a change is in a directory that is watched. -/
def Timely (s : State) : Event → Prop
  | .guest change =>
      s.phase.reading = true → s.queued = true ∨ change.reported s.watched = true
  | _ => True

instance (s : State) : (e : Event) → Decidable (Timely s e)
  | .guest change =>
      inferInstanceAs (Decidable (s.phase.reading = true → s.queued = true ∨
        change.reported s.watched = true))
  | .stray => inferInstanceAs (Decidable True)
  | .work _ => inferInstanceAs (Decidable True)

/-! ## What a change leaves -/

namespace Change

variable {change : Change} {rootfs rootfs' : Rootfs}

theorem directories_subset (change : Change) : change.directories ⊆ change.reporters := by
  cases change <;> simp [directories, reporters]

/-- A change is made in directories. -/
theorem directories_dir (h : change.apply rootfs = some rootfs') :
    ∀ above ∈ change.directories, rootfs.kind above = .dir := by
  cases change with
  | create name above node =>
      simp only [apply, FiniteTree.create] at h
      split at h
      · next hmade =>
        simp only [directories, List.mem_singleton, forall_eq]
        exact hmade.1
      · cases h
  | write name above content =>
      simp only [apply, FiniteTree.write] at h
      split at h
      · next hfile =>
        simp only [directories, List.mem_singleton, forall_eq]
        exact rootfs.parents name above (by rw [hfile]; simp)
      · cases h
  | remove name above =>
      simp only [apply, FiniteTree.remove] at h
      split at h
      · next hthere =>
        simp only [directories, List.mem_singleton, forall_eq]
        exact rootfs.parents name above hthere.1
      · cases h
  | rename name above newName newAbove =>
      simp only [apply, FiniteTree.rename] at h
      split at h
      · next hmovable =>
        simp only [directories, List.mem_cons, List.not_mem_nil, or_false, forall_eq_or_imp,
          forall_eq]
        exact ⟨rootfs.parents name above hmovable.present, hmovable.parent⟩
      · cases h

/-- A watch on one of its directories reports a change. -/
theorem reported_of_watched {watched : List Place} {above : Place}
    (h : above ∈ change.directories) (hwatched : above ∈ watched) :
    change.reported watched = true := by
  rw [reported, List.any_eq_true]
  exact ⟨above, change.directories_subset h, decide_eq_true hwatched⟩

end Change

/-! ## The invariant -/

/-- What the rest of a refresh comes to. -/
def ShortcutWorker.Pending (worker : ShortcutWorker) : Phase → Place → Prop
  | .refreshing origins todo listed, place =>
      (∃ origin ∈ origins, ∃ directory,
          worker.directory origin = some directory ∧ directory <:+ place) ∨
        (∃ top ∈ todo, top <:+ place) ∨
        ∃ top subdirectories, listed = some (top, subdirectories) ∧
          (place = top ∨ ∃ child ∈ subdirectories, child <:+ place)
  | _, _ => False

structure UpToDate (worker : ShortcutWorker) (s : State) : Prop where
  exported : worker.generated (worker.guestOf s.rootfs) = .ok s.exported
  watched : ∀ place, s.rootfs.kind place = .dir → worker.Inside place →
    place ∈ s.watched ∨ worker.Pending s.phase place

def Settled (worker : ShortcutWorker) (s : State) : Prop :=
  match s.phase with
  | .draining | .ended => True
  | .scanning disturbed => disturbed = false
  | .waiting | .refreshing _ _ _ => UpToDate worker s

/-- Another round is to come, or nothing has been missed. -/
def Fresh (worker : ShortcutWorker) (s : State) : Prop := s.queued = true ∨ Settled worker s

section

variable {worker : ShortcutWorker} {s : State}

theorem fresh_launched (rootfs : Rootfs) : Fresh worker (ShortcutWorker.launched rootfs) :=
  .inr rfl

theorem fresh_guest {change : Change} (h : Fresh worker s)
    (hconcerns : worker.Concerns (.guest change)) (htimely : Timely s (.guest change)) :
    Fresh worker (worker.next s (.guest change)) := by
  unfold ShortcutWorker.next
  simp only
  split
  · next rootfs' happly =>
    by_cases hreported : s.queued = true ∨ change.reported s.watched = true
    · refine .inl ?_
      simp only [Bool.or_eq_true]
      exact hreported
    · rw [not_or] at hreported
      have hsettled : Settled worker s := h.resolve_left hreported.1
      refine .inr ?_
      unfold Settled at hsettled ⊢
      cases hphase : s.phase with
      | draining => trivial
      | ended => trivial
      | waiting =>
          -- All directories are watched, so that the change is reported.
          rw [hphase] at hsettled
          obtain ⟨above, habove, hinside⟩ := hconcerns
          have hdir := Change.directories_dir happly above habove
          rcases hsettled.watched above hdir hinside with hwatched | hpending
          · exact absurd (Change.reported_of_watched habove hwatched) hreported.2
          · rw [hphase] at hpending
            exact hpending.elim
      | scanning disturbed =>
          have := htimely (by rw [hphase]; rfl)
          exact absurd this (not_or.mpr hreported)
      | refreshing origins todo listed =>
          have := htimely (by rw [hphase]; rfl)
          exact absurd this (not_or.mpr hreported)
  · exact h

/-! ## The walk -/

section

variable {origins : List Origin} {todo : List Place}

/-- What is below a directory is watched or still to come once the walk has listed it. -/
theorem upToDate_list {top : Place} (h : UpToDate worker s)
    (hphase : s.phase = .refreshing origins (top :: todo) none) :
    UpToDate worker (worker.refresh s origins (top :: todo) none) := by
  unfold ShortcutWorker.refresh
  simp only
  split
  · refine ⟨h.exported, fun place hdir hinside => ?_⟩
    refine (h.watched place hdir hinside).imp_right fun hpending => ?_
    rw [hphase] at hpending
    rcases hpending with horigin | ⟨other, hother, hbelow⟩ | ⟨_, _, hlisted, _⟩
    · exact .inl horigin
    · rcases List.mem_cons.mp hother with rfl | hother
      · exact .inr (.inr ⟨_, _, rfl, FiniteTree.dir_cases hdir hbelow⟩)
      · exact .inr (.inl ⟨other, hother, hbelow⟩)
    · cases hlisted
  · next hgone =>
    refine ⟨h.exported, fun place hdir hinside => ?_⟩
    refine (h.watched place hdir hinside).imp_right fun hpending => ?_
    rw [hphase] at hpending
    rcases hpending with horigin | ⟨other, hother, hbelow⟩ | ⟨_, _, hlisted, _⟩
    · exact .inl horigin
    · rcases List.mem_cons.mp hother with rfl | hother
      · -- Below what is no directory there are none.
        obtain ⟨names, rfl⟩ := hbelow
        refine absurd ?_ hgone
        by_cases hnames : names = []
        · rwa [hnames] at hdir
        · exact s.rootfs.dir_of_below hnames (by rw [hdir]; simp)
      · exact .inr (.inl ⟨other, hother, hbelow⟩)
    · cases hlisted

theorem upToDate_add {top : Place} {subdirectories : List Place} (h : UpToDate worker s)
    (hphase : s.phase = .refreshing origins todo (some (top, subdirectories))) :
    UpToDate worker (worker.refresh s origins todo (some (top, subdirectories))) := by
  unfold ShortcutWorker.refresh ShortcutWorker.add
  simp only
  split
  · refine ⟨h.exported, fun place hdir hinside => ?_⟩
    rcases h.watched place hdir hinside with hwatched | hpending
    · exact .inl (List.mem_cons_of_mem _ hwatched)
    · rw [hphase] at hpending
      rcases hpending with horigin | ⟨other, hother, hbelow⟩ | ⟨_, _, hlisted, hplace⟩
      · exact .inr (.inl horigin)
      · exact .inr (.inr (.inl ⟨other, List.mem_append_right _ hother, hbelow⟩))
      · cases hlisted
        rcases hplace with rfl | ⟨child, hchild, hbelow⟩
        · exact .inl List.mem_cons_self
        · exact .inr (.inr (.inl ⟨child, List.mem_append_left _ hchild, hbelow⟩))
  · next hgone =>
    refine ⟨h.exported, fun place hdir hinside => ?_⟩
    refine (h.watched place hdir hinside).imp_right fun hpending => ?_
    rw [hphase] at hpending
    rcases hpending with horigin | ⟨other, hother, hbelow⟩ | ⟨_, _, hlisted, hplace⟩
    · exact .inl horigin
    · exact .inr (.inl ⟨other, List.mem_append_right _ hother, hbelow⟩)
    · cases hlisted
      rcases hplace with rfl | ⟨child, hchild, hbelow⟩
      · exact absurd (by rw [hdir]; simp) hgone
      · exact .inr (.inl ⟨child, List.mem_append_left _ hchild, hbelow⟩)

/-- An application directory that is there is what is found on the way up. -/
theorem existing_of_dir {origin : Origin} {directory : Place}
    (hdirectory : worker.directory origin = some directory)
    (hthere : s.rootfs.kind directory ≠ .absent) :
    worker.isThere s.rootfs (guestPath origin) = true ∧
      worker.existing s.rootfs (guestPath origin) = guestPath origin := by
  have hisThere : worker.isThere s.rootfs (guestPath origin) = true := by
    have hresolve : worker.resolve (guestPath origin) = some directory := hdirectory
    rw [ShortcutWorker.isThere, hresolve]
    exact decide_eq_true hthere
  refine ⟨hisThere, ?_⟩
  cases origin with
  | system =>
      rw [guestPath, ShortcutWorker.existing]
      exact if_pos hisThere
  | localOrigin =>
      rw [guestPath, ShortcutWorker.existing]
      exact if_pos hisThere

theorem watchRoot_kept (worker : ShortcutWorker) (s : State) (origin : Origin)
    (origins : List Origin) :
    (worker.watchRoot origin origins s).rootfs = s.rootfs ∧
      (worker.watchRoot origin origins s).exported = s.exported ∧
      s.watched ⊆ (worker.watchRoot origin origins s).watched ∧
      ∃ todo, (worker.watchRoot origin origins s).phase = .refreshing origins todo none := by
  unfold ShortcutWorker.watchRoot
  split
  · split
    · exact ⟨rfl, rfl, List.subset_cons_self _ _, _, rfl⟩
    · exact ⟨rfl, rfl, List.Subset.refl _, _, rfl⟩
  · exact ⟨rfl, rfl, List.Subset.refl _, _, rfl⟩

/-- The walk begins at an application directory that is there. -/
theorem watchRoot_of_dir {origin : Origin} {directory : Place} (origins : List Origin)
    (hdirectory : worker.directory origin = some directory)
    (hdir : s.rootfs.kind directory = .dir) :
    (worker.watchRoot origin origins s).phase = .refreshing origins [directory] none := by
  obtain ⟨hthere, hexisting⟩ := existing_of_dir (s := s) hdirectory (by rw [hdir]; simp)
  have hresolve : worker.resolve (guestPath origin) = some directory := hdirectory
  unfold ShortcutWorker.watchRoot
  rw [hexisting, hresolve]
  simp only
  rw [if_pos hdir, if_pos hthere]

theorem upToDate_watchRoot {origin : Origin} (h : UpToDate worker s)
    (hphase : s.phase = .refreshing (origin :: origins) [] none) :
    UpToDate worker (worker.watchRoot origin origins s) := by
  obtain ⟨hrootfs, hexported, hwatched, todo, htodo⟩ :=
    watchRoot_kept worker s origin origins
  refine ⟨by rw [hrootfs, hexported]; exact h.exported, fun place hdir hinside => ?_⟩
  rw [hrootfs] at hdir
  rcases h.watched place hdir hinside with hold | hpending
  · exact .inl (hwatched hold)
  refine .inr ?_
  rw [hphase] at hpending
  rcases hpending with ⟨other, hother, directory, hdirectory, hbelow⟩ | ⟨_, htop, _⟩ |
    ⟨_, _, hlisted, _⟩
  · rcases List.mem_cons.mp hother with rfl | hother
    · have htopDir : s.rootfs.kind directory = .dir := by
        obtain ⟨names, rfl⟩ := hbelow
        by_cases hnames : names = []
        · rwa [hnames] at hdir
        · exact s.rootfs.dir_of_below hnames (by rw [hdir]; simp)
      rw [watchRoot_of_dir origins hdirectory htopDir]
      exact .inr (.inl ⟨directory, List.mem_singleton_self _, hbelow⟩)
    · rw [htodo]
      exact .inl ⟨other, hother, directory, hdirectory, hbelow⟩
  · cases htop
  · cases hlisted

end

/-! ## The thread -/

theorem upToDate_refresh {origins : List Origin} {todo : List Place}
    {listed : Option (Place × List Place)} (h : UpToDate worker s)
    (hphase : s.phase = .refreshing origins todo listed) :
    UpToDate worker (worker.refresh s origins todo listed) := by
  match origins, todo, listed with
  | origins, todo, some (top, subdirectories) => exact upToDate_add h hphase
  | origins, top :: todo, none => exact upToDate_list h hphase
  | origin :: origins, [], none => exact upToDate_watchRoot h hphase
  | [], [], none =>
      refine ⟨h.exported, fun place hdir hinside => ?_⟩
      refine (h.watched place hdir hinside).imp_right fun hpending => ?_
      rw [hphase] at hpending
      rcases hpending with ⟨_, horigin, _⟩ | ⟨_, htop, _⟩ | ⟨_, _, hlisted, _⟩
      · cases horigin
      · cases htop
      · cases hlisted

theorem refresh_queued (origins : List Origin) (todo : List Place)
    (listed : Option (Place × List Place)) :
    (worker.refresh s origins todo listed).queued = s.queued := by
  unfold ShortcutWorker.refresh
  split
  · unfold ShortcutWorker.add
    split <;> rfl
  · split <;> rfl
  · unfold ShortcutWorker.watchRoot
    split
    · split <;> rfl
    · rfl
  · rfl

theorem settled_refresh {origins : List Origin} {todo : List Place}
    {listed : Option (Place × List Place)} (h : UpToDate worker s)
    (hphase : s.phase = .refreshing origins todo listed) :
    Settled worker (worker.refresh s origins todo listed) := by
  have hafter := upToDate_refresh h hphase
  have hrefreshing : ∀ origins todo listed, (worker.refresh s origins todo listed).phase =
      .waiting ∨ ∃ origins' todo' listed',
        (worker.refresh s origins todo listed).phase = .refreshing origins' todo' listed' := by
    intro origins todo listed
    unfold ShortcutWorker.refresh
    split
    · exact .inr ⟨_, _, _, rfl⟩
    · split <;> exact .inr ⟨_, _, _, rfl⟩
    · obtain ⟨-, -, -, todo, htodo⟩ := watchRoot_kept worker s _ _
      exact .inr ⟨_, _, _, htodo⟩
    · exact .inl rfl
  unfold Settled
  rcases hrefreshing origins todo listed with hwaiting | ⟨_, _, _, hphase'⟩
  · rw [hwaiting]
    exact hafter
  · rw [hphase']
    exact hafter

/-- A scan that nothing has disturbed finds the rootfs as it is. -/
theorem settled_reconcile : Settled worker (worker.reconcile (worker.guestOf s.rootfs) s) := by
  unfold ShortcutWorker.reconcile
  split
  · next shortcuts hgenerated =>
    refine ⟨hgenerated, fun place _ hinside => .inr (.inl ?_)⟩
    obtain ⟨origin, directory, hdirectory, hbelow⟩ := hinside
    refine ⟨origin, ?_, directory, hdirectory, hbelow⟩
    cases origin <;> simp
  · trivial

theorem reconcile_queued (guest : Guest) : (worker.reconcile guest s).queued = s.queued := by
  unfold ShortcutWorker.reconcile
  split <;> rfl

theorem fresh_work (found : Guest) (h : Fresh worker s) : Fresh worker (worker.work found s) := by
  unfold ShortcutWorker.work
  split
  · next hphase =>
    split
    · exact .inr trivial
    · exact h
  · next hphase =>
    split
    · refine .inr ?_
      unfold Settled
      rw [hphase]
      trivial
    · exact .inr rfl
  · next disturbed hphase =>
    rcases h with hqueued | hsettled
    · exact .inl ((reconcile_queued _).trans hqueued)
    · unfold Settled at hsettled
      rw [hphase] at hsettled
      cases hsettled
      exact .inr settled_reconcile
  · next origins todo listed hphase =>
    rcases h with hqueued | hsettled
    · exact .inl ((refresh_queued _ _ _).trans hqueued)
    · unfold Settled at hsettled
      rw [hphase] at hsettled
      exact .inr (settled_refresh hsettled hphase)
  · exact h

theorem fresh_next {e : Event} (h : Fresh worker s) (hconcerns : worker.Concerns e)
    (htimely : Timely s e) : Fresh worker (worker.next s e) := by
  cases e with
  | guest change => exact fresh_guest h hconcerns htimely
  | stray => exact .inl rfl
  | work found => exact fresh_work found h

end

/-- Where no change comes while the thread reads in a directory that is not watched yet, a
thread that sleeps with nothing queued has exported the shortcuts of the rootfs. -/
theorem exported_of_timely (worker : ShortcutWorker) {rootfs : Rootfs} {s : State}
    (h : Guarded worker.next (fun s e => worker.Concerns e ∧ Timely s e)
      (ShortcutWorker.launched rootfs) s)
    (hwaiting : s.phase = .waiting) (hqueued : s.queued = false) :
    worker.generated (worker.guestOf s.rootfs) = .ok s.exported := by
  have hfresh : Fresh worker s := h.invariant (fresh_launched rootfs) fun t e ht hok =>
    fresh_next ht hok.1 hok.2
  rcases hfresh with hqueued' | hsettled
  · rw [hqueued] at hqueued'
    cases hqueued'
  · unfold Settled at hsettled
    rw [hwaiting] at hsettled
    exact hsettled.exported

/-! ## A directory that is made before the scan -/

def plainContent : Content := ⟨51, plainEntry⟩

def sampleWorker : ShortcutWorker where
  rt := sampleRuntime
  spaceName := sampleSpace
  resolve := some
  icon _ _ := none

/-- A space with the first of the two application directories. -/
def sampleRootfs : Rootfs where
  kind place :=
    if [[], [usr], [share, usr], [applications, share, usr]].contains place then .dir
    else .absent
  root := rfl
  parents := by
    intro name place h
    split at h
    · next hplace =>
      rw [List.contains_iff_mem] at hplace
      simp only [List.mem_cons, List.not_mem_nil, or_false, List.cons.injEq] at hplace
      rcases hplace with h | ⟨-, rfl⟩ | ⟨-, rfl⟩ | ⟨-, rfl⟩
      · cases h
      · rfl
      · rfl
      · rfl
    · exact absurd rfl h
  support := [[], [usr], [share, usr], [applications, share, usr]]
  mem_support := by
    intro place h
    split at h
    · next hplace => exact List.contains_iff_mem.mp hplace
    · exact absurd rfl h

def sub : FileName := ⟨fsText "sub".toList, by decide, by decide⟩

def makeSub : Event := .guest (.create sub (guestPath .system) .dir)
def makeFile : Event :=
  .guest (.create plainFile.relative.name (sub :: guestPath .system) (.file plainContent))

/-- Steps of the thread alone. -/
def works (n : Nat) : List Event := List.replicate n (.work (guestOf []))

/-- The directory wakes the thread up, which has read all of it when the file comes. -/
def lateFile : List Event := works 6 ++ [makeSub] ++ works 3 ++ [makeFile] ++ works 7

/-- The file comes while the thread still reads the queue. -/
def earlyFile : List Event := works 6 ++ [makeSub] ++ works 1 ++ [makeFile] ++ works 9

theorem exported_earlyFile :
    (earlyFile.foldl sampleWorker.next (ShortcutWorker.launched sampleRootfs)).exported.length = 1 ∧
      sampleWorker.generated (sampleWorker.guestOf
          (earlyFile.foldl sampleWorker.next (ShortcutWorker.launched sampleRootfs)).rootfs) =
        .ok (earlyFile.foldl sampleWorker.next (ShortcutWorker.launched sampleRootfs)).exported :=
  ⟨by decide +kernel,
    exported_of_timely sampleWorker (Guarded.start.foldl (by decide +kernel))
      (by decide +kernel) (by decide +kernel)⟩

/-- The thread sleeps, nothing is queued, and the file is not exported. -/
theorem lateFile_missed :
    ∃ s, Guarded sampleWorker.next (fun _ e => sampleWorker.Concerns e)
        (ShortcutWorker.launched sampleRootfs) s ∧
      s.phase = .waiting ∧ s.queued = false ∧
        sampleWorker.generated (sampleWorker.guestOf s.rootfs) ≠ .ok s.exported :=
  ⟨lateFile.foldl sampleWorker.next (ShortcutWorker.launched sampleRootfs),
    Guarded.start.foldl (by decide +kernel), by decide +kernel, by decide +kernel,
    by decide +kernel⟩

end Spaces.Shortcuts
