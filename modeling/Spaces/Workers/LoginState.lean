import Spaces.Library.Runs
import Spaces.Workers.HomeMounts

/-!
# Home binds and the login state

What the worker takes for bound is what is bound, and of users who are logged in.
Unbinding from the inside out never takes more off than it is meant to: what is
further down belongs to the same user, and went before.

This rests on the mounts that were prepared: one to a destination, and those below
another of the same user. Two entries for one user prepare the same mounts twice;
the launch binds both, and the worker, which keeps a set, knows of one.
-/

namespace Spaces.Workers

open Spaces.Library Routine

variable {S : Type} {s : MountState S} {mount : HomeMount}
  {config : MountConfig} {available before desired rest : List HomeMount}

/-! ## The mounts there can be -/

/-- One mount to a destination, and those below another of the same user. -/
structure Apart (available : List HomeMount) : Prop where
  nodup : (available.map HomeMount.destination).Nodup
  owner : ∀ a ∈ available, ∀ b ∈ available, a.destination <+: b.destination → a.uid = b.uid

instance (available : List HomeMount) : Decidable (Apart available) :=
  decidable_of_iff (_ ∧ _) ⟨fun h => ⟨h.1, h.2⟩, fun h => ⟨h.nodup, h.owner⟩⟩

theorem Apart.inj (h : Apart available) {a b : HomeMount} (ha : a ∈ available)
    (hb : b ∈ available) (heq : a.destination = b.destination) : a = b :=
  List.inj_on_of_nodup_map h.nodup ha hb heq

theorem mem_planMounts {eligible : Finset Nat} :
    mount ∈ planMounts available eligible ↔ mount ∈ available ∧ mount.uid ∈ eligible := by
  simp [planMounts]

theorem mem_mountRemovals :
    mount ∈ mountRemovals s desired ↔ mount ∈ s.mounted ∧ mount ∉ desired := by
  rw [mountRemovals, (List.mergeSort_perm _ _).mem_iff]
  simp

theorem mem_mountAdditions :
    mount ∈ mountAdditions s desired ↔ mount ∈ desired ∧ mount ∉ s.mounted := by
  rw [mountAdditions, sortedMounts, (List.mergeSort_perm _ _).mem_iff]
  simp

/-! ## The states between -/

/-- No destination is bound twice. -/
def Distinct (s : MountState S) : Prop := (s.table.map HomeMount.destination).Nodup

/-- What is remembered is what is bound, and was prepared. -/
structure Agreed (available : List HomeMount) (s : MountState S) : Prop where
  unique : s.mounted.Nodup
  same : ∀ mount, mount ∈ s.mounted ↔ mount ∈ s.table
  distinct : Distinct s
  prepared : s.mounted ⊆ available

theorem Agreed.congr {s' : MountState S} (h : Agreed available s)
    (hmounted : s'.mounted = s.mounted) (htable : s'.table = s.table) : Agreed available s' where
  unique := hmounted ▸ h.unique
  same := by rw [hmounted, htable]; exact h.same
  distinct := by rw [Distinct, htable]; exact h.distinct
  prepared := hmounted ▸ h.prepared

/-- No bind is forgotten. -/
def Remembered (s : MountState S) : Prop := s.table ⊆ s.mounted

/-- What is left behind where the worker ends. -/
def Broken (error : MountError) (s : MountState S) : Prop :=
  error ≠ .resourceChanged ∧ Remembered s

/-- Mounts are taken off, those further down first. -/
structure Leaving (available before desired rest : List HomeMount) (s : MountState S) :
    Prop where
  agreed : Agreed available s
  fewer : s.mounted ⊆ before
  todo : rest ⊆ s.mounted
  nodup : rest.Nodup
  inward : rest.Pairwise fun a b => b.destination.length ≤ a.destination.length
  stays : ∀ mount ∈ rest, mount ∉ desired
  left : ∀ mount ∈ s.mounted, mount ∈ rest ∨ mount ∈ desired

/-- One of them is taken off and still remembered. -/
structure Left (available before desired : List HomeMount) (gone : HomeMount)
    (rest : List HomeMount) (s : MountState S) : Prop where
  unique : s.mounted.Nodup
  fewer : s.mounted ⊆ before
  same : ∀ mount, mount ∈ s.table ↔ mount ∈ s.mounted ∧ mount ≠ gone
  distinct : Distinct s
  prepared : s.mounted ⊆ available
  todo : rest ⊆ s.mounted
  nodup : (gone :: rest).Nodup
  inward : rest.Pairwise fun a b => b.destination.length ≤ a.destination.length
  stays : ∀ mount ∈ rest, mount ∉ desired
  left : ∀ mount ∈ s.mounted, mount ∈ gone :: rest ∨ mount ∈ desired

/-- Mounts are added. -/
structure Coming (available desired rest : List HomeMount) (s : MountState S) : Prop where
  agreed : Agreed available s
  within : s.mounted ⊆ desired
  todo : rest ⊆ desired
  nodup : rest.Nodup
  absent : ∀ mount ∈ rest, mount ∉ s.mounted

/-! ## Taking off -/

/-- The mounts of a plan that are below one outside it are outside it as well. -/
theorem below_not_planned {eligible : Finset Nat} (hapart : Apart available) {a b : HomeMount}
    (ha : a ∈ available) (hb : b ∈ available) (hbelow : a.destination <+: b.destination)
    (hout : a ∉ planMounts available eligible) : b ∉ planMounts available eligible := by
  intro hin
  refine hout (mem_planMounts.mpr ⟨ha, ?_⟩)
  rw [hapart.owner a ha b hb hbelow]
  exact (mem_planMounts.mp hin).2

theorem unmountHome_meets {eligible : Finset Nat} (hapart : Apart available)
    (hdesired : desired = planMounts available eligible) :
    Meets Distinct (Leaving available before desired (mount :: rest) (S := S)) (unmountHome mount)
      (fun _ => Left available before desired mount rest) Broken := by
  refine Meets.perform (fun s s' h heffect => ?_) fun s h =>
    ⟨nofun, fun other => (h.agreed.same other).mpr⟩
  obtain ⟨table, hdetach, rfl⟩ := Option.map_eq_some_iff.mp heffect
  have hmounted : mount ∈ s.mounted := h.todo List.mem_cons_self
  have hmount : mount ∈ available := h.agreed.prepared hmounted
  have hbelow : ∀ other ∈ s.table, mount.destination <+: other.destination →
      other.destination = mount.destination := by
    intro other hother hbelow
    have hremembered := (h.agreed.same other).mpr hother
    have hprepared := h.agreed.prepared hremembered
    have hout : other ∉ desired := by
      have hmountOut := h.stays mount List.mem_cons_self
      rw [hdesired] at hmountOut ⊢
      exact below_not_planned hapart hmount hprepared hbelow hmountOut
    -- so it is to go, and it did not go before
    rcases List.mem_cons.mp ((h.left other hremembered).resolve_right hout) with rfl | hrest
    · rfl
    · have hlength := List.rel_of_pairwise_cons h.inward hrest
      exact (hbelow.eq_of_length_le hlength).symm
  have hbound : mount ∈ s.table := (h.agreed.same mount).mp hmounted
  have hsame : ∀ other, other ∈ table ↔ other ∈ s.mounted ∧ other ≠ mount := by
    intro other
    rw [MountTable.mem_detach_place h.agreed.distinct hbound hbelow hdetach, h.agreed.same other]
  have hdistinct : Distinct { s with table := table } :=
    h.agreed.distinct.sublist ((MountTable.detach_sublist hdetach).map _)
  refine ⟨hdistinct, ?_, nofun, fun other hother => ((hsame other).mp hother).1⟩
  exact
    { unique := h.agreed.unique
      fewer := h.fewer
      same := hsame
      distinct := hdistinct
      prepared := h.agreed.prepared
      todo := fun other hother => h.todo (List.mem_cons_of_mem _ hother)
      nodup := h.nodup
      inward := h.inward.of_cons
      stays := fun other hother => h.stays other (List.mem_cons_of_mem _ hother)
      left := h.left }

theorem removeMount_meets {eligible : Finset Nat} (hapart : Apart available)
    (hdesired : desired = planMounts available eligible) :
    Meets Distinct (Leaving available before desired (mount :: rest) (S := S)) (removeMount mount)
      (fun _ => Leaving available before desired rest) Broken := by
  refine Meets.bind (unmountHome_meets hapart hdesired) fun _ => Meets.update fun s h => ?_
  have hmem : ∀ {other}, other ∈ (s.untrack mount).mounted ↔
      other ∈ s.mounted ∧ other ≠ mount := by
    intro other
    simp [MountState.untrack]
  obtain ⟨hmount, hnodup⟩ := List.nodup_cons.mp h.nodup
  refine ⟨h.distinct, ⟨?_, ?_, h.distinct, ?_⟩, ?_, ?_, hnodup, h.inward, h.stays, ?_⟩
  · exact h.unique.filter _
  · exact fun other => hmem.trans (h.same other).symm
  · exact fun other hother => h.prepared (hmem.mp hother).1
  · exact fun other hother => h.fewer (hmem.mp hother).1
  · exact fun other hother => hmem.mpr ⟨h.todo hother, fun heq => hmount (heq ▸ hother)⟩
  · intro other hother
    obtain ⟨hother, hne⟩ := hmem.mp hother
    exact (h.left other hother).imp_left fun hmem => (List.mem_cons.mp hmem).resolve_left hne

/-! ## Adding -/

/-- Bound, and about to be remembered. -/
structure Come (available desired : List HomeMount) (mount : HomeMount) (rest : List HomeMount)
    (s : MountState S) : Prop where
  unique : s.mounted.Nodup
  same : ∀ other, other ∈ s.table ↔ other = mount ∨ other ∈ s.mounted
  distinct : Distinct s
  prepared : mount :: s.mounted ⊆ available
  within : s.mounted ⊆ desired
  todo : mount :: rest ⊆ desired
  nodup : (mount :: rest).Nodup
  absent : ∀ other ∈ mount :: rest, other ∉ s.mounted

theorem Coming.skip (h : Coming available desired (mount :: rest) s) :
    Coming available desired rest s where
  agreed := h.agreed
  within := h.within
  todo _ hother := h.todo (List.mem_cons_of_mem _ hother)
  nodup := (List.nodup_cons.mp h.nodup).2
  absent other hother := h.absent other (List.mem_cons_of_mem _ hother)

theorem bindHome_meets (hapart : Apart available) (hplan : desired ⊆ available) :
    Meets Distinct (Coming available desired (mount :: rest) (S := S)) (bindHome mount)
      (fun _ => Come available desired mount rest)
      (fun _ => Coming available desired (mount :: rest)) := by
  refine Meets.performClean (fun s s' h heffect => ?_) fun s h => h
  cases heffect
  have hmount : mount ∈ available := hplan (h.todo List.mem_cons_self)
  have hunbound : mount ∉ s.table := fun hmem =>
    h.absent mount List.mem_cons_self ((h.agreed.same mount).mpr hmem)
  have hdistinct : Distinct { s with table := mount :: s.table } :=
    MountTable.nodup_mount h.agreed.distinct hunbound fun other hother heq =>
      hapart.inj (h.agreed.prepared ((h.agreed.same other).mpr hother)) hmount heq
  refine ⟨hdistinct, ?_⟩
  exact
    { unique := h.agreed.unique
      same := fun other => by rw [List.mem_cons, h.agreed.same other]
      distinct := hdistinct
      prepared := List.cons_subset.mpr ⟨hmount, h.agreed.prepared⟩
      within := h.within
      todo := h.todo
      nodup := h.nodup
      absent := h.absent }

theorem Come.track (h : Come available desired mount rest s) :
    Coming available desired rest (s.track mount) := by
  obtain ⟨-, hnodup⟩ := List.nodup_cons.mp h.nodup
  refine ⟨⟨?_, fun other => ?_, h.distinct, h.prepared⟩, ?_, ?_, hnodup, ?_⟩
  · exact List.nodup_cons.mpr ⟨h.absent mount List.mem_cons_self, h.unique⟩
  · rw [MountState.track, List.mem_cons]
    exact (h.same other).symm
  · exact List.cons_subset.mpr ⟨h.todo List.mem_cons_self, h.within⟩
  · exact fun other hother => h.todo (List.mem_cons_of_mem _ hother)
  · exact MountTable.absent_mount h.nodup h.absent

theorem addMount_meets (hapart : Apart available) (hplan : desired ⊆ available) :
    Meets Distinct (Coming available desired (mount :: rest) (S := S)) (addMount mount)
      (fun _ => Coming available desired rest) Broken := by
  have htry : Meets Distinct (Coming available desired (mount :: rest) (S := S))
      (tryCatch (do
          bindHome mount
          pure true)
        fun _ => pure false)
      (fun added s => if added then Come available desired mount rest s
        else Coming available desired rest s)
      Broken := by
    refine Meets.tryCatch (Meets.bind (bindHome_meets hapart hplan) fun _ =>
      Meets.pure fun s h => h) fun _ => ?_
    exact Meets.pure fun s h => h.skip
  refine Meets.bind htry fun added => ?_
  cases added with
  | false => exact Meets.pure fun s h => h
  | true => exact Meets.update fun s h => ⟨h.distinct, h.track⟩

/-! ## A waking -/

theorem Agreed.leaving (h : Agreed available s) (desired : List HomeMount) :
    Leaving available s.mounted desired (mountRemovals s desired) s where
  agreed := h
  fewer := List.Subset.refl _
  todo _ hmount := (mem_mountRemovals.mp hmount).1
  nodup := (List.mergeSort_perm _ _).nodup_iff.mpr (h.unique.filter _)
  inward := by
    have hsorted := @List.pairwise_mergeSort HomeMount
      (fun a b => b.destination.length ≤ a.destination.length)
      (fun a b c hab hbc => decide_eq_true
        (Nat.le_trans (of_decide_eq_true hbc) (of_decide_eq_true hab)))
      (fun a b => by simpa using Nat.le_total b.destination.length a.destination.length)
      (s.mounted.filter fun mount => !desired.contains mount)
    exact hsorted.imp of_decide_eq_true
  stays _ hmount := (mem_mountRemovals.mp hmount).2
  left mount hmount := by
    by_cases hdesired : mount ∈ desired
    · exact .inr hdesired
    · exact .inl (mem_mountRemovals.mpr ⟨hmount, hdesired⟩)

/-- All that is bound is planned. -/
def Planned (available desired : List HomeMount) (s : MountState S) : Prop :=
  Agreed available s ∧ s.mounted ⊆ desired

theorem reconcileChanged_meets {eligible : Finset Nat} (hapart : Apart available)
    (hdesired : desired = planMounts available eligible) :
    Meets Distinct (Agreed available (S := S)) (reconcileChanged desired)
      (fun _ => Planned available desired) Broken := by
  have hplan : desired ⊆ available := fun mount hmount =>
    (mem_planMounts.mp (hdesired ▸ hmount)).1
  have hlook : Meets Distinct (Agreed available (S := S)) look
      (fun s s' => Agreed available s' ∧ s' = s) Broken := Meets.look fun s h => ⟨h, rfl⟩
  refine Meets.bind hlook fun s => ?_
  have hleave : Meets Distinct (fun s' => Agreed available s' ∧ s' = s)
      (forEach removeMount (mountRemovals s desired))
      (fun _ => Leaving available s.mounted desired []) Broken := by
    refine (Meets.forEach fun _ _ => removeMount_meets hapart hdesired).weaken ?_
      (fun _ _ h => h) fun _ _ h => h
    rintro s' ⟨hagreed, rfl⟩
    exact hagreed.leaving desired
  refine Meets.bind hleave fun _ => ?_
  refine (Meets.forEach fun _ _ => addMount_meets hapart hplan).weaken (fun s' h => ?_)
    (fun _ _ h => ⟨h.agreed, h.within⟩) fun _ _ h => h
  refine ⟨h.agreed, fun mount hmount => ?_, fun mount hmount => ?_, ?_, fun mount hmount => ?_⟩
  · exact (h.left mount hmount).resolve_left List.not_mem_nil
  · exact (mem_mountAdditions.mp hmount).1
  · exact (List.mergeSort_perm _ _).nodup_iff.mpr ((List.nodup_dedup desired).filter _)
  · exact fun hmounted => (mem_mountAdditions.mp hmount).2 (h.fewer hmounted)

/-- The binds of the users who are logged in, and the login state they go by. -/
structure Following (available : List HomeMount) (login : LoginSnapshot S) (s : MountState S) :
    Prop where
  agreed : Agreed available s
  eligible : ∀ mount ∈ s.mounted, mount.uid ∈ login.eligible
  remembered : ∀ other, s.snapshot = some other → other = login

theorem rememberLogin_meets (login : LoginSnapshot S) (waking : Waking S) :
    Meets Distinct (Planned available (planMounts available login.eligible))
      (rememberLogin login waking) (fun _ => Following available login) Broken := by
  have hupdate : Meets Distinct (Planned available (planMounts available login.eligible))
      (update fun s => { s with eligible := login.eligible } : MountRoutine S Unit)
      (fun _ => Planned available (planMounts available login.eligible)) Broken :=
    Meets.update fun s h => ⟨h.1.distinct, h.1.congr rfl rfl, h.2⟩
  have hdesktops : Meets Distinct (Planned available (planMounts available login.eligible))
      (reconcileDesktops waking.desktops : MountRoutine S Bool)
      (fun _ => Planned available (planMounts available login.eligible)) Broken := by
    cases waking.desktops with
    | ready => exact Meets.pure fun s h => h
    | refused => exact Meets.pure fun s h => h
    | raised => exact Meets.throw fun s h => ⟨nofun, fun mount => (h.1.same mount).mpr⟩
  refine Meets.bind hupdate fun _ => Meets.bind hdesktops fun ready => ?_
  refine Meets.update fun s h => ⟨h.1.distinct, h.1.congr rfl rfl, fun mount hmount => ?_,
    fun other heq => ?_⟩
  · exact (mem_planMounts.mp (h.2 hmount)).2
  · cases ready with
    | true => exact (Option.some.inj heq).symm
    | false => cases heq

/-- Where resources have changed, the worker goes on with the binds it has. -/
def Retryable (available : List HomeMount) (login : LoginSnapshot S) (error : MountError)
    (s : MountState S) : Prop :=
  Remembered s ∧ (error = .resourceChanged → Following available login s)

theorem reconcileUnchanged_meets (config : MountConfig) (login : LoginSnapshot S)
    (waking : Waking S) :
    Meets Distinct (Following config.available login) (reconcileUnchanged config waking)
      (fun _ => Following config.available login) (Retryable config.available login) := by
  have hremembered : ∀ {s : MountState S}, Following config.available login s → Remembered s :=
    fun h mount => (h.agreed.same mount).mpr
  have hdesktops : Meets Distinct (Following config.available login)
      (reconcileDesktops waking.desktops : MountRoutine S Bool)
      (fun _ => Following config.available login) (Retryable config.available login) := by
    cases waking.desktops with
    | ready => exact Meets.pure fun s h => h
    | refused => exact Meets.pure fun s h => h
    | raised => exact Meets.throw fun s h => ⟨hremembered h, nofun⟩
  have hportals : Meets Distinct (Following config.available login)
      (reconcilePortals waking.portals : MountRoutine S Unit)
      (fun _ => Following config.available login) (Retryable config.available login) := by
    cases waking.portals with
    | ready => exact Meets.pure fun s h => h
    | resourceChanged => exact Meets.throw fun s h => ⟨hremembered h, fun _ => h⟩
    | raised => exact Meets.throw fun s h => ⟨hremembered h, nofun⟩
  have hrefresh : Meets Distinct (Following config.available login)
      (refreshDesktops config waking : MountRoutine S Unit)
      (fun _ => Following config.available login) (Retryable config.available login) := by
    unfold refreshDesktops
    split
    · refine Meets.bind hdesktops fun ready => Meets.update fun s h => ?_
      cases ready with
      | true => exact ⟨h.agreed.distinct, h⟩
      | false => exact ⟨h.agreed.distinct, h.agreed.congr rfl rfl, h.eligible, nofun⟩
    · exact Meets.pure fun s h => h
  exact Meets.bind hrefresh fun _ => hportals

/-- Between two wakings. -/
structure Between (available : List HomeMount) (s : MountState S) : Prop where
  agreed : Agreed available s
  eligible : ∀ login, s.snapshot = some login → ∀ mount ∈ s.mounted, mount.uid ∈ login.eligible

theorem Following.between {login : LoginSnapshot S} (h : Following available login s) :
    Between available s where
  agreed := h.agreed
  eligible other heq mount hmount := by
    rw [h.remembered other heq]
    exact h.eligible mount hmount

theorem mem_launch {eligible : Finset Nat} :
    mount ∈ (MountWorker.launch config eligible (S := S)).state.mounted ↔
      mount ∈ (MountWorker.launch config eligible (S := S)).state.table := by
  show mount ∈ (planMounts config.available eligible).dedup ↔
    mount ∈ (sortedMounts (planMounts config.available eligible)).reverse
  rw [List.mem_dedup, List.mem_reverse, sortedMounts, (List.mergeSort_perm _ _).mem_iff]

/-- A worker that has not ended is between two wakings, and one that has ended took
the space with it. -/
structure MountWaiting (config : MountConfig) (w : MountWorker S) : Prop where
  between : w.ended = false → Between config.available w.state
  signalled : w.ended = true → (w.signalled = true ∨ w.exited = true) ∧ Remembered w.state

theorem mountWaiting_launch (hapart : Apart config.available) (eligible : Finset Nat) :
    MountWaiting config (.launch config eligible (S := S)) where
  between _ := by
    refine ⟨⟨List.nodup_dedup _, fun mount => mem_launch, ?_, fun mount hmount => ?_⟩, nofun⟩
    · have hperm := ((List.reverse_perm _).trans (List.mergeSort_perm
        (planMounts config.available eligible) HomeMount.le)).map HomeMount.destination
      exact hperm.nodup_iff.mpr (hapart.nodup.sublist (List.filter_sublist.map _))
    · exact (mem_planMounts.mp (List.mem_dedup.mp hmount)).1
  signalled := nofun

variable [DecidableEq S]

/-- What a waking leaves when nothing is raised. -/
def Followed (available : List HomeMount) (waking : Waking S) (s : MountState S) : Prop :=
  ∃ login, waking.login = some login ∧ Following available login s

theorem reconcileMounts_meets (hapart : Apart config.available) {waking : Waking S}
    {login : LoginSnapshot S} (hlogin : waking.login = some login) :
    Meets Distinct (Between config.available) (reconcileMounts config waking)
      (fun _ => Following config.available login) (Retryable config.available login) := by
  have hlook : Meets Distinct (Between config.available (S := S)) look
      (fun s s' => Between config.available s' ∧ s' = s)
      (Retryable config.available login) := Meets.look fun s h => ⟨h, rfl⟩
  unfold reconcileMounts
  rw [hlogin]
  refine Meets.bind hlook fun s => ?_
  split
  · next hsame =>
      refine (reconcileUnchanged_meets config login waking).weaken ?_ (fun _ _ h => h)
        fun _ _ h => h
      rintro s' ⟨h, rfl⟩
      refine ⟨h.agreed, h.eligible login hsame, fun other heq => ?_⟩
      exact Option.some.inj (heq.symm.trans hsame)
  · have hchanged : Meets Distinct (Agreed config.available (S := S))
        (reconcileChanged (planMounts config.available login.eligible))
        (fun _ => Planned config.available (planMounts config.available login.eligible)) Broken :=
      reconcileChanged_meets hapart rfl
    have hremember : Meets Distinct
        (Planned config.available (planMounts config.available login.eligible))
        (rememberLogin login waking) (fun _ => Following config.available login) Broken :=
      rememberLogin_meets login waking
    refine (Meets.bind hchanged fun _ => hremember).weaken ?_ (fun _ _ h => h) ?_
    · exact fun s' h => h.1.agreed
    · exact fun error s h => ⟨h.2, fun heq => absurd heq h.1⟩

theorem reconcileRetryable_meets (hapart : Apart config.available) (waking : Waking S) :
    Meets Distinct (Between config.available) (reconcileRetryable config waking)
      (fun _ => Followed config.available waking) (fun _ => Remembered) := by
  unfold reconcileRetryable
  cases hlogin : waking.login with
  | none =>
      have hlogin' : reconcileMounts config waking = throw MountError.login := by
        rw [reconcileMounts, hlogin]
      rw [hlogin']
      have hthrow : Meets Distinct (Between config.available)
          (throw MountError.login : MountRoutine S Unit)
          (fun _ => Followed config.available waking)
          (fun error s => error = .login ∧ Remembered s) :=
        Meets.throw fun s h => ⟨rfl, fun mount => (h.agreed.same mount).mpr⟩
      refine Meets.tryCatch hthrow fun error => ?_
      split
      · next hchanged =>
          refine Meets.update fun s h => ?_
          rw [hchanged] at h
          cases h.1
      · exact Meets.throw fun s h => h.2
  | some login =>
      have hfollowed : ∀ s, Following config.available login s →
          Followed config.available waking s := fun s h => ⟨login, hlogin, h⟩
      refine Meets.tryCatch ((reconcileMounts_meets hapart hlogin).weaken (fun _ h => h)
        (fun _ => hfollowed) fun _ _ h => h) fun error => ?_
      split
      · next hchanged =>
          refine Meets.update fun s h => ?_
          have hfollowing := h.2 hchanged
          exact ⟨hfollowing.agreed.distinct,
            hfollowed _ ⟨hfollowing.agreed.congr rfl rfl, hfollowing.eligible, nofun⟩⟩
      · exact Meets.throw fun s h => h.1

/-! ## Whole runs -/

/-- The states that a waking passes. -/
def MountWorker.points (config : MountConfig) (w : MountWorker S) (waking : Waking S)
    (faults : List Fault) : List (MountState S) :=
  if w.ended then []
  else w.state :: (reconcileRetryable config waking { state := w.state, faults := faults }).2.passed

/-- What the next waking does, whatever it meets and whatever fails. -/
structure FollowsOnce (config : MountConfig) (w : MountWorker S) (waking : Waking S)
    (faults : List Fault) : Prop where
  /-- At no point is a destination bound twice. -/
  distinct : ∀ s ∈ w.points config waking faults, Distinct s
  /-- When nothing is raised, what is remembered is what is bound, and of users who
  are logged in. -/
  returns : (w.handle config (.wakes waking faults)).ended = false →
    Followed config.available waking (w.handle config (.wakes waking faults)).state
  /-- Otherwise the space is told to end, and no bind is forgotten. -/
  raises : (w.handle config (.wakes waking faults)).ended = true →
    ((w.handle config (.wakes waking faults)).signalled = true ∨
      (w.handle config (.wakes waking faults)).exited = true) ∧
    Remembered (w.handle config (.wakes waking faults)).state

theorem MountWaiting.follows {w : MountWorker S} (hapart : Apart config.available)
    (h : MountWaiting config w) (waking : Waking S) (faults : List Fault) :
    FollowsOnce config w waking faults := by
  cases hended : w.ended with
  | true =>
      have hsame : w.handle config (.wakes waking faults) = w := by
        rw [MountWorker.handle, if_pos hended]
      refine ⟨?_, ?_, ?_⟩
      · rw [MountWorker.points, if_pos hended]
        exact List.forall_mem_nil _
      · rw [hsame, hended]
        nofun
      · rw [hsame]
        exact h.signalled
  | false =>
      have hbetween := h.between hended
      have hnotEnded : ¬ w.ended = true := by rw [hended]; exact Bool.false_ne_true
      have hrun := reconcileRetryable_meets hapart waking
        { state := w.state, faults := faults } (List.forall_mem_nil _) hbetween
      refine ⟨?_, ?_, ?_⟩
      · rw [MountWorker.points, if_neg hnotEnded]
        exact List.forall_mem_cons.mpr ⟨hbetween.agreed.distinct, hrun.points⟩
      · rw [MountWorker.handle, if_neg hnotEnded]
        split
        · next t heq =>
            rw [heq] at hrun
            exact fun _ => hrun.2
        · nofun
      · rw [MountWorker.handle, if_neg hnotEnded]
        split
        · intro h
          rw [hended] at h
          cases h
        · next t heq =>
            rw [heq] at hrun
            refine fun _ => ⟨?_, hrun.2⟩
            cases w.exited with
            | true => exact .inr rfl
            | false => exact .inl rfl

theorem MountWaiting.handle {w : MountWorker S} (hapart : Apart config.available)
    (h : MountWaiting config w) (event : MountEvent S) :
    MountWaiting config (w.handle config event) := by
  cases event with
  | exits => exact ⟨h.between, fun hended => ⟨.inr rfl, (h.signalled hended).2⟩⟩
  | wakes waking faults =>
      have hstep := h.follows hapart waking faults
      refine ⟨fun hended => ?_, hstep.raises⟩
      obtain ⟨login, -, hfollowing⟩ := hstep.returns hended
      exact hfollowing.between

/-- Each waking of each run follows the login state. -/
def FollowsLogin (S : Type) [DecidableEq S] (config : MountConfig) : Prop :=
  ∀ (eligible : Finset Nat) (events : List (MountEvent S)) (waking : Waking S)
    (faults : List Fault),
    FollowsOnce config (events.foldl (MountWorker.handle config) (.launch config eligible))
      waking faults

theorem followsLogin_of_apart (S : Type) [DecidableEq S] (config : MountConfig)
    (hapart : Apart config.available) : FollowsLogin S config := by
  intro eligible events waking faults
  have hrun : Reachable (MountWorker.handle config) (.launch config eligible)
      (events.foldl (MountWorker.handle config) (.launch config eligible)) := Guarded.run _ _
  have hwaiting := hrun.invariant (mountWaiting_launch hapart eligible) fun _ event h _ =>
    h.handle hapart event
  exact hwaiting.follows hapart waking faults

def downloads : HomeMount where
  destination := ["home", "alice", "Downloads"]
  source := ["home", "alice", "Downloads"]
  uid := 1000

def music : HomeMount where
  destination := ["home", "alice", "Downloads", "Music"]
  source := ["home", "alice", "Music"]
  uid := 1000

def bobDownloads : HomeMount where
  destination := ["home", "bob", "Downloads"]
  source := ["home", "bob", "Downloads"]
  uid := 1001

/-- One mount of alice's is below another, and bob has one of his own. -/
theorem downloads_followed : FollowsLogin Unit ⟨[downloads, music, bobDownloads], true⟩ :=
  followsLogin_of_apart Unit ⟨[downloads, music, bobDownloads], true⟩ (by decide)

/-- Two entries for one user. -/
def twice : MountConfig := ⟨[downloads, downloads], true⟩

/-- The state of its space at launch, and after the user has logged out. -/
def twiceBound : MountState Unit := ⟨[downloads], [downloads, downloads], {1000}, none⟩
def stillBound : MountState Unit := ⟨[], [downloads], ∅, some ⟨∅, ()⟩⟩

theorem launch_twice : (MountWorker.launch twice {1000}).state = twiceBound := by
  have hsorted : sortedMounts [downloads, downloads] = [downloads, downloads] :=
    List.mergeSort_of_pairwise (by decide)
  show MountState.mk _ (sortedMounts [downloads, downloads]).reverse _ _ = _
  rw [hsorted]
  rfl

theorem logout_twice : ∃ passed, reconcileRetryable twice ⟨some ⟨∅, ()⟩, .ready, .ready⟩
    { state := twiceBound } = (.ok (), { state := stillBound, passed := passed }) := by
  have hremovals : mountRemovals twiceBound [] = [downloads] := List.mergeSort_singleton _
  have hadditions : mountAdditions twiceBound [] = [] := List.mergeSort_nil
  have hchanged : ∃ passed, reconcileChanged [] { state := twiceBound } =
      (.ok (), { state := ⟨[], [downloads], {1000}, none⟩, passed := passed }) := by
    have hlook : reconcileChanged [] { state := twiceBound } =
        (forEach removeMount (mountRemovals twiceBound []) >>= fun _ =>
          forEach addMount (mountAdditions twiceBound [])) { state := twiceBound } := rfl
    rw [hlook, hremovals, hadditions]
    exact ⟨_, rfl⟩
  obtain ⟨passed, hchanged⟩ := hchanged
  refine ⟨stillBound :: ⟨[], [downloads], ∅, none⟩ :: passed, tryCatch_of_ok ?_⟩
  exact bind_of_ok hchanged

/-- The user logs out, and one of the two binds stays. -/
theorem twice_survives : ¬ ∀ config, FollowsLogin Unit config := by
  intro h
  have hstep := h twice {1000} [] ⟨some ⟨∅, ()⟩, .ready, .ready⟩ []
  obtain ⟨passed, hlogout⟩ := logout_twice
  have hhandle : (MountWorker.launch twice {1000}).handle twice
      (.wakes ⟨some ⟨∅, ()⟩, .ready, .ready⟩ []) = { state := stillBound } := by
    rw [MountWorker.handle, launch_twice, hlogout]
    rfl
  have hreturns := hstep.returns
  rw [List.foldl_nil, hhandle] at hreturns
  obtain ⟨login, -, hfollowing⟩ := hreturns rfl
  have hremembered := (hfollowing.agreed.same downloads).mpr (List.mem_singleton_self _)
  cases hremembered

end Spaces.Workers
