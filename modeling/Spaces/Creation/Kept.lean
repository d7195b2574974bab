import Spaces.Creation.Failures
import Spaces.Permissions.LoadInfo

/-!
# What a failed creation keeps

Without a purge the home is not removed at all. The cache is moved out of the old tree
before that is removed, and nothing takes away from it afterwards.

With the invariant of the tree this is all a failed run owes, and `Allowed` is exact: as
long as each operation that raises is one that may, the run fails safely, and the first
that may not leaves an unfinished Space that can be launched.
-/

namespace Spaces.Creation

open Spaces.Library Spaces.Permissions

variable {host : Host}

/-- What is known of the persistent cache at each stage. -/
def CacheKept (old : World) (s : Run host) : Prop :=
  match s.point.stage with
  | .before => s.world.cache = old.cache ∧
      files (guestCache s.world.rootfs) = files (guestCache old.rootfs)
  | .raised => ∀ f ∈ persistent old,
      f ∈ files s.world.cache ∨ f ∈ files (guestCache s.world.rootfs)
  | _ => ∀ f ∈ persistent old, f ∈ files s.world.cache

/-- A run without a purge. -/
structure Preserved (old s : Run host) : Prop where
  request : s.request = old.request
  purge : s.request.purge = false
  unpurged : s.point ≠ .removeHome ∧ s.point ≠ .removeCache
  home : ∀ f ∈ files old.world.home, f ∈ files s.world.home
  cache : CacheKept old.world s

/-! ## Nothing is taken away -/

section

variable {s : Run host}

theorem orDirectory_grows {node node' : Node Files} (h : node.orDirectory [] = some node') :
    files node' = files node := by
  cases node with
  | absent =>
      cases h
      rfl
  | dir content =>
      cases h
      rfl
  | link => cases h
  | file => cases h

theorem addedTo_grows (cache : Node Files) (added : Files) :
    ∀ f ∈ files cache, f ∈ files (addedTo cache added) := by
  intro f hf
  cases cache with
  | dir content => exact List.mem_append_left _ hf
  | absent => exact hf
  | link => exact hf
  | file => exact hf

/-- What a step without a purge leaves as it is. -/
structure Keeps (s t : Run host) : Prop where
  request : t.request = s.request
  unpurged : t.point ≠ .removeHome ∧ t.point ≠ .removeCache
  later : s.point.stage ≠ .before → t.point.stage ≠ .before
  home : ∀ f ∈ files s.world.home, f ∈ files t.world.home
  cache : ∀ f ∈ files s.world.cache, f ∈ files t.world.cache

theorem keeps_self (h : s.point ≠ .removeHome ∧ s.point ≠ .removeCache) : Keeps s s :=
  ⟨rfl, h, id, fun _ hf => hf, fun _ hf => hf⟩

theorem raise_stage (s : Run host) : s.raise.point.stage ≠ .before ∧
    s.raise.point ≠ .removeHome ∧ s.raise.point ≠ .removeCache := by
  unfold Run.raise
  split <;> simp [Point.stage]

/-- An operation that raises, when the world it leaves has all of the old one. -/
theorem keeps_raise {world : World}
    (hhome : ∀ f ∈ files s.world.home, f ∈ files world.home)
    (hcache : ∀ f ∈ files s.world.cache, f ∈ files world.cache) :
    Keeps s { s.raise with world } :=
  ⟨rfl, (raise_stage s).2, fun _ => (raise_stage s).1, hhome, hcache⟩

theorem keeps_next {next : Point} {world : World} {removing : Bool}
    (hnext : next ≠ .removeHome ∧ next ≠ .removeCache)
    (hlater : s.point.stage ≠ .before → next.stage ≠ .before)
    (hhome : ∀ f ∈ files s.world.home, f ∈ files world.home)
    (hcache : ∀ f ∈ files s.world.cache, f ∈ files world.cache) :
    Keeps s { s with world, point := next, removing } :=
  ⟨rfl, hnext, hlater, hhome, hcache⟩

theorem keeps_change {next : Point} {world : Option World} {e : Event}
    (h : s.point ≠ .removeHome ∧ s.point ≠ .removeCache)
    (hnext : next ≠ .removeHome ∧ next ≠ .removeCache)
    (hlater : s.point.stage ≠ .before → next.stage ≠ .before)
    (hworld : ∀ w, world = some w → files w.home = files s.world.home ∧ w.cache = s.world.cache) :
    Keeps s (s.change next world e) := by
  have hraise : Keeps s s.raise := keeps_raise (fun _ hf => hf) (fun _ hf => hf)
  cases e with
  | go =>
      cases world with
      | none => exact hraise
      | some w =>
          obtain ⟨hhome, hcache⟩ := hworld w rfl
          exact keeps_next hnext hlater (fun f hf => hhome ▸ hf) (fun f hf => hcache ▸ hf)
  | fault n => exact hraise
  | bootstrap => exact keeps_self h

theorem keeps_plain {next : Point} {e : Event}
    (h : s.point ≠ .removeHome ∧ s.point ≠ .removeCache)
    (hnext : next ≠ .removeHome ∧ next ≠ .removeCache)
    (hlater : s.point.stage ≠ .before → next.stage ≠ .before) : Keeps s (s.plain next e) := by
  rw [plain_eq_change]
  exact keeps_change h hnext hlater fun w hw => by cases hw; exact ⟨rfl, rfl⟩

/-- The cache is empty when it is moved to. -/
theorem keeps_prepareCache {round : Round} (h : s.point = .prepareCache round) (e : Event) :
    Keeps s (prepareCache s round e) := by
  have hhere : s.point ≠ .removeHome ∧ s.point ≠ .removeCache := by rw [h]; simp
  have hlater : (Point.prepareGuest round).stage ≠ .before := by cases round <;> simp [Point.stage]
  unfold prepareCache
  split
  · exact keeps_plain hhere (by simp) fun _ => hlater
  · next hcache hguest =>
      have hnone : ∀ f ∈ files s.world.cache, f ∈ ([] : Files) := by
        rw [hcache]
        exact fun f hf => hf
      split
      · exact keeps_next (by simp) (fun _ => hlater) (fun _ hf => hf)
          fun f hf => absurd (hnone f hf) List.not_mem_nil
      · split
        · exact keeps_raise (fun _ hf => hf) fun f hf => absurd (hnone f hf) List.not_mem_nil
        · exact keeps_raise (fun _ hf => hf) fun f hf => absurd (hnone f hf) List.not_mem_nil
      · exact keeps_self hhere
  · next hcache hguest =>
      cases e with
      | go =>
          have hnone : files s.world.cache = [] := by rw [hcache]; rfl
          refine keeps_next (by simp) (fun _ => hlater) (fun _ hf => hf) fun f hf => ?_
          rw [hnone] at hf
          exact hf
      | fault n => exact keeps_raise (fun _ hf => hf) (fun _ hf => hf)
      | bootstrap => exact keeps_self hhere
  · exact keeps_raise (fun _ hf => hf) (fun _ hf => hf)

/-- Without a purge no operation removes from the home or from the cache. -/
theorem step_keeps (hpurge : s.request.purge = false)
    (h : s.point ≠ .removeHome ∧ s.point ≠ .removeCache) (e : Event) : Keeps s (step s e) := by
  have hraise : ∀ world : World, world.home = s.world.home → world.cache = s.world.cache →
      Keeps s { s.raise with world } := fun world hhome hcache =>
    keeps_raise (fun f hf => hhome ▸ hf) (fun f hf => hcache ▸ hf)
  cases hp : s.point with
  | removeHome => exact absurd hp h.1
  | removeCache => exact absurd hp h.2
  | stopService =>
      simp only [step, hp]
      exact keeps_plain h (by simp) (by simp [hp, Point.stage])
  | removeShortcuts =>
      simp only [step, hp, hpurge, Bool.false_eq_true, if_false]
      exact keeps_plain h (by simp) (by simp [hp, Point.stage])
  | checkPaths =>
      simp only [step, hp, checkPaths]
      refine keeps_change h (by simp) (by simp [hp, Point.stage]) fun w hw => ?_
      split at hw
      · cases hw
      · cases hw
        exact ⟨rfl, rfl⟩
  | makeHome =>
      simp only [step, hp, makeHome]
      refine keeps_change h (by simp) (by simp [hp, Point.stage]) fun w hw => ?_
      obtain ⟨home, hhome, rfl⟩ := Option.map_eq_some_iff.mp hw
      exact ⟨orDirectory_grows hhome, rfl⟩
  | ownHome =>
      simp only [step, hp]
      exact keeps_plain h (by simp) (by simp [hp, Point.stage])
  | inspectRootfs =>
      simp only [step, hp, inspectRootfs]
      refine keeps_change h (by simp) (by simp [hp, Point.stage]) fun w hw => ?_
      split at hw
      · cases hw
        exact ⟨rfl, rfl⟩
      · cases hw
  | inspectFailed =>
      simp only [step, hp, inspectFailed]
      refine keeps_change h ?_ (by simp [hp, Point.stage]) fun w hw => ?_
      · split <;> simp
      · split at hw
        · cases hw
          exact ⟨rfl, rfl⟩
        · cases hw
  | prepareVar round =>
      simp only [step, hp, prepareVar]
      refine keeps_change h (by simp) ?_ fun w hw => ?_
      · cases round <;> simp [hp, Point.stage]
      · split at hw
        · obtain ⟨var, -, rfl⟩ := Option.map_eq_some_iff.mp hw
          exact ⟨rfl, rfl⟩
        · cases hw
  | prepareRoot round =>
      simp only [step, hp]
      exact keeps_plain h (by simp) (by cases round <;> simp [hp, Point.stage])
  | prepareCache round =>
      simp only [step, hp]
      exact keeps_prepareCache hp e
  | prepareGuest round =>
      simp only [step, hp, prepareGuest]
      refine keeps_change h (by simp) ?_ fun w hw => ?_
      · cases round <;> simp [Point.stage]
      · obtain ⟨cache, -, rfl⟩ := Option.map_eq_some_iff.mp hw
        exact ⟨rfl, rfl⟩
  | prepareLabels round =>
      simp only [step, hp, prepareLabels]
      exact keeps_plain h (by split <;> simp) (by split <;> simp [Point.stage])
  | removeRootfs =>
      simp only [step, hp, removeRootfs]
      split
      · exact hraise s.world rfl rfl
      · cases e with
        | fault n => exact ⟨rfl, (raise_stage s).2, fun _ => (raise_stage s).1, fun _ hf => hf,
            fun _ hf => hf⟩
        | go => exact keeps_next (by simp) (by simp [Point.stage]) (fun _ hf => hf) fun _ hf => hf
        | bootstrap => exact keeps_self h
  | unlinkBinds =>
      simp only [step, hp, unlinkBinds]
      refine keeps_change h (by simp) (by simp [Point.stage]) fun w hw => ?_
      split at hw
      · cases hw
      · cases hw
        exact ⟨rfl, rfl⟩
  | removeFailed =>
      simp only [step, hp, removeFailed]
      split
      · exact hraise s.world rfl rfl
      · cases e with
        | fault n => exact hraise _ rfl rfl
        | go => exact keeps_next (by simp) (by simp [Point.stage]) (fun _ hf => hf) fun _ hf => hf
        | bootstrap => exact keeps_self h
  | makeRootfs =>
      simp only [step, hp, makeRootfs]
      refine keeps_change h (by simp) (by simp [Point.stage]) fun w hw => ?_
      obtain ⟨rootfs, -, rfl⟩ := Option.map_eq_some_iff.mp hw
      exact ⟨rfl, rfl⟩
  | ownRootfs =>
      simp only [step, hp]
      exact keeps_plain h (by simp) (by simp [Point.stage])
  | writeInfo =>
      simp only [step, hp, writeInfo]
      refine keeps_change h (by simp) (by simp [Point.stage]) fun w hw => ?_
      split at hw
      · cases hw
        exact ⟨rfl, rfl⟩
      · cases hw
  | lookupDriver =>
      simp only [step, hp]
      exact keeps_plain h (by simp) (by simp [Point.stage])
  | loadConfiguration =>
      simp only [step, hp]
      exact keeps_plain h (by split <;> simp) (by split <;> simp [Point.stage])
  | mountCache =>
      simp only [step, hp, mountCache]
      exact keeps_change h (by simp) (by simp [Point.stage]) fun w hw => by
        cases hw
        exact ⟨rfl, rfl⟩
  | bootstrap =>
      simp only [step, hp]
      cases e with
      | bootstrap completes rootfs added leftMounted =>
          refine ⟨rfl, ?_, fun _ => ?_, fun _ hf => hf, fun f hf => ?_⟩
          · simp only [bootstrap]
            split <;> (try split) <;> simp
          · simp only [bootstrap]
            split <;> (try split) <;> simp [Point.stage]
          · simp only [bootstrap]
            split
            · exact addedTo_grows _ _ f hf
            · exact hf
      | go => exact keeps_self h
      | fault n => exact keeps_self h
  | unmountCache raising =>
      simp only [step, hp, unmountCache]
      refine keeps_change h (by split <;> simp) (by split <;> simp [Point.stage]) fun w hw => ?_
      cases hw
      exact ⟨rfl, rfl⟩
  | preserveInspect =>
      simp only [step, hp, preserveInspect]
      refine keeps_change h (by simp) (by simp [Point.stage]) fun w hw => ?_
      split at hw
      · cases hw
        exact ⟨rfl, rfl⟩
      · cases hw
  | preserveMove =>
      simp only [step, hp, preserveMove]
      refine keeps_change h (by simp) (by simp [Point.stage]) fun w hw => ?_
      split at hw
      · cases hw
        exact ⟨rfl, rfl⟩
      · cases hw
  | enableService =>
      simp only [step, hp]
      exact keeps_plain h (by simp) (by simp [Point.stage])
  | done =>
      simp only [step, hp]
      exact keeps_self h
  | raised =>
      simp only [step, hp]
      exact keeps_self h

/-! ## The cache -/

theorem persistent_or (w : World) :
    ∀ f ∈ persistent w, f ∈ files w.cache ∨ f ∈ files (guestCache w.rootfs) := by
  intro f hf
  unfold persistent at hf
  split at hf
  · exact .inr hf
  · exact .inl hf

section

variable {old : World}

theorem cacheKept_of_before {t : Run host} (h : CacheKept old s) (hs : s.point.stage = .before)
    (hcache : t.world.cache = s.world.cache)
    (hguest : files (guestCache t.world.rootfs) = files (guestCache s.world.rootfs))
    (ht : t.point.stage = .before ∨ t.point.stage = .raised) : CacheKept old t := by
  unfold CacheKept at h ⊢
  simp only [hs] at h
  rcases ht with ht | ht <;> simp only [ht, hcache, hguest]
  · exact h
  · rw [h.1, h.2]
    exact persistent_or old

theorem cacheKept_raise (h : CacheKept old s) (hs : s.point.stage = .before)
    (hcaught : s.point.caught = false) : CacheKept old s.raise := by
  refine cacheKept_of_before h hs rfl rfl (.inr ?_)
  rw [raise_of_not_caught hcaught]
  rfl

theorem cacheKept_change {next : Point} {world : Option World} {e : Event}
    (h : CacheKept old s) (hs : s.point.stage = .before) (hcaught : s.point.caught = false)
    (hnext : next.stage = .before)
    (hworld : ∀ w, world = some w → w.cache = s.world.cache ∧
      files (guestCache w.rootfs) = files (guestCache s.world.rootfs)) :
    CacheKept old (s.change next world e) := by
  cases e with
  | go =>
      cases world with
      | none => exact cacheKept_raise h hs hcaught
      | some w =>
          obtain ⟨hcache, hguest⟩ := hworld w rfl
          exact cacheKept_of_before h hs hcache hguest (.inl hnext)
  | fault n => exact cacheKept_raise h hs hcaught
  | bootstrap => exact h

/-- The tree that is to be removed has nothing of the cache: without it there is none, and
otherwise the Space has its own. -/
theorem cacheKept_inspectFailed (h : CacheKept old s) (hp : s.point = .inspectFailed)
    (hpurge : s.request.purge = false) (e : Event) : CacheKept old (inspectFailed s e) := by
  have hs : s.point.stage = .before := by rw [hp]; rfl
  have hcaught : s.point.caught = false := by rw [hp]; rfl
  unfold inspectFailed
  by_cases hdir : s.world.rootfs.isDir = true
  · rw [if_pos ⟨hpurge, hdir⟩]
    refine cacheKept_change h hs hcaught rfl fun w hw => ?_
    split at hw
    · cases hw
      exact ⟨rfl, rfl⟩
    · cases hw
  · rw [if_neg fun hand => hdir hand.2]
    cases e with
    | go =>
        by_cases hmounts : s.world.noMounts .failedRootfs s.world.failedRootfs = true
        · rw [if_pos hmounts]
          intro f hf
          have heq := h
          simp only [CacheKept, hs] at heq
          have hnone : files (guestCache s.world.rootfs) = [] := by
            cases hrootfs : s.world.rootfs with
            | dir rootfs => exact absurd (by rw [hrootfs]; rfl) hdir
            | absent => rfl
            | link => rfl
            | file => rfl
          rcases persistent_or old f hf with hf | hf
          · exact heq.1 ▸ hf
          · rw [← heq.2, hnone] at hf
            cases hf
        · rw [if_neg hmounts]
          exact cacheKept_raise h hs hcaught
    | fault n => exact cacheKept_raise h hs hcaught
    | bootstrap => exact h

/-- As long as the move has not come to its end, what is not yet at the one place is still
at the other. -/
theorem cacheKept_prepareCache (h : CacheKept old s) (hp : s.point = .prepareCache .first)
    (e : Event) : CacheKept old (prepareCache s .first e) := by
  have hs : s.point.stage = .before := by rw [hp]; rfl
  have hcaught : s.point.caught = false := by rw [hp]; rfl
  obtain ⟨hcacheEq, hguestEq⟩ : s.world.cache = old.cache ∧
      files (guestCache s.world.rootfs) = files (guestCache old.rootfs) := by
    simpa only [CacheKept, hs] using h
  unfold prepareCache
  split
  · next content hcache =>
      have hmem : ∀ f ∈ persistent old, f ∈ files s.world.cache := by
        intro f hf
        rw [persistent, ← hcacheEq, hcache] at hf
        rw [hcache]
        exact hf
      cases e with
      | go => exact hmem
      | fault n => exact cacheKept_raise h hs hcaught
      | bootstrap => exact h
  · next content hcache hguest =>
      have hmem : ∀ f ∈ persistent old, f ∈ content := by
        intro f hf
        rw [persistent, ← hcacheEq, hcache] at hf
        simp only at hf
        rw [← hguestEq, hguest] at hf
        exact hf
      split
      · exact hmem
      · rw [raise_of_not_caught hcaught]
        split
        · intro f hf
          refine .inr ?_
          simp only [hguest]
          exact hmem f hf
        · exact fun f hf => .inl (hmem f hf)
      · exact h
  · next hcache hguest =>
      have hnone : persistent old = [] := by
        rw [persistent, ← hcacheEq, hcache]
        simp only
        rw [← hguestEq, hguest]
        rfl
      cases e with
      | go =>
          intro f hf
          rw [hnone] at hf
          cases hf
      | fault n => exact cacheKept_raise h hs hcaught
      | bootstrap => exact h
  · exact cacheKept_raise h hs hcaught

theorem guestCache_orDirectory {rootfs : Rootfs} {var : Node (Node Files)}
    (h : rootfs.var.orDirectory .absent = some var) :
    files (guestCache (.dir { rootfs with var })) = files (guestCache (.dir rootfs)) := by
  obtain ⟨entries, old⟩ := rootfs
  cases old with
  | absent =>
      cases h
      rfl
  | dir content =>
      cases h
      rfl
  | link => cases h
  | file => cases h

theorem cacheKept_step_before (h : CacheKept old s) (hs : s.point.stage = .before)
    (hpurge : s.request.purge = false)
    (hhere : s.point ≠ .removeHome ∧ s.point ≠ .removeCache) (e : Event) :
    CacheKept old (step s e) := by
  have hchange : ∀ next world, s.point.caught = false → next.stage = .before →
      (∀ w, world = some w → w.cache = s.world.cache ∧ w.rootfs = s.world.rootfs) →
        CacheKept old (s.change next world e) := fun next world hcaught hnext hworld =>
    cacheKept_change h hs hcaught hnext fun w hw =>
      ⟨(hworld w hw).1, congrArg (fun r => files (guestCache r)) (hworld w hw).2⟩
  have hplain : ∀ next, s.point.caught = false → next.stage = .before →
      CacheKept old (s.plain next e) := by
    intro next hcaught hnext
    rw [plain_eq_change]
    exact hchange _ _ hcaught hnext fun w hw => by cases hw; exact ⟨rfl, rfl⟩
  cases hp : s.point with
  | removeHome => exact absurd hp hhere.1
  | removeCache => exact absurd hp hhere.2
  | stopService =>
      simp only [step, hp]
      exact hplain _ (by rw [hp]; rfl) rfl
  | removeShortcuts =>
      simp only [step, hp]
      exact hplain _ (by rw [hp]; rfl) (by split <;> rfl)
  | checkPaths =>
      simp only [step, hp, checkPaths]
      refine hchange _ _ (by rw [hp]; rfl) rfl fun w hw => ?_
      split at hw
      · cases hw
      · cases hw
        exact ⟨rfl, rfl⟩
  | makeHome =>
      simp only [step, hp, makeHome]
      refine hchange _ _ (by rw [hp]; rfl) rfl fun w hw => ?_
      obtain ⟨home, -, rfl⟩ := Option.map_eq_some_iff.mp hw
      exact ⟨rfl, rfl⟩
  | ownHome =>
      simp only [step, hp]
      exact hplain _ (by rw [hp]; rfl) rfl
  | inspectRootfs =>
      simp only [step, hp, inspectRootfs]
      refine hchange _ _ (by rw [hp]; rfl) rfl fun w hw => ?_
      split at hw
      · cases hw
        exact ⟨rfl, rfl⟩
      · cases hw
  | inspectFailed =>
      simp only [step, hp]
      exact cacheKept_inspectFailed h hp hpurge e
  | prepareVar round =>
      cases round with
      | second => simp [hp, Point.stage] at hs
      | first =>
          simp only [step, hp, prepareVar]
          refine cacheKept_change h hs (by rw [hp]; rfl) rfl fun w hw => ?_
          split at hw
          · next rootfs hrootfs =>
              obtain ⟨var, hvar, rfl⟩ := Option.map_eq_some_iff.mp hw
              rw [hrootfs]
              exact ⟨rfl, guestCache_orDirectory hvar⟩
          · cases hw
  | prepareRoot round =>
      cases round with
      | second => simp [hp, Point.stage] at hs
      | first =>
          simp only [step, hp]
          exact hplain _ (by rw [hp]; rfl) rfl
  | prepareCache round =>
      cases round with
      | second => simp [hp, Point.stage] at hs
      | first =>
          simp only [step, hp]
          exact cacheKept_prepareCache h hp e
  | prepareGuest round => cases round <;> simp [hp, Point.stage] at hs
  | prepareLabels round => cases round <;> simp [hp, Point.stage] at hs
  | _ => simp [hp, Point.stage] at hs

/-- Once the cache is in its place, or there was none, it has all that was in it. -/
theorem cacheKept_of_mem {t : Run host} (ht : t.point.stage ≠ .before)
    (h : ∀ f ∈ persistent old, f ∈ files t.world.cache) : CacheKept old t := by
  unfold CacheKept
  split
  · next hbefore => exact absurd hbefore ht
  · exact fun f hf => .inl (h f hf)
  · exact h

end

theorem preserved_step {old : Run host} (h : Preserved old s) (e : Event) :
    Preserved old (step s e) := by
  have hkeeps := step_keeps h.purge h.unpurged e
  refine ⟨hkeeps.request.trans h.request, ?_, hkeeps.unpurged,
    fun f hf => hkeeps.home f (h.home f hf), ?_⟩
  · rw [hkeeps.request]
    exact h.purge
  · by_cases hbefore : s.point.stage = .before
    · exact cacheKept_step_before h.cache hbefore h.purge h.unpurged e
    · by_cases hraised : s.point = .raised
      · have hself : step s e = s := by rw [step, hraised]
        rw [hself]
        exact h.cache
      · have hstage : s.point.stage ≠ .raised := fun hstage => hraised (raised_of_stage hstage)
        have hcache := h.cache
        unfold CacheKept at hcache
        split at hcache
        · next hs => exact absurd hs hbefore
        · next hs => exact absurd hs hstage
        · exact cacheKept_of_mem (hkeeps.later hbefore)
            fun f hf => hkeeps.cache f (hcache f hf)

/-! ## What may fail -/

theorem launchable_of_loadSpace {name : String} {w : World} {members : Members}
    (h : loadSpace host name w = .ok members) : w.Launchable host name := by
  unfold loadSpace at h
  split at h
  · cases h
  · next hrootfs =>
      split at h
      · cases h
      · split at h
        · cases h
        · split at h
          · cases h
          · cases h
          · next value hinfo =>
              split at h
              · cases h
              · next found hvalid =>
                  split at h
                  · next hname =>
                      refine ⟨by simpa using hrootfs, value, found, hinfo, hvalid, ?_⟩
                      unfold sameName at hname
                      split at hname
                      · next heq hother =>
                          cases hother
                          rw [heq, eq_of_beq hname]
                      · cases hname
                  · cases h

/-- What is not allowed leaves a tree beside a valid record. -/
theorem allowed_of_failsSafely (h : Tree s) {e : Event} (hsafe : (step s e).FailsSafely) :
    Allowed s e := by
  have hat := h.at_stage
  have hcompleted := h.completed
  -- A run that raises here has something to launch.
  have hraise : s.point.caught = false → s.removing = true → s.bootstrapped = false →
      step s e = s.raise → s.world.rootfs.isDir = true → ¬s.Valid := by
    intro hcaught hremoving hbootstrapped hstep hdir hvalid
    rw [hstep, raise_of_not_caught hcaught] at hsafe
    exact hsafe rfl hremoving hbootstrapped ⟨hdir, hvalid⟩
  cases e with
  | bootstrap => trivial
  | go =>
      simp only [Allowed]
      split
      · next hp =>
          rw [hp] at hat hraise
          by_cases hbootstrapped : s.bootstrapped = true
          · exact .inl hbootstrapped
          · by_cases hmounts : s.world.noMounts .rootfs s.world.rootfs = true
            · exact .inr (.inl hmounts)
            · refine .inr (.inr ?_)
              have hstep : step s .go = s.raise := by
                simp only [step, hp, preserveInspect, if_neg hmounts]
                rfl
              by_contra hdir
              exact hraise rfl hat.1 (by simpa using hbootstrapped) hstep (by simpa using hdir)
                hat.2.2
      · trivial
  | fault n =>
      simp only [Allowed]
      split
      · next hp =>
          intro hmounts hdir hn hvalid
          rw [hp] at hcompleted
          refine hsafe ?_ ?_ ?_ ⟨?_, ?_⟩
          all_goals simp only [step, hp, removeRootfs, hmounts, Bool.true_eq_false, if_false,
            raise_of_not_caught (show s.point.caught = false by rw [hp]; rfl)]
          · simp [hn, hdir]
          · exact hcompleted false rfl
          · rw [left_isDir]
            exact hdir
          · exact hvalid
      · next hp =>
          rw [hp] at hat hraise hcompleted
          exact hraise rfl hat.1 (hcompleted false rfl) (by simp only [step, hp]; rfl) hat.2.1
      · next hp =>
          rw [hp] at hat hraise hcompleted
          exact hraise rfl hat.1 (hcompleted false rfl) (by simp only [step, hp]; rfl) hat.2.1
      · next hp =>
          rw [hp] at hat hraise hcompleted
          exact hraise rfl hat.1 (hcompleted false rfl) (by simp only [step, hp]; rfl) hat.2.1
            hat.2.2.2
      · next hp =>
          rw [hp] at hat hraise
          by_cases hbootstrapped : s.bootstrapped = true
          · exact .inl hbootstrapped
          · refine .inr ?_
            by_contra hdir
            exact hraise rfl hat.1 (by simpa using hbootstrapped) (by simp only [step, hp]; rfl)
              (by simpa using hdir) hat.2.2
      · next hp =>
          rw [hp] at hat hraise
          by_cases hbootstrapped : s.bootstrapped = true
          · exact .inl hbootstrapped
          · refine .inr ?_
            by_contra hdir
            exact hraise rfl hat.1 (by simpa using hbootstrapped) (by simp only [step, hp]; rfl)
              (by simpa using hdir) hat.2.2
      · trivial

end

/-! ## The runs of `create` -/

structure Run.Starts (s : Run host) : Prop where
  point : s.point = .stopService
  removing : s.removing = false
  bootstrapped : s.bootstrapped = false

section

variable {start s : Run host}

theorem Run.Starts.tree (h : start.Starts) : Tree start := by
  refine ⟨fun b hb => ?_, ?_⟩
  · rw [h.point] at hb
    cases hb
    exact h.bootstrapped
  · rw [h.point]
    exact h.removing

theorem Run.Starts.preserved (h : start.Starts) (hpurge : start.request.purge = false) :
    Preserved start start := by
  refine ⟨rfl, hpurge, ?_, fun _ hf => hf, ?_⟩
  · rw [h.point]
    simp
  · unfold CacheKept
    rw [h.point]
    exact ⟨rfl, rfl⟩

theorem tree_run (hstart : start.Starts) (h : Guarded step Allowed start s) : Tree s :=
  h.invariant hstart.tree fun _ _ htree hok => tree_step htree hok

theorem Tree.failsSafely (h : Tree s) : s.FailsSafely := by
  intro hp
  have hat := h.at_stage
  rw [hp] at hat
  exact hat hp

/-- Whatever fails, the home and the cache are kept. -/
theorem kept_run (hstart : start.Starts) (h : Reachable step start s) : Kept start s := by
  intro hpurge
  have hpreserved : Preserved start s :=
    h.invariant (hstart.preserved hpurge) fun _ e hold _ => preserved_step hold e
  refine ⟨hpreserved.home, fun f hf => ?_⟩
  have hcache := hpreserved.cache
  unfold CacheKept at hcache
  split at hcache
  · rw [hcache.1, hcache.2]
    exact persistent_or _ f hf
  · exact hcache f hf
  · exact .inl (hcache f hf)

/-- A run in which each operation that raises is one that may fails safely, and what may
not raise is what would leave an unfinished Space to launch. -/
theorem create_failsSafely (hstart : start.Starts) :
    (∀ s, Guarded step Allowed start s →
      s.FailsSafely ∧ ∀ e, (step s e).FailsSafely ↔ Allowed s e) ∧
    (∀ s : Run host, s.FailsSafely → s.point = .raised → s.removing = true →
      s.bootstrapped = false →
      ∀ members, loadSpace host s.request.name s.world ≠ .ok members) ∧
    ∀ s, Reachable step start s → Kept start s := by
  refine ⟨fun s h => ?_, fun s hsafe hp hremoving hbootstrapped members hloaded => ?_,
    fun s h => kept_run hstart h⟩
  · have htree := tree_run hstart h
    exact ⟨htree.failsSafely, fun e =>
      ⟨allowed_of_failsSafely htree, fun hok => (tree_step htree hok).failsSafely⟩⟩
  · exact hsafe hp hremoving hbootstrapped (launchable_of_loadSpace hloaded)

end

/-! ## A record that cannot be written -/

def recreated : CreateRequest asciiPlatform.host where
  name := "box"
  info := storedBasic
  purge := false
  enable := false
  custom := false
  valid := rfl
  named := rfl

/-- A Space as an earlier creation has left it. -/
def finished : Run asciiPlatform.host where
  request := recreated
  world := {
    home := .dir ["notes"]
    rootHome := .dir ()
    cache := .dir []
    rootfs := .dir ⟨["usr"], .dir (.dir [])⟩
    failedRootfs := .absent
    binds := .absent
    info := .document (.obj storedBasic)
    mounted := fun _ => false
    cacheMounted := false }

theorem create_failsSafely_finished :
    (∀ s, Guarded step Allowed finished s →
      s.FailsSafely ∧ ∀ e, (step s e).FailsSafely ↔ Allowed s e) ∧
    (∀ s : Run asciiPlatform.host, s.FailsSafely → s.point = .raised → s.removing = true →
      s.bootstrapped = false →
      ∀ members, loadSpace asciiPlatform.host s.request.name s.world ≠ .ok members) ∧
    ∀ s, Reachable step finished s → Kept finished s :=
  create_failsSafely ⟨rfl, rfl, rfl⟩

/-- Up to the record everything succeeds, and the old record takes the empty tree for the
finished one. -/
theorem unwritten_launchable :
    ∃ s, Reachable step finished s ∧ s.point = .raised ∧ s.removing = true ∧
      s.bootstrapped = false ∧ s.world.rootfs = .dir Rootfs.empty ∧
      loadSpace asciiPlatform.host "box" s.world = .ok storedBasic :=
  ⟨_, Guarded.run (List.replicate 17 .go ++ [.fault 0]) finished, rfl, rfl, rfl, rfl, rfl⟩

end Spaces.Creation
