import Spaces.Creation.Steps

/-!
# What a failed creation leaves

While the old record of a Space is in place, and again when the new one is, a root
file system at its path is all that is missing for a launch. So a run that raises is
safe when it has no tree at that path, or no valid record. `Allowed` says which
operations may fail for this: those outside the `try` that leave a tree beside a valid
record may not, and the handler may not fail.

What is proved of a run here is about the tree and the record. The home and the cache
come after it.
-/

namespace Spaces.Creation

open Spaces.Library Spaces.Permissions

variable {host : Host}

/-! ## The claims about a run -/

namespace Run

def Valid (s : Run host) : Prop := validInfo host s.request.name s.world.info

/-- A run that raised, with no bootstrap completed and the old tree removed or begun
to be, leaves nothing to launch. -/
def FailsSafely (s : Run host) : Prop :=
  s.point = .raised → s.removing = true → s.bootstrapped = false →
    ¬s.world.Launchable host s.request.name

end Run

/-- The cache that persists: the Space's own, or what is in the tree as long as it has
none. -/
def persistent (w : World) : Files :=
  match w.cache with
  | .absent => files (guestCache w.rootfs)
  | cache => files cache

/-- Without a purge every file of the home is still there, and every file of the
persistent cache. -/
def Kept (s t : Run host) : Prop :=
  s.request.purge = false →
    (∀ f ∈ files s.world.home, f ∈ files t.world.home) ∧
      ∀ f ∈ persistent s.world,
        f ∈ files t.world.cache ∨ f ∈ files (guestCache t.world.rootfs)

/-- The operations that may raise, in the state in which they do. -/
def Allowed (s : Run host) : Event → Prop
  | .fault n =>
      match s.point with
      | .removeRootfs => s.world.noMounts .rootfs s.world.rootfs = true →
          s.world.rootfs.isDir = true → 0 < n → ¬s.Valid
      | .ownRootfs | .writeInfo => ¬s.Valid
      | .lookupDriver => False
      | .preserveInspect | .preserveMove =>
          s.bootstrapped = true ∨ s.world.rootfs.isDir = false
      | _ => True
  | .go =>
      match s.point with
      | .preserveInspect => s.bootstrapped = true ∨
          s.world.noMounts .rootfs s.world.rootfs = true ∨ s.world.rootfs.isDir = false
      | _ => True
  | .bootstrap .. => True

/-! ## The invariant -/

/-- How far a run has come. -/
inductive Stage where
  | before
  | prepared
  | removed
  | cleared
  | made
  | written
  | tried
  | raised
  deriving DecidableEq

def Point.stage : Point → Stage
  | .prepareGuest .first | .prepareLabels .first | .removeRootfs => .prepared
  | .unlinkBinds | .removeFailed => .removed
  | .makeRootfs => .cleared
  | .ownRootfs | .writeInfo => .made
  | .lookupDriver => .written
  | .loadConfiguration | .prepareVar .second | .prepareRoot .second | .prepareCache .second
  | .prepareGuest .second | .prepareLabels .second | .mountCache | .bootstrap | .unmountCache _
  | .preserveInspect | .preserveMove | .enableService | .done => .tried
  | .raised => .raised
  | _ => .before

/-- Whether the bootstrap has completed, where the point says it. -/
def Point.completed : Point → Option Bool
  | .enableService | .done => some true
  | .unmountCache raising => some (!raising)
  | .preserveInspect | .preserveMove | .raised => none
  | _ => some false

/-- What is known of the tree and the record at each stage. -/
def TreeAt (s : Run host) : Stage → Prop
  | .before | .prepared => s.removing = false
  | .removed => s.removing = true ∧ s.world.rootfs = .absent
  | .cleared => s.removing = true ∧ s.world.rootfs = .absent ∧ s.world.failedRootfs = .absent
  | .made => s.removing = true ∧ s.world.rootfs.isDir = true ∧ s.world.failedRootfs = .absent
  | .written => s.removing = true ∧ s.world.rootfs.isDir = true ∧
      s.world.failedRootfs = .absent ∧ s.Valid
  | .tried => s.removing = true ∧ s.world.failedRootfs = .absent ∧ s.Valid
  | .raised => s.FailsSafely

structure Tree (s : Run host) : Prop where
  completed : ∀ b, s.point.completed = some b → s.bootstrapped = b
  at_stage : TreeAt s s.point.stage

/-! ## The record that is written -/

/-- What a valid record is written as is valid, and of the same name. -/
theorem writtenInfo_valid (request : CreateRequest host) :
    ∃ value, writtenInfo request.info = .ok value ∧
      validInfo host request.name (.document value) := by
  obtain ⟨-, permissions, system, users, hinfo⟩ := validateInfo_eq_ok.mp request.valid
  obtain ⟨written, hwritten, hafter, -⟩ := hinfo.written
  refine ⟨_, hwritten, _, _, rfl, validateInfo_eq_ok.mpr ⟨rfl, _, _, _, hafter⟩, ?_⟩
  rw [withPermissions, field_putMember_ne (by decide)]
  exact request.named

/-! ## The tree -/

section

variable {s : Run host}

theorem raise_of_caught (h : s.point.caught = true) :
    s.raise = { s with point := .preserveInspect } := by
  rw [Run.raise, if_pos h]

theorem raise_of_not_caught (h : s.point.caught = false) :
    s.raise = { s with point := .raised } := by
  rw [Run.raise, if_neg (by rw [h]; exact Bool.false_ne_true)]

theorem stage_of_caught {point : Point} (h : point.caught = true) : point.stage = .tried := by
  revert h
  unfold Point.caught
  split <;> simp [Point.stage]

/-- What raises in the `try` goes to the handler. -/
theorem tree_raise_caught (h : Tree s) (hcaught : s.point.caught = true) : Tree s.raise := by
  rw [raise_of_caught hcaught]
  have hat := h.at_stage
  rw [stage_of_caught hcaught] at hat
  exact ⟨fun b hb => (by cases hb), hat⟩

/-- What raises outside of it ends the run. -/
theorem tree_raise (hcaught : s.point.caught = false) (hsafe : s.removing = true →
    s.bootstrapped = false → ¬s.world.Launchable host s.request.name) : Tree s.raise := by
  rw [raise_of_not_caught hcaught]
  exact ⟨fun b hb => (by cases hb), fun _ => hsafe⟩

theorem tree_change (h : Tree s) {next : Point} {world : Option World} {e : Event}
    (hraise : (e = .go ∧ world = none) ∨ (∃ n, e = .fault n) → Tree s.raise)
    (hnext : ∀ w, world = some w → Tree { s with world := w, point := next }) :
    Tree (s.change next world e) := by
  cases e with
  | go =>
      cases world with
      | none => exact hraise (.inl ⟨rfl, rfl⟩)
      | some w => exact hnext w rfl
  | fault n => exact hraise (.inr ⟨n, rfl⟩)
  | bootstrap => exact h

theorem plain_eq_change (next : Point) (e : Event) :
    s.plain next e = s.change next (some s.world) e := by
  cases e <;> rfl

/-- An operation before the removal. -/
theorem tree_change_before (h : Tree s) {next : Point} {world : Option World} {e : Event}
    (hremoving : s.removing = false) (hbootstrapped : s.bootstrapped = false)
    (hcaught : s.point.caught = false) (hstage : next.stage = .before ∨ next.stage = .prepared)
    (hcompleted : next.completed = some false) : Tree (s.change next world e) := by
  refine tree_change h (fun _ => tree_raise hcaught fun h => ?_) fun w hw => ⟨fun b hb => ?_, ?_⟩
  · rw [hremoving] at h
    cases h
  · rw [hcompleted] at hb
    cases hb
    exact hbootstrapped
  · rcases hstage with hstage | hstage <;> simp only [hstage] <;> exact hremoving

/-- An operation in the `try`. -/
theorem tree_change_tried (h : Tree s) {next : Point} {world : Option World} {e : Event}
    (hcaught : s.point.caught = true) (hstage : next.stage = .tried)
    (hcompleted : ∀ b, next.completed = some b → s.bootstrapped = b)
    (hworld : ∀ w, world = some w → w.failedRootfs = s.world.failedRootfs ∧
      w.info = s.world.info) : Tree (s.change next world e) := by
  have hat := h.at_stage
  rw [stage_of_caught hcaught] at hat
  obtain ⟨hremoving, hfailed, hvalid⟩ := hat
  refine tree_change h (fun _ => tree_raise_caught h hcaught) fun w hw => ⟨hcompleted, ?_⟩
  obtain ⟨hf, hi⟩ := hworld w hw
  simp only [hstage]
  refine ⟨hremoving, hf.trans hfailed, ?_⟩
  unfold Run.Valid at hvalid ⊢
  rw [hi]
  exact hvalid

/-- Up to the removal nothing is removed of the tree. -/
theorem tree_step_before (h : Tree s) (hstage : s.point.stage = .before ∨
    s.point.stage = .prepared) (hpoint : s.point ≠ .removeRootfs) (e : Event) :
    Tree (step s e) := by
  have hremoving : s.removing = false := by
    have hat := h.at_stage
    rcases hstage with hstage | hstage <;> rw [hstage] at hat <;> exact hat
  have hbootstrapped : s.point.completed = some false → s.bootstrapped = false :=
    h.completed false
  have hraise : s.point.caught = false → Tree s.raise := fun hcaught =>
    tree_raise hcaught fun h => by rw [hremoving] at h; cases h
  have hchange : ∀ next world, s.point.completed = some false → s.point.caught = false →
      (next.stage = .before ∨ next.stage = .prepared) → next.completed = some false →
        Tree (s.change next world e) := fun next world hcompleted hcaught =>
    tree_change_before h hremoving (hbootstrapped hcompleted) hcaught
  -- A removal or a move that goes wrong leaves the run raised, with another world.
  have hother : ∀ world, s.point.completed = some false → s.point.caught = false →
      Tree { s.raise with world } := by
    intro world hcompleted hcaught
    rw [raise_of_not_caught hcaught]
    refine ⟨fun b hb => (by cases hb), fun _ hremoved => ?_⟩
    rw [hremoving] at hremoved
    cases hremoved
  have hnext : ∀ world next, s.point.completed = some false →
      (next.stage = .before ∨ next.stage = .prepared) → next.completed = some false →
        Tree { s with world, point := next } := by
    intro world next hcompleted hnextStage hnextCompleted
    refine ⟨fun b hb => ?_, ?_⟩
    · rw [hnextCompleted] at hb
      cases hb
      exact hbootstrapped hcompleted
    · rcases hnextStage with hnextStage | hnextStage <;> simp only [hnextStage] <;>
        exact hremoving
  cases hp : s.point with
  | removeHome =>
      simp only [step, hp, removeHome]
      rw [hp] at hraise hother hnext
      split
      · exact hraise rfl
      · split
        · exact hother _ rfl rfl
        · exact hnext _ .removeCache rfl (.inl rfl) rfl
        · exact h
  | removeCache =>
      simp only [step, hp, removeCache]
      rw [hp] at hraise hother hnext
      split
      · exact hraise rfl
      · split
        · exact hother _ rfl rfl
        · exact hnext _ .makeHome rfl (.inl rfl) rfl
        · exact h
  | prepareCache round =>
      cases round with
      | second => simp [hp, Point.stage] at hstage
      | first =>
          simp only [step, hp, prepareCache]
          rw [hp] at hraise hother hnext hchange
          split
          · rw [plain_eq_change]
            exact hchange _ _ rfl rfl (.inr rfl) rfl
          · split
            · exact hnext _ _ rfl (.inr rfl) rfl
            · split <;> exact hother _ rfl rfl
            · exact h
          · exact hchange _ _ rfl rfl (.inr rfl) rfl
          · exact hraise rfl
  | removeRootfs => exact absurd hp hpoint
  | stopService =>
      simp only [step, hp, plain_eq_change]
      exact hchange _ _ (by rw [hp]; rfl) (by rw [hp]; rfl) (.inl rfl) rfl
  | removeShortcuts =>
      simp only [step, hp, plain_eq_change]
      refine hchange _ _ (by rw [hp]; rfl) (by rw [hp]; rfl) (.inl ?_) ?_ <;> split <;> rfl
  | checkPaths =>
      simp only [step, hp]
      exact hchange _ _ (by rw [hp]; rfl) (by rw [hp]; rfl) (.inl rfl) rfl
  | makeHome =>
      simp only [step, hp]
      exact hchange _ _ (by rw [hp]; rfl) (by rw [hp]; rfl) (.inl rfl) rfl
  | ownHome =>
      simp only [step, hp, plain_eq_change]
      exact hchange _ _ (by rw [hp]; rfl) (by rw [hp]; rfl) (.inl rfl) rfl
  | inspectRootfs =>
      simp only [step, hp]
      exact hchange _ _ (by rw [hp]; rfl) (by rw [hp]; rfl) (.inl rfl) rfl
  | inspectFailed =>
      simp only [step, hp]
      refine hchange _ _ (by rw [hp]; rfl) (by rw [hp]; rfl) ?_ ?_ <;> split
      · exact .inl rfl
      · exact .inr rfl
      · rfl
      · rfl
  | prepareVar round =>
      cases round with
      | second => simp [hp, Point.stage] at hstage
      | first =>
          simp only [step, hp]
          exact hchange _ _ (by rw [hp]; rfl) (by rw [hp]; rfl) (.inl rfl) rfl
  | prepareRoot round =>
      cases round with
      | second => simp [hp, Point.stage] at hstage
      | first =>
          simp only [step, hp, plain_eq_change]
          exact hchange _ _ (by rw [hp]; rfl) (by rw [hp]; rfl) (.inl rfl) rfl
  | prepareGuest round =>
      cases round with
      | second => simp [hp, Point.stage] at hstage
      | first =>
          simp only [step, hp]
          exact hchange _ _ (by rw [hp]; rfl) (by rw [hp]; rfl) (.inr rfl) rfl
  | prepareLabels round =>
      cases round with
      | second => simp [hp, Point.stage] at hstage
      | first =>
          simp only [step, hp, prepareLabels, plain_eq_change]
          exact hchange _ _ (by rw [hp]; rfl) (by rw [hp]; rfl) (.inr rfl) rfl
  | _ => simp [hp, Point.stage] at hstage

theorem left_isDir {α : Type} (drop : α → α) (node : Node α) :
    (node.left drop).isDir = node.isDir := by
  cases node <;> rfl

/-- The old tree is gone, or as much of it as was removed before the removal raised. -/
theorem tree_step_removeRootfs (h : Tree s) (hp : s.point = .removeRootfs) {e : Event}
    (hok : Allowed s e) : Tree (step s e) := by
  have hat := h.at_stage
  have hbootstrapped := h.completed false (by rw [hp]; rfl)
  rw [hp] at hat
  have hremoving : s.removing = false := hat
  have hcaught : s.point.caught = false := by rw [hp]; rfl
  simp only [step, hp, removeRootfs]
  split
  · exact tree_raise hcaught fun h => by rw [hremoving] at h; cases h
  · next hmounts =>
      split
      · next n =>
          rw [raise_of_not_caught hcaught]
          refine ⟨fun b hb => (by cases hb), fun _ hremoved _ hlaunch => ?_⟩
          obtain ⟨hn, hdir⟩ : 0 < n ∧ s.world.rootfs.isDir = true := by simpa using hremoved
          have hvalid : ¬s.Valid := by
            have hallowed := hok
            simp only [Allowed, hp] at hallowed
            exact hallowed (by simpa using hmounts) hdir hn
          exact hvalid hlaunch.2
      · exact ⟨fun b hb => by cases hb; exact hbootstrapped, rfl, rfl⟩
      · exact h

/-- From the removal to the record that is written. -/
theorem tree_step_made (h : Tree s) (hstage : s.point.stage = .removed ∨
    s.point.stage = .cleared ∨ s.point.stage = .made ∨ s.point.stage = .written) {e : Event}
    (hok : Allowed s e) : Tree (step s e) := by
  have hat := h.at_stage
  have hcompleted : s.point.completed = some false → ∀ b, some false = some b →
      s.bootstrapped = b := fun hpoint b hb => h.completed b (hpoint.trans hb)
  -- Without a tree at its path there is nothing to launch.
  have hnothing : s.world.rootfs = .absent → s.point.caught = false → Tree s.raise :=
    fun hrootfs hcaught => tree_raise hcaught fun _ _ hlaunch => by
      rw [World.Launchable, hrootfs] at hlaunch
      cases hlaunch.1
  cases hp : s.point with
  | unlinkBinds =>
      rw [hp] at hat hnothing hcompleted
      obtain ⟨hremoving, hrootfs⟩ := hat
      simp only [step, hp, unlinkBinds]
      refine tree_change h (fun _ => hnothing hrootfs rfl) fun w hw =>
        ⟨hcompleted rfl, hremoving, ?_⟩
      split at hw
      · cases hw
      · cases hw
        exact hrootfs
  | removeFailed =>
      rw [hp] at hat hnothing hcompleted
      obtain ⟨hremoving, hrootfs⟩ := hat
      simp only [step, hp, removeFailed]
      split
      · exact hnothing hrootfs rfl
      · split
        · rw [raise_of_not_caught (by rw [hp]; rfl)]
          refine ⟨fun b hb => (by cases hb), fun _ _ _ hlaunch => ?_⟩
          have hdir := hlaunch.1
          simp only [hrootfs] at hdir
          cases hdir
        · exact ⟨hcompleted rfl, hremoving, hrootfs, rfl⟩
        · exact h
  | makeRootfs =>
      rw [hp] at hat hnothing hcompleted
      obtain ⟨hremoving, hrootfs, hfailed⟩ := hat
      simp only [step, hp, makeRootfs]
      refine tree_change h (fun _ => hnothing hrootfs rfl) fun w hw =>
        ⟨hcompleted rfl, hremoving, ?_⟩
      rw [hrootfs] at hw
      cases hw
      exact ⟨rfl, hfailed⟩
  | ownRootfs =>
      rw [hp] at hat hcompleted
      simp only [step, hp, plain_eq_change]
      refine tree_change h ?_ fun w hw => ⟨hcompleted rfl, by cases hw; exact hat⟩
      rintro (⟨-, hnone⟩ | ⟨n, rfl⟩)
      · cases hnone
      · simp only [Allowed, hp] at hok
        exact tree_raise (by rw [hp]; rfl) fun _ _ hlaunch => hok hlaunch.2
  | writeInfo =>
      rw [hp] at hat hcompleted
      obtain ⟨value, hvalue, hvalid⟩ := writtenInfo_valid s.request
      simp only [step, hp, writeInfo, hvalue]
      refine tree_change h ?_ fun w hw => ⟨hcompleted rfl, ?_⟩
      · rintro (⟨-, hnone⟩ | ⟨n, rfl⟩)
        · cases hnone
        · simp only [Allowed, hp] at hok
          exact tree_raise (by rw [hp]; rfl) fun _ _ hlaunch => hok hlaunch.2
      · cases hw
        exact ⟨hat.1, hat.2.1, hat.2.2, hvalid⟩
  | lookupDriver =>
      rw [hp] at hat hcompleted
      simp only [step, hp, plain_eq_change]
      refine tree_change h ?_ fun w hw =>
        ⟨hcompleted rfl, by cases hw; exact ⟨hat.1, hat.2.2.1, hat.2.2.2⟩⟩
      rintro (⟨-, hnone⟩ | ⟨n, rfl⟩)
      · cases hnone
      · simp only [Allowed, hp] at hok
  | prepareVar round => cases round <;> simp [hp, Point.stage] at hstage
  | prepareRoot round => cases round <;> simp [hp, Point.stage] at hstage
  | prepareCache round => cases round <;> simp [hp, Point.stage] at hstage
  | prepareGuest round => cases round <;> simp [hp, Point.stage] at hstage
  | prepareLabels round => cases round <;> simp [hp, Point.stage] at hstage
  | _ => simp [hp, Point.stage] at hstage

/-- Moving the cache out of the guest's tree, in the `try`. -/
theorem tree_prepareCache (h : Tree s) (hp : s.point = .prepareCache .second) (e : Event) :
    Tree (prepareCache s .second e) := by
  have hat := h.at_stage
  have hcompleted := h.completed
  have hcaught : s.point.caught = true := by rw [hp]; rfl
  rw [hp] at hat hcompleted
  obtain ⟨hremoving, hfailed, hvalid⟩ := hat
  have hraised : ∀ world : World, world.failedRootfs = s.world.failedRootfs →
      world.info = s.world.info → Tree { s.raise with world } := by
    intro world hf hi
    rw [raise_of_caught hcaught]
    refine ⟨fun b hb => (by cases hb), hremoving, hf.trans hfailed, ?_⟩
    rw [Run.Valid, hi]
    exact hvalid
  unfold prepareCache
  split
  · rw [plain_eq_change]
    exact tree_change_tried h hcaught rfl hcompleted fun w hw => by
      cases hw
      exact ⟨rfl, rfl⟩
  · split
    · exact ⟨hcompleted, hremoving, hfailed, hvalid⟩
    · split
      · exact hraised _ rfl rfl
      · exact hraised _ rfl rfl
    · exact h
  · exact tree_change_tried h hcaught rfl hcompleted fun w hw => by
      cases hw
      exact ⟨rfl, rfl⟩
  · exact tree_raise_caught h hcaught

theorem tree_bootstrap (h : Tree s) (hp : s.point = .bootstrap) (e : Event) :
    Tree (bootstrap s e) := by
  have hat := h.at_stage
  rw [hp] at hat
  cases e with
  | bootstrap completes rootfs added leftMounted =>
      cases hcustom : s.request.custom <;> cases completes <;>
        simp only [bootstrap, hcustom, Bool.false_eq_true, if_true, if_false] <;>
        exact ⟨fun b hb => by cases hb <;> rfl, hat⟩
  | go => exact h
  | fault n => exact h

theorem tree_preserveInspect (h : Tree s) (hp : s.point = .preserveInspect) {e : Event}
    (hok : Allowed s e) : Tree (preserveInspect s e) := by
  have hat := h.at_stage
  rw [hp] at hat
  refine tree_change h ?_ fun w hw => ?_
  · intro hcase
    refine tree_raise (by rw [hp]; rfl) fun _ hbootstrapped hlaunch => ?_
    rcases hcase with ⟨rfl, hnone⟩ | ⟨n, rfl⟩
    · simp only [Allowed, hp, hbootstrapped, Bool.false_eq_true, false_or] at hok
      rcases hok with hok | hok
      · rw [if_pos hok] at hnone
        cases hnone
      · rw [hlaunch.1] at hok
        cases hok
    · simp only [Allowed, hp, hbootstrapped, Bool.false_eq_true, false_or] at hok
      rw [hlaunch.1] at hok
      cases hok
  · split at hw
    · cases hw
      exact ⟨fun b hb => (by cases hb), hat⟩
    · cases hw

/-- Once the tree has been moved, there is none beside the record. -/
theorem tree_preserveMove (h : Tree s) (hp : s.point = .preserveMove) {e : Event}
    (hok : Allowed s e) : Tree (preserveMove s e) := by
  have hat := h.at_stage
  rw [hp] at hat
  obtain ⟨-, hfailed, -⟩ := hat
  refine tree_change h ?_ fun w hw => ?_
  · intro hcase
    refine tree_raise (by rw [hp]; rfl) fun _ hbootstrapped hlaunch => ?_
    rcases hcase with ⟨rfl, hnone⟩ | ⟨n, rfl⟩
    · rw [hlaunch.1, hfailed] at hnone
      cases hnone
    · simp only [Allowed, hp, hbootstrapped, Bool.false_eq_true, false_or] at hok
      rw [hlaunch.1] at hok
      cases hok
  · split at hw
    · cases hw
      exact ⟨fun b hb => (by cases hb), fun _ _ _ hlaunch => by cases hlaunch.1⟩
    · cases hw

/-- In the `try` and in its handler. -/
theorem tree_step_tried (h : Tree s) (hstage : s.point.stage = .tried) {e : Event}
    (hok : Allowed s e) : Tree (step s e) := by
  have hat := h.at_stage
  rw [hstage] at hat
  obtain ⟨hremoving, hfailed, hvalid⟩ := hat
  have hcompleted := h.completed
  have hplain : ∀ next, s.point.caught = true → next.stage = .tried →
      (∀ b, next.completed = some b → s.bootstrapped = b) → Tree (s.plain next e) := by
    intro next hcaught hnext hnextCompleted
    rw [plain_eq_change]
    exact tree_change_tried h hcaught hnext hnextCompleted fun w hw => by cases hw; exact ⟨rfl, rfl⟩
  cases hp : s.point with
  | loadConfiguration =>
      rw [hp] at hplain hcompleted
      simp only [step, hp]
      split
      · exact hplain _ rfl rfl hcompleted
      · exact hplain _ rfl rfl hcompleted
  | prepareVar round =>
      cases round with
      | first => simp [hp, Point.stage] at hstage
      | second =>
          rw [hp] at hcompleted
          simp only [step, hp, prepareVar]
          refine tree_change_tried h (by rw [hp]; rfl) rfl hcompleted fun w hw => ?_
          split at hw
          · obtain ⟨var, -, rfl⟩ := Option.map_eq_some_iff.mp hw
            exact ⟨rfl, rfl⟩
          · cases hw
  | prepareRoot round =>
      cases round with
      | first => simp [hp, Point.stage] at hstage
      | second =>
          rw [hp] at hplain hcompleted
          simp only [step, hp]
          exact hplain _ rfl rfl hcompleted
  | prepareCache round =>
      cases round with
      | first => simp [hp, Point.stage] at hstage
      | second =>
          simp only [step, hp]
          exact tree_prepareCache h hp e
  | prepareGuest round =>
      cases round with
      | first => simp [hp, Point.stage] at hstage
      | second =>
          rw [hp] at hcompleted
          simp only [step, hp, prepareGuest]
          refine tree_change_tried h (by rw [hp]; rfl) rfl hcompleted fun w hw => ?_
          obtain ⟨cache, -, rfl⟩ := Option.map_eq_some_iff.mp hw
          exact ⟨rfl, rfl⟩
  | prepareLabels round =>
      cases round with
      | first => simp [hp, Point.stage] at hstage
      | second =>
          rw [hp] at hplain hcompleted
          simp only [step, hp, prepareLabels]
          exact hplain _ rfl rfl hcompleted
  | mountCache =>
      rw [hp] at hcompleted
      simp only [step, hp, mountCache]
      exact tree_change_tried h (by rw [hp]; rfl) rfl hcompleted fun w hw => by
        cases hw
        exact ⟨rfl, rfl⟩
  | bootstrap =>
      simp only [step, hp]
      exact tree_bootstrap h hp e
  | unmountCache raising =>
      rw [hp] at hcompleted
      simp only [step, hp, unmountCache]
      refine tree_change_tried h (by rw [hp]; rfl) ?_ ?_ fun w hw => by
        cases hw
        exact ⟨rfl, rfl⟩
      · split <;> rfl
      · intro b hb
        cases raising with
        | true => cases hb
        | false => exact hcompleted b hb
  | preserveInspect =>
      simp only [step, hp]
      exact tree_preserveInspect h hp hok
  | preserveMove =>
      simp only [step, hp]
      exact tree_preserveMove h hp hok
  | enableService =>
      have hdone : s.bootstrapped = true := hcompleted true (by rw [hp]; rfl)
      simp only [step, hp, plain_eq_change]
      refine tree_change h ?_ fun w hw => ?_
      · refine fun _ => tree_raise (by rw [hp]; rfl) fun _ hbootstrapped => ?_
        rw [hdone] at hbootstrapped
        cases hbootstrapped
      · cases hw
        exact ⟨fun b hb => by cases hb; exact hdone, hremoving, hfailed, hvalid⟩
  | done =>
      simp only [step, hp]
      exact h
  | _ => simp [hp, Point.stage] at hstage

theorem raised_of_stage {point : Point} (h : point.stage = .raised) : point = .raised := by
  cases point with
  | raised => rfl
  | prepareVar round => cases round <;> simp [Point.stage] at h
  | prepareRoot round => cases round <;> simp [Point.stage] at h
  | prepareCache round => cases round <;> simp [Point.stage] at h
  | prepareGuest round => cases round <;> simp [Point.stage] at h
  | prepareLabels round => cases round <;> simp [Point.stage] at h
  | _ => simp [Point.stage] at h

/-- What a step that is allowed leaves of the tree and the record. -/
theorem tree_step (h : Tree s) {e : Event} (hok : Allowed s e) : Tree (step s e) := by
  cases hstage : s.point.stage with
  | before =>
      refine tree_step_before h (.inl hstage) (fun hp => ?_) e
      rw [hp] at hstage
      cases hstage
  | prepared =>
      by_cases hp : s.point = .removeRootfs
      · exact tree_step_removeRootfs h hp hok
      · exact tree_step_before h (.inr hstage) hp e
  | removed => exact tree_step_made h (.inl hstage) hok
  | cleared => exact tree_step_made h (.inr (.inl hstage)) hok
  | made => exact tree_step_made h (.inr (.inr (.inl hstage))) hok
  | written => exact tree_step_made h (.inr (.inr (.inr hstage))) hok
  | tried => exact tree_step_tried h hstage hok
  | raised =>
      rw [step, raised_of_stage hstage]
      exact h

end

end Spaces.Creation
