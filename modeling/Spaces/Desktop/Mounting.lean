import Mathlib.Data.Finset.Card
import Spaces.Library.MountTable
import Spaces.Library.Routine
import Spaces.Shortcuts.Names

/-!
# Mounts that logins share

The desktop's resources are mounted in the machine, each at one destination. Who uses
a destination and what is mounted there is remembered beside the machine's own table:
the last user's going unmounts it, and another source for it is refused.

Nothing is planned at a place below another. So a destination that is unmounted takes
nothing along, and one that is mounted hides nothing.

An unmount is run in the machine, and what is checked is only the command that has it
run there. Where it fails unseen, what is remembered and what the machine has go apart.
-/

namespace Spaces.Desktop

open Spaces.Library Routine Spaces.Shortcuts

/-- An absolute path in the machine, by its components. -/
abbrev Place := List FsName

/-- The device and the inode of a source. -/
abbrev FileId := Nat × Nat

structure DesktopBind where
  destination : Place
  source : Place
  device : Nat
  inode : Nat
  deriving DecidableEq

def DesktopBind.identity (binding : DesktopBind) : FileId := (binding.device, binding.inode)

structure Mounted where
  destination : Place
  identity : FileId
  deriving DecidableEq

/-- How an unmount ends in the machine. -/
inductive Report
  /-- It is done, and that is told. -/
  | told
  /-- It fails, and the command returns as if it were done. -/
  | unseen
  /-- It is done, and the command raises. -/
  | late
  deriving DecidableEq

/-- What the controller remembers, and what the machine has. -/
structure Mounts where
  destinationUsers : Place → Option (Finset Nat) := fun _ => none
  destinationSources : Place → Option FileId := fun _ => none
  table : List Mounted := []
  /-- How the coming unmounts end; those that are not listed are told of. -/
  reports : List Report := []
  /-- An unmount was not told of. Nothing asks for this. -/
  strayed : Bool := false

/-- A plan: what is mounted, and everything else of it. -/
structure DesktopPlan (R : Type) where
  binds : List DesktopBind
  rest : R
  deriving DecidableEq

/-- What one user has. -/
structure ActiveDesktop (R : Type) where
  plan : DesktopPlan R
  /-- The portal's proxy runs. -/
  portal : Bool
  portalBinding : Option DesktopBind
  /-- What the other bridges have mounted. -/
  bridges : List DesktopBind

structure Controller (R : Type) where
  mounts : Mounts
  current : ActiveDesktop R

inductive DesktopError where
  /-- `DesktopSetupError`. -/
  | setup
  /-- `SessionResourceChangedError`. -/
  | resourceChanged
  /-- `SpacesError`: a destination is bound to a different source. -/
  | otherSource
  | osError
  | calledProcess
  deriving DecidableEq

namespace Mounts

def setUsers (m : Mounts) (destination : Place) (users : Option (Finset Nat)) : Mounts :=
  { m with destinationUsers := Function.update m.destinationUsers destination users }

def setSource (m : Mounts) (destination : Place) (source : Option FileId) : Mounts :=
  { m with destinationSources := Function.update m.destinationSources destination source }

/-- `machinectl bind`. -/
def bind (m : Mounts) (binding : DesktopBind) : Mounts :=
  { m with table := ⟨binding.destination, binding.identity⟩ :: m.table }

/-- `umount --lazy`. It fails where nothing can be taken off. -/
def umount (m : Mounts) (destination : Place) : Mounts :=
  { m with table := (MountTable.detach Mounted.destination destination m.table).getD m.table }

def report (m : Mounts) : Report := m.reports.headD .told

/-- The next unmount is over. -/
def ended (m : Mounts) (destination : Place) : Mounts :=
  match m.report with
  | .told => { m.umount destination with reports := m.reports.tail }
  | .unseen => { m with reports := m.reports.tail, strayed := true }
  | .late => { m.umount destination with reports := m.reports.tail, strayed := true }

@[simp] theorem setUsers_self (m : Mounts) (d : Place) (users : Option (Finset Nat)) :
    (m.setUsers d users).destinationUsers d = users := Function.update_self _ _ _

@[simp] theorem setUsers_of_ne (m : Mounts) {d d' : Place} (h : d' ≠ d)
    (users : Option (Finset Nat)) :
    (m.setUsers d users).destinationUsers d' = m.destinationUsers d' :=
  Function.update_of_ne h _ _

@[simp] theorem setSource_self (m : Mounts) (d : Place) (source : Option FileId) :
    (m.setSource d source).destinationSources d = source := Function.update_self _ _ _

@[simp] theorem setSource_of_ne (m : Mounts) {d d' : Place} (h : d' ≠ d)
    (source : Option FileId) :
    (m.setSource d source).destinationSources d' = m.destinationSources d' :=
  Function.update_of_ne h _ _

@[simp] theorem setUsers_sources (m : Mounts) (d : Place) (users : Option (Finset Nat)) :
    (m.setUsers d users).destinationSources = m.destinationSources := rfl

@[simp] theorem setUsers_table (m : Mounts) (d : Place) (users : Option (Finset Nat)) :
    (m.setUsers d users).table = m.table := rfl

@[simp] theorem setSource_users (m : Mounts) (d : Place) (source : Option FileId) :
    (m.setSource d source).destinationUsers = m.destinationUsers := rfl

@[simp] theorem setSource_table (m : Mounts) (d : Place) (source : Option FileId) :
    (m.setSource d source).table = m.table := rfl

@[simp] theorem bind_users (m : Mounts) (binding : DesktopBind) :
    (m.bind binding).destinationUsers = m.destinationUsers := rfl

@[simp] theorem bind_sources (m : Mounts) (binding : DesktopBind) :
    (m.bind binding).destinationSources = m.destinationSources := rfl

@[simp] theorem bind_table (m : Mounts) (binding : DesktopBind) :
    (m.bind binding).table = ⟨binding.destination, binding.identity⟩ :: m.table := rfl

@[simp] theorem ended_users (m : Mounts) (d : Place) :
    (m.ended d).destinationUsers = m.destinationUsers := by
  unfold ended
  split <;> rfl

@[simp] theorem ended_sources (m : Mounts) (d : Place) :
    (m.ended d).destinationSources = m.destinationSources := by
  unfold ended
  split <;> rfl

end Mounts

section Code

variable {R : Type}

def Controller.withMounts (c : Controller R) (m : Mounts) : Controller R := { c with mounts := m }

/-- `_mount`. The source is opened, and must be what it was when it was planned. -/
def mountBind (uid : Nat) (binding : DesktopBind) : Routine (Controller R) DesktopError Unit := do
  let c ← look
  match c.mounts.destinationUsers binding.destination with
  | some users =>
      if c.mounts.destinationSources binding.destination ≠ some binding.identity then
        throw .otherSource
      else
        update fun c => c.withMounts
          (c.mounts.setUsers binding.destination (some (insert uid users)))
  | none => do
      performClean .osError some
      performClean .resourceChanged some
      performClean .calledProcess fun c => some (c.withMounts (c.mounts.bind binding))
      update fun c => c.withMounts ((c.mounts.setUsers binding.destination (some {uid})).setSource
        binding.destination (some binding.identity))

/-- `machinectl shell` with `umount --lazy`. It returns whether or not that succeeds. -/
def umountInMachine (destination : Place) : Routine (Controller R) DesktopError Unit := do
  performClean .calledProcess some
  let c ← look
  update fun c => c.withMounts (c.mounts.ended destination)
  if c.mounts.report = .late then throw .calledProcess else pure ()

/-- `_unmount`. -/
def unmountBind (uid : Nat) (binding : DesktopBind) : Routine (Controller R) DesktopError Unit := do
  let c ← look
  match c.mounts.destinationUsers binding.destination with
  | none => pure ()
  | some users =>
      if uid ∉ users then pure ()
      else if 1 < users.card then
        update fun c => c.withMounts
          (c.mounts.setUsers binding.destination (some (users.erase uid)))
      else do
        umountInMachine binding.destination
        update fun c => c.withMounts
          ((c.mounts.setUsers binding.destination none).setSource binding.destination none)

end Code

/-! ## What they come to -/

namespace Mounts

/-- The user has the destination. -/
def Holds (m : Mounts) (uid : Nat) (destination : Place) : Prop :=
  ∃ users, m.destinationUsers destination = some users ∧ uid ∈ users

/-- The mounts when `_mount` is through. -/
def hold (m : Mounts) (uid : Nat) (binding : DesktopBind) : Mounts :=
  match m.destinationUsers binding.destination with
  | some users => m.setUsers binding.destination (some (insert uid users))
  | none => ((m.bind binding).setUsers binding.destination (some {uid})).setSource
      binding.destination (some binding.identity)

/-- Nothing else may be mounted there for another user. -/
def Accepts (m : Mounts) (binding : DesktopBind) : Prop :=
  ∀ users, m.destinationUsers binding.destination = some users →
    m.destinationSources binding.destination = some binding.identity

/-- Every unmount is told of as it ends. -/
def Frank (m : Mounts) : Prop := m.strayed = false ∧ ∀ report ∈ m.reports, report = .told

/-- What `_unmount` can come to. It unmounts where the user is the last. -/
inductive Released (m : Mounts) (uid : Nat) (destination : Place) : Mounts → Prop where
  | absent : ¬ m.Holds uid destination → Released m uid destination m
  | shared (users : Finset Nat) : m.destinationUsers destination = some users → uid ∈ users →
      1 < users.card → Released m uid destination (m.setUsers destination (some (users.erase uid)))
  | last : m.destinationUsers destination = some {uid} → Released m uid destination
      (((m.ended destination).setUsers destination none).setSource destination none)

/-- What `_unmount` can leave when it raises. -/
inductive Failed (m : Mounts) (uid : Nat) (destination : Place) : Mounts → Prop where
  | before : Failed m uid destination m
  | late : m.destinationUsers destination = some {uid} → m.report = .late →
      Failed m uid destination (m.ended destination)

end Mounts

section Code

variable {R : Type}

theorem mountBind_meets (uid : Nat) (binding : DesktopBind) (c : Controller R) :
    Meets (fun _ => True) (· = c) (mountBind uid binding)
      (fun _ c' => c.mounts.Accepts binding ∧ c' = c.withMounts (c.mounts.hold uid binding))
      (fun _ c' => c' = c) := by
  refine Meets.looked ?_
  unfold Mounts.hold
  cases husers : c.mounts.destinationUsers binding.destination with
  | some users =>
      dsimp only
      split
      · exact Meets.throw fun _ h => h
      · next hsource =>
          rw [ne_eq, not_not] at hsource
          refine Meets.update ?_
          rintro _ rfl
          exact ⟨trivial, fun _ _ => hsource, rfl⟩
  | none =>
      have haccepts : c.mounts.Accepts binding := by
        intro users hsome
        rw [husers] at hsome
        cases hsome
      refine Meets.bind (Q := fun _ c' => c' = c) (Meets.performClean ?_ fun _ h => h) fun _ => ?_
      · rintro _ _ rfl hsome
        exact ⟨trivial, (Option.some.inj hsome).symm⟩
      refine Meets.bind (Q := fun _ c' => c' = c) (Meets.performClean ?_ fun _ h => h) fun _ => ?_
      · rintro _ _ rfl hsome
        exact ⟨trivial, (Option.some.inj hsome).symm⟩
      refine Meets.bind (Q := fun _ c' => c' = c.withMounts (c.mounts.bind binding))
        (Meets.performClean ?_ fun _ h => h) fun _ => ?_
      · rintro _ _ rfl hsome
        exact ⟨trivial, (Option.some.inj hsome).symm⟩
      refine Meets.update ?_
      rintro _ rfl
      exact ⟨trivial, haccepts, rfl⟩

theorem umountInMachine_meets (destination : Place) (c : Controller R) :
    Meets (fun _ => True) (· = c) (umountInMachine destination)
      (fun _ c' => c' = c.withMounts (c.mounts.ended destination))
      (fun _ c' => c' = c ∨
        c.mounts.report = .late ∧ c' = c.withMounts (c.mounts.ended destination)) := by
  refine Meets.bind (Q := fun _ c' => c' = c) (Meets.performClean ?_ fun _ h => .inl h)
    fun _ => Meets.looked ?_
  · rintro _ _ rfl hsome
    exact ⟨trivial, (Option.some.inj hsome).symm⟩
  · refine Meets.bind (Q := fun _ c' => c' = c.withMounts (c.mounts.ended destination))
      (Meets.update ?_) fun _ => ?_
    · rintro _ rfl
      exact ⟨trivial, rfl⟩
    · split
      · next hlate => exact Meets.throw fun _ h => .inr ⟨hlate, h⟩
      · exact Meets.pure fun _ h => h

theorem unmountBind_meets (uid : Nat) (binding : DesktopBind) (c : Controller R) :
    Meets (fun _ => True) (· = c) (unmountBind uid binding)
      (fun _ c' => ∃ m, c.mounts.Released uid binding.destination m ∧ c' = c.withMounts m)
      (fun _ c' => ∃ m, c.mounts.Failed uid binding.destination m ∧ c' = c.withMounts m) := by
  refine Meets.looked ?_
  cases husers : c.mounts.destinationUsers binding.destination with
  | none =>
      refine Meets.pure ?_
      rintro _ rfl
      refine ⟨_, .absent ?_, rfl⟩
      rintro ⟨users, hsome, -⟩
      rw [husers] at hsome
      cases hsome
  | some users =>
      dsimp only
      split
      · next huid =>
          refine Meets.pure ?_
          rintro _ rfl
          refine ⟨_, .absent ?_, rfl⟩
          rintro ⟨users', hsome, huid'⟩
          rw [husers] at hsome
          cases hsome
          exact huid huid'
      · next huid =>
          rw [not_not] at huid
          split
          · next hcard =>
              refine Meets.update ?_
              rintro _ rfl
              exact ⟨trivial, _, .shared users husers huid hcard, rfl⟩
          · next hcard =>
              have hlast : users = {uid} := Finset.eq_singleton_iff_unique_mem.mpr
                ⟨huid, fun other hother =>
                  Finset.card_le_one.mp (not_lt.mp hcard) other hother uid huid⟩
              rw [hlast] at husers
              refine Meets.bind ((umountInMachine_meets binding.destination c).weaken
                (fun _ h => h) (fun _ _ h => h) ?_) fun _ => Meets.update ?_
              · rintro _ _ (rfl | ⟨hlate, rfl⟩)
                · exact ⟨_, .before, rfl⟩
                · exact ⟨_, .late husers hlate, rfl⟩
              · rintro _ rfl
                exact ⟨trivial, _, .last husers, rfl⟩

theorem mountBind_completes (uid : Nat) (binding : DesktopBind) (c : Controller R)
    (h : c.mounts.Accepts binding) :
    Completes (· = c) (mountBind uid binding)
      (fun _ c' => c.mounts.Accepts binding ∧ c' = c.withMounts (c.mounts.hold uid binding)) := by
  refine Completes.of_meets (Completes.looked ?_) (mountBind_meets uid binding c)
  cases husers : c.mounts.destinationUsers binding.destination with
  | some users =>
      dsimp only
      rw [if_neg (not_not.mpr (h users husers))]
      exact Completes.update fun _ _ => trivial
  | none =>
      refine Completes.bind (Q := fun _ _ => True) (Completes.performClean ?_) fun _ => ?_
      · exact fun c' _ => ⟨c', rfl, trivial⟩
      refine Completes.bind (Q := fun _ _ => True) (Completes.performClean ?_) fun _ => ?_
      · exact fun c' _ => ⟨c', rfl, trivial⟩
      refine Completes.bind (Q := fun _ _ => True) (Completes.performClean ?_) fun _ => ?_
      · exact fun c' _ => ⟨_, rfl, trivial⟩
      exact Completes.update fun _ _ => trivial

theorem umountInMachine_completes (destination : Place) (c : Controller R)
    (h : c.mounts.report ≠ .late) :
    Completes (· = c) (umountInMachine destination) (fun _ _ => True) := by
  refine Completes.bind (Q := fun _ c' => c' = c) (Completes.performClean ?_) fun _ =>
    Completes.looked ?_
  · rintro _ rfl
    exact ⟨_, rfl, rfl⟩
  · rw [if_neg h]
    exact Completes.bind (Q := fun _ _ => True) (Completes.update fun _ _ => trivial)
      fun _ => Completes.pure fun _ _ => trivial

theorem unmountBind_completes (uid : Nat) (binding : DesktopBind) (c : Controller R)
    (h : c.mounts.report ≠ .late) :
    Completes (· = c) (unmountBind uid binding)
      (fun _ c' => ∃ m, c.mounts.Released uid binding.destination m ∧ c' = c.withMounts m) := by
  refine Completes.of_meets (Completes.looked ?_) (unmountBind_meets uid binding c)
  cases husers : c.mounts.destinationUsers binding.destination with
  | none => exact Completes.pure fun _ _ => trivial
  | some users =>
      dsimp only
      split
      · exact Completes.pure fun _ _ => trivial
      · split
        · exact Completes.update fun _ _ => trivial
        · exact Completes.bind (umountInMachine_completes binding.destination c h) fun _ =>
            Completes.update fun _ _ => trivial

end Code

/-! ## What stays as it is -/

namespace Mounts

/-- The mounts are the same but at one destination. -/
structure SameBut (destination : Place) (m m' : Mounts) : Prop where
  users : ∀ d, d ≠ destination → m'.destinationUsers d = m.destinationUsers d
  sources : ∀ d, d ≠ destination → m'.destinationSources d = m.destinationSources d
  table : ∀ e : Mounted, e.destination ≠ destination → (e ∈ m'.table ↔ e ∈ m.table)

/-- What is remembered is what the machine has, unless an unmount was not told of. -/
structure Recorded (layout : Set Place) (m : Mounts) : Prop where
  table : m.strayed = false → ∀ e : Mounted, e ∈ m.table ↔
    (m.destinationUsers e.destination).isSome ∧
      m.destinationSources e.destination = some e.identity
  known : ∀ d, (m.destinationUsers d).isSome → (m.destinationSources d).isSome
  used : ∀ d users, m.destinationUsers d = some users → users.Nonempty
  distinct : m.strayed = false → (m.table.map Mounted.destination).Nodup
  laidOut : ∀ d, (m.destinationUsers d).isSome → d ∈ layout
  placed : ∀ e ∈ m.table, e.destination ∈ layout

/-- No place is below another. -/
def Flat (layout : Set Place) : Prop :=
  ∀ d ∈ layout, ∀ d' ∈ layout, d <+: d' → d' = d

variable {m m' : Mounts} {uid : Nat} {binding : DesktopBind} {destination : Place}
  {layout : Set Place}

theorem ended_strayed (h : (m.ended destination).strayed = false) :
    m.strayed = false ∧ m.ended destination =
      { m.umount destination with reports := m.reports.tail } := by
  cases hreport : m.report with
  | told =>
      rw [ended, hreport] at h ⊢
      exact ⟨h, rfl⟩
  | unseen =>
      rw [ended, hreport] at h
      cases h
  | late =>
      rw [ended, hreport] at h
      cases h

theorem Frank.report (h : m.Frank) : m.report = .told := by
  unfold Mounts.report
  cases hreports : m.reports with
  | nil => rfl
  | cons report later => exact h.2 report (hreports ▸ List.mem_cons_self)

theorem Failed.of_frank (h : m.Failed uid destination m') (hfrank : m.Frank) : m' = m := by
  cases h with
  | before => rfl
  | late _ hlate =>
      rw [hfrank.report] at hlate
      cases hlate

theorem Frank.ended (h : m.Frank) (destination : Place) : (m.ended destination).Frank := by
  rw [Mounts.ended, h.report]
  exact ⟨h.1, fun report hreport => h.2 report (List.mem_of_mem_tail hreport)⟩

theorem mem_umount_of_mem {e : Mounted} (h : e ∈ (m.umount destination).table) : e ∈ m.table := by
  unfold umount at h
  cases hrest : MountTable.detach Mounted.destination destination m.table with
  | none =>
      rw [hrest] at h
      exact h
  | some rest =>
      rw [hrest] at h
      exact (MountTable.detach_sublist hrest).subset h

/-- What is left when an unmount is over was there, and so was what is elsewhere. -/
theorem Recorded.mem_ended_of_ne (h : m.Recorded layout) (hflat : Flat layout)
    (hlaid : destination ∈ layout) {e : Mounted} (he : e.destination ≠ destination) :
    e ∈ (m.ended destination).table ↔ e ∈ m.table := by
  have humount : e ∈ (m.umount destination).table ↔ e ∈ m.table := by
    unfold umount
    cases hrest : MountTable.detach Mounted.destination destination m.table with
    | none => exact Iff.rfl
    | some rest =>
        refine MountTable.mem_detach_of_ne (fun b hb hbelow => ?_) hrest he
        exact hflat destination hlaid b.destination (h.placed b hb) hbelow
  unfold ended
  split
  · exact humount
  · exact Iff.rfl
  · exact humount

theorem mem_of_mem_ended {e : Mounted} (h : e ∈ (m.ended destination).table) : e ∈ m.table := by
  unfold ended at h
  split at h
  · exact mem_umount_of_mem h
  · exact h
  · exact mem_umount_of_mem h

/-- An unmount that is told of takes off what is at the destination. -/
theorem Recorded.not_mem_ended (h : m.Recorded layout) (hflat : Flat layout)
    (hlaid : destination ∈ layout) (hstrayed : (m.ended destination).strayed = false)
    {identity : FileId} : ⟨destination, identity⟩ ∉ (m.ended destination).table := by
  obtain ⟨hbefore, hended⟩ := ended_strayed hstrayed
  have hbelow : ∀ b ∈ m.table, destination <+: b.destination → b.destination = destination :=
    fun b hb => hflat destination hlaid b.destination (h.placed b hb)
  have habove : ∀ b ∈ m.table, b.destination <+: destination → b.destination = destination :=
    fun b hb hprefix => (hflat b.destination (h.placed b hb) destination hlaid hprefix).symm
  rw [hended]
  show ⟨destination, identity⟩ ∉ (MountTable.detach _ _ m.table).getD m.table
  intro hmem
  cases hrest : MountTable.detach Mounted.destination destination m.table with
  | none =>
      rw [hrest, Option.getD_none] at hmem
      obtain ⟨rest, hsome⟩ := MountTable.exists_detach Mounted.destination hmem habove
      cases hrest.symm.trans hsome
  | some rest =>
      rw [hrest] at hmem
      exact ((MountTable.mem_detach (h.distinct hbefore) hbelow hrest).mp hmem).2 rfl

theorem Recorded.distinct_ended (h : m.Recorded layout)
    (hstrayed : (m.ended destination).strayed = false) :
    ((m.ended destination).table.map Mounted.destination).Nodup := by
  obtain ⟨hbefore, hended⟩ := ended_strayed hstrayed
  rw [hended]
  show (((MountTable.detach _ _ m.table).getD m.table).map _).Nodup
  cases hrest : MountTable.detach Mounted.destination destination m.table with
  | none => exact h.distinct hbefore
  | some rest => exact (h.distinct hbefore).sublist ((MountTable.detach_sublist hrest).map _)

theorem hold_sameBut (m : Mounts) (uid : Nat) (binding : DesktopBind) :
    SameBut binding.destination m (m.hold uid binding) := by
  unfold hold
  split
  · exact ⟨fun d hd => setUsers_of_ne m hd _, fun _ _ => rfl, fun _ _ => Iff.rfl⟩
  · refine ⟨fun d hd => setUsers_of_ne m hd _, fun d hd => setSource_of_ne m hd _,
      fun e he => ?_⟩
    simp only [setSource_table, setUsers_table, bind_table, List.mem_cons]
    refine or_iff_right ?_
    rintro rfl
    exact he rfl

theorem Released.sameBut (hrecorded : m.Recorded layout) (hflat : Flat layout)
    (h : m.Released uid destination m') : SameBut destination m m' := by
  cases h with
  | absent => exact ⟨fun _ _ => rfl, fun _ _ => rfl, fun _ _ => Iff.rfl⟩
  | shared users =>
      exact ⟨fun d hd => setUsers_of_ne m hd _, fun _ _ => rfl, fun _ _ => Iff.rfl⟩
  | last husers =>
      have hlaid := hrecorded.laidOut destination (by rw [husers]; rfl)
      refine ⟨fun d hd => ?_, fun d hd => ?_, fun e he => ?_⟩
      · rw [setSource_users, setUsers_of_ne _ hd, ended_users]
      · rw [setSource_of_ne _ hd, setUsers_sources, ended_sources]
      · exact hrecorded.mem_ended_of_ne hflat hlaid he

theorem Released.frank (h : m.Released uid destination m') (hfrank : m.Frank) : m'.Frank := by
  cases h with
  | absent => exact hfrank
  | shared => exact hfrank
  | last => exact hfrank.ended destination

theorem hold_frank (hfrank : m.Frank) (uid : Nat) (binding : DesktopBind) :
    (m.hold uid binding).Frank := by
  unfold hold
  split <;> exact hfrank

/-! ## Who has what afterwards -/

theorem SameBut.holds (h : SameBut destination m m') {d : Place} (hd : d ≠ destination) :
    m'.Holds uid d ↔ m.Holds uid d := by
  rw [Holds, Holds, h.users d hd]

theorem holds_hold (m : Mounts) (uid : Nat) (binding : DesktopBind) :
    (m.hold uid binding).Holds uid binding.destination := by
  unfold hold
  split
  · exact ⟨_, setUsers_self _ _ _, Finset.mem_insert_self _ _⟩
  · exact ⟨_, setUsers_self _ _ _, Finset.mem_singleton_self _⟩

theorem hold_source (haccepts : m.Accepts binding) :
    (m.hold uid binding).destinationSources binding.destination = some binding.identity := by
  unfold hold
  split
  · next users husers => exact haccepts users husers
  · exact setSource_self _ _ _

theorem Released.not_holds (h : m.Released uid destination m') : ¬ m'.Holds uid destination := by
  cases h with
  | absent hnone => exact hnone
  | shared users husers huid =>
      rintro ⟨users', hsome, hmem⟩
      rw [setUsers_self] at hsome
      cases hsome
      exact (Finset.mem_erase.mp hmem).1 rfl
  | last husers =>
      rintro ⟨users', hsome, -⟩
      rw [setSource_users, setUsers_self] at hsome
      cases hsome

/-- What is remembered has to be looked at where it changed. -/
theorem Recorded.change (h : m.Recorded layout) (hsame : SameBut destination m m')
    (hstrayed : m'.strayed = false → m.strayed = false)
    (htable : m'.strayed = false → ∀ identity, ⟨destination, identity⟩ ∈ m'.table ↔
      (m'.destinationUsers destination).isSome ∧
        m'.destinationSources destination = some identity)
    (hknown : (m'.destinationUsers destination).isSome →
      (m'.destinationSources destination).isSome ∧ destination ∈ layout)
    (hused : ∀ users, m'.destinationUsers destination = some users → users.Nonempty)
    (hdistinct : m'.strayed = false → (m'.table.map Mounted.destination).Nodup)
    (hplaced : ∀ e ∈ m'.table, e.destination ∈ layout) : m'.Recorded layout where
  table hfrank e := by
    by_cases he : e.destination = destination
    · obtain ⟨_, identity⟩ := e
      cases he
      exact htable hfrank identity
    · rw [hsame.table e he, hsame.users _ he, hsame.sources _ he, h.table (hstrayed hfrank) e]
  known d hd := by
    by_cases hsame' : d = destination
    · subst hsame'
      exact (hknown hd).1
    · rw [hsame.users d hsame'] at hd
      rw [hsame.sources d hsame']
      exact h.known d hd
  used d users hd := by
    by_cases hsame' : d = destination
    · subst hsame'
      exact hused users hd
    · rw [hsame.users d hsame'] at hd
      exact h.used d users hd
  distinct := hdistinct
  laidOut d hd := by
    by_cases hsame' : d = destination
    · subst hsame'
      exact (hknown hd).2
    · rw [hsame.users d hsame'] at hd
      exact h.laidOut d hd
  placed := hplaced

/-- A destination that nobody uses has nothing mounted. -/
theorem Recorded.unused (h : m.Recorded layout) (hfrank : m.strayed = false)
    (hnone : m.destinationUsers destination = none) {e : Mounted} (he : e ∈ m.table) :
    e.destination ≠ destination := by
  rintro rfl
  have hsome := ((h.table hfrank e).mp he).1
  rw [hnone] at hsome
  cases hsome

theorem Recorded.setUsers (h : m.Recorded layout) {users users' : Finset Nat}
    (husers : m.destinationUsers destination = some users) (hnonempty : users'.Nonempty) :
    (m.setUsers destination (some users')).Recorded layout := by
  have hsome : (m.destinationUsers destination).isSome := by rw [husers]; rfl
  have hsame : SameBut destination m (m.setUsers destination (some users')) :=
    ⟨fun d hd => setUsers_of_ne m hd _, fun _ _ => rfl, fun _ _ => Iff.rfl⟩
  refine h.change hsame id
    (fun hfrank identity => ?_) (fun _ => ⟨h.known destination hsome, h.laidOut destination hsome⟩)
    (fun others hothers => ?_) h.distinct h.placed
  · rw [setUsers_table, setUsers_self, setUsers_sources, h.table hfrank]
    exact and_congr_left fun _ => ⟨fun _ => rfl, fun _ => hsome⟩
  · rw [setUsers_self] at hothers
    rwa [← Option.some.inj hothers]

theorem recorded_hold (h : m.Recorded layout) (hlaid : binding.destination ∈ layout) :
    (m.hold uid binding).Recorded layout := by
  have hsame := hold_sameBut m uid binding
  unfold hold at hsame ⊢
  split at hsame
  · next users husers => exact h.setUsers husers (Finset.insert_nonempty _ _)
  · next hnone =>
      refine h.change hsame id (fun hfrank identity => ?_) (fun _ => ⟨?_, hlaid⟩)
        (fun users husers => ?_) (fun hfrank => ?_) fun e he => ?_
      · simp only [setSource_table, setUsers_table, bind_table, setSource_users, setUsers_self,
          setSource_self, List.mem_cons, Mounted.mk.injEq, true_and, Option.isSome_some,
          Option.some.injEq]
        rw [or_iff_left fun hmem => h.unused hfrank hnone hmem rfl]
        exact eq_comm
      · rw [setSource_self]
        rfl
      · rw [setSource_users, setUsers_self] at husers
        rw [← Option.some.inj husers]
        exact Finset.singleton_nonempty uid
      · refine List.nodup_cons.mpr ⟨fun hmem => ?_, h.distinct hfrank⟩
        obtain ⟨e, he, hdestination⟩ := List.mem_map.mp hmem
        exact h.unused hfrank hnone he hdestination
      · rcases List.mem_cons.mp he with rfl | he
        · exact hlaid
        · exact h.placed e he

theorem Released.recorded (hrecorded : m.Recorded layout) (hflat : Flat layout)
    (h : m.Released uid destination m') : m'.Recorded layout := by
  have hsame := h.sameBut hrecorded hflat
  cases h with
  | absent => exact hrecorded
  | shared users husers huid hcard =>
      refine hrecorded.setUsers husers (Finset.card_pos.mp ?_)
      rw [Finset.card_erase_of_mem huid]
      omega
  | last husers =>
      have hlaid := hrecorded.laidOut destination (by rw [husers]; rfl)
      refine hrecorded.change hsame (fun hfrank => (ended_strayed hfrank).1)
        (fun hfrank identity => ?_) (fun hsome => ?_) (fun users hsome => ?_)
        (fun hfrank => hrecorded.distinct_ended hfrank)
        fun e he => hrecorded.placed e (mem_of_mem_ended he)
      · rw [setSource_users, setUsers_self]
        refine iff_of_false ?_ fun hsome => absurd hsome.1 (by decide)
        exact hrecorded.not_mem_ended hflat hlaid hfrank
      · rw [setSource_users, setUsers_self] at hsome
        cases hsome
      · rw [setSource_users, setUsers_self] at hsome
        cases hsome

/-- What `_unmount` leaves when it raises is remembered as before. -/
theorem Failed.recorded (hrecorded : m.Recorded layout) (h : m.Failed uid destination m') :
    m'.Recorded layout := by
  cases h with
  | before => exact hrecorded
  | late _ hlate =>
      have hstrayed : (m.ended destination).strayed ≠ false := by
        rw [ended, hlate]
        exact Bool.noConfusion
      refine ⟨fun hfrank => absurd hfrank hstrayed, ?_, ?_, fun hfrank => absurd hfrank hstrayed,
        ?_, fun e he => hrecorded.placed e (mem_of_mem_ended he)⟩
      · rw [ended_users, ended_sources]
        exact hrecorded.known
      · rw [ended_users]
        exact hrecorded.used
      · rw [ended_users]
        exact hrecorded.laidOut

theorem Failed.users (h : m.Failed uid destination m') :
    m'.destinationUsers = m.destinationUsers := by
  cases h with
  | before => rfl
  | late => exact ended_users m destination

theorem Failed.sources (h : m.Failed uid destination m') :
    m'.destinationSources = m.destinationSources := by
  cases h with
  | before => rfl
  | late => exact ended_sources m destination

/-! ## Other users

A destination can be mounted anew for a user unless another user has it from another
source. -/

def Free (m : Mounts) (uid : Nat) (binding : DesktopBind) : Prop :=
  ∀ users, m.destinationUsers binding.destination = some users →
    users ⊆ {uid} ∨ m.destinationSources binding.destination = some binding.identity

theorem Free.congr (h : m.Free uid binding)
    (hsame : SameBut destination m m') (hne : binding.destination ≠ destination) :
    m'.Free uid binding := by
  intro users husers
  rw [hsame.users _ hne] at husers
  rw [hsame.sources _ hne]
  exact h users husers

theorem Free.released (h : m.Free uid binding) (hrecorded : m.Recorded layout)
    (hflat : Flat layout) (hm : m.Released uid destination m') : m'.Free uid binding := by
  by_cases hne : binding.destination = destination
  · subst hne
    cases hm with
    | absent => exact h
    | shared users husers =>
        intro others hothers
        rw [setUsers_self] at hothers
        cases hothers
        exact (h users husers).imp (fun hsub => (Finset.erase_subset _ _).trans hsub) id
    | last =>
        intro others hothers
        rw [setSource_users, setUsers_self] at hothers
        cases hothers
  · exact h.congr (hm.sameBut hrecorded hflat) hne

theorem Free.hold (h : m.Free uid binding) (other : DesktopBind) :
    (m.hold uid other).Free uid binding := by
  by_cases hne : binding.destination = other.destination
  · intro users husers
    unfold Mounts.hold at husers ⊢
    rw [hne] at husers ⊢
    split at husers
    · next before hbefore =>
        rw [setUsers_self] at husers
        cases husers
        exact (h before (hne ▸ hbefore)).imp
          (fun hsub => Finset.insert_subset (Finset.mem_singleton_self uid) hsub)
          fun hsource => hne ▸ hsource
    · rw [setSource_users, setUsers_self] at husers
      cases husers
      exact .inl (Finset.Subset.refl _)
  · exact h.congr (hold_sameBut m uid other) hne

/-- What the user does not have is refused only for another user. -/
theorem Free.accepts (h : m.Free uid binding) (hrecorded : m.Recorded layout)
    (hnot : ¬ m.Holds uid binding.destination) : m.Accepts binding := by
  intro users husers
  refine (h users husers).resolve_left fun hsub => hnot ⟨users, husers, ?_⟩
  obtain ⟨other, hother⟩ := hrecorded.used _ users husers
  exact Finset.mem_singleton.mp (hsub hother) ▸ hother

end Mounts

end Spaces.Desktop
