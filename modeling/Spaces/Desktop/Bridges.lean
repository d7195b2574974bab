import Spaces.Desktop.Planning
import Spaces.Desktop.Refresh
import Spaces.Library.Within

/-!
# The bridges of a desktop

Beside what its plan says, a desktop has up to three sockets of the controller's own:
the portal's, the one for accessibility, and the one for computer use, which comes with
a lease. Each is served by something on the host, is mounted in the machine, and is set
up again when it is found broken.

A bridge is recorded as soon as it is mounted, and is forgotten only when it has been
unmounted. So whatever fails on the way, the record of a desktop names everything that
is mounted for its user.

What the checks of a bridge find, and which sockets the proxies make, is up to the
outside. Closing a proxy that stands, removing its socket and giving back a lease may
each fail. Only a proxy that was just made, and that could not be mounted, is taken to
close.
-/

namespace Spaces.Desktop

open Spaces.Library Routine Spaces.Shortcuts

/-! ## The code -/

inductive Status where
  | inactive
  | pending
  | active
  deriving DecidableEq

/-- What is written for the guest's side of a user's desktop. -/
structure Record where
  state : Status
  sessionId : Option Text := none
  deriving DecidableEq

/-- The plan besides its binds. -/
structure Terms (R : Type) where
  sessionId : Text
  desktop : Bool
  accessibility : Bool
  other : R
  deriving DecidableEq

/-- `_ActiveDesktop`. Of a proxy and of the lease it says whether there is one. -/
structure Login (R : Type) where
  plan : DesktopPlan (Terms R)
  portal : Bool := false
  portalBinding : Option DesktopBind := none
  graphicalSession : Bool := false
  accessibility : Bool := false
  accessibilityBinding : Option DesktopBind := none
  accessibilityEnvironmentDirty : Bool := false
  accessibilityActivation : Bool := false
  computer : Bool := false
  computerBinding : Option DesktopBind := none

/-- What the users share. `sockets` are those that proxies will make, in turn. -/
structure World where
  mounts : Mounts
  guestSessions : Finset Nat
  records : Nat → Record
  sockets : List FileId

/-- What is in work: one user's desktop, and what its activation has mounted, the
latest first. -/
structure Work (R : Type) extends World where
  current : Login R
  mounted : List DesktopBind := []

inductive ControllerError where
  | desktop (error : DesktopError)
  /-- `DesktopRevocationError`. -/
  | revocation
  /-- The lease could not be given back, which may be a `DesktopSetupError`. -/
  | release (setup : Bool)
  deriving DecidableEq

/-- `isinstance(error, DesktopSetupError)`. -/
def ControllerError.isSetup : ControllerError → Bool
  | .desktop .setup | .desktop .resourceChanged | .release true => true
  | _ => false

/-- The directories of the sockets. -/
def COMPONENTS : List String := ["portal", "a11y", "computer"]

/-- `DESKTOP_ROOT / str(uid) / component / "bus"` -/
def socketPlace (uid : Nat) (component : String) : Place :=
  desktopRoot uid ++ [fsText component.toList, fsText "bus".toList]

/-- The sockets are places of the layout. -/
def HasSockets (layout : Set Place) (uid : Nat) : Prop :=
  ∀ component ∈ COMPONENTS, socketPlace uid component ∈ layout

/-- Where the socket is on the host. -/
def hostSocket (uid : Nat) (component : String) : Place :=
  [fsText "run".toList, fsText "spaces".toList, fsText (Nat.toDigits 10 uid),
    fsText component.toList, fsText "bus".toList]

section Code

variable {R : Type}

def World.write (s : World) (uid : Nat) (record : Record) : World :=
  { s with records := Function.update s.records uid record }

/-- What a routine about mounts sees. -/
def Work.controller (w : Work R) : Controller (Terms R) where
  mounts := w.mounts
  current := {
    plan := w.current.plan
    portal := w.current.portal
    portalBinding := w.current.portalBinding
    bridges := w.current.accessibilityBinding.toList ++ w.current.computerBinding.toList }

/-- What a routine about mounts changes. -/
def Work.withController (w : Work R) (c : Controller (Terms R)) : Work R :=
  { w with
    mounts := c.mounts
    current := { w.current with
      plan := c.current.plan
      portal := c.current.portal
      portalBinding := c.current.portalBinding } }

def onMounts {α : Type} (m : Routine (Controller (Terms R)) DesktopError α) :
    Routine (Work R) ControllerError α :=
  within Work.controller Work.withController .desktop m

/-- A change of the record alone. -/
def setCurrent (f : Login R → Login R) : Routine (Work R) ControllerError Unit :=
  update fun w => { w with current := f w.current }

/-- A command in the machine, or an inquiry on the host. -/
def command {σ : Type} : Routine σ ControllerError Unit :=
  performClean (.desktop .calledProcess) some

def writeRecord (uid : Nat) (record : Record) : Routine (Work R) ControllerError Unit :=
  perform (.desktop .osError) fun w => some { w with toWorld := w.toWorld.write uid record }

/-- A proxy, or the listener of a lease: its socket, where it is to be mounted. -/
def startProxy (uid : Nat) (component : String) : Routine (Work R) ControllerError DesktopBind := do
  command
  let w ← look
  match w.sockets with
  | [] => throw (.desktop .setup)
  | identity :: sockets => do
      update fun w => { w with sockets := sockets }
      pure {
        destination := socketPlace uid component
        source := hostSocket uid component
        device := identity.1
        inode := identity.2 }

/-- A proxy that stands is closed, and its socket removed. -/
def closeProxy {σ : Type} : Routine σ ControllerError Unit := do
  performClean (.desktop .osError) some
  performClean (.desktop .osError) some

/-! ### Accessibility -/

/-- `_publish_accessibility`. -/
def publishAccessibility (user : PlannedUser) : Routine (Work R) ControllerError Unit := do
  setCurrent fun login => { login with accessibilityEnvironmentDirty := true }
  command
  let w ← look
  writeRecord user.uid ⟨.active, some w.current.plan.rest.sessionId⟩
  setCurrent fun login => { login with accessibilityEnvironmentDirty := false }

/-- The end of `_revoke_accessibility`. -/
def unmountAccessibility (user : PlannedUser) : Routine (Work R) ControllerError Unit := do
  let w ← look
  match w.current.accessibilityBinding with
  | none => pure ()
  | some binding => do
      tryCatch (onMounts (unmountBind user.uid binding)) fun _ => throw .revocation
      setCurrent fun login => { login with accessibilityBinding := none }

/-- `_revoke_accessibility`. -/
def revokeAccessibility (user : PlannedUser) : Routine (Work R) ControllerError Unit := do
  let w ← look
  if !w.current.accessibility && w.current.accessibilityBinding.isNone &&
      !w.current.accessibilityEnvironmentDirty then pure ()
  else do
    whenever w.current.accessibility closeProxy
    setCurrent fun login => { login with accessibility := false }
    tryCatch (publishAccessibility user) fun _ =>
      writeRecord user.uid ⟨.active, some w.current.plan.rest.sessionId⟩
    unmountAccessibility user

/-- The part of `_repair_accessibility` that makes the bridge. -/
def startAccessibility (user : PlannedUser) : Routine (Work R) ControllerError Unit := do
  revokeAccessibility user
  let binding ← startProxy user.uid "a11y"
  onMounts (mountBind user.uid binding)
  setCurrent fun login =>
    { login with accessibility := true, accessibilityBinding := some binding }
  publishAccessibility user

/-- Whether the bridge there is serves the bus that was found. -/
def checkAccessibility : Routine (Work R) ControllerError Bool := do
  let w ← look
  if w.current.accessibility && w.current.accessibilityBinding.isSome then do
    performClean (.desktop .osError) some
    probe
  else pure false

/-- `_repair_accessibility`. -/
def repairAccessibility (user : PlannedUser) : Routine (Work R) ControllerError Unit := do
  let w ← look
  if !(w.current.plan.rest.desktop && user.desktop && user.uid != 0) then
    ignoring (revokeAccessibility user)
  else
    tryCatch (do
        command
        let healthy ← checkAccessibility
        if healthy then pure () else startAccessibility user)
      fun _ => ignoring (revokeAccessibility user)

/-! ### Computer use -/

/-- `ComputerLease.close`. -/
def closeLease : Routine (Work R) ControllerError Unit := do
  performClean .revocation some
  performClean (.release true) some
  performClean (.release false) some
  setCurrent fun login => { login with computer := false }

def releaseLease : Routine (Work R) ControllerError Unit := do
  let w ← look
  if w.current.computer then closeLease else pure ()

/-- The end of `_revoke_computer`. -/
def unmountComputer (user : PlannedUser) : Routine (Work R) ControllerError Unit := do
  let w ← look
  match w.current.computerBinding with
  | none => pure ()
  | some binding => do
      tryCatch (onMounts (unmountBind user.uid binding)) fun _ => throw .revocation
      setCurrent fun login => { login with computerBinding := none }

/-- `_revoke_computer`. -/
def revokeComputer (user : PlannedUser) : Routine (Work R) ControllerError Unit := do
  releaseLease
  unmountComputer user

/-- Computer use is granted to the user, and the plan is of a desktop that has it. -/
def computerAllowed (user : PlannedUser) (plan : DesktopPlan (Terms R)) : Bool :=
  user.desktop && plan.rest.desktop && plan.rest.accessibility && user.accessibility &&
    user.uid != 0

def startComputer (user : PlannedUser) : Routine (Work R) ControllerError Unit := do
  let binding ← startProxy user.uid "computer"
  onMounts (mountBind user.uid binding)
  setCurrent fun login => { login with computer := true, computerBinding := some binding }

/-- `_repair_computer`. -/
def repairComputer (user : PlannedUser) : Routine (Work R) ControllerError Unit := do
  let w ← look
  if !computerAllowed user w.current.plan then revokeComputer user
  else do
    let healthy ← probe
    if w.current.computer && w.current.computerBinding.isSome && healthy then pure ()
    else do
      revokeComputer user
      ignoring (startComputer user)

/-! ### The portal -/

/-- `_start_graphical_session`. -/
def startGraphicalSession : Routine (Work R) ControllerError Unit := do
  command
  command
  ignoring command
  command
  ignoring command
  command

/-- The session is tried, and tried again at the next repair if it does not start. -/
def tryGraphicalSession : Routine (Work R) ControllerError Unit := do
  setCurrent fun login => { login with accessibilityActivation := true }
  ignoring do
    startGraphicalSession
    setCurrent fun login => { login with graphicalSession := true }

/-- The broken bridge is unmounted. The answer is whether it is. -/
def unmountPortal (user : PlannedUser) : Routine (Work R) ControllerError Bool := do
  let w ← look
  match w.current.portalBinding with
  | none => pure true
  | some binding =>
      tryCatch (do
          onMounts (unmountBind user.uid binding)
          setCurrent fun login => { login with portalBinding := none }
          pure true)
        fun _ => pure false

def mountPortal (user : PlannedUser) : Routine (Work R) ControllerError (Option DesktopBind) :=
  tryCatch (do
      let binding ← startProxy user.uid "portal"
      onMounts (mountBind user.uid binding)
      pure (some binding))
    fun _ => pure none

/-- The new bridge is mounted, and recorded when the session has been tried. -/
def startPortal (user : PlannedUser) : Routine (Work R) ControllerError Unit := do
  let w ← look
  whenever w.current.portal closeProxy
  setCurrent fun login => { login with portal := false, portalBinding := none }
  let made ← mountPortal user
  match made with
  | none => pure ()
  | some binding => do
      setCurrent fun login => { login with graphicalSession := false }
      tryGraphicalSession
      setCurrent fun login => { login with portal := true, portalBinding := some binding }

/-- `_repair_portal`. -/
def repairPortal (portalsEnabled : Bool) (user : PlannedUser) :
    Routine (Work R) ControllerError Unit := do
  let w ← look
  if !portalsEnabled || !w.current.plan.rest.desktop then pure ()
  else do
    let healthy ← probe
    if w.current.portal && w.current.portalBinding.isSome && healthy then
      if w.current.graphicalSession then pure () else tryGraphicalSession
    else do
      let gone ← unmountPortal user
      if gone then startPortal user else pure ()

/-- The three repairs, in turn. -/
def repairBridges (portalsEnabled : Bool) (user : PlannedUser) :
    Routine (Work R) ControllerError Unit := do
  repairAccessibility user
  repairPortal portalsEnabled user
  repairComputer user

end Code

/-! ## What is mounted for whom -/

namespace Mounts

variable {m m' : Mounts} {uid other : Nat} {binding : DesktopBind} {destination : Place}

theorem holds_hold_other (hne : other ≠ uid) (d : Place) :
    (m.hold uid binding).Holds other d ↔ m.Holds other d := by
  by_cases hd : d = binding.destination
  · subst hd
    unfold hold
    split
    next users husers => simp [Holds, husers, hne]
    next hnone => simp [Holds, hnone, hne]
  · exact (hold_sameBut m uid binding).holds hd

theorem holds_hold_iff (d : Place) :
    (m.hold uid binding).Holds uid d ↔ d = binding.destination ∨ m.Holds uid d := by
  by_cases hd : d = binding.destination
  · subst hd
    exact iff_of_true (holds_hold m uid binding) (.inl rfl)
  · rw [(hold_sameBut m uid binding).holds hd, or_iff_right hd]

theorem Released.holds_other (h : m.Released uid destination m') {layout : Set Place}
    (hrecorded : m.Recorded layout) (hflat : Flat layout) (hne : other ≠ uid) (d : Place) :
    m'.Holds other d ↔ m.Holds other d := by
  by_cases hd : d = destination
  · subst hd
    cases h with
    | absent => exact Iff.rfl
    | shared users husers => simp [Holds, husers, hne]
    | last husers => simp [Holds, husers, hne]
  · exact (h.sameBut hrecorded hflat).holds hd

/-- What another user has is not mounted anew. -/
theorem hold_sources_of_holds {d : Place} (h : m.Holds other d) :
    (m.hold uid binding).destinationSources d = m.destinationSources d := by
  by_cases hd : d = binding.destination
  · subst hd
    obtain ⟨users, husers, -⟩ := h
    simp [hold, husers]
  · exact (hold_sameBut m uid binding).sources d hd

theorem Released.sources_of_holds (h : m.Released uid destination m') {layout : Set Place}
    (hrecorded : m.Recorded layout) (hflat : Flat layout) (hne : other ≠ uid) {d : Place}
    (hholds : m.Holds other d) : m'.destinationSources d = m.destinationSources d := by
  by_cases hd : d = destination
  · subst hd
    cases h with
    | absent => rfl
    | shared users => rfl
    | last husers =>
        obtain ⟨users, hsome, hother⟩ := hholds
        obtain rfl := Option.some.inj (husers.symm.trans hsome)
        exact (hne (Finset.mem_singleton.mp hother)).elim
  · exact (h.sameBut hrecorded hflat).sources d hd

theorem mem_hold {e : Mounted} (he : e ∈ m.table) : e ∈ (m.hold uid binding).table := by
  unfold hold
  split
  · exact he
  · exact List.mem_cons_of_mem _ he

/-- What another user has stays mounted. -/
theorem Released.mem_of_holds (h : m.Released uid destination m') {layout : Set Place}
    (hrecorded : m.Recorded layout) (hflat : Flat layout) (hne : other ≠ uid) {e : Mounted}
    (he : e ∈ m.table) (hholds : m.Holds other e.destination) : e ∈ m'.table := by
  by_cases hd : e.destination = destination
  · subst hd
    cases h with
    | absent => exact he
    | shared users => exact he
    | last husers =>
        obtain ⟨users, hsome, hother⟩ := hholds
        obtain rfl := Option.some.inj (husers.symm.trans hsome)
        exact (hne (Finset.mem_singleton.mp hother)).elim
  · exact ((h.sameBut hrecorded hflat).table e hd).mpr he

theorem Failed.mem_of_holds (h : m.Failed uid destination m') {layout : Set Place}
    (hrecorded : m.Recorded layout) (hflat : Flat layout) (hne : other ≠ uid) {e : Mounted}
    (he : e ∈ m.table) (hholds : m.Holds other e.destination) : e ∈ m'.table := by
  cases h with
  | before => exact he
  | late husers =>
      have hlaid := hrecorded.laidOut destination (by rw [husers]; rfl)
      refine (hrecorded.mem_ended_of_ne hflat hlaid ?_).mpr he
      rintro rfl
      obtain ⟨users, hsome, hother⟩ := hholds
      obtain rfl := Option.some.inj (husers.symm.trans hsome)
      exact hne (Finset.mem_singleton.mp hother)

end Mounts

/-- What is mounted for the user is among the binds, and the others have what they had,
from where they had it. -/
structure Kept (layout : Set Place) (uid : Nat) (before : Mounts) (binds : List DesktopBind)
    (m : Mounts) : Prop where
  recorded : m.Recorded layout
  covered : ∀ d, m.Holds uid d → ∃ b ∈ binds, b.destination = d
  others : ∀ other, other ≠ uid → ∀ d, m.Holds other d ↔ before.Holds other d
  sources : ∀ other, other ≠ uid → ∀ d, before.Holds other d →
    m.destinationSources d = before.destinationSources d
  mounted : ∀ other, other ≠ uid → ∀ e ∈ before.table, before.Holds other e.destination →
    e ∈ m.table

namespace Kept

variable {layout : Set Place} {uid : Nat} {before m m' : Mounts} {binds binds' : List DesktopBind}
  {binding : DesktopBind}

theorem mono (h : Kept layout uid before binds m) (hbinds : ∀ b ∈ binds, b ∈ binds') :
    Kept layout uid before binds' m where
  recorded := h.recorded
  covered d hd := by
    obtain ⟨b, hb, heq⟩ := h.covered d hd
    exact ⟨b, hbinds b hb, heq⟩
  others := h.others
  sources := h.sources
  mounted := h.mounted

theorem hold (h : Kept layout uid before binds m) (hlaid : binding.destination ∈ layout) :
    Kept layout uid before (binding :: binds) (m.hold uid binding) where
  recorded := Mounts.recorded_hold h.recorded hlaid
  covered d hd := by
    rcases (Mounts.holds_hold_iff d).mp hd with rfl | hd
    · exact ⟨binding, List.mem_cons_self, rfl⟩
    · obtain ⟨b, hb, heq⟩ := h.covered d hd
      exact ⟨b, List.mem_cons_of_mem _ hb, heq⟩
  others other hne d := (Mounts.holds_hold_other hne d).trans (h.others other hne d)
  sources other hne d hd := (Mounts.hold_sources_of_holds ((h.others other hne d).mpr hd)).trans
    (h.sources other hne d hd)
  mounted other hne e he hd := Mounts.mem_hold (h.mounted other hne e he hd)

/-- What was unmounted need not be named any more. -/
theorem released (h : Kept layout uid before binds m) (hflat : Mounts.Flat layout)
    (hm : m.Released uid binding.destination m')
    (hbinds : ∀ b ∈ binds, b.destination = binding.destination ∨ b ∈ binds') :
    Kept layout uid before binds' m' where
  recorded := hm.recorded h.recorded hflat
  covered d hd := by
    have hne : d ≠ binding.destination := by
      rintro rfl
      exact hm.not_holds hd
    obtain ⟨b, hb, rfl⟩ := h.covered d (((hm.sameBut h.recorded hflat).holds hne).mp hd)
    exact ⟨b, (hbinds b hb).resolve_left hne, rfl⟩
  others other hne d := (hm.holds_other h.recorded hflat hne d).trans (h.others other hne d)
  sources other hne d hd := (hm.sources_of_holds h.recorded hflat hne
    ((h.others other hne d).mpr hd)).trans (h.sources other hne d hd)
  mounted other hne e he hd := hm.mem_of_holds h.recorded hflat hne (h.mounted other hne e he hd)
    ((h.others other hne _).mpr hd)

/-- Where an unmount raises, everything is still named. -/
theorem failed (h : Kept layout uid before binds m) (hflat : Mounts.Flat layout)
    {destination : Place} (hm : m.Failed uid destination m') :
    Kept layout uid before binds m' where
  recorded := hm.recorded h.recorded
  covered d hd := by
    rw [Mounts.Holds, hm.users] at hd
    exact h.covered d hd
  others other hne d := by
    rw [Mounts.Holds, hm.users]
    exact h.others other hne d
  sources other hne d hd := by
    rw [hm.sources]
    exact h.sources other hne d hd
  mounted other hne e he hd := hm.mem_of_holds h.recorded hflat hne (h.mounted other hne e he hd)
    ((h.others other hne _).mpr hd)

theorem trans (h : Kept layout uid before binds m) (h' : Kept layout uid m binds' m') :
    Kept layout uid before binds' m' where
  recorded := h'.recorded
  covered := h'.covered
  others other hne d := (h'.others other hne d).trans (h.others other hne d)
  sources other hne d hd := (h'.sources other hne d ((h.others other hne d).mpr hd)).trans
    (h.sources other hne d hd)
  mounted other hne e he hd := h'.mounted other hne e (h.mounted other hne e he hd)
    ((h.others other hne _).mpr hd)

end Kept

variable {R : Type}

/-- What is mounted for the user, by the record of the desktop. -/
def Login.bindings (login : Login R) : List DesktopBind :=
  login.plan.binds ++ login.portalBinding.toList ++ login.accessibilityBinding.toList ++
    login.computerBinding.toList

def Login.Leased (login : Login R) : Prop :=
  login.computer = true ∨ login.computerBinding.isSome = true

def Work.withMounts (w : Work R) (m : Mounts) : Work R := { w with mounts := m }

def Work.withCurrent (w : Work R) (login : Login R) : Work R := { w with current := login }

/-- A desktop in work: everything that is mounted is named by its record, or is one of
the `extra` binds on their way there. `before` is the world it started from, and a lease
is there only if `leased` holds. -/
structure Tended (layout : Set Place) (user : PlannedUser) (before : World)
    (plan : DesktopPlan (Terms R)) (leased : Prop) (extra : List DesktopBind) (w : Work R) :
    Prop where
  kept : Kept layout user.uid before.mounts (extra ++ w.current.bindings) w.mounts
  planned : w.current.plan = plan
  guests : ∀ other, other ≠ user.uid →
    (other ∈ w.guestSessions ↔ other ∈ before.guestSessions)
  record : w.records = before.records ∨
    w.records = Function.update before.records user.uid ⟨.active, some plan.rest.sessionId⟩
  lease : w.current.Leased → leased

section Specs

variable {layout : Set Place} {user : PlannedUser} {before : World}
  {plan : DesktopPlan (Terms R)} {leased leased' : Prop} {extra : List DesktopBind} {w : Work R}

namespace Tended

theorem of_lease (h : Tended layout user before plan leased extra w)
    (hleased : w.current.Leased → leased') : Tended layout user before plan leased' extra w :=
  { h with lease := hleased }

theorem allow (h : Tended layout user before plan leased extra w) (himp : leased → leased') :
    Tended layout user before plan leased' extra w :=
  h.of_lease fun hleased => himp (h.lease hleased)

/-- A record of the same binds and the same lease. -/
theorem withCurrent (h : Tended layout user before plan leased extra w) {login : Login R}
    (hplan : login.plan = w.current.plan) (hbindings : login.bindings = w.current.bindings)
    (hlease : login.Leased → leased) :
    Tended layout user before plan leased extra (w.withCurrent login) where
  kept := by
    show Kept layout user.uid before.mounts (extra ++ login.bindings) w.mounts
    rw [hbindings]
    exact h.kept
  planned := hplan.trans h.planned
  guests := h.guests
  record := h.record
  lease := hlease

theorem write (h : Tended layout user before plan leased extra w) :
    Tended layout user before plan leased extra
      { w with toWorld := w.toWorld.write user.uid ⟨.active, some plan.rest.sessionId⟩ } where
  kept := h.kept
  planned := h.planned
  guests := h.guests
  record := by
    refine .inr ?_
    rcases h.record with hsame | hactive
    · exact congrArg (Function.update · _ _) hsame
    · show Function.update w.records _ _ = _
      rw [hactive, Function.update_idem]
  lease := h.lease

/-- What an unmount that raised leaves is still recorded. -/
theorem failed (h : Tended layout user before plan leased extra w) (hflat : Mounts.Flat layout)
    {destination : Place} {w' : Work R}
    (hw' : ∃ m, w.mounts.Failed user.uid destination m ∧ w' = w.withMounts m) :
    Tended layout user before plan leased extra w' := by
  obtain ⟨m, hm, rfl⟩ := hw'
  exact ⟨h.kept.failed hflat hm, h.planned, h.guests, h.record, h.lease⟩

end Tended

theorem mountBind_exact (uid : Nat) (binding : DesktopBind) (w : Work R) :
    Meets (fun _ => True) (· = w) (onMounts (mountBind uid binding))
      (fun _ w' => w' = w.withMounts (w.mounts.hold uid binding)) (fun _ w' => w' = w) := by
  refine Meets.within ?_
  rintro w rfl
  refine (mountBind_meets uid binding w.controller).weaken (fun _ h => h) ?_ ?_
  · rintro _ _ ⟨-, rfl⟩
    rfl
  · rintro _ _ rfl
    rfl

theorem unmountBind_exact (uid : Nat) (binding : DesktopBind) (w : Work R) :
    Meets (fun _ => True) (· = w) (onMounts (unmountBind uid binding))
      (fun _ w' => ∃ m, w.mounts.Released uid binding.destination m ∧ w' = w.withMounts m)
      (fun _ w' => ∃ m, w.mounts.Failed uid binding.destination m ∧ w' = w.withMounts m) := by
  refine Meets.within ?_
  rintro w rfl
  refine (unmountBind_meets uid binding w.controller).weaken (fun _ h => h) ?_ ?_
  · rintro _ _ ⟨m, hm, rfl⟩
    exact ⟨m, hm, rfl⟩
  · rintro _ _ ⟨m, hm, rfl⟩
    exact ⟨m, hm, rfl⟩

/-! ## Each routine keeps the record -/

theorem command_meets {σ : Type} {P : σ → Prop} :
    Meets (fun _ => True) P (command : Routine σ ControllerError Unit) (fun _ => P) fun _ => P := by
  refine Meets.performClean ?_ fun _ h => h
  intro s s' hs hsome
  obtain rfl := Option.some.inj hsome
  exact ⟨trivial, hs⟩

theorem closeProxy_meets {σ : Type} {P : σ → Prop} :
    Meets (fun _ => True) P (closeProxy : Routine σ ControllerError Unit) (fun _ => P)
      fun e s => P s ∧ e ≠ .desktop .setup := by
  have hclose : Meets (fun _ => True) P (performClean (ControllerError.desktop .osError) some)
      (fun _ => P) fun e s => P s ∧ e ≠ .desktop .setup := by
    refine Meets.performClean ?_ fun _ h => ⟨h, nofun⟩
    intro s s' hs hsome
    obtain rfl := Option.some.inj hsome
    exact ⟨trivial, hs⟩
  exact Meets.bind hclose fun _ => hclose

theorem writeRecord_meets :
    Meets (fun _ => True) (Tended layout user before plan leased extra)
      (writeRecord user.uid ⟨.active, some plan.rest.sessionId⟩)
      (fun _ => Tended layout user before plan leased extra)
      fun e w => Tended layout user before plan leased extra w ∧ e ≠ .desktop .setup := by
  refine Meets.perform ?_ fun _ h => ⟨h, nofun⟩
  intro w w' hw hsome
  obtain rfl := Option.some.inj hsome
  exact ⟨trivial, hw.write, hw.write, nofun⟩

theorem startProxy_exact (uid : Nat) (component : String) (w : Work R) :
    Meets (fun _ => True) (· = w) (startProxy uid component)
      (fun binding w' => (∃ sockets, w' = { w with sockets := sockets }) ∧
        binding.destination = socketPlace uid component)
      fun _ w' => w' = w := by
  refine Meets.bind command_meets fun _ => Meets.looked ?_
  split
  · exact Meets.throw fun _ h => h
  next identity sockets hsockets =>
    refine Meets.bind (Q := fun _ w' => w' = { w with sockets := sockets }) (Meets.update ?_)
      fun _ => Meets.pure fun _ h => ⟨⟨sockets, h⟩, rfl⟩
    rintro _ rfl
    exact ⟨trivial, rfl⟩

/-- A change of the record that names the same binds and the same lease. -/
theorem setCurrent_meets {f : Login R → Login R} (hplan : ∀ login, (f login).plan = login.plan)
    (hbindings : ∀ login, (f login).bindings = login.bindings)
    (hlease : ∀ login, (f login).Leased → login.Leased) :
    Meets (fun _ => True) (Tended layout user before plan leased extra)
      (setCurrent f)
      (fun _ => Tended layout user before plan leased extra)
      fun _ => Tended layout user before plan leased extra := by
  refine Meets.update ?_
  intro w hw
  exact ⟨trivial, hw.withCurrent (hplan _) (hbindings _) fun h => hw.lease (hlease _ h)⟩

/-! ### Accessibility -/

theorem publishAccessibility_meets :
    Meets (fun _ => True) (Tended layout user before plan leased extra)
      (publishAccessibility user)
      (fun _ => Tended layout user before plan leased extra)
      fun _ => Tended layout user before plan leased extra := by
  refine Meets.bind (setCurrent_meets (fun _ => rfl) (fun _ => rfl) fun _ h => h) fun _ => ?_
  refine Meets.bind command_meets fun _ => ?_
  refine Meets.each fun w hw => Meets.looked ?_
  rw [hw.planned]
  refine Meets.bind (writeRecord_meets.weaken ?_ (fun _ _ h => h) fun _ _ h => h.1) fun _ =>
    setCurrent_meets (fun _ => rfl) (fun _ => rfl) fun _ h => h
  rintro _ rfl
  exact hw

/-- After it the record names no bridge. -/
theorem unmountAccessibility_meets (hflat : Mounts.Flat layout) :
    Meets (fun _ => True) (Tended layout user before plan leased extra)
      (unmountAccessibility user)
      (fun _ w => Tended layout user before plan leased extra w ∧
        w.current.accessibilityBinding = none)
      fun e w => Tended layout user before plan leased extra w ∧ e ≠ .desktop .setup := by
  refine Meets.each fun w hw => Meets.looked ?_
  cases hbinding : w.current.accessibilityBinding with
  | none => exact Meets.pure fun _ h => h ▸ ⟨hw, hbinding⟩
  | some binding =>
      refine Meets.bind (Meets.tryCatch (unmountBind_exact user.uid binding w) fun _ =>
        Meets.throw fun _ h => ⟨hw.failed hflat h, nofun⟩) fun _ => Meets.update ?_
      rintro _ ⟨m, hm, rfl⟩
      refine ⟨trivial, ⟨?_, hw.planned, hw.guests, hw.record, hw.lease⟩, rfl⟩
      refine hw.kept.released hflat hm fun b hb => ?_
      simp only [Login.bindings, hbinding, Option.toList_some, Option.toList_none,
        List.mem_append, List.mem_singleton] at hb ⊢
      rcases hb with hb | ((hb | hb) | rfl) | hb
      · exact .inr (.inl hb)
      · exact .inr (.inr (.inl (.inl (.inl hb))))
      · exact .inr (.inr (.inl (.inl (.inr hb))))
      · exact .inl rfl
      · exact .inr (.inr (.inr hb))

theorem revokeAccessibility_meets (hflat : Mounts.Flat layout) :
    Meets (fun _ => True) (Tended layout user before plan leased extra)
      (revokeAccessibility user)
      (fun _ w => Tended layout user before plan leased extra w ∧
        w.current.accessibilityBinding = none)
      fun e w => Tended layout user before plan leased extra w ∧ e ≠ .desktop .setup := by
  refine Meets.each fun w hw => Meets.looked ?_
  split
  next hnone =>
    refine Meets.pure fun _ h => h ▸ ⟨hw, ?_⟩
    simp only [Bool.and_eq_true, Option.isNone_iff_eq_none] at hnone
    exact hnone.1.2
  · rw [hw.planned]
    refine Meets.bind (Q := fun _ => Tended layout user before plan leased extra)
      (Meets.whenever (fun _ => closeProxy_meets.start hw) fun _ _ h => h ▸ hw) fun _ => ?_
    refine Meets.bind (Q := fun _ => Tended layout user before plan leased extra) ?_ fun _ => ?_
    · exact Meets.update fun w hw => ⟨trivial, hw.withCurrent rfl rfl hw.lease⟩
    · exact Meets.bind (Meets.tryCatch publishAccessibility_meets fun _ => writeRecord_meets)
        fun _ => unmountAccessibility_meets hflat

theorem startAccessibility_meets (hflat : Mounts.Flat layout)
    (hsockets : HasSockets layout user.uid) :
    Meets (fun _ => True) (Tended layout user before plan leased extra)
      (startAccessibility user)
      (fun _ => Tended layout user before plan leased extra)
      fun _ => Tended layout user before plan leased extra := by
  refine Meets.bind ((revokeAccessibility_meets hflat).raising fun _ _ h => h.1) fun _ =>
    Meets.each fun w ⟨hw, hnone⟩ => ?_
  refine Meets.bind ((startProxy_exact user.uid "a11y" w).raising fun _ _ h => h ▸ hw)
    fun binding => Meets.each ?_
  rintro _ ⟨⟨sockets, rfl⟩, hplace⟩
  refine Meets.bind ((mountBind_exact user.uid binding _).raising ?_) fun _ => ?_
  · rintro _ _ rfl
    exact ⟨hw.kept, hw.planned, hw.guests, hw.record, hw.lease⟩
  · refine Meets.bind (Q := fun _ => Tended layout user before plan leased extra)
      (Meets.update ?_) fun _ => publishAccessibility_meets
    rintro _ rfl
    refine ⟨trivial, ?_, hw.planned, hw.guests, hw.record, hw.lease⟩
    refine (hw.kept.hold (hplace ▸ hsockets "a11y" (by decide))).mono fun b hb => ?_
    simp only [Login.bindings, hnone, Option.toList_some, Option.toList_none, List.append_nil,
      List.mem_cons, List.mem_append, List.not_mem_nil, or_false] at hb ⊢
    rcases hb with rfl | hb | (hb | hb) | hb
    · exact .inr (.inl (.inr rfl))
    · exact .inl hb
    · exact .inr (.inl (.inl (.inl hb)))
    · exact .inr (.inl (.inl (.inr hb)))
    · exact .inr (.inr hb)

theorem checkAccessibility_meets :
    Meets (fun _ => True) (Tended layout user before plan leased extra)
      checkAccessibility
      (fun _ => Tended layout user before plan leased extra)
      fun _ => Tended layout user before plan leased extra := by
  refine Meets.each fun w hw => Meets.looked ?_
  split
  · refine Meets.bind (Q := fun _ w' => w' = w) (Meets.performClean ?_ fun _ h => h ▸ hw)
      fun _ => Meets.probe fun _ h _ => h ▸ hw
    rintro _ _ rfl hsome
    exact ⟨trivial, (Option.some.inj hsome).symm⟩
  · exact Meets.pure fun _ h => h ▸ hw

/-- A repair raises nothing. -/
theorem repairAccessibility_meets (hflat : Mounts.Flat layout)
    (hsockets : HasSockets layout user.uid) :
    Meets (fun _ => True) (Tended layout user before plan leased extra)
      (repairAccessibility user)
      (fun _ => Tended layout user before plan leased extra) fun _ _ => False := by
  have hrevoke : Meets (fun _ => True) (Tended layout user before plan leased extra)
      (ignoring (revokeAccessibility user))
      (fun _ => Tended layout user before plan leased extra) fun _ _ => False :=
    Meets.ignoring ((revokeAccessibility_meets hflat).weaken (fun _ h => h) (fun _ _ h => h.1)
      fun _ _ h => h.1)
  refine Meets.each fun w hw => Meets.looked ?_
  have hstart : ∀ w', w' = w → Tended layout user before plan leased extra w' :=
    fun _ h => h ▸ hw
  split
  · exact hrevoke.start hw
  · have hrepair : Meets (fun _ => True) (· = w)
        (do
          command
          let healthy ← checkAccessibility
          if healthy then pure () else startAccessibility user)
        (fun _ => Tended layout user before plan leased extra)
        fun _ => Tended layout user before plan leased extra := by
      refine Meets.bind (command_meets.start hw) fun _ => ?_
      refine Meets.bind checkAccessibility_meets fun healthy => ?_
      cases healthy with
      | true => exact Meets.pure fun _ h => h
      | false => exact startAccessibility_meets hflat hsockets
    exact Meets.tryCatch hrepair fun _ => hrevoke

/-! ### Computer use -/

/-- What giving back a lease raises is no setup error of `reconcile` itself. -/
theorem closeLease_meets :
    Meets (fun _ => True) (Tended layout user before plan leased extra) closeLease
      (fun _ w => Tended layout user before plan leased extra w ∧ w.current.computer = false)
      fun e w => Tended layout user before plan leased extra w ∧ e ≠ .desktop .setup := by
  have hclean : ∀ e : ControllerError, e ≠ .desktop .setup →
      Meets (fun _ => True) (Tended layout user before plan leased extra)
        (performClean e some) (fun _ => Tended layout user before plan leased extra)
        fun e w => Tended layout user before plan leased extra w ∧ e ≠ .desktop .setup := by
    intro e he
    refine Meets.performClean ?_ fun _ h => ⟨h, he⟩
    intro w w' hw hsome
    obtain rfl := Option.some.inj hsome
    exact ⟨trivial, hw⟩
  refine Meets.bind (hclean _ nofun) fun _ => Meets.bind (hclean _ nofun) fun _ =>
    Meets.bind (hclean _ nofun) fun _ => Meets.update ?_
  intro w hw
  refine ⟨trivial, hw.withCurrent rfl rfl ?_, rfl⟩
  rintro (hnone | hsome)
  · cases hnone
  · exact hw.lease (.inr hsome)

theorem releaseLease_meets :
    Meets (fun _ => True) (Tended layout user before plan leased extra) releaseLease
      (fun _ w => Tended layout user before plan leased extra w ∧ w.current.computer = false)
      fun e w => Tended layout user before plan leased extra w ∧ e ≠ .desktop .setup := by
  refine Meets.each fun w hw => Meets.looked ?_
  split
  · refine closeLease_meets.weaken ?_ (fun _ _ h => h) fun _ _ h => h
    rintro _ rfl
    exact hw
  next hnone => exact Meets.pure fun _ h => h ▸ ⟨hw, by simpa using hnone⟩

theorem unmountComputer_meets (hflat : Mounts.Flat layout) :
    Meets (fun _ => True)
      (fun w => Tended layout user before plan leased extra w ∧ w.current.computer = false)
      (unmountComputer user)
      (fun _ => Tended layout user before plan False extra)
      fun e w => Tended layout user before plan leased extra w ∧ e ≠ .desktop .setup := by
  refine Meets.each fun w ⟨hw, hclosed⟩ => Meets.looked ?_
  cases hbinding : w.current.computerBinding with
  | none =>
      refine Meets.pure fun _ h => h ▸ hw.of_lease ?_
      rintro (hlease | hsome)
      · rw [hclosed] at hlease
        cases hlease
      · rw [hbinding] at hsome
        cases hsome
  | some binding =>
      refine Meets.bind (Meets.tryCatch (unmountBind_exact user.uid binding w) fun _ =>
        Meets.throw fun _ h => ⟨hw.failed hflat h, nofun⟩) fun _ => Meets.update ?_
      rintro _ ⟨m, hm, rfl⟩
      refine ⟨trivial, ?_, hw.planned, hw.guests, hw.record, ?_⟩
      · refine hw.kept.released hflat hm fun b hb => ?_
        simp only [Login.bindings, hbinding, Option.toList_some, Option.toList_none,
          List.mem_append, List.mem_singleton, List.append_nil] at hb ⊢
        rcases hb with hb | hb | rfl
        · exact .inr (.inl hb)
        · exact .inr (.inr hb)
        · exact .inl rfl
      · rintro (hlease | hsome)
        · have hopen : w.current.computer = true := hlease
          rw [hclosed] at hopen
          cases hopen
        · cases hsome

theorem revokeComputer_meets (hflat : Mounts.Flat layout) :
    Meets (fun _ => True) (Tended layout user before plan leased extra) (revokeComputer user)
      (fun _ => Tended layout user before plan False extra)
      fun e w => Tended layout user before plan leased extra w ∧ e ≠ .desktop .setup :=
  Meets.bind releaseLease_meets fun _ => unmountComputer_meets hflat

/-- Where there is no lease there is nothing to give back. -/
theorem revokeComputer_nothing (user : PlannedUser) (w : Work R) (hnone : ¬ w.current.Leased) :
    Meets (fun _ => True) (· = w) (revokeComputer user) (fun _ => (· = w)) fun _ _ => False := by
  rw [Login.Leased, not_or, Bool.not_eq_true, Bool.not_eq_true] at hnone
  obtain ⟨hclosed, hbinding⟩ := hnone
  have hbinding : w.current.computerBinding = none := by
    cases hsome : w.current.computerBinding with
    | none => rfl
    | some binding =>
        rw [hsome] at hbinding
        cases hbinding
  refine Meets.bind (Q := fun _ => (· = w)) (Meets.looked ?_) fun _ => Meets.looked ?_
  · rw [hclosed]
    exact Meets.pure fun _ h => h
  · rw [hbinding]
    exact Meets.pure fun _ h => h

theorem startComputer_meets
    (hsockets : HasSockets layout user.uid)
    (hleased : leased) :
    Meets (fun _ => True) (Tended layout user before plan False extra) (startComputer user)
      (fun _ => Tended layout user before plan leased extra)
      fun _ => Tended layout user before plan leased extra := by
  refine Meets.each fun w hw => ?_
  have hnone : w.current.computerBinding.toList = [] := by
    cases hsome : w.current.computerBinding with
    | none => rfl
    | some binding => exact (hw.lease (.inr (by rw [hsome]; rfl))).elim
  refine Meets.bind ((startProxy_exact user.uid "computer" w).raising fun _ _ h =>
    h ▸ hw.of_lease fun _ => hleased) fun binding => Meets.each ?_
  rintro _ ⟨⟨sockets, rfl⟩, hplace⟩
  refine Meets.bind ((mountBind_exact user.uid binding _).raising ?_) fun _ => Meets.update ?_
  · rintro _ _ rfl
    exact ⟨hw.kept, hw.planned, hw.guests, hw.record, fun _ => hleased⟩
  · rintro _ rfl
    refine ⟨trivial, ?_, hw.planned, hw.guests, hw.record, fun _ => hleased⟩
    refine (hw.kept.hold (hplace ▸ hsockets "computer" (by decide))).mono fun b hb => ?_
    simp only [Login.bindings, hnone, Option.toList_some, List.append_nil, List.mem_cons,
      List.mem_append, List.not_mem_nil, or_false] at hb ⊢
    rcases hb with rfl | hb | hb
    · exact .inr (.inr rfl)
    · exact .inl hb
    · exact .inr (.inl hb)

/-- After a repair there is a lease only if computer use is allowed. -/
theorem repairComputer_meets (hflat : Mounts.Flat layout)
    (hsockets : HasSockets layout user.uid) :
    Meets (fun _ => True) (Tended layout user before plan leased extra) (repairComputer user)
      (fun _ => Tended layout user before plan (computerAllowed user plan = true) extra)
      fun e w => Tended layout user before plan leased extra w ∧ e ≠ .desktop .setup := by
  refine Meets.each fun w hw => Meets.looked ?_
  have hstart : ∀ w', w' = w → Tended layout user before plan leased extra w' := fun _ h => h ▸ hw
  rw [hw.planned]
  split
  · exact (revokeComputer_meets hflat).weaken hstart (fun _ _ h => h.allow False.elim)
      fun _ _ h => h
  next hallowed =>
    have hallowed : computerAllowed user plan = true := by simpa using hallowed
    refine Meets.bind (Q := fun _ w' => w' = w) (Meets.probe fun _ h _ => h) fun healthy => ?_
    split
    · exact Meets.pure fun _ h => h ▸ hw.of_lease fun _ => hallowed
    · refine Meets.bind ((revokeComputer_meets hflat).start hw) fun _ => ?_
      exact Meets.ignoring (startComputer_meets hsockets hallowed)

/-- A desktop without a lease is repaired without raising anything. -/
theorem repairComputer_clean
    (hsockets : HasSockets layout user.uid) :
    Meets (fun _ => True) (Tended layout user before plan False extra) (repairComputer user)
      (fun _ => Tended layout user before plan (computerAllowed user plan = true) extra)
      fun _ _ => False := by
  refine Meets.each fun w hw => Meets.looked ?_
  have hrevoke := revokeComputer_nothing user w hw.lease
  rw [hw.planned]
  split
  · exact hrevoke.weaken (fun _ h => h) (fun _ _ h => h ▸ hw.allow False.elim) fun _ _ h => h
  next hallowed =>
    have hallowed : computerAllowed user plan = true := by simpa using hallowed
    refine Meets.bind (Q := fun _ w' => w' = w) (Meets.probe fun _ h _ => h) fun healthy => ?_
    split
    · exact Meets.pure fun _ h => h ▸ hw.allow False.elim
    · refine Meets.bind hrevoke fun _ => Meets.ignoring ?_
      exact (startComputer_meets hsockets hallowed).start hw

/-! ### The portal -/

theorem startGraphicalSession_meets {P : Work R → Prop} :
    Meets (fun _ => True) P startGraphicalSession (fun _ => P) fun _ => P := by
  refine Meets.bind command_meets fun _ => Meets.bind command_meets fun _ => ?_
  refine Meets.bind (Meets.ignoring command_meets) fun _ => Meets.bind command_meets fun _ => ?_
  exact Meets.bind (Meets.ignoring command_meets) fun _ => command_meets

theorem tryGraphicalSession_exact (w : Work R) :
    Meets (fun _ => True) (· = w) tryGraphicalSession
      (fun _ w' => ∃ started, w' = w.withCurrent
        { w.current with accessibilityActivation := true, graphicalSession := started })
      fun _ _ => False := by
  refine Meets.bind (Q := fun _ w' => w' = w.withCurrent
    { w.current with accessibilityActivation := true }) (Meets.update ?_) fun _ => ?_
  · rintro _ rfl
    exact ⟨trivial, rfl⟩
  · refine Meets.ignoring ((Meets.bind startGraphicalSession_meets fun _ =>
      Meets.update ?_).raising ?_)
    · rintro _ rfl
      exact ⟨trivial, true, rfl⟩
    · rintro _ _ rfl
      exact ⟨w.current.graphicalSession, rfl⟩

theorem tryGraphicalSession_meets :
    Meets (fun _ => True) (Tended layout user before plan leased extra) tryGraphicalSession
      (fun _ => Tended layout user before plan leased extra) fun _ _ => False := by
  refine Meets.each fun w hw =>
    (tryGraphicalSession_exact w).weaken (fun _ h => h) ?_ fun _ _ h => h
  rintro _ _ ⟨started, rfl⟩
  exact hw.withCurrent rfl rfl hw.lease

theorem unmountPortal_meets (hflat : Mounts.Flat layout) :
    Meets (fun _ => True) (Tended layout user before plan leased extra) (unmountPortal user)
      (fun gone w => Tended layout user before plan leased extra w ∧
        (gone = true → w.current.portalBinding = none)) fun _ _ => False := by
  refine Meets.each fun w hw => Meets.looked ?_
  cases hbinding : w.current.portalBinding with
  | none => exact Meets.pure fun _ h => h ▸ ⟨hw, fun _ => hbinding⟩
  | some binding =>
      refine Meets.tryCatch (Meets.bind (unmountBind_exact user.uid binding w) fun _ => ?_)
        fun _ => Meets.pure fun _ h => ⟨hw.failed hflat h, nofun⟩
      refine Meets.bind (Q := fun _ w' => Tended layout user before plan leased extra w' ∧
        w'.current.portalBinding = none) (Meets.update ?_) fun _ =>
          Meets.pure fun _ h => ⟨h.1, fun _ => h.2⟩
      rintro _ ⟨m, hm, rfl⟩
      refine ⟨trivial, ⟨?_, hw.planned, hw.guests, hw.record, hw.lease⟩, rfl⟩
      refine hw.kept.released hflat hm fun b hb => ?_
      simp only [Login.bindings, hbinding, Option.toList_some, Option.toList_none,
        List.mem_append, List.mem_singleton, List.append_nil] at hb ⊢
      rcases hb with hb | ((hb | rfl) | hb) | hb
      · exact .inr (.inl hb)
      · exact .inr (.inr (.inl (.inl hb)))
      · exact .inl rfl
      · exact .inr (.inr (.inl (.inr hb)))
      · exact .inr (.inr (.inr hb))

theorem mountPortal_meets (hsockets : HasSockets layout user.uid) :
    Meets (fun _ => True)
      (fun w => Tended layout user before plan leased extra w ∧ w.current.portalBinding = none)
      (mountPortal user)
      (fun made w => Tended layout user before plan leased (made.toList ++ extra) w ∧
        w.current.portalBinding = none) fun _ _ => False := by
  refine Meets.each fun w ⟨hw, hnone⟩ => ?_
  refine Meets.tryCatch ?_ fun _ => Meets.pure fun _ h => h
  refine Meets.bind ((startProxy_exact user.uid "portal" w).raising fun _ _ h => h ▸ ⟨hw, hnone⟩)
    fun binding => Meets.each ?_
  rintro _ ⟨⟨sockets, rfl⟩, hplace⟩
  refine Meets.bind ((mountBind_exact user.uid binding _).raising ?_) fun _ => Meets.pure ?_
  · rintro _ _ rfl
    exact ⟨⟨hw.kept, hw.planned, hw.guests, hw.record, hw.lease⟩, hnone⟩
  · rintro _ rfl
    exact ⟨⟨hw.kept.hold (hplace ▸ hsockets "portal" (by decide)), hw.planned, hw.guests, hw.record,
      hw.lease⟩, hnone⟩

/-- The new binding is recorded last, and nothing is raised until it is. -/
theorem startPortal_meets (hsockets : HasSockets layout user.uid) :
    Meets (fun _ => True)
      (fun w => Tended layout user before plan leased extra w ∧ w.current.portalBinding = none)
      (startPortal user)
      (fun _ => Tended layout user before plan leased extra)
      fun e w => Tended layout user before plan leased extra w ∧ e ≠ .desktop .setup := by
  have hclose (condition : Bool) : Meets (fun _ => True)
      (fun w => Tended layout user before plan leased extra w ∧ w.current.portalBinding = none)
      (whenever condition closeProxy)
      (fun _ w => Tended layout user before plan leased extra w ∧ w.current.portalBinding = none)
      fun e w => Tended layout user before plan leased extra w ∧ e ≠ .desktop .setup :=
    Meets.whenever (fun _ => closeProxy_meets.raising fun _ _ h => ⟨h.1.1, h.2⟩) fun _ _ h => h
  refine Meets.each fun w hw => Meets.looked (Meets.bind ((hclose _).start hw) fun _ => ?_)
  refine Meets.bind (Q := fun _ w => Tended layout user before plan leased extra w ∧
    w.current.portalBinding = none) (Meets.update ?_) fun _ => ?_
  · rintro w ⟨hw, hnone⟩
    refine ⟨trivial, hw.withCurrent rfl ?_ hw.lease, rfl⟩
    simp only [Login.bindings, hnone]
  refine Meets.bind (mountPortal_meets hsockets).of_false fun made => ?_
  cases made with
  | none => exact Meets.pure fun _ h => h.1
  | some binding =>
      refine Meets.each fun w ⟨hw, hnone⟩ => ?_
      refine Meets.bind (Q := fun _ w' => w' = w.withCurrent
        { w.current with graphicalSession := false }) (Meets.update ?_) fun _ => ?_
      · rintro _ rfl
        exact ⟨trivial, rfl⟩
      refine Meets.bind (tryGraphicalSession_exact _).of_false fun _ => Meets.update ?_
      rintro _ ⟨started, rfl⟩
      refine ⟨trivial, ?_, hw.planned, hw.guests, hw.record, hw.lease⟩
      refine hw.kept.mono fun b hb => ?_
      simp only [Login.bindings, Work.withCurrent, hnone, Option.toList_some, Option.toList_none,
        List.append_nil, List.singleton_append, List.mem_cons, List.mem_append, List.not_mem_nil,
        or_false] at hb ⊢
      rcases hb with (rfl | hb) | (hb | hb) | hb
      · exact .inr (.inl (.inl (.inr rfl)))
      · exact .inl hb
      · exact .inr (.inl (.inl (.inl hb)))
      · exact .inr (.inl (.inr hb))
      · exact .inr (.inr hb)

theorem repairPortal_meets (hflat : Mounts.Flat layout)
    (hsockets : HasSockets layout user.uid) (portalsEnabled : Bool) :
    Meets (fun _ => True) (Tended layout user before plan leased extra)
      (repairPortal portalsEnabled user)
      (fun _ => Tended layout user before plan leased extra)
      fun e w => Tended layout user before plan leased extra w ∧ e ≠ .desktop .setup := by
  refine Meets.each fun w hw => Meets.looked ?_
  have hstart : ∀ w', w' = w → Tended layout user before plan leased extra w' := fun _ h => h ▸ hw
  split
  · exact Meets.pure hstart
  · refine Meets.bind (Q := fun _ w' => w' = w) (Meets.probe fun _ h _ => h) fun healthy => ?_
    split
    · split
      · exact Meets.pure hstart
      · exact tryGraphicalSession_meets.of_false.start hw
    · refine Meets.bind ((unmountPortal_meets hflat).start hw).of_false fun gone => ?_
      cases gone with
      | false => exact Meets.pure fun _ h => h.1
      | true =>
          exact (startPortal_meets hsockets).weaken (fun _ h => ⟨h.1, h.2 rfl⟩) (fun _ _ h => h)
            fun _ _ h => h

/-! ### All three -/

theorem repairBridges_meets (hflat : Mounts.Flat layout)
    (hsockets : HasSockets layout user.uid) (portalsEnabled : Bool) :
    Meets (fun _ => True) (Tended layout user before plan leased extra)
      (repairBridges portalsEnabled user)
      (fun _ => Tended layout user before plan (computerAllowed user plan = true) extra)
      fun e w => Tended layout user before plan leased extra w ∧ e ≠ .desktop .setup :=
  Meets.bind (repairAccessibility_meets hflat hsockets).of_false fun _ =>
    Meets.bind (repairPortal_meets hflat hsockets portalsEnabled) fun _ =>
      repairComputer_meets hflat hsockets

end Specs

end Spaces.Desktop
