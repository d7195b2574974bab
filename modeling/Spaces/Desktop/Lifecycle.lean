import Spaces.Desktop.Bridges

/-!
# The lifecycle of desktops

`reconcile` brings a user's desktop in line with the login it is taken from: it is
activated, refreshed, repaired, replaced or taken down. An activation that fails is
rolled back, and the desktop that was replaced for it is activated again.

A `DesktopSetupError` leaves the controller in charge. Whatever has failed until then,
everything that is mounted for a user is named by the user's record, so that it can be
taken off. Any other exception makes the launcher stop the machine; after one the
records may be incomplete.
-/

namespace Spaces.Desktop

open Spaces.Library Routine Spaces.Shortcuts

/-! ## The code -/

/-- The state of the controller: the desktops by their users. -/
structure Desktops (R : Type) extends World where
  active : Nat → Option (Login R)

section Code

variable {R : Type}

def Desktops.withActive (s : Desktops R) (uid : Nat) (login : Option (Login R)) : Desktops R :=
  { s with active := Function.update s.active uid login }

variable [DecidableEq R]

/-! ### One desktop -/

/-- `_prepare_guest_root`. -/
def prepareGuestRoot (user : PlannedUser) : Routine (Work R) ControllerError Unit := do
  let w ← look
  whenever (user.uid ∉ w.guestSessions) do
    command
    update fun w => { w with guestSessions := insert user.uid w.guestSessions }
  command

/-- A bind of the plan, which is put back if the activation fails. -/
def mountPlanned (user : PlannedUser) (binding : DesktopBind) :
    Routine (Work R) ControllerError Unit := do
  onMounts (mountBind user.uid binding)
  update fun w => { w with mounted := binding :: w.mounted }

/-- The portal of an activation, which goes on without one if it cannot be set up. -/
def activatePortal (portalsEnabled : Bool) (user : PlannedUser)
    (plan : DesktopPlan (Terms R)) : Routine (Work R) ControllerError (Option DesktopBind) :=
  if portalsEnabled && plan.rest.desktop then
    tryCatch (do
        let binding ← startProxy user.uid "portal"
        mountPlanned user binding
        pure (some binding))
      fun _ => pure none
  else pure none

/-- The part of `_activate` that is rolled back. -/
def setUp (portalsEnabled : Bool) (user : PlannedUser) (plan : DesktopPlan (Terms R)) :
    Routine (Work R) ControllerError (Option DesktopBind) := do
  forEach (mountPlanned user) plan.binds
  let binding ← activatePortal portalsEnabled user plan
  writeRecord user.uid ⟨.active, some plan.rest.sessionId⟩
  pure binding

/-- Everything is tried. The answer is whether all of it was unmounted. -/
def unmountAll (user : PlannedUser) : List DesktopBind → Routine (Work R) ControllerError Bool
  | [] => pure true
  | binding :: rest => do
      let gone ← tryCatch (onMounts (unmountBind user.uid binding) >>= fun _ => pure true)
        fun _ => pure false
      let others ← unmountAll user rest
      pure (gone && others)

def rollBack {α : Type} (user : PlannedUser) (error : ControllerError) :
    Routine (Work R) ControllerError α := do
  let w ← look
  let gone ← unmountAll user w.mounted
  if gone then throw error else throw .revocation

/-- `_activate`. It is about a new record. -/
def activateWork (portalsEnabled : Bool) (user : PlannedUser) (plan : DesktopPlan (Terms R)) :
    Routine (Work R) ControllerError (Login R) := do
  prepareGuestRoot user
  let binding ← tryCatch (setUp portalsEnabled user plan) (rollBack user)
  setCurrent fun _ => { plan, portal := binding.isSome, portalBinding := binding }
  repairAccessibility user
  whenever binding.isSome tryGraphicalSession
  repairComputer user
  let w ← look
  pure w.current

/-- The portal is closed whether its mounts and those of the plan come off or not. -/
def closePortalProxy : Routine (Work R) ControllerError Unit := do
  let w ← look
  whenever w.current.portal closeProxy
  setCurrent fun login => { login with portal := false }

/-- The native bus of the guest gets its place back. -/
def restoreAccessibility : Routine (Work R) ControllerError Unit := do
  let w ← look
  whenever w.current.accessibilityActivation do
    ignoring do
      command
      command
      setCurrent fun login => { login with accessibilityActivation := false }

def unmountPortalBinding (user : PlannedUser) : Routine (Work R) ControllerError Unit := do
  let w ← look
  match w.current.portalBinding with
  | none => pure ()
  | some binding => do
      onMounts (unmountBind user.uid binding)
      setCurrent fun login => { login with portalBinding := none }

/-- The end of `_deactivate`. -/
def unmountPlanned (user : PlannedUser) (plan : DesktopPlan (Terms R)) :
    Routine (Work R) ControllerError Unit := do
  unmountPortalBinding user
  forEach (fun binding => onMounts (unmountBind user.uid binding)) plan.binds.reverse

/-- `_deactivate`, up to the end of the record. -/
def deactivateWork (portalsEnabled : Bool) (user : PlannedUser) :
    Routine (Work R) ControllerError Unit := do
  revokeComputer user
  restoreAccessibility
  revokeAccessibility user
  let w ← look
  whenever (portalsEnabled && w.current.plan.rest.desktop) (ignoring command)
  tryCatch (unmountPlanned user w.current.plan) fun _ => do
    closePortalProxy
    throw .revocation
  closePortalProxy

/-! ### The controller -/

variable (portalsEnabled : Bool)

/-- A routine about the record of an active desktop, which was `current` when it was
looked up. -/
def onActive {α : Type} (uid : Nat) (current : Login R) (m : Routine (Work R) ControllerError α) :
    Routine (Desktops R) ControllerError α :=
  within (fun s => { toWorld := s.toWorld, current := (s.active uid).getD current })
    (fun s w => { toWorld := w.toWorld, active := Function.update s.active uid (some w.current) })
    id m

/-- `set_status`. -/
def setStatus (uid : Nat) (state : Status) (sessionId : Option Text) :
    Routine (Desktops R) ControllerError Unit :=
  perform (.desktop .osError) fun s =>
    let previous := if state = .inactive then none else (s.records uid).sessionId
    some { s with toWorld := s.toWorld.write uid ⟨state, sessionId.or previous⟩ }

def activate (user : PlannedUser) (plan : DesktopPlan (Terms R)) :
    Routine (Desktops R) ControllerError (Login R) :=
  within (fun s => { toWorld := s.toWorld, current := { plan } })
    (fun s w => { s with toWorld := w.toWorld }) id (activateWork portalsEnabled user plan)

/-- `_deactivate`. -/
def deactivateLogin (user : PlannedUser) (current : Login R) :
    Routine (Desktops R) ControllerError Unit := do
  onActive user.uid current (deactivateWork portalsEnabled user)
  update fun s => s.withActive user.uid none

/-- `_stop_guest_session`. -/
def stopGuestSession (user : PlannedUser) : Routine (Desktops R) ControllerError Unit := do
  let s ← look
  whenever (user.uid ∈ s.guestSessions) do
    command
    update fun s => { s with guestSessions := s.guestSessions.erase user.uid }

/-- `deactivate`. -/
def deactivate (user : PlannedUser) : Routine (Desktops R) ControllerError Unit := do
  let s ← look
  match s.active user.uid with
  | none => do
      stopGuestSession user
      setStatus user.uid .inactive none
  | some current => do
      setStatus user.uid .pending none
      deactivateLogin portalsEnabled user current
      stopGuestSession user
      setStatus user.uid .inactive none

/-- What `reconcile` is told and finds: whether the session is active, the logins, what
the user's manager has in its environment, and what the planning comes to. -/
structure Snapshot (R : Type) where
  sessionActive : Bool
  sessions : List LoginSession
  environment : Environment
  planned : Option (List DesktopBind × R)

def Snapshot.selected (snapshot : Snapshot R) (user : PlannedUser) : Option Text :=
  (selectedSession user snapshot.sessions snapshot.environment).map (·.sessionId)

/-- The plan of a graphical session, or of the credentials alone. -/
def makePlan (user : PlannedUser) (selected : Option Text) (planned : List DesktopBind × R) :
    DesktopPlan (Terms R) where
  binds := planned.1
  rest := {
    sessionId := selected.getD "credentials".toList
    desktop := selected.isSome
    accessibility := selected.isSome && user.accessibility
    other := planned.2 }

/-- Access that is not granted any more, or belongs to another login, is revoked before
anything is planned. -/
def revokeStale (user : PlannedUser) (snapshot : Snapshot R) :
    Option (Login R) → Routine (Desktops R) ControllerError Unit
  | none => command
  | some current => do
      whenever (!user.desktop || !user.accessibility)
        (onActive user.uid current (revokeComputer user))
      whenever (!user.desktop) (onActive user.uid current (revokeAccessibility user))
      command
      whenever (snapshot.selected user ≠ some current.plan.rest.sessionId) do
        onActive user.uid current (revokeComputer user)
        onActive user.uid current (revokeAccessibility user)

/-- `_refresh_settings`. -/
def refresh (user : PlannedUser) (plan : DesktopPlan (Terms R)) :
    Routine (Work R) ControllerError Bool := do
  let w ← look
  if w.current.plan = plan then pure true
  else onMounts (refreshSettings ⟨user.uid, place user.guestHome⟩ plan)

/-- The plan that a failed update goes back to. Its access to the other programs ends
with the login. -/
def previousPlan (user : PlannedUser) (selected : Option Text) (previous : DesktopPlan (Terms R)) :
    DesktopPlan (Terms R) :=
  { previous with rest := { previous.rest with
      accessibility := previous.rest.accessibility && user.accessibility &&
        decide (selected = some previous.rest.sessionId) } }

/-- The desktop there was is activated again. -/
def restorePrevious (user : PlannedUser) (selected : Option Text) :
    Option (Login R) → Routine (Desktops R) ControllerError Unit
  | none => setStatus user.uid .inactive none
  | some previous => do
      let login ← tryCatch
        (activate portalsEnabled user (previousPlan user selected previous.plan))
        fun error => do
          setStatus user.uid .inactive none
          throw (if error = .revocation then .revocation else .desktop .setup)
      update fun s => s.withActive user.uid (some login)

/-- What is done about an activation that has failed. -/
def restore (user : PlannedUser) (selected : Option Text) (previous : Option (Login R)) :
    ControllerError → Routine (Desktops R) ControllerError (Login R)
  | .revocation => do
      setStatus user.uid .inactive none
      throw .revocation
  | _ => do
      restorePrevious portalsEnabled user selected previous
      throw (.desktop .setup)

def retire (user : PlannedUser) : Option (Login R) → Routine (Desktops R) ControllerError Unit
  | none => pure ()
  | some previous => deactivateLogin portalsEnabled user previous

/-- A desktop is activated in place of the one there is. -/
def replace (user : PlannedUser) (selected : Option Text) (plan : DesktopPlan (Terms R))
    (previous : Option (Login R)) : Routine (Desktops R) ControllerError Unit := do
  setStatus user.uid .pending none
  retire portalsEnabled user previous
  let login ← tryCatch (activate portalsEnabled user plan)
    (restore portalsEnabled user selected previous)
  update fun s => s.withActive user.uid (some login)

/-- A desktop whose plan is made. -/
def carryOut (user : PlannedUser) (selected : Option Text) (plan : DesktopPlan (Terms R)) :
    Option (Login R) → Routine (Desktops R) ControllerError Unit
  | none => replace portalsEnabled user selected plan none
  | some current => do
      let same ← onActive user.uid current (refresh user plan)
      if same then onActive user.uid current (repairBridges portalsEnabled user)
      else replace portalsEnabled user selected plan (some current)

/-- `reconcile`. -/
def reconcile (user : PlannedUser) (snapshot : Snapshot R) :
    Routine (Desktops R) ControllerError Unit := do
  let s ← look
  if user.uid = 0 || (!user.desktop && !user.credentialAgents) || !snapshot.sessionActive then
    if (s.active user.uid).isSome || user.uid ∈ s.guestSessions then deactivate portalsEnabled user
    else pure ()
  else do
    revokeStale user snapshot (s.active user.uid)
    let s ← look
    if (snapshot.selected user).isNone && !user.credentialAgents then
      deactivate portalsEnabled user
    else
      match snapshot.planned with
      | none => do
          let previous := s.active user.uid
          setStatus user.uid (if previous.isSome then .active else .inactive)
            (previous.map (·.plan.rest.sessionId))
          throw (.desktop .setup)
      | some planned =>
          carryOut portalsEnabled user (snapshot.selected user)
            (makePlan user (snapshot.selected user) planned) (s.active user.uid)

def repairActive (user : PlannedUser) : Routine (Desktops R) ControllerError Unit := do
  let s ← look
  match s.active user.uid with
  | none => pure ()
  | some current => onActive user.uid current (repairBridges portalsEnabled user)

/-- `reconcile_portals`. -/
def reconcilePortals (users : List PlannedUser) : Routine (Desktops R) ControllerError Unit := do
  command
  forEach (repairActive portalsEnabled) users

end Code

/-! ## One desktop -/

variable {R : Type}

/-- The world after some of the work: what the user has mounted is among the binds, and
the other users have what they had. -/
structure Handled (layout : Set Place) (user : PlannedUser) (before : World)
    (plan : DesktopPlan (Terms R)) (binds : List DesktopBind) (s : World) : Prop where
  kept : Kept layout user.uid before.mounts binds s.mounts
  guests : ∀ other, other ≠ user.uid →
    (other ∈ s.guestSessions ↔ other ∈ before.guestSessions)
  record : s.records = before.records ∨
    s.records = Function.update before.records user.uid ⟨.active, some plan.rest.sessionId⟩

/-- The world when the record says that the desktop is active. -/
def World.activated (s : World) (user : PlannedUser) (plan : DesktopPlan (Terms R)) : World :=
  s.write user.uid ⟨.active, some plan.rest.sessionId⟩

section Work

variable {layout : Set Place} {user : PlannedUser} {before : World}
  {plan : DesktopPlan (Terms R)} {leased : Prop} {binds binds' : List DesktopBind} {w : Work R}

theorem Tended.handled {extra : List DesktopBind}
    (h : Tended layout user before plan leased extra w) :
    Handled layout user before plan (extra ++ w.current.bindings) w.toWorld :=
  ⟨h.kept, h.guests, h.record⟩

namespace Handled

variable {s : World}

theorem mono (h : Handled layout user before plan binds s) (hbinds : ∀ b ∈ binds, b ∈ binds') :
    Handled layout user before plan binds' s :=
  ⟨h.kept.mono hbinds, h.guests, h.record⟩

/-- Once written, the record is what it is in the activated world. -/
theorem activated (h : Handled layout user before plan binds s) :
    (s.activated user plan).records = (before.activated user plan).records := by
  show Function.update s.records _ _ = Function.update before.records _ _
  rcases h.record with hsame | hactive
  · rw [hsame]
  · rw [hactive, Function.update_idem]

theorem failed (h : Handled layout user before plan binds s) (hflat : Mounts.Flat layout)
    {destination : Place} {m : Mounts} (hm : s.mounts.Failed user.uid destination m) :
    Handled layout user before plan binds { s with mounts := m } :=
  ⟨h.kept.failed hflat hm, h.guests, h.record⟩

theorem write (h : Handled layout user before plan binds s) :
    Handled layout user before plan binds (s.activated user plan) :=
  ⟨h.kept, h.guests, .inr h.activated⟩

end Handled

/-! ### Activation -/

/-- What the activation has mounted so far is all that the user has, and nothing else
was to be mounted. -/
structure SettingUp (layout : Set Place) (user : PlannedUser) (before : World)
    (plan : DesktopPlan (Terms R)) (wanted : List DesktopBind) (w : Work R) : Prop where
  handled : Handled layout user before plan w.mounted w.toWorld
  wanted : ∀ b ∈ w.mounted, b ∈ wanted

/-- An activation that failed. Only if it was not rolled back is something left. -/
def Failed (layout : Set Place) (user : PlannedUser) (before : World)
    (plan : DesktopPlan (Terms R)) (e : ControllerError) (s : World) : Prop :=
  (∃ binds, Handled layout user before plan binds s) ∧
    (e ≠ .revocation → Handled layout user before plan [] s)

theorem SettingUp.mono (h : SettingUp layout user before plan binds w)
    (hbinds : ∀ b ∈ binds, b ∈ binds') : SettingUp layout user before plan binds' w :=
  ⟨h.handled, fun b hb => hbinds b (h.wanted b hb)⟩

theorem SettingUp.failed (h : SettingUp layout user before plan [] w) (e : ControllerError) :
    Failed layout user before plan e w.toWorld :=
  have hnone : Handled layout user before plan [] w.toWorld := h.handled.mono h.wanted
  ⟨⟨[], hnone⟩, fun _ => hnone⟩

theorem prepareGuestRoot_meets :
    Meets (fun _ => True) (SettingUp layout user before plan binds) (prepareGuestRoot user)
      (fun _ => SettingUp layout user before plan binds)
      fun _ => SettingUp layout user before plan binds := by
  refine Meets.each fun w hw => Meets.looked ?_
  have hstart : ∀ w', w' = w → SettingUp layout user before plan binds w' := fun _ h => h ▸ hw
  refine Meets.bind (Q := fun _ => SettingUp layout user before plan binds)
    (Meets.whenever (fun _ => ?_) fun _ => hstart) fun _ => command_meets
  refine Meets.bind (command_meets.start hw) fun _ => ?_
  refine Meets.update fun w hw => ⟨trivial, ⟨hw.handled.kept, fun other hne => ?_,
    hw.handled.record⟩, hw.wanted⟩
  rw [← hw.handled.guests other hne]
  exact Finset.mem_insert.trans (or_iff_right hne)

/-- A bind is wanted from when it is mounted on. -/
theorem mountPlanned_meets {binding : DesktopBind} (hlaid : binding.destination ∈ layout) :
    Meets (fun _ => True) (SettingUp layout user before plan binds) (mountPlanned user binding)
      (fun _ => SettingUp layout user before plan (binds ++ [binding]))
      fun _ => SettingUp layout user before plan binds := by
  refine Meets.each fun w hw => ?_
  refine Meets.bind ((mountBind_exact user.uid binding w).raising fun _ _ h => h ▸ hw) fun _ =>
    Meets.update ?_
  rintro _ rfl
  refine ⟨trivial, ⟨hw.handled.kept.hold hlaid, hw.handled.guests, hw.handled.record⟩, ?_⟩
  intro b hb
  rcases List.mem_cons.mp hb with rfl | hb
  · exact List.mem_append_right _ List.mem_cons_self
  · exact List.mem_append_left _ (hw.wanted b hb)

theorem activatePortal_meets (hsockets : HasSockets layout user.uid) (portalsEnabled : Bool) :
    Meets (fun _ => True) (SettingUp layout user before plan binds)
      (activatePortal portalsEnabled user plan)
      (fun binding => SettingUp layout user before plan (binds ++ binding.toList))
      fun _ _ => False := by
  have hnone : ∀ w : Work R, SettingUp layout user before plan binds w →
      SettingUp layout user before plan (binds ++ (none : Option DesktopBind).toList) w :=
    fun w hw => hw.mono fun b hb => List.mem_append_left _ hb
  unfold activatePortal
  split
  · refine Meets.each fun w hw => Meets.tryCatch (Meets.bind ((startProxy_exact user.uid "portal"
      w).raising fun _ _ h => h ▸ hw) fun binding => ?_) fun _ =>
        Meets.pure hnone
    refine Meets.each ?_
    rintro _ ⟨⟨sockets, rfl⟩, hplace⟩
    refine Meets.bind ((mountPlanned_meets (hplace ▸ hsockets "portal" (by decide))).weaken ?_
      (fun _ _ h => h) fun _ _ h => h) fun _ => Meets.pure fun _ h => h
    rintro _ rfl
    exact ⟨⟨hw.handled.kept, hw.handled.guests, hw.handled.record⟩, hw.wanted⟩
  · exact Meets.pure hnone

theorem mountAll_meets : ∀ todo : List DesktopBind,
    (∀ b ∈ todo, b ∈ binds ∧ b.destination ∈ layout) →
    Meets (fun _ => True) (SettingUp layout user before plan binds)
      (forEach (mountPlanned user) todo)
      (fun _ => SettingUp layout user before plan binds)
      fun _ => SettingUp layout user before plan binds := by
  intro todo
  induction todo with
  | nil => exact fun _ => Meets.pure fun _ h => h
  | cons binding rest ih =>
      intro htodo
      obtain ⟨hwanted, hlaid⟩ := htodo binding List.mem_cons_self
      refine Meets.bind ((mountPlanned_meets hlaid).weaken (fun _ h => h) ?_ fun _ _ h => h)
        fun _ => ih fun b hb => htodo b (List.mem_cons_of_mem _ hb)
      intro _ w hw
      refine hw.mono fun b hb => ?_
      rcases List.mem_append.mp hb with hb | hb
      · exact hb
      · exact List.mem_singleton.mp hb ▸ hwanted

/-- The record is the last thing that is set up. -/
theorem writeSetting_meets :
    Meets (fun _ => True) (SettingUp layout user before plan binds)
      (writeRecord user.uid ⟨.active, some plan.rest.sessionId⟩)
      (fun _ => SettingUp layout user (before.activated user plan) plan binds)
      fun _ => SettingUp layout user before plan binds := by
  refine Meets.perform ?_ fun _ h => h
  intro w w' hw hsome
  obtain rfl := Option.some.inj hsome
  have hwritten := hw.handled.write
  exact ⟨trivial, ⟨⟨hwritten.kept, hwritten.guests, .inl hw.handled.activated⟩, hw.wanted⟩,
    ⟨hwritten, hw.wanted⟩⟩

theorem setUp_meets (hsockets : HasSockets layout user.uid)
    (hlaid : ∀ b ∈ plan.binds, b.destination ∈ layout) (portalsEnabled : Bool) :
    Meets (fun _ => True) (SettingUp layout user before plan []) (setUp portalsEnabled user plan)
      (fun binding =>
        SettingUp layout user (before.activated user plan) plan (plan.binds ++ binding.toList))
      fun _ w => Handled layout user before plan w.mounted w.toWorld := by
  refine Meets.bind ((mountAll_meets plan.binds fun b hb => ⟨hb, hlaid b hb⟩).weaken
    (fun _ h => h.mono nofun) (fun _ _ h => h) fun _ _ h => h.handled) fun _ => ?_
  refine Meets.bind (activatePortal_meets hsockets portalsEnabled).of_false fun binding => ?_
  exact Meets.bind (writeSetting_meets.raising fun _ _ h => h.handled) fun _ =>
    Meets.pure fun _ h => h

/-- What comes off is not there any more, and the rest is still what it was. -/
theorem unmountAll_meets (hflat : Mounts.Flat layout) : ∀ (todo binds : List DesktopBind),
    Meets (fun _ => True)
      (fun w => Handled layout user before plan (todo ++ binds) w.toWorld)
      (unmountAll user todo : Routine (Work R) ControllerError Bool)
      (fun gone w => Handled layout user before plan (todo ++ binds) w.toWorld ∧
        (gone = true → Handled layout user before plan binds w.toWorld))
      fun _ _ => False := by
  intro todo
  induction todo with
  | nil => exact fun binds => Meets.pure fun _ h => ⟨h, fun _ => h⟩
  | cons binding rest ih =>
      intro binds
      have hcons : ∀ w : Work R,
          Handled layout user before plan (rest ++ binds) w.toWorld →
            Handled layout user before plan (binding :: rest ++ binds) w.toWorld :=
        fun w hw => hw.mono fun b hb => List.mem_cons_of_mem _ hb
      refine Meets.bind (Q := fun gone w =>
        Handled layout user before plan (binding :: rest ++ binds) w.toWorld ∧
          (gone = true → Handled layout user before plan (rest ++ binds) w.toWorld))
        (Meets.each fun w hw => ?_) fun gone => ?_
      · refine Meets.tryCatch (Meets.bind (unmountBind_exact user.uid binding w) fun _ =>
          Meets.pure ?_) fun _ => Meets.pure ?_
        swap
        · rintro _ ⟨m, hm, rfl⟩
          exact ⟨hw.failed hflat hm, fun hnot => by cases hnot⟩
        rintro _ ⟨m, hm, rfl⟩
        have hreleased : Handled layout user before plan (rest ++ binds)
            (w.withMounts m).toWorld := by
          refine ⟨hw.kept.released hflat hm fun b hb => ?_, hw.guests, hw.record⟩
          rcases List.mem_cons.mp hb with rfl | hb
          · exact .inl rfl
          · exact .inr hb
        exact ⟨hcons _ hreleased, fun _ => hreleased⟩
      · cases gone with
        | true =>
            refine Meets.bind ((ih binds).weaken (fun _ h => h.2 rfl) (fun _ _ h => h)
              fun _ _ h => h) fun others => Meets.pure fun w hw => ⟨hcons w hw.1, ?_⟩
            intro hothers
            exact hw.2 (by simpa using hothers)
        | false =>
            have hmoved : ∀ b, b ∈ rest ++ binding :: binds ↔ b ∈ binding :: rest ++ binds := by
              intro b
              simp only [List.mem_append, List.mem_cons, List.cons_append]
              exact or_left_comm
            refine Meets.bind ((ih (binding :: binds)).weaken
              (fun _ h => h.1.mono fun b hb => (hmoved b).mpr hb) (fun _ _ h => h)
              fun _ _ h => h) fun others => Meets.pure fun w hw => ⟨?_, nofun⟩
            exact hw.1.mono fun b hb => (hmoved b).mp hb

theorem rollBack_meets {α : Type} {post : α → Work R → Prop} (hflat : Mounts.Flat layout)
    (e : ControllerError) :
    Meets (fun _ => True) (fun w => Handled layout user before plan w.mounted w.toWorld)
      (rollBack user e : Routine (Work R) ControllerError α) post
      fun e w => Failed layout user before plan e w.toWorld := by
  refine Meets.each fun w hw => Meets.looked ?_
  have hall : Meets (fun _ => True) (· = w) (unmountAll user w.mounted)
      (fun gone w' => Handled layout user before plan (w.mounted ++ []) w'.toWorld ∧
        (gone = true → Handled layout user before plan [] w'.toWorld)) fun _ _ => False := by
    refine (unmountAll_meets hflat w.mounted []).weaken ?_ (fun _ _ h => h) fun _ _ h => h
    rintro _ rfl
    exact hw.mono fun b hb => List.mem_append_left _ hb
  refine Meets.bind hall.of_false fun gone => ?_
  cases gone with
  | true => exact Meets.throw fun w' h => ⟨⟨[], h.2 rfl⟩, fun _ => h.2 rfl⟩
  | false => exact Meets.throw fun w' h => ⟨⟨_, h.1⟩, fun hne => (hne rfl).elim⟩

theorem activateWork_meets (hflat : Mounts.Flat layout) (hsockets : HasSockets layout user.uid)
    (hlaid : ∀ b ∈ plan.binds, b.destination ∈ layout) (portalsEnabled : Bool) :
    Meets (fun _ => True) (SettingUp layout user before plan [])
      (activateWork portalsEnabled user plan)
      (fun login w => login = w.current ∧ Tended layout user (before.activated user plan) plan
        (computerAllowed user plan = true) [] w)
      fun e w => Failed layout user before plan e w.toWorld := by
  refine Meets.bind (prepareGuestRoot_meets.raising fun e _ h => h.failed e) fun _ => ?_
  refine Meets.bind (Meets.tryCatch (setUp_meets hsockets hlaid portalsEnabled) fun e =>
    rollBack_meets hflat e) fun binding => ?_
  refine Meets.bind (Q := fun _ => Tended layout user (before.activated user plan) plan False [])
    (Meets.update ?_) fun _ => ?_
  · intro w hw
    refine ⟨trivial, ?_, rfl, hw.handled.guests, hw.handled.record, ?_⟩
    · refine hw.handled.kept.mono fun b hb => ?_
      simpa [Login.bindings] using hw.wanted b hb
    · rintro (hnone | hnone)
      · cases hnone
      · cases hnone
  refine Meets.bind (repairAccessibility_meets hflat hsockets).of_false fun _ => ?_
  refine Meets.bind (Q := fun _ => Tended layout user (before.activated user plan) plan False [])
    (Meets.whenever (fun _ => tryGraphicalSession_meets.of_false) fun _ _ h => h) fun _ => ?_
  refine Meets.bind (repairComputer_clean hsockets).of_false fun _ => ?_
  refine Meets.each fun w hw => Meets.looked (Meets.pure ?_)
  rintro _ rfl
  exact ⟨rfl, hw⟩

/-! ### Deactivation -/

theorem restoreAccessibility_meets :
    Meets (fun _ => True) (Tended layout user before plan leased []) restoreAccessibility
      (fun _ => Tended layout user before plan leased []) fun _ _ => False := by
  refine Meets.each fun w hw => Meets.looked ?_
  have hstart : ∀ w', w' = w → Tended layout user before plan leased [] w' := fun _ h => h ▸ hw
  refine Meets.whenever (fun _ => Meets.ignoring ?_) fun _ => hstart
  refine Meets.bind (command_meets.start hw) fun _ => ?_
  refine Meets.bind command_meets fun _ => ?_
  exact setCurrent_meets (fun _ => rfl) (fun _ => rfl) fun _ h => h

theorem unmountPortalBinding_meets (hflat : Mounts.Flat layout) :
    Meets (fun _ => True)
      (fun w => Tended layout user before plan leased [] w ∧
        w.current.accessibilityBinding = none)
      (unmountPortalBinding user)
      (fun _ w => Tended layout user before plan leased [] w ∧
        w.current.accessibilityBinding = none ∧ w.current.portalBinding = none)
      fun _ => Tended layout user before plan leased [] := by
  refine Meets.each fun w ⟨hw, hnone⟩ => Meets.looked ?_
  cases hbinding : w.current.portalBinding with
  | none => exact Meets.pure fun _ h => h ▸ ⟨hw, hnone, hbinding⟩
  | some binding =>
      refine Meets.bind ((unmountBind_exact user.uid binding w).raising fun _ _ h =>
        hw.failed hflat h) fun _ => Meets.update ?_
      rintro _ ⟨m, hm, rfl⟩
      refine ⟨trivial, ⟨?_, hw.planned, hw.guests, hw.record, hw.lease⟩, hnone, rfl⟩
      refine hw.kept.released hflat hm fun b hb => ?_
      simp only [Login.bindings, hbinding, Option.toList_some, Option.toList_none,
        List.mem_append, List.mem_singleton, List.append_nil, List.nil_append] at hb ⊢
      rcases hb with ((hb | rfl) | hb) | hb
      · exact .inr (.inl (.inl hb))
      · exact .inl rfl
      · exact .inr (.inl (.inr hb))
      · exact .inr (.inr hb)

/-- The binds of the plan come off one after another, and the record names them all
until they have. -/
theorem unmountEach_meets (hflat : Mounts.Flat layout) : ∀ todo : List DesktopBind,
    Meets (fun _ => True)
      (fun w => Tended layout user before plan leased [] w ∧
        Kept layout user.uid before.mounts todo w.mounts)
      (forEach (fun binding => onMounts (unmountBind user.uid binding)) todo)
      (fun _ w => Tended layout user before plan leased [] w ∧
        Kept layout user.uid before.mounts [] w.mounts)
      fun _ => Tended layout user before plan leased [] := by
  intro todo
  induction todo with
  | nil => exact Meets.pure fun _ h => h
  | cons binding rest ih =>
      refine Meets.bind (Meets.each fun w ⟨hw, hkept⟩ => ?_) fun _ => ih
      refine (unmountBind_exact user.uid binding w).weaken (fun _ h => h) ?_ fun _ _ h =>
        hw.failed hflat h
      rintro _ _ ⟨m, hm, rfl⟩
      refine ⟨⟨?_, hw.planned, hw.guests, hw.record, hw.lease⟩, ?_⟩
      · exact hw.kept.released hflat hm fun b hb => .inr hb
      · refine hkept.released hflat hm fun b hb => ?_
        rcases List.mem_cons.mp hb with rfl | hb
        · exact .inl rfl
        · exact .inr hb

theorem unmountPlanned_meets (hflat : Mounts.Flat layout) :
    Meets (fun _ => True)
      (fun w => Tended layout user before plan False [] w ∧
        w.current.accessibilityBinding = none)
      (unmountPlanned user plan)
      (fun _ w => Tended layout user before plan False [] w ∧
        Kept layout user.uid before.mounts [] w.mounts)
      fun _ => Tended layout user before plan False [] := by
  refine Meets.bind (unmountPortalBinding_meets hflat) fun _ => ?_
  refine (unmountEach_meets hflat plan.binds.reverse).weaken ?_ (fun _ _ h => h) fun _ _ h => h
  rintro w ⟨hw, hnone, hportal⟩
  refine ⟨hw, hw.kept.mono fun b hb => List.mem_reverse.mpr ?_⟩
  have hcomputer : w.current.computerBinding.toList = [] := by
    cases hsome : w.current.computerBinding with
    | none => rfl
    | some binding => exact (hw.lease (.inr (by rw [hsome]; rfl))).elim
  simpa [Login.bindings, hnone, hportal, hcomputer, hw.planned] using hb

/-- Closing the portal's proxy leaves the mounts to the record. -/
theorem closePortalProxy_meets {post : Unit → Work R → Prop}
    {raised : ControllerError → Work R → Prop} {pre : Work R → Prop}
    (h : ∀ w, pre w → post () (w.withCurrent { w.current with portal := false }))
    (hfails : ∀ e w, pre w → e ≠ .desktop .setup → raised e w) :
    Meets (fun _ => True) pre closePortalProxy post raised := by
  refine Meets.each fun w hw => Meets.looked (Meets.bind (Q := fun _ => pre) ?_ fun _ =>
    Meets.update fun w hw => ⟨trivial, h w hw⟩)
  exact Meets.whenever (fun _ => (closeProxy_meets.start hw).raising fun e w hw =>
    hfails e w hw.1 hw.2) fun _ _ heq => heq ▸ hw

/-- Either nothing is left, or the record still names what is. -/
theorem deactivateWork_meets (hflat : Mounts.Flat layout) (portalsEnabled : Bool) :
    Meets (fun _ => True) (Tended layout user before plan leased [])
      (deactivateWork portalsEnabled user)
      (fun _ w => Handled layout user before plan [] w.toWorld)
      fun e w => Tended layout user before plan leased [] w ∧ e ≠ .desktop .setup := by
  have hraise : ∀ w : Work R, Tended layout user before plan False [] w →
      Tended layout user before plan leased [] w := fun _ h => h.allow False.elim
  refine Meets.bind (revokeComputer_meets hflat) fun _ => ?_
  refine Meets.bind restoreAccessibility_meets.of_false fun _ => ?_
  refine Meets.bind ((revokeAccessibility_meets hflat).raising fun _ w h => ⟨hraise w h.1, h.2⟩)
    fun _ => Meets.each fun w hw => Meets.looked ?_
  rw [hw.1.planned]
  refine Meets.bind (Q := fun _ w => Tended layout user before plan False [] w ∧
    w.current.accessibilityBinding = none) ?_ fun _ => ?_
  · refine Meets.whenever (fun _ => Meets.ignoring (command_meets.weaken ?_ (fun _ _ h => h)
      fun _ _ h => h)) fun _ _ h => h ▸ hw
    exact fun _ h => h ▸ hw
  · refine Meets.bind (Meets.tryCatch (unmountPlanned_meets hflat) fun e => ?_) fun _ => ?_
    · refine Meets.bind (Q := fun _ => Tended layout user before plan False [])
        (closePortalProxy_meets ?_ fun _ w hw hne => ⟨hraise w hw, hne⟩) fun _ =>
          Meets.throw fun w h => ⟨hraise w h, nofun⟩
      exact fun w hw => hw.withCurrent rfl rfl hw.lease
    · exact closePortalProxy_meets (fun w hw => ⟨hw.2, hw.1.guests, hw.1.record⟩)
        fun _ w hw hne => ⟨hraise w hw.1, hne⟩

/-! ### Refreshing -/

section Refreshing

variable {S : Type} {uid : Nat} {m : Mounts} {plan : DesktopPlan S} {c c' : Controller S}

/-- On the way from one plan to the next, everything is still named. -/
structure Changing (layout : Set Place) (uid : Nat) (m : Mounts) (plan : DesktopPlan S)
    (c c' : Controller S) : Prop where
  kept : Kept layout uid m c'.current.bindings c'.mounts
  bridges : c'.current.bridges = c.current.bridges
  rest : c'.current.plan.rest = c.current.plan.rest
  either : ∀ b ∈ c'.current.plan.binds, b ∈ c.current.plan.binds ∨ b ∈ plan.binds

/-- What is not wanted is still to be removed. -/
structure Dropping (layout : Set Place) (uid : Nat) (m : Mounts) (plan : DesktopPlan S)
    (c : Controller S) (todo : List DesktopBind) (c' : Controller S) : Prop
    extends Changing layout uid m plan c c' where
  left : ∀ b ∈ c'.current.plan.binds, b ∈ plan.binds ∨ b ∈ todo

/-- What is there is wanted, and so is what is still to be added. -/
structure Filling (layout : Set Place) (uid : Nat) (m : Mounts) (plan : DesktopPlan S)
    (c : Controller S) (todo : List DesktopBind) (c' : Controller S) : Prop
    extends Changing layout uid m plan c c' where
  wanted : ∀ b ∈ c'.current.plan.binds ++ todo, b ∈ plan.binds

theorem Changing.failed (h : Changing layout uid m plan c c') (hflat : Mounts.Flat layout)
    {destination : Place} {d : Controller S}
    (hd : ∃ mounts, c'.mounts.Failed uid destination mounts ∧ d = c'.withMounts mounts) :
    Changing layout uid m plan c d := by
  obtain ⟨mounts, hm, rfl⟩ := hd
  exact ⟨h.kept.failed hflat hm, h.bridges, h.rest, h.either⟩

theorem mem_bindings {b : DesktopBind} : b ∈ c.current.bindings ↔
    b ∈ c.current.plan.binds ∨ b ∈ c.current.bridgeBinds := List.mem_append

theorem closePortal_keeps (hc : Changing layout uid m plan c c') :
    Meets (fun _ => True) (· = c') closePortal
      (fun _ d => Changing layout uid m plan c d ∧ d.current.plan = c'.current.plan)
      fun _ d => Changing layout uid m plan c d := by
  have hclose : Meets (fun _ => True) (· = c') (performClean DesktopError.osError some)
      (fun _ => (· = c')) (fun _ => Changing layout uid m plan c) := by
    refine Meets.performClean ?_ fun _ h => h ▸ hc
    rintro _ _ rfl hsome
    exact ⟨trivial, (Option.some.inj hsome).symm⟩
  refine Meets.looked ?_
  split
  · refine Meets.bind hclose fun _ => Meets.bind hclose fun _ => Meets.update ?_
    rintro _ rfl
    exact ⟨trivial, ⟨hc.kept, hc.bridges, hc.rest, hc.either⟩, rfl⟩
  · refine Meets.pure ?_
    rintro _ rfl
    exact ⟨hc, rfl⟩

theorem retirePortal_keeps (hflat : Mounts.Flat layout) (hc : Changing layout uid m plan c c') :
    Meets (fun _ => True) (· = c') (retirePortal uid)
      (fun _ d => Changing layout uid m plan c d ∧ d.current.plan = c'.current.plan)
      fun _ d => Changing layout uid m plan c d := by
  refine Meets.bind (closePortal_keeps hc) fun _ => Meets.each fun d ⟨hd, hplan⟩ => Meets.looked ?_
  cases hbinding : d.current.portalBinding with
  | none => exact Meets.pure fun _ h => h ▸ ⟨hd, hplan⟩
  | some binding =>
      refine Meets.bind ((unmountBind_meets uid binding d).raising fun _ _ h =>
        hd.failed hflat h) fun _ => Meets.update ?_
      rintro _ ⟨mounts, hm, rfl⟩
      refine ⟨trivial, ⟨?_, hd.bridges, hd.rest, hd.either⟩, hplan⟩
      refine hd.kept.released hflat hm fun b hb => ?_
      rcases mem_bindings.mp hb with hb | hb
      · exact .inr (mem_bindings.mpr (.inl hb))
      · rw [ActiveDesktop.bridgeBinds, hbinding] at hb
        rcases List.mem_cons.mp hb with rfl | hb
        · exact .inl rfl
        · exact .inr (mem_bindings.mpr (.inr hb))

theorem removeBind_keeps (hflat : Mounts.Flat layout) {binding : DesktopBind}
    {todo : List DesktopBind} :
    Meets (fun _ => True) (Dropping layout uid m plan c (binding :: todo)) (removeBind uid binding)
      (fun _ => Dropping layout uid m plan c todo)
      fun _ => Changing layout uid m plan c := by
  refine Meets.each fun d hd => Meets.bind ((unmountBind_meets uid binding d).raising fun _ _ h =>
    hd.toChanging.failed hflat h) fun _ => Meets.update ?_
  rintro _ ⟨mounts, hm, rfl⟩
  have hmem : ∀ b, b ∈ ((d.withMounts mounts).dropBind binding).current.plan.binds ↔
      b ∈ d.current.plan.binds ∧ b ≠ binding := fun b => mem_dropBind
  refine ⟨trivial, ⟨⟨?_, hd.bridges, hd.rest, ?_⟩, ?_⟩⟩
  · refine hd.kept.released hflat hm fun b hb => ?_
    by_cases heq : b = binding
    · exact .inl (heq ▸ rfl)
    · exact .inr (mem_bindings.mpr ((mem_bindings.mp hb).imp_left fun hb =>
        (hmem b).mpr ⟨hb, heq⟩))
  · exact fun b hb => hd.either b ((hmem b).mp hb).1
  · intro b hb
    obtain ⟨hb, hne⟩ := (hmem b).mp hb
    exact (hd.left b hb).imp_right fun hleft => (List.mem_cons.mp hleft).resolve_left hne

theorem addBind_keeps (hlaid : ∀ b ∈ plan.binds, b.destination ∈ layout) {binding : DesktopBind}
    {todo : List DesktopBind} :
    Meets (fun _ => True) (Filling layout uid m plan c (binding :: todo)) (addBind uid binding)
      (fun _ => Filling layout uid m plan c todo)
      fun _ => Changing layout uid m plan c := by
  refine Meets.each fun d hd => Meets.bind ((mountBind_meets uid binding d).raising fun _ _ h =>
    h ▸ hd.toChanging) fun _ => Meets.update ?_
  rintro _ ⟨-, rfl⟩
  have hwanted : binding ∈ plan.binds :=
    hd.wanted binding (List.mem_append_right _ List.mem_cons_self)
  have hmem : ∀ b,
      b ∈ ((d.withMounts (d.mounts.hold uid binding)).addBind binding).current.plan.binds ↔
        b = binding ∨ b ∈ d.current.plan.binds := fun b => mem_addBind
  refine ⟨trivial, ⟨⟨?_, hd.bridges, hd.rest, ?_⟩, ?_⟩⟩
  · refine (hd.kept.hold (hlaid binding hwanted)).mono fun b hb => ?_
    rcases List.mem_cons.mp hb with rfl | hb
    · exact mem_bindings.mpr (.inl ((hmem b).mpr (.inl rfl)))
    · exact mem_bindings.mpr ((mem_bindings.mp hb).imp_left fun hb => (hmem b).mpr (.inr hb))
  · intro b hb
    rcases (hmem b).mp hb with rfl | hb
    · exact .inr hwanted
    · exact hd.either b hb
  · intro b hb
    rcases List.mem_append.mp hb with hb | hb
    · rcases (hmem b).mp hb with rfl | hb
      · exact hwanted
      · exact hd.wanted b (List.mem_append_left _ hb)
    · exact hd.wanted b (List.mem_append_right _ (List.mem_cons_of_mem _ hb))

theorem refreshSettings_keeps [DecidableEq S] (hflat : Mounts.Flat layout) {home : Place}
    (hlaid : ∀ b ∈ plan.binds, b.destination ∈ layout)
    (hc : Kept layout uid m c.current.bindings c.mounts) :
    Meets (fun _ => True) (· = c) (refreshSettings ⟨uid, home⟩ plan)
      (fun done d => if done then Changing layout uid m plan c d ∧ d.current.plan = plan ∧
        plan.rest = c.current.plan.rest else d = c)
      fun e d => e = .setup ∧ Changing layout uid m plan c d := by
  have hstart : Changing layout uid m plan c c := ⟨hc, rfl, rfl, fun _ hb => .inl hb⟩
  refine Meets.looked ?_
  dsimp only
  split
  · exact Meets.pure fun _ h => h
  next hrest =>
    rw [ne_eq, not_not] at hrest
    split
    · exact Meets.pure fun _ h => h
    · have hmounts : Meets (fun _ => True) (· = c)
          (do
            retirePortal uid
            forEach (removeBind uid) (difference c.current.plan.binds plan.binds)
            forEach (addBind uid) (difference plan.binds c.current.plan.binds))
          (fun _ => Filling layout uid m plan c []) fun _ => Changing layout uid m plan c := by
        refine Meets.bind (retirePortal_keeps hflat hstart) fun _ => ?_
        refine Meets.bind ((Meets.forEach fun _ _ => removeBind_keeps hflat).weaken ?_
          (fun _ _ h => h) fun _ _ h => h) fun _ => ?_
        · rintro d ⟨hd, hplan⟩
          refine ⟨hd, fun b hb => ?_⟩
          rw [hplan] at hb
          by_cases hwanted : b ∈ plan.binds
          · exact .inl hwanted
          · exact .inr (mem_difference.mpr ⟨hb, hwanted⟩)
        · refine (Meets.forEach fun _ _ => addBind_keeps hlaid).weaken ?_ (fun _ _ h => h)
            fun _ _ h => h
          intro d hd
          refine ⟨hd.toChanging, fun b hb => ?_⟩
          rcases List.mem_append.mp hb with hb | hb
          · exact (hd.left b hb).resolve_right List.not_mem_nil
          · exact (mem_difference.mp hb).1
      refine Meets.bind (Meets.tryCatch hmounts fun _ => Meets.throw fun _ h => ⟨rfl, h⟩)
        fun _ => ?_
      refine Meets.bind (Q := fun _ d => Changing layout uid m plan c d ∧
        d.current.plan = plan ∧ plan.rest = c.current.plan.rest) (Meets.update ?_) fun _ =>
          Meets.pure fun _ h => h
      intro d hd
      refine ⟨trivial, ⟨?_, hd.bridges, hrest, fun _ hb => .inr hb⟩, rfl, hrest⟩
      refine hd.kept.mono fun b hb => mem_bindings.mpr ((mem_bindings.mp hb).imp_left fun hb => ?_)
      exact hd.wanted b (List.mem_append_left _ hb)

end Refreshing

/-- A desktop whose settings may have changed, and nothing else of it. -/
structure Refreshed (layout : Set Place) (user : PlannedUser) (before : World)
    (w w' : Work R) : Prop where
  kept : Kept layout user.uid before.mounts w'.current.bindings w'.mounts
  guests : w'.guestSessions = w.guestSessions
  records : w'.records = w.records
  rest : w'.current.plan.rest = w.current.plan.rest
  leased : w'.current.Leased ↔ w.current.Leased
  laid : (∀ b ∈ w.current.plan.binds, b.destination ∈ layout) →
    ∀ b ∈ w'.current.plan.binds, b.destination ∈ layout

theorem Work.controller_bindings (w : Work R) :
    w.controller.current.bindings = w.current.bindings := by
  simp [controller, Login.bindings, ActiveDesktop.bindings, ActiveDesktop.bridgeBinds]

theorem refresh_meets [DecidableEq R] (hflat : Mounts.Flat layout)
    (hlaid : ∀ b ∈ plan.binds, b.destination ∈ layout)
    (hw : Kept layout user.uid before.mounts w.current.bindings w.mounts) :
    Meets (fun _ => True) (· = w) (refresh user plan)
      (fun same w' => Refreshed layout user before w w' ∧
        (same = true → w'.current.plan = plan))
      fun e w' => Refreshed layout user before w w' ∧ e = .desktop .setup := by
  have hsame : Refreshed layout user before w w :=
    ⟨hw, rfl, rfl, rfl, Iff.rfl, fun h => h⟩
  have hchanged : ∀ c, Changing layout user.uid before.mounts plan w.controller c →
      Refreshed layout user before w (w.withController c) := by
    intro c hc
    refine ⟨?_, rfl, rfl, hc.rest, Iff.rfl, fun hplan b hb => ?_⟩
    · refine hc.kept.mono fun b hb => ?_
      rw [ActiveDesktop.bindings, ActiveDesktop.bridgeBinds, hc.bridges] at hb
      simpa [Work.withController, Work.controller, Login.bindings] using hb
    · exact (hc.either b hb).elim (hplan b) (hlaid b)
  refine Meets.looked ?_
  split
  next heq =>
    refine Meets.pure ?_
    rintro _ rfl
    exact ⟨hsame, fun _ => heq⟩
  · have hkept : Kept layout user.uid before.mounts w.controller.current.bindings
        w.controller.mounts := by
      rw [w.controller_bindings]
      exact hw
    refine Meets.within fun s hs => ?_
    rw [hs]
    refine (refreshSettings_keeps hflat hlaid hkept).weaken (fun _ h => h) ?_ ?_
    · intro done c hc
      cases done with
      | true => exact ⟨hchanged c hc.1, fun _ => hc.2.1⟩
      | false =>
          obtain rfl : c = w.controller := hc
          exact ⟨hsame, fun hnot => by cases hnot⟩
    · exact fun e c hc => ⟨hchanged c hc.2, congrArg ControllerError.desktop hc.1⟩

end Work

end Spaces.Desktop
