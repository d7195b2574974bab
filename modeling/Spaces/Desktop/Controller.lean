import Spaces.Desktop.Reconciling

/-!
# The runs of the controller

The worker of a machine takes one turn after another: it reconciles a user's desktop,
repairs the bridges of all, takes a desktop down, or closes them all when it stops. In
each turn any of the steps may fail, and any sockets may have been made.

A turn is tolerated if it comes to its end or raises a `DesktopSetupError`. Over the runs
of such turns nothing is mounted in the machine that no record names.
-/

namespace Spaces.Desktop

open Spaces.Library Routine Spaces.Shortcuts

variable {R : Type}

/-! ## The code -/

section Code

variable [DecidableEq R]

def closeUser (portalsEnabled : Bool) (user : PlannedUser) :
    Routine (Desktops R) ControllerError Unit := do
  let s ← look
  if (s.active user.uid).isSome then deactivate portalsEnabled user
  else if (user.desktop || user.credentialAgents) && user.uid != 0 then
    deactivate portalsEnabled user
  else pure ()

/-- `close`. -/
def closeDesktops (portalsEnabled : Bool) (users : List PlannedUser) :
    Routine (Desktops R) ControllerError Unit :=
  forEach (closeUser portalsEnabled) users

end Code

inductive DesktopOp (R : Type) where
  | reconcile (user : PlannedUser) (snapshot : Snapshot R)
  | deactivate (user : PlannedUser)
  | reconcilePortals (users : List PlannedUser)
  | close (users : List PlannedUser)

/-- An operation, what its steps do, the sockets that its proxies make, and how its
unmounts end in the machine. -/
structure Turn (R : Type) where
  op : DesktopOp R
  faults : List Fault := []
  sockets : List FileId := []
  reports : List Report := []

namespace DesktopOp

def users : DesktopOp R → List Nat
  | reconcile user _ => [user.uid]
  | deactivate user => [user.uid]
  | reconcilePortals users => users.map (·.uid)
  | close users => users.map (·.uid)

/-- What is mounted has its place in the layout. -/
def Fits (layout : Set Place) : DesktopOp R → Prop
  | reconcile user snapshot => HasSockets layout user.uid ∧
      ∀ planned ∈ snapshot.planned, ∀ b ∈ planned.1, b.destination ∈ layout
  | deactivate _ => True
  | reconcilePortals users => ∀ user ∈ users, HasSockets layout user.uid
  | close _ => True

def routine [DecidableEq R] (portalsEnabled : Bool) :
    DesktopOp R → Routine (Desktops R) ControllerError Unit
  | reconcile user snapshot => Desktop.reconcile portalsEnabled user snapshot
  | deactivate user => Desktop.deactivate portalsEnabled user
  | reconcilePortals users => Desktop.reconcilePortals portalsEnabled users
  | close users => closeDesktops portalsEnabled users

end DesktopOp

namespace Desktops

/-- A controller when the machine is up. -/
def initial (R : Type) : Desktops R where
  mounts := {}
  guestSessions := ∅
  records _ := ⟨.inactive, none⟩
  sockets := []
  active _ := none

/-- A turn begins. -/
def given (s : Desktops R) (turn : Turn R) : Desktops R :=
  { s with sockets := turn.sockets, mounts := { s.mounts with reports := turn.reports } }

variable [DecidableEq R]

/-- What a turn comes to, and the state it leaves. -/
def take (portalsEnabled : Bool) (s : Desktops R) (turn : Turn R) :
    Except ControllerError Unit × Desktops R :=
  let result := turn.op.routine portalsEnabled
    { state := s.given turn, faults := turn.faults }
  (result.1, result.2.state)

def next (portalsEnabled : Bool) (s : Desktops R) (turn : Turn R) : Desktops R :=
  (s.take portalsEnabled turn).2

end Desktops

/-- It ends, or raises a `DesktopSetupError`. -/
def tolerated : Except ControllerError Unit → Bool
  | .ok _ => true
  | .error e => e.isSetup

/-- It ends, or the setup of a desktop is refused. -/
def refusedAtMost : Except ControllerError Unit → Bool
  | .ok _ => true
  | .error e => e = .desktop .setup

/-! ## What a turn keeps -/

/-- The records of the desktops name everything that is mounted. -/
structure Named (layout : Set Place) (s : Desktops R) : Prop where
  recorded : s.mounts.Recorded layout
  covered : ∀ uid d, s.mounts.Holds uid d → ∃ b ∈ s.bindings uid, b.destination = d
  laid : ∀ uid plan, s.planOf uid = some plan → ∀ b ∈ plan.binds, b.destination ∈ layout

/-- And the guest's side is told what is recorded. -/
structure Truthful (layout : Set Place) (s : Desktops R) : Prop where
  named : Named layout s
  told : ∀ uid, Told s uid

theorem named_initial (layout : Set Place) : Named layout (Desktops.initial R) where
  recorded := by
    refine ⟨fun _ e => iff_of_false List.not_mem_nil ?_, nofun, nofun, fun _ => List.nodup_nil,
      nofun, nofun⟩
    rintro ⟨hsome, -⟩
    cases hsome
  covered := by
    rintro uid d ⟨users, hsome, -⟩
    cases hsome
  laid := nofun

section Turns

variable {layout : Set Place} {uid : Nat} {user : PlannedUser} {s₀ s s' : Desktops R} {told : Prop}
  {binds : List DesktopBind} {users : List Nat}

theorem Named.exists_bindings (h : Named layout s) (hstrayed : s.mounts.strayed = false)
    {e : Mounted} (he : e ∈ s.mounts.table) :
    ∃ uid, ∃ b ∈ s.bindings uid, b.destination = e.destination := by
  obtain ⟨users, husers⟩ := Option.isSome_iff_exists.mp ((h.recorded.table hstrayed e).mp he).1
  obtain ⟨uid, huid⟩ := h.recorded.used e.destination users husers
  exact ⟨uid, h.covered uid e.destination ⟨users, husers, huid⟩⟩

theorem Named.served (h : Named layout s) (uid : Nat) : Served layout uid s s :=
  ⟨h.recorded, h.covered uid, fun other _ => .refl other s, h.laid uid⟩

/-- The state after some of the turn: everything is named, the guest's side is told what
is so, and the users that the turn is not about have what they had. -/
structure Fine (layout : Set Place) (told : Prop) (users : List Nat) (s₀ s : Desktops R) :
    Prop where
  named : Named layout s
  told : told → ∀ uid, Told s uid
  others : ∀ other, other ∉ users → Unchanged other s₀ s

/-- What an exception leaves of it. -/
structure Mishap (layout : Set Place) (told : Prop) (users : List Nat) (s₀ : Desktops R)
    (e : ControllerError) (s : Desktops R) : Prop where
  recorded : s.mounts.Recorded layout
  named : e.isSetup = true → Named layout s
  told : e = .desktop .setup → told → ∀ uid, Told s uid
  others : ∀ other, other ∉ users → Unchanged other s₀ s

theorem Unchanged.planOf (h : Unchanged uid s s') : s'.planOf uid = s.planOf uid := by
  rw [Desktops.planOf, h.active]
  rfl

theorem Unchanged.bindings (h : Unchanged uid s s') : s'.bindings uid = s.bindings uid := by
  rw [Desktops.bindings, h.active]
  rfl

theorem Unchanged.told_of (h : Unchanged uid s s') (htold : Told s uid) : Told s' uid := by
  rw [Told, h.records, h.planOf]
  exact htold

theorem Served.named (h : Served layout uid s s') (hs : Named layout s) : Named layout s' where
  recorded := h.recorded
  covered other d hd := by
    by_cases hother : other = uid
    · subst hother
      exact h.covered d hd
    · rw [(h.others other hother).bindings]
      exact hs.covered other d (((h.others other hother).holds d).mp hd)
  laid other plan hplan := by
    by_cases hother : other = uid
    · subst hother
      exact h.laid plan hplan
    · rw [(h.others other hother).planOf] at hplan
      exact hs.laid other plan hplan

theorem Confined.others_of_fine (h : Confined layout uid s binds s') (huid : uid ∈ users)
    (hs : Fine layout told users s₀ s) (other : Nat) (hother : other ∉ users) :
    Unchanged other s₀ s' :=
  (hs.others other hother).trans (h.others other fun heq => hother (heq ▸ huid))

theorem Fine.step (hs : Fine layout told users s₀ s) (huid : uid ∈ users)
    (h : Served layout uid s s') (htold : told → Told s' uid) : Fine layout told users s₀ s' where
  named := h.named hs.named
  told ht other := by
    by_cases hother : other = uid
    · exact hother ▸ htold ht
    · exact (h.others other hother).told_of (hs.told ht other)
  others := Confined.others_of_fine h huid hs

/-- An exception that names everything, and is none of a setup. -/
theorem Fine.mishap (hs : Fine layout told users s₀ s) (huid : uid ∈ users)
    (h : Served layout uid s s') {e : ControllerError} (he : e ≠ .desktop .setup) :
    Mishap layout told users s₀ e s' :=
  ⟨h.recorded, fun _ => h.named hs.named, fun heq => (he heq).elim,
    Confined.others_of_fine h huid hs⟩

theorem Fine.standing (hs : Fine layout told users s₀ s) (uid : Nat) :
    Standing layout uid s told (s.planOf uid) True s :=
  ⟨hs.named.served uid, fun ht => hs.told ht uid, rfl, fun _ _ _ => trivial⟩

variable {portalsEnabled : Bool}

theorem reconcile_fine [DecidableEq R] (hflat : Mounts.Flat layout) (huid : user.uid ∈ users)
    (hsockets : HasSockets layout user.uid) {snapshot : Snapshot R}
    (hplanned : ∀ planned ∈ snapshot.planned, ∀ b ∈ planned.1, b.destination ∈ layout) :
    Meets (fun _ => True) (Fine layout told users s₀) (reconcile portalsEnabled user snapshot)
      (fun _ => Fine layout told users s₀) (Mishap layout told users s₀) := by
  refine Meets.each fun s hs => ?_
  have hstart : Served layout user.uid s s ∧ (told → Told s user.uid) :=
    ⟨hs.named.served user.uid, fun ht => hs.told ht user.uid⟩
  refine ((reconcile_meets hflat hsockets portalsEnabled snapshot hplanned).start hstart).weaken
    (fun _ h => h) ?_ ?_
  · exact fun _ s' hs' => hs.step huid hs'.standing.served hs'.standing.told
  · rintro e s' ⟨⟨binds, hleft⟩, hserved, hsettled⟩
    refine ⟨hleft.recorded, fun he => (hserved he).named hs.named, fun he => ?_,
      hleft.others_of_fine huid hs⟩
    obtain ⟨plan, hs'⟩ := hsettled he
    exact (hs.step huid hs'.served hs'.told).told

theorem deactivate_fine (hflat : Mounts.Flat layout) (huid : user.uid ∈ users) :
    Meets (fun _ => True) (Fine layout told users s₀)
      (deactivate portalsEnabled user : Routine (Desktops R) ControllerError Unit)
      (fun _ s => Fine layout told users s₀ s ∧ s.active user.uid = none)
      (Mishap layout told users s₀) := by
  refine Meets.each fun s hs => ?_
  refine ((deactivate_meets hflat portalsEnabled).start (hs.standing user.uid)).weaken
    (fun _ h => h) ?_ ?_
  · rintro _ s' ⟨hs', -⟩
    exact ⟨hs.step huid hs'.served hs'.tell.told, planOf_eq_none.mp hs'.planned⟩
  · rintro e s' ⟨hs', he⟩
    exact hs.mishap huid hs' he

theorem repairActive_fine (hflat : Mounts.Flat layout) (huid : user.uid ∈ users)
    (hsockets : HasSockets layout user.uid) :
    Meets (fun _ => True) (Fine layout told users s₀)
      (repairActive portalsEnabled user : Routine (Desktops R) ControllerError Unit)
      (fun _ => Fine layout told users s₀) (Mishap layout told users s₀) := by
  refine Meets.each fun s hs => Meets.looked ?_
  cases hactive : s.active user.uid with
  | none => exact Meets.pure fun _ h => h ▸ hs
  | some current =>
      have hplan : s.planOf user.uid = some current.plan := by
        rw [Desktops.planOf, hactive]
        rfl
      have hstanding := hs.standing user.uid
      rw [hplan] at hstanding
      refine ((onActive_standing fun _ => repairBridges_meets hflat hsockets
        portalsEnabled).start hstanding).weaken (fun _ h => h) ?_ ?_
      · exact fun _ s' hs' => hs.step huid hs'.served hs'.told
      · exact fun e s' hs' => hs.mishap huid hs'.1.served hs'.2

theorem Fine.refl (hnamed : Named layout s) (htold : told → ∀ uid, Told s uid) :
    Fine layout told users s s :=
  ⟨hnamed, htold, fun other _ => .refl other s⟩

theorem Named.given (h : Named layout s) (turn : Turn R) : Named layout (s.given turn) :=
  ⟨⟨h.recorded.table, h.recorded.known, h.recorded.used, h.recorded.distinct,
    h.recorded.laidOut, h.recorded.placed⟩, h.covered, h.laid⟩

/-- What a turn is given is no part of what is named or told. -/
theorem Fine.begin (hnamed : Named layout s) (htold : told → ∀ uid, Told s uid)
    (turn : Turn R) : Fine layout told users s (s.given turn) :=
  ⟨hnamed.given turn, htold, fun _ _ =>
    ⟨fun _ => Iff.rfl, fun _ _ => rfl, rfl, Iff.rfl, rfl, fun _ he _ => he⟩⟩

/-- Work for some of the users. -/
theorem Fine.trans {some : List Nat} (hs : Fine layout told users s₀ s)
    (hsome : ∀ uid ∈ some, uid ∈ users) (h : Fine layout told some s s') :
    Fine layout told users s₀ s' :=
  ⟨h.named, h.told, fun other hother =>
    (hs.others other hother).trans (h.others other fun hmem => hother (hsome other hmem))⟩

theorem Mishap.of_fine {some : List Nat} (hs : Fine layout told users s₀ s)
    (hsome : ∀ uid ∈ some, uid ∈ users) {e : ControllerError} (h : Mishap layout told some s e s') :
    Mishap layout told users s₀ e s' :=
  ⟨h.recorded, h.named, h.told, fun other hother =>
    (hs.others other hother).trans (h.others other fun hmem => hother (hsome other hmem))⟩

theorem closeUser_fine (hflat : Mounts.Flat layout) (huid : user.uid ∈ users) :
    Meets (fun _ => True) (Fine layout told users s₀)
      (closeUser portalsEnabled user : Routine (Desktops R) ControllerError Unit)
      (fun _ s => Fine layout told users s₀ s ∧ s.active user.uid = none)
      (Mishap layout told users s₀) := by
  refine Meets.each fun s hs => Meets.looked ?_
  split
  · exact (deactivate_fine hflat huid).start hs
  next hnone =>
    split
    · exact (deactivate_fine hflat huid).start hs
    · exact Meets.pure fun _ h => h ▸ ⟨hs, by simpa using hnone⟩

/-- When it is through, none of the users has a desktop. -/
theorem closeDesktops_fine (hflat : Mounts.Flat layout) (all : List PlannedUser) :
    Meets (fun _ => True) (Fine layout told (all.map (·.uid)) s₀)
      (closeDesktops portalsEnabled all : Routine (Desktops R) ControllerError Unit)
      (fun _ s => Fine layout told (all.map (·.uid)) s₀ s ∧
        ∀ user ∈ all, s.active user.uid = none)
      (Mishap layout told (all.map (·.uid)) s₀) := by
  -- What is left to do is the invariant's: each user is still to come or has no desktop.
  have hloop : ∀ todo : List PlannedUser, (∀ user ∈ todo, user ∈ all) →
      Meets (fun _ => True)
        (fun s => Fine layout told (all.map (·.uid)) s₀ s ∧
          ∀ user ∈ all, user ∈ todo ∨ s.active user.uid = none)
        (forEach (closeUser portalsEnabled) todo)
        (fun _ s => Fine layout told (all.map (·.uid)) s₀ s ∧
          ∀ user ∈ all, s.active user.uid = none)
        (Mishap layout told (all.map (·.uid)) s₀) := by
    intro todo
    induction todo with
    | nil => exact fun _ => Meets.pure fun s hs => ⟨hs.1, fun user huser =>
        (hs.2 user huser).resolve_left List.not_mem_nil⟩
    | cons user rest ih =>
        intro htodo
        have huser : ∀ uid ∈ [user.uid], uid ∈ all.map (·.uid) := by
          intro uid huid
          rw [List.mem_singleton.mp huid]
          exact List.mem_map_of_mem (htodo user List.mem_cons_self)
        refine Meets.bind (Meets.each fun s ⟨hs, hdone⟩ => ?_) fun _ =>
          ih fun other hother => htodo other (List.mem_cons_of_mem _ hother)
        have hone : Meets (fun _ => True) (Fine layout told [user.uid] s)
            (closeUser portalsEnabled user) _ _ := closeUser_fine hflat List.mem_cons_self
        refine (hone.start (Fine.refl hs.named hs.told)).weaken (fun _ h => h) ?_
          fun e s' h => h.of_fine hs huser
        rintro _ s' ⟨hs', hnone⟩
        refine ⟨hs.trans huser hs', fun other hother => ?_⟩
        by_cases heq : other.uid = user.uid
        · exact .inr (heq ▸ hnone)
        · rcases hdone other hother with hmem | hinactive
          · refine .inl ((List.mem_cons.mp hmem).resolve_left ?_)
            rintro rfl
            exact heq rfl
          · refine .inr ((hs'.others other.uid ?_).active.trans hinactive)
            exact fun hmem => heq (List.mem_singleton.mp hmem)
  exact (hloop all fun _ h => h).weaken (fun _ hs => ⟨hs, fun _ h => .inl h⟩) (fun _ _ h => h)
    fun _ _ h => h

theorem reconcilePortals_fine (hflat : Mounts.Flat layout) (all : List PlannedUser)
    (hsockets : ∀ user ∈ all, HasSockets layout user.uid) :
    Meets (fun _ => True) (Fine layout told (all.map (·.uid)) s₀)
      (reconcilePortals portalsEnabled all : Routine (Desktops R) ControllerError Unit)
      (fun _ => Fine layout told (all.map (·.uid)) s₀)
      (Mishap layout told (all.map (·.uid)) s₀) := by
  have hloop : ∀ todo : List PlannedUser, (∀ user ∈ todo, user ∈ all) →
      Meets (fun _ => True) (Fine layout told (all.map (·.uid)) s₀)
        (forEach (repairActive portalsEnabled) todo :
          Routine (Desktops R) ControllerError Unit)
        (fun _ => Fine layout told (all.map (·.uid)) s₀)
        (Mishap layout told (all.map (·.uid)) s₀) := by
    intro todo
    induction todo with
    | nil => exact fun _ => Meets.pure fun _ h => h
    | cons user rest ih =>
        intro htodo
        have huser := htodo user List.mem_cons_self
        exact Meets.bind (repairActive_fine hflat (List.mem_map_of_mem huser) (hsockets user huser))
          fun _ => ih fun other hother => htodo other (List.mem_cons_of_mem _ hother)
  refine Meets.bind (Meets.performClean ?_ fun s hs => ?_) fun _ => hloop all fun _ h => h
  · intro s s' hs hsome
    obtain rfl := Option.some.inj hsome
    exact ⟨trivial, hs⟩
  · exact ⟨hs.named.recorded, fun _ => hs.named, fun _ => hs.told, hs.others⟩

theorem routine_fine [DecidableEq R] (hflat : Mounts.Flat layout) {op : DesktopOp R}
    (hfits : op.Fits layout) :
    Meets (fun _ => True) (Fine layout told op.users s₀) (op.routine portalsEnabled)
      (fun _ => Fine layout told op.users s₀) (Mishap layout told op.users s₀) := by
  cases op with
  | reconcile user snapshot => exact reconcile_fine hflat List.mem_cons_self hfits.1 hfits.2
  | deactivate user =>
      exact (deactivate_fine hflat List.mem_cons_self).weaken (fun _ h => h) (fun _ _ h => h.1)
        fun _ _ h => h
  | reconcilePortals users => exact reconcilePortals_fine hflat users hfits
  | close users =>
      exact (closeDesktops_fine hflat users).weaken (fun _ h => h) (fun _ _ h => h.1)
        fun _ _ h => h

end Turns

/-! ## What has been granted -/

/-- The plan allows computer use only as it is granted, and a lease is there only where
the plan allows for one. -/
structure Bound (user : PlannedUser) (granted : Terms R → Prop) (s : Desktops R) : Prop where
  plan : ∀ p ∈ s.planOf user.uid, computerAllowed user p = true → granted p.rest
  lease : ∀ login, s.active user.uid = some login → login.Leased →
    computerAllowed user login.plan = true

/-- What has been decided about the user is kept to. -/
structure Heeded (layout : Set Place) (user : PlannedUser) (granted : Terms R → Prop)
    (s : Desktops R) : Prop where
  named : Named layout s
  bound : Bound user granted s

/-- Nothing is decided about the user. The bridges are repaired for the user there is. -/
def DesktopOp.LeavesTo (user : PlannedUser) : DesktopOp R → Prop
  | reconcile other _ => other.uid ≠ user.uid
  | deactivate other => other.uid ≠ user.uid
  | reconcilePortals users => ∀ other ∈ users, other.uid = user.uid → other = user
  | close users => ∀ other ∈ users, other.uid ≠ user.uid

section Granted

variable {layout : Set Place} {user other : PlannedUser} {s₀ s s' : Desktops R} {told : Prop}
  {users : List Nat} {granted : Terms R → Prop} {portalsEnabled : Bool}

theorem Bound.granted_of_leased (h : Bound user granted s) {login : Login R}
    (hactive : s.active user.uid = some login) (hleased : login.Leased) :
    granted login.plan.rest :=
  h.plan login.plan (by rw [Desktops.planOf, hactive]; rfl) (h.lease login hactive hleased)

theorem Bound.of_unchanged (h : Bound user granted s) (hsame : Unchanged user.uid s s') :
    Bound user granted s' where
  plan p hp := h.plan p (hsame.planOf ▸ hp)
  lease login hlogin := h.lease login (hsame.active ▸ hlogin)

theorem Carried.bound (h : Carried layout user s₀ told granted s) : Bound user granted s where
  plan := h.granted
  lease login hactive hleased := by
    refine h.standing.lease login hactive hleased login.plan ?_
    rw [Desktops.planOf, hactive]
    rfl

theorem Standing.bound {plan : DesktopPlan (Terms R)}
    (h : Standing layout user.uid s₀ told (some plan) (computerAllowed user plan = true) s)
    (hplan : computerAllowed user plan = true → granted plan.rest) : Bound user granted s where
  plan p hp := by
    obtain rfl := Option.some.inj (h.planned.symm.trans hp)
    exact hplan
  lease login hactive hleased := by
    have hlogin : login.plan = plan := by
      have hplanned := h.planned
      rw [Desktops.planOf, hactive] at hplanned
      exact Option.some.inj hplanned
    rw [hlogin]
    exact h.lease login hactive hleased

theorem repairActive_bound (hflat : Mounts.Flat layout) (hsockets : HasSockets layout other.uid)
    (hsame : other.uid = user.uid → other = user) :
    Meets (fun _ => True) (fun s => Fine layout told users s₀ s ∧ Bound user granted s)
      (repairActive portalsEnabled other : Routine (Desktops R) ControllerError Unit)
      (fun _ => Bound user granted) (fun _ => Bound user granted) := by
  refine Meets.each fun s ⟨hs, hbound⟩ => ?_
  by_cases huid : other.uid = user.uid
  · obtain rfl := hsame huid
    refine Meets.looked ?_
    cases hactive : s.active other.uid with
    | none => exact Meets.pure fun _ h => h ▸ hbound
    | some current =>
        have hplan : s.planOf other.uid = some current.plan := by
          rw [Desktops.planOf, hactive]
          rfl
        have hallowed := hbound.plan current.plan hplan
        have hstanding : Standing layout other.uid s told (some current.plan)
            (computerAllowed other current.plan = true) s := by
          refine ⟨hs.named.served _, fun ht => hs.told ht _, hplan, fun login hlogin hleased => ?_⟩
          obtain rfl := Option.some.inj (hactive.symm.trans hlogin)
          exact hbound.lease current hlogin hleased
        refine ((onActive_standing fun _ => repairBridges_meets hflat hsockets
          portalsEnabled).start hstanding).weaken (fun _ h => h) ?_ ?_
        · exact fun _ s' hs' => hs'.bound hallowed
        · exact fun e s' hs' => hs'.1.bound hallowed
  · -- The user is another one, who is left alone.
    have hother : user.uid ∉ [other.uid] := fun hmem => huid (List.mem_singleton.mp hmem).symm
    have hone : Meets (fun _ => True) (Fine layout told [other.uid] s)
        (repairActive portalsEnabled other) _ _ :=
      repairActive_fine hflat List.mem_cons_self hsockets
    refine (hone.start (Fine.refl hs.named hs.told)).weaken (fun _ h => h) ?_ ?_
    · exact fun _ s' hs' => hbound.of_unchanged (hs'.others user.uid hother)
    · exact fun e s' hs' => hbound.of_unchanged (hs'.others user.uid hother)

theorem reconcilePortals_bound (hflat : Mounts.Flat layout) (all : List PlannedUser)
    (hsockets : ∀ other ∈ all, HasSockets layout other.uid)
    (hsame : ∀ other ∈ all, other.uid = user.uid → other = user) :
    Meets (fun _ => True)
      (fun s => Fine layout told (all.map (·.uid)) s₀ s ∧ Bound user granted s)
      (reconcilePortals portalsEnabled all : Routine (Desktops R) ControllerError Unit)
      (fun _ => Bound user granted) (fun _ => Bound user granted) := by
  have hloop : ∀ todo : List PlannedUser, (∀ other ∈ todo, other ∈ all) →
      Meets (fun _ => True)
        (fun s => Fine layout told (all.map (·.uid)) s₀ s ∧ Bound user granted s)
        (forEach (repairActive portalsEnabled) todo :
          Routine (Desktops R) ControllerError Unit)
        (fun _ => Bound user granted) (fun _ => Bound user granted) := by
    intro todo
    induction todo with
    | nil => exact fun _ => Meets.pure fun _ h => h.2
    | cons other rest ih =>
        intro htodo
        have hmem := htodo other List.mem_cons_self
        have hfine : Meets (fun _ => True) (Fine layout told (all.map (·.uid)) s₀)
            (repairActive portalsEnabled other) _ _ :=
          repairActive_fine hflat (List.mem_map_of_mem hmem) (hsockets other hmem)
        refine Meets.bind ((hfine.and (repairActive_bound hflat (hsockets other hmem)
          (hsame other hmem))).weaken (fun _ h => ⟨h.1, h⟩) (fun _ _ h => h) fun _ _ h => h.2)
            fun _ => ih fun next hnext => htodo next (List.mem_cons_of_mem _ hnext)
  refine Meets.bind (Meets.performClean ?_ fun s hs => hs.2) fun _ => hloop all fun _ h => h
  intro s s' hs hsome
  obtain rfl := Option.some.inj hsome
  exact ⟨trivial, hs⟩

end Granted

/-! ## Runs -/

/-- A turn that fits, and is tolerated. -/
def Tolerable [DecidableEq R] (layout : Set Place) (portalsEnabled : Bool) (s : Desktops R)
    (turn : Turn R) : Prop :=
  turn.op.Fits layout ∧ tolerated (s.take portalsEnabled turn).1 = true

/-- A turn that fits, and that at most the setup of a desktop has ended. -/
def Acceptable [DecidableEq R] (layout : Set Place) (portalsEnabled : Bool) (s : Desktops R)
    (turn : Turn R) : Prop :=
  turn.op.Fits layout ∧ refusedAtMost (s.take portalsEnabled turn).1 = true

section Runs

variable [DecidableEq R] {layout : Set Place} {portalsEnabled : Bool} {s : Desktops R}
  {turn : Turn R} {told : Prop}

/-- What a judgement says about a turn. -/
theorem take_meets (portalsEnabled : Bool) (s : Desktops R) (turn : Turn R)
    {post : Unit → Desktops R → Prop} {raised : ControllerError → Desktops R → Prop}
    (hm : Meets (fun _ => True) (· = s.given turn) (turn.op.routine portalsEnabled)
      post raised) :
    match (s.take portalsEnabled turn).1 with
    | .ok a => post a (s.next portalsEnabled turn)
    | .error e => raised e (s.next portalsEnabled turn) := by
  have h := hm { state := s.given turn, faults := turn.faults } nofun rfl
  unfold Desktops.next Desktops.take
  match turn.op.routine portalsEnabled
    { state := s.given turn, faults := turn.faults }, h with
  | (.ok _, _), h => exact h.2
  | (.error _, _), h => exact h.2

theorem turn_fine (portalsEnabled : Bool) (hflat : Mounts.Flat layout) (hfits : turn.op.Fits layout)
    (hnamed : Named layout s) (htold : told → ∀ uid, Told s uid) :
    match (s.take portalsEnabled turn).1 with
    | .ok _ => Fine layout told turn.op.users s (s.next portalsEnabled turn)
    | .error e => Mishap layout told turn.op.users s e (s.next portalsEnabled turn) := by
  exact take_meets portalsEnabled s turn
    ((routine_fine hflat hfits).start (Fine.begin hnamed htold turn))

/-- The users that a turn is not about, whatever it comes to. -/
theorem unchanged_next (portalsEnabled : Bool) (hflat : Mounts.Flat layout)
    (hfits : turn.op.Fits layout) (hnamed : Named layout s) {other : Nat}
    (hother : other ∉ turn.op.users) :
    Unchanged other s (s.next portalsEnabled turn) := by
  have h := turn_fine portalsEnabled hflat hfits hnamed False.elim
  cases hresult : (s.take portalsEnabled turn).1 with
  | ok _ =>
      rw [hresult] at h
      exact h.others other hother
  | error e =>
      rw [hresult] at h
      exact h.others other hother

theorem named_next (hflat : Mounts.Flat layout) (hnamed : Named layout s)
    (hturn : Tolerable layout portalsEnabled s turn) :
    Named layout (s.next portalsEnabled turn) := by
  obtain ⟨hfits, htolerated⟩ := hturn
  have h := turn_fine portalsEnabled hflat hfits hnamed False.elim
  cases hresult : (s.take portalsEnabled turn).1 with
  | ok _ =>
      rw [hresult] at h
      exact h.named
  | error e =>
      rw [hresult] at h htolerated
      exact h.named htolerated

theorem named_of_run (hflat : Mounts.Flat layout)
    (h : Guarded (Desktops.next portalsEnabled) (Tolerable layout portalsEnabled)
      (Desktops.initial R) s) : Named layout s :=
  h.invariant (named_initial layout) fun _ _ hnamed hturn => named_next hflat hnamed hturn

/-! ## A run

A user signs in, and a later plan for the user fails. -/

def agnes : PlannedUser where
  uid := 7
  hostHome := ⟨.single, []⟩
  spaceHome := none
  guestHome := ⟨.single, []⟩
  desktop := true
  accessibility := true
  credentialAgents := false

def display : DesktopBind where
  destination := desktopRoot 7 ++ [fsText "wayland-0".toList]
  source := [fsText "run".toList, fsText "user".toList, fsText "wayland-0".toList]
  device := 1
  inode := 2

/-- The graphical session of the user. -/
def signedIn (planned : Option (List DesktopBind × Unit)) : Snapshot Unit where
  sessionActive := true
  sessions := [{
    sessionId := "c2".toList
    active := true
    remote := false
    sessionType := "wayland".toList
    sessionClass := "user".toList }]
  environment name := if name = "XDG_SESSION_ID" then some (fsText "c2".toList) else none
  planned := planned

def signIn : Turn Unit where
  op := .reconcile agnes (signedIn (some ([display], ())))
  sockets := [(1, 3), (1, 4), (1, 5)]

def planFails : Turn Unit := { op := .reconcile agnes (signedIn none) }

def agnesPlaces : List Place := display.destination :: COMPONENTS.map (socketPlace 7)

theorem flat_agnes : Mounts.Flat {d | d ∈ agnesPlaces} := by
  show ∀ d ∈ agnesPlaces, ∀ d' ∈ agnesPlaces, d <+: d' → d' = d
  decide

theorem hasSockets_agnes : HasSockets {d | d ∈ agnesPlaces} agnes.uid :=
  fun _ hcomponent => List.mem_cons_of_mem _ (List.mem_map_of_mem hcomponent)

theorem fits_signIn : signIn.op.Fits {d | d ∈ agnesPlaces} := by
  refine ⟨hasSockets_agnes, fun planned hplanned b hb => ?_⟩
  obtain rfl := Option.some.inj hplanned
  rw [List.mem_singleton.mp hb]
  exact List.mem_cons_self

theorem fits_planFails : planFails.op.Fits {d | d ∈ agnesPlaces} := ⟨hasSockets_agnes, nofun⟩

/-- The desktop of the user. -/
def agnesUp : Desktops Unit := (Desktops.initial Unit).next true signIn

def agnesGoesOn : Desktops Unit := agnesUp.next true planFails

def closing : Turn Unit := { op := .close [agnes] }

/-- The bridges are repaired. -/
def repairing : Turn Unit := { op := .reconcilePortals [agnes] }

/-- What the turns come to, by evaluation. -/
theorem outcomes_agnes :
    ((Desktops.initial Unit).take true signIn).1 = .ok () ∧
      (agnesUp.take true planFails).1 = .error (.desktop .setup) ∧
      (agnesGoesOn.take true closing).1 = .ok () ∧ (agnesUp.take true repairing).1 = .ok () ∧
      ((agnesUp.next true repairing).active agnes.uid).map (·.computer) = some true := by
  decide +kernel

theorem strayed_closing : (agnesGoesOn.next true closing).mounts.strayed = false := by
  decide +kernel

theorem tolerable_signIn :
    Tolerable {d | d ∈ agnesPlaces} true (Desktops.initial Unit) signIn :=
  ⟨fits_signIn, congrArg tolerated outcomes_agnes.1⟩

theorem named_agnesUp : Named {d | d ∈ agnesPlaces} agnesUp :=
  named_next flat_agnes (named_initial _) tolerable_signIn

theorem tolerable_planFails : Tolerable {d | d ∈ agnesPlaces} true agnesUp planFails :=
  ⟨fits_planFails, congrArg tolerated outcomes_agnes.2.1⟩

theorem run_agnes : Guarded (Desktops.next true) (Tolerable {d | d ∈ agnesPlaces} true)
    (Desktops.initial Unit) agnesGoesOn :=
  .step (.step .start tolerable_signIn) tolerable_planFails

/-- Nobody else has a desktop. -/
theorem active_agnesGoesOn (uid : Nat) (h : (agnesGoesOn.active uid).isSome = true) :
    uid ∈ [agnes].map PlannedUser.uid := by
  by_contra huid
  have hfirst := (unchanged_next true flat_agnes fits_signIn (named_initial _) huid).active
  have hsecond := (unchanged_next true flat_agnes fits_planFails named_agnesUp huid).active
  have hnone : agnesGoesOn.active uid = none := hsecond.trans hfirst
  rw [hnone] at h
  cases h

/-- While nothing worse than a `DesktopSetupError` is raised and every unmount was told
of, everything that is mounted in the machine is named by the record of somebody's
desktop. So a `close` that comes to its end, of all who have a desktop, leaves nothing
mounted. -/
theorem nothing_left_behind (hflat : Mounts.Flat layout)
    (h : Guarded (Desktops.next portalsEnabled) (Tolerable layout portalsEnabled)
      (Desktops.initial R) s) :
    (s.mounts.strayed = false →
        ∀ e ∈ s.mounts.table, ∃ uid, ∃ b ∈ s.bindings uid, b.destination = e.destination) ∧
      ∀ turn users, turn.op = .close users →
        (∀ uid, (s.active uid).isSome = true → uid ∈ users.map PlannedUser.uid) →
        (s.take portalsEnabled turn).1 = .ok () →
        ((s.next portalsEnabled turn).mounts.strayed = false →
          (s.next portalsEnabled turn).mounts.table = []) ∧
          ∀ uid, (s.next portalsEnabled turn).active uid = none := by
  have hnamed := named_of_run hflat h
  refine ⟨fun hstrayed e he => hnamed.exists_bindings hstrayed he,
    fun turn users hop hall hok => ?_⟩
  obtain ⟨op, faults, sockets, reports⟩ := turn
  obtain rfl : op = .close users := hop
  have hclose := take_meets portalsEnabled s ⟨.close users, faults, sockets, reports⟩
    ((closeDesktops_fine hflat users).start (Fine.begin hnamed False.elim _))
  rw [hok] at hclose
  obtain ⟨hfine, hclosed⟩ := hclose
  generalize s.next portalsEnabled ⟨.close users, faults, sockets, reports⟩ = s' at hfine hclosed ⊢
  have hnone : ∀ uid, s'.active uid = none := by
    intro uid
    by_cases huid : uid ∈ users.map PlannedUser.uid
    · obtain ⟨user, huser, rfl⟩ := List.mem_map.mp huid
      exact hclosed user huser
    · rw [(hfine.others uid huid).active]
      cases hactive : s.active uid with
      | none => rfl
      | some login => exact (huid (hall uid (by rw [hactive]; rfl))).elim
  refine ⟨fun hstrayed => List.eq_nil_iff_forall_not_mem.mpr fun e he => ?_, hnone⟩
  obtain ⟨uid, b, hb, -⟩ := hfine.named.exists_bindings hstrayed he
  rw [bindings_of_none (hnone uid)] at hb
  cases hb

theorem nothing_left_behind_agnes : (agnesGoesOn.next true closing).mounts.table = [] :=
  ((nothing_left_behind flat_agnes run_agnes).2 closing [agnes] rfl active_agnesGoesOn
    outcomes_agnes.2.2.1).1 strayed_closing

/-- Whatever a turn comes to, the users that it is not about keep their desktops, their
records, and everything that they have mounted. -/
theorem others_left_alone (hflat : Mounts.Flat layout)
    (h : Guarded (Desktops.next portalsEnabled) (Tolerable layout portalsEnabled)
      (Desktops.initial R) s)
    (hfits : turn.op.Fits layout) {other : Nat} (hother : other ∉ turn.op.users) :
    Unchanged other s (s.next portalsEnabled turn) ∧
      ∀ e ∈ s.mounts.table, s.mounts.Holds other e.destination →
        e ∈ (s.next portalsEnabled turn).mounts.table := by
  have hnamed := named_of_run hflat h
  have hsame := unchanged_next portalsEnabled hflat hfits hnamed hother
  exact ⟨hsame, hsame.mounted⟩

/-- Another user is taken down, and that fails. -/
def stopping : Turn Unit where
  op := .deactivate { agnes with uid := 8 }
  faults := [.before]

theorem fits_stopping : stopping.op.Fits {d | d ∈ agnesPlaces} := trivial

theorem other_stopping : 7 ∉ stopping.op.users := by decide

theorem others_left_alone_agnes : Unchanged 7 agnesGoesOn (agnesGoesOn.next true stopping) :=
  (others_left_alone flat_agnes run_agnes fits_stopping other_stopping).1

theorem truthful_next (hflat : Mounts.Flat layout) (hs : Truthful layout s)
    (hturn : Acceptable layout portalsEnabled s turn) :
    Truthful layout (s.next portalsEnabled turn) := by
  obtain ⟨hfits, haccepted⟩ := hturn
  have h := turn_fine portalsEnabled hflat hfits hs.named fun _ : True => hs.told
  cases hresult : (s.take portalsEnabled turn).1 with
  | ok _ =>
      rw [hresult] at h
      exact ⟨h.named, h.told trivial⟩
  | error e =>
      rw [hresult] at h haccepted
      have he : e = .desktop .setup := of_decide_eq_true haccepted
      exact ⟨h.named (he ▸ rfl), h.told he trivial⟩

/-- The guest's side is told of each desktop that is recorded, in its session, and that
there is none where none is, as long as at most a setup is refused. -/
theorem records_follow_desktops (hflat : Mounts.Flat layout)
    (h : Guarded (Desktops.next portalsEnabled) (Acceptable layout portalsEnabled)
      (Desktops.initial R) s) (uid : Nat) :
    s.records uid = recordOf (s.planOf uid) := by
  have htruthful : Truthful layout s :=
    h.invariant ⟨named_initial layout, fun _ => rfl⟩ fun _ _ => truthful_next hflat
  exact htruthful.told uid

theorem acceptable_signIn :
    Acceptable {d | d ∈ agnesPlaces} true (Desktops.initial Unit) signIn :=
  ⟨fits_signIn, congrArg refusedAtMost outcomes_agnes.1⟩

theorem acceptable_planFails : Acceptable {d | d ∈ agnesPlaces} true agnesUp planFails :=
  ⟨fits_planFails, congrArg refusedAtMost outcomes_agnes.2.1⟩

theorem records_follow_agnes : agnesGoesOn.records 7 = recordOf (agnesGoesOn.planOf 7) :=
  records_follow_desktops flat_agnes
    (.step (.step .start acceptable_signIn) acceptable_planFails) 7

theorem heeded_next (hflat : Mounts.Flat layout) {user : PlannedUser} {granted : Terms R → Prop}
    (hs : Heeded layout user granted s) (hturn : Tolerable layout portalsEnabled s turn)
    (hleaves : turn.op.LeavesTo user) :
    Heeded layout user granted (s.next portalsEnabled turn) := by
  obtain ⟨hnamed, hbound⟩ := hs
  obtain ⟨op, faults, sockets, reports⟩ := turn
  refine ⟨named_next hflat hnamed hturn, ?_⟩
  have hother : user.uid ∉ op.users →
      Bound user granted (s.next portalsEnabled ⟨op, faults, sockets, reports⟩) :=
    fun hnone => hbound.of_unchanged (unchanged_next portalsEnabled hflat hturn.1 hnamed hnone)
  cases op with
  | reconcile other snapshot =>
      exact hother fun hmem => hleaves (List.mem_singleton.mp hmem).symm
  | deactivate other => exact hother fun hmem => hleaves (List.mem_singleton.mp hmem).symm
  | reconcilePortals users =>
      have hrepair := take_meets portalsEnabled s
        ⟨.reconcilePortals users, faults, sockets, reports⟩
        ((reconcilePortals_bound hflat users hturn.1 hleaves).start
          ⟨Fine.begin hnamed False.elim _, hbound.plan, hbound.lease⟩)
      cases hresult :
          (s.take portalsEnabled ⟨.reconcilePortals users, faults, sockets, reports⟩).1 with
      | ok _ =>
          rw [hresult] at hrepair
          exact hrepair
      | error e =>
          rw [hresult] at hrepair
          exact hrepair
  | close users =>
      refine hother fun hmem => ?_
      obtain ⟨other, hmem, heq⟩ := List.mem_map.mp hmem
      exact hleaves other hmem heq

/-- Where a reconciliation ends, or is refused the setup of the desktop, a lease of
computer use is left only if the user has both permissions, and in the session that is
selected. If it ends, that stays so whatever is done until the next decision about the
user. -/
theorem leases_as_granted (hflat : Mounts.Flat layout)
    (h : Guarded (Desktops.next portalsEnabled) (Tolerable layout portalsEnabled)
      (Desktops.initial R) s)
    {user : PlannedUser} {snapshot : Snapshot R} (hop : turn.op = .reconcile user snapshot)
    (hfits : turn.op.Fits layout) :
    (refusedAtMost (s.take portalsEnabled turn).1 = true →
      ∀ login, (s.next portalsEnabled turn).active user.uid = some login → login.Leased →
        Entitled user snapshot login.plan.rest) ∧
      ((s.take portalsEnabled turn).1 = .ok () →
        ∀ s', Guarded (Desktops.next portalsEnabled)
            (fun s turn => Tolerable layout portalsEnabled s turn ∧ turn.op.LeavesTo user)
            (s.next portalsEnabled turn) s' →
          ∀ login, s'.active user.uid = some login → login.Leased →
            Entitled user snapshot login.plan.rest) := by
  have hnamed := named_of_run hflat h
  have htolerable : tolerated (s.take portalsEnabled turn).1 = true →
      Named layout (s.next portalsEnabled turn) :=
    fun htolerated => named_next hflat hnamed ⟨hfits, htolerated⟩
  have hreconcile : match (s.take portalsEnabled turn).1 with
      | .ok _ => Carried layout user (s.given turn) False (Entitled user snapshot)
          (s.next portalsEnabled turn)
      | .error e => Broken layout user.uid (s.given turn) False
          (Entitled user snapshot) e (s.next portalsEnabled turn) := by
    have hstart : Named layout (s.given turn) := hnamed.given turn
    refine take_meets portalsEnabled s turn ?_
    rw [hop] at hfits ⊢
    exact (reconcile_meets hflat hfits.1 portalsEnabled snapshot hfits.2).start
      ⟨hstart.served user.uid, False.elim⟩
  generalize (s.take portalsEnabled turn).1 = result at hreconcile htolerable ⊢
  generalize s.next portalsEnabled turn = s₁ at hreconcile htolerable ⊢
  cases result with
  | ok _ =>
      have hbound : Bound user (Entitled user snapshot) s₁ := hreconcile.bound
      refine ⟨fun _ login hlogin hleased => hbound.granted_of_leased hlogin hleased,
        fun _ s' hlater login hlogin hleased => ?_⟩
      have hheeded : Heeded layout user (Entitled user snapshot) s₁ := ⟨htolerable rfl, hbound⟩
      have hlast := hlater.invariant hheeded fun _ _ ht hturn =>
        heeded_next hflat ht hturn.1 hturn.2
      exact hlast.bound.granted_of_leased hlogin hleased
  | error e =>
      refine ⟨fun hrefused login hlogin hleased => ?_, nofun⟩
      obtain ⟨plan, hstanding⟩ := hreconcile.settled (of_decide_eq_true hrefused)
      refine hstanding.lease login hlogin hleased login.plan ?_
      rw [← hstanding.planned, Desktops.planOf, hlogin]
      rfl

end Runs

theorem tolerable_repairing : Tolerable {d | d ∈ agnesPlaces} true agnesUp repairing :=
  ⟨fun _ hother => List.mem_singleton.mp hother ▸ hasSockets_agnes,
    congrArg tolerated outcomes_agnes.2.2.2.1⟩

theorem leasesTo_repairing : repairing.op.LeavesTo agnes :=
  fun _ hother _ => List.mem_singleton.mp hother

theorem leases_as_granted_agnes : ∃ login,
    (agnesUp.next true repairing).active agnes.uid = some login ∧ login.Leased ∧
      Entitled agnes (signedIn (some ([display], ()))) login.plan.rest := by
  obtain ⟨login, hlogin, hcomputer⟩ := Option.map_eq_some_iff.mp outcomes_agnes.2.2.2.2
  have hop : signIn.op = .reconcile agnes (signedIn (some ([display], ()))) := rfl
  have hlater : Guarded (Desktops.next true)
      (fun s turn => Tolerable {d | d ∈ agnesPlaces} true s turn ∧ turn.op.LeavesTo agnes)
      agnesUp (agnesUp.next true repairing) :=
    .step .start ⟨tolerable_repairing, leasesTo_repairing⟩
  have hgranted := (leases_as_granted flat_agnes .start hop fits_signIn).2 outcomes_agnes.1
  exact ⟨login, hlogin, .inl hcomputer, hgranted _ hlater login hlogin (.inl hcomputer)⟩

end Spaces.Desktop
