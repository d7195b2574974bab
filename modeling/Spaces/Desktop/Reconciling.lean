import Spaces.Desktop.Lifecycle
import Spaces.Library.Runs

/-!
# The desktops of a machine

The worker of a machine reconciles the desktops of its users, again and again, repairs
their bridges and takes them all down in the end. Every operation is about one user at a
time, and any of its steps may fail.

A `DesktopSetupError` is tolerated. As long as nothing else is raised, the records of
the desktops name everything that is mounted in the machine, so that a desktop which has
been taken down leaves nothing behind. What one user's desktop comes to is nothing to the
others. And a lease of computer use outlasts no reconciliation that does not grant it.
-/

namespace Spaces.Desktop

open Spaces.Library Routine Spaces.Shortcuts

variable {R : Type}

/-! ## What there is for one user -/

/-- What is mounted for the user, by the record of the desktop. -/
def Desktops.bindings (s : Desktops R) (uid : Nat) : List DesktopBind :=
  ((s.active uid).map Login.bindings).getD []

def Desktops.planOf (s : Desktops R) (uid : Nat) : Option (DesktopPlan (Terms R)) :=
  (s.active uid).map (·.plan)

/-- What the guest's side is told about the desktop that is recorded. -/
def recordOf (plan : Option (DesktopPlan (Terms R))) : Record :=
  match plan with
  | none => ⟨.inactive, none⟩
  | some plan => ⟨.active, some plan.rest.sessionId⟩

def Told (s : Desktops R) (uid : Nat) : Prop := s.records uid = recordOf (s.planOf uid)

/-- Nothing of the user's is different, and what is mounted is mounted from where it was. -/
structure Unchanged (uid : Nat) (s₀ s : Desktops R) : Prop where
  holds : ∀ d, s.mounts.Holds uid d ↔ s₀.mounts.Holds uid d
  sources : ∀ d, s₀.mounts.Holds uid d →
    s.mounts.destinationSources d = s₀.mounts.destinationSources d
  active : s.active uid = s₀.active uid
  guests : uid ∈ s.guestSessions ↔ uid ∈ s₀.guestSessions
  records : s.records uid = s₀.records uid
  mounted : ∀ e ∈ s₀.mounts.table, s₀.mounts.Holds uid e.destination → e ∈ s.mounts.table

theorem Unchanged.refl (uid : Nat) (s : Desktops R) : Unchanged uid s s :=
  ⟨fun _ => Iff.rfl, fun _ _ => rfl, rfl, Iff.rfl, rfl, fun _ he _ => he⟩

theorem Unchanged.trans {uid : Nat} {s₀ s s' : Desktops R} (h : Unchanged uid s₀ s)
    (h' : Unchanged uid s s') : Unchanged uid s₀ s' where
  holds d := (h'.holds d).trans (h.holds d)
  sources d hd := (h'.sources d ((h.holds d).mpr hd)).trans (h.sources d hd)
  active := h'.active.trans h.active
  guests := h'.guests.trans h.guests
  records := h'.records.trans h.records
  mounted e he hd := h'.mounted e (h.mounted e he hd) ((h.holds _).mpr hd)

/-- After some of the work for one user, the binds are all that the user has, and
nothing of the others is different. -/
structure Confined (layout : Set Place) (uid : Nat) (s₀ : Desktops R) (binds : List DesktopBind)
    (s : Desktops R) : Prop where
  recorded : s.mounts.Recorded layout
  covered : ∀ d, s.mounts.Holds uid d → ∃ b ∈ binds, b.destination = d
  others : ∀ other, other ≠ uid → Unchanged other s₀ s
  laid : ∀ plan, s.planOf uid = some plan → ∀ b ∈ plan.binds, b.destination ∈ layout

/-- The record of the user's desktop names all that the user has. -/
def Served (layout : Set Place) (uid : Nat) (s₀ s : Desktops R) : Prop :=
  Confined layout uid s₀ (s.bindings uid) s

/-- The desktop is recorded with this plan, and has a lease only if `leased` holds. If
`told` does, the guest's side is told so. -/
structure Standing (layout : Set Place) (uid : Nat) (s₀ : Desktops R) (told : Prop)
    (plan : Option (DesktopPlan (Terms R))) (leased : Prop) (s : Desktops R) : Prop where
  served : Served layout uid s₀ s
  told : told → Told s uid
  planned : s.planOf uid = plan
  lease : ∀ login, s.active uid = some login → login.Leased → leased

/-- The user has nothing, and no desktop. -/
structure Gone (layout : Set Place) (uid : Nat) (s₀ s : Desktops R) : Prop where
  confined : Confined layout uid s₀ [] s
  active : s.active uid = none

section Specs

variable {layout : Set Place} {user : PlannedUser} {uid : Nat} {s₀ s s' : Desktops R}
  {told told' leased leased' : Prop} {plan : DesktopPlan (Terms R)}
  {binds binds' : List DesktopBind}

theorem planOf_eq_none : s.planOf uid = none ↔ s.active uid = none := Option.map_eq_none_iff

theorem bindings_of_none (h : s.active uid = none) : s.bindings uid = [] := by
  rw [Desktops.bindings, h]
  rfl

theorem bindings_of_some {login : Login R} (h : s.active uid = some login) :
    s.bindings uid = login.bindings := by
  rw [Desktops.bindings, h]
  rfl

namespace Confined

theorem mono (h : Confined layout uid s₀ binds s) (hbinds : ∀ b ∈ binds, b ∈ binds') :
    Confined layout uid s₀ binds' s where
  recorded := h.recorded
  covered d hd := by
    obtain ⟨b, hb, heq⟩ := h.covered d hd
    exact ⟨b, hbinds b hb, heq⟩
  others := h.others
  laid := h.laid

/-- Other work for the same user, on the world and on the user's record. -/
theorem step (h : Confined layout uid s₀ binds s)
    (hkept : Kept layout uid s.mounts binds' s'.mounts)
    (hguests : ∀ other, other ≠ uid → (other ∈ s'.guestSessions ↔ other ∈ s.guestSessions))
    (hrecords : ∀ other, other ≠ uid → s'.records other = s.records other)
    (hactive : ∀ other, other ≠ uid → s'.active other = s.active other)
    (hlaid : ∀ plan, s'.planOf uid = some plan → ∀ b ∈ plan.binds, b.destination ∈ layout) :
    Confined layout uid s₀ binds' s' where
  recorded := hkept.recorded
  covered := hkept.covered
  others other hne := (h.others other hne).trans ⟨hkept.others other hne,
    hkept.sources other hne, hactive other hne, hguests other hne, hrecords other hne,
    hkept.mounted other hne⟩
  laid := hlaid

theorem kept (h : Confined layout uid s₀ binds s) : Kept layout uid s.mounts binds s.mounts :=
  ⟨h.recorded, h.covered, fun _ _ _ => Iff.rfl, fun _ _ _ _ => rfl, fun _ _ _ he _ => he⟩

/-- The record on the guest's side is no matter to what is mounted. -/
theorem write (h : Confined layout uid s₀ binds s) (record : Record) :
    Confined layout uid s₀ binds { s with toWorld := s.toWorld.write uid record } :=
  h.step h.kept (fun _ _ => Iff.rfl) (fun _ hne => Function.update_of_ne hne _ _)
    (fun _ _ => rfl) h.laid

end Confined

theorem Gone.served (h : Gone layout uid s₀ s) : Served layout uid s₀ s := by
  rw [Served, bindings_of_none h.active]
  exact h.confined

theorem Served.gone (h : Served layout uid s₀ s) (hactive : s.active uid = none) :
    Gone layout uid s₀ s := by
  rw [Served, bindings_of_none hactive] at h
  exact ⟨h, hactive⟩

theorem Gone.write (h : Gone layout uid s₀ s) (record : Record) :
    Gone layout uid s₀ { s with toWorld := s.toWorld.write uid record } :=
  ⟨h.confined.write record, h.active⟩

/-! ### The record on the guest's side -/

/-- What is written, or not, by either outcome. -/
theorem setStatus_exact (uid : Nat) (state : Status) (sessionId : Option Text) (s : Desktops R) :
    Meets (fun _ => True) (· = s) (setStatus uid state sessionId)
      (fun _ s' => ∃ record, s' = { s with toWorld := s.toWorld.write uid record } ∧
        record.state = state ∧
          (state = .inactive ∨ sessionId.isSome → record.sessionId = sessionId))
      (fun e s' => e = .desktop .osError ∧
        (s' = s ∨ ∃ record, s' = { s with toWorld := s.toWorld.write uid record })) := by
  refine Meets.perform ?_ ?_
  · rintro _ _ rfl hsome
    obtain rfl := Option.some.inj hsome
    refine ⟨trivial, ⟨_, rfl, rfl, fun hgiven => ?_⟩, rfl, .inr ⟨_, rfl⟩⟩
    dsimp only
    rcases hgiven with hinactive | hgiven
    · rw [if_pos hinactive, Option.or_none]
    · obtain ⟨id, rfl⟩ := Option.isSome_iff_exists.mp hgiven
      rfl
  · rintro _ rfl
    exact ⟨rfl, .inl rfl⟩

theorem recordOf_given (plan : Option (DesktopPlan (Terms R))) :
    (recordOf plan).state = .inactive ∨ (recordOf plan).sessionId.isSome := by
  cases plan with
  | none => exact .inl rfl
  | some plan => exact .inr rfl

theorem setStatus_told {plan : Option (DesktopPlan (Terms R))} {record : Record}
    (hrecord : record = recordOf plan) :
    Meets (fun _ => True) (Standing layout uid s₀ told plan leased)
      (setStatus uid record.state record.sessionId)
      (fun _ => Standing layout uid s₀ True plan leased)
      (fun e s => Served layout uid s₀ s ∧ e = .desktop .osError) := by
  refine Meets.each fun s hs =>
    (setStatus_exact uid record.state record.sessionId s).weaken (fun _ h => h) ?_ ?_
  · rintro _ _ ⟨written, rfl, hstate, hsession⟩
    have hwritten : written = recordOf plan := by
      subst hrecord
      have hid := hsession (recordOf_given plan)
      cases written
      exact congrArg₂ Record.mk hstate hid
    refine ⟨hs.served.write written, fun _ => ?_, hs.planned, hs.lease⟩
    show Function.update s.records uid written uid = recordOf (s.planOf uid)
    rw [Function.update_self, hs.planned, hwritten]
  · rintro _ _ ⟨rfl, rfl | ⟨written, rfl⟩⟩
    · exact ⟨hs.served, rfl⟩
    · exact ⟨hs.served.write written, rfl⟩

theorem setPending_standing {plan : Option (DesktopPlan (Terms R))} :
    Meets (fun _ => True) (Standing layout uid s₀ told plan leased) (setStatus uid .pending none)
      (fun _ => Standing layout uid s₀ False plan leased)
      (fun e s => Served layout uid s₀ s ∧ e = .desktop .osError) := by
  refine Meets.each fun s hs =>
    (setStatus_exact uid .pending none s).weaken (fun _ h => h) ?_ ?_
  · rintro _ _ ⟨written, rfl, -⟩
    exact ⟨hs.served.write written, False.elim, hs.planned, hs.lease⟩
  · rintro _ _ ⟨rfl, rfl | ⟨written, rfl⟩⟩
    · exact ⟨hs.served, rfl⟩
    · exact ⟨hs.served.write written, rfl⟩

/-- What could not be taken off is left as it is. -/
theorem setStatus_left (uid : Nat) (state : Status) (sessionId : Option Text) :
    Meets (fun _ => True) (fun s => ∃ binds, Confined layout uid s₀ binds s)
      (setStatus uid state sessionId) (fun _ s => ∃ binds, Confined layout uid s₀ binds s)
      (fun e s => (∃ binds, Confined layout uid s₀ binds s) ∧ e = .desktop .osError) := by
  refine Meets.each ?_
  rintro s ⟨binds, hs⟩
  refine (setStatus_exact uid state sessionId s).weaken (fun _ h => h) ?_ ?_
  · rintro _ _ ⟨record, rfl, -⟩
    exact ⟨binds, hs.write record⟩
  · rintro _ _ ⟨rfl, rfl | ⟨record, rfl⟩⟩
    · exact ⟨⟨binds, hs⟩, rfl⟩
    · exact ⟨⟨binds, hs.write record⟩, rfl⟩

/-! ### Work on an active desktop -/

def Desktops.work (s : Desktops R) (login : Login R) : Work R :=
  { toWorld := s.toWorld, current := login }

def Desktops.withWork (s : Desktops R) (uid : Nat) (w : Work R) : Desktops R :=
  { toWorld := w.toWorld, active := Function.update s.active uid (some w.current) }

theorem withWork_active (s : Desktops R) (uid : Nat) (w : Work R) :
    (s.withWork uid w).active uid = some w.current := Function.update_self _ _ _

theorem withWork_planOf (s : Desktops R) (uid : Nat) (w : Work R) :
    (s.withWork uid w).planOf uid = some w.current.plan := by
  rw [Desktops.planOf, withWork_active]
  rfl

theorem onActive_meets {α : Type} {m : Routine (Work R) ControllerError α} {current login : Login R}
    (hactive : s.active uid = some login) {Q : α → Work R → Prop}
    {E : ControllerError → Work R → Prop}
    (hm : Meets (fun _ => True) (· = s.work login) m Q E) :
    Meets (fun _ => True) (· = s) (onActive uid current m)
      (fun a s' => ∃ w, Q a w ∧ s' = s.withWork uid w)
      (fun e s' => ∃ w, E e w ∧ s' = s.withWork uid w) := by
  refine Meets.within ?_
  rintro _ rfl
  refine hm.weaken ?_ (fun _ w hw => ⟨w, hw, rfl⟩) fun _ w hw => ⟨w, hw, rfl⟩
  rintro _ rfl
  rw [hactive]
  rfl

/-- What the record names before and after, while nothing else has changed. -/
theorem Confined.work (h : Confined layout uid s₀ binds s) {w : Work R}
    (hkept : Kept layout uid s.mounts w.current.bindings w.mounts)
    (hguests : ∀ other, other ≠ uid → (other ∈ w.guestSessions ↔ other ∈ s.guestSessions))
    (hrecords : ∀ other, other ≠ uid → w.records other = s.records other)
    (hlaid : ∀ b ∈ w.current.plan.binds, b.destination ∈ layout) :
    Served layout uid s₀ (s.withWork uid w) := by
  rw [Served, bindings_of_some (withWork_active s uid w)]
  refine h.step hkept hguests hrecords (fun _ hne => Function.update_of_ne hne _ _) ?_
  intro plan hplan
  rw [withWork_planOf] at hplan
  obtain rfl := Option.some.inj hplan
  exact hlaid

theorem Tended.records_other {w : Work R} {before : World}
    (h : Tended layout user before plan leased [] w) (other : Nat) (hne : other ≠ user.uid) :
    w.records other = before.records other := by
  rcases h.record with hsame | hactive
  · rw [hsame]
  · rw [hactive, Function.update_of_ne hne]

theorem Standing.tended (h : Standing layout user.uid s₀ told (some plan) leased s)
    {login : Login R} (hactive : s.active user.uid = some login) :
    Tended layout user s.toWorld plan leased [] (s.work login) where
  kept := by
    have hserved := h.served
    rw [Served, bindings_of_some hactive] at hserved
    exact hserved.kept
  planned := by
    have hplan := h.planned
    rw [Desktops.planOf, hactive] at hplan
    exact Option.some.inj hplan
  guests _ _ := Iff.rfl
  record := .inl rfl
  lease := h.lease login hactive

theorem Standing.laid (h : Standing layout uid s₀ told (some plan) leased s) :
    ∀ b ∈ plan.binds, b.destination ∈ layout := h.served.laid plan h.planned

theorem Tended.standing {w : Work R} (h : Standing layout user.uid s₀ told (some plan) leased s)
    (hw : Tended layout user s.toWorld plan leased' [] w) :
    Standing layout user.uid s₀ told (some plan) leased' (s.withWork user.uid w) where
  served := by
    refine h.served.work hw.kept hw.guests (Tended.records_other hw) ?_
    rw [hw.planned]
    exact h.laid
  told htold := by
    have hrecord := h.told htold
    rw [Told, h.planned] at hrecord
    rw [Told, withWork_planOf, hw.planned]
    rcases hw.record with hsame | hactive
    · exact (congrFun hsame user.uid).trans hrecord
    · exact (congrFun hactive user.uid).trans (Function.update_self _ _ _)
  planned := by rw [withWork_planOf, hw.planned]
  lease login hlogin := by
    rw [withWork_active] at hlogin
    obtain rfl := Option.some.inj hlogin
    exact hw.lease

/-- Work that keeps the record of the desktop. What it does to the lease is its own. -/
theorem onActive_standing {m : Routine (Work R) ControllerError Unit} {current : Login R}
    (hm : ∀ before, Meets (fun _ => True) (Tended layout user before plan leased []) m
      (fun _ => Tended layout user before plan leased' [])
      fun e w => Tended layout user before plan leased [] w ∧ e ≠ .desktop .setup) :
    Meets (fun _ => True) (Standing layout user.uid s₀ told (some plan) leased)
      (onActive user.uid current m)
      (fun _ => Standing layout user.uid s₀ told (some plan) leased')
      fun e s => Standing layout user.uid s₀ told (some plan) leased s ∧ e ≠ .desktop .setup := by
  refine Meets.each fun s hs => ?_
  obtain ⟨login, hactive, -⟩ := Option.map_eq_some_iff.mp hs.planned
  refine (onActive_meets hactive ((hm s.toWorld).weaken ?_ (fun _ _ h => h)
    fun _ _ h => h)).weaken (fun _ h => h) ?_ ?_
  · rintro _ rfl
    exact hs.tended hactive
  · rintro _ _ ⟨w, hw, rfl⟩
    exact Tended.standing hs hw
  · rintro e _ ⟨w, hw, rfl⟩
    exact ⟨Tended.standing hs hw.1, hw.2⟩

theorem Standing.allow {plan : Option (DesktopPlan (Terms R))}
    (h : Standing layout uid s₀ told plan leased s) (himp : leased → leased') :
    Standing layout uid s₀ told plan leased' s :=
  { h with lease := fun login hlogin hleased => himp (h.lease login hlogin hleased) }

theorem Refreshed.standing {login : Login R} {w : Work R}
    (h : Standing layout user.uid s₀ told (some plan) leased s)
    (hactive : s.active user.uid = some login)
    (hw : Refreshed layout user s.toWorld (s.work login) w) :
    w.current.plan.rest = plan.rest ∧
      Standing layout user.uid s₀ told (some w.current.plan) leased (s.withWork user.uid w) := by
  have hplan : login.plan = plan := (h.tended hactive).planned
  have hrest : w.current.plan.rest = plan.rest := hw.rest.trans (congrArg DesktopPlan.rest hplan)
  refine ⟨hrest, ?_, fun htold => ?_, withWork_planOf s user.uid w, ?_⟩
  · refine h.served.work hw.kept (fun other _ => ?_) (fun other _ => ?_) (hw.laid ?_)
    · exact iff_of_eq (congrArg (other ∈ ·) hw.guests)
    · exact congrFun hw.records other
    · intro b hb
      exact h.laid b (hplan ▸ hb)
  · have hrecord := h.told htold
    rw [Told, h.planned] at hrecord
    rw [Told, withWork_planOf]
    show w.records user.uid = ⟨.active, some w.current.plan.rest.sessionId⟩
    rw [hrest, hw.records]
    exact hrecord
  · intro login' hlogin' hleased
    rw [withWork_active] at hlogin'
    obtain rfl := Option.some.inj hlogin'
    exact h.lease login hactive (hw.leased.mp hleased)

/-- Whatever it comes to, the terms of the plan are the same. -/
theorem onActive_refresh [DecidableEq R] (hflat : Mounts.Flat layout)
    {wanted : DesktopPlan (Terms R)} (hlaid : ∀ b ∈ wanted.binds, b.destination ∈ layout)
    {current : Login R} :
    Meets (fun _ => True) (Standing layout user.uid s₀ told (some plan) leased)
      (onActive user.uid current (refresh user wanted))
      (fun same s => ∃ plan', plan'.rest = plan.rest ∧
        Standing layout user.uid s₀ told (some plan') leased s ∧ (same = true → plan' = wanted))
      (fun e s => e = .desktop .setup ∧ ∃ plan', plan'.rest = plan.rest ∧
        Standing layout user.uid s₀ told (some plan') leased s) := by
  refine Meets.each fun s hs => ?_
  obtain ⟨login, hactive, -⟩ := Option.map_eq_some_iff.mp hs.planned
  have hkept : Kept layout user.uid s.mounts (s.work login).current.bindings
      (s.work login).mounts := (hs.tended hactive).kept
  refine (onActive_meets hactive (refresh_meets hflat hlaid hkept)).weaken (fun _ h => h) ?_ ?_
  · rintro same _ ⟨w, ⟨hw, hplan⟩, rfl⟩
    obtain ⟨hrest, hstanding⟩ := hw.standing hs hactive
    exact ⟨w.current.plan, hrest, hstanding, hplan⟩
  · rintro e _ ⟨w, ⟨hw, he⟩, rfl⟩
    obtain ⟨hrest, hstanding⟩ := hw.standing hs hactive
    exact ⟨he, w.current.plan, hrest, hstanding⟩

/-- What is not granted any more, or belongs to another login, has no lease. -/
theorem revokeStale_meets (hflat : Mounts.Flat layout) (snapshot : Snapshot R)
    {previous : Option (Login R)} :
    Meets (fun _ => True)
      (Standing layout user.uid s₀ told (previous.map (·.plan)) leased)
      (revokeStale user snapshot previous)
      (fun _ => Standing layout user.uid s₀ told (previous.map (·.plan))
        (user.desktop = true ∧ user.accessibility = true ∧
          ∀ plan ∈ previous.map (·.plan), snapshot.selected user = some plan.rest.sessionId))
      fun e s => Standing layout user.uid s₀ told (previous.map (·.plan)) leased s ∧
        e ≠ .desktop .setup := by
  have hcommand : ∀ {P Q : Desktops R → Prop}, (∀ s, P s → Q s) →
      Meets (fun _ => True) P (command : Routine (Desktops R) ControllerError Unit)
        (fun _ => P) fun e s => Q s ∧ e ≠ .desktop .setup := by
    intro P Q hPQ
    refine Meets.performClean ?_ fun s hs => ⟨hPQ s hs, nofun⟩
    intro s s' hs hsome
    obtain rfl := Option.some.inj hsome
    exact ⟨trivial, hs⟩
  cases previous with
  | none =>
      refine (hcommand fun _ h => h).weaken (fun _ h => h) (fun _ s hs => ?_) fun _ _ h => h
      refine { hs with lease := fun login hlogin _ => ?_ }
      have hnone := planOf_eq_none.mp hs.planned
      rw [hnone] at hlogin
      cases hlogin
  | some current =>
      have hcomputer : ∀ leased' : Prop, (leased' → leased) →
          Meets (fun _ => True)
            (Standing layout user.uid s₀ told (some current.plan) leased')
            (onActive user.uid current (revokeComputer user))
            (fun _ => Standing layout user.uid s₀ told (some current.plan) False)
            fun e s => Standing layout user.uid s₀ told (some current.plan) leased s ∧
              e ≠ .desktop .setup :=
        fun leased' himp => (onActive_standing fun _ => revokeComputer_meets hflat).raising
          fun _ _ h => ⟨h.1.allow himp, h.2⟩
      have haccessibility : ∀ leased' : Prop, (leased' → leased) →
          Meets (fun _ => True)
            (Standing layout user.uid s₀ told (some current.plan) leased')
            (onActive user.uid current (revokeAccessibility user))
            (fun _ => Standing layout user.uid s₀ told (some current.plan) leased')
            fun e s => Standing layout user.uid s₀ told (some current.plan) leased s ∧
              e ≠ .desktop .setup :=
        fun leased' himp => (onActive_standing fun _ => (revokeAccessibility_meets hflat).weaken
          (fun _ h => h) (fun _ _ h => h.1) fun _ _ h => h).raising
            fun _ _ h => ⟨h.1.allow himp, h.2⟩
      -- The lease is given back unless the user has both permissions.
      refine Meets.bind (Q := fun _ => Standing layout user.uid s₀ told (some current.plan)
        (leased ∧ user.desktop = true ∧ user.accessibility = true)) (Meets.whenever
          (fun _ => (hcomputer leased fun h => h).weaken (fun _ h => h)
            (fun _ _ h => h.allow False.elim) fun _ _ h => h)
          fun hgranted s hs => hs.allow fun h => ⟨h, ?_⟩) fun _ => ?_
      · simpa using hgranted
      refine Meets.bind (Meets.whenever (fun _ => haccessibility _ And.left)
        fun _ _ h => h) fun _ => ?_
      refine Meets.bind (hcommand fun _ h => h.allow And.left) fun _ => ?_
      -- It is given back as well if another login is selected, or none.
      refine Meets.whenever (fun _ => ?_) fun hselected s hs => hs.allow fun h => ⟨h.2.1, h.2.2, ?_⟩
      · exact Meets.bind (hcomputer _ And.left) fun _ =>
          (haccessibility False False.elim).weaken (fun _ h => h)
            (fun _ _ h => h.allow False.elim) fun _ _ h => h
      · rintro plan hplan
        obtain rfl := Option.some.inj hplan
        simpa using hselected

/-! ### Taking a desktop down -/

theorem deactivateLogin_meets (hflat : Mounts.Flat layout) (portalsEnabled : Bool)
    {current : Login R} :
    Meets (fun _ => True) (Standing layout user.uid s₀ told (some plan) leased)
      (deactivateLogin portalsEnabled user current)
      (fun _ => Gone layout user.uid s₀)
      fun e s => Served layout user.uid s₀ s ∧ e ≠ .desktop .setup := by
  refine Meets.each fun s hs => ?_
  obtain ⟨login, hactive, -⟩ := Option.map_eq_some_iff.mp hs.planned
  have hwork : Meets (fun _ => True) (· = s.work login) (deactivateWork portalsEnabled user)
      (fun _ w => Handled layout user s.toWorld plan [] w.toWorld)
      fun e w => Tended layout user s.toWorld plan leased [] w ∧ e ≠ .desktop .setup := by
    refine (deactivateWork_meets hflat portalsEnabled).weaken ?_ (fun _ _ h => h) fun _ _ h => h
    rintro _ rfl
    exact hs.tended hactive
  refine Meets.bind ((onActive_meets hactive hwork).raising ?_)
    fun _ => Meets.update ?_
  · rintro e _ ⟨w, hw, rfl⟩
    exact ⟨(Tended.standing hs hw.1).served, hw.2⟩
  · rintro _ ⟨w, hw, rfl⟩
    have hnone : ((s.withWork user.uid w).withActive user.uid none).active user.uid = none :=
      Function.update_self _ _ _
    refine ⟨trivial, hs.served.step hw.kept hw.guests (fun other hne => ?_) ?_ ?_, hnone⟩
    · rcases hw.record with hsame | hrecord
      · exact congrFun hsame other
      · exact (congrFun hrecord other).trans (Function.update_of_ne hne _ _)
    · intro other hne
      exact (Function.update_of_ne hne _ _).trans (Function.update_of_ne hne _ _)
    · intro plan hplan
      rw [planOf_eq_none.mpr hnone] at hplan
      cases hplan

theorem Standing.of_none {told' : Prop}
    (h : Standing layout uid s₀ told (none : Option (DesktopPlan (Terms R))) leased s)
    (htold : told' → Told s uid) : Standing layout uid s₀ told' none leased' s where
  served := h.served
  told := htold
  planned := h.planned
  lease login hlogin := by
    rw [planOf_eq_none.mp h.planned] at hlogin
    cases hlogin

theorem Gone.standing (h : Gone layout uid s₀ s) :
    Standing layout uid s₀ False none leased s where
  served := h.served
  told := False.elim
  planned := planOf_eq_none.mpr h.active
  lease login hlogin := by
    rw [h.active] at hlogin
    cases hlogin

theorem setInactive_meets :
    Meets (fun _ => True) (Gone layout uid s₀) (setStatus uid .inactive none)
      (fun _ => Standing layout uid s₀ True (none : Option (DesktopPlan (Terms R))) leased)
      fun e s => Served layout uid s₀ s ∧ e = .desktop .osError := by
  have hrecord : (⟨.inactive, none⟩ : Record) = recordOf (none : Option (DesktopPlan (Terms R))) :=
    rfl
  exact (setStatus_told hrecord).weaken (fun _ h => h.standing) (fun _ _ h => h) fun _ _ h => h

/-- The record is the user's own, and of no concern to the guest's session. -/
theorem stopGuestSession_meets {plan : Option (DesktopPlan (Terms R))} :
    Meets (fun _ => True) (Standing layout user.uid s₀ told plan leased) (stopGuestSession user)
      (fun _ s => Standing layout user.uid s₀ told plan leased s ∧ user.uid ∉ s.guestSessions)
      fun e s => Served layout user.uid s₀ s ∧ e ≠ .desktop .setup := by
  refine Meets.each fun s hs => Meets.looked ?_
  refine Meets.whenever (fun _ => ?_) fun hnone s' hs' => ?_
  · refine Meets.bind (Q := fun _ s' => s' = s) (Meets.performClean ?_ fun _ h => ?_) fun _ =>
      Meets.update ?_
    · rintro _ _ rfl hsome
      exact ⟨trivial, (Option.some.inj hsome).symm⟩
    · exact h ▸ ⟨hs.served, nofun⟩
    · rintro _ rfl
      refine ⟨trivial, ⟨hs.served.step hs.served.kept (fun other hne => ?_) (fun _ _ => rfl)
        (fun _ _ => rfl) hs.served.laid, hs.told, hs.planned, hs.lease⟩, Finset.notMem_erase _ _⟩
      exact Finset.mem_erase.trans (and_iff_right hne)
  · rw [hs']
    exact ⟨hs, by simpa using hnone⟩

/-- Nothing of the user's is left, or the record still names what is. -/
theorem deactivate_meets (hflat : Mounts.Flat layout) (portalsEnabled : Bool)
    {plan : Option (DesktopPlan (Terms R))} :
    Meets (fun _ => True) (Standing layout user.uid s₀ told plan leased)
      (deactivate portalsEnabled user)
      (fun _ s => Standing layout user.uid s₀ True none False s ∧ user.uid ∉ s.guestSessions)
      fun e s => Served layout user.uid s₀ s ∧ e ≠ .desktop .setup := by
  have hstop : ∀ told : Prop, Meets (fun _ => True)
      (Standing layout user.uid s₀ told (none : Option (DesktopPlan (Terms R))) False)
      (do stopGuestSession user; setStatus user.uid .inactive none)
      (fun _ s => Standing layout user.uid s₀ True none False s ∧ user.uid ∉ s.guestSessions)
      fun e s => Served layout user.uid s₀ s ∧ e ≠ .desktop .setup := by
    intro told
    refine Meets.bind stopGuestSession_meets fun _ => Meets.each fun s ⟨hs, hguest⟩ => ?_
    have hgone : Gone layout user.uid s₀ s := hs.served.gone (planOf_eq_none.mp hs.planned)
    refine (setStatus_exact user.uid .inactive none s).weaken (fun _ h => h) ?_ ?_
    · rintro _ _ ⟨record, rfl, hstate, hsession⟩
      have hstanding : Standing layout user.uid s₀ False none False _ :=
        (hgone.write record).standing
      refine ⟨hstanding.of_none fun _ => ?_, hguest⟩
      have hwritten : record = ⟨.inactive, none⟩ := by
        have hid := hsession (.inl rfl)
        cases record
        exact congrArg₂ Record.mk hstate hid
      show Function.update s.records user.uid record user.uid = recordOf (s.planOf user.uid)
      rw [Function.update_self, hs.planned, hwritten]
      rfl
    · rintro _ _ ⟨rfl, rfl | ⟨record, rfl⟩⟩
      · exact ⟨hs.served, nofun⟩
      · exact ⟨(hgone.write record).served, nofun⟩
  refine Meets.each fun s hs => Meets.looked ?_
  cases hactive : s.active user.uid with
  | none =>
      obtain rfl : none = plan := by rw [← hs.planned, planOf_eq_none.mpr hactive]
      refine (hstop False).weaken ?_ (fun _ _ h => h) fun _ _ h => h
      rintro _ rfl
      exact hs.of_none False.elim
  | some current =>
      obtain rfl : some current.plan = plan := by
        rw [← hs.planned, Desktops.planOf, hactive]
        rfl
      have hpending : Meets (fun _ => True) (· = s) (setStatus user.uid .pending none)
          (fun _ => Standing layout user.uid s₀ False (some current.plan) leased)
          fun e s => Served layout user.uid s₀ s ∧ e ≠ .desktop .setup := by
        refine setPending_standing.weaken (fun _ h => h ▸ hs) (fun _ _ h => h) ?_
        rintro e s ⟨hserved, rfl⟩
        exact ⟨hserved, nofun⟩
      exact Meets.bind hpending fun _ =>
        Meets.bind (deactivateLogin_meets hflat portalsEnabled) fun _ =>
          (hstop False).weaken (fun _ h => h.standing) (fun _ _ h => h) fun _ _ h => h

/-! ### Activation -/

/-- A desktop that is set up and not recorded yet. -/
structure Ready (layout : Set Place) (user : PlannedUser) (s₀ : Desktops R)
    (plan : DesktopPlan (Terms R)) (login : Login R) (s : Desktops R) : Prop where
  confined : Confined layout user.uid s₀ login.bindings s
  active : s.active user.uid = none
  planned : login.plan = plan
  lease : login.Leased → computerAllowed user plan = true
  told : s.records user.uid = ⟨.active, some plan.rest.sessionId⟩

/-- An activation that failed. Only where it could not be rolled back is something left. -/
structure Refused (layout : Set Place) (uid : Nat) (s₀ : Desktops R) (e : ControllerError)
    (s : Desktops R) : Prop where
  left : ∃ binds, Confined layout uid s₀ binds s
  gone : e ≠ .revocation → Gone layout uid s₀ s

theorem activate_meets (hflat : Mounts.Flat layout) (hsockets : HasSockets layout user.uid)
    (hlaid : ∀ b ∈ plan.binds, b.destination ∈ layout) (portalsEnabled : Bool) :
    Meets (fun _ => True) (Gone layout user.uid s₀) (activate portalsEnabled user plan)
      (Ready layout user s₀ plan) (Refused layout user.uid s₀) := by
  refine Meets.each fun s hs => Meets.within ?_
  rintro s rfl
  have hrecords : ∀ {w : World} {plan : DesktopPlan (Terms R)} {before : World},
      (∀ other, other ≠ user.uid → before.records other = s.records other) →
      w.records = before.records ∨
        w.records = Function.update before.records user.uid ⟨.active, some plan.rest.sessionId⟩ →
      ∀ other, other ≠ user.uid → w.records other = s.records other := by
    rintro w plan before hbefore (hsame | hrecord) other hne
    · rw [hsame, hbefore other hne]
    · rw [hrecord, Function.update_of_ne hne, hbefore other hne]
  have hstart : SettingUp layout user s.toWorld plan []
      ({ toWorld := s.toWorld, current := { plan } } : Work R) :=
    ⟨⟨hs.confined.kept, fun _ _ => Iff.rfl, .inl rfl⟩, nofun⟩
  have hwork : Meets (fun _ => True) (SettingUp layout user s.toWorld plan [])
      (activateWork portalsEnabled user plan) _ _ :=
    activateWork_meets hflat hsockets hlaid portalsEnabled
  refine hwork.weaken ?_ ?_ ?_
  · rintro _ rfl
    exact hstart
  · rintro login w ⟨rfl, hw⟩
    refine ⟨hs.confined.step hw.kept hw.guests (hrecords (fun other hne => ?_) hw.record)
      (fun _ _ => rfl) hs.confined.laid, hs.active, hw.planned, hw.lease, ?_⟩
    · exact Function.update_of_ne hne _ _
    · rcases hw.record with hsame | hrecord
      · exact (congrFun hsame user.uid).trans (Function.update_self _ _ _)
      · exact (congrFun hrecord user.uid).trans (Function.update_self _ _ _)
  · rintro e w ⟨⟨binds, hleft⟩, hgone⟩
    refine ⟨⟨binds, hs.confined.step hleft.kept hleft.guests
      (hrecords (fun _ _ => rfl) hleft.record) (fun _ _ => rfl) hs.confined.laid⟩, fun hne => ?_⟩
    have hnone := hgone hne
    exact ⟨hs.confined.step hnone.kept hnone.guests (hrecords (fun _ _ => rfl) hnone.record)
      (fun _ _ => rfl) hs.confined.laid, hs.active⟩

/-- The desktop is recorded as it stands. -/
theorem Ready.recorded {login : Login R} (h : Ready layout user s₀ plan login s)
    (hlaid : ∀ b ∈ plan.binds, b.destination ∈ layout) :
    Standing layout user.uid s₀ True (some plan) (computerAllowed user plan = true)
      (s.withActive user.uid (some login)) := by
  have hactive : (s.withActive user.uid (some login)).active user.uid = some login :=
    Function.update_self _ _ _
  have hplanOf : (s.withActive user.uid (some login)).planOf user.uid = some plan := by
    rw [Desktops.planOf, hactive, Option.map_some, h.planned]
  refine ⟨?_, fun _ => ?_, hplanOf, ?_⟩
  · rw [Served, bindings_of_some hactive]
    refine h.confined.step h.confined.kept (fun _ _ => Iff.rfl) (fun _ _ => rfl)
      (fun _ hne => Function.update_of_ne hne _ _) ?_
    intro plan' hplan'
    rw [hplanOf] at hplan'
    obtain rfl := Option.some.inj hplan'
    exact hlaid
  · rw [Told, hplanOf]
    exact h.told
  · intro login' hlogin'
    rw [hactive] at hlogin'
    obtain rfl := Option.some.inj hlogin'
    exact h.lease

/-! ### Reconciliation -/

/-- There is a desktop, or none, and it has a lease only if its terms are granted. -/
def Settled (layout : Set Place) (uid : Nat) (s₀ : Desktops R) (told : Prop)
    (granted : Terms R → Prop) (s : Desktops R) : Prop :=
  ∃ plan, Standing layout uid s₀ told plan (∀ p ∈ plan, granted p.rest) s

/-- What a reconciliation comes to: a lease is there only if the plan allows for one, and
the plan does so only if it is granted. -/
structure Carried (layout : Set Place) (user : PlannedUser) (s₀ : Desktops R) (told : Prop)
    (granted : Terms R → Prop) (s : Desktops R) : Prop where
  standing : Standing layout user.uid s₀ told (s.planOf user.uid)
    (∀ p ∈ s.planOf user.uid, computerAllowed user p = true) s
  granted : ∀ p ∈ s.planOf user.uid, computerAllowed user p = true → granted p.rest

/-- What an exception leaves. -/
structure Broken (layout : Set Place) (uid : Nat) (s₀ : Desktops R) (told : Prop)
    (granted : Terms R → Prop) (e : ControllerError) (s : Desktops R) : Prop where
  left : ∃ binds, Confined layout uid s₀ binds s
  served : e.isSetup = true → Served layout uid s₀ s
  settled : e = .desktop .setup → Settled layout uid s₀ told granted s

section Reconcile

variable {granted : Terms R → Prop} {e : ControllerError}

theorem Served.broken (h : Served layout uid s₀ s) (he : e ≠ .desktop .setup) :
    Broken layout uid s₀ told granted e s :=
  ⟨⟨_, h⟩, fun _ => h, fun heq => (he heq).elim⟩

theorem Settled.broken (h : Settled layout uid s₀ told granted s) :
    Broken layout uid s₀ told granted e s := by
  obtain ⟨plan, hplan⟩ := h
  exact ⟨⟨_, hplan.served⟩, fun _ => hplan.served, fun _ => ⟨plan, hplan⟩⟩

theorem Standing.settled {plan : Option (DesktopPlan (Terms R))}
    (h : Standing layout uid s₀ told plan leased s)
    (hgranted : leased → ∀ p ∈ plan, granted p.rest) : Settled layout uid s₀ told granted s :=
  ⟨plan, h.allow hgranted⟩

theorem Standing.carried {plan : Option (DesktopPlan (Terms R))}
    (h : Standing layout user.uid s₀ told plan leased s)
    (hleased : leased → ∀ p ∈ plan, computerAllowed user p = true)
    (hgranted : ∀ p ∈ plan, computerAllowed user p = true → granted p.rest) :
    Carried layout user s₀ told granted s := by
  obtain rfl := h.planned
  exact ⟨h.allow hleased, hgranted⟩

/-- What is told is told whether or not it has to be. -/
theorem Standing.tell {plan : Option (DesktopPlan (Terms R))}
    (h : Standing layout uid s₀ True plan leased s) : Standing layout uid s₀ told plan leased s :=
  { h with told := fun _ => h.told trivial }

/-- An activation that could not be rolled back is not made up for. -/
theorem giveUp_meets {α : Type} {post : α → Desktops R → Prop} :
    Meets (fun _ => True) (fun s => ∃ binds, Confined layout uid s₀ binds s)
      (do
        setStatus uid .inactive none
        throw .revocation : Routine (Desktops R) ControllerError α)
      post (Broken layout uid s₀ told granted) := by
  refine Meets.bind ((setStatus_left uid .inactive none).raising ?_)
    fun _ => Meets.throw fun s hs => ⟨hs, nofun, nofun⟩
  rintro e s ⟨hs, rfl⟩
  exact ⟨hs, nofun, nofun⟩

theorem setInactive_settled :
    Meets (fun _ => True) (Gone layout uid s₀) (setStatus uid .inactive none)
      (fun _ => Settled layout uid s₀ told granted) (Broken layout uid s₀ told granted) := by
  have hinactive : Meets (fun _ => True) (Gone layout uid s₀) (setStatus uid .inactive none)
      (fun _ => Standing layout uid s₀ True (none : Option (DesktopPlan (Terms R))) False)
      fun e s => Served layout uid s₀ s ∧ e = .desktop .osError := setInactive_meets
  refine hinactive.weaken (fun _ h => h) (fun _ _ h => h.tell.settled False.elim) ?_
  rintro e s ⟨hserved, rfl⟩
  exact hserved.broken nofun

theorem restorePrevious_meets (hflat : Mounts.Flat layout) (hsockets : HasSockets layout user.uid)
    (portalsEnabled : Bool) (selected : Option Text) {previous : Option (Login R)}
    (hlaid : ∀ login ∈ previous, ∀ b ∈ login.plan.binds, b.destination ∈ layout)
    (hgranted : ∀ login ∈ previous,
      computerAllowed user (previousPlan user selected login.plan) = true →
        granted (previousPlan user selected login.plan).rest) :
    Meets (fun _ => True) (Gone layout user.uid s₀)
      (restorePrevious portalsEnabled user selected previous)
      (fun _ => Settled layout user.uid s₀ told granted)
      (Broken layout user.uid s₀ told granted) := by
  cases previous with
  | none => exact setInactive_settled
  | some login =>
      have hbinds : ∀ b ∈ (previousPlan user selected login.plan).binds, b.destination ∈ layout :=
        hlaid login rfl
      refine Meets.bind (Meets.tryCatch (activate_meets hflat hsockets hbinds portalsEnabled)
        fun e => ?_) fun login' => Meets.update fun s hs => ⟨trivial, ?_⟩
      · by_cases he : e = .revocation
        · rw [if_pos he]
          exact giveUp_meets.weaken (fun _ h => h.left) (fun _ _ h => h) fun _ _ h => h
        · rw [if_neg he]
          exact Meets.bind (setInactive_settled.weaken (fun _ h => h.gone he) (fun _ _ h => h)
            fun _ _ h => h) fun _ => Meets.throw fun _ h => h.broken
      · refine (hs.recorded hbinds).tell.settled fun h p hp => ?_
        obtain rfl := Option.some.inj hp
        exact hgranted login rfl h

theorem restore_meets (hflat : Mounts.Flat layout) (hsockets : HasSockets layout user.uid)
    (portalsEnabled : Bool) (selected : Option Text) {previous : Option (Login R)}
    (hlaid : ∀ login ∈ previous, ∀ b ∈ login.plan.binds, b.destination ∈ layout)
    (hgranted : ∀ login ∈ previous,
      computerAllowed user (previousPlan user selected login.plan) = true →
        granted (previousPlan user selected login.plan).rest)
    (e : ControllerError) {post : Login R → Desktops R → Prop} :
    Meets (fun _ => True) (Refused layout user.uid s₀ e)
      (restore portalsEnabled user selected previous e) post
      (Broken layout user.uid s₀ told granted) := by
  have hrestore : Meets (fun _ => True) (Gone layout user.uid s₀) _ _
      (Broken layout user.uid s₀ told granted) :=
    restorePrevious_meets hflat hsockets portalsEnabled selected hlaid hgranted
  cases e with
  | revocation => exact giveUp_meets.weaken (fun _ h => h.left) (fun _ _ h => h) fun _ _ h => h
  | desktop error =>
      exact Meets.bind (hrestore.weaken (fun _ h => h.gone nofun) (fun _ _ h => h) fun _ _ h => h)
        fun _ => Meets.throw fun _ h => h.broken
  | release setup =>
      exact Meets.bind (hrestore.weaken (fun _ h => h.gone nofun) (fun _ _ h => h) fun _ _ h => h)
        fun _ => Meets.throw fun _ h => h.broken

theorem replace_meets (hflat : Mounts.Flat layout) (hsockets : HasSockets layout user.uid)
    (portalsEnabled : Bool) (selected : Option Text) {previous : Option (Login R)}
    (hbinds : ∀ b ∈ plan.binds, b.destination ∈ layout)
    (hplan : computerAllowed user plan = true → granted plan.rest)
    (hlaid : ∀ login ∈ previous, ∀ b ∈ login.plan.binds, b.destination ∈ layout)
    (hgranted : ∀ login ∈ previous,
      computerAllowed user (previousPlan user selected login.plan) = true →
        granted (previousPlan user selected login.plan).rest) :
    Meets (fun _ => True)
      (fun s => ∃ old leased, Standing layout user.uid s₀ told' old leased s ∧
        old.isSome = previous.isSome)
      (replace portalsEnabled user selected plan previous)
      (fun _ => Carried layout user s₀ told granted)
      (Broken layout user.uid s₀ told granted) := by
  refine Meets.each ?_
  rintro s ⟨old, leased, hs, hsome⟩
  have hpending : Meets (fun _ => True) (· = s) (setStatus user.uid .pending none)
      (fun _ => Standing layout user.uid s₀ False old leased)
      (Broken layout user.uid s₀ told granted) := by
    refine setPending_standing.weaken (fun _ h => h ▸ hs) (fun _ _ h => h) ?_
    rintro e s ⟨hserved, rfl⟩
    exact hserved.broken nofun
  have hretire : Meets (fun _ => True) (Standing layout user.uid s₀ False old leased)
      (retire portalsEnabled user previous) (fun _ => Gone layout user.uid s₀)
      (Broken layout user.uid s₀ told granted) := by
    cases previous with
    | none =>
        obtain rfl : old = none := by simpa using hsome
        exact Meets.pure fun s hs => hs.served.gone (planOf_eq_none.mp hs.planned)
    | some login =>
        obtain ⟨plan, rfl⟩ := Option.isSome_iff_exists.mp hsome
        exact (deactivateLogin_meets hflat portalsEnabled).raising fun _ _ h => h.1.broken h.2
  refine Meets.bind hpending fun _ => Meets.bind hretire fun _ => ?_
  refine Meets.bind (Meets.tryCatch (activate_meets hflat hsockets hbinds portalsEnabled)
    fun e => restore_meets hflat hsockets portalsEnabled selected hlaid hgranted e) fun login =>
      Meets.update fun s hs => ⟨trivial, ?_⟩
  refine (hs.recorded hbinds).tell.carried (fun h p hp => ?_) fun p hp => ?_
  · obtain rfl := Option.some.inj hp
    exact h
  · obtain rfl := Option.some.inj hp
    exact hplan

/-- What a reconciliation grants: computer use, in the session that is selected. -/
structure Entitled (user : PlannedUser) (snapshot : Snapshot R) (terms : Terms R) : Prop where
  desktop : user.desktop = true
  accessibility : user.accessibility = true
  ordinary : user.uid ≠ 0
  active : snapshot.sessionActive = true
  session : snapshot.selected user = some terms.sessionId

theorem entitled_makePlan {snapshot : Snapshot R} {planned : List DesktopBind × R}
    (hactive : snapshot.sessionActive = true)
    (h : computerAllowed user (makePlan user (snapshot.selected user) planned) = true) :
    Entitled user snapshot (makePlan user (snapshot.selected user) planned).rest := by
  simp only [computerAllowed, makePlan, Bool.and_eq_true, bne_iff_ne] at h
  obtain ⟨⟨⟨⟨hdesktop, hselected⟩, -⟩, haccessibility⟩, hordinary⟩ := h
  obtain ⟨id, hid⟩ := Option.isSome_iff_exists.mp hselected
  refine ⟨hdesktop, haccessibility, hordinary, hactive, ?_⟩
  show snapshot.selected user = some ((snapshot.selected user).getD _)
  rw [hid]
  rfl

theorem entitled_previousPlan {snapshot : Snapshot R} {previous : DesktopPlan (Terms R)}
    (hactive : snapshot.sessionActive = true)
    (h : computerAllowed user (previousPlan user (snapshot.selected user) previous) = true) :
    Entitled user snapshot (previousPlan user (snapshot.selected user) previous).rest := by
  simp only [computerAllowed, previousPlan, Bool.and_eq_true, bne_iff_ne, decide_eq_true_eq] at h
  obtain ⟨⟨⟨⟨hdesktop, -⟩, ⟨-, hsession⟩⟩, haccessibility⟩, hordinary⟩ := h
  exact ⟨hdesktop, haccessibility, hordinary, hactive, hsession⟩

theorem carryOut_meets [DecidableEq R] (hflat : Mounts.Flat layout)
    (hsockets : HasSockets layout user.uid) (portalsEnabled : Bool) {snapshot : Snapshot R}
    {planned : List DesktopBind × R} (hplanned : ∀ b ∈ planned.1, b.destination ∈ layout)
    (hordinary : user.uid ≠ 0) (hactive : snapshot.sessionActive = true) :
    Meets (fun _ => True)
      (fun s' => s' = s ∧ Standing layout user.uid s₀ told (s.planOf user.uid)
        (user.desktop = true ∧ user.accessibility = true ∧
          ∀ plan ∈ s.planOf user.uid, snapshot.selected user = some plan.rest.sessionId) s)
      (carryOut portalsEnabled user (snapshot.selected user)
        (makePlan user (snapshot.selected user) planned) (s.active user.uid))
      (fun _ => Carried layout user s₀ told (Entitled user snapshot))
      (Broken layout user.uid s₀ told (Entitled user snapshot)) := by
  refine Meets.each ?_
  rintro s ⟨rfl, hs⟩
  have hlaid : ∀ login ∈ s.active user.uid, ∀ b ∈ login.plan.binds, b.destination ∈ layout := by
    intro login hlogin
    refine hs.served.laid login.plan ?_
    rw [Desktops.planOf, hlogin]
    rfl
  have hreplace : Meets (fun _ => True)
      (fun s' => ∃ old leased, Standing layout user.uid s₀ told old leased s' ∧
        old.isSome = (s.active user.uid).isSome)
      (replace portalsEnabled user (snapshot.selected user)
        (makePlan user (snapshot.selected user) planned) (s.active user.uid))
      (fun _ => Carried layout user s₀ told (Entitled user snapshot))
      (Broken layout user.uid s₀ told (Entitled user snapshot)) :=
    replace_meets hflat hsockets portalsEnabled _ hplanned (entitled_makePlan hactive) hlaid
      fun _ _ => entitled_previousPlan hactive
  cases hlogin : s.active user.uid with
  | none =>
      rw [hlogin] at hreplace
      refine hreplace.weaken ?_ (fun _ _ h => h) fun _ _ h => h
      rintro _ rfl
      exact ⟨_, _, hs, by rw [planOf_eq_none.mpr hlogin]; rfl⟩
  | some current =>
      have hplanOf : s.planOf user.uid = some current.plan := by
        rw [Desktops.planOf, hlogin]
        rfl
      rw [hlogin] at hreplace
      rw [hplanOf] at hs
      refine Meets.bind ((onActive_refresh hflat hplanned).weaken (fun _ h => h ▸ hs)
        (fun _ _ h => h) ?_) fun same => ?_
      · rintro e s' ⟨rfl, plan', hrest, hs'⟩
        refine (hs'.settled fun h p hp => ?_).broken
        obtain rfl := Option.some.inj hp
        refine ⟨h.1, h.2.1, hordinary, hactive, ?_⟩
        rw [hrest]
        exact h.2.2 current.plan rfl
      · cases same with
        | true =>
            refine Meets.each ?_
            rintro s' ⟨plan', hrest, hs', hsame⟩
            obtain rfl := hsame rfl
            refine (onActive_standing fun _ => repairBridges_meets hflat hsockets
              portalsEnabled).weaken (fun _ h => h ▸ hs') (fun _ s'' h => ?_)
              fun _ _ h => h.1.served.broken h.2
            refine h.carried (fun hallowed p hp => ?_) fun p hp => ?_
            · obtain rfl := Option.some.inj hp
              exact hallowed
            · obtain rfl := Option.some.inj hp
              exact entitled_makePlan hactive
        | false =>
            refine hreplace.weaken ?_ (fun _ _ h => h) fun _ _ h => h
            rintro s' ⟨plan', -, hs', -⟩
            exact ⟨some plan', _, hs', rfl⟩

/-- Whatever fails, the others are left alone. An end that is not an exception, or is the
exception of a setup, leaves a record of all that is mounted; and no lease is left that
is not granted. -/
theorem reconcile_meets [DecidableEq R] (hflat : Mounts.Flat layout)
    (hsockets : HasSockets layout user.uid) (portalsEnabled : Bool) (snapshot : Snapshot R)
    (hplanned : ∀ planned ∈ snapshot.planned, ∀ b ∈ planned.1, b.destination ∈ layout) :
    Meets (fun _ => True)
      (fun s => Served layout user.uid s₀ s ∧ (told → Told s user.uid))
      (reconcile portalsEnabled user snapshot)
      (fun _ => Carried layout user s₀ told (Entitled user snapshot))
      (Broken layout user.uid s₀ told (Entitled user snapshot)) := by
  refine Meets.each ?_
  rintro s ⟨hserved, htold⟩
  have hs : Standing layout user.uid s₀ told (s.planOf user.uid) True s :=
    ⟨hserved, htold, rfl, fun _ _ _ => trivial⟩
  have hdeactivate : Meets (fun _ => True)
      (fun s' => ∃ plan leased, Standing layout user.uid s₀ told plan leased s')
      (deactivate portalsEnabled user)
      (fun _ => Carried layout user s₀ told (Entitled user snapshot))
      (Broken layout user.uid s₀ told (Entitled user snapshot)) := by
    refine Meets.each ?_
    rintro s ⟨plan, leased, hs⟩
    exact (deactivate_meets hflat portalsEnabled).weaken (fun _ h => h ▸ hs)
      (fun _ _ h => h.1.tell.carried False.elim nofun) fun _ _ h => h.1.broken h.2
  refine Meets.looked ?_
  split
  · split
    · exact hdeactivate.weaken (fun _ h => ⟨_, _, h ▸ hs⟩) (fun _ _ h => h) fun _ _ h => h
    next hnone =>
      -- There is nothing to take down.
      have hinactive : s.active user.uid = none := by
        simp only [Bool.or_eq_true, not_or, Bool.not_eq_true, Option.isSome_eq_false_iff,
          Option.isNone_iff_eq_none] at hnone
        exact hnone.1
      rw [planOf_eq_none.mpr hinactive] at hs
      have hnothing : Standing layout user.uid s₀ told none False s := hs.of_none hs.told
      exact Meets.pure fun _ h => h ▸ hnothing.carried False.elim nofun
  next hserve =>
    simp only [Bool.or_eq_true, not_or, decide_eq_true_eq, Bool.not_eq_true,
      Bool.not_eq_false'] at hserve
    obtain ⟨⟨hordinary, -⟩, hactive⟩ := hserve
    have hstale : Meets (fun _ => True) (· = s) (revokeStale user snapshot (s.active user.uid))
        (fun _ => Standing layout user.uid s₀ told (s.planOf user.uid)
          (user.desktop = true ∧ user.accessibility = true ∧
            ∀ plan ∈ s.planOf user.uid, snapshot.selected user = some plan.rest.sessionId))
        (Broken layout user.uid s₀ told (Entitled user snapshot)) := by
      have hrevoke : Meets (fun _ => True)
          (Standing layout user.uid s₀ told (s.planOf user.uid) True) _ _ _ :=
        revokeStale_meets hflat snapshot
      refine hrevoke.weaken ?_ (fun _ _ h => h) fun _ _ h => h.1.served.broken h.2
      rintro _ rfl
      exact hs
    refine Meets.bind hstale fun _ => Meets.each fun s' hs' => Meets.looked ?_
    rw [← hs'.planned] at hs'
    split
    · exact hdeactivate.weaken (fun _ h => ⟨_, _, h ▸ hs'⟩) (fun _ _ h => h) fun _ _ h => h
    · cases hplan : snapshot.planned with
      | none =>
          -- Nothing is planned, and what there is goes on.
          have htell : Meets (fun _ => True) (· = s') (setStatus user.uid
              (if (s'.active user.uid).isSome then .active else .inactive)
              ((s'.active user.uid).map (·.plan.rest.sessionId)))
              (fun _ => Settled layout user.uid s₀ told (Entitled user snapshot))
              (Broken layout user.uid s₀ told (Entitled user snapshot)) := by
            have hrecord : recordOf (s'.planOf user.uid) =
                ⟨if (s'.active user.uid).isSome then .active else .inactive,
                  (s'.active user.uid).map (·.plan.rest.sessionId)⟩ := by
              rw [Desktops.planOf]
              cases s'.active user.uid with
              | none => rfl
              | some login => rfl
            refine ((setStatus_told hrecord.symm).start hs').weaken (fun _ h => h) ?_ ?_
            · intro _ s'' h
              refine h.tell.settled fun hgranted p hp => ?_
              exact ⟨hgranted.1, hgranted.2.1, hordinary, hactive, hgranted.2.2 p hp⟩
            · rintro e s'' ⟨hserved, rfl⟩
              exact hserved.broken nofun
          exact Meets.bind htell fun _ => Meets.throw fun _ h => h.broken
      | some planned =>
          refine (carryOut_meets hflat hsockets portalsEnabled (hplanned planned hplan) hordinary
            hactive).weaken ?_ (fun _ _ h => h) fun _ _ h => h
          rintro _ rfl
          exact ⟨rfl, hs'⟩

end Reconcile

end Specs

end Spaces.Desktop
