import Mathlib.Data.List.Dedup
import Mathlib.Data.List.Lex
import Spaces.Desktop.Mounting

/-!
# Refreshing the settings

When only settings have changed, the mounts of what is no longer wanted are taken off
and those that are new are made, while the login goes on. The plan is changed with each
of them. So where one fails, the plan says what is mounted, and the next refresh goes on
from there.

The portal's bridge reads what is mounted, and is retired first. It and the other bridges
have mounts that are in no plan.
-/

namespace Spaces.Desktop

open Spaces.Library Routine Spaces.Shortcuts

/-! ## The code -/

structure DesktopUser where
  uid : Nat
  guestHome : Place

def CONFIG_DIRECTORIES : List FsName :=
  ["gtk-3.0", "gtk-4.0", "fontconfig"].map fun name => fsText name.toList

def CONFIG_FILES : List FsName := [fsText "kdeglobals".toList]

/-- `DESKTOP_ROOT / str(uid)` -/
def desktopRoot (uid : Nat) : Place :=
  [fsText "run".toList, fsText "spaces".toList, fsText "desktop".toList,
    fsText (Nat.toDigits 10 uid)]

/-- One of the settings, or beneath one of the roots of settings. -/
def isSettings (user : DesktopUser) (destination : Place) : Bool :=
  let config := user.guestHome ++ [fsText ".config".toList]
  let root := desktopRoot user.uid
  (CONFIG_FILES ++ CONFIG_DIRECTORIES).any (fun name => destination = config ++ [name])
    || destination = root ++ [fsText "fonts.conf".toList]
    || ["data", "fonts", "dconf"].any fun name =>
      (root ++ [fsText name.toList]).isPrefixOf destination

def FsChar.codePoint : FsChar → Nat
  | .char c => c.toNat
  | .surrogate byte => 0xdc00 + byte.toNat

def DesktopBind.key (binding : DesktopBind) : List (List Nat) :=
  let codes (place : Place) := place.flatMap fun name => 47 :: name.map FsChar.codePoint
  [codes binding.destination, codes binding.source, [binding.device], [binding.inode]]

def sorted (binds : List DesktopBind) : List DesktopBind :=
  binds.mergeSort fun a b => decide (a.key ≤ b.key)

/-- `sorted(one - other)`, of two sets. -/
def difference (one other : List DesktopBind) : List DesktopBind :=
  sorted (one.dedup.filter (· ∉ other))

variable {R : Type}

def Controller.setBinds (c : Controller R) (binds : List DesktopBind) : Controller R :=
  { c with current := { c.current with plan := { c.current.plan with binds := binds } } }

/-- What was removed is not in the plan any more. -/
def Controller.dropBind (c : Controller R) (binding : DesktopBind) : Controller R :=
  c.setBinds (sorted (c.current.plan.binds.dedup.filter (· ≠ binding)))

def Controller.addBind (c : Controller R) (binding : DesktopBind) : Controller R :=
  c.setBinds (sorted (binding :: c.current.plan.binds.dedup.filter (· ≠ binding)))

def Controller.setPortal (c : Controller R) (portal : Bool) : Controller R :=
  { c with current := { c.current with portal := portal } }

def Controller.setPortalBinding (c : Controller R) (binding : Option DesktopBind) :
    Controller R :=
  { c with current := { c.current with portalBinding := binding } }

def Controller.setPlan (c : Controller R) (plan : DesktopPlan R) : Controller R :=
  { c with current := { c.current with plan := plan } }

/-- The proxy is closed and its socket unlinked. -/
def closePortal : Routine (Controller R) DesktopError Unit := do
  let c ← look
  if c.current.portal then do
    performClean .osError some
    performClean .osError some
    update fun c => c.setPortal false
  else pure ()

def retirePortal (uid : Nat) : Routine (Controller R) DesktopError Unit := do
  closePortal
  let c ← look
  match c.current.portalBinding with
  | some binding => do
      unmountBind uid binding
      update fun c => c.setPortalBinding none
  | none => pure ()

def removeBind (uid : Nat) (binding : DesktopBind) : Routine (Controller R) DesktopError Unit := do
  unmountBind uid binding
  update fun c => c.dropBind binding

def addBind (uid : Nat) (binding : DesktopBind) : Routine (Controller R) DesktopError Unit := do
  mountBind uid binding
  update fun c => c.addBind binding

/-- `_refresh_settings`. -/
def refreshSettings [DecidableEq R] (user : DesktopUser) (plan : DesktopPlan R) :
    Routine (Controller R) DesktopError Bool := do
  let c ← look
  let previous := c.current.plan.binds
  let removed := difference previous plan.binds
  let added := difference plan.binds previous
  if plan.rest ≠ c.current.plan.rest then pure false
  else if (removed ++ added).any (fun binding => !isSettings user binding.destination) then
    pure false
  else do
    tryCatch (do
        retirePortal user.uid
        forEach (removeBind user.uid) removed
        forEach (addBind user.uid) added)
      fun _ => throw .setup
    update fun c => c.setPlan plan
    pure true

/-! ## What a plan says of the mounts -/

/-- What is mounted for the user and is in no plan. -/
def ActiveDesktop.bridgeBinds (a : ActiveDesktop R) : List DesktopBind :=
  a.portalBinding.toList ++ a.bridges

/-- What is mounted for the user. -/
def ActiveDesktop.bindings (a : ActiveDesktop R) : List DesktopBind :=
  a.plan.binds ++ a.bridgeBinds

variable {layout : Set Place} {user : DesktopUser} {plan : DesktopPlan R} {c c' : Controller R}

/-- The user has what the plan and the bridges have, and it is mounted from there. -/
structure Consistent (layout : Set Place) (user : DesktopUser) (c : Controller R) : Prop where
  recorded : c.mounts.Recorded layout
  holds : ∀ d, c.mounts.Holds user.uid d ↔ ∃ b ∈ c.current.bindings, b.destination = d
  sources : ∀ b ∈ c.current.bindings,
    c.mounts.destinationSources b.destination = some b.identity
  planned : ∀ b ∈ c.current.plan.binds, ∀ b' ∈ c.current.plan.binds,
    b.destination = b'.destination → b = b'
  apart : ∀ b ∈ c.current.plan.binds, ∀ b' ∈ c.current.bridgeBinds,
    b.destination ≠ b'.destination
  portalApart : ∀ p ∈ c.current.portalBinding, ∀ b ∈ c.current.bridges,
    p.destination ≠ b.destination
  bridges : ∀ b ∈ c.current.bridgeBinds, isSettings user b.destination = false

/-- Nothing but settings and the portal's bridge is touched. -/
structure Untouched (user : DesktopUser) (c c' : Controller R) : Prop where
  users : ∀ d, isSettings user d = false → (∀ p ∈ c.current.portalBinding, p.destination ≠ d) →
    c'.mounts.destinationUsers d = c.mounts.destinationUsers d
  sources : ∀ d, isSettings user d = false → (∀ p ∈ c.current.portalBinding, p.destination ≠ d) →
    c'.mounts.destinationSources d = c.mounts.destinationSources d
  table : ∀ e : Mounted, isSettings user e.destination = false →
    (∀ p ∈ c.current.portalBinding, p.destination ≠ e.destination) →
    (e ∈ c'.mounts.table ↔ e ∈ c.mounts.table)

theorem Untouched.refl (c : Controller R) : Untouched user c c :=
  ⟨fun _ _ _ => rfl, fun _ _ _ => rfl, fun _ _ _ => Iff.rfl⟩

theorem Untouched.step (h : Untouched user c c') {c'' : Controller R} {d : Place}
    (hsame : c'.mounts.SameBut d c''.mounts)
    (hd : isSettings user d = true ∨ ∃ p ∈ c.current.portalBinding, p.destination = d) :
    Untouched user c c'' := by
  have hne : ∀ e, isSettings user e = false →
      (∀ p ∈ c.current.portalBinding, p.destination ≠ e) → e ≠ d := by
    rintro e hsettings hportal rfl
    rcases hd with hd | ⟨p, hp, rfl⟩
    · rw [hsettings] at hd
      cases hd
    · exact hportal p hp rfl
  refine ⟨fun e he hportal => ?_, fun e he hportal => ?_, fun e he hportal => ?_⟩
  · exact (hsame.users e (hne e he hportal)).trans (h.users e he hportal)
  · exact (hsame.sources e (hne e he hportal)).trans (h.sources e he hportal)
  · exact (hsame.table e (hne _ he hportal)).trans (h.table e he hportal)

/-- What the plan and the bridges have is mounted for the user, and nothing else is; nor
is anything mounted for nobody. -/
def Exact (user : DesktopUser) (c : Controller R) : Prop :=
  (∀ e : Mounted, (e ∈ c.mounts.table ∧ c.mounts.Holds user.uid e.destination) ↔
    ∃ b ∈ c.current.bindings, b.destination = e.destination ∧ b.identity = e.identity) ∧
    ∀ e ∈ c.mounts.table, ∃ uid, c.mounts.Holds uid e.destination

theorem Consistent.exact (h : Consistent layout user c) (hstrayed : c.mounts.strayed = false) :
    Exact user c := by
  have htable := h.recorded.table hstrayed
  refine ⟨fun e => ?_, fun e he => ?_⟩
  swap
  · obtain ⟨users, husers⟩ := Option.isSome_iff_exists.mp ((htable e).mp he).1
    obtain ⟨uid, huid⟩ := h.recorded.used e.destination users husers
    exact ⟨uid, users, husers, huid⟩
  constructor
  · rintro ⟨he, hholds⟩
    obtain ⟨b, hb, hdestination⟩ := (h.holds e.destination).mp hholds
    refine ⟨b, hb, hdestination, ?_⟩
    have hsource := ((htable e).mp he).2
    rw [← hdestination, h.sources b hb] at hsource
    exact Option.some.inj hsource
  · rintro ⟨b, hb, hdestination, hidentity⟩
    have hholds := (h.holds e.destination).mpr ⟨b, hb, hdestination⟩
    refine ⟨(htable e).mpr ⟨?_, ?_⟩, hholds⟩
    · obtain ⟨users, husers, -⟩ := hholds
      rw [husers]
      rfl
    · rw [← hdestination, h.sources b hb, hidentity]

/-- It has to be looked at where the mounts changed. -/
theorem Consistent.change (h : Consistent layout user c) (c' : Controller R) {d : Place}
    (hsame : c.mounts.SameBut d c'.mounts)
    (hothers : ∀ b : DesktopBind, b.destination ≠ d →
      (b ∈ c'.current.bindings ↔ b ∈ c.current.bindings))
    (hat : c'.mounts.Holds user.uid d ↔ ∃ b ∈ c'.current.bindings, b.destination = d)
    (hsource : ∀ b ∈ c'.current.bindings, b.destination = d →
      c'.mounts.destinationSources d = some b.identity) :
    (∀ d, c'.mounts.Holds user.uid d ↔ ∃ b ∈ c'.current.bindings, b.destination = d) ∧
      ∀ b ∈ c'.current.bindings,
        c'.mounts.destinationSources b.destination = some b.identity := by
  constructor
  · intro e
    by_cases he : e = d
    · rw [he]
      exact hat
    · rw [hsame.holds he, h.holds e]
      refine exists_congr fun b => and_congr_left fun hb => (hothers b ?_).symm
      rw [hb]
      exact he
  · intro b hb
    by_cases he : b.destination = d
    · rw [he]
      exact hsource b hb he
    · rw [hsame.sources _ he]
      exact h.sources b ((hothers b he).mp hb)

/-! ## One bind after another -/

@[simp] theorem mem_sorted {b : DesktopBind} {binds : List DesktopBind} :
    b ∈ sorted binds ↔ b ∈ binds := List.mem_mergeSort

@[simp] theorem mem_difference {b : DesktopBind} {one other : List DesktopBind} :
    b ∈ difference one other ↔ b ∈ one ∧ b ∉ other := by
  simp [difference]

theorem nodup_difference (one other : List DesktopBind) : (difference one other).Nodup :=
  (List.mergeSort_perm _ _).nodup_iff.mpr ((List.nodup_dedup one).filter _)

@[simp] theorem mem_dropBind {b binding : DesktopBind} :
    b ∈ (c.dropBind binding).current.plan.binds ↔ b ∈ c.current.plan.binds ∧ b ≠ binding := by
  simp [Controller.dropBind, Controller.setBinds]

@[simp] theorem mem_addBind {b binding : DesktopBind} :
    b ∈ (c.addBind binding).current.plan.binds ↔ b = binding ∨ b ∈ c.current.plan.binds := by
  by_cases h : b = binding
  · simp [Controller.addBind, Controller.setBinds, h]
  · simp [Controller.addBind, Controller.setBinds, h]

/-- On the way from one plan to the next. -/
structure Underway (layout : Set Place) (user : DesktopUser) (plan : DesktopPlan R)
    (c c' : Controller R) : Prop where
  consistent : Consistent layout user c'
  untouched : Untouched user c c'
  rest : c'.current.plan.rest = c.current.plan.rest
  within : ∀ b ∈ c'.current.plan.binds, b ∈ c.current.plan.binds ∨ b ∈ plan.binds
  common : ∀ b ∈ c.current.plan.binds, b ∈ plan.binds → b ∈ c'.current.plan.binds
  free : ∀ b, c.mounts.Free user.uid b → c'.mounts.Free user.uid b
  frank : c'.mounts.Frank

theorem Consistent.drop (h : Consistent layout user c) (hflat : Mounts.Flat layout)
    {b : DesktopBind} (hb : b ∈ c.current.plan.binds) {m : Mounts}
    (hm : c.mounts.Released user.uid b.destination m) :
    Consistent layout user ((c.withMounts m).dropBind b) := by
  have hsame := hm.sameBut h.recorded hflat
  have hbindings : ∀ b', b' ∈ ((c.withMounts m).dropBind b).current.bindings ↔
      b' ∈ c.current.bindings ∧ b'.destination ≠ b.destination := by
    intro b'
    rw [ActiveDesktop.bindings, List.mem_append, mem_dropBind, ActiveDesktop.bindings,
      List.mem_append]
    constructor
    · rintro (⟨hb', hne⟩ | hb')
      · exact ⟨.inl hb', fun heq => hne (h.planned b' hb' b hb heq)⟩
      · exact ⟨.inr hb', fun heq => h.apart b hb b' hb' heq.symm⟩
    · rintro ⟨hb' | hb', hne⟩
      · exact .inl ⟨hb', fun heq => hne (heq ▸ rfl)⟩
      · exact .inr hb'
  obtain ⟨hholds, hsources⟩ := h.change ((c.withMounts m).dropBind b) hsame
    (fun b' hne => (hbindings b').trans (and_iff_left hne))
    (iff_of_false hm.not_holds fun ⟨b', hb', heq⟩ => ((hbindings b').mp hb').2 heq)
    (fun b' hb' heq => absurd heq ((hbindings b').mp hb').2)
  exact {
    recorded := hm.recorded h.recorded hflat
    holds := hholds
    sources := hsources
    planned := fun b' hb' b'' hb'' =>
      h.planned b' (mem_dropBind.mp hb').1 b'' (mem_dropBind.mp hb'').1
    apart := fun b' hb' => h.apart b' (mem_dropBind.mp hb').1
    portalApart := h.portalApart
    bridges := h.bridges }

theorem Consistent.add (h : Consistent layout user c) {b : DesktopBind}
    (hlaid : b.destination ∈ layout) (hsettings : isSettings user b.destination = true)
    (hnew : ∀ b' ∈ c.current.plan.binds, b'.destination ≠ b.destination)
    (haccepts : c.mounts.Accepts b) :
    Consistent layout user ((c.withMounts (c.mounts.hold user.uid b)).addBind b) := by
  have hbridge : ∀ b' ∈ c.current.bridgeBinds, b'.destination ≠ b.destination := by
    intro b' hb' heq
    rw [← heq, h.bridges b' hb'] at hsettings
    cases hsettings
  have hbindings : ∀ b',
      b' ∈ ((c.withMounts (c.mounts.hold user.uid b)).addBind b).current.bindings ↔
      b' = b ∨ b' ∈ c.current.bindings := by
    intro b'
    rw [ActiveDesktop.bindings, List.mem_append, mem_addBind, ActiveDesktop.bindings,
      List.mem_append, or_assoc]
    rfl
  have hat : ∀ b' ∈ ((c.withMounts (c.mounts.hold user.uid b)).addBind b).current.bindings,
      b'.destination = b.destination → b' = b := by
    intro b' hb' heq
    rcases (hbindings b').mp hb' with hsame | hb'
    · exact hsame
    · rcases List.mem_append.mp hb' with hb' | hb'
      · exact absurd heq (hnew b' hb')
      · exact absurd heq (hbridge b' hb')
  obtain ⟨hholds, hsources⟩ := h.change
    ((c.withMounts (c.mounts.hold user.uid b)).addBind b)
    (Mounts.hold_sameBut c.mounts user.uid b)
    (fun b' hne => (hbindings b').trans (or_iff_right fun heq => hne (heq ▸ rfl)))
    (iff_of_true (Mounts.holds_hold _ _ _) ⟨b, (hbindings b).mpr (.inl rfl), rfl⟩)
    (fun b' hb' heq => (hat b' hb' heq).symm ▸ Mounts.hold_source haccepts)
  exact {
    recorded := Mounts.recorded_hold h.recorded hlaid
    holds := hholds
    sources := hsources
    planned := fun b' hb' b'' hb'' heq => by
      rcases mem_addBind.mp hb' with rfl | hb'
      · rcases mem_addBind.mp hb'' with rfl | hb''
        · rfl
        · exact absurd heq.symm (hnew b'' hb'')
      · rcases mem_addBind.mp hb'' with rfl | hb''
        · exact absurd heq (hnew b' hb')
        · exact h.planned b' hb' b'' hb'' heq
    apart := fun b' hb' b'' hb'' => by
      rcases mem_addBind.mp hb' with rfl | hb'
      · exact fun heq => hbridge b'' hb'' heq.symm
      · exact h.apart b' hb' b'' hb''
    portalApart := h.portalApart
    bridges := h.bridges }

theorem Consistent.retire (h : Consistent layout user c) (hflat : Mounts.Flat layout)
    {p : DesktopBind} (hp : c.current.portalBinding = some p) {m : Mounts}
    (hm : c.mounts.Released user.uid p.destination m) :
    Consistent layout user ((c.withMounts m).setPortalBinding none) := by
  have hsame := hm.sameBut h.recorded hflat
  have hbridges : ∀ b', b' ∈ ((c.withMounts m).setPortalBinding none).current.bridgeBinds ↔
      b' ∈ c.current.bridges := fun b' => Iff.rfl
  have hmem : ∀ b', b' ∈ c.current.bridgeBinds ↔ b' = p ∨ b' ∈ c.current.bridges := by
    intro b'
    rw [ActiveDesktop.bridgeBinds, hp]
    simp
  have hbindings : ∀ b', b' ∈ ((c.withMounts m).setPortalBinding none).current.bindings ↔
      b' ∈ c.current.bindings ∧ b'.destination ≠ p.destination := by
    intro b'
    rw [ActiveDesktop.bindings, List.mem_append, hbridges, ActiveDesktop.bindings,
      List.mem_append, hmem]
    constructor
    · rintro (hb' | hb')
      · exact ⟨.inl hb', h.apart b' hb' p ((hmem p).mpr (.inl rfl))⟩
      · exact ⟨.inr (.inr hb'), fun heq => h.portalApart p hp b' hb' heq.symm⟩
    · rintro ⟨hb' | rfl | hb', hne⟩
      · exact .inl hb'
      · exact absurd rfl hne
      · exact .inr hb'
  obtain ⟨hholds, hsources⟩ := h.change ((c.withMounts m).setPortalBinding none) hsame
    (fun b' hne => (hbindings b').trans (and_iff_left hne))
    (iff_of_false hm.not_holds fun ⟨b', hb', heq⟩ => ((hbindings b').mp hb').2 heq)
    (fun b' hb' heq => absurd heq ((hbindings b').mp hb').2)
  exact {
    recorded := hm.recorded h.recorded hflat
    holds := hholds
    sources := hsources
    planned := h.planned
    apart := fun b' hb' b'' hb'' => h.apart b' hb' b'' ((hmem b'').mpr (.inr hb''))
    portalApart := fun p' hp' => by cases hp'
    bridges := fun b' hb' => h.bridges b' ((hmem b').mpr (.inr hb')) }

/-! ## The way there -/

/-- What is to be removed: settings of the old plan that are not wanted. -/
structure Removing (layout : Set Place) (user : DesktopUser) (plan : DesktopPlan R)
    (c : Controller R) (todo : List DesktopBind) (c' : Controller R) : Prop
    extends Underway layout user plan c c' where
  old : ∀ b ∈ c'.current.plan.binds, b ∈ c.current.plan.binds
  nodup : todo.Nodup
  unwanted : ∀ b ∈ todo, b ∈ c'.current.plan.binds ∧ b ∉ plan.binds ∧
    isSettings user b.destination = true
  left : ∀ b ∈ c'.current.plan.binds, b ∉ plan.binds → b ∈ todo

/-- What is to be added: settings of the new plan that are not mounted. -/
structure Adding (layout : Set Place) (user : DesktopUser) (plan : DesktopPlan R)
    (c : Controller R) (todo : List DesktopBind) (c' : Controller R) : Prop
    extends Underway layout user plan c c' where
  nodup : todo.Nodup
  wanted : ∀ b ∈ todo, b ∈ plan.binds ∧ b ∉ c'.current.plan.binds ∧
    isSettings user b.destination = true
  planned : ∀ b ∈ c'.current.plan.binds, b ∈ plan.binds
  left : ∀ b ∈ plan.binds, b ∉ c'.current.plan.binds → b ∈ todo

theorem Removing.step {b : DesktopBind} {todo : List DesktopBind}
    (h : Removing layout user plan c (b :: todo) c') (hflat : Mounts.Flat layout) {m : Mounts}
    (hm : c'.mounts.Released user.uid b.destination m) :
    Removing layout user plan c todo ((c'.withMounts m).dropBind b) := by
  obtain ⟨hb, hunwanted, hsettings⟩ := h.unwanted b List.mem_cons_self
  obtain ⟨hnotin, hnodup⟩ := List.nodup_cons.mp h.nodup
  exact {
    consistent := h.consistent.drop hflat hb hm
    untouched := h.untouched.step (hm.sameBut h.consistent.recorded hflat) (.inl hsettings)
    rest := h.rest
    within := fun b' hb' => h.within b' (mem_dropBind.mp hb').1
    common := fun b' hold hwanted =>
      mem_dropBind.mpr ⟨h.common b' hold hwanted, fun heq => hunwanted (heq ▸ hwanted)⟩
    free := fun b' hb' => (h.free b' hb').released h.consistent.recorded hflat hm
    frank := hm.frank h.frank
    old := fun b' hb' => h.old b' (mem_dropBind.mp hb').1
    nodup := hnodup
    unwanted := fun b' hb' => by
      obtain ⟨hmem, hrest⟩ := h.unwanted b' (List.mem_cons_of_mem b hb')
      exact ⟨mem_dropBind.mpr ⟨hmem, fun heq => hnotin (heq ▸ hb')⟩, hrest⟩
    left := fun b' hb' hunwanted' => by
      obtain ⟨hmem, hne⟩ := mem_dropBind.mp hb'
      exact (List.mem_cons.mp (h.left b' hmem hunwanted')).resolve_left hne }

/-- The destinations of a plan are laid out, each for one source. -/
structure LaidOut (layout : Set Place) (plan : DesktopPlan R) : Prop where
  mem : ∀ b ∈ plan.binds, b.destination ∈ layout
  inj : ∀ b ∈ plan.binds, ∀ b' ∈ plan.binds, b.destination = b'.destination → b = b'

theorem Adding.step {b : DesktopBind} {todo : List DesktopBind}
    (h : Adding layout user plan c (b :: todo) c') (hplan : LaidOut layout plan)
    (haccepts : c'.mounts.Accepts b) :
    Adding layout user plan c todo ((c'.withMounts (c'.mounts.hold user.uid b)).addBind b) := by
  obtain ⟨hwanted, hnew, hsettings⟩ := h.wanted b List.mem_cons_self
  obtain ⟨hnotin, hnodup⟩ := List.nodup_cons.mp h.nodup
  have hother : ∀ b' ∈ c'.current.plan.binds, b'.destination ≠ b.destination := by
    intro b' hb' heq
    exact hnew (hplan.inj b' (h.planned b' hb') b hwanted heq ▸ hb')
  exact {
    consistent := h.consistent.add (hplan.mem b hwanted) hsettings hother haccepts
    untouched := h.untouched.step (Mounts.hold_sameBut _ _ _) (.inl hsettings)
    rest := h.rest
    within := fun b' hb' => by
      rcases mem_addBind.mp hb' with rfl | hb'
      · exact .inr hwanted
      · exact h.within b' hb'
    common := fun b' hold hwanted' => mem_addBind.mpr (.inr (h.common b' hold hwanted'))
    free := fun b' hb' => (h.free b' hb').hold b
    frank := Mounts.hold_frank h.frank _ _
    nodup := hnodup
    wanted := fun b' hb' => by
      obtain ⟨hwanted', hnew', hsettings'⟩ := h.wanted b' (List.mem_cons_of_mem b hb')
      refine ⟨hwanted', fun hmem => ?_, hsettings'⟩
      rcases mem_addBind.mp hmem with rfl | hmem
      · exact hnotin hb'
      · exact hnew' hmem
    planned := fun b' hb' => by
      rcases mem_addBind.mp hb' with rfl | hb'
      · exact hwanted
      · exact h.planned b' hb'
    left := fun b' hwanted' hnew' => by
      rw [mem_addBind, not_or] at hnew'
      exact (List.mem_cons.mp (h.left b' hwanted' hnew'.2)).resolve_left hnew'.1 }

/-! ## The run -/

theorem removeBind_meets {b : DesktopBind} {todo : List DesktopBind}
    (hflat : Mounts.Flat layout) :
    Meets (fun _ => True) (Removing layout user plan c (b :: todo)) (removeBind user.uid b)
      (fun _ => Removing layout user plan c todo) (fun _ => Underway layout user plan c) := by
  refine Meets.each fun c' hc' => Meets.bind
    ((unmountBind_meets user.uid b c').weaken (fun _ h => h) (fun _ _ h => h) ?_) fun _ => ?_
  · rintro _ _ ⟨m, hm, rfl⟩
    rw [hm.of_frank hc'.frank]
    exact hc'.toUnderway
  · refine Meets.update ?_
    rintro _ ⟨m, hm, rfl⟩
    exact ⟨trivial, hc'.step hflat hm⟩

theorem addBind_meets {b : DesktopBind} {todo : List DesktopBind} (hplan : LaidOut layout plan) :
    Meets (fun _ => True) (Adding layout user plan c (b :: todo)) (addBind user.uid b)
      (fun _ => Adding layout user plan c todo) (fun _ => Underway layout user plan c) := by
  refine Meets.each fun c' hc' => Meets.bind
    ((mountBind_meets user.uid b c').weaken (fun _ h => h) (fun _ _ h => h) ?_) fun _ => ?_
  · rintro _ _ rfl
    exact hc'.toUnderway
  · refine Meets.update ?_
    rintro _ ⟨haccepts, rfl⟩
    exact ⟨trivial, hc'.step hplan haccepts⟩

theorem Consistent.setPortal (h : Consistent layout user c) (portal : Bool) :
    Consistent layout user (c.setPortal portal) :=
  ⟨h.recorded, h.holds, h.sources, h.planned, h.apart, h.portalApart, h.bridges⟩

/-- A plan with the same binds says the same of the mounts. -/
theorem Consistent.setPlan (h : Consistent layout user c)
    (hbinds : ∀ b, b ∈ plan.binds ↔ b ∈ c.current.plan.binds) :
    Consistent layout user (c.setPlan plan) := by
  have hbindings : ∀ b, b ∈ (c.setPlan plan).current.bindings ↔ b ∈ c.current.bindings := by
    intro b
    rw [ActiveDesktop.bindings, ActiveDesktop.bindings, List.mem_append, List.mem_append]
    exact or_congr_left (hbinds b)
  exact {
    recorded := h.recorded
    holds := fun d => (h.holds d).trans
      (exists_congr fun b => and_congr_left fun _ => (hbindings b).symm)
    sources := fun b hb => h.sources b ((hbindings b).mp hb)
    planned := fun b hb b' hb' => h.planned b ((hbinds b).mp hb) b' ((hbinds b').mp hb')
    apart := fun b hb => h.apart b ((hbinds b).mp hb)
    portalApart := h.portalApart
    bridges := h.bridges }

/-- Nothing of the plan has changed yet. -/
structure Retired (layout : Set Place) (user : DesktopUser) (plan : DesktopPlan R)
    (c c' : Controller R) : Prop extends Underway layout user plan c c' where
  binds : c'.current.plan.binds = c.current.plan.binds

theorem Retired.refl (hc : Consistent layout user c) (hfrank : c.mounts.Frank) :
    Retired layout user plan c c :=
  ⟨⟨hc, .refl c, rfl, fun _ hb => .inl hb, fun _ hb _ => hb, fun _ hb => hb, hfrank⟩, rfl⟩

theorem closePortal_meets (plan : DesktopPlan R) (hc : Consistent layout user c)
    (hfrank : c.mounts.Frank) :
    Meets (fun _ => True) (· = c) closePortal
      (fun _ c' => Retired layout user plan c c' ∧
        c'.current.portalBinding = c.current.portalBinding)
      (fun _ => Underway layout user plan c) := by
  have hstart : Retired layout user plan c c := .refl hc hfrank
  have hclose : Meets (fun _ => True) (· = c) (performClean DesktopError.osError some)
      (fun _ => (· = c)) (fun _ => Underway layout user plan c) := by
    refine Meets.performClean ?_ ?_
    · rintro _ _ rfl hsome
      exact ⟨trivial, (Option.some.inj hsome).symm⟩
    · rintro _ rfl
      exact hstart.toUnderway
  refine Meets.looked ?_
  split
  · refine Meets.bind hclose fun _ => Meets.bind hclose fun _ => ?_
    refine Meets.update ?_
    rintro _ rfl
    exact ⟨trivial, ⟨⟨hc.setPortal false,
      ⟨fun _ _ _ => rfl, fun _ _ _ => rfl, fun _ _ _ => Iff.rfl⟩,
      rfl, fun _ hb => .inl hb, fun _ hb _ => hb, fun _ hb => hb, hfrank⟩, rfl⟩, rfl⟩
  · refine Meets.pure ?_
    rintro _ rfl
    exact ⟨hstart, rfl⟩

theorem retirePortal_meets (hflat : Mounts.Flat layout) (hc : Consistent layout user c)
    (hfrank : c.mounts.Frank) :
    Meets (fun _ => True) (· = c) (retirePortal user.uid)
      (fun _ => Retired layout user plan c) (fun _ => Underway layout user plan c) := by
  refine Meets.bind (closePortal_meets plan hc hfrank) fun _ => Meets.each fun c' hc' =>
    Meets.looked ?_
  obtain ⟨hretired, hportal⟩ := hc'
  cases hp : c'.current.portalBinding with
  | none =>
      refine Meets.pure ?_
      rintro _ rfl
      exact hretired
  | some p =>
      refine Meets.bind ((unmountBind_meets user.uid p c').weaken (fun _ h => h)
        (fun _ _ h => h) ?_) fun _ => Meets.update ?_
      · rintro _ _ ⟨m, hm, rfl⟩
        rw [hm.of_frank hretired.frank]
        exact hretired.toUnderway
      · rintro _ ⟨m, hm, rfl⟩
        have hsame := hm.sameBut hretired.consistent.recorded hflat
        refine ⟨trivial, ⟨hretired.consistent.retire hflat hp hm,
          hretired.untouched.step hsame (.inr ⟨p, ?_, rfl⟩), hretired.rest, hretired.within,
          hretired.common, fun b hb => (hretired.free b hb).released
            hretired.consistent.recorded hflat hm, hm.frank hretired.frank⟩, hretired.binds⟩
        rw [← hportal, hp]
        rfl

/-- Only settings are to change. -/
def Refreshable (user : DesktopUser) (plan : DesktopPlan R) (c : Controller R) : Prop :=
  plan.rest = c.current.plan.rest ∧
    ∀ b, b ∈ difference c.current.plan.binds plan.binds ++
      difference plan.binds c.current.plan.binds → isSettings user b.destination = true

theorem Retired.removing (h : Retired layout user plan c c') (hsettings : Refreshable user plan c) :
    Removing layout user plan c (difference c.current.plan.binds plan.binds) c' where
  toUnderway := h.toUnderway
  old b hb := h.binds ▸ hb
  nodup := nodup_difference _ _
  unwanted b hb := by
    obtain ⟨hold, hunwanted⟩ := mem_difference.mp hb
    exact ⟨h.binds ▸ hold, hunwanted, hsettings.2 b (List.mem_append_left _ hb)⟩
  left b hb hunwanted := mem_difference.mpr ⟨h.binds ▸ hb, hunwanted⟩

theorem Removing.adding (h : Removing layout user plan c [] c')
    (hsettings : Refreshable user plan c) :
    Adding layout user plan c (difference plan.binds c.current.plan.binds) c' where
  toUnderway := h.toUnderway
  nodup := nodup_difference _ _
  wanted b hb := by
    obtain ⟨hwanted, hnew⟩ := mem_difference.mp hb
    exact ⟨hwanted, fun hmem => hnew (h.old b hmem), hsettings.2 b (List.mem_append_right _ hb)⟩
  planned b hb := by
    by_contra hunwanted
    cases h.left b hb hunwanted
  left b hwanted hnew :=
    mem_difference.mpr ⟨hwanted, fun hold => hnew (h.common b hold hwanted)⟩

theorem Adding.mem_binds (h : Adding layout user plan c [] c') (b : DesktopBind) :
    b ∈ plan.binds ↔ b ∈ c'.current.plan.binds := by
  refine ⟨fun hwanted => ?_, h.planned b⟩
  by_contra hnew
  cases h.left b hwanted hnew

theorem Underway.refreshable (h : Underway layout user plan c c')
    (hsettings : Refreshable user plan c) : Refreshable user plan c' := by
  refine ⟨hsettings.1.trans h.rest.symm, fun b hb => hsettings.2 b ?_⟩
  rw [List.mem_append, mem_difference, mem_difference] at hb ⊢
  rcases hb with ⟨hb, hunwanted⟩ | ⟨hwanted, hnew⟩
  · exact .inl ⟨(h.within b hb).resolve_right hunwanted, hunwanted⟩
  · exact .inr ⟨hwanted, fun hold => hnew (h.common b hold hwanted)⟩

theorem not_refreshable_binds (h : ¬ (difference c.current.plan.binds plan.binds ++
      difference plan.binds c.current.plan.binds).any
        (fun b => !isSettings user b.destination) = true) :
    ∀ b, b ∈ difference c.current.plan.binds plan.binds ++
      difference plan.binds c.current.plan.binds → isSettings user b.destination = true := by
  intro b hb
  by_contra hsettings
  exact h (List.any_eq_true.mpr ⟨b, hb, by simpa using hsettings⟩)

/-! ## Where nothing fails -/

theorem Adding.accepts {b : DesktopBind} {todo : List DesktopBind}
    (h : Adding layout user plan c (b :: todo) c') (hplan : LaidOut layout plan)
    (hfree : ∀ b ∈ plan.binds, c.mounts.Free user.uid b) : c'.mounts.Accepts b := by
  obtain ⟨hwanted, hnew, hsettings⟩ := h.wanted b List.mem_cons_self
  refine (h.free b (hfree b hwanted)).accepts h.consistent.recorded fun hholds => ?_
  obtain ⟨b', hb', heq⟩ := (h.consistent.holds _).mp hholds
  rcases List.mem_append.mp hb' with hb' | hb'
  · exact hnew (hplan.inj b' (h.planned b' hb') b hwanted heq ▸ hb')
  · rw [← heq, h.consistent.bridges b' hb'] at hsettings
    cases hsettings

theorem removeBind_completes {b : DesktopBind} {todo : List DesktopBind}
    (hflat : Mounts.Flat layout) :
    Completes (Removing layout user plan c (b :: todo)) (removeBind user.uid b)
      (fun _ => Removing layout user plan c todo) := by
  refine Completes.of_meets (Completes.each fun c' hc' => ?_) (removeBind_meets hflat)
  exact Completes.bind (unmountBind_completes user.uid b c'
    (by rw [hc'.frank.report]; decide)) fun _ => Completes.update fun _ _ => trivial

theorem addBind_completes {b : DesktopBind} {todo : List DesktopBind}
    (hplan : LaidOut layout plan) (hfree : ∀ b ∈ plan.binds, c.mounts.Free user.uid b) :
    Completes (Adding layout user plan c (b :: todo)) (addBind user.uid b)
      (fun _ => Adding layout user plan c todo) := by
  refine Completes.of_meets (Completes.each fun c' hc' => ?_) (addBind_meets hplan)
  exact Completes.bind (mountBind_completes user.uid b c' (hc'.accepts hplan hfree))
    fun _ => Completes.update fun _ _ => trivial

theorem closePortal_completes : Completes (· = c) closePortal (fun _ _ => True) := by
  have hclose : Completes (fun _ => True)
      (performClean DesktopError.osError some : Routine (Controller R) DesktopError Unit)
      (fun _ _ => True) := Completes.performClean fun c' _ => ⟨c', rfl, trivial⟩
  refine Completes.looked ?_
  split
  · refine Completes.bind (hclose.weaken (fun _ _ => trivial) fun _ _ h => h) fun _ => ?_
    exact Completes.bind hclose fun _ => Completes.update fun _ _ => trivial
  · exact Completes.pure fun _ _ => trivial

theorem retirePortal_completes (plan : DesktopPlan R) (hflat : Mounts.Flat layout)
    (hc : Consistent layout user c) (hfrank : c.mounts.Frank) :
    Completes (· = c) (retirePortal user.uid) (fun _ => Retired layout user plan c) := by
  refine Completes.of_meets ?_ (retirePortal_meets hflat hc hfrank)
  refine Completes.bind (Completes.of_meets closePortal_completes
    (closePortal_meets plan hc hfrank)) fun _ => ?_
  refine Completes.each fun c' hc' => Completes.looked ?_
  cases hp : c'.current.portalBinding with
  | none => exact Completes.pure fun _ _ => trivial
  | some p =>
      exact Completes.bind (unmountBind_completes user.uid p c'
        (by rw [hc'.1.frank.report]; decide)) fun _ => Completes.update fun _ _ => trivial

/-! ## A refresh -/

theorem Refreshable.congr (h : Refreshable user plan c)
    (hplan : c'.current.plan = c.current.plan) : Refreshable user plan c' := by
  rw [Refreshable, hplan]
  exact h

theorem refreshable_self (hplan : c.current.plan = plan) : Refreshable user plan c := by
  refine ⟨hplan ▸ rfl, fun b hb => ?_⟩
  rw [hplan, List.mem_append, mem_difference] at hb
  rcases hb with ⟨hb, hnot⟩ | ⟨hb, hnot⟩
  · exact absurd hb hnot
  · exact absurd hb hnot

/-- The part of a refresh that changes mounts. -/
def changeSettings (user : DesktopUser) (plan : DesktopPlan R) (c : Controller R) :
    Routine (Controller R) DesktopError Unit := do
  retirePortal user.uid
  forEach (removeBind user.uid) (difference c.current.plan.binds plan.binds)
  forEach (addBind user.uid) (difference plan.binds c.current.plan.binds)

theorem changeSettings_meets (hflat : Mounts.Flat layout) (hplan : LaidOut layout plan)
    (hc : Consistent layout user c) (hfrank : c.mounts.Frank)
    (hsettings : Refreshable user plan c) :
    Meets (fun _ => True) (· = c) (changeSettings user plan c)
      (fun _ => Adding layout user plan c []) (fun _ => Underway layout user plan c) := by
  refine Meets.bind (retirePortal_meets hflat hc hfrank) fun _ => ?_
  refine Meets.bind ((Meets.forEach fun b todo => removeBind_meets hflat).weaken
    (fun _ h => h.removing hsettings) (fun _ _ h => h) fun _ _ h => h) fun _ => ?_
  exact (Meets.forEach fun b todo => addBind_meets hplan).weaken
    (fun _ h => h.adding hsettings) (fun _ _ h => h) fun _ _ h => h

theorem changeSettings_completes (hflat : Mounts.Flat layout) (hplan : LaidOut layout plan)
    (hc : Consistent layout user c) (hfrank : c.mounts.Frank)
    (hsettings : Refreshable user plan c)
    (hfree : ∀ b ∈ plan.binds, c.mounts.Free user.uid b) :
    Completes (· = c) (changeSettings user plan c) (fun _ => Adding layout user plan c []) := by
  refine Completes.bind (retirePortal_completes plan hflat hc hfrank) fun _ => ?_
  refine Completes.bind (Q := fun _ => Removing layout user plan c []) ?_ fun _ => ?_
  · exact (Completes.forEach fun b todo => removeBind_completes hflat).weaken
      (fun _ h => h.removing hsettings) fun _ _ h => h
  · exact (Completes.forEach fun b todo => addBind_completes hplan hfree).weaken
      (fun _ h => h.adding hsettings) fun _ _ h => h

variable [DecidableEq R]

theorem refreshSettings_meets (hflat : Mounts.Flat layout) (hplan : LaidOut layout plan)
    (hc : Consistent layout user c) (hfrank : c.mounts.Frank) :
    Meets (fun _ => True) (· = c) (refreshSettings user plan)
      (fun done c' => Consistent layout user c' ∧ c'.mounts.Frank ∧ Untouched user c c' ∧
        (if done then c'.current.plan = plan else c' = c))
      (fun _ => Underway layout user plan c) := by
  refine Meets.looked ?_
  dsimp only
  split
  · refine Meets.pure ?_
    rintro _ rfl
    exact ⟨hc, hfrank, .refl _, rfl⟩
  · next hrest =>
      split
      · refine Meets.pure ?_
        rintro _ rfl
        exact ⟨hc, hfrank, .refl _, rfl⟩
      · next hbinds =>
          have hsettings : Refreshable user plan c :=
            ⟨not_not.mp hrest, not_refreshable_binds hbinds⟩
          have hway := changeSettings_meets hflat hplan hc hfrank hsettings
          refine Meets.bind (Meets.tryCatch hway fun _ => Meets.throw fun _ h => h) fun _ => ?_
          refine Meets.bind (Q := fun _ c' => Consistent layout user c' ∧ c'.mounts.Frank ∧
            Untouched user c c' ∧ c'.current.plan = plan) (Meets.update ?_) fun _ =>
              Meets.pure fun _ h => h
          intro c' h
          exact ⟨trivial, h.consistent.setPlan h.mem_binds, h.frank, ⟨h.untouched.users,
            h.untouched.sources, h.untouched.table⟩, rfl⟩

/-- A change of settings that nothing stands against is made. -/
theorem refreshSettings_completes (hflat : Mounts.Flat layout) (hplan : LaidOut layout plan)
    (hc : Consistent layout user c) (hfrank : c.mounts.Frank)
    (hsettings : Refreshable user plan c)
    (hfree : ∀ b ∈ plan.binds, c.mounts.Free user.uid b) :
    Completes (· = c) (refreshSettings user plan)
      (fun done c' => done = true ∧ Exact user c' ∧ c'.current.plan = plan) := by
  refine Completes.looked ?_
  dsimp only
  have hbinds : ¬ (difference c.current.plan.binds plan.binds ++
      difference plan.binds c.current.plan.binds).any
        (fun b => !isSettings user b.destination) = true := by
    rw [List.any_eq_true]
    rintro ⟨b, hb, hnot⟩
    rw [hsettings.2 b hb] at hnot
    cases hnot
  rw [if_neg (not_not.mpr hsettings.1), if_neg hbinds]
  have hway := changeSettings_completes hflat hplan hc hfrank hsettings hfree
  refine Completes.bind (Completes.tryCatch hway) fun _ => ?_
  refine Completes.bind (Q := fun _ c' => Exact user c' ∧ c'.current.plan = plan)
    (Completes.update fun c' h => ⟨?_, rfl⟩) fun _ => Completes.pure fun _ h => ⟨rfl, h⟩
  exact (h.consistent.setPlan h.mem_binds).exact h.frank.1

/-- As long as every unmount is told of, whatever else fails on the way, the plan says
what is mounted afterwards, nothing else is touched, and a refresh that wants the same and
meets no failure brings it about. -/
theorem refreshSettings_atomic (hflat : Mounts.Flat layout) (hplan : LaidOut layout plan)
    (hc : Consistent layout user c) (hfrank : c.mounts.Frank) (faults : List Fault) :
    let last := (refreshSettings user plan { state := c, faults := faults }).2.state
    Exact user last ∧ Untouched user c last ∧
      ∀ c' : Controller R, Consistent layout user c' → c'.mounts.Frank →
        c'.current.plan = last.current.plan → Refreshable user plan c →
        (∀ b ∈ plan.binds, c'.mounts.Free user.uid b) →
        ∃ t, refreshSettings user plan { state := c' } = (.ok true, t) ∧
          Exact user t.state ∧ t.state.current.plan = plan := by
  intro last
  have hmeets := refreshSettings_meets hflat hplan hc hfrank { state := c, faults := faults }
    (fun _ _ => trivial) rfl
  have hlast : Exact user last ∧ Untouched user c last ∧
      (Refreshable user plan c → Refreshable user plan last) := by
    generalize hresult : refreshSettings user plan { state := c, faults := faults } = result
      at hmeets
    have heq : last = result.2.state := by rw [← hresult]
    rw [heq]
    match result, hmeets with
    | (.ok true, t), ⟨_, hconsistent, htold, huntouched, hplan⟩ =>
        exact ⟨hconsistent.exact htold.1, huntouched, fun _ => refreshable_self hplan⟩
    | (.ok false, t), ⟨_, hconsistent, htold, huntouched, hsame⟩ =>
        exact ⟨hconsistent.exact htold.1, huntouched,
          fun h => h.congr (congrArg (·.current.plan) hsame)⟩
    | (.error _, t), ⟨_, hunderway⟩ =>
        exact ⟨hunderway.consistent.exact hunderway.frank.1, hunderway.untouched,
          hunderway.refreshable⟩
  refine ⟨hlast.1, hlast.2.1, fun c' hc' hfrank' hsame hsettings hfree => ?_⟩
  obtain ⟨done, t, hrun, -, rfl, hexact⟩ := refreshSettings_completes hflat hplan hc' hfrank'
    ((hlast.2.2 hsettings).congr hsame) hfree { state := c' } rfl rfl
  exact ⟨t, hrun, hexact⟩

/-! ## An unmount that fails unseen -/

def alice : DesktopUser := ⟨1000, [fsText "home".toList, fsText "alice".toList]⟩

def globals : DesktopBind where
  destination := alice.guestHome ++ [fsText ".config".toList, fsText "kdeglobals".toList]
  source := [fsText "home".toList, fsText "alice".toList, fsText "kdeglobals".toList]
  device := 1
  inode := 2

def portalSocket : DesktopBind where
  destination := desktopRoot 1000 ++ [fsText "portal".toList, fsText "bus".toList]
  source := [fsText "run".toList, fsText "portal".toList]
  device := 1
  inode := 3

def noMounts : Mounts := {}

/-- The portal's bridge is all that is mounted. -/
def onlyPortal : Controller Unit :=
  ⟨noMounts.hold 1000 portalSocket, ⟨⟨[], ()⟩, false, some portalSocket, []⟩⟩

def onlyGlobals : DesktopPlan Unit := ⟨[globals], ()⟩

theorem flat_two : Mounts.Flat {portalSocket.destination, globals.destination} := by
  rintro d (rfl | rfl) d' (rfl | rfl)
  · exact fun _ => rfl
  · exact fun h => absurd h (by decide)
  · exact fun h => absurd h (by decide)
  · exact fun _ => rfl

theorem laidOut_onlyGlobals : LaidOut {portalSocket.destination, globals.destination}
    onlyGlobals where
  mem b hb := by
    rw [List.mem_singleton.mp hb]
    exact .inr rfl
  inj b hb b' hb' _ := (List.mem_singleton.mp hb).trans (List.mem_singleton.mp hb').symm

theorem recorded_noMounts (layout : Set Place) : noMounts.Recorded layout where
  table _ e := iff_of_false List.not_mem_nil fun h => absurd h.1 Bool.false_ne_true
  known d hd := absurd hd Bool.false_ne_true
  used d users hd := by cases hd
  distinct _ := List.nodup_nil
  laidOut d hd := absurd hd Bool.false_ne_true
  placed := nofun

theorem consistent_onlyPortal :
    Consistent {portalSocket.destination, globals.destination} alice onlyPortal where
  recorded := Mounts.recorded_hold (recorded_noMounts _) (.inl rfl)
  holds d := by
    by_cases hd : d = portalSocket.destination
    · rw [hd]
      exact iff_of_true (Mounts.holds_hold noMounts 1000 portalSocket)
        ⟨portalSocket, List.mem_singleton_self _, rfl⟩
    · refine iff_of_false (fun h => ?_) fun ⟨b, hb, heq⟩ => hd ?_
      · obtain ⟨users, husers, -⟩ := ((Mounts.hold_sameBut noMounts 1000 portalSocket).holds
          hd).mp h
        cases husers
      · rw [← heq, List.mem_singleton.mp hb]
  sources b hb := by
    rw [List.mem_singleton.mp hb]
    exact Mounts.hold_source (m := noMounts) fun users h => by cases h
  planned b hb := by cases hb
  apart b hb := by cases hb
  portalApart p hp b hb := by cases hb
  bridges b hb := by
    rw [List.mem_singleton.mp hb]
    decide

theorem frank_onlyPortal : onlyPortal.mounts.Frank := ⟨rfl, nofun⟩

/-- The new settings cannot be mounted, and then they can. -/
theorem globals_retried :
    let last := (refreshSettings alice onlyGlobals
      { state := onlyPortal, faults := [.none, .none, .none, .before] }).2.state
    Exact alice last ∧ Untouched alice onlyPortal last ∧
      ∀ c', Consistent {portalSocket.destination, globals.destination} alice c' →
        c'.mounts.Frank → c'.current.plan = last.current.plan →
        Refreshable alice onlyGlobals onlyPortal →
        (∀ b ∈ onlyGlobals.binds, c'.mounts.Free 1000 b) →
        ∃ t, refreshSettings alice onlyGlobals { state := c' } = (.ok true, t) ∧
          Exact alice t.state ∧ t.state.current.plan = onlyGlobals :=
  refreshSettings_atomic flat_two laidOut_onlyGlobals consistent_onlyPortal frank_onlyPortal _

/-- A setting is mounted, and the machine will fail to unmount it. -/
def globalsMounted : Controller Unit where
  mounts := { noMounts.hold 1000 globals with reports := [.unseen] }
  current := ⟨onlyGlobals, false, none, []⟩

theorem consistent_globalsMounted : Consistent {globals.destination} alice globalsMounted where
  recorded := by
    have h : (noMounts.hold 1000 globals).Recorded {globals.destination} :=
      Mounts.recorded_hold (recorded_noMounts _) rfl
    exact ⟨h.table, h.known, h.used, h.distinct, h.laidOut, h.placed⟩
  holds d := by
    by_cases hd : d = globals.destination
    · rw [hd]
      exact iff_of_true (Mounts.holds_hold noMounts 1000 globals)
        ⟨globals, List.mem_singleton_self _, rfl⟩
    · refine iff_of_false (fun h => ?_) fun ⟨b, hb, heq⟩ => hd ?_
      · obtain ⟨users, husers, -⟩ := ((Mounts.hold_sameBut noMounts 1000 globals).holds hd).mp h
        cases husers
      · rw [← heq, List.mem_singleton.mp hb]
  sources b hb := by
    rw [List.mem_singleton.mp hb]
    have haccepts : noMounts.Accepts globals := fun users h => by cases h
    exact @Mounts.hold_source noMounts 1000 globals haccepts
  planned b hb b' hb' _ := (List.mem_singleton.mp hb).trans (List.mem_singleton.mp hb').symm
  apart b hb b' hb' := by cases hb'
  portalApart p hp := by cases hp
  bridges b hb := by cases hb

/-- The refresh ends well and has dropped the setting, which is still mounted. -/
theorem globals_stayMounted :
    let result := refreshSettings alice ⟨[], ()⟩ { state := globalsMounted }
    Consistent {globals.destination} alice globalsMounted ∧ result.1 = .ok true ∧
      ¬ Exact alice result.2.state := by
  have hremoved : difference [globals] [] = [globals] := by simp [difference, sorted]
  have hadded : difference [] [globals] = [] := by simp [difference, sorted]
  have hresult :
      let result := refreshSettings alice ⟨[], ()⟩ { state := globalsMounted }
      result.1 = .ok true ∧
        result.2.state.mounts.table = [⟨globals.destination, globals.identity⟩] ∧
        result.2.state.mounts.destinationUsers globals.destination = none := by
    unfold refreshSettings
    rw [bind_of_ok (show look { state := globalsMounted } =
      (.ok globalsMounted, { state := globalsMounted }) from rfl)]
    simp only [globalsMounted, onlyGlobals, hremoved, hadded]
    rw [if_neg (by decide), if_neg (by decide)]
    exact ⟨rfl, rfl, rfl⟩
  refine ⟨consistent_globalsMounted, hresult.1, fun hexact => ?_⟩
  obtain ⟨uid, users, husers, -⟩ := hexact.2 ⟨globals.destination, globals.identity⟩ (by
    rw [hresult.2.1]
    exact List.mem_singleton_self _)
  rw [hresult.2.2] at husers
  cases husers

end Spaces.Desktop
