import Mathlib.Data.Finset.Basic
import Mathlib.Data.List.Dedup
import Spaces.Library.MountTable
import Spaces.Library.Routine

/-!
# The mount worker

A user's home entries are bound into a space while the user is logged in. The
mounts there can be are prepared at launch. Each time the login state may have
changed the worker reads it, takes off the binds of the users who are gone, those
further down first, and binds what is missing for the others. A bind that cannot be
added is skipped; one that cannot be taken off ends the worker, and the space.

When the login state is the one of the last time, and the desktops were set up, only
the desktops are looked after. What comes of them is given, since nothing of it
touches the home binds; so is the answer of the login manager. The worker begins when
the space is registered, so `_wait_until_registered` has nothing to wait for.
-/

namespace Spaces.Workers

open Spaces.Library

structure HomeMount where
  /-- Its components, without the root. -/
  destination : List String
  source : List String
  uid : Nat
  deriving DecidableEq

def HomeMount.text (m : HomeMount) : String := "/" ++ "/".intercalate m.destination

/-- The order of the fields. -/
def HomeMount.le (a b : HomeMount) : Bool :=
  ((compare a.text b.text).then <| (compare a.source b.source).then <|
    compare a.uid b.uid).isLE

def sortedMounts (mounts : List HomeMount) : List HomeMount := mounts.mergeSort HomeMount.le

def planMounts (available : List HomeMount) (eligible : Finset Nat) : List HomeMount :=
  available.filter fun mount => mount.uid ∈ eligible

/-- The users who are logged in, and what is known of their graphical sessions. -/
structure LoginSnapshot (S : Type) where
  eligible : Finset Nat
  graphical : S
  deriving DecidableEq

variable {S : Type} [DecidableEq S]

structure MountState (S : Type) where
  /-- The mounts that the worker takes for bound. -/
  mounted : List HomeMount
  /-- The home binds in the guest, the latest first. -/
  table : List HomeMount
  eligible : Finset Nat
  snapshot : Option (LoginSnapshot S)

inductive MountError
  /-- A command that failed, or could not be run. -/
  | command
  | login
  | resourceChanged
  | desktop
  deriving DecidableEq

abbrev MountRoutine (S : Type) := Routine (MountState S) MountError

open Routine

/-! ## The binds -/

def MountState.track (mount : HomeMount) (s : MountState S) : MountState S :=
  { s with mounted := mount :: s.mounted }

def MountState.untrack (mount : HomeMount) (s : MountState S) : MountState S :=
  { s with mounted := s.mounted.filter (· ≠ mount) }

def unmountHome (mount : HomeMount) : MountRoutine S Unit :=
  perform .command fun s =>
    (MountTable.detach HomeMount.destination mount.destination s.table).map fun table =>
      { s with table := table }

/-- A bind that fails leaves nothing. -/
def bindHome (mount : HomeMount) : MountRoutine S Unit :=
  performClean .command fun s => some { s with table := mount :: s.table }

def removeMount (mount : HomeMount) : MountRoutine S Unit := do
  unmountHome mount
  update (.untrack mount)

def addMount (mount : HomeMount) : MountRoutine S Unit := do
  let added ← tryCatch (do
      bindHome mount
      pure true)
    fun _ => pure false
  if added then update (.track mount) else pure ()

/-! ## The desktops -/

inductive Desktops
  | ready
  /-- Setting one up failed; the space goes on. -/
  | refused
  | raised
  deriving DecidableEq

inductive Portals
  | ready
  | resourceChanged
  | raised
  deriving DecidableEq

def reconcileDesktops : Desktops → MountRoutine S Bool
  | .ready => pure true
  | .refused => pure false
  | .raised => throw .desktop

def reconcilePortals : Portals → MountRoutine S Unit
  | .ready => pure ()
  | .resourceChanged => throw .resourceChanged
  | .raised => throw .desktop

/-! ## A waking -/

/-- What the worker meets when it is woken. -/
structure Waking (S : Type) where
  /-- The login state, if it can be read. -/
  login : Option (LoginSnapshot S)
  desktops : Desktops := .ready
  portals : Portals := .ready

/-- What a worker is made for. -/
structure MountConfig where
  available : List HomeMount
  /-- Some user has desktop integration or credential agents. -/
  forwards : Bool

def mountRemovals (s : MountState S) (desired : List HomeMount) : List HomeMount :=
  (s.mounted.filter fun mount => !desired.contains mount).mergeSort fun a b =>
    b.destination.length ≤ a.destination.length

def mountAdditions (s : MountState S) (desired : List HomeMount) : List HomeMount :=
  sortedMounts (desired.dedup.filter fun mount => !s.mounted.contains mount)

/-- Sessions may still be starting, so an unchanged login state is no reason to leave
the desktops alone. -/
def refreshDesktops (config : MountConfig) (waking : Waking S) : MountRoutine S Unit :=
  if config.forwards then do
    let ready ← reconcileDesktops waking.desktops
    update fun s => if ready then s else { s with snapshot := none }
  else pure ()

/-- The same login state as the last time. -/
def reconcileUnchanged (config : MountConfig) (waking : Waking S) : MountRoutine S Unit := do
  refreshDesktops config waking
  reconcilePortals waking.portals

/-- The desktops of another login state, which is remembered if they are ready. -/
def rememberLogin (login : LoginSnapshot S) (waking : Waking S) : MountRoutine S Unit := do
  update fun s => { s with eligible := login.eligible }
  let ready ← reconcileDesktops waking.desktops
  update fun s => { s with snapshot := if ready then some login else none }

def reconcileChanged (desired : List HomeMount) : MountRoutine S Unit := do
  let s ← look
  forEach removeMount (mountRemovals s desired)
  forEach addMount (mountAdditions s desired)

def reconcileMounts (config : MountConfig) (waking : Waking S) : MountRoutine S Unit :=
  match waking.login with
  | none => throw .login
  | some login => do
      let s ← look
      if s.snapshot = some login then reconcileUnchanged config waking
      else do
        -- without additions and removals nothing is done but remembering the login
        reconcileChanged (planMounts config.available login.eligible)
        rememberLogin login waking

def reconcileRetryable (config : MountConfig) (waking : Waking S) : MountRoutine S Unit :=
  tryCatch (reconcileMounts config waking) fun error =>
    if error = .resourceChanged then update fun s => { s with snapshot := none }
    else throw error

structure MountWorker (S : Type) where
  state : MountState S
  /-- The thread has come to its end by an exception. -/
  ended : Bool := false
  /-- The space was sent `SIGTERM`. -/
  signalled : Bool := false
  exited : Bool := false

inductive MountEvent (S : Type)
  /-- The process of the space is gone. -/
  | exits
  /-- The worker is woken, and its commands fail as they do. -/
  | wakes (waking : Waking S) (faults : List Fault)

def MountWorker.handle (config : MountConfig) (w : MountWorker S) :
    MountEvent S → MountWorker S
  | .exits => { w with exited := true }
  | .wakes waking faults =>
      if w.ended then w
      else
        match reconcileRetryable config waking { state := w.state, faults := faults } with
        | (.ok (), t) => { w with state := t.state }
        | (.error _, t) =>
            { w with state := t.state, ended := true, signalled := !w.exited }

/-- The space is started with the mounts of the users who are logged in, those
further up first. -/
def MountWorker.launch (config : MountConfig) (eligible : Finset Nat) : MountWorker S where
  state :=
    { mounted := (planMounts config.available eligible).dedup
      table := (sortedMounts (planMounts config.available eligible)).reverse
      eligible := eligible
      snapshot := none }

end Spaces.Workers
