import Mathlib.Data.List.Basic
import Spaces.Library.MountTable
import Spaces.Library.Routine

/-!
# The device worker

A space sees the devices of the host as binds below `/dev`, and the device policy
of its unit says which of them it may open. When the host's devices change, the
worker takes the binds of those that are gone off, narrows the policy once, and
then, for each new device, widens the policy and binds it. A device that cannot be
bound is skipped and the policy put back; whatever else fails ends the worker, and
the space with it.

What `discover` decides about a file below `/dev` is a parameter; where it puts the
node is not. So is what systemd makes of the unit's list when a list is assigned to it:
`Manager` says what it documents, that a list is added to the one there is and that only
an empty one clears it.
-/

namespace Spaces.Workers

open Spaces.Library

/-- The levels at which a space has a device worker. -/
inductive DeviceLevel
  | basic
  | admin
  | full
  deriving DecidableEq

inductive Kind
  | block
  | char
  deriving DecidableEq

structure DeviceNode where
  /-- Its components, without the root. -/
  destination : List String
  source : List String
  kind : Kind
  major : Nat
  minor : Nat
  deriving DecidableEq

def Kind.family : Kind → String
  | .block => "block"
  | .char => "char"

def DeviceNode.allowSpec (node : DeviceNode) : String :=
  "/dev/" ++ node.kind.family ++ "/" ++ toString node.major ++ ":" ++ toString node.minor

/-- The order of the fields. -/
def DeviceNode.le (a b : DeviceNode) : Bool :=
  ((compare a.destination b.destination).then <| (compare a.source b.source).then <|
    (compare a.kind.family b.kind.family).then <| (compare a.major b.major).then <|
      compare a.minor b.minor).isLE

def sortedNodes (nodes : List DeviceNode) : List DeviceNode := nodes.mergeSort DeviceNode.le

/-! ## Discovery -/

/-- What `os.walk` lists below `/dev`: each file once, and nothing below a file. -/
structure Walk where
  paths : List (List String)
  nodup : paths.Nodup
  files : ∀ p ∈ paths, ∀ q ∈ paths, p <+: q → p = q

structure Classified where
  source : List String
  kind : Kind
  major : Nat
  minor : Nat

structure Discovery where
  walk : Walk
  /-- What comes of a file by its type, its number and what udev knows of it. -/
  classify : List String → Option Classified

def Discovery.nodeAt (d : Discovery) (path : List String) : Option DeviceNode :=
  (d.classify path).map fun a =>
    { destination := "dev" :: path
      source := a.source
      kind := a.kind
      major := a.major
      minor := a.minor }

def Discovery.discover (d : Discovery) : List DeviceNode :=
  sortedNodes (d.walk.paths.filterMap d.nodeAt)

/-! ## The policy -/

structure DevicePolicy where
  policy : String
  allow : List (String × String)
  deriving DecidableEq

def baseDeviceAllow : List (String × String) :=
  [("/dev/net/tun", "rwm"), ("char-pts", "rw"), ("/dev/fuse", "rwm")]

def devicePolicy (level : DeviceLevel) (nodes : List DeviceNode) : DevicePolicy :=
  if level = .full then ⟨"auto", []⟩
  else ⟨"closed",
    baseDeviceAllow ++ (sortedNodes nodes).map fun node => (node.allowSpec, "rw")⟩

/-- The manager lets everything pass under `auto` when nothing is listed. -/
def DevicePolicy.permits (p : DevicePolicy) (node : DeviceNode) : Bool :=
  (p.policy = "auto" && p.allow.isEmpty) || p.allow.contains (node.allowSpec, "rw")

/-- One entry to a path. -/
def Consistent (entries : List (String × String)) : Prop :=
  ∀ a ∈ entries, ∀ b ∈ entries, a.1 = b.1 → a = b

/-- What systemd makes of a unit's list when a list is assigned to it. -/
structure Manager where
  assign : List (String × String) → List (String × String) → List (String × String)
  reset : ∀ listed, assign listed [] = []
  /-- Entries are added, and take the place of those of the same path. -/
  mem_assign : ∀ {listed entries}, entries ≠ [] → Consistent entries → ∀ {entry},
    entry ∈ assign listed entries ↔
      entry ∈ entries ∨ entry ∈ listed ∧ ∀ other ∈ entries, other.1 ≠ entry.1

def DevicePolicy.assign (manager : Manager) (p wanted : DevicePolicy) : DevicePolicy :=
  ⟨wanted.policy, manager.assign p.allow wanted.allow⟩

/-! ## The worker -/

structure DeviceState where
  /-- The nodes that the worker takes for bound. -/
  mounted : List DeviceNode
  /-- The binds in the guest, the latest first. -/
  bound : List DeviceNode
  policy : DevicePolicy

inductive DeviceError
  /-- A command that failed, or could not be run. -/
  | command
  | discovery

/-- What the commands of a waking do. A bind that fails leaves nothing. -/
structure Failures where
  unmount : DeviceNode → Fault := fun _ => .none
  narrow : Fault := .none
  widen : DeviceNode → Fault := fun _ => .none
  bindFails : DeviceNode → Bool := fun _ => false
  restore : DeviceNode → Fault := fun _ => .none

abbrev DeviceRoutine := Routine DeviceState DeviceError

open Routine

section

variable (manager : Manager) (level : DeviceLevel) (failures : Failures)

def unmountInMachine (node : DeviceNode) : DeviceRoutine Unit :=
  performAs (failures.unmount node) .command fun s =>
    (MountTable.detach DeviceNode.destination node.destination s.bound).map fun bound =>
      { s with bound := bound }

def bindInMachine (node : DeviceNode) : DeviceRoutine Unit :=
  performAs (if failures.bindFails node then .before else .none) .command fun s =>
    some { s with bound := node :: s.bound }

def setDevicePolicy (fault : Fault) (nodes : DeviceState → List DeviceNode) :
    DeviceRoutine Unit :=
  performAs fault .command fun s =>
    some { s with policy := s.policy.assign manager (devicePolicy level (nodes s)) }

def DeviceState.track (node : DeviceNode) (s : DeviceState) : DeviceState :=
  { s with mounted := node :: s.mounted }

def DeviceState.untrack (node : DeviceNode) (s : DeviceState) : DeviceState :=
  { s with mounted := s.mounted.filter (· ≠ node) }

def removeNode (node : DeviceNode) : DeviceRoutine Unit := do
  unmountInMachine failures node
  update (.untrack node)

def addNode (node : DeviceNode) : DeviceRoutine Unit := do
  let added ← tryCatch (do
      setDevicePolicy manager level (failures.widen node) fun s => node :: s.mounted
      bindInMachine failures node
      pure true)
    fun _ => do
      setDevicePolicy manager level (failures.restore node) DeviceState.mounted
      pure false
  if added then update (.track node) else pure ()

/-- The nodes to unbind, those further down first. -/
def removals (s : DeviceState) (desired : List DeviceNode) : List DeviceNode :=
  (s.mounted.filter fun node => !desired.contains node).mergeSort fun a b =>
    b.destination.length ≤ a.destination.length

def additions (s : DeviceState) (desired : List DeviceNode) : List DeviceNode :=
  sortedNodes (desired.filter fun node => !s.mounted.contains node)

/-- The first loop, and the one update of the policy after it. -/
def unbindRemovals (desired : List DeviceNode) : DeviceRoutine Unit := do
  let s ← look
  forEach (removeNode failures) (removals s desired)
  if removals s desired ≠ [] then
    setDevicePolicy manager level failures.narrow DeviceState.mounted
  else pure ()

def bindAdditions (desired : List DeviceNode) : DeviceRoutine Unit := do
  let s ← look
  forEach (addNode manager level failures) (additions s desired)

/-- Nothing is found when the discovery itself fails. -/
def reconcile : Option Discovery → DeviceRoutine Unit
  | none => throw .discovery
  | some found => do
      unbindRemovals manager level failures found.discover
      bindAdditions manager level failures found.discover

end

structure DeviceWorker where
  state : DeviceState
  /-- The thread has come to its end by an exception. -/
  ended : Bool := false
  /-- The space was sent `SIGTERM`. -/
  signalled : Bool := false
  exited : Bool := false

inductive DeviceEvent
  /-- The process of the space is gone. -/
  | exits
  /-- The worker is woken, finds what it finds, and its commands fail as they do. -/
  | wakes (found : Option Discovery) (failures : Failures)

def DeviceWorker.handle (manager : Manager) (level : DeviceLevel) (w : DeviceWorker) :
    DeviceEvent → DeviceWorker
  | .exits => { w with exited := true }
  | .wakes found failures =>
      if w.ended then w
      else
        match reconcile manager level failures found { state := w.state } with
        | (.ok (), t) => { w with state := t.state }
        | (.error _, t) =>
            { w with state := t.state, ended := true, signalled := !w.exited }

/-- The space is started with the nodes found and with a policy for them, which is assigned
to what the unit listed before. -/
def DeviceWorker.launch (manager : Manager) (level : DeviceLevel)
    (listed : List (String × String)) (found : Discovery) : DeviceWorker where
  state :=
    { mounted := found.discover
      bound := found.discover
      policy := DevicePolicy.assign manager ⟨"auto", listed⟩ (devicePolicy level found.discover) }

end Spaces.Workers
