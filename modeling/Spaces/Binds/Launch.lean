import Spaces.Binds.Paths
import Spaces.Library.FileTree
import Spaces.Library.Runs

/-!
# The targets of configured mounts

A launch makes a target in the root file system for each configured mount, a directory
or an empty file, and records the files it has made, so that a later launch can take
away those that are no longer bound. A step is one mount, one overlay or one removal.
An operation of a step may fail; what was done before stays.

Between launches the guest may change its files as it likes. `owned` and `removals` are
kept for the proofs: where the empty files are that were made and are still there, and
what was removed.
-/

namespace Spaces.Binds

open Spaces.Library Spaces.Shortcuts

/-- Of a file its size. -/
abbrev Rootfs := FileTree Name Nat

abbrev Place := List Name

/-! ## The configuration -/

inductive Source where
  | missing
  | directory
  | file
  | other
  deriving DecidableEq

structure Mount where
  source : Source
  destination : GuestPath
  safe : Safe destination

/-- A file below an overlay's source, as `os.walk` names it. -/
structure Entry where
  names : List Name
  noNul : ∀ name ∈ names, nul ∉ name.name
  source : Source

inductive OverlaySource where
  | missing
  | noDirectory
  | unreadable
  | directory (entries : List Entry)

structure Overlay where
  source : OverlaySource
  destination : GuestPath
  safe : Safe destination

def Overlay.mounts (overlay : Overlay) : List Mount :=
  match overlay.source with
  | .directory entries => entries.map fun entry =>
      ⟨entry.source, overlay.destination.joinpath entry.names, overlay.safe.joinpath entry.noNul⟩
  | _ => []

/-- What `host_config` accepts. -/
structure Config where
  mounts : List Mount
  overlays : List Overlay
  acceptedMounts : ∀ mount ∈ mounts, ∃ value,
    safeMountDestination value = some mount.destination
  acceptedOverlays : ∀ overlay ∈ overlays, ∃ value,
    safeMountDestination value = some overlay.destination

/-! ## Preparing a mount -/

/-- The operation that fails, counted from the next one. -/
abbrev Fault := Option Nat

def Fault.later : Fault → Fault
  | some (n + 1) => some n
  | _ => none

/-- The loop over the parents: the tree, and where it has led. -/
def enterParents (tree : Rootfs) (place : Place) :
    List Name → Fault → Rootfs × Option (Place × Fault)
  | [], fault => (tree, some (place, fault))
  | component :: rest, fault =>
      if fault = some 0 then (tree, none)
      else if component = up then
        match place with
        | [] => (tree, none)
        | _ :: above => enterParents tree above rest fault.later
      else
        match tree.kind (component :: place) with
        | .absent =>
            enterParents (tree.make component place .dir) (component :: place) rest fault.later
        | .dir => enterParents tree (component :: place) rest fault.later
        | .file _ | .link | .other => (tree, none)

inductive Outcome where
  | skipped
  /-- The place of a file that is bound, and whether it was made. -/
  | bound (place : Option Place) (created : Bool)

def prepareTarget (tree : Rootfs) (place : Place) (name : Name) (directory : Bool)
    (fault : Fault) : Rootfs × Outcome :=
  if fault = some 0 then (tree, .skipped)
  else if name = up then (tree, if directory then .bound none false else .skipped)
  else
    match directory, tree.kind (name :: place) with
    | true, .absent => (tree.make name place .dir, .bound none false)
    | true, .dir => (tree, .bound none false)
    | false, .absent => (tree.make name place (.file 0), .bound (some (name :: place)) true)
    | false, .file _ => (tree, .bound (some (name :: place)) false)
    | _, _ => (tree, .skipped)

/-- One mount of `_prepare_custom_mounts`. -/
def prepareMount (tree : Rootfs) (mount : Mount) (fault : Fault) : Rootfs × Outcome :=
  if mount.source = .missing ∨ mount.source = .other then (tree, .skipped)
  else if mount.destination.root ≠ .single then (tree, .skipped)
  else
    match mount.destination.parts.reverse with
    | [] => (tree, .skipped)
    | name :: parents =>
        match enterParents tree [] parents.reverse fault with
        | (tree, none) => (tree, .skipped)
        | (tree, some (place, fault)) =>
            prepareTarget tree place name (decide (mount.source = .directory)) fault

/-- Whether the destination of an overlay is a directory, all the way down. -/
def isAvailable (tree : Rootfs) (place : Place) : List Name → Bool
  | [] => true
  | component :: rest =>
      if component = up then
        match place with
        | [] => false
        | _ :: above => isAvailable tree above rest
      else decide (tree.kind (component :: place) = .dir)
        && isAvailable tree (component :: place) rest

/-- One overlay of `_prepare_custom_overlays`: the mounts it comes to. -/
def prepareOverlay (tree : Rootfs) (overlay : Overlay) (fault : Fault) : List Mount :=
  if fault.isSome || decide (overlay.destination.root ≠ .single)
      || !isAvailable tree [] overlay.destination.parts then []
  else overlay.mounts

/-! ## Removing an obsolete file -/

inductive Opened where
  | reached (place : Place) (fault : Fault)
  | gone
  | failed

/-- The loop over the directory descriptors. -/
def openParents (tree : Rootfs) (place : Place) : List Name → Fault → Opened
  | [], fault => .reached place fault
  | component :: rest, fault =>
      if fault = some 0 then .failed
      else
        match tree.kind (component :: place) with
        | .dir => openParents tree (component :: place) rest fault.later
        | _ => .gone

/-- `_remove_obsolete_bind_file`: the tree, whether a file was removed, and whether it is
to be tried again. -/
def removeObsoleteBindFile (tree : Rootfs) (listed : ListedPath) (fault : Fault) :
    Rootfs × Bool × Bool :=
  match listed.path.parts.reverse with
  | [] => (tree, false, false)
  | name :: parents =>
      match openParents tree [] parents.reverse fault with
      | .gone => (tree, false, false)
      | .failed => (tree, false, true)
      | .reached place fault =>
          if fault = some 0 then (tree, false, true)
          else if tree.kind (name :: place) = .file 0 then
            (tree.unlink (name :: place), true, false)
          else (tree, false, false)

/-! ## Launches -/

structure Bound where
  destination : GuestPath
  /-- Where the file is that is bound. -/
  place : Option Place

inductive Phase where
  | preparing (mounts : List Mount) (overlays : List Overlay)
  | removing (obsolete : List ListedPath) (retained : List FsName)

structure Launch where
  previous : List ListedPath
  created : List FsName := []
  bound : List Bound := []
  phase : Phase

def Launch.destinations (launch : Launch) : List FsName :=
  launch.bound.map (·.destination.str)

structure Removal where
  place : Place
  kind : Kind Nat
  previous : List ListedPath
  bound : List Bound

structure State where
  rootfs : Rootfs
  manifest : Manifest
  launch : Option Launch := none
  /-- The launch that has returned, as long as nothing has happened since. -/
  last : Option Launch := none
  owned : List Place := []
  removals : List Removal := []

inductive Event where
  | launch (config : Config)
  /-- The next step of the launch. -/
  | go (fault : Fault)
  /-- The launch ends in the middle. -/
  | interrupt
  /-- The guest leaves another tree. -/
  | guest (rootfs : Rootfs)

def begin (s : State) (config : Config) : State :=
  match loadBindFiles s.manifest with
  | .error _ => { s with last := none }
  | .ok previous =>
      { s with
        launch := some { previous, phase := .preparing config.mounts config.overlays }
        last := none }

def goMount (s : State) (launch : Launch) (mount : Mount) (rest : List Mount)
    (overlays : List Overlay) (fault : Fault) : State :=
  let phase := .preparing rest overlays
  match prepareMount s.rootfs mount fault with
  | (rootfs, .skipped) => { s with rootfs, launch := some { launch with phase } }
  | (rootfs, .bound place false) =>
      { s with
        rootfs
        launch := some { launch with
          phase, bound := launch.bound ++ [⟨mount.destination, place⟩] } }
  | (rootfs, .bound place true) =>
      { s with
        rootfs
        launch := some { launch with
          phase
          created := launch.created ++ [mount.destination.str]
          bound := launch.bound ++ [⟨mount.destination, place⟩] }
        owned := place.toList ++ s.owned }

/-- What is to be removed and what stays listed, when all is prepared. -/
def retire (launch : Launch) : Phase :=
  .removing (launch.previous.filter fun listed => listed.text ∉ launch.destinations)
    ((launch.previous.filter fun listed => listed.text ∈ launch.destinations).map ListedPath.text
      ++ launch.created)

def goRemove (s : State) (launch : Launch) (listed : ListedPath) (rest : List ListedPath)
    (retained : List FsName) (fault : Fault) : State :=
  match removeObsoleteBindFile s.rootfs listed fault with
  | (rootfs, true, _) =>
      { s with
        rootfs
        launch := some { launch with phase := .removing rest retained }
        owned := s.owned.filter (· ≠ listed.place)
        removals := ⟨listed.place, s.rootfs.kind listed.place, launch.previous, launch.bound⟩
          :: s.removals }
  | (_, false, retry) =>
      { s with launch := some { launch with
          phase := .removing rest (if retry then retained ++ [listed.text] else retained) } }

/-- `_write_bind_files`, and the return. -/
def finish (s : State) (launch : Launch) (retained : List FsName) (fault : Fault) : State :=
  if fault.isSome then { s with launch := none }
  else { s with
    manifest := .list (retained.map .text), launch := none, last := some launch }

def go (s : State) (fault : Fault) : State :=
  match s.launch with
  | none => s
  | some launch =>
      match launch.phase with
      | .preparing (mount :: rest) overlays => goMount s launch mount rest overlays fault
      | .preparing [] (overlay :: overlays) =>
          { s with launch := some { launch with
              phase := .preparing (prepareOverlay s.rootfs overlay fault) overlays } }
      | .preparing [] [] => { s with launch := some { launch with phase := retire launch } }
      | .removing (listed :: rest) retained => goRemove s launch listed rest retained fault
      | .removing [] retained => finish s launch retained fault

def step (s : State) : Event → State
  | .launch config => if s.launch.isSome then s else begin s config
  | .go fault => go s fault
  | .interrupt => { s with launch := none, last := none }
  | .guest rootfs =>
      if s.launch.isSome then s
      else { s with
        rootfs, last := none, owned := s.owned.filter fun place => rootfs.kind place = .file 0 }

end Spaces.Binds
