import Spaces.Library.Runs
import Spaces.Permissions.Effect

/-!
# Creating a Space

`create` replaces the root file system of a Space and keeps its home and its
persistent cache. Each operation that may fail is a point, and a run goes from point
to point: an operation succeeds, or it raises, and what it did until then stays. From
the loading of the configuration on, what is raised is caught, and the handler puts the
failed tree aside before it raises again.

The lock is held, and the request has been validated. A path leads to nothing, a
symbolic link, a file or a directory; a directory is the names of what is in it, and a
tree is removed in their order. What the bootstrap of a driver does to the tree is an
input, but to the cache it only adds.
-/

namespace Spaces.Creation

open Spaces.Library Spaces.Permissions

/-! ## The Space's directory -/

abbrev Files := List String

inductive Node (α : Type) where
  | absent
  | link
  | file
  | dir (content : α)

namespace Node

variable {α : Type}

def isDir : Node α → Bool
  | dir _ => true
  | _ => false

def isAbsent : Node α → Bool
  | absent => true
  | _ => false

/-- What is left when a removal has failed. -/
def left (drop : α → α) : Node α → Node α
  | dir content => dir (drop content)
  | other => other

/-- `mkdir` with `exist_ok`, and the check for a directory after it. -/
def orDirectory (empty : α) : Node α → Option (Node α)
  | absent => some (dir empty)
  | dir content => some (dir content)
  | link | file => none

end Node

def files : Node Files → Files
  | .dir content => content
  | _ => []

/-- A root file system, with `var` and the cache in it set apart. -/
structure Rootfs where
  files : Files
  var : Node (Node Files)

def Rootfs.empty : Rootfs := ⟨[], .absent⟩

def Rootfs.drop (n : Nat) (rootfs : Rootfs) : Rootfs :=
  ⟨rootfs.files.drop n, if n ≤ rootfs.files.length then rootfs.var else .absent⟩

/-- `var/cache` of a root file system. -/
def guestCache : Node Rootfs → Node Files
  | .dir ⟨_, .dir cache⟩ => cache
  | _ => .absent

def withGuestCache (cache : Node Files) : Node Rootfs → Node Rootfs
  | .dir ⟨entries, .dir _⟩ => .dir ⟨entries, .dir cache⟩
  | other => other

inductive Place where
  | home
  | cache
  | rootfs
  | failedRootfs
  deriving DecidableEq

structure World where
  home : Node Files
  rootHome : Node Unit
  cache : Node Files
  rootfs : Node Rootfs
  failedRootfs : Node Rootfs
  binds : Node Unit
  info : InfoFile
  /-- Whether something is mounted at a place or beneath it. -/
  mounted : Place → Bool
  /-- Whether the cache is mounted for the bootstrap. -/
  cacheMounted : Bool

def World.blocked (w : World) (place : Place) : Bool :=
  w.mounted place || (decide (place = .rootfs) && w.cacheMounted)

/-- `_assert_no_mounts`. What is no path and what is a link is not looked at. -/
def World.noMounts {α : Type} (w : World) (place : Place) : Node α → Bool
  | .absent | .link => true
  | .file | .dir _ => !w.blocked place

/-! ## `_load_space` -/

def validInfo (host : Host) (name : String) (info : InfoFile) : Prop :=
  ∃ value members, info = .document value ∧ validateInfo host value = .ok members ∧
    field members "name" .null = .str name

inductive LoadError where
  | rootfs
  | home
  | rootHome
  | information
  | invalid
  | name

def loadSpace (host : Host) (name : String) (w : World) : Except LoadError Members :=
  if w.rootfs.isDir = false then .error .rootfs
  else if w.home.isDir = false then .error .home
  else if (w.rootHome.orDirectory ()).isNone then .error .rootHome
  else
    match w.info with
    | .notRegular => .error .information
    | .unreadable => .error .invalid
    | .document value =>
        match validateInfo host value with
        | .error _ => .error .invalid
        | .ok members =>
            if sameName (field members "name" .null) (.str name) then .ok members
            else .error .name

/-- A root file system beside a valid record of that name. -/
def World.Launchable (host : Host) (name : String) (w : World) : Prop :=
  w.rootfs.isDir = true ∧ validInfo host name w.info

/-! ## The points of a run -/

/-- A validated request. -/
structure CreateRequest (host : Host) where
  name : String
  info : Members
  purge : Bool
  enable : Bool
  /-- Whether the distribution is `custom`. -/
  custom : Bool
  valid : validateInfo host (.obj info) = .ok info
  named : field info "name" .null = .str name

/-- Before the old tree is removed, or in the new one. -/
inductive Round where
  | first
  | second
  deriving DecidableEq

inductive Point where
  | stopService
  | removeShortcuts
  | removeHome
  | removeCache
  | checkPaths
  | makeHome
  | ownHome
  | inspectRootfs
  | inspectFailed
  | prepareVar (round : Round)
  | prepareRoot (round : Round)
  | prepareCache (round : Round)
  | prepareGuest (round : Round)
  | prepareLabels (round : Round)
  | removeRootfs
  | unlinkBinds
  | removeFailed
  | makeRootfs
  | ownRootfs
  | writeInfo
  | lookupDriver
  | loadConfiguration
  | mountCache
  | bootstrap
  /-- In the `finally` of the mount, and whether the bootstrap raised. -/
  | unmountCache (raising : Bool)
  | preserveInspect
  | preserveMove
  | enableService
  | done
  | raised
  deriving DecidableEq

/-- Whether what is raised here is caught. -/
def Point.caught : Point → Bool
  | .loadConfiguration | .prepareVar .second | .prepareRoot .second | .prepareCache .second
  | .prepareGuest .second | .prepareLabels .second | .mountCache | .bootstrap
  | .unmountCache _ => true
  | _ => false

structure Run (host : Host) where
  request : CreateRequest host
  world : World
  point : Point := .stopService
  /-- Whether the old root file system was removed, or a part of it. -/
  removing : Bool := false
  bootstrapped : Bool := false

inductive Event where
  | go
  /-- The operation raises. `progress` is how far it has come by then, where it
  removes or moves a tree. -/
  | fault (progress : Nat)
  /-- The driver's bootstrap ends: what it made of the tree, what it added to the
  cache, and whether it has left something mounted. -/
  | bootstrap (completes : Bool) (rootfs : Node Rootfs) (added : Files) (leftMounted : Bool)

variable {host : Host}

namespace Run

def raise (s : Run host) : Run host :=
  { s with point := if s.point.caught then .preserveInspect else .raised }

/-- An operation without an effect of its own. -/
def plain (s : Run host) (next : Point) : Event → Run host
  | .go => { s with point := next }
  | .fault _ => s.raise
  | .bootstrap .. => s

/-- An operation that succeeds with another world or, for the reasons the code checks,
raises. -/
def change (s : Run host) (next : Point) (world : Option World) : Event → Run host
  | .go =>
      match world with
      | some world => { s with world, point := next }
      | none => s.raise
  | .fault _ => s.raise
  | .bootstrap .. => s

end Run

/-! ## The operations -/

def removeHome (s : Run host) (e : Event) : Run host :=
  if s.world.noMounts .home s.world.home = false then s.raise
  else
    match e with
    | .fault n =>
        { s.raise with world := { s.world with home := s.world.home.left (List.drop n) } }
    | .go => { s with
        world := { s.world with home := .absent, rootHome := .absent }, point := .removeCache }
    | .bootstrap .. => s

def removeCache (s : Run host) (e : Event) : Run host :=
  if s.world.noMounts .cache s.world.cache = false then s.raise
  else
    match e with
    | .fault n =>
        { s.raise with world := { s.world with cache := s.world.cache.left (List.drop n) } }
    | .go => { s with world := { s.world with cache := .absent }, point := .makeHome }
    | .bootstrap .. => s

def checkPaths (s : Run host) : Event → Run host :=
  s.change .makeHome
    (if (s.world.home.orDirectory []).isNone || (s.world.cache.orDirectory []).isNone then none
      else some s.world)

def makeHome (s : Run host) : Event → Run host :=
  s.change .ownHome ((s.world.home.orDirectory []).map fun home => { s.world with home })

def inspectRootfs (s : Run host) : Event → Run host :=
  s.change .inspectFailed (if s.world.noMounts .rootfs s.world.rootfs then some s.world else none)

def inspectFailed (s : Run host) : Event → Run host :=
  s.change
    (if s.request.purge = false ∧ s.world.rootfs.isDir = true then .prepareVar .first
      else .removeRootfs)
    (if s.world.noMounts .failedRootfs s.world.failedRootfs then some s.world else none)

def prepareVar (s : Run host) (round : Round) : Event → Run host :=
  s.change (.prepareRoot round)
    (match s.world.rootfs with
      | .dir rootfs => (rootfs.var.orDirectory .absent).map fun var =>
          { s.world with rootfs := .dir { rootfs with var } }
      | _ => none)

def prepareCache (s : Run host) (round : Round) (e : Event) : Run host :=
  match s.world.cache, guestCache s.world.rootfs with
  | .dir _, _ => s.plain (.prepareGuest round) e
  | .absent, .dir content =>
      match e with
      | .go => { s with
          world := { s.world with
            cache := .dir content
            rootfs := withGuestCache .absent s.world.rootfs }
          point := .prepareGuest round }
      | .fault n =>
          -- It is copied, and then the source is removed.
          if n ≤ content.length then
            { s.raise with
              world := { s.world with
                cache := if n = 0 then .absent else .dir (content.take n) } }
          else
            { s.raise with
              world := { s.world with
                cache := .dir content
                rootfs := withGuestCache (.dir (content.drop (n - content.length)))
                  s.world.rootfs } }
      | .bootstrap .. => s
  | .absent, .absent =>
      s.change (.prepareGuest round) (some { s.world with cache := .dir [] }) e
  | _, _ => s.raise

def prepareGuest (s : Run host) (round : Round) : Event → Run host :=
  s.change (.prepareLabels round)
    (((guestCache s.world.rootfs).orDirectory []).map fun cache =>
      { s.world with rootfs := withGuestCache cache s.world.rootfs })

def prepareLabels (s : Run host) (round : Round) : Event → Run host :=
  s.plain (if round = .first then .removeRootfs else .mountCache)

def removeRootfs (s : Run host) (e : Event) : Run host :=
  if s.world.noMounts .rootfs s.world.rootfs = false then s.raise
  else
    match e with
    | .fault n => { s.raise with
        world := { s.world with rootfs := s.world.rootfs.left (Rootfs.drop n) }
        removing := decide (0 < n) && s.world.rootfs.isDir }
    | .go => { s with
        world := { s.world with rootfs := .absent }, point := .unlinkBinds, removing := true }
    | .bootstrap .. => s

def unlinkBinds (s : Run host) : Event → Run host :=
  s.change .removeFailed
    (if s.world.binds.isDir then none else some { s.world with binds := .absent })

def removeFailed (s : Run host) (e : Event) : Run host :=
  if s.world.noMounts .failedRootfs s.world.failedRootfs = false then s.raise
  else
    match e with
    | .fault n => { s.raise with
        world := { s.world with failedRootfs := s.world.failedRootfs.left (Rootfs.drop n) } }
    | .go => { s with world := { s.world with failedRootfs := .absent }, point := .makeRootfs }
    | .bootstrap .. => s

def makeRootfs (s : Run host) : Event → Run host :=
  s.change .ownRootfs
    ((s.world.rootfs.orDirectory Rootfs.empty).map fun rootfs => { s.world with rootfs })

def writeInfo (s : Run host) : Event → Run host :=
  s.change .lookupDriver
    (match writtenInfo s.request.info with
      | .ok value => some { s.world with info := .document value }
      | .error _ => none)

def mountCache (s : Run host) : Event → Run host :=
  s.change .bootstrap (some { s.world with cacheMounted := true })

def addedTo (cache : Node Files) (added : Files) : Node Files :=
  match cache with
  | .dir content => .dir (content ++ added)
  | other => other

def bootstrap (s : Run host) : Event → Run host
  | .bootstrap completes rootfs added leftMounted =>
      { s with
        world := { s.world with
          rootfs := rootfs
          cache := if s.world.cacheMounted then addedTo s.world.cache added else s.world.cache
          mounted := fun place => if place = .rootfs then leftMounted else s.world.mounted place }
        bootstrapped := completes
        point :=
          if s.request.custom then (if completes then .enableService else .preserveInspect)
          else .unmountCache (!completes) }
  | _ => s

def unmountCache (s : Run host) (raising : Bool) : Event → Run host :=
  s.change (if raising then .preserveInspect else .enableService)
    (some { s.world with cacheMounted := false })

def preserveInspect (s : Run host) : Event → Run host :=
  s.change .preserveMove (if s.world.noMounts .rootfs s.world.rootfs then some s.world else none)

/-- When the tree has been moved, what was caught is raised again. -/
def preserveMove (s : Run host) : Event → Run host :=
  s.change .raised
    (if s.world.rootfs.isDir && s.world.failedRootfs.isAbsent then
      some { s.world with rootfs := .absent, failedRootfs := s.world.rootfs }
    else none)

def step (s : Run host) (e : Event) : Run host :=
  match s.point with
  | .stopService => s.plain .removeShortcuts e
  | .removeShortcuts => s.plain (if s.request.purge then .removeHome else .checkPaths) e
  | .removeHome => removeHome s e
  | .removeCache => removeCache s e
  | .checkPaths => checkPaths s e
  | .makeHome => makeHome s e
  | .ownHome => s.plain .inspectRootfs e
  | .inspectRootfs => inspectRootfs s e
  | .inspectFailed => inspectFailed s e
  | .prepareVar round => prepareVar s round e
  | .prepareRoot round => s.plain (.prepareCache round) e
  | .prepareCache round => prepareCache s round e
  | .prepareGuest round => prepareGuest s round e
  | .prepareLabels round => prepareLabels s round e
  | .removeRootfs => removeRootfs s e
  | .unlinkBinds => unlinkBinds s e
  | .removeFailed => removeFailed s e
  | .makeRootfs => makeRootfs s e
  | .ownRootfs => s.plain .writeInfo e
  | .writeInfo => writeInfo s e
  | .lookupDriver => s.plain .loadConfiguration e
  | .loadConfiguration =>
      s.plain (if s.request.custom then .bootstrap else .prepareVar .second) e
  | .mountCache => mountCache s e
  | .bootstrap => bootstrap s e
  | .unmountCache raising => unmountCache s raising e
  | .preserveInspect => preserveInspect s e
  | .preserveMove => preserveMove s e
  | .enableService => s.plain .done e
  | .done | .raised => s

end Spaces.Creation
