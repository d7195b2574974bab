import Mathlib.Data.List.Lex
import Mathlib.Data.List.Sort
import Spaces.Library.FiniteTree
import Spaces.Shortcuts.Generate

/-!
# The worker that watches the application directories

While a space runs, a thread waits for inotify events of the two application directories,
exports the shortcuts anew, and then goes through the directories to watch what is new.
The guest changes files and directories at any point between.

`State.work` is one step of the thread. The steps are those between which it matters what
the guest does: a walk lists a directory in one step and watches it in the next. What the
scan of `reconcile` finds while the guest changes something is left open; a scan that is
not disturbed finds what is there. The first scan, at the launch, is made before anything
is watched.

Of the links a guest may have, only those on the way to the application directories are
followed, and those are not below them; below, a link is a file of another kind.
-/

namespace Spaces.Shortcuts

open Spaces.Library

instance : DecidableEq FileName := fun first second =>
  decidable_of_iff (first.name = second.name)
    ⟨fun h => by cases first; cases second; cases h; rfl, congrArg FileName.name⟩

structure Content where
  size : Nat
  /-- Nothing where it cannot be read or is not UTF-8. -/
  text : Option Text
  deriving DecidableEq

/-- The names on the way from the root of the space, the last one first. -/
abbrev Place := List FileName

abbrev Rootfs := FiniteTree FileName Content

def usr : FileName := ⟨fsText "usr".toList, by decide, by decide⟩
def localName : FileName := ⟨fsText "local".toList, by decide, by decide⟩
def share : FileName := ⟨fsText "share".toList, by decide, by decide⟩
def applications : FileName := ⟨fsText "applications".toList, by decide, by decide⟩

/-- The second column of `SOURCE_DIRECTORIES`. -/
def guestPath : Origin → Place
  | .system => [applications, share, usr]
  | .localOrigin => [applications, share, localName, usr]

/-- What the thread is started for, and what it calls. -/
structure ShortcutWorker where
  rt : Runtime
  spaceName : SpaceName
  /-- `Path.resolve`, on the way to an application directory; nothing where this leads to
  something outside the space. -/
  resolve : Place → Option Place
  /-- `_render_icon`. -/
  icon : Rootfs → Text → Option (List UInt8)

/-! ## What a scan finds -/

def FsChar.codePoint : FsChar → Nat
  | .char c => c.toNat
  | .surrogate byte => 0xDC00 + byte.toNat

/-- Paths are compared name by name. -/
def sortKey (names : List FileName) : List (List Nat) :=
  names.reverse.map fun name => name.name.map FsChar.codePoint

def guestFile (rootfs : Rootfs) (directory : Place) : List FileName → Option GuestFile
  | [] => none
  | name :: parents =>
      match rootfs.kind (name :: parents ++ directory) with
      | .file content => some ⟨⟨parents.reverse, name⟩, true, content.size, content.text⟩
      | _ => some ⟨⟨parents.reverse, name⟩, false, 0, none⟩

/-- `sorted(directory.rglob(..))`; the suffix is looked at later. -/
def rglob (rootfs : Rootfs) (directory : Place) : List GuestFile :=
  ((rootfs.below directory).insertionSort fun first second =>
    sortKey first ≤ sortKey second).filterMap (guestFile rootfs directory)

/-! ## What a guest does -/

inductive Change where
  | create (name : FileName) (above : Place) (node : Kind Content)
  | write (name : FileName) (above : Place) (content : Content)
  | remove (name : FileName) (above : Place)
  | rename (name : FileName) (above : Place) (newName : FileName) (newAbove : Place)

namespace Change

/-- The rootfs after the change, nothing where the system call fails. -/
def apply (rootfs : Rootfs) : Change → Option Rootfs
  | create name above node => rootfs.create name above node
  | write name above content => rootfs.write name above content
  | remove name above => rootfs.remove name above
  | rename name above newName newAbove => rootfs.rename (name :: above) newName newAbove

/-- The directories in which something changes. -/
def directories : Change → List Place
  | create _ above _ => [above]
  | write _ above _ => [above]
  | remove _ above => [above]
  | rename _ above _ newAbove => [above, newAbove]

/-- The places that inotify reports the change of, if they are watched: these directories
and what is written, removed, moved or replaced. -/
def reporters : Change → List Place
  | create _ above _ => [above]
  | write name above _ => [above, name :: above]
  | remove name above => [above, name :: above]
  | rename name above newName newAbove =>
      [above, newAbove, name :: above, newName :: newAbove]

def reported (change : Change) (watched : List Place) : Bool :=
  change.reporters.any (· ∈ watched)

/-- Where the watches are afterwards. A watch goes with what is watched. -/
def watches (watched : List Place) : Change → List Place
  | create _ _ _ => watched
  | write _ _ _ => watched
  | remove name above => watched.filter (· ≠ name :: above)
  | rename name above newName newAbove =>
      (watched.filter (· ≠ newName :: newAbove)).map
        (FiniteTree.move (name :: above) (newName :: newAbove))

end Change

/-! ## The thread -/

inductive Phase where
  /-- In `wait`, before anything is read from the inotify descriptor. -/
  | waiting
  /-- In the loop of `wait(0)`. -/
  | draining
  /-- In `reconcile`; whether something has been changed since it began. -/
  | scanning (disturbed : Bool)
  /-- In `refresh`: the application directories that are still to come, the directories
  that the walk has still to list, and the one that is listed and not yet watched. -/
  | refreshing (origins : List Origin) (todo : List Place)
      (listed : Option (Place × List Place))
  /-- An exception has ended the thread. -/
  | ended
  deriving DecidableEq

structure State where
  rootfs : Rootfs
  watched : List Place
  /-- The inotify descriptor has something to read. -/
  queued : Bool
  exported : List GeneratedShortcut
  phase : Phase

inductive Event where
  | guest (change : Change)
  /-- Something is queued that is no change of a directory's files. -/
  | stray
  /-- One step of the thread, with what a disturbed scan finds. -/
  | work (found : Guest)

namespace ShortcutWorker

variable (worker : ShortcutWorker)

def directory (origin : Origin) : Option Place := worker.resolve (guestPath origin)

def guestOf (rootfs : Rootfs) : Guest where
  applications origin :=
    match worker.directory origin with
    | some directory =>
        if rootfs.kind directory = .dir then some (rglob rootfs directory) else none
    | none => none
  icon := worker.icon rootfs

def generated (guest : Guest) : Except PyError (List GeneratedShortcut) :=
  generate worker.rt worker.spaceName guest

/-- `Path.exists`. -/
def isThere (rootfs : Rootfs) (place : Place) : Bool :=
  match worker.resolve place with
  | some fixed => rootfs.kind fixed ≠ .absent
  | none => true

/-- The nearest place on the way up that exists. -/
def existing (rootfs : Rootfs) : Place → Place
  | [] => []
  | name :: parent =>
      if worker.isThere rootfs (name :: parent) then name :: parent
      else existing rootfs parent

/-- `_watch_root`, up to the walk, which begins at the application directory. -/
def watchRoot (origin : Origin) (origins : List Origin) (s : State) : State :=
  match worker.resolve (worker.existing s.rootfs (guestPath origin)) with
  | some fixed =>
      if s.rootfs.kind fixed = .dir then
        { s with
          watched := fixed :: s.watched
          phase := .refreshing origins
            (if worker.isThere s.rootfs (guestPath origin) then [fixed] else []) none }
      else { s with phase := .refreshing origins [] none }
  | none => { s with phase := .refreshing origins [] none }

/-- `_add` of a directory that has been listed; what is gone by then is not watched. -/
def add (place : Place) (s : State) : State :=
  if s.rootfs.kind place ≠ .absent then { s with watched := place :: s.watched } else s

def refresh (s : State) : List Origin → List Place → Option (Place × List Place) → State
  | origins, todo, some (place, subdirectories) =>
      { add place s with phase := .refreshing origins (subdirectories ++ todo) none }
  | origins, place :: todo, none =>
      if s.rootfs.kind place = .dir then
        { s with
          phase := .refreshing origins todo (some (place, s.rootfs.subdirectories place)) }
      else { s with phase := .refreshing origins todo none }
  | origin :: origins, [], none => worker.watchRoot origin origins s
  | [], [], none => { s with phase := .waiting }

def reconcile (guest : Guest) (s : State) : State :=
  match worker.generated guest with
  | .ok shortcuts =>
      { s with
        exported := shortcuts
        phase := .refreshing [.system, .localOrigin] [] none }
  | .error _ => { s with phase := .ended }

/-- One step of `_run`. -/
def work (found : Guest) (s : State) : State :=
  match s.phase with
  | .waiting => if s.queued then { s with queued := false, phase := .draining } else s
  | .draining =>
      if s.queued then { s with queued := false } else { s with phase := .scanning false }
  | .scanning disturbed =>
      worker.reconcile (if disturbed then found else worker.guestOf s.rootfs) s
  | .refreshing origins todo listed => worker.refresh s origins todo listed
  | .ended => s

def disturb : Phase → Phase
  | .scanning _ => .scanning true
  | phase => phase

def next (s : State) : Event → State
  | .guest change =>
      match change.apply s.rootfs with
      | some rootfs =>
          { s with
            rootfs := rootfs
            watched := change.watches s.watched
            queued := s.queued || change.reported s.watched
            phase := disturb s.phase }
      | none => s
  | .stray => { s with queued := true }
  | .work found => worker.work found s

/-- At the launch: `reconcile`, and then the monitor with its first `refresh`. -/
def launched (rootfs : Rootfs) : State where
  rootfs := rootfs
  watched := []
  queued := false
  exported := []
  phase := .scanning false

end ShortcutWorker

end Spaces.Shortcuts
