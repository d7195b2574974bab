import Spaces.Library.Runs
import Mathlib.Data.Fintype.Basic
import Mathlib.Logic.Function.Basic

/-!
# The lock of a Space

`_space_lock` takes a `flock` on the directory of the Space itself, which `delete`
removes in its body and `create` makes before it has the lock. The state is what is
found at the path, the lock of each directory, and the processes; a step is one system
call of one process, so that those of several processes come in any order.

A directory that has been removed lives on in the descriptors that are open to it. Two
directories are told apart by when they were made; the code tells them apart by device
and inode, which may be given to a new directory once no descriptor is open to the old.

The system calls of a body that leave the path as it is are not steps of their own.
-/

namespace Spaces.Locking

open Spaces.Library

structure FileId where
  device : Nat
  inode : Nat
  deriving DecidableEq

structure Directory where
  id : FileId
  made : Nat
  deriving DecidableEq

/-- What is found at the path of the Space. -/
inductive Entry where
  | absent
  | link
  | file
  | dir (directory : Directory)

namespace Entry

def present : Entry → Bool
  | absent => false
  | _ => true

def isSymlink : Entry → Bool
  | link => true
  | _ => false

def isDir : Entry → Bool
  | dir _ => true
  | _ => false

end Entry

inductive Operation where
  | create
  | configure
  | delete
  deriving DecidableEq

/-- The system call that a process makes next. -/
inductive Phase where
  | idle
  | isSymlink
  | pathExists
  | isDirectory
  | existsAgain
  | makeDirectory
  | madeBefore
  | ownedIsSymlink
  | ownedIsDirectory
  | chown
  | chmod
  | openPath
  | lock
  | compare
  | body
  /-- In the body of `delete`, when it has removed the directory. -/
  | removed
  | unlock
  | closeDescriptor
  deriving DecidableEq

structure Process where
  operation : Operation := .create
  phase : Phase := .idle
  descriptor : Option Directory := none

structure System (ι : Type) where
  entry : Entry
  /-- Whose descriptor has the lock of a directory. -/
  owner : Directory → Option ι
  process : ι → Process
  /-- How many directories have been made. -/
  made : Nat

inductive Event (ι : Type) where
  | call (q : ι) (operation : Operation)
  /-- The next system call. A directory that it makes gets this number. -/
  | go (q : ι) (id : FileId)
  /-- `_root_owned_directory(home)` in the body of `create`, parents included. -/
  | makeHome (q : ι) (id : FileId)
  /-- `shutil.rmtree` or `rmdir` removes the path, as the last thing in the body. -/
  | remove (q : ι)
  | leave (q : ι)
  /-- The system call fails, or what else the code does next raises. -/
  | fail (q : ι)
  | kill (q : ι)

variable {ι : Type}

namespace Event

def process : Event ι → ι
  | call q _ | go q _ | makeHome q _ | remove q | leave q | fail q | kill q => q

end Event

variable [DecidableEq ι]

namespace System

def set (s : System ι) (q : ι) (process : Process) : System ι :=
  { s with process := Function.update s.process q process }

/-- A process goes on to another call. -/
def goTo (s : System ι) (q : ι) (phase : Phase) : System ι :=
  s.set q { s.process q with phase }

/-- With a descriptor open, an exception passes through the `finally`. -/
def raise (s : System ι) (q : ι) : System ι :=
  s.goTo q (if (s.process q).descriptor.isSome then .unlock else .idle)

/-- A new directory at the path. -/
def withDirectory (s : System ι) (id : FileId) : System ι :=
  { s with entry := .dir ⟨id, s.made⟩, made := s.made + 1 }

/-- The lock goes with the descriptor that has it. -/
def released (s : System ι) (q : ι) : System ι :=
  { s with owner := fun directory =>
      if s.owner directory = some q ∧ (s.process q).descriptor = some directory then none
      else s.owner directory }

def closed (s : System ι) (q : ι) : System ι :=
  s.set q { s.process q with phase := .idle, descriptor := none }

/-! ## `_space_lock` -/

/-- `mkdir` with `exist_ok`. -/
def makeDirectory (s : System ι) (q : ι) (id : FileId) : System ι :=
  match s.entry with
  | .absent => (s.withDirectory id).goTo q .ownedIsSymlink
  | _ => s.goTo q .madeBefore

def openPath (s : System ι) (q : ι) : System ι :=
  match s.entry with
  | .dir directory =>
      s.set q { s.process q with phase := .lock, descriptor := some directory }
  | _ => s.raise q

/-- `flock`, which waits as long as another has the lock. -/
def lock (s : System ι) (q : ι) : System ι :=
  match (s.process q).descriptor with
  | none => s
  | some directory =>
      if s.owner directory = none then
        { s.goTo q .compare with owner := Function.update s.owner directory (some q) }
      else s

/-- `fstat` of the descriptor and `stat` of the path. -/
def compare (s : System ι) (q : ι) : System ι :=
  match (s.process q).descriptor, s.entry with
  | some opened, .dir current =>
      if opened.id.device ≠ current.id.device ∨ opened.id.inode ≠ current.id.inode then s.raise q
      else s.goTo q .body
  | _, _ => s.raise q

def go (s : System ι) (q : ι) (id : FileId) : System ι :=
  let create := decide ((s.process q).operation = .create)
  match (s.process q).phase with
  | .idle | .body | .removed => s
  | .isSymlink => if s.entry.isSymlink then s.raise q else s.goTo q .pathExists
  | .pathExists => s.goTo q (if s.entry.present then .isDirectory else .existsAgain)
  | .isDirectory => if s.entry.isDir then s.goTo q .existsAgain else s.raise q
  | .existsAgain =>
      if !s.entry.present && !create then s.raise q
      else s.goTo q (if create then .makeDirectory else .openPath)
  | .makeDirectory => s.makeDirectory q id
  | .madeBefore => if s.entry.isDir then s.goTo q .ownedIsSymlink else s.raise q
  | .ownedIsSymlink => if s.entry.isSymlink then s.raise q else s.goTo q .ownedIsDirectory
  | .ownedIsDirectory => if s.entry.isDir then s.goTo q .chown else s.raise q
  | .chown => if s.entry.present then s.goTo q .chmod else s.raise q
  | .chmod => if s.entry.present then s.goTo q .openPath else s.raise q
  | .openPath => s.openPath q
  | .lock => s.lock q
  | .compare => s.compare q
  | .unlock => (s.released q).goTo q .closeDescriptor
  | .closeDescriptor => s.closed q

end System

def step (s : System ι) : Event ι → System ι
  | .call q operation =>
      if (s.process q).phase = .idle then
        s.set q { s.process q with operation, phase := .isSymlink }
      else s
  | .go q id => s.go q id
  | .makeHome q id =>
      if (s.process q).phase = .body ∧ (s.process q).operation = .create then
        match s.entry with
        | .absent => s.withDirectory id
        | _ => s
      else s
  | .remove q =>
      if (s.process q).phase = .body ∧ (s.process q).operation = .delete then
        match s.entry with
        | .dir _ => { s.goTo q .removed with entry := .absent }
        | _ => s.raise q
      else s
  | .leave q =>
      if (s.process q).phase = .body ∨ (s.process q).phase = .removed then s.goTo q .unlock else s
  | .fail q =>
      match (s.process q).phase with
      | .idle => s
      | .unlock => s
      | .closeDescriptor => s
      | _ => s.raise q
  | .kill q => (s.released q).closed q

/-- No descriptor is open to a directory of this number. -/
def Unused (s : System ι) (id : FileId) : Prop :=
  ∀ q, ∀ directory ∈ (s.process q).descriptor, directory.id ≠ id

/-- An inode number is not given again while a descriptor to it is open. -/
def NotReused (s : System ι) : Event ι → Prop
  | .go q id => (s.process q).phase = .makeDirectory → Unused s id
  | .makeHome _ id => Unused s id
  | _ => True

instance [Fintype ι] (s : System ι) (id : FileId) : Decidable (Unused s id) :=
  inferInstanceAs (Decidable (∀ q, ∀ directory ∈ (s.process q).descriptor, directory.id ≠ id))

instance [Fintype ι] (s : System ι) : (e : Event ι) → Decidable (NotReused s e)
  | .go q id =>
      inferInstanceAs (Decidable ((s.process q).phase = .makeDirectory → Unused s id))
  | .makeHome _ id => inferInstanceAs (Decidable (Unused s id))
  | .call .. | .remove _ | .leave _ | .fail _ | .kill _ => inferInstanceAs (Decidable True)

/-- Nobody has called yet. -/
structure Initial (s : System ι) : Prop where
  owner : ∀ directory, s.owner directory = none
  process : ∀ q, (s.process q).phase = .idle ∧ (s.process q).descriptor = none

end Spaces.Locking
