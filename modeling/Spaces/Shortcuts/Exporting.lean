import Mathlib.Data.List.AList
import Spaces.Library.Within
import Spaces.Shortcuts.Ownership

/-!
# Writing the shortcuts

`reconcile` brings the directory of the host to what a guest has now: it removes what older
exporters wrote, writes every shortcut, and removes what is no longer there. `remove` takes
away all files of a space. Each system call may fail, and then the files stay as they were
left.

A file is written under a hidden name first, byte after byte, and renamed when it is whole.
-/

namespace Spaces.Shortcuts

open Spaces.Library Spaces.Library.Text Spaces.Library.Routine

/-! ## Directories -/

inductive Entry where
  | file (content : List UInt8) (mode : Nat)
  | directory
  /-- A link, or no regular file. -/
  | other
  deriving DecidableEq

abbrev Listing := AList fun _ : FsName => Entry

/-- What stands at `spaces-icons`. -/
inductive IconRoot where
  | absent
  /-- A link that leads nowhere. -/
  | dangling
  /-- Any other link, or no directory. -/
  | unsafeRoot
  | directory (mode : Nat) (icons : Listing)

/-- `APPLICATIONS_ROOT`. The directory of the icons is kept apart from the other entries. -/
structure Applications where
  files : Listing
  icons : IconRoot

/-- Nothing where there is no such directory. -/
abbrev Root := Option Applications

def Folder.listing : Folder → Applications → Option Listing
  | applications, root => some root.files
  | icons, root =>
      match root.icons with
      | .directory _ listing => some listing
      | _ => none

def Folder.set (listing : Listing) : Folder → Applications → Applications
  | applications, root => { root with files := listing }
  | icons, root =>
      match root.icons with
      | .directory mode _ => { root with icons := .directory mode listing }
      | _ => root

namespace Root

def icons : Root → IconRoot
  | none => .absent
  | some root => root.icons

def listing (root : Root) (folder : Folder) : Option Listing := root.bind folder.listing

/-- `lstat` -/
def find (root : Root) (folder : Folder) (name : FsName) : Option Entry :=
  (root.listing folder).bind (·.lookup name)

def names (root : Root) (folder : Folder) : List FsName :=
  ((root.listing folder).map AList.keys).getD []

/-- A system call on the entries of a directory; there has to be one. -/
def change (folder : Folder) (f : Listing → Option Listing) (root : Root) : Option Root :=
  root.bind fun root => (folder.listing root).bind fun listing =>
    (f listing).map fun listing => some (folder.set listing root)

end Root

def unlink (name : FsName) (listing : Listing) : Option Listing := some (listing.erase name)

def chmod (name : FsName) (mode : Nat) (listing : Listing) : Option Listing :=
  match listing.lookup name with
  | some (.file content _) => some (listing.insert name (.file content mode))
  | _ => none

def append (name : FsName) (byte : UInt8) (listing : Listing) : Option Listing :=
  match listing.lookup name with
  | some (.file content mode) => some (listing.insert name (.file (content ++ [byte]) mode))
  | _ => none

/-- `os.replace`: a directory is not replaced by a file. -/
def replace (source target : FsName) (listing : Listing) : Option Listing :=
  match listing.lookup source, listing.lookup target with
  | none, _ => none
  | _, some .directory => none
  | some entry, _ => some ((listing.erase source).insert target entry)

/-! ## The exporter -/

def hiddenPrefix : Text := ".spaces-".toList

/-- What the exporter calls that is not its own, and what the system makes of it. -/
structure Exporter where
  rt : Runtime
  /-- `os.listdir`, in whatever order. -/
  listdir : List FsName → List FsName
  listdir_perm : ∀ names, (listdir names).Perm names
  /-- The name `tempfile.mkstemp` takes in a directory. -/
  temporary : List FsName → FsName
  temporary_new : ∀ names, temporary names ∉ names
  temporary_hidden : ∀ names, fsText hiddenPrefix <+: temporary names
  /-- What `mkdir` makes of the mode it is given. -/
  made : Nat

abbrev Export := Routine Root PyError

/-- A system call that reads. -/
def reads : Export Unit := performClean .osError some

def changes (folder : Folder) (f : Listing → Option Listing) : Export Unit :=
  perform .osError (Root.change folder f)

/-- `_remove_path`: `unlink`, or `rmtree` of a directory. -/
def removePath (folder : Folder) (name : FsName) : Export Unit := do
  let root ← look
  if (root.find folder name).isNone then pure ()
  else changes folder (unlink name)

/-- The first part of `_atomic_write`, which goes on whatever is raised. -/
def isWritten (folder : Folder) (name : FsName) (content : List UInt8) : Export Bool :=
  tryCatch (do
    reads
    let root ← look
    match root.find folder name with
    | some (.file written mode) =>
        if written = content then do
          whenever (mode ≠ 0o644) (changes folder (chmod name 0o644))
          return true
        else return false
    | _ => return false)
  fun _ => pure false

def fill (folder : Folder) (temporary : FsName) (content : List UInt8) : Export Unit :=
  forEach (fun byte => changes folder (append temporary byte)) content

namespace Exporter

variable (e : Exporter)

def atomicWrite (folder : Folder) (name : FsName) (content : List UInt8) : Export Unit := do
  let written ← isWritten folder name content
  if written then pure ()
  else
    let root ← look
    let temporary := e.temporary (root.names folder)
    performClean .osError (Root.change folder fun listing =>
      some (listing.insert temporary (.file [] 0o600)))
    tryCatch (do
        fill folder temporary content
        changes folder (chmod temporary 0o644)
        reads
        changes folder (replace temporary name))
      fun error => do
        changes folder (unlink temporary)
        throw error
    changes folder (unlink temporary)

def iterdir (folder : Folder) : Export (List FsName) := do
  reads
  let root ← look
  return e.listdir (root.names folder)

/-- What is made of every name of a directory, by the version it has for the space. -/
def eachVersion (spaceName : SpaceName) (folder : Folder) (f : FsName → Option Nat → Export Unit) :
    Export Unit := do
  let names ← e.iterdir folder
  forEach (fun name =>
    match shortcutVersion e.rt.unicode name spaceName folder.suffix with
    | .ok version => f name version
    | .error error => throw error) names

def cleanupFolder (spaceName : SpaceName) (keepCurrent : Bool) (folder : Folder) : Export Unit :=
  e.eachVersion spaceName folder fun name version =>
    match version with
    | none => pure ()
    | some version =>
        if keepCurrent && version == SHORTCUT_VERSION then pure () else removePath folder name

def cleanupVersions (spaceName : SpaceName) (keepCurrent : Bool) : Export Unit := do
  let root ← look
  whenever root.isSome (e.cleanupFolder spaceName keepCurrent .applications)
  let root ← look
  match root.icons with
  | .absent => pure ()
  | .dangling => pure ()
  | .unsafeRoot => throw .osError
  | .directory _ _ => e.cleanupFolder spaceName keepCurrent .icons

/-- `icons.rmdir()` -/
def rmdir : Root → Option Root
  | some ⟨files, .directory _ icons⟩ =>
      if icons.keys = [] then some (some ⟨files, .absent⟩) else none
  | _ => none

def remove (spaceName : SpaceName) : Export Unit := do
  e.cleanupVersions spaceName false
  let root ← look
  match root.icons with
  | .directory _ _ => ignoring (perform .osError rmdir)
  | _ => pure ()

/-- `mkdir`, of the directory of the icons. -/
def mkdir : Root → Option Root
  | some ⟨files, .absent⟩ => some (some ⟨files, .directory e.made ∅⟩)
  | _ => none

/-- `chmod`, of the directory of the icons. -/
def chmodIcons : Root → Option Root
  | some ⟨files, .directory _ icons⟩ => some (some ⟨files, .directory 0o755 icons⟩)
  | _ => none

/-- `path.mkdir(mode=0o755, parents=True, exist_ok=True)` -/
def makeDirectory : Export Unit := do
  let root ← look
  whenever root.isNone (perform .osError fun _ => some (some ⟨∅, .absent⟩))
  let root ← look
  match root.icons with
  | .absent => perform .osError e.mkdir
  | .dangling => throw .osError
  | .unsafeRoot => throw .osError
  | .directory _ _ => pure ()

/-- `_ensure_directory`, of the directory of the icons. -/
def ensureDirectory : Export Unit := do
  e.makeDirectory
  let root ← look
  match root.icons with
  | .directory mode _ => whenever (mode ≠ 0o755) (perform .osError chmodIcons)
  | _ => throw .osError

def writeFile (folder : Folder) (shortcut : GeneratedShortcut) : Export Unit :=
  match folder.file shortcut with
  | some (name, content) => e.atomicWrite folder name content
  | none => pure ()

def writeShortcut (shortcut : GeneratedShortcut) : Export Unit := do
  e.writeFile .applications shortcut
  e.writeFile .icons shortcut

/-- The names that were written to. -/
def expected (folder : Folder) (shortcuts : List GeneratedShortcut) : List FsName :=
  (shortcuts.filterMap folder.file).map Prod.fst

def removeStale (spaceName : SpaceName) (shortcuts : List GeneratedShortcut) (folder : Folder) :
    Export Unit :=
  e.eachVersion spaceName folder fun name version =>
    if version = some SHORTCUT_VERSION ∧ (expected folder shortcuts).contains name = false then
      removePath folder name
    else pure ()

def reconcile (spaceName : SpaceName) (guest : Guest) : Export Unit := do
  e.cleanupVersions spaceName true
  e.ensureDirectory
  match generate e.rt spaceName guest with
  | .error error => throw error
  | .ok shortcuts =>
      forEach e.writeShortcut shortcuts
      e.removeStale spaceName shortcuts .applications
      e.removeStale spaceName shortcuts .icons

end Exporter

end Spaces.Shortcuts
