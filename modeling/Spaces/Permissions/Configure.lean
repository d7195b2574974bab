import Spaces.Permissions.Validation

/-!
# Reconfiguring a Space

A patch is laid key by key over the stored permissions of one user and, if it has a
system section, of the system. What is permitted at runtime is another thing: a
section that names a preset grants what the preset says, whatever its other keys
are. So a patch that names no preset, over a section that names one, is stored and
grants nothing of what it says. `TakesEffect` is the condition that this is not so.

What `download_folder` returns for the user is an input. The lock, the restart and
the steps after the file has been written are not modelled, but that they may fail.
-/

namespace Spaces.Permissions

open Spaces.Library Json

/-! ## Presets -/

/-- A preset, with the home mounts of its user section set apart. -/
structure Preset where
  system : Members
  home : List String
  user : Members

def permissionPresets : List (String × Preset) :=
  [("basic",
      { system := [("network", .str "basic"), ("kernel_capabilities", .str "basic"),
          ("devices", .str "basic"), ("host_authentication", .bool true),
          ("shortcuts", .bool true)]
        home := ["Downloads"]
        user := [("administrator", .bool true), ("desktop", .str "basic"),
          ("credential_agents", .bool false), ("mounted_drives", .bool true)] }),
    ("develop",
      { system := [("network", .str "admin"), ("kernel_capabilities", .str "development"),
          ("devices", .str "admin"), ("host_authentication", .bool true),
          ("shortcuts", .bool true)]
        home := ["Downloads", "Projects", ".bashrc", ".zshrc", ".gitconfig", ".ssh/config"]
        user := [("administrator", .bool true), ("desktop", .str "basic"),
          ("credential_agents", .bool true), ("mounted_drives", .bool true)] })]

def presetNamed (preset : String) : Preset :=
  (permissionPresets.lookup preset).getD ⟨[], [], []⟩

def presetHome (download : Option String) (home : List String) : List String :=
  (home.filterMap fun name => if name = "Downloads" then download else some name).eraseDups

def presetUserPermissions (download : Option String) (preset : String) : Members :=
  ("home", .arr ((presetHome download (presetNamed preset).home).map .str)) ::
    (presetNamed preset).user

/-- What a section grants when its presets are these. -/
def effective (table : String → Members) (label : String) (permissions : Members) :
    Except SpacesError Members := do
  let preset ← validatePreset permissions label
  pure (if preset = "custom" then permissions else table preset)

def effectiveSystemPermissions (permissions : Members) : Except SpacesError Members :=
  effective (fun preset => (presetNamed preset).system) "system permission" permissions

def effectiveUserPermissions (download : Option String) (record : Json) :
    Except SpacesError Members :=
  match (record.get "permissions").getD (.obj []) with
  | .obj permissions => effective (presetUserPermissions download) "user permission" permissions
  | _ => .ok []

/-! ## The merge -/

def object : Option Json → Members
  | some (.obj members) => members
  | _ => []

def requestedEnable (request : Members) : Except SpacesError (Bool × Members) :=
  match field request "enable" (.bool false) with
  | .bool enable => .ok (enable, request.filter (·.1 ≠ "enable"))
  | _ => .error .enableNotBoolean

/-- The key of a user: its id in decimal. -/
def uidKey (user : Members) : String :=
  match user.lookup "uid" with
  | some (.uint uid) => toString uid
  | _ => ""

def mergedUser (users user : Members) : Json :=
  let existing := object (((users.lookup (uidKey user)).getD (.obj [])).get "permissions")
  .obj [("gid", field user "gid" .null),
    ("permissions", .obj (update existing (object (user.lookup "permissions"))))]

def mergedSystem (system patch : Members) : Members :=
  match patch.lookup "system" with
  | some (.obj changes) => update system changes
  | _ => system

/-- A record with other permissions. -/
def withPermissions (info permissions system users : Members) : Members :=
  putMember "permissions"
    (.obj (putMember "users" (.obj users) (putMember "system" (.obj system) permissions))) info

/-- The record after the permissions of a patch were laid over it. -/
def merged (patch info : Members) : Members :=
  let permissions := object (info.lookup "permissions")
  let user := object (patch.lookup "user")
  let users := object (permissions.lookup "users")
  withPermissions info permissions (mergedSystem (object (permissions.lookup "system")) patch)
    (putMember (uidKey user) (mergedUser users user) users)

/-! ## The file -/

def normalizedRecord (record : Json) : Except SpacesError Json := do
  let permissions := object (record.get "permissions")
  let level ← desktopLevel (field permissions "desktop" (.str "basic"))
  pure (put "permissions" (.obj (putMember "desktop" (.str level) permissions)) record)

def normalizedUsers : Members → Except SpacesError Members
  | [] => .ok []
  | (key, record) :: rest => do
      let record ← normalizedRecord record
      let rest ← normalizedUsers rest
      pure ((key, record) :: rest)

/-- What `_write_info` writes. -/
def writtenInfo (info : Members) : Except SpacesError Json := do
  let permissions := object (info.lookup "permissions")
  let users ← normalizedUsers (object (permissions.lookup "users"))
  pure (.obj (withPermissions info permissions (object (permissions.lookup "system")) users))

inductive InfoFile where
  /-- A symbolic link, or no file. -/
  | notRegular
  /-- No JSON document can be read. -/
  | unreadable
  | document (value : Json)

def readInfo : InfoFile → Except SpacesError Json
  | .notRegular => .error .unsafeInformation
  | .unreadable => .error .unreadable
  | .document value => .ok value

def sameName : Json → Json → Bool
  | .str name, .str other => name == other
  | _, _ => false

/-- The document that a request makes of the file. -/
def newDocument (host : Host) (request : Members) (file : InfoFile) :
    Except SpacesError Json := do
  let (_, patch) ← requestedEnable request
  let patch ← validateConfigurePatch (.obj patch)
  let value ← readInfo file
  let info ← validateInfo host value
  check (sameName (field info "name" .null) (field patch "name" .null)) .nameMismatch
  let info ← validateInfo host (.obj (merged (object (patch.lookup "permissions")) info))
  writtenInfo info

/-- What becomes of the file, and how the request ends: the write may fail, and then
what follows it. -/
def configure (host : Host) (request : Members) (file : InfoFile) (writable : Bool)
    (later : Except SpacesError Unit) : Except SpacesError Unit × InfoFile :=
  match newDocument host request file with
  | .error error => (.error error, file)
  | .ok value => if writable then (later, .document value) else (.error .notWritten, file)

end Spaces.Permissions
