import Mathlib.Data.List.DropRight
import Mathlib.Data.List.MinMax
import Spaces.Binds.Paths
import Spaces.Desktop.Refresh
import Spaces.Naming.Brokers

/-!
# Planning a desktop

What a Space is to see of the host's graphical session: sockets, settings, icons and
fonts are checked on the host and get places in the machine, and the variables of the
host's environment that name them are rewritten to these places. The planner goes
resource by resource. Each check may refuse the whole plan, find nothing, or find what
is then bound; in the last case only is the variable set.

The host may change while the planner is at work, so each check sees a kernel of its
own.
-/

namespace Spaces.Desktop

open Spaces.Library Text Spaces.Shortcuts Spaces.Binds

/-- A path of the host or of the machine. -/
abbrev FsPath := PurePath fsChars

/-- A literal of the source. -/
def fsName (text : String) : FsName := fsText text.toList

/-- `Path(text)` -/
def fsPath (text : FsName) : FsPath := .parse fsChars text

def digits (n : Nat) : FsName := fsText (Nat.toDigits 10 n)

/-- Where a path leads, from the root of the machine. -/
def place (path : FsPath) : Place := path.parts.map Component.name

/-! ## Checking the sources -/

inductive SourceKind where
  | socket
  | regular
  | directory
  | other
  deriving DecidableEq

/-- The fields of `os.stat_result` that are read. -/
structure Metadata where
  device : Nat
  inode : Nat
  kind : SourceKind
  /-- `st_mode`, without the type. -/
  mode : Nat
  uid : Nat
  gid : Nat
  size : Nat

/-- An entry of the user database, with `os.getgrouplist`. -/
structure Account where
  uid : Nat
  groups : List Nat

inductive OsError where
  | fileNotFound
  | other
  deriving DecidableEq

inductive PlanError where
  /-- "Could not inspect session resource" -/
  | uninspected (path : FsPath)
  /-- "Could not resolve desktop resource" -/
  | unresolved (path : FsPath)
  /-- "Session resource escapes its allowed directory" -/
  | escapes (path : FsPath)
  /-- "Session resource has an unexpected file type" -/
  | unexpectedType (path : FsPath)
  /-- "Session resource has the wrong owner" -/
  | wrongOwner (path : FsPath)
  /-- "Session resource is inaccessible to its user" -/
  | inaccessible (path : FsPath)
  /-- "Session resource has an inaccessible parent" -/
  | inaccessibleParent (path : FsPath)
  /-- "Invalid Wayland display name." -/
  | waylandName
  /-- "Only local X11 displays may be forwarded." -/
  | remoteDisplay
  /-- "Invalid PipeWire remote name." -/
  | pipewireName
  /-- "... must be an absolute path." -/
  | relative (name : String)
  | os (error : OsError)
  deriving DecidableEq

structure Kernel where
  lstat : FsPath → Except OsError Unit
  /-- `path.resolve(strict=True)`; it may also find a loop. -/
  resolve : FsPath → Option FsPath
  stat : FsPath → Except OsError Metadata
  pathExists : FsPath → Bool

def permissions (metadata : Metadata) (user : Account) : Nat :=
  if metadata.uid = user.uid then metadata.mode >>> 6 &&& 7
  else if metadata.gid ∈ user.groups then metadata.mode >>> 3 &&& 7
  else metadata.mode &&& 7

/-- The arguments of `_validated_source`. -/
structure SourceRequest where
  path : FsPath
  roots : List FsPath
  kinds : List SourceKind
  owner : Option Nat := none
  requireAccess : Bool := true

/-- The parents up to the first of the roots can be searched. -/
def checkParents (kernel : Kernel) (user : Account) (path : FsPath) (roots : List FsPath) :
    List FsPath → Except PlanError Unit
  | [] => .ok ()
  | parent :: parents => do
      let metadata ← (kernel.stat parent).mapError .os
      if permissions metadata user &&& 1 = 0 then throw (.inaccessibleParent path)
      if parent ∈ roots then return ()
      checkParents kernel user path roots parents

/-- What is required of a source depends on what it is. -/
def requiredPermissions : SourceKind → Nat
  | .socket => 2
  | .directory => 5
  | .regular | .other => 4

def validatedSource (kernel : Kernel) (user : Account) (request : SourceRequest) :
    Except PlanError (Option (FsPath × Metadata)) :=
  match kernel.lstat request.path with
  | .error .fileNotFound => .ok none
  | .error .other => .error (.uninspected request.path)
  | .ok () =>
    match kernel.resolve request.path, request.roots.mapM kernel.resolve with
    | some resolved, some roots => do
        if !roots.any resolved.within then throw (.escapes request.path)
        let metadata ← (kernel.stat resolved).mapError .os
        if metadata.kind ∉ request.kinds then throw (.unexpectedType request.path)
        if request.owner.any (· ≠ metadata.uid) then throw (.wrongOwner request.path)
        if request.requireAccess then
          let required := requiredPermissions metadata.kind
          if permissions metadata user &&& required ≠ required then
            throw (.inaccessible request.path)
          checkParents kernel user request.path roots resolved.parents
        return some (resolved, metadata)
    | _, _ => .error (.unresolved request.path)

/-! ## The host -/

/-- What is looked for, each at a moment of its own. -/
inductive Resource where
  | wayland
  | display
  | xauthority
  | pulse
  | pipewire
  | pipewireManager
  | config (name : FsName)
  | gtkSettings (toolkit : String)
  | dconfProfile
  | dconfDatabase
  | data (label name : String)
  | fonts (label : String)
  | fontConfig
  | openData
  | sshAgent
  | gpgAgent (candidate : FsPath)

inductive WriteError where
  /-- `OSError` or `SubprocessError`. -/
  | handled
  | other (error : PlanError)

structure Host where
  kernel : Resource → Kernel
  account : Account
  /-- `gtk-decoration-layout`, where the toolkit's settings can be read and have one. -/
  layout : String → Option FsName
  writeDesktopSettings : FsName → Except WriteError Unit
  writeFontConfig : List FsName → Except OsError Unit
  writeOpenData : List (FsPath × FsPath) → Except PlanError Unit
  /-- `generated_root.exists()` -/
  generatedExists : Bool
  /-- `(runtime / "gnupg").glob("d.*/S.gpg-agent.extra")`, sorted. -/
  gpgDirectories : Except OsError (List FsPath)
  unicode : Unicode

/-- The fields of `DesktopUser` that the planner reads. -/
structure PlannedUser where
  uid : Nat
  hostHome : FsPath
  spaceHome : Option FsPath
  guestHome : FsPath
  desktop : Bool
  accessibility : Bool
  credentialAgents : Bool

structure LoginSession where
  sessionId : Text
  active : Bool
  remote : Bool
  sessionType : Text
  sessionClass : Text

structure OpenPathMapping where
  destination : FsName
  source : FsPath
  deriving DecidableEq

abbrev Environment := String → Option FsName

namespace Environment

def set (environment : Environment) (name : String) (value : FsName) : Environment :=
  Function.update environment name (some value)

def pop (environment : Environment) (name : String) : Environment :=
  Function.update environment name none

@[simp] theorem set_self (environment : Environment) (name : String) (value : FsName) :
    environment.set name value name = some value := Function.update_self ..

@[simp] theorem set_of_ne (environment : Environment) {name other : String} (value : FsName)
    (h : other ≠ name) : environment.set name value other = environment other :=
  Function.update_of_ne h ..

@[simp] theorem pop_self (environment : Environment) (name : String) :
    environment.pop name name = none := Function.update_self ..

@[simp] theorem pop_of_ne (environment : Environment) {name other : String} (h : other ≠ name) :
    environment.pop name other = environment other := Function.update_of_ne h ..

end Environment

/-- The fields of `DesktopPlan` besides its binds. -/
structure PlanRest where
  sessionId : Text
  environment : Environment
  generatedRoot : Option FsPath := none
  openMappings : List OpenPathMapping := []
  mimeSources : List (FsPath × FsPath) := []
  openDataRoot : Option FsPath := none
  desktop : Bool := true
  accessibility : Bool := false

/-! ## Values of the environment -/

def DESKTOP_ENVIRONMENT : List String :=
  ["AT_SPI_BUS_ADDRESS", "BROWSER", "COLORTERM", "DCONF_PROFILE", "DESKTOP_SESSION", "DISPLAY",
    "FONTCONFIG_FILE", "GDK_BACKEND", "GDK_DPI_SCALE", "GDK_SCALE", "GTK_IM_MODULE", "GTK_THEME",
    "GTK_USE_PORTAL", "KDE_APPLICATIONS_AS_SCOPE", "KDE_SESSION_UID", "KDE_SESSION_VERSION",
    "LANG", "LANGUAGE", "LC_ALL", "LC_ADDRESS", "LC_COLLATE", "LC_CTYPE", "LC_IDENTIFICATION",
    "LC_MEASUREMENT", "LC_MESSAGES", "LC_MONETARY", "LC_NAME", "LC_NUMERIC", "LC_PAPER",
    "LC_TELEPHONE", "LC_TIME", "PIPEWIRE_REMOTE", "PIPEWIRE_RUNTIME_DIR", "PULSE_SERVER",
    "QT_AUTO_SCREEN_SCALE_FACTOR", "QT_ENABLE_HIGHDPI_SCALING", "QT_FONT_DPI", "QT_IM_MODULE",
    "QT_QPA_PLATFORM", "QT_QPA_PLATFORMTHEME", "QT_SCALE_FACTOR", "QT_SCREEN_SCALE_FACTORS",
    "QT_STYLE_OVERRIDE", "QT_WAYLAND_DISABLE_WINDOWDECORATION", "SDL_VIDEODRIVER",
    "SPACES_INTEGRATION_BROKER", "SPACES_NAME", "SSH_AUTH_SOCK", "WAYLAND_DISPLAY", "XAUTHORITY",
    "XCURSOR_PATH", "XCURSOR_SIZE", "XCURSOR_THEME", "XDG_CURRENT_DESKTOP", "XDG_CONFIG_DIRS",
    "XDG_DATA_DIRS", "XDG_MENU_PREFIX", "XDG_SESSION_CLASS", "XDG_SESSION_DESKTOP",
    "XDG_SESSION_TYPE", "XMODIFIERS"]

/-- What `_plan` takes out of the copied environment at once. -/
def FORBIDDEN : List String :=
  ["AT_SPI_BUS_ADDRESS", "DBUS_SESSION_BUS_ADDRESS", "DCONF_PROFILE", "FONTCONFIG_FILE",
    "GTK_USE_PORTAL", "PIPEWIRE_RUNTIME_DIR", "SSH_AUTH_SOCK", "XCURSOR_PATH", "XDG_DATA_DIRS",
    "XDG_CONFIG_DIRS", "XDG_RUNTIME_DIR", "XDG_SESSION_ID"]

def MAX_ENVIRONMENT_VALUE : Nat := 4096

def safeValue (value : FsName) : Bool :=
  decide (0 < value.length) && decide (value.length ≤ MAX_ENVIRONMENT_VALUE) &&
    value.all fun c => c ≠ .char '\x00' && c ≠ .char '\n' && c ≠ .char '\r'

/-- `[A-Za-z0-9]`, or one of some other characters. -/
def isWordChar (others : List Char) : FsChar → Bool
  | .char c => c.isAlphanum || others.contains c
  | .surrogate _ => false

def isDigitChar : FsChar → Bool
  | .char c => c.isDigit
  | .surrogate _ => false

/-- `SOCKET_NAME_PATTERN` -/
def isSocketName (value : FsName) : Bool :=
  value ≠ [] && value.all (isWordChar ['_', '.', '-'])

/-- The number in a value that matches `LOCAL_DISPLAY_PATTERN`. -/
def localDisplay (value : FsName) : Option FsName :=
  match (value.dropPrefix? (fsName "unix/")).getD value with
  | .char ':' :: rest =>
      let number := rest.takeWhile isDigitChar
      if number = [] then none
      else
        match rest.dropWhile isDigitChar with
        | [] => some number
        | .char '.' :: screen =>
            if screen ≠ [] && screen.all isDigitChar then some number else none
        | _ => none
  | _ => none

/-- One side of `GTK_DECORATION_LAYOUT_PATTERN`: names, of which the first may be empty. -/
def isLayoutSide (side : FsName) : Bool :=
  match side.splitOn (.char ',') with
  | [] => false
  | first :: others =>
      first.all (isWordChar ['_', '-']) &&
        others.all fun name => name ≠ [] && name.all (isWordChar ['_', '-'])

/-- `GTK_DECORATION_LAYOUT_PATTERN` -/
def isDecorationLayout (layout : FsName) : Bool :=
  match layout.splitOn (.char ':') with
  | [left, right] => isLayoutSide left && isLayoutSide right
  | _ => false

/-- A value that is set and not empty. -/
def Environment.get (environment : Environment) (name : String) : Option FsName :=
  (environment name).filter (· ≠ [])

/-! ## The plan in the making -/

structure Draft where
  environment : Environment
  binds : List DesktopBind

namespace Draft

def set (draft : Draft) (name : String) (value : FsName) : Draft :=
  { draft with environment := draft.environment.set name value }

def pop (draft : Draft) (name : String) : Draft :=
  { draft with environment := draft.environment.pop name }

@[simp] theorem set_environment (draft : Draft) (name : String) (value : FsName) :
    (draft.set name value).environment = draft.environment.set name value := rfl

@[simp] theorem set_binds (draft : Draft) (name : String) (value : FsName) :
    (draft.set name value).binds = draft.binds := rfl

@[simp] theorem pop_environment (draft : Draft) (name : String) :
    (draft.pop name).environment = draft.environment.pop name := rfl

@[simp] theorem pop_binds (draft : Draft) (name : String) :
    (draft.pop name).binds = draft.binds := rfl

end Draft

/-- A source that is looked for, and the place where it is to be seen. -/
structure Item where
  resource : Resource
  request : SourceRequest
  destination : FsPath

def Host.check (host : Host) (resource : Resource) (request : SourceRequest) :
    Except PlanError (Option (FsPath × Metadata)) :=
  validatedSource (host.kernel resource) host.account request

/-- `add`. -/
def add (host : Host) (item : Item) (draft : Draft) : Except PlanError (Bool × Draft) :=
  (host.check item.resource item.request).map fun
    | none => (false, draft)
    | some (resolved, metadata) =>
        (true, { draft with binds := draft.binds ++
          [⟨place item.destination, place resolved, metadata.device, metadata.inode⟩] })

/-- Which of them could be added. -/
def addEach (host : Host) : List Item → Draft → Except PlanError (List Item × Draft)
  | [], draft => .ok ([], draft)
  | item :: items, draft => do
      let (found, draft) ← add host item draft
      let (others, draft) ← addEach host items draft
      return (if found then item :: others else others, draft)

def runtimePath (user : PlannedUser) : FsPath := (fsPath (fsName "/run/user")).div (digits user.uid)

/-- `DESKTOP_ROOT / str(user.uid)` -/
def rootPath (user : PlannedUser) : FsPath :=
  (fsPath (fsName "/run/spaces/desktop")).div (digits user.uid)

/-- `CREDENTIAL_ROOT / str(user.uid)` -/
def credentialRoot (user : PlannedUser) : FsPath :=
  (fsPath (fsName "/run/spaces/credentials")).div (digits user.uid)

/-- What is copied of the host's environment. -/
def copiedEnvironment (source : Environment) : Environment := fun name =>
  if name ∈ DESKTOP_ENVIRONMENT ∧ name ∉ FORBIDDEN then (source name).filter safeValue else none

/-! ## Sockets -/

def waylandItem (user : PlannedUser) (wayland : FsName) : Except PlanError Item := do
  let source := fsPath wayland
  if !source.isAbsolute && !isSocketName wayland then throw .waylandName
  let source := if source.isAbsolute then source else (runtimePath user).div wayland
  return ⟨.wayland,
    { path := source, roots := [runtimePath user], kinds := [.socket], owner := some user.uid },
    ((rootPath user).div (fsName "wayland")).div source.name⟩

def forwardWayland (host : Host) (user : PlannedUser) (draft : Draft) :
    Except PlanError Draft :=
  match draft.environment "WAYLAND_DISPLAY" with
  | none => .ok draft
  | some wayland => do
      let item ← waylandItem user wayland
      let (found, draft) ← add host item (draft.pop "WAYLAND_DISPLAY")
      return if found then draft.set "WAYLAND_DISPLAY" item.destination.str else draft

/-- The socket of a display. -/
def displaySocket (number : FsName) : FsPath := fsPath (fsName "/tmp/.X11-unix/X" ++ number)

def displayItem (number : FsName) : Item :=
  ⟨.display,
    { path := displaySocket number, roots := [fsPath (fsName "/tmp/.X11-unix")],
      kinds := [.socket] },
    displaySocket number⟩

def forwardDisplay (host : Host) (draft : Draft) : Except PlanError Draft :=
  match draft.environment "DISPLAY" with
  | none => .ok draft
  | some display =>
    match localDisplay display with
    | none => .error .remoteDisplay
    | some number => do
        let (found, draft) ← add host (displayItem number) (draft.pop "DISPLAY")
        return if found then draft.set "DISPLAY" display else draft

def xauthorityItem (user : PlannedUser) (source : Environment) : Item :=
  let xauthority := match source.get "XAUTHORITY" with
    | some value => fsPath value
    | none => user.hostHome.div (fsName ".Xauthority")
  ⟨.xauthority,
    { path := xauthority, roots := [user.hostHome, runtimePath user], kinds := [.regular],
      owner := some user.uid },
    (rootPath user).div (fsName "xauthority")⟩

def forwardXauthority (host : Host) (user : PlannedUser) (source : Environment) (draft : Draft) :
    Except PlanError Draft :=
  if (draft.environment "DISPLAY").isSome then do
    let item := xauthorityItem user source
    if !item.request.path.isAbsolute then throw (.relative "XAUTHORITY")
    let (found, draft) ← add host item draft
    return if found then draft.set "XAUTHORITY" item.destination.str else draft
  else .ok draft

def pulseItem (user : PlannedUser) (source : Environment) : Item :=
  let native := ((runtimePath user).div (fsName "pulse")).div (fsName "native")
  let pulse := match (source.get "PULSE_SERVER").bind (List.dropPrefix? · (fsName "unix:")) with
    | some value => fsPath value
    | none => native
  ⟨.pulse,
    { path := pulse, roots := [runtimePath user], kinds := [.socket], owner := some user.uid },
    ((rootPath user).div (fsName "pulse")).div (fsName "native")⟩

def forwardPulse (host : Host) (user : PlannedUser) (source : Environment) (draft : Draft) :
    Except PlanError Draft := do
  let item := pulseItem user source
  let (found, draft) ← add host item draft
  return if found then draft.set "PULSE_SERVER" (fsName "unix:" ++ item.destination.str)
    else draft.pop "PULSE_SERVER"

def pipewireRemote (source : Environment) : FsName :=
  (source "PIPEWIRE_REMOTE").getD (fsName "pipewire-0")

def pipewireRoot (user : PlannedUser) : FsPath := (rootPath user).div (fsName "pipewire")

/-- The socket, or the one of the manager beside it. -/
def pipewireItem (user : PlannedUser) (resource : Resource) (name : FsName) : Item :=
  ⟨resource,
    { path := (runtimePath user).div name, roots := [runtimePath user], kinds := [.socket],
      owner := some user.uid },
    (pipewireRoot user).div name⟩

def forwardPipewire (host : Host) (user : PlannedUser) (source : Environment) (draft : Draft) :
    Except PlanError Draft := do
  let remote := pipewireRemote source
  if !isSocketName remote then throw .pipewireName
  let (found, draft) ← add host (pipewireItem user .pipewire remote) draft
  if found then
    let draft := (draft.set "PIPEWIRE_RUNTIME_DIR" (pipewireRoot user).str).set
      "PIPEWIRE_REMOTE" remote
    let (_, draft) ← add host
      (pipewireItem user .pipewireManager (remote ++ fsName "-manager")) draft
    return draft
  return (draft.pop "PIPEWIRE_REMOTE").pop "PIPEWIRE_RUNTIME_DIR"

/-! ## Settings -/

def configItems (user : PlannedUser) (config : FsPath) : List Item :=
  let destination := user.guestHome.div (fsName ".config")
  let item (name : FsName) (kind : SourceKind) : Item :=
    ⟨.config name,
      { path := config.div name, roots := [user.hostHome], kinds := [kind],
        owner := some user.uid },
      destination.div name⟩
  item (fsName "kdeglobals") .regular :: CONFIG_DIRECTORIES.map (item · .directory)

/-- `_gtk_decoration_layout`, for the toolkits in their order. -/
def gtkDecorationLayout (host : Host) (user : PlannedUser) (config : FsPath) :
    List String → Except PlanError (Option FsName)
  | [] => .ok none
  | toolkit :: toolkits => do
      let checked ← host.check (.gtkSettings toolkit)
        { path := (config.div (fsName toolkit)).div (fsName "settings.ini"),
          roots := [user.hostHome], kinds := [.regular], owner := some user.uid }
      match checked, host.layout toolkit with
      | some (_, metadata), some layout =>
          if metadata.size ≤ 64 * 1024 ∧ layout.length ≤ 256 ∧ isDecorationLayout layout then
            return some layout
          else gtkDecorationLayout host user config toolkits
      | _, _ => gtkDecorationLayout host user config toolkits

def dconfItem (user : PlannedUser) (generated : FsPath) (resource : Resource) (name : String) :
    Item :=
  ⟨resource,
    { path := (generated.div (fsName "dconf")).div (fsName name), roots := [generated],
      kinds := [.regular], requireAccess := false },
    ((rootPath user).div (fsName "dconf")).div (fsName name)⟩

def dconfProfile (user : PlannedUser) (generated : FsPath) : Item :=
  dconfItem user generated .dconfProfile "profile"

def dconfDatabase (user : PlannedUser) (generated : FsPath) : Item :=
  dconfItem user generated .dconfDatabase "spaces-host"

/-- The layout that was found is written down for the machine. -/
def forwardLayout (host : Host) (user : PlannedUser) (generated : FsPath) (layout : FsName)
    (draft : Draft) : Except PlanError Draft :=
  match host.writeDesktopSettings layout with
  | .error .handled => .ok draft
  | .error (.other error) => .error error
  | .ok () => do
      let (profile, draft) ← add host (dconfProfile user generated) draft
      let (database, draft) ← add host (dconfDatabase user generated) draft
      return if profile && database then
        draft.set "DCONF_PROFILE" (dconfProfile user generated).destination.str
      else draft

def configHome (user : PlannedUser) (source : Environment) : FsPath :=
  match source.get "XDG_CONFIG_HOME" with
  | some value => fsPath value
  | none => user.hostHome.div (fsName ".config")

def toolkits : List String := ["gtk-4.0", "gtk-3.0"]

def forwardConfig (host : Host) (user : PlannedUser) (source : Environment) (generated : FsPath)
    (draft : Draft) : Except PlanError Draft := do
  let config := configHome user source
  if !config.isAbsolute then throw (.relative "XDG_CONFIG_HOME")
  let (_, draft) ← addEach host (configItems user config) draft
  match ← gtkDecorationLayout host user config toolkits with
  | some layout => forwardLayout host user generated layout draft
  | none => return draft

/-! ## Icons, themes and fonts -/

/-- A root in the machine, and what is to be seen beneath it. -/
structure DataRoot where
  destination : FsPath
  items : List Item

def dataRoot (user : PlannedUser) (label : String) : FsPath :=
  ((rootPath user).div (fsName "data")).div (fsName label)

def appearanceRoot (user : PlannedUser) (label : String) (source root : FsPath)
    (owner : Option Nat) : DataRoot :=
  ⟨dataRoot user label, ["icons", "themes", "color-schemes"].map fun name =>
    ⟨.data label name,
      { path := source.div (fsName name), roots := [root], kinds := [.directory],
        owner := owner },
      (dataRoot user label).div (fsName name)⟩⟩

def legacyRoot (user : PlannedUser) (label : String) (source : FsPath) (kind : String) :
    DataRoot :=
  ⟨dataRoot user label,
    [⟨.data label kind,
      { path := source, roots := [user.hostHome], kinds := [.directory],
        owner := some user.uid },
      (dataRoot user label).div (fsName kind)⟩]⟩

def dataRootsOf (user : PlannedUser) (dataHome : FsPath) : List DataRoot :=
  [appearanceRoot user "user" dataHome user.hostHome (some user.uid),
    appearanceRoot user "local" (fsPath (fsName "/usr/local/share"))
      (fsPath (fsName "/usr/local/share")) none,
    appearanceRoot user "system" (fsPath (fsName "/usr/share")) (fsPath (fsName "/usr/share")) none,
    legacyRoot user "legacy-icons" (user.hostHome.div (fsName ".icons")) "icons",
    legacyRoot user "legacy-themes" (user.hostHome.div (fsName ".themes")) "themes"]

/-- The roots beneath which anything could be added. -/
def addRoots (host : Host) : List DataRoot → Draft → Except PlanError (List FsName × Draft)
  | [], draft => .ok ([], draft)
  | root :: roots, draft => do
      let (found, draft) ← addEach host root.items draft
      let (others, draft) ← addRoots host roots draft
      return (if found.isEmpty then others else root.destination.str :: others, draft)

def dataHome (user : PlannedUser) (source : Environment) : FsPath :=
  match source.get "XDG_DATA_HOME" with
  | some value => fsPath value
  | none => user.hostHome.div (fsName ".local/share")

def forwardData (host : Host) (user : PlannedUser) (source : Environment) (draft : Draft) :
    Except PlanError (List FsName × Draft) := do
  let dataHome := dataHome user source
  if !dataHome.isAbsolute then throw (.relative "XDG_DATA_HOME")
  addRoots host (dataRootsOf user dataHome) draft

def fontItem (user : PlannedUser) (label : String) (source root : FsPath) (owner : Option Nat) :
    Item :=
  ⟨.fonts label,
    { path := source, roots := [root], kinds := [.directory], owner := owner },
    ((rootPath user).div (fsName "fonts")).div (fsName label)⟩

def fontItems (user : PlannedUser) : List Item :=
  [fontItem user "user" (user.hostHome.div (fsName ".local/share/fonts")) user.hostHome
      (some user.uid),
    fontItem user "legacy" (user.hostHome.div (fsName ".fonts")) user.hostHome (some user.uid),
    fontItem user "local" (fsPath (fsName "/usr/local/share/fonts"))
      (fsPath (fsName "/usr/local/share")) none,
    fontItem user "system" (fsPath (fsName "/usr/share/fonts")) (fsPath (fsName "/usr/share")) none]

def fontConfigItem (user : PlannedUser) (generated : FsPath) : Item :=
  ⟨.fontConfig,
    { path := generated.div (fsName "fonts.conf"), roots := [generated], kinds := [.regular],
      requireAccess := false },
    (rootPath user).div (fsName "fonts.conf")⟩

def forwardFonts (host : Host) (user : PlannedUser) (generated : FsPath) (draft : Draft) :
    Except PlanError Draft := do
  let (found, draft) ← addEach host (fontItems user) draft
  if found.isEmpty then return draft
  (host.writeFontConfig (found.map fun item => item.destination.str)).mapError .os
  let (found, draft) ← add host (fontConfigItem user generated) draft
  return if found then
    draft.set "FONTCONFIG_FILE" (fontConfigItem user generated).destination.str
  else draft

/-! ## Opening on the host -/

/-- `text.startswith(mapping.destination.rstrip("/") + "/")`, or the destination itself. -/
def OpenPathMapping.covers (mapping : OpenPathMapping) (text : FsName) : Bool :=
  text == mapping.destination ||
    (mapping.destination.rdropWhile (· = FsChar.char '/') ++ [FsChar.char '/']).isPrefixOf text

def mimeSources (user : PlannedUser) (rootfs : Option FsPath)
    (openMappings : List OpenPathMapping) : List (FsPath × FsPath) :=
  let system := match rootfs with
    | none => []
    | some rootfs => [(rootfs.div (fsName "usr/share/mime/types"), rootfs),
        (rootfs.div (fsName "usr/local/share/mime/types"), rootfs)]
  let home := match user.spaceHome with
    | none => []
    | some spaceHome =>
      let guestTypes := (user.guestHome.div (fsName ".local/share/mime/types")).str
      match (openMappings.filter (·.covers guestTypes)).argmax (·.destination.length) with
      | some mapping =>
          let relative := (guestTypes.drop mapping.destination.length).dropWhile
            (· = FsChar.char '/')
          [(mapping.source.div relative, mapping.source)]
      | none => [(spaceHome.div (fsName ".local/share/mime/types"), spaceHome)]
  system ++ home

def openDataItem (user : PlannedUser) (generated : FsPath) : Item :=
  ⟨.openData,
    { path := generated.div (fsName "open-data"), roots := [generated], kinds := [.directory],
      requireAccess := false },
    (rootPath user).div (fsName "open-data")⟩

def forwardOpenData (host : Host) (user : PlannedUser) (generated : FsPath)
    (sources : List (FsPath × FsPath)) (draft : Draft) : Except PlanError Draft := do
  host.writeOpenData sources
  let (_, draft) ← add host (openDataItem user generated) draft
  return draft

/-! ## The plans -/

def colons (texts : List FsName) : FsName := [FsChar.char ':'].intercalate texts

def casefold (unicode : Unicode) (text : FsName) : FsName :=
  text.flatMap fun
    | .char c => fsText (unicode.casefold c)
    | .surrogate byte => [.surrogate byte]

def currentDesktop (unicode : Unicode) (draft : Draft) : FsName :=
  let desktops := ((draft.environment "XDG_CURRENT_DESKTOP").getD []).splitOn (.char ':')
  colons (fsName "Spaces" ::
    desktops.filter fun item => item ≠ [] && casefold unicode item ≠ fsName "spaces")

/-- The variables that name nothing that was looked for. -/
def finish (unicode : Unicode) (user : PlannedUser) (selected : LoginSession)
    (roots : List FsName) (draft : Draft) : Draft :=
  let openData := ((rootPath user).div (fsName "open-data")).str
  let draft := draft.set "XDG_DATA_DIRS"
    (colons (openData :: roots ++ [fsName "/usr/local/share", fsName "/usr/share"]))
  let draft := if roots.isEmpty then draft else
    draft.set "XCURSOR_PATH" (colons (roots.map (· ++ fsName "/icons") ++
      [fsName "/usr/local/share/icons", fsName "/usr/share/icons"]))
  let draft := draft.set "XDG_CURRENT_DESKTOP" (currentDesktop unicode draft)
  let draft := draft.set "BROWSER" (fsName "/run/spaces-host/bin/spaces-open")
  let draft := draft.set "XDG_CONFIG_DIRS" (fsName "/run/spaces-host/config:/etc/xdg")
  let draft := draft.set "XDG_SESSION_TYPE" (fsText selected.sessionType)
  draft.set "XDG_SESSION_CLASS" (fsName "user")

/-- The draft of `_plan` when everything was looked for. -/
def drafted (host : Host) (user : PlannedUser) (selected : LoginSession) (source : Environment)
    (generated : FsPath) (sources : List (FsPath × FsPath)) : Except PlanError Draft := do
  let draft ← forwardWayland host user ⟨copiedEnvironment source, []⟩
  let draft ← forwardDisplay host draft
  let draft ← forwardXauthority host user source draft
  let draft ← forwardPulse host user source draft
  let draft ← forwardPipewire host user source draft
  let draft ← forwardConfig host user source generated draft
  let (roots, draft) ← forwardData host user source draft
  let draft ← forwardFonts host user generated draft
  let draft ← forwardOpenData host user generated sources draft
  return finish host.unicode user selected roots draft

/-- `_plan`. -/
def desktopPlan (host : Host) (user : PlannedUser) (selected : LoginSession)
    (source : Environment) (generated : FsPath) (rootfs : Option FsPath)
    (openMappings : List OpenPathMapping) : Except PlanError (DesktopPlan PlanRest) := do
  let sources := mimeSources user rootfs openMappings
  let draft ← drafted host user selected source generated sources
  return {
    binds := sorted draft.binds
    rest := {
      sessionId := selected.sessionId
      environment := draft.environment
      generatedRoot := if host.generatedExists then some generated else none
      openMappings := openMappings
      mimeSources := sources
      openDataRoot := some (generated.div (fsName "open-data"))
      accessibility := user.accessibility } }

/-- `add` of `_credential_plan`: a root that does not exist allows nothing. -/
def addCredential (host : Host) (item : Item) (draft : Draft) : Except PlanError (Bool × Draft) :=
  let roots := item.request.roots.filter (host.kernel item.resource).pathExists
  if roots = [] then .ok (false, draft)
  else add host { item with request := { item.request with roots := roots } } draft

def sshAgentItem (user : PlannedUser) (source : FsPath) : Item :=
  ⟨.sshAgent,
    { path := source, roots := [runtimePath user, user.hostHome, fsPath (fsName "/tmp")],
      kinds := [.socket], owner := some user.uid },
    (credentialRoot user).div (fsName "ssh-agent")⟩

def sshValue (user : PlannedUser) (source : Environment) : FsName :=
  (source.get "SSH_AUTH_SOCK").getD ((runtimePath user).div (fsName "ssh-agent.socket")).str

def forwardSshAgent (host : Host) (user : PlannedUser) (source : Environment) (draft : Draft) :
    Except PlanError Draft :=
  let value := sshValue user source
  if safeValue value then do
    let agent := fsPath value
    if !agent.isAbsolute then throw (.relative "SSH_AUTH_SOCK")
    let (found, draft) ← addCredential host (sshAgentItem user agent) draft
    return if found then
      draft.set "SSH_AUTH_SOCK" (sshAgentItem user agent).destination.str
    else draft
  else .ok draft

def gpgAgentItem (user : PlannedUser) (candidate : FsPath) : Item :=
  ⟨.gpgAgent candidate,
    { path := candidate, roots := [runtimePath user, user.hostHome], kinds := [.socket],
      owner := some user.uid },
    ((runtimePath user).div (fsName "gnupg")).div (fsName "S.gpg-agent")⟩

/-- The place of the extra socket, which the bind that was just made has too. -/
def bindExtra (user : PlannedUser) (draft : Draft) : Draft :=
  let extra := ((runtimePath user).div (fsName "gnupg")).div (fsName "S.gpg-agent.extra")
  { draft with binds := draft.binds ++ draft.binds.getLast?.toList.map fun binding =>
      { binding with destination := place extra } }

/-- The first of the candidates that can be added. -/
def forwardGpgAgent (host : Host) (user : PlannedUser) :
    List FsPath → Draft → Except PlanError Draft
  | [], draft => .ok draft
  | candidate :: candidates, draft => do
      let (found, draft) ← addCredential host (gpgAgentItem user candidate) draft
      if found then return bindExtra user draft
      forwardGpgAgent host user candidates draft

/-- `_credential_plan`. -/
def credentialPlan (host : Host) (user : PlannedUser) (source : Environment) :
    Except PlanError (DesktopPlan PlanRest) := do
  let draft ← forwardSshAgent host user source ⟨fun _ => none, []⟩
  let directories ← host.gpgDirectories.mapError .os
  let candidates := [(runtimePath user).div (fsName "gnupg"),
    user.hostHome.div (fsName ".gnupg")].map (·.div (fsName "S.gpg-agent.extra")) ++ directories
  let draft ← forwardGpgAgent host user candidates draft
  return {
    binds := sorted draft.binds
    rest := { sessionId := "credentials".toList, environment := draft.environment,
              desktop := false } }

def selectGraphicalSession (sessions : List LoginSession) (environment : Environment) :
    Option LoginSession :=
  match environment.get "XDG_SESSION_ID" with
  | none => none
  | some manager =>
    match sessions.filter fun item =>
        fsText item.sessionId = manager && item.active && !item.remote &&
          item.sessionClass = "user".toList &&
          (item.sessionType = "wayland".toList || item.sessionType = "x11".toList) with
    | [selected] => some selected
    | _ => none

/-- What `reconcile` has beside the host: the Space's name, its root and its portals. -/
structure Space where
  name : Text
  rootfs : Option FsPath
  portalsEnabled : Bool

def withSpace (space : Space) (user : PlannedUser) (selected : LoginSession)
    (environment : Environment) : Environment :=
  let environment := environment.set "SPACES_NAME" (fsText space.name)
  let environment := environment.set "SPACES_INTEGRATION_BROKER"
    (fsText (Naming.brokerName space.name user.uid selected.sessionId))
  if space.portalsEnabled then environment.set "GTK_USE_PORTAL" (fsName "1") else environment

/-- The graphical part of the plan; without a session it is empty. -/
def graphicalPlan (host : Host) (space : Space) (user : PlannedUser) (source : Environment)
    (generated : FsPath) (openMappings : List OpenPathMapping) :
    Option LoginSession → Except PlanError (DesktopPlan PlanRest)
  | some selected =>
      (desktopPlan host user selected source generated space.rootfs openMappings).map fun plan =>
        { plan with rest := { plan.rest with
            environment := withSpace space user selected plan.rest.environment } }
  | none => .ok {
      binds := []
      rest := { sessionId := "credentials".toList, environment := fun _ => none,
                desktop := false } }

/-- The credentials are bound beside the rest, and their variables replace others. -/
def withCredentials (plan credentials : DesktopPlan PlanRest) : DesktopPlan PlanRest where
  binds := sorted (plan.binds ++ credentials.binds)
  rest := { plan.rest with environment := fun name =>
    (credentials.rest.environment name).or (plan.rest.environment name) }

/-- The session that a user's desktop is taken from. -/
def selectedSession (user : PlannedUser) (sessions : List LoginSession) (source : Environment) :
    Option LoginSession :=
  if user.desktop then selectGraphicalSession sessions source else none

/-- The plan that `reconcile` makes, when it makes one. -/
def reconciledPlan (host : Host) (space : Space) (user : PlannedUser)
    (sessions : List LoginSession) (source : Environment) (generated : FsPath)
    (openMappings : List OpenPathMapping) (sessionActive : Bool) :
    Except PlanError (Option (DesktopPlan PlanRest)) :=
  let selected := selectedSession user sessions source
  if user.uid = 0 || (!user.desktop && !user.credentialAgents) || !sessionActive then .ok none
  else if selected.isNone && !user.credentialAgents then .ok none
  else do
    let plan ← graphicalPlan host space user source generated openMappings selected
    if user.credentialAgents then
      let credentials ← credentialPlan host user source
      return some (withCredentials plan credentials)
    return some plan

end Spaces.Desktop
