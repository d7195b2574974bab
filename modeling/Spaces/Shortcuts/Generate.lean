import Spaces.Library.KeyFile
import Spaces.Shortcuts.Names

/-!
# From guest desktop files to host shortcuts

`readGroups` takes a guest file apart, `renderGroups` writes what of it may be
shown on the host, and `generate` does both for all desktop files of a space.
The guest chooses every file name and every byte; what the directories hold, and
which values of `Icon` lead to a picture, is the `Guest` argument.
-/

namespace Spaces.Shortcuts

open Spaces.Library Spaces.Library.Text

/-! ## Reading -/

/-- A Python `dict`: setting a key again keeps its place. -/
abbrev Dict := List (Text × Text)

namespace Dict

def set (values : Dict) (key value : Text) : Dict :=
  if (values.map Prod.fst).contains key then
    values.map fun p => if p.1 = key then (key, value) else p
  else values ++ [(key, value)]

/-- `values.get(key, "")` -/
def getD (values : Dict) (key : Text) : Text := (values.lookup key).getD []

end Dict

structure Section where
  name : Text
  values : Dict

def isKeyChar (c : Char) : Bool := c.isAlphanum || c == '-'

/-- `KEY_PATTERN`. -/
def isKey (key : Text) : Bool :=
  key.takeWhile isKeyChar ≠ [] &&
    match key.dropWhile isKeyChar with
    | [] => true
    | '[' :: locale =>
        locale.getLast? = some ']' && locale.dropLast ≠ []
          && locale.dropLast.all fun c => c != ']' && c != '\r' && c != '\n'
    | _ => false

/-- One line of `_read_groups`; the last section is the first of the list. -/
def readLine (groups : List Section) (rawLine : Text) : Option (List Section) :=
  let line := strip rawLine
  if line = [] ∨ line.head? = some '#' then some groups
  else if line.head? = some '[' ∧ line.getLast? = some ']' then
    let name := line.tail.dropLast
    if name = [] ∨ '\x00' ∈ name then none
    else some (⟨name, []⟩ :: groups)
  else
    match groups, cut '=' rawLine with
    | current :: earlier, some (key, value) =>
        let key := strip key
        if !isKey key || '\x00' ∈ value then some groups
        else some (⟨current.name, current.values.set key value⟩ :: earlier)
    | _, _ => some groups

def MAX_DESKTOP_FILE_SIZE : Nat := 1024 * 1024

/-- A file below one of the source directories. -/
structure GuestFile where
  relative : Relative
  /-- Not a symbolic link, and a file. -/
  regular : Bool
  size : Nat
  /-- The file as text; nothing where it cannot be read or is not UTF-8. -/
  text : Option Text

def readGroups (file : GuestFile) : Option (List Section) :=
  if file.size > MAX_DESKTOP_FILE_SIZE then none
  else do
    let text ← file.text
    let groups ← (splitlines (universalNewlines text)).foldlM readLine []
    return groups.reverse

/-! ## Rendering -/

def MAIN_KEYS : List Text :=
  ["Type", "Version", "Name", "GenericName", "Comment", "Keywords", "Exec", "Icon",
    "Terminal", "Categories", "MimeType", "Actions", "OnlyShowIn", "NotShowIn", "NoDisplay",
    "Hidden", "StartupNotify", "StartupWMClass", "PrefersNonDefaultGPU",
    "SingleMainWindow"].map String.toList

def LOCALIZED_KEYS : List Text :=
  ["Name", "GenericName", "Comment", "Keywords"].map String.toList

def ACTION_KEYS : List Text := ["Name", "Exec", "Icon"].map String.toList

/-- `ACTION_ID_PATTERN`. -/
def isActionId (name : Text) : Bool := name ≠ [] && name.all isKeyChar

def baseKey (key : Text) : Text := key.takeWhile (· ≠ '[')

def isAllowedKey (key : Text) (allowed : List Text) : Bool :=
  allowed.contains key || (LOCALIZED_KEYS.contains (baseKey key) && key.getLast? = some ']')

/-- What `_wrap_exec` puts before a command. -/
def execPrefix (spaceName : SpaceName) : Text :=
  "/usr/bin/spaces enter --graphical ".toList ++ spaceName.text ++ " -- ".toList

def wrapExec (spaceName : SpaceName) (command : Text) : Text :=
  execPrefix spaceName ++ command

def desktopEntry : Text := "Desktop Entry".toList
def desktopAction : Text := "Desktop Action ".toList

def mainSection (groups : List Section) : Option Dict :=
  (groups.find? (·.name = desktopEntry)).map Section.values

/-- `value.split(";")`, of the `Actions` key. -/
def actionNames (main : Dict) : List Text := (main.getD "Actions".toList).splitOn ';'

/-- The test of the loop over the groups, which collects the valid actions. -/
def isValidAction (main : Dict) (group : Section) : Bool :=
  desktopAction <+: group.name
    && isActionId (removePrefix desktopAction group.name)
    && (actionNames main).contains (removePrefix desktopAction group.name)
    && strip (group.values.getD "Exec".toList) ≠ []

def validActions (groups : List Section) (main : Dict) : List Section :=
  groups.filter (isValidAction main)

def validActionNames (groups : List Section) (main : Dict) : List Text :=
  (validActions groups main).map fun group => removePrefix desktopAction group.name

/-- What the new `Actions` key says: the actions that are kept. -/
def keptActions (groups : List Section) (main : Dict) : Text :=
  ((actionNames main).filter (validActionNames groups main).contains).flatMap (· ++ [';'])

/-- The pair a key of the main group is written as, if it is written. -/
def mainEntry (groups : List Section) (main : Dict) (spaceName : SpaceName)
    (iconPath : Option Text) (startupWmClass : Text) : Text × Text → Option (Text × Text)
  | (key, value) =>
      if !isAllowedKey key MAIN_KEYS then none
      else if baseKey key = "Name".toList then
        some (key, value ++ " (".toList ++ spaceName.text ++ [')'])
      else if key = "Exec".toList then some (key, wrapExec spaceName value)
      else if key = "Icon".toList then iconPath.map (key, ·)
      else if key = "StartupWMClass".toList then some (key, startupWmClass)
      else if key = "Actions".toList then
        if keptActions groups main = [] then none else some (key, keptActions groups main)
      else some (key, value)

def actionEntry (spaceName : SpaceName) (iconPath : Option Text) :
    Text × Text → Option (Text × Text)
  | (key, value) =>
      if !isAllowedKey key ACTION_KEYS then none
      else if key = "Exec".toList then some (key, wrapExec spaceName value)
      else if key = "Icon".toList then iconPath.map (key, ·)
      else some (key, value)

/-- The keys that are added to the main group where they are missing. -/
def addedIcon (main : Dict) (iconPath : Option Text) : Dict :=
  if (main.map Prod.fst).contains "Icon".toList then []
  else (iconPath.map ("Icon".toList, ·)).toList

def addedClass (main : Dict) (startupWmClass : Text) : Dict :=
  if (main.map Prod.fst).contains "StartupWMClass".toList then []
  else [("StartupWMClass".toList, startupWmClass)]

def renderMain (groups : List Section) (main : Dict) (spaceName : SpaceName)
    (iconPath : Option Text) (startupWmClass : Text) : KeyFile.Group :=
  { name := desktopEntry
    entries :=
      main.filterMap (mainEntry groups main spaceName iconPath startupWmClass)
        ++ addedIcon main iconPath ++ addedClass main startupWmClass
        ++ [("DBusActivatable".toList, "false".toList)] }

def renderAction (spaceName : SpaceName) (iconPath : Option Text) (group : Section) :
    KeyFile.Group :=
  ⟨group.name, group.values.filterMap (actionEntry spaceName iconPath)⟩

/-- The text of the shortcut, nothing for an entry that is no application. Only
the window class can hold what has no encoding. -/
def renderGroups (groups : List Section) (spaceName : SpaceName) (iconPath : Option Text)
    (startupWmClass : FsName) : Except PyError (Option Text) :=
  match mainSection groups with
  | none => .ok none
  | some main =>
      if main.lookup "Type".toList ≠ some "Application".toList
          ∨ strip (main.getD "Name".toList) = [] ∨ strip (main.getD "Exec".toList) = [] then
        .ok none
      else
        match encode startupWmClass with
        | none => .error .unicodeEncodeError
        | some startupWmClass =>
            .ok (some (KeyFile.write
              (renderMain groups main spaceName iconPath startupWmClass)
              ((validActions groups main).map (renderAction spaceName iconPath))))

/-! ## All desktop files of a space -/

structure Guest where
  /-- What `rglob` finds, sorted; nothing where the directory is missing or
  leads out of the space. -/
  applications : Origin → Option (List GuestFile)
  /-- `_render_icon`. -/
  icon : Text → Option (List UInt8)

structure DesktopSource where
  origin : Origin
  file : GuestFile
  outputName : Text

structure GeneratedShortcut where
  name : Text
  /-- The text whose UTF-8 encoding is written. -/
  desktop : Text
  iconName : Option Text
  icon : Option (List UInt8)
  deriving DecidableEq

/-- `_desktop_sources`, one file: the names that are taken, and the sources. -/
def addSource (rt : Runtime) (origin : Origin)
    (found : List (Text × FsName) × List DesktopSource) (file : GuestFile) :
    Except PyError (List (Text × FsName) × List DesktopSource) :=
  let (usedNames, candidates) := found
  if ¬ fsText desktopSuffix <:+ file.relative.name.name ∨ file.regular = false
      ∨ isBlacklisted rt.unicode file.relative then
    .ok found
  else
    let outputName := outputId rt file.relative origin.idPrefix
    let identity := fsText origin.name ++ .char '/' :: file.relative.str
    let add (outputName : Text) :=
      ((outputName, identity) :: usedNames, candidates ++ [⟨origin, file, outputName⟩])
    match usedNames.lookup outputName with
    | none => .ok (add outputName)
    | some previous =>
        if previous = identity then .ok (add outputName)
        else
          match encode identity with
          | none => .error .unicodeEncodeError
          | some _ =>
              let digest := (rt.hexdigest identity).take 10
              .ok (add (removeSuffix desktopSuffix outputName ++ '-' :: digest
                ++ desktopSuffix))

def desktopSources (rt : Runtime) (guest : Guest) : Except PyError (List DesktopSource) :=
  let files (origin : Origin) :=
    ((guest.applications origin).getD []).map (origin, ·)
  ((files .system ++ files .localOrigin).foldlM
    (fun found (origin, file) => addSource rt origin found file) ([], [])).map Prod.snd

structure Parsed where
  source : DesktopSource
  groups : List Section
  main : Dict

def isTrue (u : Unicode) (value : Text) : Bool :=
  (strip value).flatMap u.casefold = "true".toList

/-- The entries that are read and not left out of the menu. -/
def parse (rt : Runtime) (source : DesktopSource) : Option Parsed :=
  match readGroups source.file with
  | none => none
  | some groups =>
      let main := (mainSection groups).getD []
      let noDisplay := isTrue rt.unicode (main.getD "NoDisplay".toList)
      let mimeTypes := (((main.getD "MimeType".toList).splitOn ';').map strip).filter (· ≠ [])
      if noDisplay && mimeTypes.isEmpty then none
      else if isTrue rt.unicode (main.getD "Terminal".toList)
          && !(noDisplay && mimeTypes.any ("x-scheme-handler/".toList <+: ·)) then none
      else some ⟨source, groups, main⟩

def iconDirectory : Text := "/usr/local/share/applications/spaces-icons/".toList

def exportShortcut (rt : Runtime) (spaceName : SpaceName) (guest : Guest) (parsed : Parsed) :
    Except PyError (Option GeneratedShortcut) :=
  let shortcut := shortcutName rt spaceName parsed.source.outputName
  let icon := guest.icon (parsed.main.getD "Icon".toList)
  let icon_name := icon.map fun _ => iconName shortcut
  let startupWmClass := strip (parsed.main.getD "StartupWMClass".toList)
  let startupWmClass :=
    if startupWmClass = [] then parsed.source.file.relative.stem else fsText startupWmClass
  (renderGroups parsed.groups spaceName (icon_name.map (iconDirectory ++ ·))
    startupWmClass).map fun desktop =>
      desktop.map fun desktop => ⟨shortcut, desktop, icon_name, icon⟩

def parsedSources (rt : Runtime) (guest : Guest) : Except PyError (List Parsed) :=
  (desktopSources rt guest).map fun sources => sources.filterMap (parse rt)

def generate (rt : Runtime) (spaceName : SpaceName) (guest : Guest) :
    Except PyError (List GeneratedShortcut) := do
  let parsed ← parsedSources rt guest
  let generated ← parsed.mapM (exportShortcut rt spaceName guest)
  return generated.reduceOption

end Spaces.Shortcuts
