import Spaces.Library.KeyTable
import Spaces.Shortcuts.Names

/-!
# Installing launchers for guests

A guest installs a launcher through the portal. The router in the space rewrites
the desktop entry before it passes the call on, and the broker on the host, which
takes the word of no guest for that, rewrites it again. Both load the entry as a
key file, put the way into the space before the commands, and write it back.
-/

namespace Spaces.Launcher

open Spaces.Library Spaces.Library.Text Spaces.Library.KeyTable
open Spaces.Library.KeyFile (Group)
open Spaces.Shortcuts (SpaceName)

/-! ## What both programs do -/

def desktopGroup : Text := "Desktop Entry".toList

/-- The groups whose commands are wrapped. -/
def isLauncherGroup (group : Text) : Bool :=
  group = desktopGroup || decide ("Desktop Action ".toList <+: group)

/-- One round of the loop over the groups. `g_key_file_set_string` takes no `NULL`. -/
def wrapGroup (p : Parser) (wrap : Text → Option Text) (key : Table) (group : Text) : Table :=
  if isLauncherGroup group then
    match p.getString group "Exec".toList key with
    | none => key
    | some command =>
        match wrap command with
        | none => key
        | some wrapped => p.setString group "Exec".toList wrapped key
  else key

def rewrite (p : Parser) (wrap : Text → Option Text) (key : Table) : Table :=
  let key := (key.map Group.name).foldl (wrapGroup p wrap) key
  let key := remove desktopGroup "TryExec".toList key
  let key := remove desktopGroup "Path".toList key
  set desktopGroup "DBusActivatable".toList "false".toList key

def launcherId (appId desktopId : Text) : Option Text :=
  if '/' ∈ desktopId ∨ ¬ ".desktop".toList <:+ desktopId then none
  else if appId <+: desktopId ∧ (desktopId.drop appId.length).head? = some '.' then
    some desktopId
  else some (appId ++ '.' :: desktopId)

/-- `_portal_app_id`: what the session starts both programs with. -/
def portalAppId (spaceName : SpaceName) : Text :=
  "org.anatase.Spaces.".toList ++ spaceName.text

/-! ## The router -/

structure Portal where
  spaceName : SpaceName
  appId : Text
  identity : appId = portalAppId spaceName

def dynamicLauncherId (portal : Portal) (desktopId : Text) : Option Text :=
  launcherId portal.appId desktopId

/-- `g_shell_quote`. -/
def shellQuote (text : Text) : Text :=
  '\'' :: text.flatMap (fun c => if c = '\'' then ['\'', '\\', '\'', '\''] else [c]) ++ ['\'']

def wrappedExec (portal : Portal) (command : Text) : Option Text :=
  if command = [] then none
  else some ("/usr/bin/spaces enter --graphical ".toList ++ shellQuote portal.spaceName.text
    ++ " -- ".toList ++ command)

def rewriteDesktopEntry (p : Parser) (portal : Portal) (contents : Text) : Option Text :=
  if encodedLength contents > 1024 * 1024 then none
  else
    match p.load contents with
    | none => none
    | some key =>
        if hasGroup desktopGroup key then
          some (p.toData (rewrite p (wrappedExec portal) key))
        else none

/-- `prepare_parameters`, for the identifier and the entry of an `Install` call. A
rejected entry is passed on as an empty one. -/
def prepareInstall (p : Parser) (portal : Portal) (desktopId entry : Text) : Text × Text :=
  ((dynamicLauncherId portal desktopId).getD desktopId,
    (rewriteDesktopEntry p portal entry).getD [])

/-! ## The broker -/

structure Broker where
  spaceName : SpaceName
  appId : Text
  identity : appId = portalAppId spaceName

def brokerLauncherId (broker : Broker) (desktopId : Text) : Option Text :=
  launcherId broker.appId desktopId

def execPrefix (spaceName : SpaceName) : Text :=
  "/usr/bin/spaces enter --graphical ".toList ++ spaceName.text ++ " -- ".toList

def brokerDesktopEntry (p : Parser) (broker : Broker) (contents : Text) : Option Text :=
  if encodedLength contents > 1024 * 1024 then none
  else
    (p.load contents).map fun key =>
      p.toData (rewrite p (fun command => some (execPrefix broker.spaceName ++ command)) key)

/-- `dynamic_launcher_method`, for `Install`: what the host portal is called with. -/
def install (p : Parser) (broker : Broker) (desktopId entry : Text) : Option (Text × Text) :=
  match brokerLauncherId broker desktopId, brokerDesktopEntry p broker entry with
  | some hostId, some hostEntry => some (hostId, hostEntry)
  | _, _ => none

end Spaces.Launcher
