import Spaces.Portal.State

/-!
# What the router does with a call from the guest

`portalMethodCall` is the method handler of the public portal interfaces. Most
calls are forwarded to the host with their options rewritten and their object
paths translated; file chooser, screenshot, file opening, wallpaper, autostart,
secret and launcher-token calls get a local request object of the router's own
and travel to the file chooser backend or to the host integration broker.

`lifecycleCall` is `Close` on an exported request or session, and
`simpleBridgeCall` the screen-saver, notification and power bridges.
-/

namespace Spaces.Portal

open Spaces.Library

/-- The tokens a call makes with `new_token`, in the order it may need them. -/
structure Tokens where
  handle : Token
  session : Token
  hostHandle : Token
  hostSession : Token

/-- A method call from the guest bus, with what its handler reads from outside
while it runs: fresh tokens, the caller's Flatpak id, the path behind a passed
descriptor and whether it can be passed on, the pidfds of a named process, and
where a guest icon or file is found on the host. -/
structure GuestCall where
  sender : String
  interfaceName : String
  methodName : String
  parameters : List Variant
  tokens : Tokens
  flatpakAppId : Option String := none
  descriptorPath : Option String := none
  descriptorPassed : Bool := true
  pidfds : Option (Nat × Nat) := none
  hostIcon : String → String := id
  resolveHostFileUri : String → Option String := fun _ => none

def returnError (call : GuestCall) (message : String) : List Output :=
  [.returnError call.sender message]

/-- The caller's own token when it is a valid one, else the fallback. -/
def tokenOr (token : Option String) (fallback : Token) : String :=
  match token with
  | some t => if validToken t then t else fallback.text
  | none => fallback.text

/-! ## Forwarded calls -/

def wrapCommandline (spaceName : String) (commandline : List Variant) : Variant :=
  .array "s" ([.str "/usr/bin/spaces", .str "enter", .str "--graphical",
    .str spaceName, .str "--"] ++ commandline)

def rewriteOptions (cfg : Config) (call : ForwardCall) (tokens : Tokens)
    (options : Variant) : ForwardCall × Variant :=
  let guestToken := tokenOr (options.lookupString "handle_token") tokens.handle
  let call := if call.returnsRequest then
      { call with
        guestRequestPath := some (publicObjectPath "request" call.owner guestToken) }
    else call
  let guestSessionToken := options.lookupString "session_handle_token"
  let guestSessionToken :=
    if guestSessionToken.any validToken then guestSessionToken
    else if call.returnsSession || call.methodName == "CreateSession" then
      some tokens.session.text
    else none
  let call := match guestSessionToken with
    | some token =>
        { call with
          guestSessionPath := some (publicObjectPath "session" call.owner token) }
    | none => call
  let dict := options.dictInit
  let dict := if call.returnsRequest then
      Variant.dictInsert "handle_token" (.str tokens.hostHandle.text) dict
    else dict
  let dict := if call.guestSessionPath.isSome then
      Variant.dictInsert "session_handle_token" (.str tokens.hostSession.text) dict
    else dict
  let dict :=
    if call.interfaceName == desktopInterfacePrefix ++ "Background"
        && call.methodName == "RequestBackground" then
      match options.lookupValue "commandline" with
      | some (.array "s" items) =>
          Variant.dictInsert "commandline" (wrapCommandline cfg.spaceName items) dict
      | _ => dict
    else dict
  (call, Variant.vardict dict)

def dynamicLauncherId (appId desktopId : String) : Option String :=
  let id := desktopId.toList
  if '/' ∈ id ∨ ¬ ".desktop".toList.isSuffixOf id then none
  else if (appId ++ ".").toList.isPrefixOf id then some desktopId
  else some (appId ++ "." ++ desktopId)

/-- One step of the loop of `prepare_parameters`. -/
def prepareParameter (cfg : Config) (p : Router) (tokens : Tokens)
    (call : ForwardCall) (argument : ArgInfo) (child : Variant) :
    ForwardCall × Variant :=
  let launcher := call.interfaceName == desktopInterfacePrefix ++ "DynamicLauncher"
  let (prepared, mapped) :=
    if launcher && argument.name == "desktop_file_id" then
      match child with
      | .str id => (call, match dynamicLauncherId cfg.appId id with
          | none => child
          | some id => .str id)
      | _ => (call, child)
    else if launcher && call.methodName == "Install"
        && argument.name == "desktop_entry" then
      match child with
      | .str entry => (call, .str ((cfg.rewriteDesktopEntry entry).getD ""))
      | _ => (call, child)
    else if argument.name == "options" && child.isOfType "a\x7bsv\x7d" then
      rewriteOptions cfg call tokens child
    else (call, p.translateObjectPaths child true)
  let prepared :=
    if call.interfaceName == desktopInterfacePrefix ++ "Usb"
        && call.methodName == "FinishAcquireDevices"
        && argument.name == "handle" then
      match child with
      | .str handle | .objectPath handle =>
          { prepared with finishGuestRequest := some handle }
      | _ => prepared
    else prepared
  (prepared, mapped)

def prepareParameters (cfg : Config) (p : Router) (tokens : Tokens) :
    ForwardCall → List (ArgInfo × Variant) → ForwardCall × List Variant
  | call, [] => (call, [])
  | call, (argument, child) :: rest =>
      let (call, mapped) := prepareParameter cfg p tokens call argument child
      let (call, others) := prepareParameters cfg p tokens call rest
      (call, mapped :: others)

/-- The last part of `portal_method_call`. -/
def forwardPortalCall (cfg : Config) (p : Router) (method : MethodInfo)
    (g : GuestCall) : Router × List Output :=
  let call : ForwardCall :=
    { method, interfaceName := g.interfaceName, methodName := g.methodName,
      owner := g.sender, returnsRequest := methodReturnsRequest method,
      returnsSession := methodReturnsSession method }
  let (call, mapped) :=
    prepareParameters cfg p g.tokens call (method.inArgs.zip g.parameters)
  p.callHost ⟨some g.sender, portalName, portalPath, g.interfaceName, g.methodName,
    mapped⟩ (.forward call)

/-! ## Requests of the router's own -/

def fileChooserOptions : List (String × String) :=
  [("handle_token", "s"), ("accept_label", "s"), ("modal", "b"), ("multiple", "b"),
   ("directory", "b"), ("filters", "a(sa(us))"), ("current_filter", "(sa(us))"),
   ("choices", "a(ssa(ss)s)"), ("current_folder", "ay"), ("current_name", "s"),
   ("current_file", "ay"), ("files", "aay")]

def fileChooserCall (cfg : Config) (p : Router) (g : GuestCall) :
    Router × List Output :=
  match cfg.fileChooserBackend, g.parameters with
  | none, _ =>
      (p, returnError g "No FileChooser backend is installed in this Space")
  | some backend, [.str parent, .str title, options] =>
      if fileChooserOptions.any fun o =>
          (options.lookupValue o.1).any fun v => !v.isOfType o.2 then
        (p, returnError g "A FileChooser option has an invalid type")
      else
        let token := tokenOr (options.lookupString "handle_token") g.tokens.handle
        let request : Request :=
          { owner := g.sender
            guestPath := publicObjectPath "request" g.sender token
            isLocal := true
            localBackend := some backend
            flatpakAppId := g.flatpakAppId
            chooserWritable := g.methodName != "OpenFile" }
        match p.requests.insert request with
        | none => (p, returnError g "An object is already exported")
        | some requests =>
            ({ p with
                requests := requests
                pending := p.pending.insert p.serial
                  (.chooser g.sender p.requests.fresh)
                serial := p.serial + 1 },
              [.guestCall backend portalPath
                "org.freedesktop.impl.portal.FileChooser" g.methodName
                [.objectPath request.guestPath, .str cfg.appId, .str parent,
                  .str title, options],
               .returnValue g.sender [.objectPath request.guestPath]])
  | some _, _ => (p, [])

/-- The shared shape of the calls that make a local request and ask the broker:
the request is exported under the caller's token, and the answer finds it again
by its path. -/
def startLocalRequest (p : Router) (g : GuestCall) (options : Variant)
    (flatpakAppId : Option String) (kind : LocalKind)
    (ask : HostCall) : Router × List Output :=
  let token := tokenOr (options.lookupString "handle_token") g.tokens.handle
  let request : Request :=
    { owner := g.sender
      guestPath := publicObjectPath "request" g.sender token
      isLocal := true
      flatpakAppId }
  match p.requests.insert request with
  | none => (p, returnError g "An object is already exported")
  | some requests =>
      let (p, sent) := { p with requests := requests }.callHost ask
        (.localRequest g.sender kind request.guestPath)
      (p, sent ++ [.returnValue g.sender [.objectPath request.guestPath]])

def brokerCall (g : GuestCall) (broker methodName : String)
    (parameters : List Variant) : HostCall :=
  ⟨some g.sender, broker, integrationPath, integrationInterface, methodName,
    parameters⟩

def screenshotCall (cfg : Config) (p : Router) (g : GuestCall) :
    Router × List Output :=
  match cfg.broker, g.parameters with
  | none, _ => (p, returnError g "The host file staging broker is unavailable")
  | some broker, [.str parent, options] =>
      startLocalRequest p g options g.flatpakAppId .screenshot
        (brokerCall g broker "Screenshot" [.str parent, options])
  | some _, _ => (p, [])

/-- `open_file_call`. A descriptor that cannot be passed on withdraws the
request it was exported for. -/
def openFileCall (cfg : Config) (p : Router) (g : GuestCall) :
    Router × List Output :=
  match cfg.broker, g.parameters with
  | none, _ => (p, returnError g "The host path broker is unavailable")
  | some broker, [.str _, .basic 'h' _, options] =>
      match g.descriptorPath with
      | none => (p, returnError g "The file descriptor has no stable guest path")
      | some guestPath =>
          if guestPath.toList.head? != some '/'
              || " (deleted)".toList.isSuffixOf guestPath.toList then
            (p, returnError g "The file descriptor has no stable guest path")
          else
            let activation := (options.lookupString "activation_token").getD ""
            let writable := match options.lookupValue "writable" with
              | some (.basic 'b' b) => [Variant.basic 'b' b]
              | _ => [Variant.bool false]
            if g.descriptorPassed then
              startLocalRequest p g options none .openFile
                (brokerCall g broker g.methodName
                  ([.str guestPath, .handle 0]
                    ++ (if g.methodName == "OpenFile" then writable else [])
                    ++ [.str activation]))
            else (p, returnError g "The file descriptor could not be passed on")
  | some _, _ => (p, [])

def transformedRequestCall (cfg : Config) (p : Router) (g : GuestCall) :
    Router × List Output :=
  match cfg.broker with
  | none => (p, returnError g "The host integration broker is unavailable")
  | some broker =>
      match g.parameters.getLast? with
      | none => (p, [])
      | some options =>
          let appId :=
            if g.interfaceName == desktopInterfacePrefix ++ "Secret" then
              g.flatpakAppId.getD ""
            else ""
          startLocalRequest p g options none .transformed
            (brokerCall g broker "PortalRequest"
              [.str g.interfaceName, .str g.methodName, .str appId,
                .variant (.tuple g.parameters)])

def dynamicCall (cfg : Config) (p : Router) (g : GuestCall) : Router × List Output :=
  match cfg.broker with
  | none => (p, returnError g "The launcher integration broker is unavailable")
  | some broker =>
      p.callHost (brokerCall g broker "DynamicLauncherCall"
        [.str g.methodName, .variant (.tuple g.parameters)]) (.relay g.sender)

/-- The host method for a guest method with one of these prefixes. -/
def gameModeMethods : List (String × String) :=
  [("Query", "QueryStatusByPIDFd"), ("Register", "RegisterGameByPIDFd"),
   ("Unregister", "UnregisterGameByPIDFd")]

/-- `game_mode_call`: the processes travel as pidfds, in descriptor order. -/
def gameModeCall (cfg : Config) (p : Router) (g : GuestCall) :
    Router × List Output :=
  match cfg.broker with
  | none => (p, returnError g "The host GameMode translation broker is unavailable")
  | some broker =>
      let hostMethod :=
        if "ByPIDFd".toList.isSuffixOf g.methodName.toList then some g.methodName
        else (gameModeMethods.find? fun m =>
          m.1.toList.isPrefixOf g.methodName.toList).map Prod.snd
      match hostMethod, g.pidfds with
      | some hostMethod, some (target, requester) =>
          p.callHost (brokerCall g broker "MakeGameMode"
            [.str hostMethod, .handle target, .handle requester]) (.relay g.sender)
      | _, _ => (p, returnError g "Could not translate the guest process to a pidfd")

def realtimeCall (cfg : Config) (p : Router) (g : GuestCall) : Router × List Output :=
  match cfg.broker, g.parameters with
  | none, _ => (p, returnError g "The host PID translation broker is unavailable")
  | some broker, [.basic _ process, .basic _ thread, .basic _ priority] =>
      let limit : Int := 2147483647
      let high := g.methodName == "MakeThreadHighPriorityWithPID"
      if !high && priority > limit then
        (p, returnError g "Realtime priority is out of range")
      else if process > limit || thread > limit then
        (p, returnError g "Process or thread ID is out of range")
      else
        match g.pidfds with
        | none => (p, returnError g "Could not open process pidfds")
        | some (process, thread) =>
            p.callHost (brokerCall g broker "MakeRealtime"
              [.handle process, .handle thread, .bool high, .int32 priority])
              (.relay g.sender)
  | some _, _ => (p, [])

/-! ## The dispatcher -/

/-- The handler a public portal method goes to. -/
inductive Route where
  | fileChooser | screenshot | openFile | transformed | dynamic | gameMode
  | realtime | forward
  deriving DecidableEq

def route (interfaceName methodName : String) : Route :=
  let on := fun name => interfaceName == desktopInterfacePrefix ++ name
  if on "FileChooser" then .fileChooser
  else if on "Screenshot" && methodName == "Screenshot" then .screenshot
  else if on "OpenURI" && (methodName == "OpenFile" || methodName == "OpenDirectory")
    then .openFile
  else if on "Wallpaper" then .transformed
  else if on "Background" && methodName == "RequestBackground" then .transformed
  else if on "Secret" && methodName == "RetrieveSecret" then .transformed
  else if on "DynamicLauncher" then
    if methodName == "PrepareInstall" then .transformed else .dynamic
  else if on "GameMode" then .gameMode
  else if on "Realtime" && (methodName == "MakeThreadRealtimeWithPID"
      || methodName == "MakeThreadHighPriorityWithPID") then .realtime
  else .forward

def portalMethodCall (cfg : Config) (p : Router) (g : GuestCall) :
    Router × List Output :=
  match cfg.findMethod g.interfaceName g.methodName with
  | none => (p, returnError g "The host does not provide this portal method")
  | some method =>
      match route g.interfaceName g.methodName with
      | .fileChooser => fileChooserCall cfg p g
      | .screenshot => screenshotCall cfg p g
      | .openFile => openFileCall cfg p g
      | .transformed => transformedRequestCall cfg p g
      | .dynamic => dynamicCall cfg p g
      | .gameMode => gameModeCall cfg p g
      | .realtime => realtimeCall cfg p g
      | .forward => forwardPortalCall cfg p method g

/-! ## Closing an exported object -/

def lifecycleCall (p : Router) (sender objectPath interfaceName methodName : String) :
    Router × List Output :=
  let denied := (p, [Output.returnError sender
    "This portal object belongs to another caller"])
  if methodName != "Close" then
    (p, [.returnError sender "Unknown lifecycle method"])
  else if interfaceName == requestInterface then
    match p.requests.find? objectPath with
    | none => denied
    | some request =>
        if request.owner != sender then denied
        else
          let p := { p with
            requests := p.requests.update objectPath
              fun r => { r with cancelled := true } }
          match request.isLocal, request.localBackend with
          | true, some backend =>
              (p, [.guestCall backend objectPath "org.freedesktop.impl.portal.Request"
                "Close" [], .returnValue sender []])
          | _, _ =>
              (p, closeHostObject (some sender) request.hostPath requestInterface
                ++ [.returnValue sender []])
  else
    match p.sessions.find? objectPath with
    | none => denied
    | some session =>
        if session.owner != sender then denied
        else
          (p, closeHostObject (some sender) (some session.hostPath) sessionInterface
            ++ [.returnValue sender []])

/-! ## The screen-saver, notification and power bridges -/

/-- `g_path_get_basename` of an absolute path. -/
def pathBasename (path : List Char) : List Char :=
  ((path.splitOn '/').filter (· ≠ [])).getLastD ['/']

/-- `screen_saver_application`: a desktop file's path becomes the id of its
exported shortcut. -/
def screenSaverApplication (cfg : Config) (application : String) : String :=
  match application.toList with
  | '/' :: _ =>
      let basename := pathBasename application.toList
      let stem := if ".desktop".toList.isSuffixOf basename then
          basename.take (basename.length - ".desktop".length)
        else basename
      if stem = [] then application
      else "spaces-" ++ cfg.spaceName ++ "-v1-" ++ String.ofList (stem.map fun c =>
        if isAsciiAlnum c || c == '.' || c == '_' || c == '-' then c else '_')
  | _ => application

def screenSaverCall (cfg : Config) (p : Router) (g : GuestCall) :
    Router × List Output :=
  match p.screenSaverHostPath with
  | none => (p, returnError g "The host ScreenSaver service is unavailable")
  | some hostPath =>
      let ask := fun parameters => HostCall.mk (some g.sender) screenSaverName hostPath
        screenSaverName g.methodName parameters
      if g.methodName == "Inhibit" || g.methodName == "Throttle" then
        match g.parameters with
        | [.str application, .str reason] =>
            p.callHost (ask [.str (screenSaverApplication cfg application), .str reason])
              (.screen { owner := g.sender, add := true,
                         throttle := g.methodName == "Throttle" })
        | _ => (p, [])
      else if g.methodName == "UnInhibit" || g.methodName == "UnThrottle" then
        match g.parameters with
        | [.basic 'u' (.ofNat cookie)] =>
            let key := inhibitorKey (g.methodName == "UnThrottle") cookie
            match p.inhibitors.lookup key with
            | none => (p, returnError g "Unknown ScreenSaver inhibitor cookie")
            | some inhibitor =>
                if inhibitor.owner != g.sender then
                  (p, returnError g "The inhibitor belongs to another caller")
                else
                  p.callHost (ask g.parameters)
                    (.screen { owner := g.sender, key := some key })
        | _ => (p, [])
      else
        match cfg.findMethod g.interfaceName g.methodName with
        | none => (p, returnError g "Unknown desktop integration method")
        | some _ => p.callHost (ask g.parameters) (.relay g.sender)

def mapUrl (g : GuestCall) : Variant → Option Variant
  | .str uri =>
      if "file:".toList.isPrefixOf uri.toList then
        (g.resolveHostFileUri uri).map .str
      else some (.str uri)
  | other => some other

/-- `rewrite_notification_paths`: icons are staged on the host, and links to
files the host cannot see are dropped. -/
def rewriteNotificationPaths (g : GuestCall) : List Variant :=
  match g.parameters with
  | [appName, replaces, .str appIcon, summary, body, actions, hints, timeout] =>
      let stage := fun key dict => match hints.lookupString key with
        | some icon => Variant.dictInsert key (.str (g.hostIcon icon)) dict
        | none => dict
      let dict := stage "image_path" (stage "image-path" hints.dictInit)
      let dict := match hints.lookupValue "x-kde-urls" with
        | some (.array "s" urls) =>
            Variant.dictInsert "x-kde-urls"
              (.array "s" (urls.filterMap (mapUrl g))) dict
        | _ => dict
      [appName, replaces, .str (g.hostIcon appIcon), summary, body, actions,
        Variant.vardict dict, timeout]
  | parameters => parameters

def readonlyPowerMethods : List String :=
  ["CanHibernate", "CanHybridSuspend", "CanSuspend", "CanSuspendThenHibernate",
   "GetPowerSaveStatus"]

def simpleBridgeCall (cfg : Config) (p : Router) (objectPath : String)
    (g : GuestCall) : Router × List Output :=
  let relayTo := fun hostPath parameters =>
    match cfg.findMethod g.interfaceName g.methodName with
    | none => (p, returnError g "Unknown desktop integration method")
    | some _ => p.callHost ⟨some g.sender, g.interfaceName, hostPath, g.interfaceName,
        g.methodName, parameters⟩ (.relay g.sender)
  if g.interfaceName == screenSaverName then screenSaverCall cfg p g
  else if g.interfaceName == notificationsName then
    relayTo notificationsPath
      (if g.methodName == "Notify" then rewriteNotificationPaths g else g.parameters)
  else if g.interfaceName == powerName then
    if readonlyPowerMethods.contains g.methodName then relayTo powerPath g.parameters
    else (p, returnError g "Host power actions are not exposed to Spaces")
  else relayTo objectPath g.parameters

end Spaces.Portal
