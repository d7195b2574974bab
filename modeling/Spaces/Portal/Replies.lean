import Spaces.Portal.Calls

/-!
# What the router does with answers and signals

`complete` runs the completion of a call that was in flight, `hostPortalSignal`
handles a signal of the host portal and `guestNameChanged` the loss of a guest
name. These are the handlers that create and remove table entries; `step` puts
them together with the calls of `Calls.lean` into one event machine.
-/

namespace Spaces.Portal

open Spaces.Library

/-! ## `forward_done` -/

/-- `register_request`; a call that rewrote no options has no path to export. -/
def registerRequest (p : Router) (request : Request) (guestPath : Option String) :
    Option Router :=
  match guestPath with
  | none => none
  | some guestPath =>
      (p.requests.insert { request with guestPath }).map fun requests =>
        { p with requests }

/-- `register_session`. -/
def registerSession (p : Router) (owner : String) (guestPath : Option String)
    (hostPath : String) : Option Router :=
  match guestPath with
  | none => none
  | some guestPath =>
      (p.sessions.insert ⟨owner, guestPath, hostPath⟩).map fun sessions =>
        { p with sessions }

def forwardedRequest (call : ForwardCall) (hostPath : String) : Request :=
  { owner := call.owner
    guestPath := ""
    hostPath := some hostPath
    guestSessionPath := call.guestSessionPath
    persistent := call.interfaceName == desktopInterfacePrefix ++ "Usb"
      && call.methodName == "AcquireDevices" }

/-- The session handle of a result dictionary, string or object path. -/
def sessionHandle (results : Variant) : Option Variant :=
  match results.lookupValue "session_handle" with
  | some (.str path) => some (.str path)
  | some (.objectPath path) => some (.objectPath path)
  | _ => none

/-- The name inside a session handle. -/
def handleText : Variant → String
  | .str path | .objectPath path => path
  | _ => ""

/-- The dictionary with its session handle replaced, in the type it came in. -/
def withSessionHandle (results handle : Variant) (guestPath : String) : Variant :=
  Variant.vardict (Variant.dictInsert "session_handle" (match handle with
    | .objectPath _ => .objectPath guestPath
    | _ => .str guestPath) results.dictInit)

/-- `FinishAcquireDevices` ends the request it names. A local request has no
host path, and hashing the null pointer kills the process. -/
def finishRequest (p : Router) (finish : Option String) (reply : List Variant) :
    Router :=
  match finish, reply with
  | some guestPath, [_, .basic 'b' finished] =>
      if finished = 0 then p
      else
        match p.requests.find? guestPath with
        | none => p
        | some request =>
            match request.hostPath with
            | none => { p with crashed := true }
            | some _ => { p with requests := p.requests.release guestPath }
  | _, _ => p

def sessionFailure (caller : String) : Output :=
  .returnError caller "Could not export the portal session"

def forwardDone (p : Router) (call : ForwardCall) (reply : Option (List Variant)) :
    Router × List Output :=
  match reply with
  | none => (p, [.returnError call.owner "The host refused the call"])
  | some reply =>
      if call.returnsRequest then
        match reply with
        | [.objectPath hostPath] =>
            match registerRequest p (forwardedRequest call hostPath)
                call.guestRequestPath with
            | none =>
                (p, closeHostObject none (some hostPath) requestInterface
                  ++ [.returnError call.owner "An object is already exported"])
            | some p =>
                (p, [.returnValue call.owner
                  [.objectPath (call.guestRequestPath.getD "")]])
        | _ => (p, [])
      else if call.returnsSession then
        match reply with
        | [.objectPath hostPath] =>
            match registerSession p call.owner call.guestSessionPath hostPath with
            | none =>
                (p, closeHostObject none (some hostPath) sessionInterface
                  ++ [sessionFailure call.owner])
            | some p =>
                (p, [.returnValue call.owner
                  [.objectPath (call.guestSessionPath.getD "")]])
        | _ => (p, [])
      else
        -- a session may also be named in the results of an ordinary call
        match call.guestSessionPath, reply with
        | some guestPath, results :: others =>
            match if results.isOfType "a\x7bsv\x7d" then sessionHandle results else none with
            | some handle =>
                if !isObjectPath (handleText handle) then
                  (p, [sessionFailure call.owner])
                else
                  match registerSession p call.owner (some guestPath)
                      (handleText handle) with
                  | none => (p, [sessionFailure call.owner])
                  | some p =>
                      let reply := withSessionHandle results handle guestPath :: others
                      (finishRequest p call.finishGuestRequest reply,
                        [.returnValue call.owner reply])
            | none =>
                (finishRequest p call.finishGuestRequest reply,
                  [.returnValue call.owner reply])
        | _, _ =>
            (finishRequest p call.finishGuestRequest reply,
              [.returnValue call.owner reply])

/-! ## The other completions -/

def noResults : Variant := Variant.vardict []

/-- The end of a local request: unless it was cancelled its owner gets the
response, and then it is removed. -/
def finishLocal (p : Router) (request : Request) (response results : Variant) :
    Router × List Output :=
  ({ p with requests := p.requests.eraseKey request.guestPath },
    if request.cancelled then []
    else [.emitSignal (some request.owner) request.guestPath requestInterface
      "Response" [response, results]])

/-- The response and results a local completion relays, for its kind. Files are
exported to the caller on the way; their URIs are the environment's. -/
def localResponse (kind : LocalKind) (reply : Option (List Variant)) :
    Variant × Variant :=
  match kind, reply with
  | .openFile, some [response] => (response, noResults)
  | .transformed, some [response, results] => (response, results)
  | .screenshot, some [response, _, results] => (response, results)
  | _, _ => (.uint32 2, noResults)

/-- `screenshot_done`, `broker_request_done` and `transformed_request_done`: the
request is looked up again under its path. -/
def localRequestDone (p : Router) (kind : LocalKind) (guestPath : String)
    (reply : Option (List Variant)) : Router × List Output :=
  match p.requests.find? guestPath with
  | none => (p, [])
  | some request =>
      finishLocal p request (localResponse kind reply).1 (localResponse kind reply).2

/-- `chooser_done` follows the address it kept. A freed request has nothing to
read there, and the process is lost. -/
def chooserDone (p : Router) (request : Nat) (reply : Option (List Variant)) :
    Router × List Output :=
  match p.requests.heap.lookup request with
  | none => ({ p with crashed := true }, [])
  | some request =>
      match reply with
      | some [response, results] => finishLocal p request response results
      | _ => finishLocal p request (.uint32 2) noResults

def screenCallDone (p : Router) (call : ScreenCall) (reply : Option (List Variant)) :
    Router × List Output :=
  match reply with
  | none => (p, [.returnError call.owner "The host refused the call"])
  | some reply =>
      let done := [Output.returnValue call.owner reply]
      if call.add then
        match reply with
        | [.basic 'u' (.ofNat cookie)] =>
            ({ p with
                inhibitors := p.inhibitors.insert (inhibitorKey call.throttle cookie)
                  ⟨call.owner, cookie, call.throttle⟩ }, done)
        | _ => (p, done)
      else
        match call.key with
        | some key => ({ p with inhibitors := p.inhibitors.erase key }, done)
        | none => (p, done)

def relayDone (p : Router) (caller : String) (reply : Option (List Variant)) :
    Router × List Output :=
  match reply with
  | none => (p, [.returnError caller "The host refused the call"])
  | some reply => (p, [.returnValue caller reply])

/-- The answer to a call in flight, or its failure, reaches its completion. -/
def complete (p : Router) (serial : Nat) (reply : Option (List Variant)) :
    Router × List Output :=
  match p.pending.lookup serial with
  | none => (p, [])
  | some done =>
      let p := { p with pending := p.pending.erase serial }
      match done with
      | .forward call => forwardDone p call reply
      | .chooser _ request => chooserDone p request reply
      | .localRequest _ kind guestPath => localRequestDone p kind guestPath reply
      | .screen call => screenCallDone p call reply
      | .relay caller => relayDone p caller reply

/-! ## Signals of the host portal -/

/-- `map_response`: a session created inside a response is exported before its
path is translated. -/
def mapResponse (p : Router) (request : Request) (response results : Variant) :
    Router × List Variant :=
  let (p, results) :=
    match request.guestSessionPath, sessionHandle results, response with
    | some guestPath, some handle, .basic _ 0 =>
        if isObjectPath (handleText handle) then
          match registerSession p request.owner (some guestPath) (handleText handle) with
          | some p => (p, withSessionHandle results handle guestPath)
          | none => (p, results)
        else (p, results)
    | _, _, _ => (p, results)
  (p, [response, p.translateObjectPaths results false])

def hostRequestSignal (p : Router) (request : Request) (interfaceName signalName : String)
    (parameters : List Variant) : Router × List Output :=
  let isResponse := interfaceName == requestInterface && signalName == "Response"
  if request.cancelled && isResponse then
    ({ p with requests := p.requests.release request.guestPath }, [])
  else
    let (p, mapped) := match isResponse, parameters with
      | true, [response, results] => mapResponse p request response results
      | _, _ => (p, parameters.map fun v => p.translateObjectPaths v false)
    (if !request.persistent && isResponse then
        { p with requests := p.requests.release request.guestPath }
      else p,
      [.emitSignal (some request.owner) request.guestPath interfaceName signalName mapped])

def hostPortalSignal (p : Router) (objectPath interfaceName signalName : String)
    (parameters : List Variant) : Router × List Output :=
  let translated := parameters.map fun v => p.translateObjectPaths v false
  match p.requests.findAlias? objectPath, p.sessions.findAlias? objectPath with
  | some request, session =>
      let (p, sent) := hostRequestSignal p request interfaceName signalName parameters
      -- a session under the same host path only matters when the request stays
      match session with
      | some session =>
          if interfaceName == sessionInterface && signalName == "Closed" then
            ({ p with sessions := p.sessions.release session.guestPath }, sent)
          else (p, sent)
      | none => (p, sent)
  | none, some session =>
      (if interfaceName == sessionInterface && signalName == "Closed" then
          { p with sessions := p.sessions.release session.guestPath }
        else p,
        [.emitSignal (some session.owner) session.guestPath interfaceName signalName
          translated])
  | none, none =>
      if objectPath == portalPath then
        (p, [.emitSignal none objectPath interfaceName signalName translated])
      else (p, [])

/-! ## Names that come and go -/

/-- `release_inhibitor`. -/
def releaseInhibitor (p : Router) (inhibitor : Inhibitor) : List Output :=
  match p.screenSaverHostPath with
  | none => []
  | some hostPath => [.hostCall ⟨none, screenSaverName, hostPath, screenSaverName,
      if inhibitor.throttle then "UnThrottle" else "UnInhibit",
      [.uint32 inhibitor.cookie]⟩]

/-- The owning keys of the objects a name owns, in table order. -/
def ownedKeys {α : Type} [Keyed String α] (t : Arena String α) (owner : α → String)
    (name : String) : List String :=
  t.owned.keys.filter fun k => (t.find? k).any fun o => owner o == name

def ownedInhibitors (p : Router) (name : String) : List Inhibitor :=
  (p.inhibitors.entries.map Sigma.snd).filter fun i => i.owner == name

/-- `guest_name_changed` for a name that lost its owner: everything held for it
is closed on the host and dropped. -/
def guestNameVanished (p : Router) (name : String) : Router × List Output :=
  let requests := ownedKeys p.requests Request.owner name
  let sessions := ownedKeys p.sessions Session.owner name
  let inhibitors := ownedInhibitors p name
  ({ p with
      requests := p.requests.releaseAll requests
      sessions := p.sessions.releaseAll sessions
      inhibitors := inhibitors.foldl
        (fun t i => t.erase (inhibitorKey i.throttle i.cookie)) p.inhibitors },
    requests.flatMap (fun k => closeHostObject none
        ((p.requests.find? k).bind Request.hostPath) requestInterface)
      ++ sessions.flatMap (fun k => closeHostObject none
        ((p.sessions.find? k).map Session.hostPath) sessionInterface)
      ++ inhibitors.flatMap (releaseInhibitor p))

def guestNameChanged (p : Router) (name oldOwner newOwner : String) :
    Router × List Output :=
  if newOwner != "" || oldOwner == "" then (p, []) else guestNameVanished p name

/-! ## The event machine -/

inductive Event where
  | portalMethodCall (call : GuestCall)
  | simpleBridgeCall (objectPath : String) (call : GuestCall)
  | lifecycleCall (sender objectPath interfaceName methodName : String)
  | reply (serial : Nat) (values : Option (List Variant))
  | hostPortalSignal (objectPath interfaceName signalName : String)
      (parameters : List Variant)
  | guestNameChanged (name oldOwner newOwner : String)
  /-- The host screen saver appeared; the path its interface was found at. -/
  | screenSaverAppeared (hostPath : Option String)
  | screenSaverVanished

def handle (cfg : Config) (p : Router) : Event → Router × List Output
  | .portalMethodCall g => portalMethodCall cfg p g
  | .simpleBridgeCall objectPath g => simpleBridgeCall cfg p objectPath g
  | .lifecycleCall sender objectPath interfaceName methodName =>
      lifecycleCall p sender objectPath interfaceName methodName
  | .reply serial values => complete p serial values
  | .hostPortalSignal objectPath interfaceName signalName parameters =>
      hostPortalSignal p objectPath interfaceName signalName parameters
  | .guestNameChanged name oldOwner newOwner =>
      guestNameChanged p name oldOwner newOwner
  | .screenSaverAppeared hostPath => ({ p with screenSaverHostPath := hostPath }, [])
  | .screenSaverVanished =>
      ({ p with screenSaverHostPath := none, inhibitors := ∅ }, [])

/-- One turn of the main loop. A process that died handles nothing. -/
def step (cfg : Config) (p : Router) (e : Event) : Router × List Output :=
  if p.crashed then (p, []) else handle cfg p e

/-- The sender of a call to one of the exported portals and services. -/
def Event.sender? : Event → Option String
  | .portalMethodCall g | .simpleBridgeCall _ g => some g.sender
  | _ => none

/-- The guest caller an event acts for: the sender of a call, and the caller a
call in flight was made for. -/
def Event.caller (p : Router) : Event → Option String
  | .lifecycleCall sender _ _ _ => some sender
  | .reply serial _ => (p.pending.lookup serial).map Completion.caller
  | e => e.sender?

theorem Event.caller_of_sender {p : Router} {e : Event} {sender : String}
    (h : e.sender? = some sender) : e.caller p = some sender := by
  cases e with
  | portalMethodCall g => exact h
  | simpleBridgeCall objectPath g => exact h
  | _ => cases h

end Spaces.Portal
