import Spaces.Library.Arena
import Spaces.Portal.Variant

/-!
# The state of the portal router

One process sits between the session bus of a Space (the guest) and the host
bus. It remembers, for every unique name on the guest bus, the portal requests,
sessions and screen-saver inhibitors it created for that name, and for every
call it has sent and not yet heard about, what to do with the answer.

`requests_guest` and `requests_host` of the source are the owning and the
aliasing table of one arena, and so are the two session tables. Pointers are
addresses in the arena's heap. The three notification, power and MPRIS bridges
keep no per-caller state, and their calls are relayed.
-/

namespace Spaces.Portal

open Spaces.Library

def portalName : String := "org.freedesktop.portal.Desktop"
def portalPath : String := "/org/freedesktop/portal/desktop"
def requestInterface : String := "org.freedesktop.portal.Request"
def sessionInterface : String := "org.freedesktop.portal.Session"
def desktopInterfacePrefix : String := "org.freedesktop.portal."
def notificationsName : String := "org.freedesktop.Notifications"
def notificationsPath : String := "/org/freedesktop/Notifications"
def screenSaverName : String := "org.freedesktop.ScreenSaver"
def powerName : String := "org.freedesktop.PowerManagement"
def powerPath : String := "/org/freedesktop/PowerManagement"
def integrationPath : String := "/org/anatase/Spaces/Integration"
def integrationInterface : String := "org.anatase.Spaces.Integration1"

/-! ## Names the router builds -/

/-- `g_ascii_isalnum`. -/
def isAsciiAlnum (c : Char) : Bool :=
  ('a' ≤ c && c ≤ 'z') || ('A' ≤ c && c ≤ 'Z') || ('0' ≤ c && c ≤ '9')

def validToken (token : String) : Bool :=
  token != "" && token.toList.all fun c => isAsciiAlnum c || c == '_'

/-- A token made by `new_token`: a random UUID with underscores for hyphens. -/
structure Token where
  text : String
  valid : validToken text = true

/-- The sender's name as one component of an object path. -/
def senderComponent (sender : String) : String :=
  let name := match sender.toList with
    | ':' :: rest => rest
    | chars => chars
  String.ofList (name.map fun c => if isAsciiAlnum c || c == '_' then c else '_')

def publicObjectPath (kind sender token : String) : String :=
  portalPath ++ "/" ++ kind ++ "/" ++ senderComponent sender ++ "/" ++ token

/-- `g_variant_is_object_path`: `/`, or non-empty components of letters, digits
and underscores after a `/` each. -/
def isObjectPath (path : String) : Bool :=
  match path.toList with
  | ['/'] => true
  | '/' :: rest => (rest.splitOn '/').all fun component =>
      component != [] && component.all fun c => isAsciiAlnum c || c == '_'
  | _ => false

/-! ## Objects -/

structure Request where
  owner : String
  guestPath : String
  hostPath : Option String := none
  guestSessionPath : Option String := none
  isLocal : Bool := false
  localBackend : Option String := none
  flatpakAppId : Option String := none
  chooserWritable : Bool := false
  persistent : Bool := false
  cancelled : Bool := false
  deriving DecidableEq

structure Session where
  owner : String
  guestPath : String
  hostPath : String
  deriving DecidableEq

structure Inhibitor where
  owner : String
  cookie : Nat
  throttle : Bool
  deriving DecidableEq

instance : Keyed String Request := ⟨Request.guestPath, Request.hostPath⟩
instance : Keyed String Session := ⟨Session.guestPath, fun s => some s.hostPath⟩

@[simp] theorem key_request (r : Request) : Keyed.key r = r.guestPath := rfl
@[simp] theorem aliasKey_request (r : Request) : Keyed.aliasKey r = r.hostPath := rfl
@[simp] theorem key_session (s : Session) : Keyed.key s = s.guestPath := rfl
@[simp] theorem aliasKey_session (s : Session) :
    Keyed.aliasKey s = some s.hostPath := rfl

/-! ## Calls in flight -/

structure ArgInfo where
  name : String
  signature : String

structure MethodInfo where
  inArgs : List ArgInfo
  outArgs : List ArgInfo

def methodReturnsRequest (method : MethodInfo) : Bool :=
  match method.outArgs with
  | [out] => out.signature == "o" && out.name != "session_handle"
  | _ => false

def methodReturnsSession (method : MethodInfo) : Bool :=
  match method.outArgs with
  | [out] => out.signature == "o" && out.name == "session_handle"
  | _ => false

structure ForwardCall where
  method : MethodInfo
  interfaceName : String
  methodName : String
  owner : String
  guestRequestPath : Option String := none
  guestSessionPath : Option String := none
  finishGuestRequest : Option String := none
  returnsRequest : Bool
  returnsSession : Bool

/-- `inhibitor_key`. -/
def inhibitorKey (throttle : Bool) (cookie : Nat) : Bool × Nat := (throttle, cookie)

structure ScreenCall where
  owner : String
  key : Option (Bool × Nat) := none
  add : Bool := false
  throttle : Bool := false

/-- Which of the completions that find their request by its path. -/
inductive LocalKind where
  | screenshot | openFile | transformed
  deriving DecidableEq

/-- What the router does when a call it made is answered. -/
inductive Completion where
  | forward (call : ForwardCall)
  /-- The file chooser's completion keeps the address of its request. -/
  | chooser (sender : String) (request : Nat)
  /-- The other local requests are looked up again under their path. -/
  | localRequest (sender : String) (kind : LocalKind) (guestPath : String)
  | screen (call : ScreenCall)
  /-- The answer is passed on and nothing else happens. -/
  | relay (sender : String)

/-- The guest caller a call in flight was made for. -/
def Completion.caller : Completion → String
  | .forward call => call.owner
  | .chooser sender _ | .localRequest sender _ _ | .relay sender => sender
  | .screen call => call.owner

/-- Whether a call in flight is on the host bus: the file chooser's backend
lives on the guest bus. -/
def Completion.onHost : Completion → Bool
  | .chooser _ _ => false
  | _ => true

/-! ## What the router sends -/

structure HostCall where
  /-- The guest caller whose method call is being forwarded; none for the
  router's own housekeeping. -/
  caller : Option String
  destination : String
  path : String
  interfaceName : String
  methodName : String
  parameters : List Variant

inductive Output where
  | hostCall (call : HostCall)
  | guestCall (destination path interfaceName methodName : String)
      (parameters : List Variant)
  | emitSignal (destination : Option String) (path interfaceName signalName : String)
      (parameters : List Variant)
  | returnValue (caller : String) (values : List Variant)
  | returnError (caller : String) (message : String)

/-! ## The router -/

/-- What is fixed when the router starts. -/
structure Config where
  spaceName : String
  fileChooserBackend : Option String
  /-- The host integration broker, from the environment. -/
  broker : Option String
  /-- `find_registered_interface` and `find_method`: the host's introspection. -/
  findMethod : String → String → Option MethodInfo
  rewriteDesktopEntry : String → Option String

def Config.appId (cfg : Config) : String := "org.anatase.Spaces." ++ cfg.spaceName

structure Router where
  requests : Arena String Request
  sessions : Arena String Session
  inhibitors : AList fun _ : Bool × Nat => Inhibitor
  screenSaverHostPath : Option String
  /-- The calls that have not been answered, by serial. -/
  pending : AList fun _ : Nat => Completion
  serial : Nat
  /-- The process died on a null pointer. -/
  crashed : Bool

def Router.initial : Router where
  requests := .empty
  sessions := .empty
  inhibitors := ∅
  screenSaverHostPath := none
  pending := ∅
  serial := 0
  crashed := false

/-- Send a call to the host and remember what its answer is for. -/
def Router.callHost (p : Router) (call : HostCall) (done : Completion) :
    Router × List Output :=
  ({ p with pending := p.pending.insert p.serial done, serial := p.serial + 1 },
    [.hostCall call])

/-- `close_host_object`. -/
def closeHostObject (caller path : Option String) (interfaceName : String) :
    List Output :=
  match path with
  | none => []
  | some path => [.hostCall ⟨caller, portalName, path, interfaceName, "Close", []⟩]

/-- `translate_object_paths` towards the host, for one object path. -/
def Router.hostPathOf (p : Router) (path : String) : String :=
  match p.requests.find? path with
  | some request => request.hostPath.getD path
  | none =>
      match p.sessions.find? path with
      | some session => session.hostPath
      | none => path

/-- `translate_object_paths` towards the guest, for one object path. -/
def Router.guestPathOf (p : Router) (path : String) : String :=
  match p.requests.findAlias? path with
  | some request => request.guestPath
  | none =>
      match p.sessions.findAlias? path with
      | some session => session.guestPath
      | none => path

def Router.translateObjectPaths (p : Router) (value : Variant) (toHost : Bool) :
    Variant :=
  value.mapPaths (if toHost then p.hostPathOf else p.guestPathOf)

end Spaces.Portal
