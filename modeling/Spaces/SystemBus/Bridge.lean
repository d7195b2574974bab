import Mathlib.Logic.Function.Basic
import Spaces.SystemBus.Policy

/-!
# The system-bus bridge

One program plays two parts. The relay inside a Space owns the names of the
services on the guest's bus and opens a connection to the broker for every
caller; the broker on the host opens a connection to the host's bus for every
one of these. A message is looked at where it arrives, by a filter in the worker
thread of GDBus, and put into a queue that the main thread empties in order.

The answers to forwarded calls come twice. The filter queues them like any other
message, so that they stay in order with the signals, and GDBus finishes the
call, in a source of default priority that the main loop reaches only when the
queue is empty. Whichever is first delivers the answer.

The worker and the main thread are one step function here. What the main loop
will dispatch at default priority is the list `idle`, the first `collected` of
which it has already taken up; what has been received and not yet been matched
by GDBus is `inHand`. Every message received has a position, and `Announcement`
records what the host's bus has said about the services' owners.
-/

namespace Spaces.SystemBus

open Portal (Variant)

/-! ## State -/

/-- A connection: the guest's bus, a connection between relay and broker, or one
to the host's bus. -/
inductive Bus where
  | app
  | peer (client : Nat)
  | host (client : Nat)
  deriving DecidableEq

/-- A forwarded call. `id` stands for its address. -/
structure Call where
  id : Nat
  origin : Bus
  request : Message
  permissions : Bool
  registerAgent : Bool
  unregisterAgent : Bool
  delivered : Bool := false
  target : Bus
  serial : Nat

structure Client where
  name : String := ""
  /-- Whether there is a connection to the host's bus. -/
  host : Bool := false
  opened : Bool := false
  admin : Bool := false
  observer : Bool := false
  closed : Bool := false
  agent : Bool := false
  owners : Service → Option String := fun _ => none
  outstanding : Nat := 0
  pendingCalls : List Call := []

structure Event where
  client : Option Nat
  bus : Bus
  message : Message
  position : Nat

/-- A call that GDBus still waits for. -/
structure Waiting where
  client : Nat
  call : Nat
  target : Bus
  serial : Nat
  deriving DecidableEq

/-- What GDBus runs in the main loop. -/
inductive Idle where
  /-- A call is finished, with an answer received at some position or without. -/
  | finished (client call : Nat) (reply : Option (Message × Nat))
  /-- The first thing a name watch says. -/
  | nameOwner (client : Nat) (service : Service) (owner : Option String)
      (position : Nat)
  | nameOwnerChanged (client : Nat) (service : Service)
      (oldOwner newOwner : Option String) (position : Nat)

/-- What the host's bus has told a client's connection about a service. -/
structure Announcement where
  client : Nat
  service : Service
  oldOwner : Option String
  newOwner : Option String
  position : Nat
  deriving DecidableEq

/-- GDBus's part of a client's connection to the host's bus: the last owner
announced, and whether the watch has had its first answer. -/
structure Connection where
  announced : Service → Option String := fun _ => none
  watching : Service → Bool := fun _ => false

structure App where
  broker : Bool
  admin : Bool := false
  /-- The unique name of the relay on the guest's bus. -/
  uniqueName : String := ""
  /-- Every client there ever was, by its address. -/
  client : Nat → Client := fun _ => {}
  nextClient : Nat := 0
  clients : List (String × Nat) := []
  guestNames : List String := []
  queue : List Event := []
  queued : Nat := 0
  nextCall : Nat := 0
  waiting : List Waiting := []
  idle : List Idle := []
  collected : Nat := 0
  inHand : Option Event := none
  received : Nat := 0
  connection : Nat → Connection := fun _ => {}
  history : List Announcement := []

inductive Output where
  | send (bus : Bus) (message : Message)
  /-- A call goes to its target. -/
  | call (client : Nat) (call : Call) (message : Message)
  /-- An answer goes to the origin of a call; `received` is the position of the
  answer it hands on, if there is one. -/
  | reply (client : Nat) (call : Call) (message : Message) (received : Option Nat)
  | ownName (service : Service)

namespace App

def updateClient (app : App) (c : Nat) (f : Client → Client) : App :=
  { app with client := Function.update app.client c (f (app.client c)) }

def updateConnection (app : App) (c : Nat) (f : Connection → Connection) : App :=
  { app with connection := Function.update app.connection c (f (app.connection c)) }

@[simp] theorem updateClient_client (app : App) (c : Nat) (f : Client → Client) :
    (app.updateClient c f).client c = f (app.client c) :=
  Function.update_self ..

theorem updateClient_other (app : App) {c d : Nat} (f : Client → Client) (h : d ≠ c) :
    (app.updateClient c f).client d = app.client d :=
  Function.update_of_ne h ..

/-- What the change does to its client, it does to every one, if the others may stay. -/
theorem updateClient_rel (app : App) {c : Nat} {f : Client → Client} {r : Client → Client → Prop}
    (hrefl : ∀ client, r client client) (h : r (app.client c) (f (app.client c))) (d : Nat) :
    r (app.client d) ((app.updateClient c f).client d) := by
  by_cases hd : d = c
  · subst hd
    rw [updateClient_client]
    exact h
  · rw [updateClient_other app f hd]
    exact hrefl _

theorem updateClient_twice (app : App) (c : Nat) (f g : Client → Client) :
    (app.updateClient c f).updateClient c g =
      app.updateClient c fun client => g (f client) := by
  unfold App.updateClient
  simp

end App

/-! ## Replies -/

/-- `g_dbus_message_new_method_error_literal`, which answers calls only. -/
def methodError (request : Message) (name text : String) : Option Message :=
  if request.type = .methodCall then
    some { type := .error, replySerial := request.serial, destination := request.sender
           errorName := some name, body := some [.str text] }
  else none

def accessDenied : String := "org.freedesktop.DBus.Error.AccessDenied"
def limitsExceeded : String := "org.freedesktop.DBus.Error.LimitsExceeded"

def replyError (bus : Bus) (request : Message) (name text : String) : List Output :=
  ((methodError request name text).map (Output.send bus)).toList

def replySuccess (bus : Bus) (request : Message) (body : List Variant) : List Output :=
  if request.type = .methodCall then
    [.send bus { type := .methodReturn, replySerial := request.serial
                 destination := request.sender, body := some body }]
  else []

/-- The entries of an `(a{ss})` body with every value replaced by `no`; any other
body is left alone. -/
def denyPermissions : Option (List Variant) → Option (List Variant)
  | some [.array "\x7bss\x7d" entries] =>
      some [.array "\x7bss\x7d" (entries.filterMap fun
        | .dictEntry (.str key) (.str _) => some (.dictEntry (.str key) (.str "no"))
        | _ => none)]
  | body => body

def Call.markDelivered (id : Nat) (call : Call) : Call :=
  if call.id = id then { call with delivered := true } else call

/-- The agent flag after a successful answer to `call`. -/
def agentAfter (call : Call) (agent : Bool) : Bool :=
  let agent := if call.registerAgent then true else agent
  if call.unregisterAgent then false else agent

/-- The answer to `call` that `reply` is turned into. -/
def relayedReply (client : Client) (call : Call) (reply : Message) : Message :=
  let copy := { messageCopy reply call.request.sender with
    replySerial := call.request.serial }
  if reply.type = .methodReturn ∧ call.permissions = true ∧ client.admin = false then
    { copy with body := denyPermissions reply.body }
  else copy

def deliverReply (app : App) (c : Nat) (call : Call) (reply : Option (Message × Nat)) :
    App × List Output :=
  let app := app.updateClient c fun client =>
    { client with pendingCalls := client.pendingCalls.map (Call.markDelivered call.id) }
  match reply.filter fun reply => messageBounded reply.1 with
  | none =>
    (app, ((methodError call.request "org.freedesktop.DBus.Error.NoReply"
      "System service unavailable or reply limit exceeded").map
        fun message => Output.reply c call message (reply.map Prod.snd)).toList)
  | some (reply, position) =>
    (if reply.type = .methodReturn then
        app.updateClient c fun client =>
          { client with agent := agentAfter call client.agent }
      else app,
      [.reply c call (relayedReply (app.client c) call reply) (some position)])

def forwardFinished (app : App) (c id : Nat) (reply : Option (Message × Nat)) :
    App × List Output :=
  match (app.client c).pendingCalls.find? (·.id == id) with
  | none => (app, [])
  | some call =>
    let (app, outputs) :=
      if call.delivered then (app, []) else deliverReply app c call reply
    (app.updateClient c fun client =>
      { client with
        pendingCalls := client.pendingCalls.filter (·.id ≠ id)
        outstanding := client.outstanding - 1 }, outputs)

/-! ## Forwarding -/

def isGetPermissions (request : Message) : Bool :=
  request.interfaceName == some nm && request.member == some "GetPermissions"

def isAgentManager (request : Message) : Bool :=
  request.interfaceName == some (nm ++ ".AgentManager")

def isRegister (request : Message) : Bool :=
  isAgentManager request
    && (request.member == some "Register"
      || request.member == some "RegisterWithCapabilities")

def isUnregister (request : Message) : Bool :=
  isAgentManager request && request.member == some "Unregister"

/-- The message that `forward` sends. -/
def forwardedMessage (request : Message) (destination : Option String) (serial : Nat) :
    Message :=
  { messageCopy request destination with noReplyExpected := false, serial := serial }

/-- `forward`. The serial is the one the connection gives the message. -/
def forward (app : App) (c : Nat) (origin target : Bus) (request : Message)
    (destination : Option String) (serial : Nat) : App × List Output :=
  if 64 ≤ (app.client c).outstanding then
    (app, replyError origin request limitsExceeded "Too many outstanding calls")
  else
    let fromPeer := app.broker && origin == .peer c
    let call : Call :=
      { id := app.nextCall, origin := origin, request := request
        permissions := isGetPermissions request
        registerAgent := fromPeer && isRegister request
        unregisterAgent := fromPeer && isUnregister request
        target := target, serial := serial }
    ({ app.updateClient c fun client =>
        { client with
          pendingCalls := call :: client.pendingCalls
          outstanding := client.outstanding + 1 } with
      nextCall := app.nextCall + 1
      waiting := app.waiting ++ [⟨c, app.nextCall, target, serial⟩] },
      [.call c call (forwardedMessage request destination serial)])

/-! ## Host service discovery -/

def changedSignal (service : Service) : Message :=
  { type := .signal, path := some controlPath, interfaceName := some control
    member := some "Changed", body := some [.str service.name] }

def notifyObserver (client : Client) (c : Nat) (service : Service) : List Output :=
  if client.observer then [.send (.peer c) (changedSignal service)] else []

def appeared (app : App) (c : Nat) (service : Service) (owner : String) :
    App × List Output :=
  (app.updateClient c fun client =>
    { client with owners := Function.update client.owners service (some owner) },
    notifyObserver (app.client c) c service)

def vanished (app : App) (c : Nat) (service : Service) : App × List Output :=
  (app.updateClient c fun client =>
    { client with
      owners := Function.update client.owners service none
      agent := if service = .networkManager then false else client.agent },
    notifyObserver (app.client c) c service)

/-! ## Opening clients -/

/-- What the world answers while a message is being handled: the serial of a
message that is sent, the caller's user, whether the broker and the host's bus
can be reached, and what the broker says to `Open`. -/
structure Env where
  serial : Nat := 0
  uid : Option Nat := none
  peer : Bool := false
  openReply : Option Bool := none
  hostBus : Bool := false

/-- The arguments of `Open`, of type `(ub)`. -/
def openArguments : Option (List Variant) → Option (Int × Bool)
  | some [.basic 'u' uid, .basic 'b' observer] => some (uid, observer != 0)
  | _ => none

def openClient (env : Env) (app : App) (c : Nat) (request : Message) :
    App × List Output :=
  match (app.client c).opened, openArguments request.body with
  | false, some (_, observer) =>
    let app := app.updateClient c fun client => { client with observer := observer }
    if env.hostBus then
      let admin := app.admin && !observer
      (app.updateClient c fun client =>
          { client with host := true, admin := admin, opened := true },
        replySuccess (.peer c) request [Variant.bool admin])
    else
      (app, replyError (.peer c) request "org.freedesktop.DBus.Error.NoServer"
        "Host system bus unavailable")
  | _, _ =>
    (app, replyError (.peer c) request "org.freedesktop.DBus.Error.InvalidArgs"
      "Invalid client handshake")

def addClient (app : App) (name : String) (client : Client) : App :=
  { app.updateClient app.nextClient fun _ => client with
    nextClient := app.nextClient + 1
    clients := (name, app.nextClient) :: app.clients }

/-- `relay_client`. -/
def relayClient (env : Env) (app : App) (sender : String) (observer : Bool) :
    App × Option Nat :=
  match app.clients.lookup sender with
  | some c => (app, some c)
  | none =>
    if 128 ≤ app.clients.length then (app, none)
    else if !observer && env.uid.isNone then (app, none)
    else
      match env.peer, env.openReply with
      | true, some admin =>
        (addClient app sender
          { name := sender, opened := true, observer := observer, admin := admin },
          some app.nextClient)
      | _, _ => (app, none)

/-! ## Routing across the system bus boundary -/

/-- Libraries address the unique owner after resolving a service name. -/
def resolveDestination (app : App) (message : Message) : Message :=
  if message.destination == some app.uniqueName then
    match Service.all.find? (servicePath · message.path) with
    | some service => { message with destination := some service.name }
    | none => message
  else message

def handleGuestCall (env : Env) (app : App) (event : Event) : App × List Output :=
  match relayClient env app (event.message.sender.getD "") false with
  | (app, none) =>
    (app, replyError event.bus event.message "org.freedesktop.DBus.Error.NoServer"
      "System bridge unavailable")
  | (app, some c) =>
    let message := resolveDestination app event.message
    if systemCallAllowed message (app.client c).admin then
      forward app c event.bus (.peer c) message message.destination env.serial
    else
      (app, replyError event.bus message accessDenied
        "Spaces system service permission denied")

def isOpen (message : Message) : Bool :=
  message.interfaceName == some control && message.member == some "Open"
    && message.path == some controlPath

def handleBrokerCall (env : Env) (app : App) (c : Nat) (event : Event) :
    App × List Output :=
  let client := app.client c
  if isOpen event.message then openClient env app c event.message
  else if !client.opened || client.observer
      || !systemCallAllowed event.message client.admin then
    (app, replyError event.bus event.message accessDenied
      "Spaces system service permission denied")
  else
    forward app c (.peer c) (.host c) event.message event.message.destination env.serial

def forwardHostSignal (app : App) (c : Nat) (event : Event) : List Output :=
  let client := app.client c
  let message := event.message
  match Service.all.find? fun service => (client.owners service).isSome
      && message.sender == client.owners service && servicePath service message.path with
  | some service =>
    if message.destination.isSome && client.observer then []
    else [.send (.peer c)
      { messageCopy message none with sender := some service.name }]
  | none => []

def forwardPeerSignal (app : App) (c : Nat) (event : Event) : List Output :=
  let client := app.client c
  let message := event.message
  if message.interfaceName == some control && message.member == some "Changed" then
    match client.observer, message.body with
    | true, some [.str name] =>
      ((serviceIndex (some name)).map Output.ownName).toList
    | _, _ => []
  else
    match serviceIndex message.sender with
    | some service =>
      if !servicePath service message.path then []
      else if client.observer then
        (app.guestNames.filter fun name => (app.clients.lookup name).isNone).map
          fun name => .send .app (messageCopy message (some name))
      else [.send .app (messageCopy message (some client.name))]
    | none => []

/-- A message that looks like a call back to a secret agent. -/
def isCallback (message : Message) : Bool :=
  message.interfaceName == some (nm ++ ".SecretAgent")
    && message.path == some "/org/freedesktop/NetworkManager/SecretAgent"
    && message.member.any (["GetSecrets", "CancelGetSecrets", "SaveSecrets",
      "DeleteSecrets"].contains ·)

def handleAgentCallback (env : Env) (app : App) (c : Nat) (event : Event) :
    App × List Output :=
  let client := app.client c
  let message := event.message
  let callback := isCallback message &&
    if app.broker then client.agent && (client.owners .networkManager).isSome
      && message.sender == client.owners .networkManager
    else client.admin && !client.observer
  if callback then
    forward app c event.bus (if app.broker then .peer c else .app) message
      (if app.broker then none else some client.name) env.serial
  else
    (app, replyError event.bus message accessDenied "Callback not permitted")

/-! ## The queue -/

/-- The first undelivered call that a message answers. -/
def answeredCall (client : Client) (event : Event) : Option Call :=
  client.pendingCalls.find? fun call => !call.delivered
    && call.target == event.bus && call.serial == event.message.replySerial

def isReply (message : Message) : Bool :=
  message.type == .methodReturn || message.type == .error

/-- The calls and signals that `process_event` hands on. -/
def routeEvent (env : Env) (app : App) (event : Event) : App × List Output :=
  match event.client with
  | none => if app.broker then (app, []) else handleGuestCall env app event
  | some c =>
    if app.broker && event.bus == .peer c then handleBrokerCall env app c event
    else
      match event.message.type with
      | .signal =>
        (app, if app.broker then forwardHostSignal app c event
          else forwardPeerSignal app c event)
      | .methodCall => handleAgentCallback env app c event
      | _ => (app, [])

def handleEvent (env : Env) (app : App) (event : Event) : App × List Output :=
  let client := event.client.map app.client
  if client.any Client.closed then (app, [])
  else
    match event.client, isReply event.message with
    | some c, true =>
      match answeredCall (app.client c) event with
      | some call => deliverReply app c call (some (event.message, event.position))
      | none => (app, [])
    | _, _ =>
      if messageBounded event.message then routeEvent env app event
      else
        (app, replyError event.bus event.message limitsExceeded "Message limit exceeded")

/-- `process_event`. The counter goes down at its end; nothing reads it before. -/
def processEvent (env : Env) (app : App) : App × List Output :=
  match app.queue with
  | [] => (app, [])
  | event :: rest =>
    handleEvent env { app with queue := rest, queued := app.queued - 1 } event

def queueMessage (app : App) (event : Event) : App × List Output :=
  if 1024 ≤ app.queued then
    (app, replyError event.bus event.message limitsExceeded "System bridge queue full")
  else
    ({ app with queue := app.queue ++ [event], queued := app.queued + 1 }, [])

/-! ## Steps -/

inductive Step where
  /-- The worker has received a message and run the filter on it. -/
  | receive (bus : Bus) (message : Message)
  /-- GDBus goes on with the message that the filter left to it. -/
  | match
  /-- The first answer to the watch of a service. -/
  | watchStarted (client : Nat) (service : Service) (owner : Option String)
  /-- The host's bus announces a change of a service's owner. -/
  | nameOwnerChanged (client : Nat) (service : Service) (oldOwner newOwner : Option String)
  /-- A connection is lost with a call on it. -/
  | fail (client call : Nat)
  | process (env : Env)
  /-- The main loop looks for sources to dispatch. -/
  | check
  /-- It dispatches one of default priority. -/
  | dispatch
  | timeout (client call : Nat)
  | closed (client : Nat)
  | newPeer (name : String)
  | observerTick (env : Env)
  | guestNameChanged (name owner : String)

/-- The client a connection belongs to, and whether there is such a connection. -/
def busClient (app : App) : Bus → Option (Option Nat)
  | .app => if app.broker then none else some none
  | .peer c => if c < app.nextClient then some (some c) else none
  | .host c =>
    if c < app.nextClient && app.broker && (app.client c).host then some (some c) else none

def receive (app : App) (bus : Bus) (message : Message) : App × List Output :=
  match app.inHand, busClient app bus with
  | none, some client =>
    let event : Event := ⟨client, bus, message, app.received⟩
    let app := { app with received := app.received + 1 }
    -- A call ends at the filter, everything else goes on to GDBus.
    if message.type = .methodCall then queueMessage app event
    else if client.isSome then
      let (app, outputs) := queueMessage app event
      ({ app with inHand := some event }, outputs)
    else ({ app with inHand := some event }, [])
  | _, _ => (app, [])

/-- GDBus gives an answer to the call that waits for it. -/
def matchReply (app : App) : App :=
  match app.inHand with
  | none => app
  | some event =>
    let app := { app with inHand := none }
    match app.waiting.find? fun waiting => isReply event.message
        && waiting.target == event.bus && waiting.serial == event.message.replySerial with
    | some waiting =>
      { app with
        waiting := app.waiting.erase waiting
        idle := app.idle ++ [.finished waiting.client waiting.call
          (some (event.message, event.position))] }
    | none => app

def nameOwnerChangedSignal (service : Service) (oldOwner newOwner : Option String) :
    Message :=
  { type := .signal, sender := some "org.freedesktop.DBus"
    path := some "/org/freedesktop/DBus", interfaceName := some "org.freedesktop.DBus"
    member := some "NameOwnerChanged"
    body := some [.str service.name, .str (oldOwner.getD ""), .str (newOwner.getD "")] }

def watchStarted (app : App) (c : Nat) (service : Service) (owner : Option String) : App :=
  if (app.connection c).watching service || app.inHand.isSome
      || (busClient app (.host c)).isNone then app
  else
    { app.updateConnection c fun connection =>
        { announced := Function.update connection.announced service owner
          watching := Function.update connection.watching service true } with
      idle := app.idle ++ [.nameOwner c service owner app.received]
      received := app.received + 1
      history := app.history ++ [⟨c, service, none, owner, app.received⟩] }

/-- The filter sees the signal like any other; the watch acts on it once it has
been started. The old owner is the bus's own: before the watch has had its first answer it
may be one that the connection was never told. -/
def nameOwnerChanged (app : App) (c : Nat) (service : Service)
    (oldOwner newOwner : Option String) : App × List Output :=
  if app.inHand.isSome || (busClient app (.host c)).isNone then (app, [])
  -- The bus leaves no change out, so each starts from the owner that it named last.
  else if (app.connection c).watching service
      && oldOwner != (app.connection c).announced service then (app, [])
  else
    let position := app.received
    let (app, outputs) := queueMessage { app with received := app.received + 1 }
      ⟨some c, .host c, nameOwnerChangedSignal service oldOwner newOwner, position⟩
    ({ app.updateConnection c fun connection =>
        { connection with
          announced := Function.update connection.announced service newOwner }
      with
      idle := if (app.connection c).watching service then
          app.idle ++ [.nameOwnerChanged c service oldOwner newOwner position]
        else app.idle
      history := app.history ++ [⟨c, service, oldOwner, newOwner, position⟩] }, outputs)

/-- The handlers of a name watch. A client that is closed watches nothing. -/
def watchReport (app : App) (c : Nat) (service : Service) (lost : Bool)
    (owner : Option String) : App × List Output :=
  if (app.client c).closed then (app, [])
  else
    let (app, gone) := if lost then vanished app c service else (app, [])
    match owner with
    | some owner =>
      let (app, here) := appeared app c service owner
      (app, gone ++ here)
    | none => (app, gone)

def dispatchIdle (app : App) (source : Idle) : App × List Output :=
  match source with
  | .finished c id reply => forwardFinished app c id reply
  | .nameOwner c service owner _ => watchReport app c service owner.isNone owner
  | .nameOwnerChanged c service oldOwner newOwner _ =>
    watchReport app c service
      (oldOwner.isSome && ((app.client c).owners service).isSome) newOwner

def dispatch (app : App) : App × List Output :=
  match app.collected, app.idle with
  | collected + 1, source :: rest =>
    dispatchIdle { app with idle := rest, collected := collected } source
  | _, _ => (app, [])

/-- GDBus gives up waiting. -/
def timeout (app : App) (c id : Nat) : App × List Output :=
  match app.waiting.find? fun waiting => waiting.client == c && waiting.call == id with
  | some waiting =>
    forwardFinished { app with waiting := app.waiting.erase waiting } c id none
  | none => (app, [])

def fail (app : App) (c id : Nat) : App :=
  match app.waiting.find? fun waiting => waiting.client == c && waiting.call == id with
  | some waiting =>
    { app with
      waiting := app.waiting.erase waiting
      idle := app.idle ++ [.finished c id none] }
  | none => app

/-- `g_hash_table_remove` on the clients, with `remove_client`. -/
def removeClient (app : App) (name : String) : App :=
  match app.clients.lookup name with
  | some c =>
    { app.updateClient c fun client => { client with closed := true } with
      clients := app.clients.filter (·.1 ≠ name) }
  | none => app

def newPeer (app : App) (name : String) : App :=
  if app.broker && app.clients.length < 129 && (app.clients.lookup name).isNone then
    addClient app name { name := name }
  else app

def guestNameChanged (app : App) (name owner : String) : App :=
  if name.toList.head? = some ':' then
    if owner = "" then
      removeClient { app with guestNames := app.guestNames.filter (· ≠ name) } name
    else if name ≠ app.uniqueName ∧ name ∉ app.guestNames then
      { app with guestNames := name :: app.guestNames }
    else app
  else app

def step (app : App) : Step → App × List Output
  | .receive bus message => receive app bus message
  | .match => (matchReply app, [])
  | .watchStarted c service owner => (watchStarted app c service owner, [])
  | .nameOwnerChanged c service oldOwner newOwner =>
    nameOwnerChanged app c service oldOwner newOwner
  | .fail c id => (fail app c id, [])
  | .process env => processEvent env app
  | .check => (if app.queue.isEmpty then { app with collected := app.idle.length } else app, [])
  | .dispatch => dispatch app
  | .timeout c id => timeout app c id
  | .closed c =>
    (if (app.client c).closed then app else removeClient app (app.client c).name, [])
  | .newPeer name => (newPeer app name, [])
  | .observerTick env =>
    (if app.broker then app else (relayClient env app "observer" true).1, [])
  | .guestNameChanged name owner => (guestNameChanged app name owner, [])

end Spaces.SystemBus
