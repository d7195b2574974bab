import Spaces.Computer.Dialogue

/-!
# The hop from a Space to the host

A tool that an agent calls in a Space is forwarded over a socket to the shared
host. `forward_tool` encodes the call again, sends it in pieces as the socket
takes them, and reads until what it has read ends with a newline. The host reads
its clients byte by byte, and writes their replies in pieces too. Here the two
servers of `Frontend` and `Host` are put together, with the bytes between them.

The connections of one server in a Space are numbered in the order it opened
them. The host accepts a connection some time after it was opened, or closes it,
and goes on reading what is left on a connection that the server has given up. A
step of `forward_tool` is one round of its loop: the tick, the look at the socket,
and one call of `send` or `read`. The other clients of the host, its controllers
and the desktop are inputs of the host of their own.

The encoder and the decoder are yyjson's. All that is assumed of them is that a
document is written on one line.
-/

namespace Spaces.Computer

open Spaces.Library Json Spaces.Mcp

abbrev Bytes := List UInt8

def newline : UInt8 := 10

/-- `yyjson_mut_write` and `yyjson_read`. -/
structure Codec where
  write : Json → Bytes
  read : Bytes → Option Json
  write_line : ∀ document, newline ∉ write document

/-- The bytes of a document, as a message. -/
def Codec.message (codec : Codec) (document : Json) : Bytes := codec.write document ++ [newline]

structure Connection where
  /-- The host's number for it, once it is accepted. -/
  serial : Option Nat := none
  /-- Closed by the host without being accepted. -/
  refused : Bool := false
  /-- Sent by the server and not received. -/
  toHost : Bytes := []
  /-- `client->input` and `client->oversized`. -/
  input : Bytes := []
  oversized : Bool := false
  /-- How many of the host's replies are in `client->output` or beyond. -/
  posted : Nat := 0
  /-- `client->sent`, and what is left of `client->output` after it. -/
  sent : Nat := 0
  output : Bytes := []
  /-- Sent by the host and not received. -/
  toSpace : Bytes := []

/-- A call in the loop of `forward_tool`. What was said on the connection before is
for the theorems. -/
structure Forwarding where
  line : Bytes
  offset : Nat := 0
  response : Bytes := []
  before : List Said

structure Hop where
  frontend : Frontend := {}
  stopping : Bool := false
  host : Host
  /-- The connections opened so far, and how many they are. -/
  connections : Nat → Connection := fun _ => {}
  opened : Nat := 0
  hostFd : Option Nat := none
  disconnected : Bool := false
  forwarding : Option Forwarding := none

/-- What the system answers to the calls of one round. -/
structure Round where
  /-- The deadline of the call has passed. -/
  late : Bool := false
  /-- `endpoint_available`. -/
  endpoint : Bool := true
  /-- It is the endpoint that the server has connected to. -/
  same : Bool := true
  /-- The address of the endpoint fits into a socket address. -/
  fits : Bool := true
  /-- A new connection is made, to a process of the user. -/
  connects : Bool := true
  /-- It could not be made at once. -/
  inProgress : Bool := false
  /-- `poll` finds the socket ready. -/
  ready : Bool := true
  /-- The call on the socket fails for good. -/
  fails : Bool := false
  /-- One less than the number of bytes that the call can move. -/
  more : Nat := 0

def Said.reply? : Said → Option Json
  | .answered reply => some reply
  | _ => none

/-- The host from the side of a connection. -/
def Host.viewOf (s : Host) (connection : Connection) : View :=
  match connection.serial with
  | none => {}
  | some client => s.view client

namespace Hop

def maxRequest : Nat := 1024 * 1024
def maxResponse : Nat := 512 * 1024 * 1024
def maxOutput : Nat := 128 * 1024 * 1024

def initial (testPath : Bool) : Hop := { host := .initial testPath }

/-! ## Failures -/

def cancelledFailure : Failure :=
  ⟨"cancelled", "Operation cancelled. Completed actions were not rolled back."⟩

def timeoutFailure : Failure :=
  ⟨"timeout", "Operation exceeded its time limit; inspect state before retrying."⟩

def disconnectedFailure : Failure :=
  ⟨"computer_use_disconnected", "The host computer-use service disconnected. Call status again."⟩

def notForwardedFailure : Failure :=
  ⟨"accessibility_permission_required", "Computer use is not forwarded. The user needs to run " ++
    "`sudo spaces configure <space>` on the host, select Customise, then enable Plus " ++
    "Accessibility and Agent computer use."⟩

def pathFailure : Failure :=
  ⟨"computer_use_unavailable", "The host socket path is too long."⟩

def connectFailure : Failure :=
  ⟨"computer_use_unavailable", "Cannot connect to the host computer-use service."⟩

/-- `scu_tick`: what it records when it stops the call. -/
def tick (s : Hop) (round : Round) : Option Failure :=
  if s.frontend.cancelled || s.stopping then some cancelledFailure
  else if round.late then some timeoutFailure
  else none

/-! ## Connections -/

def setConnection (s : Hop) (number : Nat) (connection : Connection) : Hop :=
  { s with connections := Function.update s.connections number connection }

/-- The host has the connection open. -/
def hostOpen (s : Hop) (connection : Connection) : Bool :=
  match connection.serial with
  | none => !connection.refused
  | some client => (s.host.client? client).any (!·.closed)

/-- `scu_invalidate`. -/
def invalidate (s : Hop) : Hop := { s with hostFd := none }

/-- What `poll_backend` finds wrong with the connection. -/
def lost (s : Hop) (round : Round) (connection : Connection) : Bool :=
  !round.endpoint || !round.same || round.fails
    || connection.toSpace.isEmpty && !s.hostOpen connection

/-- `poll_backend`. -/
def pollBackend (s : Hop) (round : Round) : Hop :=
  match s.hostFd with
  | none => s
  | some number =>
      if s.lost round (s.connections number) then { s.invalidate with disconnected := true } else s

/-! ## `forward_tool` -/

/-- The request that is sent to the host. -/
def request (call : Call) : Json :=
  .obj ([("jsonrpc", .str "2.0"), ("method", .str "tools/call"), ("id", call.id)]
    ++ (call.parameters.map fun parameters => ("params", parameters)).toList)

/-- Into the loop, on a connection. -/
def beginForwarding (codec : Codec) (s : Hop) (call : Call) (number : Nat) : Hop :=
  { s with
    hostFd := some number
    forwarding := some
      { line := codec.message (request call)
        before := (s.host.viewOf (s.connections number)).dialogue } }

/-- `connect_host`, and into the loop. -/
def connectHost (codec : Codec) (s : Hop) (call : Call) (round : Round) :
    Hop × Option Outcome :=
  let s := s.pollBackend round
  if s.disconnected then
    ({ s with disconnected := false }, some (.error disconnectedFailure))
  else
    match s.hostFd with
    | some number => (beginForwarding codec s call number, none)
    | none =>
        if !round.endpoint then (s, some (.error notForwardedFailure))
        else if !round.fits then (s, some (.error pathFailure))
        else if round.connects then
          let s := { s.setConnection s.opened {} with opened := s.opened + 1 }
          (beginForwarding codec s call (s.opened - 1), none)
        else
          let failure := if round.inProgress then (s.tick round).getD connectFailure
            else connectFailure
          ({ s with disconnected := false }, some (.error failure))

/-- Out of the loop without an answer. The first failure is the one recorded. -/
def giveUp (s : Hop) (failure : Failure) : Hop × Option Outcome :=
  ({ s.invalidate with disconnected := false, forwarding := none }, some (.error failure))

/-- A complete response. -/
def answer (codec : Codec) (s : Hop) (call : Call) (response : Bytes) : Hop × Option Outcome :=
  let value := codec.read response
  match jsonMember value "id", jsonMember value "result" with
  | some id, some (.obj result) =>
      if id.equals call.id then ({ s with forwarding := none }, some (.ok result))
      else s.giveUp disconnectedFailure
  | _, _ => s.giveUp disconnectedFailure

/-- `send`, of what the socket takes. -/
def send (s : Hop) (forwarding : Forwarding) (number : Nat) (round : Round) : Hop :=
  let connection := s.connections number
  let part := (forwarding.line.drop forwarding.offset).take (round.more + 1)
  { s.setConnection number { connection with toHost := connection.toHost ++ part } with
    forwarding := some { forwarding with offset := forwarding.offset + part.length } }

/-- `read`, of what there is, and the test whether it is all. -/
def receive (codec : Codec) (s : Hop) (call : Call) (forwarding : Forwarding) (number : Nat)
    (round : Round) : Hop × Option Outcome :=
  let connection := s.connections number
  let count := min 65536 (round.more + 1)
  let part := connection.toSpace.take count
  let s := s.setConnection number { connection with toSpace := connection.toSpace.drop count }
  let response := forwarding.response ++ part
  if maxResponse < response.length then s.giveUp disconnectedFailure
  else if !part.isEmpty && response.getLast? == some newline then s.answer codec call response
  else ({ s with forwarding := some { forwarding with response } }, none)

/-- One round of the loop. -/
def forward (codec : Codec) (s : Hop) (call : Call) (forwarding : Forwarding) (round : Round) :
    Hop × Option Outcome :=
  match s.tick round, s.hostFd with
  | some failure, _ => s.giveUp failure
  | none, none => s.giveUp disconnectedFailure
  | none, some number =>
      if s.lost round (s.connections number) then s.giveUp disconnectedFailure
      else if !round.ready then (s, none)
      else if forwarding.offset < forwarding.line.length then
        (s.send forwarding number round, none)
      else s.receive codec call forwarding number round

/-- A round of `forward_tool`, and what it returns if it does. -/
def forwardTool (codec : Codec) (s : Hop) (call : Call) (round : Round) : Hop × Option Outcome :=
  match s.forwarding with
  | none => s.connectHost codec call round
  | some forwarding => s.forward codec call forwarding round

/-- The rest of `call_tool`. -/
def finish (noVision : Bool) (s : Hop) (outcome : Outcome) : Hop :=
  let cancelled := s.frontend.cancelled
  let s := { s with frontend := s.frontend.finish noVision outcome }
  if cancelled then s.invalidate else s

/-- A round of `call_tool`, which forwards the call unless it has failed already. -/
def callTool (noVision : Bool) (codec : Codec) (s : Hop) (round : Round) : Hop :=
  match s.frontend.active with
  | none => s
  | some active =>
      match active.call.failure with
      | some failure => s.finish noVision (.error failure)
      | none =>
          match s.forwardTool codec active.call round with
          | (s, none) => s
          | (s, some outcome) => s.finish noVision outcome

/-! ## The host's side of a connection -/

/-- `host_accept`, when it comes to the connection. -/
def accept (s : Hop) (number lease : Nat) (trusted : Bool) : Hop :=
  let connection := s.connections number
  let host := s.host.accept lease trusted
  if number < s.opened && connection.serial.isNone && !connection.refused
      && s.host.serial < host.serial then
    { s with host }.setConnection number { connection with serial := some host.serial }
  else s

/-- The host closes a connection that it has not accepted. -/
def refuse (s : Hop) (number : Nat) : Hop :=
  let connection := s.connections number
  if connection.serial.isNone then s.setConnection number { connection with refused := true }
  else s

/-- `host_read`, for one byte. -/
def hear (codec : Codec) (s : Hop) (number : Nat) : Hop :=
  let connection := s.connections number
  match connection.serial, connection.toHost with
  | some client, byte :: toHost =>
      if !s.hostOpen connection then s
      else if byte = newline then
        let document := if connection.oversized then none else codec.read connection.input
        { s with host := s.host.line client document }.setConnection number
          { connection with toHost, input := [], oversized := false }
      else if connection.input.length < maxRequest then
        s.setConnection number { connection with toHost, input := connection.input ++ [byte] }
      else s.setConnection number { connection with toHost, oversized := true }
  | _, _ => s

/-- The replies of a dialogue, the oldest first. -/
def replies (dialogue : List Said) : List Json := (dialogue.filterMap Said.reply?).reverse

/-- `host_send_line`, of the next reply. -/
def post (codec : Codec) (s : Hop) (number : Nat) : Hop :=
  let connection := s.connections number
  match connection.serial, (replies (s.host.viewOf connection).dialogue)[connection.posted]? with
  | some client, some reply =>
      if !s.hostOpen connection then s
      else if maxOutput <
          connection.sent + connection.output.length + (codec.write reply).length then
        { s with host := s.host.clientClose client }
      else
        s.setConnection number
          { connection with
            posted := connection.posted + 1
            output := connection.output ++ codec.message reply }
  | _, _ => s

/-- `host_write`, of what the socket takes. -/
def write (s : Hop) (number count : Nat) : Hop :=
  let connection := s.connections number
  if s.hostOpen connection then
    let part := connection.output.take count
    let output := connection.output.drop count
    s.setConnection number
      { connection with
        output
        sent := if output.isEmpty then 0 else connection.sent + part.length
        toSpace := connection.toSpace ++ part }
  else s

/-- A line of a client of the host is heard from its connection only. -/
def own (s : Hop) : Host.Input → Bool
  | .line client _ => (List.range s.opened).any fun number =>
      (s.connections number).serial == some client
  | _ => false

inductive Input where
  /-- The reading thread has a line. -/
  | line (line : Option Json)
  /-- A signal, or the end of the input. -/
  | stop
  /-- The main thread takes a request from the queue. -/
  | serve
  | poll (round : Round)
  | call (round : Round)
  | accept (number lease : Nat) (trusted : Bool)
  | refuse (number : Nat)
  | hear (number : Nat)
  | post (number : Nat)
  | write (number count : Nat)
  | host (input : Host.Input)

def step (noVision : Bool) (codec : Codec) (s : Hop) : Input → Hop
  | .line line => { s with frontend := s.frontend.readRequest line }
  | .stop => { s with stopping := true }
  | .serve => if s.stopping then s else { s with frontend := s.frontend.serve noVision }
  | .poll round => if s.frontend.active.isSome then s else s.pollBackend round
  | .call round => s.callTool noVision codec round
  | .accept number lease trusted => s.accept number lease trusted
  | .refuse number => s.refuse number
  | .hear number => s.hear codec number
  | .post number => s.post codec number
  | .write number count => s.write number count
  | .host input => if s.own input then s else { s with host := s.host.step input }

end Hop

end Spaces.Computer
