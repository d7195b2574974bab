import Spaces.Library.Runs
import Spaces.Mcp.Frontend

/-!
# The shared computer-use host

One process serves the clients of every Space. A lease is what a controller holds:
it lets the peers of one socket become clients, and revoking it ends them. The
lines of the clients are queued, and the main loop takes one event at a time.

A tool that is executed dispatches the main context again and again, so that
connections, lines and control messages are handled while it runs. They are
inputs of their own here, and may come before, between and within the turns of
the loop. A call is executed in three inputs: a `turn` takes it from the queue, a
`tick` is the first look at its cancellation, and `finish` ends it.

The trace is a record for the theorems, its newest event first.
-/

namespace Spaces.Computer

open Spaces.Library Json Spaces.Mcp

structure HostClient where
  lease : Nat
  serial : Nat
  closed : Bool := false
  pending : Nat := 0
  deriving DecidableEq

/-- `source` and `acceptSource` say whether the control connection and the listener
are watched, `control` whether there is a control connection. -/
structure HostLease where
  id : Nat
  control : Bool := true
  registered : Bool := false
  revoked : Bool := false
  acknowledged : Bool := false
  used : Bool := false
  source : Bool := false
  acceptSource : Bool := false
  deriving DecidableEq

inductive HostEvent where
  | call (client : Nat) (document : Option Json)
  | register (lease : Nat)
  | revoke (lease : Nat)

/-- `client_request_key`: the serial of the client and the id it gave. -/
abbrev Key := Nat × Json

def sameKey (a b : Key) : Bool := a.1 == b.1 && a.2.sameText b.2

/-- The call between the two halves of `call_tool`. Its key is `active_id`, and its
client is `host_current`. -/
structure Running where
  client : Nat
  call : Call
  executing : Bool := false

def Running.key (running : Running) : Key := (running.client, running.call.id)

inductive Event where
  | accepted (lease client : Nat)
  | received (client : Nat) (document : Option Json)
  | cancelled (client : Nat) (requestId : Json)
  | closed (client : Nat)
  | started (lease client : Nat) (document : Option Json)
  | executed (lease client : Nat) (id : Json)
  | suppressed (client : Nat) (id : Json)
  | replied (client : Nat) (reply : Json)
  | released (lease : Nat)

structure Host where
  clients : List HostClient := []
  leases : List HostLease := []
  events : List HostEvent := []
  serial : Nat := 0
  nextLease : Nat := 0
  running : Option Running := none
  cancelledIds : List Key := []
  cancelled : Bool := false
  session : Session := { initialized := true }
  trace : List Event := []

namespace Host

def maxClients : Nat := 32
def maxPending : Nat := 64
def maxCancelled : Nat := 256
def maxLeases : Nat := 64

/-- With a test path the host begins with a lease that nobody controls. -/
def initial (testPath : Bool) : Host :=
  if testPath then
    { leases := [{ id := 0, control := false, registered := true, acceptSource := true }]
      nextLease := 1 }
  else {}

def client? (s : Host) (serial : Nat) : Option HostClient :=
  s.clients.find? (·.serial == serial)

def lease? (s : Host) (id : Nat) : Option HostLease := s.leases.find? (·.id == id)

def setClient (s : Host) (serial : Nat) (f : HostClient → HostClient) : Host :=
  { s with clients := s.clients.map fun c => if c.serial = serial then f c else c }

def setLease (s : Host) (id : Nat) (f : HostLease → HostLease) : Host :=
  { s with leases := s.leases.map fun l => if l.id = id then f l else l }

def log (s : Host) (event : Event) : Host := { s with trace := event :: s.trace }

/-- `host_client_close`. -/
def clientClose (s : Host) (serial : Nat) : Host :=
  match s.client? serial with
  | none => s
  | some client =>
      if client.closed then s
      else
        let s := s.setClient serial fun c => { c with closed := true }
        { s with
          cancelled := s.cancelled || s.running.any (·.client == serial)
          cancelledIds := s.cancelledIds.filter (·.1 ≠ serial)
          trace := .closed serial :: s.trace }

/-- `host_queue`. -/
def queue (s : Host) (event : HostEvent) : Host :=
  let s := match event with
    | .call client _ => s.setClient client fun c => { c with pending := c.pending + 1 }
    | _ => s
  { s with events := s.events ++ [event] }

/-- `host_revoke`. -/
def revoke (s : Host) (lease : Nat) : Host :=
  match s.lease? lease with
  | none => s
  | some l =>
      if l.revoked then s
      else
        let s := s.setLease lease fun l =>
          { l with revoked := true, acceptSource := false, source := false }
        let s := (s.clients.filter (·.lease == lease)).foldl
          (fun s client => s.clientClose client.serial) s
        s.queue (.revoke lease)

def cancel (s : Host) (key : Key) : Host :=
  { s with
    cancelledIds :=
      if s.cancelledIds.length < maxCancelled ∧ ¬ s.cancelledIds.any (sameKey key) then
        key :: s.cancelledIds else s.cancelledIds
    cancelled := s.cancelled || s.running.any fun running => sameKey key running.key
    trace := .cancelled key.1 key.2 :: s.trace }

/-- `host_line`, called for a client whose connection is read. -/
def line (s : Host) (serial : Nat) (document : Option Json) : Host :=
  match s.client? serial with
  | none => s
  | some client =>
      if client.closed then s
      else if Frontend.isCancellation document then
        s.cancel (serial, (jsonMember (jsonMember document "params") "requestId").getD .null)
      else if s.events.length < maxPending then
        (s.queue (.call serial document)).log (.received serial document)
      else s.clientClose serial

def clientCount (s : Host) : Nat := (s.clients.filter (!·.closed)).length

/-- `host_accept`, for one peer. `trusted` is what its credentials say. -/
def accept (s : Host) (lease : Nat) (trusted : Bool) : Host :=
  match s.lease? lease with
  | none => s
  | some l =>
      if !l.acceptSource || l.revoked || maxClients ≤ s.clientCount || !trusted then s
      else
        let serial := s.serial + 1
        let s := s.setLease lease fun l => { l with used := true }
        { s with
          clients := { lease, serial } :: s.clients
          serial
          trace := .accepted lease serial :: s.trace }

/-- What `host_control_read` has found. A message is complete when its line is, and
valid with one listening descriptor of the user and a session to bind to. -/
inductive Control where
  | incomplete
  | valid
  | invalid
  | closed

def controlRead (s : Host) (lease : Nat) (control : Control) : Host :=
  match s.lease? lease with
  | none => s
  | some l =>
      if !l.source then s
      else if l.registered then s.revoke lease
      else
        match control with
        | .incomplete => s
        | .valid =>
            (s.setLease lease fun l => { l with registered := true }).queue (.register lease)
        | .invalid | .closed => s.revoke lease

/-- `host_control_accept`, for one peer that is root or the user. -/
def controlAccept (s : Host) : Host :=
  if s.leases.length < maxLeases then
    { s with
      leases := { id := s.nextLease, source := true } :: s.leases
      nextLease := s.nextLease + 1 }
  else s

/-- The end of a call: the second half of `call_tool`, the response, and the end of
the turn that began it. -/
def finishCall (s : Host) (running : Running) (outcome : Outcome) : Host :=
  let s := if s.cancelled then s
    else match s.client? running.client with
      | some client =>
          if client.closed then s
          else s.log (.replied running.client
            (sendResult s.session.modern running.call.id (callResult false running.call outcome)))
      | none => s
  let s := s.setClient running.client fun c => { c with pending := c.pending - 1 }
  { s with running := none, cancelledIds := s.cancelledIds.filter (!sameKey running.key ·) }

/-- A queued line of a client that is still there. -/
def call (s : Host) (client : HostClient) (document : Option Json) : Host :=
  let done (s : Host) := s.setClient client.serial fun c => { c with pending := c.pending - 1 }
  if client.closed then done s
  else
    let s := s.log (.started client.lease client.serial document)
    match document with
    | none =>
        done (s.log (.replied client.serial (sendError none (-32700) Frontend.malformedMessage)))
    | some document =>
        match handleRequest false s.session document with
        | (session, .finished replies) =>
            done { s with session, trace := replies.map (.replied client.serial) ++ s.trace }
        | (session, .calling call) =>
            let running : Running := { client := client.serial, call }
            let s := { s with session, cancelled := s.cancelledIds.any (sameKey running.key) }
            if call.executes then { s with running := some running }
            else s.finishCall running (.ok [])

/-- The next event of the queue. `bound` is whether `desktop_bind` succeeds, and
`told` whether the controller could be answered. -/
def turn (s : Host) (bound told : Bool) : Host :=
  match s.running, s.events with
  | some _, _ | none, [] => s
  | none, .call serial document :: events =>
      let s := { s with events }
      match s.client? serial with
      | none => s
      | some client => s.call client document
  | none, .register lease :: events =>
      let s := { s with events }
      match s.lease? lease with
      | none => s
      | some l =>
          if l.revoked then s
          else
            let s := { s with cancelled := false }
            if bound && told then s.setLease lease fun l => { l with acceptSource := true }
            else s.revoke lease
  | none, .revoke lease :: events =>
      let s := { s with events }
      match s.lease? lease with
      | none => s
      | some l =>
          let s := if l.control then s.log (.released lease) else s
          s.setLease lease fun l => { l with acknowledged := true }

/-- `execute_tool` up to the first `scu_tick`, which may also find the screen locked
or the time over. -/
def tick (s : Host) (failure : Option Failure) : Host :=
  match s.running with
  | none => s
  | some running =>
      if running.executing then s
      else if s.cancelled then
        (s.log (.suppressed running.client running.call.id)).finishCall running (.ok [])
      else
        match failure with
        | some failure => s.finishCall running (.error failure)
        | none =>
            match s.client? running.client with
            | none => s
            | some client =>
                { s with
                  running := some { running with executing := true }
                  trace := .executed client.lease running.client running.call.id :: s.trace }

def finish (s : Host) (outcome : Outcome) : Host :=
  match s.running with
  | none => s
  | some running => if running.executing then s.finishCall running outcome else s

/-- The main loop gives up a lease that has had no client for a while. -/
def idle (s : Host) (lease : Nat) : Host :=
  match s.running, s.lease? lease with
  | none, some l =>
      if l.control && l.used && !l.revoked &&
          !s.clients.any fun c => c.lease == lease && !c.closed then s.revoke lease
      else s
  | _, _ => s

/-- `host_collect`. It runs between two turns, when no client is the current one. -/
def collect (s : Host) : Host :=
  match s.running with
  | some _ => s
  | none =>
      let clients := s.clients.filter fun c => !(c.closed && c.pending == 0)
      let leases := s.leases.filter fun l =>
        !(l.acknowledged && !clients.any (·.lease == l.id))
      { s with clients, leases }

inductive Input where
  | controlAccept
  | controlRead (lease : Nat) (control : Control)
  | accept (lease : Nat) (trusted : Bool)
  | line (client : Nat) (document : Option Json)
  | hangup (client : Nat)
  | turn (bound told : Bool)
  | tick (failure : Option Failure)
  | finish (outcome : Outcome)
  | idle (lease : Nat)
  | collect

def step (s : Host) : Input → Host
  | .controlAccept => s.controlAccept
  | .controlRead lease control => s.controlRead lease control
  | .accept lease trusted => s.accept lease trusted
  | .line client document => s.line client document
  | .hangup client => s.clientClose client
  | .turn bound told => s.turn bound told
  | .tick failure => s.tick failure
  | .finish outcome => s.finish outcome
  | .idle lease => s.idle lease
  | .collect => s.collect

end Host

end Spaces.Computer
