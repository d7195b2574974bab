import Spaces.Library.Runs
import Spaces.Mcp.Protocol

/-!
# The two threads of the server in a Space

One thread reads the lines of the connection. It takes a cancellation itself, at
once, and puts every other document into the queue. The main thread serves the
queue, one document at a time, and is inside the forwarding of a call for as long
as the host takes. The lines that the first thread reads meanwhile are steps of
their own.

The trace is a record for the theorems: what was read, what was handled with which
responses, and which documents had a tool executed for them. Its newest event is
its first.
-/

namespace Spaces.Mcp

open Spaces.Library Json

inductive Event where
  | received (line : Option Json)
  | executing (document : Json)
  | handled (line : Option Json) (replies : List Json)

/-- A call whose `forward_tool` has not returned, and the document it is of. -/
structure Active where
  document : Json
  call : Call

/-- A line that is no document, or too long, is `none`. `cancelled` is the flag
that both threads use. -/
structure Frontend where
  session : Session := {}
  requests : List (Option Json) := []
  cancelledIds : List Json := []
  cancelled : Bool := false
  active : Option Active := none
  trace : List Event := []

namespace Frontend

def initial : Frontend := {}

def isCancellation (line : Option Json) : Bool :=
  jsonString line "method" == some "notifications/cancelled"

/-- What a cancellation does under `active_lock`. -/
def cancel (s : Frontend) (id : Json) : Frontend :=
  { s with
    cancelledIds :=
      if s.cancelledIds.length < 256 ∧ ¬ s.cancelledIds.any id.sameText then
        id :: s.cancelledIds else s.cancelledIds
    cancelled := s.cancelled || s.active.any fun active => id.sameText active.call.id }

/-- `read_requests`, for one line. -/
def readRequest (s : Frontend) (line : Option Json) : Frontend :=
  let s := { s with trace := .received line :: s.trace }
  if isCancellation line then
    let s := match jsonMember (jsonMember line "params") "requestId" with
      | some id => s.cancel id
      | none => s
    { s with trace := .handled line [] :: s.trace }
  else { s with requests := s.requests ++ [line] }

def malformedMessage : String := "Malformed or oversized JSON message"

/-- One turn of `serve_mcp`, up to where a call is forwarded. -/
def serve (noVision : Bool) (s : Frontend) : Frontend :=
  match s.active, s.requests with
  | some _, _ | none, [] => s
  | none, none :: requests =>
      { s with
        requests
        trace := .handled none [sendError none (-32700) malformedMessage] :: s.trace }
  | none, some document :: requests =>
      let s := { s with requests }
      match handleRequest noVision s.session document with
      | (session, .finished replies) =>
          { s with session, trace := .handled (some document) replies :: s.trace }
      | (session, .calling call) =>
          { s with
            session
            cancelled := s.cancelledIds.any (call.id.sameText ·)
            active := some ⟨document, call⟩
            trace := if call.executes then .executing document :: s.trace else s.trace }

/-- The rest of `call_tool` and of `handle_request`. A call that was cancelled is
not answered. -/
def finish (noVision : Bool) (s : Frontend) (outcome : Outcome) : Frontend :=
  match s.active with
  | none => s
  | some ⟨document, call⟩ =>
      let replies := if s.cancelled then []
        else [sendResult s.session.modern call.id (callResult noVision call outcome)]
      { s with
        active := none
        cancelledIds := s.cancelledIds.filter (!call.id.sameText ·)
        trace := .handled (some document) replies :: s.trace }

inductive Input where
  | line (line : Option Json)
  | serve
  | forwarded (outcome : Outcome)

def step (noVision : Bool) (s : Frontend) : Input → Frontend
  | .line line => s.readRequest line
  | .serve => s.serve noVision
  | .forwarded outcome => s.finish noVision outcome

end Frontend

end Spaces.Mcp
