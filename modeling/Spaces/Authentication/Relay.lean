import Spaces.Authentication.Frames
import Spaces.Library.Channel

/-!
# The PAM relay

The guest's PAM module asks the host to authenticate a user. On the host a worker
runs the PAM stack; each message of the stack goes to the guest as a frame, the
module shows it through the guest's conversation, and the answer comes back as a
frame. At the end the worker sends the stack's result.

The stack, the guest's conversation and the faults of the connection are inputs:
each handler is total, and an input that a party is not waiting for changes
nothing. A party whose peer is gone can send no more.

`asked`, `shown`, `answered` and `results` are records for the theorems, and so are
the last three fields of an exchange.
-/

namespace Spaces.Authentication

open Spaces.Library Spaces.Library.Transfer

/-! ## What is exchanged -/

structure CString where
  bytes : Bytes
  nulFree : 0 ∉ bytes
  deriving DecidableEq

structure PamMessage where
  style : Int32
  text : CString
  deriving DecidableEq

abbrev Payload := { payload : Bytes // payload.length ≤ maxPayload }

/-- Ten bytes that no decoder takes for a header. -/
structure BadHeader where
  bytes : Bytes
  length_eq : bytes.length = headerSize
  refused : bytes.take 4 ≠ protocolMagic ∨ bytes.getD 4 0 ≠ protocolVersion ∨
    maxPayload < (ntohl (bytes.drop 6)).toNat

/-- A frame that ended too early, and with it the stream. -/
structure Stump where
  type : UInt8
  payload : Payload
  count : Nat
  short : count < (encoded type payload.val).length

inductive Packet where
  | frame (type : UInt8) (payload : Payload)
  | malformed (header : BadHeader)
  | truncated (stump : Stump)

def Packet.bytes : Packet → Bytes
  | .frame type payload => encoded type payload.val
  | .malformed header => header.bytes
  | .truncated stump => (encoded stump.type stump.payload.val).take stump.count

/-- What `spaces_recv_frame` makes of it. -/
def Packet.received : Packet → Option SpacesFrame
  | .frame type payload => some (.ofContent (type, payload.val))
  | .malformed _ | .truncated _ => none

def ready : UInt8 := 4
def error : UInt8 := 5
def result : UInt8 := 6
def pamMessage : UInt8 := 7
def pamResponse : UInt8 := 8
def cancel : UInt8 := 9

def pamSuccess : Int32 := 0
def pamSystemErr : Int32 := 4
def pamAuthinfoUnavail : Int32 := 9
def pamMaxtries : Int32 := 11
def pamConvErr : Int32 := 19

theorem htonl_le (n : UInt32) : (htonl n).length ≤ maxPayload := by
  rw [htonl_length, maxPayload]
  omega

/-- The payload of a message, when it is short enough for a frame. -/
def PamMessage.payload? (message : PamMessage) : Option Payload :=
  if h : message.text.bytes.length + 4 ≤ maxPayload then
    some ⟨htonl message.style.toUInt32 ++ message.text.bytes, by
      rw [List.length_append, htonl_length]
      omega⟩
  else none

/-- What `relay_message` reads of a payload: a style, and a text up to its first
NUL. -/
def readStyle (payload : Bytes) : Int32 := (ntohl payload).toInt32

def readText (payload : Bytes) : Bytes := (payload.drop 4).takeWhile (· ≠ 0)

/-- What the module takes for a frame of the exchange. -/
def Packet.expectedByGuest : Packet → Bool
  | .frame type payload =>
      type == ready || (type == pamMessage && 4 ≤ payload.val.length) ||
        (type == result && payload.val.length == 4)
  | _ => false

def Packet.expectedByWorker : Packet → Bool
  | .frame type _ => type == pamResponse
  | _ => false

/-! ## State -/

/-- The call of the worker's `main` that is running. -/
inductive Phase where
  | authenticate
  | acctMgmt
  deriving DecidableEq

/-- A call of `worker_conversation`: its messages, what `resp` points to for those
that were answered, and the number of messages relayed before the call. -/
structure Conversation where
  first : Nat
  messages : List PamMessage
  values : List (Option Bytes) := []
  deriving DecidableEq

inductive Worker where
  | waiting
  | stack (phase : Phase)
  | conversing (phase : Phase) (conversation : Conversation)
  | exited
  deriving DecidableEq

/-- The loop of `pam_sm_authenticate`, waiting for a frame or in the guest's
conversation. -/
inductive Module where
  | receiving
  | conversing
  | returned (result : Int32)
  deriving DecidableEq

def Module.hasReturned : Module → Bool
  | .returned _ => true
  | _ => false

structure Exchange where
  toGuest : Channel Packet := {}
  toWorker : Channel Packet := {}
  worker : Worker := .waiting
  module : Module := .receiving
  /-- The messages that were relayed. -/
  asked : List PamMessage := []
  /-- Style and text of each call of the guest's conversation. -/
  shown : List (Int32 × Bytes) := []
  answered : List CString := []
  /-- The calls of `worker_conversation` that succeeded. -/
  results : List Conversation := []
  authenticated : Option Int32 := none
  accounted : Option Int32 := none
  cancelled : Bool := false

namespace Exchange

def guestAlive (s : Exchange) : Bool :=
  !s.toGuest.closed && !s.module.hasReturned

def workerAlive (s : Exchange) : Bool := !s.toWorker.closed && s.worker ≠ .exited

/-! ## The worker -/

def sendToGuest (s : Exchange) (type : UInt8) (payload : Payload) : Exchange :=
  if s.guestAlive then { s with toGuest := s.toGuest.send (.frame type payload) } else s

/-- The loop of `worker_conversation`, before it asks the next message. -/
def ask (s : Exchange) (phase : Phase) (c : Conversation) : Exchange :=
  match c.messages[c.values.length]? with
  | none => { s with worker := .stack phase, results := c :: s.results }
  | some message =>
      match message.payload? with
      | none => { s with worker := .stack phase }
      | some payload =>
          if s.guestAlive then
            { s with
              toGuest := s.toGuest.send (.frame pamMessage payload)
              worker := .conversing phase c
              asked := s.asked ++ [message] }
          else { s with worker := .stack phase }

/-- A module of the stack calls `worker_conversation`. -/
def converse (s : Exchange) (messages : List PamMessage) : Exchange :=
  match s.worker with
  | .stack phase =>
      if messages.length = 0 ∨ 32 < messages.length then s
      else s.ask phase { first := s.asked.length, messages }
  | _ => s

/-- `worker_conversation` has read a packet, or the end of the stream. -/
def workerReceive (s : Exchange) : Exchange :=
  match s.worker with
  | .conversing phase conversation =>
      match s.toWorker.flight with
      | [] =>
          if s.toWorker.closed || s.module.hasReturned then
            { s with worker := .stack phase }
          else s
      | packet :: _ =>
          let s := { s with toWorker := s.toWorker.read }
          match packet.received with
          | none => { s with worker := .stack phase }
          | some frame =>
              if frame.type ≠ pamResponse then { s with worker := .stack phase }
              else
                s.ask phase
                  { conversation with values := conversation.values ++ [frame.payload] }
  | _ => s

/-- The end of the worker's `main`. -/
def finish (s : Exchange) (value : Int32) : Exchange :=
  { s.sendToGuest result ⟨htonl value.toUInt32, htonl_le _⟩ with worker := .exited }

/-- `pam_authenticate` or `pam_acct_mgmt` returns. -/
def stackReturns (s : Exchange) (value : Int32) : Exchange :=
  match s.worker with
  | .stack .authenticate =>
      let s := { s with authenticated := some value }
      if value = pamSuccess then { s with worker := .stack .acctMgmt } else s.finish value
  | .stack .acctMgmt => { s with accounted := some value }.finish value
  | _ => s

/-- The service starts the worker; `value` is what `pam_start` returns. -/
def start (s : Exchange) (value : Int32) : Exchange :=
  match s.worker with
  | .waiting =>
      if value = pamSuccess then
        { s.sendToGuest ready ⟨[], Nat.zero_le _⟩ with worker := .stack .authenticate }
      else s.finish value
  | _ => s

/-- The service refuses the request. -/
def reject (s : Exchange) : Exchange :=
  match s.worker with
  | .waiting => { s.sendToGuest error ⟨[], Nat.zero_le _⟩ with worker := .exited }
  | _ => s

/-! ## The module -/

/-- `relay_message` has failed. -/
def giveUp (s : Exchange) (value : Int32) : Exchange :=
  { s with
    toWorker := if s.workerAlive then
        s.toWorker.send (.frame cancel ⟨[], Nat.zero_le _⟩) else s.toWorker
    module := .returned value
    cancelled := true }

def moduleFrame (s : Exchange) (frame : SpacesFrame) : Exchange :=
  let payload := frame.payload.getD []
  if frame.type = ready then s
  else if frame.type = pamMessage then
    if frame.size < 4 then s.giveUp pamConvErr
    else
      { s with
        module := .conversing
        shown := s.shown ++ [(readStyle payload, readText payload)] }
  else if frame.type = result ∧ frame.size = 4 then
    { s with module := .returned (ntohl payload).toInt32 }
  else
    { s with
      module := .returned (if frame.type = error then pamAuthinfoUnavail else pamSystemErr) }

def moduleReceive (s : Exchange) : Exchange :=
  match s.module with
  | .receiving =>
      match s.toGuest.flight with
      | [] =>
          if s.toGuest.closed || s.worker = .exited then
            { s with module := .returned pamAuthinfoUnavail }
          else s
      | packet :: _ =>
          let s := { s with toGuest := s.toGuest.read }
          match packet.received with
          | none => { s with module := .returned pamAuthinfoUnavail }
          | some frame => s.moduleFrame frame
  | _ => s

/-- What the guest's conversation does with a message: there is none, or it
returns a result and a response. -/
abbrev Guest := Option (Int32 × Option CString)

def emptyString : CString := ⟨[], List.not_mem_nil⟩

/-- The rest of `relay_message`. -/
def guest (s : Exchange) (conversation : Guest) : Exchange :=
  match s.module with
  | .conversing =>
      match conversation with
      | none => s.giveUp pamConvErr
      | some (value, response) =>
          if value ≠ pamSuccess then s.giveUp value
          else
            let answer := response.getD emptyString
            if h : answer.bytes.length ≤ maxPayload then
              if s.workerAlive then
                { s with
                  toWorker := s.toWorker.send (.frame pamResponse ⟨answer.bytes, h⟩)
                  module := .receiving
                  answered := s.answered ++ [answer] }
              else s.giveUp pamSystemErr
            else s.giveUp pamMaxtries
  | _ => s

/-! ## Faults -/

/-- An altered packet is not one that its reader expects. -/
inductive Input where
  | start (value : Int32)
  | reject
  | converse (messages : List PamMessage)
  | workerReceive
  | stackReturns (value : Int32)
  | moduleReceive
  | guest (conversation : Guest)
  /-- The connection is lost. -/
  | disconnect (keepGuest keepWorker : Nat) (stump : Stump)
  | alterToGuest (index : Nat) (packet : Packet)
  | alterToWorker (index : Nat) (packet : Packet)

def next (s : Exchange) : Input → Exchange
  | .start value => s.start value
  | .reject => s.reject
  | .converse messages => s.converse messages
  | .workerReceive => s.workerReceive
  | .stackReturns value => s.stackReturns value
  | .moduleReceive => s.moduleReceive
  | .guest conversation => s.guest conversation
  | .disconnect keepGuest keepWorker stump =>
      { s with
        toGuest := s.toGuest.cut keepGuest (.truncated stump)
        toWorker := s.toWorker.cut keepWorker (.truncated stump) }
  | .alterToGuest index packet =>
      if packet.expectedByGuest then s
      else { s with toGuest := s.toGuest.alter index packet }
  | .alterToWorker index packet =>
      if packet.expectedByWorker then s
      else { s with toWorker := s.toWorker.alter index packet }

end Exchange

/-! ## Packets and bytes

What a party reads of the packets in flight is what the decoder makes of their
bytes, however those are split. -/

theorem Packet.decode_bytes (packet : Packet) (hwhole : ∀ stump, packet ≠ .truncated stump)
    (tail : Bytes) :
    (decode (packet.bytes ++ tail)).1.map SpacesFrame.ofContent = packet.received ∧
      (decode (packet.bytes ++ tail)).2 = tail := by
  cases packet with
  | frame type payload =>
      rw [Packet.bytes, decode_encoded type payload.property tail]
      exact ⟨rfl, rfl⟩
  | malformed header =>
      rw [Packet.bytes, decode, List.take_left' header.length_eq,
        List.drop_left' header.length_eq, if_pos (.inr header.refused)]
      exact ⟨rfl, rfl⟩
  | truncated stump => exact absurd rfl (hwhole stump)

theorem Packet.decode_truncated (stump : Stump) :
    decode (Packet.truncated stump).bytes = (none, []) := by
  have hheader : (packHeader protocolMagic protocolVersion stump.type
      stump.payload.val.length).length = headerSize := rfl
  have hshort := stump.short
  have hmax := stump.payload.property
  rw [encoded, List.length_append, hheader] at hshort
  rw [Packet.bytes, decode]
  rcases Nat.lt_or_ge stump.count headerSize with hcount | hcount
  · rw [if_pos (.inl (by simp only [List.length_take]; omega)), List.drop_eq_nil_of_le]
    simp only [List.length_take]
    omega
  · have hsplit : (encoded stump.type stump.payload.val).take stump.count =
        packHeader protocolMagic protocolVersion stump.type stump.payload.val.length ++
          stump.payload.val.take (stump.count - headerSize) := by
      rw [encoded, List.take_append, List.take_of_length_le (by omega), hheader]
    have hsize : (ntohl (htonl (UInt32.ofNat stump.payload.val.length))).toNat =
        stump.payload.val.length := by
      have : maxPayload < 2 ^ 32 := by decide
      rw [ntohl_htonl, UInt32.toNat_ofNat']
      omega
    have hmagic : (packHeader protocolMagic protocolVersion stump.type
        stump.payload.val.length).take 4 = protocolMagic := rfl
    have hversion : (packHeader protocolMagic protocolVersion stump.type
        stump.payload.val.length).getD 4 0 = protocolVersion := rfl
    have hword : (packHeader protocolMagic protocolVersion stump.type
        stump.payload.val.length).drop 6 =
          htonl (UInt32.ofNat stump.payload.val.length) := rfl
    have hlong : ¬ (packHeader protocolMagic protocolVersion stump.type
        stump.payload.val.length ++
          stump.payload.val.take (stump.count - headerSize)).length < headerSize := by
      rw [List.length_append, hheader]
      omega
    rw [hsplit, List.take_left' hheader, List.drop_left' hheader]
    simp only [hmagic, hversion, hword, hsize, hlong, ne_eq, not_true_eq_false, false_or]
    rw [if_neg (by omega), if_neg (by simp only [List.length_take]; omega),
      List.drop_eq_nil_of_le]
    simp only [List.length_take]
    omega

end Spaces.Authentication
