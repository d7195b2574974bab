import Spaces.Mcp.Frontend

/-!
# One response for each request

What a connection owes its client: one response for a request, with the request's
id, none for a notification, one error for what is neither, and no tool before
`initialize` has succeeded, unless the request brings the metadata of the modern
protocol itself.

The server keeps to it as long as the documents stay clear of three things it does
differently. It takes `notifications/initialized` for the initialization itself
and for a notification even when it has an id. It takes a document for a
cancellation by its method alone. And it compares C strings, so that what follows
a NUL does not count.
-/

namespace Spaces.Mcp

open Spaces.Library Json

/-! ## What a document is -/

/-- A JSON-RPC message with a method. -/
def IsMessage (document : Json) : Prop :=
  getStr (document.get "jsonrpc") = some "2.0" ∧ (getStr (document.get "method")).isSome = true

structure Request (document id : Json) : Prop where
  message : IsMessage document
  hasId : document.get "id" = some id
  valid : isRequestId id = true

structure Notification (document : Json) : Prop where
  message : IsMessage document
  noId : document.get "id" = none

/-- The protocol metadata that a request may bring in place of `initialize`. -/
def Metadata (document : Json) : Prop :=
  let metadata := jsonMember (document.get "params") "_meta"
  getStr (jsonMember metadata protocolVersion) = some "2026-07-28" ∧
    (jsonMember metadata clientCapabilities).any isObj = true

/-- A cancellation of the request with that id. -/
def Cancels (document id : Json) : Prop :=
  getStr (document.get "method") = some "notifications/cancelled" ∧
    ∃ requestId, jsonMember (document.get "params") "requestId" = some requestId ∧
      requestId.equals id = true

def Cancelled (earlier : List Event) (id : Json) : Prop :=
  ∃ document, .received (some document) ∈ earlier ∧ Cancels document id

/-- An `initialize` that was answered with a result. -/
def Event.initializes : Event → Bool
  | .handled (some document) [reply] =>
      getStr (document.get "method") == some "initialize" && (reply.get "result").isSome
  | _ => false

/-! ## What is owed -/

/-- What an event of the connection may be after the events before it. -/
def Disciplined (earlier : List Event) : Event → Prop
  | .received _ => True
  | .executing document => earlier.any Event.initializes = true ∨ Metadata document
  | .handled line replies =>
      (∀ document id, line = some document → Request document id → ¬ Cancelled earlier id →
        ∃ reply, replies = [reply] ∧ reply.get "id" = some id) ∧
      (∀ document, line = some document → Notification document → replies = []) ∧
      ((∀ document, line = some document →
          ¬ Notification document ∧ ∀ id, ¬ Request document id) →
        ∃ reply, replies = [reply] ∧ (reply.get "error").isSome = true)

/-- The documents that were read and are not cancellations, in the order they were
read, and those that were handled, in the order they were handled. -/
def queuedLine : Event → Option (Option Json)
  | .received line => if Frontend.isCancellation line then none else some line
  | _ => none

def handledLine : Event → Option (Option Json)
  | .handled line _ => if Frontend.isCancellation line then none else some line
  | _ => none

/-- The document in work, if there is one. -/
def Frontend.work (s : Frontend) : List (Option Json) :=
  (s.active.map fun active => some active.document).toList

/-! ## The condition -/

/-- A document that the main thread understands as it is meant. -/
structure Understood (s : Frontend) (document : Json) : Prop where
  jsonrpc : jsonString (some document) "jsonrpc" = some "2.0" →
    getStr (document.get "jsonrpc") = some "2.0"
  beginning : jsonString (some document) "method" = some "initialize" →
    getStr (document.get "method") = some "initialize"
  version : jsonString (jsonMember (document.get "params") "_meta") protocolVersion =
      some "2026-07-28" →
    getStr (jsonMember (jsonMember (document.get "params") "_meta") protocolVersion) =
      some "2026-07-28"
  initialized : isInvalid document = false →
    jsonString (some document) "method" = some "notifications/initialized" →
    document.get "id" = none ∧ s.session.initialized = true

def Conforming (s : Frontend) : Frontend.Input → Prop
  | .line (some document) => Frontend.isCancellation (some document) = true →
      Notification document ∧
        getStr (document.get "method") = some "notifications/cancelled"
  | .serve => ∀ document requests, s.requests = some document :: requests →
      Understood s document
  | _ => True

/-! ## What `handle_request` does -/

theorem get_resultMember_id (o : Members) (key : String) (value : Json) (h : key ≠ "id") :
    (Json.obj (resultMember o key value)).get "id" = o.lookup "id" :=
  lookup_putMember_ne (Ne.symm h) value o

theorem replyTo_id (id : Option Json) : (replyTo id).lookup "id" = some (id.getD .null) :=
  lookup_putMember_self "id" _ _

theorem sendError_id (id : Option Json) (code : Int) (message : String) :
    (sendError id code message).get "id" = some (id.getD .null) :=
  (get_resultMember_id _ _ _ (by decide)).trans (replyTo_id id)

theorem sendError_error (id : Option Json) (code : Int) (message : String) :
    ((sendError id code message).get "error").isSome = true := by
  rw [sendError, show Json.get "error" (.obj (resultMember (replyTo id) "error"
    (rpcError code message))) = some (rpcError code message) from lookup_putMember_self ..]
  rfl

theorem sendResult_id (modern : Bool) (id : Json) (payload : Members) :
    (sendResult modern id payload).get "id" = some id :=
  (get_resultMember_id _ _ _ (by decide)).trans (replyTo_id (some id))

theorem sendResult_result (modern : Bool) (id : Json) (payload : Members) :
    ((sendResult modern id payload).get "result").isSome = true := by
  obtain ⟨value, hvalue⟩ : ∃ value, (sendResult modern id payload).get "result" = some value :=
    ⟨_, lookup_putMember_self ..⟩
  rw [hvalue]
  rfl

/-- The metadata of a request, as the server reads it. -/
def ReadsMetadata (parameters : Option Json) : Prop :=
  let metadata := jsonMember parameters "_meta"
  jsonString metadata protocolVersion = some "2026-07-28" ∧
    (jsonMember metadata clientCapabilities).any isObj = true

/-- How a request with an id goes on. -/
inductive Answers (s : Session) (id : Json) (method : String) (parameters : Option Json) :
    Session × Progress → Prop where
  | answered {session : Session} {reply : Json} :
      reply.get "id" = some id →
      (session.initialized = true → s.initialized = true ∨
        (method = "initialize" ∧ (reply.get "result").isSome = true)) →
      Answers s id method parameters (session, .finished [reply])
  | called {session : Session} {call : Call} :
      call.id = id → session.initialized = s.initialized →
      (s.initialized = true ∨ ReadsMetadata parameters) →
      Answers s id method parameters (session, .calling call)

theorem dispatchMethod_answers (noVision : Bool) {s : Session} (id : Json) (method : String)
    {parameters : Option Json} (hmodern : s.modern = true → ReadsMetadata parameters) :
    Answers s id method parameters (dispatchMethod noVision s id method parameters) := by
  rw [dispatchMethod]
  dsimp only
  split
  next hmethod =>
    split
    · exact .answered (sendResult_id ..) fun _ => .inr ⟨hmethod, sendResult_result ..⟩
    · exact .answered (sendError_id ..) .inl
  next =>
    split
    · exact .answered (sendResult_id ..) .inl
    · split
      · exact .answered (sendError_id ..) .inl
      next hready =>
        split
        · exact .answered (sendResult_id ..) .inl
        · split
          · refine .called rfl rfl ?_
            by_cases hinitialized : s.initialized = true
            · exact .inl hinitialized
            · exact .inr (hmodern (by simpa [hinitialized] using hready))
          · split
            · exact .answered (sendResult_id ..) .inl
            · exact .answered (sendError_id ..) .inl

/-- The session's `modern` is no part of what a request is owed. -/
theorem Answers.of_modern {s : Session} {id : Json} {method : String} {parameters : Option Json}
    {result : Session × Progress} {modern : Bool}
    (h : Answers { s with modern } id method parameters result) :
    Answers s id method parameters result := by
  cases h with
  | answered hid hinitialized => exact .answered hid hinitialized
  | called hid hsession hready => exact .called hid hsession hready

theorem answerRequest_answers (noVision : Bool) (s : Session) (id : Json) (method : String)
    (parameters : Option Json) :
    Answers s id method parameters (answerRequest noVision s id method parameters) := by
  rw [answerRequest]
  dsimp only
  split
  next =>
    split
    · exact .answered (sendError_id ..) .inl
    · exact (dispatchMethod_answers noVision id method fun h =>
        absurd h Bool.false_ne_true).of_modern
  next version hversion =>
    split
    · exact .answered (sendError_id ..) .inl
    next hsupported =>
      split
      · exact .answered (sendError_id ..) .inl
      next hcapabilities =>
        have hmetadata : ReadsMetadata parameters := by
          obtain rfl : version = "2026-07-28" := by simpa using hsupported
          exact ⟨hversion, by simpa using hcapabilities⟩
        exact (dispatchMethod_answers noVision id method fun _ => hmetadata).of_modern

inductive Handles (s : Session) (request : Json) : Session × Progress → Prop where
  | invalid : isInvalid request = true → Handles s request
      (s, .finished [sendError (request.get "id") (-32600) "Invalid JSON-RPC request"])
  | initialized : isInvalid request = false →
      jsonString (some request) "method" = some "notifications/initialized" →
      Handles s request ({ s with initialized := true }, .finished [])
  | notification : isInvalid request = false → request.get "id" = none →
      Handles s request (s, .finished [])
  | request {id : Json} {method : String} {result : Session × Progress} :
      isInvalid request = false → request.get "id" = some id →
      jsonString (some request) "method" = some method →
      Answers s id method (request.get "params") result → Handles s request result

theorem handleRequest_handles (noVision : Bool) (s : Session) (request : Json) :
    Handles s request (handleRequest noVision s request) := by
  rw [handleRequest]
  dsimp only
  split
  next hinvalid => exact .invalid hinvalid
  next hvalid =>
    have hfalse : isInvalid request = false := by simpa using hvalid
    obtain ⟨method, hmethod⟩ : ∃ method, jsonString (some request) "method" = some method := by
      have hsome : (jsonString (some request) "method").isNone = false := by
        simp only [isInvalid, Bool.or_eq_false_iff] at hfalse
        exact hfalse.1.2
      exact Option.isSome_iff_exists.mp (by simpa using hsome)
    rw [hmethod]
    split
    next hnotification =>
      refine .initialized hfalse (hmethod.trans ?_)
      exact congrArg some hnotification
    next =>
      split
      next hid => exact .notification hfalse hid
      next id hid => exact .request hfalse hid hmethod (answerRequest_answers ..)

/-! ## What the server's reading of a document says of it -/

theorem jsonString_eq {o : Option Json} {k text : String} (h : getStr (jsonMember o k) = some text)
    (hplain : Plain text) : jsonString o k = some text := by
  rw [jsonString, h]
  exact congrArg some (cString_plain hplain)

theorem getStr_isSome {o : Option Json} {k : String} (h : (jsonString o k).isNone = false) :
    (getStr (jsonMember o k)).isSome = true := by
  rw [jsonString] at h
  cases hstr : getStr (jsonMember o k) with
  | none => simp [hstr] at h
  | some text => rfl

theorem isObj_of_get {key : String} {value document : Json} (h : document.get key = some value) :
    document.isObj = true := by
  cases document with
  | obj members => rfl
  | null | bool | uint | sint | real | str | arr => cases h

theorem message_of_valid {document : Json} (h : isInvalid document = false)
    (hjsonrpc : jsonString (some document) "jsonrpc" = some "2.0" →
      getStr (document.get "jsonrpc") = some "2.0") : IsMessage document := by
  simp only [isInvalid, Bool.or_eq_false_iff] at h
  obtain ⟨⟨⟨-, hversion⟩, hmethod⟩, -⟩ := h
  exact ⟨hjsonrpc (by simpa using hversion), getStr_isSome hmethod⟩

theorem requestId_of_valid {document id : Json} (h : isInvalid document = false)
    (hid : document.get "id" = some id) : isRequestId id = true := by
  simp only [isInvalid, Bool.or_eq_false_iff] at h
  simpa [hid] using h.2

/-- What the server refuses is neither a request nor a notification. -/
theorem not_message_of_invalid {document : Json} (h : isInvalid document = true) :
    ¬ Notification document ∧ ∀ id, ¬ Request document id := by
  have hid : ∀ _ : IsMessage document, ∃ id, document.get "id" = some id ∧
      isRequestId id = false := by
    intro hmessage
    obtain ⟨hjsonrpc, hmethod⟩ := hmessage
    have hversion : jsonString (some document) "jsonrpc" = some "2.0" :=
      jsonString_eq hjsonrpc (by decide)
    have hobj : document.isObj = true := by
      cases hget : document.get "jsonrpc" with
      | none => simp [hget, getStr] at hjsonrpc
      | some value => exact isObj_of_get hget
    have hnamed : (jsonString (some document) "method").isNone = false := by
      obtain ⟨method, hget⟩ := Option.isSome_iff_exists.mp hmethod
      rw [jsonString, show jsonMember (some document) "method" = document.get "method" from rfl,
        hget]
      rfl
    simpa [isInvalid, hversion, hobj, hnamed, Option.any_eq_true] using h
  refine ⟨fun hnotification => ?_, fun id hrequest => ?_⟩
  · obtain ⟨id, hsome, -⟩ := hid hnotification.message
    rw [hnotification.noId] at hsome
    cases hsome
  · obtain ⟨id', hsome, hno⟩ := hid hrequest.message
    obtain rfl : id = id' := Option.some.inj (hrequest.hasId.symm.trans hsome)
    rw [hrequest.valid] at hno
    cases hno

theorem Understood.metadata {s : Frontend} {document : Json} (h : Understood s document)
    (hreads : ReadsMetadata (document.get "params")) : Metadata document :=
  ⟨h.version hreads.1, hreads.2⟩

/-- Ids that are written alike are the same id. -/
theorem equals_of_sameText {id requestId : Json} (hid : isRequestId id = true)
    (h : id.sameText requestId = true ∨ requestId.sameText id = true) :
    requestId.equals id = true := by
  cases id with
  | str text =>
      cases requestId with
      | str other =>
          have heq : text = other ∨ other = text := by simpa [sameText] using h
          simpa [equals] using heq.elim Eq.symm fun heq => heq
      | null | bool | uint | sint | real | arr | obj => simp [sameText] at h
  | uint n => cases requestId <;> simp_all [sameText, equals] <;> omega
  | sint z => cases requestId <;> simp_all [sameText, equals] <;> omega
  | null | bool | real | arr | obj => cases hid

/-! ## The invariant -/

theorem Cancelled.cons {trace : List Event} {id : Json} (h : Cancelled trace id) (event : Event) :
    Cancelled (event :: trace) id := by
  obtain ⟨document, hmem, hcancels⟩ := h
  exact ⟨document, List.mem_cons_of_mem _ hmem, hcancels⟩

theorem initializes_cons {trace : List Event} (h : trace.any Event.initializes = true)
    (event : Event) : (event :: trace).any Event.initializes = true := by
  simp [h]

structure Inv (s : Frontend) : Prop where
  disciplined : Always Disciplined s.trace
  initialized : s.session.initialized = true → s.trace.any Event.initializes = true
  cancelledIds : ∀ requestId ∈ s.cancelledIds, ∀ id, isRequestId id = true →
    requestId.equals id = true → Cancelled s.trace id
  active : ∀ active, s.active = some active → Request active.document active.call.id
  cancelled : ∀ active, s.active = some active → s.cancelled = true →
    Cancelled s.trace active.call.id
  queued : ∀ line ∈ s.work ++ s.requests, Frontend.isCancellation line = false
  lines : s.trace.reverse.filterMap queuedLine =
    s.trace.reverse.filterMap handledLine ++ s.work ++ s.requests

theorem inv_initial : Inv Frontend.initial := by
  refine ⟨.nil, ?_, ?_, ?_, ?_, ?_, ?_⟩ <;> simp [Frontend.initial, Frontend.work]

/-! ## One step -/

section

variable {s : Frontend}

theorem mem_cancel {s : Frontend} {id requestId : Json}
    (h : requestId ∈ (s.cancel id).cancelledIds) :
    requestId = id ∨ requestId ∈ s.cancelledIds := by
  rw [Frontend.cancel] at h
  dsimp only at h
  split at h
  · exact List.mem_cons.mp h
  · exact .inr h

theorem cancel_cancelled {s : Frontend} {id : Json} (h : (s.cancel id).cancelled = true) :
    s.cancelled = true ∨ ∃ active, s.active = some active ∧ id.sameText active.call.id = true := by
  rw [Frontend.cancel] at h
  dsimp only at h
  rw [Bool.or_eq_true] at h
  exact h.imp_right fun h => by simpa [Option.any_eq_true] using h

/-- A cancellation that is what it says is a notification, and gets no response. -/
theorem Inv.cancellation (h : Inv s) {document : Json}
    (hconforming : Notification document ∧
      getStr (document.get "method") = some "notifications/cancelled")
    (hline : Frontend.isCancellation (some document) = true) :
    Inv (s.readRequest (some document)) := by
  obtain ⟨hnotification, hmethod⟩ := hconforming
  have hreceived : Always Disciplined (.received (some document) :: s.trace) :=
    h.disciplined.cons trivial
  have hhandled : Disciplined (.received (some document) :: s.trace)
      (.handled (some document) []) := by
    refine ⟨fun d id hd hrequest _ => ?_, fun _ _ _ => rfl, fun hneither => ?_⟩
    · cases hd
      have hid := hrequest.hasId
      rw [hnotification.noId] at hid
      cases hid
    · exact ((hneither document rfl).1 hnotification).elim
  have htrace : ∀ {id : Json}, Cancelled s.trace id →
      Cancelled (.handled (some document) [] :: .received (some document) :: s.trace) id :=
    fun hid => (hid.cons _).cons _
  have hnamed : ∀ {id requestId : Json},
      jsonMember (document.get "params") "requestId" = some requestId →
      requestId.equals id = true →
      Cancelled (.handled (some document) [] :: .received (some document) :: s.trace) id := by
    intro id requestId hrequestId hequals
    refine Cancelled.cons ⟨document, List.mem_cons_self .., hmethod, requestId, hrequestId,
      hequals⟩ _
  have hlines : ∀ requests : List (Option Json), s.trace.reverse.filterMap queuedLine =
      s.trace.reverse.filterMap handledLine ++ s.work ++ requests →
      (Event.handled (some document) [] :: .received (some document) :: s.trace).reverse.filterMap
        queuedLine =
      (Event.handled (some document) [] :: .received (some document) :: s.trace).reverse.filterMap
        handledLine ++ s.work ++ requests := by
    intro requests hrequests
    simp only [List.reverse_cons, List.filterMap_append, List.filterMap_cons, List.filterMap_nil,
      queuedLine, handledLine, hline, if_true, List.append_nil]
    exact hrequests
  rw [Frontend.readRequest, if_pos hline]
  cases hrequestId : jsonMember (jsonMember (some document) "params") "requestId" with
  | none =>
      exact ⟨hreceived.cons hhandled, fun hs => initializes_cons (initializes_cons
        (h.initialized hs) _) _, fun requestId hmem id hid hequals =>
        htrace (h.cancelledIds requestId hmem id hid hequals), h.active,
        fun active hactive hcancelled => htrace (h.cancelled active hactive hcancelled),
        h.queued, hlines _ h.lines⟩
  | some requestId =>
      refine ⟨hreceived.cons hhandled, fun hs => initializes_cons (initializes_cons
        (h.initialized hs) _) _, fun other hmem id hid hequals => ?_, h.active,
        fun active hactive hcancelled => ?_, h.queued, hlines _ h.lines⟩
      · rcases mem_cancel hmem with rfl | hmem
        · exact hnamed hrequestId hequals
        · exact htrace (h.cancelledIds other hmem id hid hequals)
      · rcases cancel_cancelled hcancelled with hcancelled | ⟨active', hactive', hsame⟩
        · exact htrace (h.cancelled active hactive hcancelled)
        · obtain rfl : active = active' := Option.some.inj (hactive.symm.trans hactive')
          exact hnamed hrequestId (equals_of_sameText (h.active active hactive).valid (.inr hsame))

/-- Every other line waits for the main thread. -/
theorem Inv.queue (h : Inv s) {line : Option Json}
    (hline : Frontend.isCancellation line = false) : Inv (s.readRequest line) := by
  rw [Frontend.readRequest, if_neg (by simp [hline])]
  refine ⟨h.disciplined.cons trivial, fun hs => initializes_cons (h.initialized hs) _,
    fun requestId hmem id hid hequals => (h.cancelledIds requestId hmem id hid hequals).cons _,
    h.active, fun active hactive hcancelled => (h.cancelled active hactive hcancelled).cons _,
    fun other hmem => ?_, ?_⟩
  · rcases List.mem_append.mp hmem with hmem | hmem
    · exact h.queued other (List.mem_append_left _ hmem)
    · rcases List.mem_append.mp hmem with hmem | hmem
      · exact h.queued other (List.mem_append_right _ hmem)
      · obtain rfl := List.mem_singleton.mp hmem
        exact hline
  · simp [queuedLine, handledLine, hline, h.lines, Frontend.work]

/-- A line that is handled as soon as it is taken from the queue. -/
theorem Inv.answer (h : Inv s) (hactive : s.active = none) {line : Option Json}
    {requests : List (Option Json)} (hrequests : s.requests = line :: requests)
    {replies : List Json} (hhandled : Disciplined s.trace (.handled line replies))
    {session : Session}
    (hsession : session.initialized = true → s.session.initialized = true ∨
      Event.initializes (.handled line replies) = true) :
    Inv { s with requests, session, trace := .handled line replies :: s.trace } := by
  have hline : Frontend.isCancellation line = false :=
    h.queued line (List.mem_append_right _ (by simp [hrequests]))
  refine ⟨h.disciplined.cons hhandled, fun hs => ?_,
    fun requestId hmem id hid hequals => (h.cancelledIds requestId hmem id hid hequals).cons _,
    fun active hsome => h.active active hsome,
    fun active hsome hcancelled => (h.cancelled active hsome hcancelled).cons _,
    fun other hmem => h.queued other ?_, ?_⟩
  · rcases hsession hs with hs | hs
    · exact initializes_cons (h.initialized hs) _
    · simp [hs]
  · rcases List.mem_append.mp hmem with hmem | hmem
    · exact List.mem_append_left _ hmem
    · exact List.mem_append_right _ (by simpa [hrequests] using .inr hmem)
  · have hlines := h.lines
    simp only [Frontend.work, hactive, hrequests, Option.map_none, Option.toList_none,
      List.append_nil] at hlines
    simp only [Frontend.work, hactive, List.reverse_cons, List.filterMap_append,
      List.filterMap_cons, List.filterMap_nil, queuedLine, handledLine, hline, Option.map_none,
      Option.toList_none, List.append_nil]
    simpa using hlines

theorem Inv.malformed (h : Inv s) (hactive : s.active = none) {requests : List (Option Json)}
    (hrequests : s.requests = none :: requests) :
    Inv { s with requests, trace := .handled none [sendError none (-32700)
      Frontend.malformedMessage] :: s.trace } := by
  refine h.answer hactive hrequests ?_ .inl
  refine ⟨fun document id hnone => ?_, fun document hnone => ?_, fun _ => ?_⟩
  · cases hnone
  · cases hnone
  · exact ⟨_, rfl, sendError_error ..⟩

/-- A request that is answered or refused by one reply with its id. -/
theorem disciplined_reply {earlier : List Event} {document id reply : Json}
    (hrequest : Request document id) (hreply : reply.get "id" = some id) :
    Disciplined earlier (.handled (some document) [reply]) := by
  refine ⟨fun d id' hd hrequest' _ => ?_, fun d hd hnotification => ?_, fun hneither => ?_⟩
  · cases hd
    obtain rfl : id = id' := Option.some.inj (hrequest.hasId.symm.trans hrequest'.hasId)
    exact ⟨reply, rfl, hreply⟩
  · cases hd
    have hid := hrequest.hasId
    rw [hnotification.noId] at hid
    cases hid
  · exact ((hneither document rfl).2 id hrequest).elim

theorem disciplined_silence {earlier : List Event} {document : Json}
    (hnotification : Notification document) :
    Disciplined earlier (.handled (some document) []) := by
  refine ⟨fun d id hd hrequest _ => ?_, fun _ _ _ => rfl, fun hneither => ?_⟩
  · cases hd
    have hid := hrequest.hasId
    rw [hnotification.noId] at hid
    cases hid
  · exact ((hneither document rfl).1 hnotification).elim

/-- A call that is begun: it is in work, and a tool is executed for it only after
`initialize` or with the metadata in its place. -/
theorem Inv.call (h : Inv s) (hactive : s.active = none) {document : Json}
    {requests : List (Option Json)} (hrequests : s.requests = some document :: requests)
    {session : Session} {call : Call} (hrequest : Request document call.id)
    (hsession : session.initialized = true → s.session.initialized = true)
    (hready : s.session.initialized = true ∨ Metadata document) :
    Inv { s with
      requests
      session
      cancelled := s.cancelledIds.any (call.id.sameText ·)
      active := some ⟨document, call⟩
      trace := if call.executes then .executing document :: s.trace else s.trace } := by
  have hdisciplined : Always Disciplined (.executing document :: s.trace) :=
    h.disciplined.cons (hready.imp_left h.initialized)
  have hinitialized : session.initialized = true → s.trace.any Event.initializes = true :=
    fun hs => h.initialized (hsession hs)
  have hcancelled : s.cancelledIds.any (call.id.sameText ·) = true →
      Cancelled s.trace call.id := by
    intro hany
    obtain ⟨requestId, hmem, hsame⟩ := List.any_eq_true.mp hany
    exact h.cancelledIds requestId hmem call.id hrequest.valid
      (equals_of_sameText hrequest.valid (.inl hsame))
  have hqueued : ∀ line ∈ [some document] ++ requests, Frontend.isCancellation line = false :=
    fun line hmem => h.queued line (List.mem_append_right _ (by simpa [hrequests] using hmem))
  have hlines := h.lines
  simp only [Frontend.work, hactive, hrequests, Option.map_none, Option.toList_none,
    List.append_nil] at hlines
  cases hexecutes : call.executes with
  | false =>
      refine ⟨h.disciplined, hinitialized, h.cancelledIds, ?_, ?_, hqueued, ?_⟩
      · rintro active ⟨⟩
        exact hrequest
      · rintro active ⟨⟩
        exact hcancelled
      · simpa [Frontend.work] using hlines
  | true =>
      refine ⟨hdisciplined, fun hs => initializes_cons (hinitialized hs) _,
        fun requestId hmem id hid hequals => (h.cancelledIds requestId hmem id hid hequals).cons _,
        ?_, ?_, hqueued, ?_⟩
      · rintro active ⟨⟩
        exact hrequest
      · rintro active ⟨⟩
        exact fun hany => (hcancelled hany).cons _
      · simpa [Frontend.work, List.filterMap_cons, queuedLine, handledLine] using hlines

theorem Inv.serve (h : Inv s) (noVision : Bool)
    (hconforming : ∀ document requests, s.requests = some document :: requests →
      Understood s document) : Inv (s.serve noVision) := by
  rw [Frontend.serve]
  split
  · exact h
  · exact h
  next hactive hrequests => exact h.malformed hactive hrequests
  next document requests hactive hrequests =>
    have hunderstood := hconforming document requests hrequests
    have hhandles := handleRequest_handles noVision s.session document
    dsimp only
    split
    next session replies hresult =>
      rw [hresult] at hhandles
      cases hhandles with
      | invalid hinvalid =>
          refine h.answer hactive hrequests ?_ .inl
          have hneither := not_message_of_invalid hinvalid
          refine ⟨fun d id hd hrequest => ?_, fun d hd hnotification => ?_, fun _ => ?_⟩
          · cases hd
            exact (hneither.2 id hrequest).elim
          · cases hd
            exact (hneither.1 hnotification).elim
          · exact ⟨_, rfl, sendError_error ..⟩
      | initialized hvalid hmethod =>
          obtain ⟨hid, hinitialized⟩ := hunderstood.initialized hvalid hmethod
          have hmessage := message_of_valid hvalid hunderstood.jsonrpc
          exact h.answer hactive hrequests (disciplined_silence ⟨hmessage, hid⟩)
            fun _ => .inl hinitialized
      | notification hvalid hid =>
          have hmessage := message_of_valid hvalid hunderstood.jsonrpc
          exact h.answer hactive hrequests (disciplined_silence ⟨hmessage, hid⟩) .inl
      | request hvalid hid hmethod hanswers =>
          have hmessage := message_of_valid hvalid hunderstood.jsonrpc
          cases hanswers with
          | answered hreply hinitialized =>
              refine h.answer hactive hrequests (disciplined_reply
                ⟨hmessage, hid, requestId_of_valid hvalid hid⟩ hreply) fun hs => ?_
              refine (hinitialized hs).imp_right fun hbegun => ?_
              obtain ⟨rfl, hresult⟩ := hbegun
              simp [Event.initializes, hunderstood.beginning hmethod, hresult]
    next session call hresult =>
      rw [hresult] at hhandles
      cases hhandles with
      | request hvalid hid hmethod hanswers =>
          have hmessage := message_of_valid hvalid hunderstood.jsonrpc
          cases hanswers with
          | called hcall hsession hready =>
              rw [← hcall] at hid
              exact h.call hactive hrequests ⟨hmessage, hid, requestId_of_valid hvalid hid⟩
                (fun hs => hsession ▸ hs) (hready.imp_right hunderstood.metadata)

theorem Inv.finish (h : Inv s) (noVision : Bool) (outcome : Outcome) :
    Inv (s.finish noVision outcome) := by
  rw [Frontend.finish]
  split
  · exact h
  next document call hactive =>
    have hrequest : Request document call.id := h.active _ hactive
    have hline : Frontend.isCancellation (some document) = false :=
      h.queued _ (List.mem_append_left _ (by simp [Frontend.work, hactive]))
    have hhandled : Disciplined s.trace (.handled (some document)
        (if s.cancelled then [] else [sendResult s.session.modern call.id
          (callResult noVision call outcome)])) := by
      cases hcancelled : s.cancelled with
      | false => exact disciplined_reply hrequest (sendResult_id ..)
      | true =>
          refine ⟨fun d id hd hrequest' hnot => ?_, fun _ _ _ => rfl, fun hneither => ?_⟩
          · cases hd
            obtain rfl : call.id = id :=
              Option.some.inj (hrequest.hasId.symm.trans hrequest'.hasId)
            exact (hnot (h.cancelled _ hactive hcancelled)).elim
          · exact ((hneither document rfl).2 call.id hrequest).elim
    refine ⟨h.disciplined.cons hhandled, fun hs => initializes_cons (h.initialized hs) _,
      fun requestId hmem id hid hequals => ?_, (fun active hsome => nomatch hsome),
      (fun active hsome => nomatch hsome), fun other hmem => ?_, ?_⟩
    · exact (h.cancelledIds requestId (List.mem_filter.mp hmem).1 id hid hequals).cons _
    · exact h.queued other (List.mem_append_right _ (by simpa [Frontend.work] using hmem))
    · have hlines := h.lines
      simp only [Frontend.work, hactive, Option.map_some, Option.toList_some] at hlines
      simp only [Frontend.work, List.reverse_cons, List.filterMap_append, List.filterMap_cons,
        List.filterMap_nil, queuedLine, handledLine, hline, Option.map_none, Option.toList_none,
        List.append_nil]
      simpa using hlines

theorem Inv.step (h : Inv s) (noVision : Bool) {input : Frontend.Input}
    (hconforming : Conforming s input) : Inv (s.step noVision input) := by
  cases input with
  | line line =>
      cases hline : Frontend.isCancellation line with
      | false => exact h.queue hline
      | true =>
          cases line with
          | none => cases hline
          | some document => exact h.cancellation (hconforming hline) hline
  | serve => exact h.serve noVision hconforming
  | forwarded outcome => exact h.finish noVision outcome

end

/-! ## Runs -/

/-- In a run over conforming documents every document is handled in its turn, and
every event is one that the events before it allow. -/
theorem run_disciplined {noVision : Bool} {s : Frontend}
    (h : Guarded (Frontend.step noVision) Conforming Frontend.initial s) :
    Always Disciplined s.trace ∧
      s.trace.reverse.filterMap queuedLine =
        s.trace.reverse.filterMap handledLine ++ s.work ++ s.requests := by
  have hinv : Inv s := h.invariant inv_initial fun t input ht hok => ht.step noVision hok
  exact ⟨hinv.disciplined, hinv.lines⟩

def message (members : Members) : Json := .obj (("jsonrpc", .str "2.0") :: members)

def opening : Json := message [("id", .uint 1), ("method", .str "initialize"),
  ("params", .obj [("protocolVersion", .str "2025-11-25")])]

def initialized : Json := message [("method", .str "notifications/initialized")]

def statusCall : Json := message [("id", .uint 2), ("method", .str "tools/call"),
  ("params", .obj [("name", .str "status")])]

/-- A session of the older protocol: `initialize`, the notification after it, and a
call. -/
def olderSession : List Frontend.Input :=
  [.line (some opening), .serve, .line (some initialized), .serve, .line (some statusCall), .serve,
    .forwarded (.ok [("content", .arr [])])]

theorem understood_sample {s : Frontend} {document : Json}
    (h : document = opening ∨ document = initialized ∧ s.session.initialized = true ∨
      document = statusCall) : Understood s document := by
  rcases h with rfl | ⟨rfl, hsession⟩ | rfl
  · exact ⟨fun _ => rfl, fun _ => rfl, fun hversion => absurd hversion (by decide),
      fun _ hmethod => absurd hmethod (by decide)⟩
  · exact ⟨fun _ => rfl, fun hmethod => absurd hmethod (by decide),
      fun hversion => absurd hversion (by decide), fun _ _ => ⟨rfl, hsession⟩⟩
  · exact ⟨fun _ => rfl, fun hmethod => absurd hmethod (by decide),
      fun hversion => absurd hversion (by decide), fun _ hmethod => absurd hmethod (by decide)⟩

theorem run_disciplined_sample :
    Always Disciplined (olderSession.foldl (Frontend.step false) Frontend.initial).trace ∧
      ((olderSession.foldl (Frontend.step false) Frontend.initial).trace.filterMap
        handledLine).length = 3 := by
  refine ⟨(run_disciplined (Guarded.start.foldl ?_)).1, ?_⟩
  · refine ⟨fun h => absurd h (by decide), ?_, fun h => absurd h (by decide), ?_,
      fun h => absurd h (by decide), ?_, trivial, trivial⟩
    · intro document requests hrequests
      obtain rfl : opening = document := Option.some.inj (List.head_eq_of_cons_eq hrequests)
      exact understood_sample (.inl rfl)
    · intro document requests hrequests
      obtain rfl : initialized = document := Option.some.inj (List.head_eq_of_cons_eq hrequests)
      exact understood_sample (.inr (.inl ⟨rfl, rfl⟩))
    · intro document requests hrequests
      obtain rfl : statusCall = document := Option.some.inj (List.head_eq_of_cons_eq hrequests)
      exact understood_sample (.inr (.inr rfl))
  · decide +kernel

theorem serve_executing {noVision : Bool} {s : Frontend} {document : Json}
    {requests : List (Option Json)} {session : Session} {call : Call} (hactive : s.active = none)
    (hrequests : s.requests = some document :: requests)
    (hcall : handleRequest noVision s.session document = (session, .calling call))
    (hexecutes : call.executes = true) :
    (s.serve noVision).trace = .executing document :: s.trace := by
  simp [Frontend.serve, hactive, hrequests, hcall, hexecutes]

/-- A tool is executed for a connection that was never initialized, a request is
left without a response, and a document that is no message is passed over. -/
theorem undisciplined_runs :
    (∃ s, Reachable (Frontend.step false) Frontend.initial s ∧ ∃ document earlier,
      s.trace = .executing document :: earlier ∧
        earlier.any Event.initializes = false ∧ ¬ Metadata document) ∧
    (∃ s, Reachable (Frontend.step false) Frontend.initial s ∧ ∃ document earlier id,
      s.trace = .handled (some document) [] :: earlier ∧
        Request document id ∧ ¬ Cancelled earlier id) ∧
    (∃ s, Reachable (Frontend.step false) Frontend.initial s ∧ ∃ document earlier,
      s.trace = .handled (some document) [] :: earlier ∧
        ¬ Notification document ∧ ∀ id, ¬ Request document id) := by
  refine ⟨?_, ?_, ?_⟩
  · let opening := message [("method", .str "notifications/initialized")]
    let call := message [("id", .uint 1), ("method", .str "tools/call"),
      ("params", .obj [("name", .str "status")])]
    let waiting : Frontend := [.line (some opening), .serve, .line (some call)].foldl
      (Frontend.step false) Frontend.initial
    have hcall : handleRequest false waiting.session call =
        (⟨false, true⟩, .calling (beginCall false (.uint 1) (call.get "params") [])) := rfl
    have hexecutes : (beginCall false (.uint 1) (call.get "params") []).executes = true := by
      decide +kernel
    have htrace : (waiting.step false .serve).trace = .executing call :: waiting.trace :=
      serve_executing rfl rfl hcall hexecutes
    refine ⟨_, .step (Guarded.run _ _) trivial, call, _, htrace, rfl, fun hmetadata => ?_⟩
    exact absurd hmetadata.1 (by decide)
  · let request := message [("id", .uint 7), ("method", .str "notifications/initialized")]
    refine ⟨_, Guarded.run [.line (some request), .serve] _, request, _, .uint 7, rfl,
      ⟨⟨rfl, rfl⟩, rfl, rfl⟩, ?_⟩
    rintro ⟨document, hmem, hmethod, -⟩
    obtain rfl : document = request := by
      rcases hmem with _ | ⟨_, hmem⟩
      · rfl
      · cases hmem
    exact absurd hmethod (by decide)
  · let document := Json.obj [("method", .str "notifications/cancelled")]
    refine ⟨_, Guarded.run [.line (some document)] _, document, _, rfl,
      fun hnotification => ?_, fun id hrequest => ?_⟩
    · exact absurd hnotification.message.1 (by decide)
    · exact absurd hrequest.message.1 (by decide)

end Spaces.Mcp
