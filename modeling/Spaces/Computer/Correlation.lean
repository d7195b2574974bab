import Spaces.Computer.Hop
import Spaces.Library.Framing

/-!
# Whose reply a call returns

A connection carries one call at a time. When `forward_tool` has returned a
result, its connection is quiet: nothing of the call is left in either stream, in
the host's queue or in its buffers, so that the next call finds it as if it were
new. When it returns without one it closes the connection, and what the host
still makes of the call goes nowhere. That is the invariant (`Quiet`,
`Underway`): the reply that a call reads is the one the host gave to the line
that the call sent.

A call that is forwarded ends with the host's answer under its own id, with
`computer_use_disconnected`, or because the tick stopped it. The last is no
disconnection: the failure recorded first is the one reported.
-/

namespace Spaces.Computer

open Spaces.Library Json Spaces.Mcp Framing

/-- A dialogue in which every line that was heard was begun and answered before
the next one was heard. -/
inductive Settled : List Said → Prop where
  | nil : Settled []
  | cons {dialogue : List Said} {document : Option Json} {reply : Json} : Settled dialogue →
      Settled (.answered reply :: .began document :: .heard document :: dialogue)

/-- What the host reads of a request. -/
def Codec.heard (codec : Codec) (request : Json) : Option Json :=
  if Hop.maxRequest < (codec.write request).length then none
  else codec.read (codec.write request)

namespace Hop

/-- The result is that of the host's answer to the line of the call that is being
forwarded: the last thing said on the connection, after the host had heard this
line and begun with it, and before all of which every other line was settled. -/
structure IsAnswer (codec : Codec) (s : Hop) (call : Call) (forwarding : Forwarding)
    (number client : Nat) (reply : Json) (result : Members) : Prop where
  connected : s.hostFd = some number
  accepted : (s.connections number).serial = some client
  settled : Settled forwarding.before
  said : (s.host.view client).dialogue =
    .answered reply :: .began (codec.heard (request call)) ::
      .heard (codec.heard (request call)) :: forwarding.before
  own : ∃ id, jsonMember (codec.read (codec.message reply)) "id" = some id ∧
    id.equals call.id = true
  result : jsonMember (codec.read (codec.message reply)) "result" = some (.obj result)

/-- The call that is in `forward_tool`. -/
def Forwards (s : Hop) (call : Call) : Prop :=
  call.failure = none ∧ ∃ active ∈ s.frontend.active, active.call = call

/-- What `forward_tool` may return for a call in any state of the two servers,
whatever the next round brings. `reported` is what the failure of a call that was
being forwarded may be. -/
structure Correlated (codec : Codec) (reported : Hop → Round → Failure → Prop) (s : Hop) :
    Prop where
  answered : ∀ call round result, s.Forwards call →
    (s.forwardTool codec call round).2 = some (.ok result) →
    ∃ forwarding number client reply, s.forwarding = some forwarding ∧
      s.IsAnswer codec call forwarding number client reply result
  ended : ∀ call round failure, s.Forwards call → s.forwarding.isSome = true →
    (s.forwardTool codec call round).2 = some (.error failure) → reported s round failure
  abandoned : ∀ call round failure, s.Forwards call → s.forwarding.isSome = true →
    (s.forwardTool codec call round).2 = some (.error failure) →
    (s.forwardTool codec call round).1.hostFd = none
  stopped : ∀ call round, s.Forwards call → s.forwarding.isSome = true →
    (s.tick round).isSome = true → (s.forwardTool codec call round).2.isSome = true

/-- The host service disconnected. -/
def ReportsDisconnection (_ : Hop) (_ : Round) (failure : Failure) : Prop :=
  failure = disconnectedFailure

/-- It did, or the tick stopped the call. -/
def ReportsEnd (s : Hop) (round : Round) (failure : Failure) : Prop :=
  failure = disconnectedFailure ∨ s.tick round = some failure

/-! ## What is left of a call on its connection -/

/-- What is to be read on a connection. -/
def coming (connection : Connection) : Bytes := connection.toSpace ++ connection.output

/-- Nothing is left of any call. -/
structure Quiet (connection : Connection) (view : View) : Prop where
  toHost : connection.toHost = []
  input : connection.input = []
  oversized : connection.oversized = false
  coming : coming connection = []
  waiting : view.waiting = []
  busy : view.busy = false
  settled : Settled view.dialogue
  posted : connection.posted = (replies view.dialogue).length

/-- How far the host is with a line, and the reply that it has given. -/
inductive Progress (before : List Said) (document : Option Json) : View → Option Json → Prop where
  /-- Not heard, or not queued. -/
  | unheard : Progress before document ⟨[], false, before⟩ none
  | waiting : Progress before document ⟨[document], false, .heard document :: before⟩ none
  /-- The client was gone when its turn came. -/
  | dropped : Progress before document ⟨[], false, .heard document :: before⟩ none
  | busy : Progress before document
      ⟨[], true, .began document :: .heard document :: before⟩ none
  | silenced : Progress before document
      ⟨[], false, .began document :: .heard document :: before⟩ none
  | answered {reply : Json} : Progress before document
      ⟨[], false, .answered reply :: .began document :: .heard document :: before⟩ (some reply)

/-- The host has not had all of the line. -/
structure Sending (forwarding : Forwarding) (connection : Connection) (view : View) : Prop where
  stream : ∃ got, got ++ connection.toHost = forwarding.line.take forwarding.offset ∧
    newline ∉ got ∧ Kept maxRequest got connection.input connection.oversized
  view : view = ⟨[], false, forwarding.before⟩
  response : forwarding.response = []
  coming : coming connection = []
  posted : connection.posted = (replies forwarding.before).length

/-- The host has had all of the line. -/
structure Sent (codec : Codec) (forwarding : Forwarding) (document : Option Json)
    (connection : Connection) (view : View) : Prop where
  toHost : connection.toHost = []
  input : connection.input = []
  oversized : connection.oversized = false
  offset : forwarding.line.length ≤ forwarding.offset
  progress : ∃ reply, Progress forwarding.before document view reply ∧
    ((connection.posted = (replies forwarding.before).length ∧
        forwarding.response ++ coming connection = []) ∨
      ∃ answer ∈ reply, connection.posted = (replies forwarding.before).length + 1 ∧
        forwarding.response ++ coming connection = codec.message answer)

/-- A call is on its way, and nothing else. -/
structure Underway (codec : Codec) (request : Json) (forwarding : Forwarding)
    (connection : Connection) (view : View) : Prop where
  line : forwarding.line = codec.message request
  settled : Settled forwarding.before
  stage : Sending forwarding connection view ∨
    Sent codec forwarding (codec.heard request) connection view

/-! ## The host goes on -/

variable {connection : Connection} {view view' : View} {before : List Said}
  {document : Option Json} {forwarding : Forwarding}

theorem Progress.served {reply : Option Json} (h : Progress before document view reply)
    (hserved : View.Served view view') :
    ∃ reply', Progress before document view' reply' ∧ ∀ answer ∈ reply, answer ∈ reply' := by
  cases h with
  | unheard =>
      cases hserved with
      | same => exact ⟨none, .unheard, nofun⟩
  | waiting =>
      cases hserved with
      | same => exact ⟨none, .waiting, nofun⟩
      | dropped => exact ⟨none, .dropped, nofun⟩
      | began => exact ⟨none, .busy, nofun⟩
      | answered => exact ⟨_, .answered, nofun⟩
      | passed => exact ⟨none, .silenced, nofun⟩
  | dropped =>
      cases hserved with
      | same => exact ⟨none, .dropped, nofun⟩
  | busy =>
      cases hserved with
      | same => exact ⟨none, .busy, nofun⟩
      | finished => exact ⟨_, .answered, nofun⟩
      | silenced => exact ⟨none, .silenced, nofun⟩
  | silenced =>
      cases hserved with
      | same => exact ⟨none, .silenced, nofun⟩
  | answered =>
      cases hserved with
      | same => exact ⟨_, .answered, fun _ h => h⟩

theorem Quiet.served (h : Quiet connection view) (hserved : View.Served view view') :
    Quiet connection view' := by
  have hview : view = ⟨[], false, view.dialogue⟩ := by
    rw [View.eq_of_busy h.busy, h.waiting]
  rw [hview] at hserved h
  cases hserved
  exact h

theorem Underway.served {codec : Codec} {request : Json}
    (h : Underway codec request forwarding connection view) (hserved : View.Served view view') :
    Underway codec request forwarding connection view' := by
  refine { h with stage := ?_ }
  rcases h.stage with hsending | hsent
  · have hview := hsending.view
    subst hview
    cases hserved
    exact .inl hsending
  · right
    obtain ⟨reply, hprogress, hbytes⟩ := hsent.progress
    obtain ⟨reply', hprogress', hreply⟩ := hprogress.served hserved
    refine { hsent with progress := ⟨reply', hprogress', hbytes.imp_right ?_⟩ }
    rintro ⟨answer, hanswer, hrest⟩
    exact ⟨answer, hreply answer hanswer, hrest⟩

/-! ## The invariant -/

/-- The connection of the server carries the call that is being forwarded, or
nothing. -/
structure Carries (codec : Codec) (s : Hop) (number : Nat) : Prop where
  opened : number < s.opened
  quiet : s.forwarding = none → Quiet (s.connections number) (s.host.viewOf (s.connections number))
  underway : ∀ forwarding ∈ s.forwarding, ∃ call, s.Forwards call ∧
    Underway codec (request call) forwarding (s.connections number)
      (s.host.viewOf (s.connections number))

structure Consistent (codec : Codec) (s : Hop) : Prop where
  numbered : s.host.Numbered
  known : ∀ number, ∀ client ∈ (s.connections number).serial,
    number < s.opened ∧ client ≤ s.host.serial
  distinct : ∀ i j, ∀ client ∈ (s.connections i).serial, client ∈ (s.connections j).serial → i = j
  current : ∀ number ∈ s.hostFd, s.Carries codec number
  idle : s.hostFd = none → s.forwarding = none

variable {codec : Codec} {s : Hop}

theorem consistent_initial (testPath : Bool) : Consistent codec (initial testPath) where
  numbered := Host.numbered_initial testPath
  known := nofun
  distinct := nofun
  current := nofun
  idle _ := rfl

/-- The server's own threads go on, with the call that is being forwarded. -/
theorem Consistent.frontend (h : Consistent codec s) {frontend : Frontend}
    (hactive : s.forwarding ≠ none → ∀ active ∈ s.frontend.active, active ∈ frontend.active)
    (stopping : Bool) :
    Consistent codec { s with frontend, stopping } where
  numbered := h.numbered
  known := h.known
  distinct := h.distinct
  current number hnumber :=
    { opened := (h.current number hnumber).opened
      quiet := (h.current number hnumber).quiet
      underway := by
        intro forwarding hforwarding
        obtain ⟨call, ⟨hfailure, active, hmem, hcall⟩, hunderway⟩ :=
          (h.current number hnumber).underway forwarding hforwarding
        have hsome : s.forwarding ≠ none := Option.ne_none_iff_exists'.mpr ⟨_, hforwarding⟩
        exact ⟨call, ⟨hfailure, active, hactive hsome active hmem, hcall⟩, hunderway⟩ }
  idle := h.idle

/-- The connection is given up, and the call with it. -/
theorem Consistent.invalidated (h : Consistent codec s) (disconnected : Bool) :
    Consistent codec { s.invalidate with disconnected, forwarding := none } where
  numbered := h.numbered
  known := h.known
  distinct := h.distinct
  current := nofun
  idle _ := rfl

/-- What is on a connection stays what it is for a call, or for no call. -/
structure Keeps (codec : Codec) (connection connection' : Connection) (view view' : View) :
    Prop where
  quiet : Quiet connection view → Quiet connection' view'
  underway : ∀ request forwarding, Underway codec request forwarding connection view →
    Underway codec request forwarding connection' view'

theorem Keeps.of_served (hserved : View.Served view view') :
    Keeps codec connection connection view view' where
  quiet h := h.served hserved
  underway _ _ h := h.served hserved

theorem viewOf_accepted {host : Host} {client : Nat} (h : connection.serial = some client) :
    host.viewOf connection = host.view client := by
  rw [Host.viewOf, h]

/-- A connection that is not accepted is none of the host's. -/
theorem served_viewOf {host host' : Host}
    (hserved : ∀ client ∈ connection.serial,
      View.Served (host.view client) (host'.view client)) :
    View.Served (host.viewOf connection) (host'.viewOf connection) := by
  cases hserial : connection.serial with
  | none =>
      rw [Host.viewOf, Host.viewOf, hserial]
      exact .same
  | some client =>
      rw [viewOf_accepted hserial, viewOf_accepted hserial]
      exact hserved client hserial

theorem Carries.keeps {number : Nat} (h : s.Carries codec number) {host : Host}
    {connections : Nat → Connection}
    (hkeeps : Keeps codec (s.connections number) (connections number)
      (s.host.viewOf (s.connections number)) (host.viewOf (connections number))) :
    Carries codec { s with host, connections } number where
  opened := h.opened
  quiet hnone := hkeeps.quiet (h.quiet hnone)
  underway forwarding hforwarding := by
    obtain ⟨call, hcall, hunderway⟩ := h.underway forwarding hforwarding
    exact ⟨call, hcall, hkeeps.underway _ _ hunderway⟩

/-- The host goes on. -/
theorem Consistent.host (h : Consistent codec s) {host : Host} {connections : Nat → Connection}
    (hnumbered : host.Numbered) (hle : s.host.serial ≤ host.serial)
    (hserial : ∀ number, (connections number).serial = (s.connections number).serial)
    (hkeeps : ∀ number, Keeps codec (s.connections number) (connections number)
      (s.host.viewOf (s.connections number)) (host.viewOf (connections number))) :
    Consistent codec { s with host, connections } where
  numbered := hnumbered
  known number client hclient :=
    (h.known number client (hserial number ▸ hclient)).imp_right hle.trans'
  distinct i j client hi hj := h.distinct i j client (hserial i ▸ hi) (hserial j ▸ hj)
  current number hnumber := (h.current number hnumber).keeps (hkeeps number)
  idle := h.idle

theorem serial_setConnection {number : Nat}
    (hserial : connection.serial = (s.connections number).serial) (other : Nat) :
    ((s.setConnection number connection).connections other).serial
      = (s.connections other).serial := by
  simp only [Hop.setConnection]
  by_cases hother : other = number
  · subst hother
    rw [Function.update_self]
    exact hserial
  · rw [Function.update_of_ne hother]

/-- The host goes on, with one connection of the server. -/
theorem Consistent.update (h : Consistent codec s) {host : Host} {number : Nat}
    (hnumbered : host.Numbered) (hle : s.host.serial ≤ host.serial)
    (hserial : connection.serial = (s.connections number).serial)
    (hkeeps : Keeps codec (s.connections number) connection
      (s.host.viewOf (s.connections number)) (host.viewOf connection))
    (hothers : ∀ other, other ≠ number → ∀ client ∈ (s.connections other).serial,
      View.Served (s.host.view client) (host.view client)) :
    Consistent codec (setConnection { s with host } number connection) := by
  refine h.host hnumbered hle (serial_setConnection hserial) ?_
  intro other
  by_cases hother : other = number
  · subst hother
    rw [Function.update_self]
    exact hkeeps
  · rw [Function.update_of_ne hother]
    exact .of_served (served_viewOf (hothers other hother))

/-- A connection of the server, and nothing of the host. -/
theorem Consistent.setConnection (h : Consistent codec s) {number : Nat}
    (hserial : connection.serial = (s.connections number).serial)
    (hkeeps : Keeps codec (s.connections number) connection
      (s.host.viewOf (s.connections number)) (s.host.viewOf connection)) :
    Consistent codec (s.setConnection number connection) :=
  h.update h.numbered (Nat.le_refl _) hserial hkeeps fun _ _ _ _ => .same

/-! ## The host hears -/

/-- Any byte of the line but the last. -/
theorem Underway.hears {request : Json} {byte : UInt8} {toHost input : Bytes} {oversized : Bool}
    (h : Underway codec request forwarding connection view)
    (hbyte : connection.toHost = byte :: toHost) (hne : byte ≠ newline)
    (hkept : ∀ got, Kept maxRequest got connection.input connection.oversized →
      Kept maxRequest (got ++ [byte]) input oversized) :
    Underway codec request forwarding { connection with toHost, input, oversized } view := by
  refine { h with stage := ?_ }
  rcases h.stage with hsending | hsent
  · left
    obtain ⟨got, hstream, hgot, hinput⟩ := hsending.stream
    refine { hsending with stream := ⟨got ++ [byte], ?_, ?_, hkept got hinput⟩ }
    · rw [← hstream, hbyte, List.append_assoc, List.singleton_append]
    · intro hmem
      rcases List.mem_append.mp hmem with hold | hnew
      · exact hgot hold
      · exact hne (List.mem_singleton.mp hnew).symm
  · have hnil := hsent.toHost
    rw [hbyte] at hnil
    cases hnil

/-- The newline: the line is queued, or it is not. -/
theorem Underway.hears_newline {request : Json} {toHost : Bytes}
    (h : Underway codec request forwarding connection view)
    (hbyte : connection.toHost = newline :: toHost)
    (hview : view' = view ∨ view' =
      { view with
        waiting := view.waiting ++
          [if connection.oversized then none else codec.read connection.input]
        dialogue := .heard (if connection.oversized then none else codec.read connection.input)
          :: view.dialogue }) :
    Underway codec request forwarding
      { connection with toHost, input := [], oversized := false } view' := by
  refine { h with stage := ?_ }
  rcases h.stage with hsending | hsent
  · right
    obtain ⟨got, hstream, -, hinput⟩ := hsending.stream
    rw [hbyte, h.line] at hstream
    obtain ⟨rfl, rfl, hoffset⟩ := message_ends (codec.write_line request) hstream
    have hheard : (if connection.oversized then none else codec.read connection.input)
        = codec.heard request := by
      unfold Codec.heard
      have hoversized := hinput.oversized_eq
      by_cases hfits : maxRequest < (codec.write request).length
      · rw [if_pos hfits, if_pos (hoversized.trans (decide_eq_true hfits))]
      · have hfalse : connection.oversized = false := hoversized.trans (decide_eq_false hfits)
        rw [if_neg hfits, hfalse, hinput.whole hfalse]
        rfl
    refine ⟨rfl, rfl, rfl, ?_, none, ?_, .inl ⟨hsending.posted, ?_⟩⟩
    · rw [h.line, Codec.message, List.length_append, List.length_singleton]
      exact hoffset
    · rw [hheard, hsending.view] at hview
      rcases hview with rfl | rfl
      · exact .unheard
      · exact .waiting
    · rw [hsending.response]
      exact hsending.coming
  · have hnil := hsent.toHost
    rw [hbyte] at hnil
    cases hnil

theorem Consistent.hear (h : Consistent codec s) (number : Nat) :
    Consistent codec (s.hear codec number) := by
  unfold Hop.hear
  dsimp only
  split
  swap
  · exact h
  rename_i client byte toHost hserial hbyte
  have hbusy : ∀ view, ¬ Quiet (s.connections number) view := by
    intro view hquiet
    rw [hquiet.toHost] at hbyte
    cases hbyte
  split
  · exact h
  split
  · rename_i heq
    subst heq
    refine h.update (h.numbered.line client _) ?_ rfl ⟨fun hq => absurd hq (hbusy _), ?_⟩ ?_
    · exact (congrArg Prod.snd (Host.roster_line client _)).ge
    · intro request forwarding hunderway
      refine hunderway.hears_newline hbyte ?_
      simp only [Host.viewOf, hserial]
      exact Host.view_line _
    · intro other hother client' hclient'
      have hne : client ≠ client' := by
        rintro rfl
        exact hother (h.distinct other number client hclient' hserial)
      rw [Host.view_line_of_ne hne]
      exact .same
  · rename_i hne
    split
    · rename_i hroom
      refine h.setConnection rfl ⟨fun hq => absurd hq (hbusy _), ?_⟩
      intro request forwarding hunderway
      exact hunderway.hears hbyte hne fun got hkept => hkept.push hroom byte
    · rename_i hroom
      refine h.setConnection rfl ⟨fun hq => absurd hq (hbusy _), ?_⟩
      intro request forwarding hunderway
      exact hunderway.hears hbyte hne fun got hkept => hkept.overflow hroom byte

/-! ## The host answers -/

theorem Progress.replies {reply : Option Json} (h : Progress before document view reply) :
    replies view.dialogue = replies before ++ reply.toList := by
  cases h with
  | answered => simp [Hop.replies, List.filterMap_cons, Said.reply?]
  | _ => simp [Hop.replies, List.filterMap_cons, Said.reply?]

/-- The next reply is put on the connection. -/
theorem Underway.posts {request reply : Json}
    (h : Underway codec request forwarding connection view)
    (hreply : (replies view.dialogue)[connection.posted]? = some reply) :
    Underway codec request forwarding
      { connection with
        posted := connection.posted + 1
        output := connection.output ++ codec.message reply } view := by
  refine { h with stage := ?_ }
  rcases h.stage with hsending | hsent
  · rw [hsending.view, hsending.posted, List.getElem?_eq_none (Nat.le_refl _)] at hreply
    cases hreply
  · right
    obtain ⟨answer, hprogress, ⟨hposted, hnone⟩ | ⟨answer', hanswer, hposted, -⟩⟩ :=
      hsent.progress
    · rw [hprogress.replies, hposted, List.getElem?_append_right (Nat.le_refl _),
        Nat.sub_self] at hreply
      have hanswer : reply ∈ answer := by
        cases answer with
        | none => cases hreply
        | some answer => exact hreply
      refine { hsent with progress := ⟨answer, hprogress, .inr ⟨reply, hanswer, ?_, ?_⟩⟩ }
      · rw [hposted]
      · obtain ⟨hresponse, hcoming⟩ := List.append_eq_nil_iff.mp hnone
        obtain ⟨htoSpace, houtput⟩ := List.append_eq_nil_iff.mp hcoming
        simp [coming, hresponse, htoSpace, houtput]
    · cases hanswer
      rw [hprogress.replies, hposted, List.getElem?_eq_none (by simp)] at hreply
      cases hreply

theorem Consistent.post (h : Consistent codec s) (number : Nat) :
    Consistent codec (s.post codec number) := by
  unfold Hop.post
  dsimp only
  split
  swap
  · exact h
  rename_i client reply hserial hreply
  split
  · exact h
  split
  · refine h.host (h.numbered.step (.hangup client)) (Host.serial_le_step (.hangup client))
      (fun _ => rfl) ?_
    intro other
    refine .of_served (served_viewOf fun client' _ => ?_)
    rw [Host.view_clientClose]
    exact .same
  · refine h.setConnection rfl ⟨?_, ?_⟩
    · intro hquiet
      rw [hquiet.posted, List.getElem?_eq_none (Nat.le_refl _)] at hreply
      cases hreply
    · intro request forwarding hunderway
      exact hunderway.posts hreply

/-- Bytes move on, and none is lost. -/
theorem Keeps.of_coming {sent : Nat} {output toSpace : Bytes}
    (h : toSpace ++ output = coming connection) :
    Keeps codec connection { connection with sent, output, toSpace } view view where
  quiet hquiet := { hquiet with coming := h.trans hquiet.coming }
  underway request forwarding hunderway := by
    refine { hunderway with stage := ?_ }
    rcases hunderway.stage with hsending | hsent
    · exact .inl { hsending with coming := h.trans hsending.coming }
    · refine .inr { hsent with progress := ?_ }
      rw [coming, h]
      exact hsent.progress

theorem Consistent.write (h : Consistent codec s) (number count : Nat) :
    Consistent codec (s.write number count) := by
  unfold Hop.write
  dsimp only
  split
  · refine h.setConnection rfl (.of_coming ?_)
    rw [List.append_assoc, List.take_append_drop]
    rfl
  · exact h

/-! ## The host accepts -/

/-- A new number of the host's, or none: nothing has been said with either. -/
theorem Keeps.of_number {serial : Option Nat} {refused : Bool} (hview : view' = view) :
    Keeps codec connection { connection with serial, refused } view view' := by
  subst hview
  constructor
  · exact fun hquiet => { hquiet with }
  · intro request forwarding hunderway
    refine { hunderway with stage := ?_ }
    rcases hunderway.stage with hsending | hsent
    · exact .inl { hsending with }
    · exact .inr { hsent with }

theorem Consistent.refuse (h : Consistent codec s) (number : Nat) :
    Consistent codec (s.refuse number) := by
  unfold Hop.refuse
  dsimp only
  split
  · exact h.setConnection rfl (.of_number rfl)
  · exact h

/-- A connection whose number is on no other keeps the connections apart. -/
theorem Consistent.distinct_setConnection (h : Consistent codec s) {number : Nat}
    (hfresh : ∀ i, ∀ client ∈ connection.serial, client ∉ (s.connections i).serial) :
    ∀ i j, ∀ client ∈ ((s.setConnection number connection).connections i).serial,
      client ∈ ((s.setConnection number connection).connections j).serial → i = j := by
  intro i j client hi hj
  simp only [Hop.setConnection] at hi hj
  by_cases hinumber : i = number
  · by_cases hjnumber : j = number
    · rw [hinumber, hjnumber]
    · subst hinumber
      rw [Function.update_self] at hi
      rw [Function.update_of_ne hjnumber] at hj
      exact absurd hj (hfresh j client hi)
  · rw [Function.update_of_ne hinumber] at hi
    by_cases hjnumber : j = number
    · subst hjnumber
      rw [Function.update_self] at hj
      exact absurd hi (hfresh i client hj)
    · rw [Function.update_of_ne hjnumber] at hj
      exact h.distinct i j client hi hj

theorem Consistent.accept (h : Consistent codec s) (number lease : Nat) (trusted : Bool) :
    Consistent codec (s.accept number lease trusted) := by
  unfold Hop.accept
  dsimp only
  split
  swap
  · exact h
  rename_i hnew
  simp only [Bool.and_eq_true, decide_eq_true_eq, Option.isNone_iff_eq_none] at hnew
  obtain ⟨⟨⟨hopened, hnone⟩, -⟩, hlt⟩ := hnew
  have hview : ∀ client, (s.host.accept lease trusted).view client = s.host.view client :=
    fun _ => Host.view_accept lease trusted
  have hfresh : ∀ i, (s.host.accept lease trusted).serial ∉ (s.connections i).serial := by
    intro i hmem
    have hle := (h.known i _ hmem).2
    omega
  refine ⟨h.numbered.accept lease trusted, ?_, ?_, ?_, h.idle⟩
  · intro i client hclient
    by_cases hi : i = number
    · subst hi
      simp only [Hop.setConnection, Function.update_self] at hclient
      cases hclient
      exact ⟨hopened, Nat.le_refl _⟩
    · simp only [Hop.setConnection, Function.update_of_ne hi] at hclient
      exact (h.known i client hclient).imp_right (Host.serial_le_accept lease trusted).trans'
  · refine h.distinct_setConnection ?_
    rintro i _ ⟨⟩
    exact hfresh i
  · intro i hi
    refine (h.current i hi).keeps ?_
    by_cases hinumber : i = number
    · subst hinumber
      rw [Function.update_self]
      refine .of_number ?_
      simp only [Host.viewOf, hnone, hview]
      exact h.numbered.unknown _ hlt
    · rw [Function.update_of_ne hinumber]
      refine .of_served (served_viewOf fun client _ => ?_)
      rw [hview]
      exact .same

/-- The rest of the host goes on. -/
theorem Consistent.hostStep (h : Consistent codec s) {input : Host.Input}
    (hown : s.own input = false) :
    Consistent codec { s with host := s.host.step input } := by
  refine h.host (h.numbered.step input) (Host.serial_le_step input) (fun _ => rfl) ?_
  intro number
  refine .of_served (served_viewOf fun client hclient => Host.served_step ?_)
  rintro document rfl
  simp only [own, List.any_eq_false, List.mem_range, beq_iff_eq] at hown
  exact hown number (h.known number client hclient).1 hclient

/-! ## The server sends and receives -/

/-- More of the line is sent. -/
theorem Underway.sends {request : Json}
    (h : Underway codec request forwarding connection view)
    (hoffset : forwarding.offset < forwarding.line.length) (count : Nat) :
    Underway codec request
      { forwarding with
        offset := forwarding.offset
          + ((forwarding.line.drop forwarding.offset).take count).length }
      { connection with
        toHost := connection.toHost ++ (forwarding.line.drop forwarding.offset).take count }
      view := by
  refine { h with stage := ?_ }
  rcases h.stage with hsending | hsent
  · left
    obtain ⟨got, hstream, hgot, hinput⟩ := hsending.stream
    refine { hsending with stream := ⟨got, ?_, hgot, hinput⟩ }
    rw [← List.append_assoc, hstream, List.take_add]
    congr 1
    rw [List.length_take, ← List.take_eq_take_min]
  · have hle := hsent.offset
    omega

/-- More of a response is read. -/
theorem Underway.receives {request : Json}
    (h : Underway codec request forwarding connection view) (count : Nat) :
    Underway codec request
      { forwarding with response := forwarding.response ++ connection.toSpace.take count }
      { connection with toSpace := connection.toSpace.drop count } view := by
  refine { h with stage := ?_ }
  rcases h.stage with hsending | hsent
  · left
    have htoSpace : connection.toSpace = [] := (List.append_eq_nil_iff.mp hsending.coming).1
    refine { hsending with response := ?_, coming := ?_ }
    · rw [hsending.response, htoSpace, List.take_nil]
      rfl
    · have hcoming := hsending.coming
      rw [coming, htoSpace] at hcoming
      rw [coming, htoSpace, List.drop_nil]
      exact hcoming
  · right
    refine { hsent with progress := ?_ }
    have hbytes : (forwarding.response ++ connection.toSpace.take count)
        ++ coming { connection with toSpace := connection.toSpace.drop count }
        = forwarding.response ++ coming connection := by
      simp only [coming]
      rw [List.append_assoc, ← List.append_assoc (connection.toSpace.take count),
        List.take_append_drop]
    rw [hbytes]
    exact hsent.progress

/-- A response that ends with a newline is the host's reply, and the connection is
quiet. -/
theorem Underway.complete {request : Json}
    (h : Underway codec request forwarding connection view)
    (hlast : forwarding.response.getLast? = some newline) :
    ∃ reply, forwarding.response = codec.message reply ∧
      view.dialogue = .answered reply :: .began (codec.heard request) ::
        .heard (codec.heard request) :: forwarding.before ∧
      Quiet connection view := by
  rcases h.stage with hsending | hsent
  · rw [hsending.response] at hlast
    cases hlast
  obtain ⟨answer, hprogress, ⟨-, hnone⟩ | ⟨reply, hanswer, hposted, hbytes⟩⟩ := hsent.progress
  · rw [(List.append_eq_nil_iff.mp hnone).1] at hlast
    cases hlast
  · cases hanswer
    obtain ⟨hresponse, hcoming⟩ := message_whole (codec.write_line reply) hbytes hlast
    refine ⟨reply, hresponse, ?_, ?_⟩
    · cases hprogress
      rfl
    · have hreplies := hprogress.replies
      cases hprogress
      refine ⟨hsent.toHost, hsent.input, hsent.oversized, hcoming, rfl, rfl,
        h.settled.cons, ?_⟩
      rw [hreplies, hposted]
      simp

/-! ## A round of `forward_tool` -/

variable {call : Call} {round : Round}

/-- What a round leaves, when it returns and when it does not. -/
structure Goes (codec : Codec) (result : Hop × Option Outcome) : Prop where
  consistent : Consistent codec result.1
  returned : result.2 ≠ none → result.1.forwarding = none

theorem Goes.giveUp (h : Consistent codec s) (failure : Failure) :
    Goes codec (s.giveUp failure) :=
  ⟨h.invalidated false, fun _ => rfl⟩

/-- A connection that is given up may be in any state. -/
theorem Goes.giveUp_setConnection (h : Consistent codec s) {number : Nat}
    (hserial : connection.serial = (s.connections number).serial) (failure : Failure) :
    Goes codec ((s.setConnection number connection).giveUp failure) where
  consistent :=
    { numbered := h.numbered
      known := fun other client hclient =>
        h.known other client (serial_setConnection hserial other ▸ hclient)
      distinct := fun i j client hi hj => h.distinct i j client
        (serial_setConnection hserial i ▸ hi) (serial_setConnection hserial j ▸ hj)
      current := nofun
      idle := fun _ => rfl }
  returned _ := rfl

theorem Quiet.begins (h : Quiet connection view) (request : Json) :
    Underway codec request { line := codec.message request, before := view.dialogue }
      connection view where
  line := rfl
  settled := h.settled
  stage := .inl
    { stream := ⟨[], by rw [h.toHost]; rfl, List.not_mem_nil, by
        rw [h.input, h.oversized]
        exact .nil maxRequest⟩
      view := by rw [View.eq_of_busy h.busy, h.waiting]
      response := rfl
      coming := h.coming
      posted := h.posted }

theorem Consistent.beginForwarding (h : Consistent codec s) (hcall : s.Forwards call)
    {number : Nat} (hopened : number < s.opened)
    (hquiet : Quiet (s.connections number) (s.host.viewOf (s.connections number))) :
    Consistent codec (beginForwarding codec s call number) where
  numbered := h.numbered
  known := h.known
  distinct := h.distinct
  current := by
    rintro _ ⟨⟩
    refine ⟨hopened, nofun, ?_⟩
    rintro _ ⟨⟩
    exact ⟨call, hcall, hquiet.begins _⟩
  idle := nofun

theorem quiet_new : Quiet {} {} := ⟨rfl, rfl, rfl, rfl, rfl, rfl, .nil, rfl⟩

/-- A new connection, on which nothing has been said. -/
theorem Consistent.open (h : Consistent codec s) (hidle : s.hostFd = none) :
    Consistent codec { s.setConnection s.opened {} with opened := s.opened + 1 } where
  numbered := h.numbered
  known number client hclient := by
    simp only [Hop.setConnection] at hclient
    by_cases hnumber : number = s.opened
    · subst hnumber
      rw [Function.update_self] at hclient
      cases hclient
    · rw [Function.update_of_ne hnumber] at hclient
      exact (h.known number client hclient).imp_left Nat.lt_succ_of_lt
  distinct := h.distinct_setConnection fun _ _ => nofun
  current number hnumber := by
    have hsome : s.hostFd = some number := hnumber
    rw [hidle] at hsome
    cases hsome
  idle := h.idle

theorem Consistent.pollBackend (h : Consistent codec s) (hforwarding : s.forwarding = none)
    (round : Round) :
    Consistent codec (s.pollBackend round) ∧ (s.pollBackend round).forwarding = none ∧
      (s.pollBackend round).frontend = s.frontend := by
  unfold Hop.pollBackend
  split
  · exact ⟨h, hforwarding, rfl⟩
  · split
    · have hinvalidated := h.invalidated true
      rw [← hforwarding] at hinvalidated
      exact ⟨hinvalidated, hforwarding, rfl⟩
    · exact ⟨h, hforwarding, rfl⟩

theorem Consistent.disconnected (h : Consistent codec s) (disconnected : Bool) :
    Consistent codec { s with disconnected } :=
  ⟨h.numbered, h.known, h.distinct, fun number hnumber =>
    ⟨(h.current number hnumber).opened, (h.current number hnumber).quiet,
      (h.current number hnumber).underway⟩, h.idle⟩

theorem Goes.connectHost (h : Consistent codec s) (hforwarding : s.forwarding = none)
    (hcall : s.Forwards call) (round : Round) : Goes codec (s.connectHost codec call round) := by
  obtain ⟨hpolled, hnone, hfrontend⟩ := h.pollBackend hforwarding round
  unfold Hop.connectHost
  dsimp only
  have hcall' : (s.pollBackend round).Forwards call := by
    rw [Forwards, hfrontend]
    exact hcall
  generalize s.pollBackend round = polled at hpolled hnone hfrontend hcall'
  split
  · exact ⟨hpolled.disconnected false, fun _ => hnone⟩
  split
  · rename_i number hnumber
    have hcarries := hpolled.current number hnumber
    exact ⟨hpolled.beginForwarding hcall' hcarries.opened (hcarries.quiet hnone),
      fun hne => absurd rfl hne⟩
  · rename_i hidle
    split
    · exact ⟨hpolled, fun _ => hnone⟩
    split
    · exact ⟨hpolled, fun _ => hnone⟩
    split
    · refine ⟨(hpolled.open hidle).beginForwarding hcall' ?_ ?_, fun hne => absurd rfl hne⟩
      · exact Nat.lt_succ_self polled.opened
      · simp only [Hop.setConnection, Nat.add_sub_cancel, Function.update_self]
        exact quiet_new
    · exact ⟨hpolled.disconnected false, fun _ => hnone⟩

theorem Forwards.unique {other : Call} (h : s.Forwards call) (hother : s.Forwards other) :
    other = call := by
  obtain ⟨-, active, hactive, rfl⟩ := h
  obtain ⟨-, active', hactive', rfl⟩ := hother
  rw [Option.mem_unique hactive hactive']

theorem Carries.underway_call {number : Nat} (h : s.Carries codec number) (hcall : s.Forwards call)
    (hforwarding : s.forwarding = some forwarding) :
    Underway codec (request call) forwarding (s.connections number)
      (s.host.viewOf (s.connections number)) := by
  obtain ⟨other, hother, hunderway⟩ := h.underway forwarding hforwarding
  rwa [hcall.unique hother] at hunderway

/-- The server goes on with its connection. -/
theorem Consistent.setForwarding (h : Consistent codec s) {number : Nat}
    (hnumber : s.hostFd = some number)
    (hserial : connection.serial = (s.connections number).serial) {next : Option Forwarding}
    (hquiet : next = none → Quiet connection (s.host.viewOf (s.connections number)))
    (hunderway : ∀ forwarding ∈ next, ∃ call, s.Forwards call ∧
      Underway codec (request call) forwarding connection
        (s.host.viewOf (s.connections number))) :
    Consistent codec { s.setConnection number connection with forwarding := next } where
  numbered := h.numbered
  known other client hclient := h.known other client (serial_setConnection hserial other ▸ hclient)
  distinct i j client hi hj := h.distinct i j client
    (serial_setConnection hserial i ▸ hi) (serial_setConnection hserial j ▸ hj)
  current := by
    intro other hother
    obtain rfl : number = other := Option.some.inj (hnumber.symm.trans hother)
    have hconnection : (s.setConnection number connection).connections number = connection := by
      simp only [Hop.setConnection, Function.update_self]
    have hview : s.host.viewOf connection = s.host.viewOf (s.connections number) := by
      rw [Host.viewOf, Host.viewOf, hserial]
    refine ⟨(h.current number hnumber).opened, ?_, ?_⟩
    · dsimp only
      rw [hconnection]
      exact hview.symm ▸ hquiet
    · dsimp only
      rw [hconnection]
      exact hview.symm ▸ hunderway
  idle hidle := by
    have hnone : s.hostFd = none := hidle
    rw [hnumber] at hnone
    cases hnone

theorem Goes.answer (h : Consistent codec { s with forwarding := none }) (response : Bytes) :
    Goes codec (s.answer codec call response) := by
  have hgiven : Goes codec (s.giveUp disconnectedFailure) := ⟨h.invalidated false, fun _ => rfl⟩
  unfold Hop.answer
  dsimp only
  split
  · split
    · exact ⟨h, fun _ => rfl⟩
    · exact hgiven
  · exact hgiven

theorem Goes.receive (h : Consistent codec s) (hcall : s.Forwards call)
    (hforwarding : s.forwarding = some forwarding) {number : Nat}
    (hnumber : s.hostFd = some number) (round : Round) :
    Goes codec (s.receive codec call forwarding number round) := by
  have hreceived := ((h.current number hnumber).underway_call hcall hforwarding).receives
    (min 65536 (round.more + 1))
  have hserial : ∀ toSpace, { s.connections number with toSpace }.serial
      = (s.connections number).serial := fun _ => rfl
  unfold Hop.receive
  dsimp only
  split
  · exact .giveUp_setConnection h (hserial _) _
  split
  · rename_i hcomplete
    simp only [Bool.and_eq_true, beq_iff_eq] at hcomplete
    obtain ⟨reply, -, -, hquiet⟩ := hreceived.complete hcomplete.2
    exact .answer (h.setForwarding hnumber (hserial _) (fun _ => hquiet) nofun) _
  · refine ⟨h.setForwarding hnumber (hserial _) (by nofun) ?_, fun hne => absurd rfl hne⟩
    rintro _ ⟨⟩
    exact ⟨call, hcall, hreceived⟩

theorem Goes.forward (h : Consistent codec s) (hcall : s.Forwards call)
    (hforwarding : s.forwarding = some forwarding) (round : Round) :
    Goes codec (s.forward codec call forwarding round) := by
  unfold Hop.forward
  split
  · exact .giveUp h _
  · exact .giveUp h _
  · rename_i number _ hnumber
    split
    · exact .giveUp h _
    split
    · exact ⟨h, fun hne => absurd rfl hne⟩
    split
    · rename_i hoffset
      have hsent := ((h.current number hnumber).underway_call hcall hforwarding).sends hoffset
        (round.more + 1)
      have hserial : ∀ toHost, { s.connections number with toHost }.serial
          = (s.connections number).serial := fun _ => rfl
      refine ⟨h.setForwarding hnumber (hserial _) (by nofun) ?_, fun hne => absurd rfl hne⟩
      rintro _ ⟨⟩
      exact ⟨call, hcall, hsent⟩
    · exact .receive h hcall hforwarding hnumber round

theorem Goes.forwardTool (h : Consistent codec s) (hcall : s.Forwards call) (round : Round) :
    Goes codec (s.forwardTool codec call round) := by
  unfold Hop.forwardTool
  split
  · rename_i hforwarding
    exact .connectHost h hforwarding hcall round
  · rename_i forwarding hforwarding
    exact .forward h hcall hforwarding round

/-! ## Any run -/

theorem Consistent.finish (h : Consistent codec s) (hforwarding : s.forwarding = none)
    (noVision : Bool) (outcome : Outcome) : Consistent codec (s.finish noVision outcome) := by
  have hfinished : Consistent codec
      { s with frontend := s.frontend.finish noVision outcome, stopping := s.stopping } :=
    h.frontend (fun hne => absurd hforwarding hne) s.stopping
  unfold Hop.finish
  dsimp only
  split
  · have hinvalidated := hfinished.invalidated s.disconnected
    have hnone : s.forwarding = none := hforwarding
    simpa [invalidate, hnone] using hinvalidated
  · exact hfinished

/-- A call that is being forwarded has not failed before. -/
theorem Consistent.forwards (h : Consistent codec s)
    (hforwarding : s.forwarding = some forwarding) : ∃ call, s.Forwards call := by
  cases hnumber : s.hostFd with
  | none =>
      have hnone := h.idle hnumber
      rw [hforwarding] at hnone
      cases hnone
  | some number =>
      obtain ⟨call, hcall, -⟩ := (h.current number hnumber).underway forwarding hforwarding
      exact ⟨call, hcall⟩

theorem Consistent.callTool (h : Consistent codec s) (noVision : Bool) (round : Round) :
    Consistent codec (s.callTool noVision codec round) := by
  unfold Hop.callTool
  split
  · exact h
  rename_i active hactive
  split
  · rename_i failure hfailure
    have hforwarding : s.forwarding = none := by
      cases hforwarding : s.forwarding with
      | none => rfl
      | some forwarding =>
          obtain ⟨call, hnone, active', hactive', rfl⟩ := h.forwards hforwarding
          rw [hactive] at hactive'
          cases hactive'
          rw [hfailure] at hnone
          cases hnone
    exact h.finish hforwarding noVision _
  · rename_i hfailure
    have hgoes : Goes codec (s.forwardTool codec active.call round) :=
      .forwardTool h ⟨hfailure, active, hactive, rfl⟩ round
    split
    · rename_i next hresult
      rw [hresult] at hgoes
      exact hgoes.consistent
    · rename_i next outcome hresult
      rw [hresult] at hgoes
      exact hgoes.consistent.finish (hgoes.returned nofun) noVision outcome

theorem readRequest_active (frontend : Frontend) (line : Option Json) :
    (frontend.readRequest line).active = frontend.active := by
  unfold Frontend.readRequest
  dsimp only
  split
  · split
    · rfl
    · rfl
  · rfl

theorem Consistent.step (h : Consistent codec s) (noVision : Bool) (input : Input) :
    Consistent codec (s.step noVision codec input) := by
  cases input with
  | line line =>
      refine h.frontend (fun _ active hactive => ?_) s.stopping
      rw [readRequest_active]
      exact hactive
  | stop => exact h.frontend (fun _ _ hactive => hactive) true
  | serve =>
      dsimp only [Hop.step]
      split
      · exact h
      · refine h.frontend (fun _ active hactive => ?_) s.stopping
        rw [Frontend.serve, show s.frontend.active = some active from hactive]
        exact hactive
  | poll round =>
      dsimp only [Hop.step]
      split
      · exact h
      · rename_i hidle
        have hforwarding : s.forwarding = none := by
          cases hforwarding : s.forwarding with
          | none => rfl
          | some forwarding =>
              obtain ⟨-, -, active, hactive, -⟩ := h.forwards hforwarding
              exact absurd (Option.isSome_iff_exists.mpr ⟨active, hactive⟩) hidle
        exact (h.pollBackend hforwarding round).1
  | call round => exact h.callTool noVision round
  | accept number lease trusted => exact h.accept number lease trusted
  | refuse number => exact h.refuse number
  | hear number => exact h.hear number
  | post number => exact h.post number
  | write number count => exact h.write number count
  | host input =>
      dsimp only [Hop.step]
      split
      · exact h
      · rename_i hown
        exact h.hostStep (Bool.eq_false_iff.mpr hown)

theorem run_consistent (noVision testPath : Bool) (codec : Codec) (inputs : List Input) :
    Consistent codec (inputs.foldl (Hop.step noVision codec) (initial testPath)) :=
  (Guarded.run inputs (initial testPath)).invariant (consistent_initial testPath)
    fun _ input h _ => h.step noVision input

/-! ## What a call returns -/

theorem answer_ok {response : Bytes} {result : Members}
    (h : (s.answer codec call response).2 = some (.ok result)) :
    (∃ id, jsonMember (codec.read response) "id" = some id ∧ id.equals call.id = true) ∧
      jsonMember (codec.read response) "result" = some (.obj result) := by
  unfold Hop.answer at h
  dsimp only at h
  split at h
  · rename_i id members hid hresult
    split at h
    · rename_i hequals
      cases h
      exact ⟨⟨id, hid, hequals⟩, hresult⟩
    · cases h
  · cases h

/-- A round that fails says why, and has closed the connection. -/
def Fails (s : Hop) (round : Round) (result : Hop × Option Outcome) : Prop :=
  ∀ failure, result.2 = some (.error failure) →
    ReportsEnd s round failure ∧ result.1.hostFd = none

theorem fails_disconnected (s' : Hop) : Fails s round (s'.giveUp disconnectedFailure) := by
  rintro _ ⟨⟩
  exact ⟨.inl rfl, rfl⟩

theorem fails_answer (s' : Hop) (response : Bytes) :
    Fails s round (s'.answer codec call response) := by
  unfold Hop.answer
  dsimp only
  split
  · split
    · nofun
    · exact fails_disconnected s'
  · exact fails_disconnected s'

theorem fails_receive (s' : Hop) (forwarding : Forwarding) (number : Nat) (round' : Round) :
    Fails s round (s'.receive codec call forwarding number round') := by
  unfold Hop.receive
  dsimp only
  split
  · exact fails_disconnected _
  split
  · exact fails_answer _ _
  · nofun

theorem fails_forward : Fails s round (s.forward codec call forwarding round) := by
  unfold Hop.forward
  split
  · rename_i htick
    rintro _ ⟨⟩
    exact ⟨.inr htick, rfl⟩
  · exact fails_disconnected s
  · split
    · exact fails_disconnected s
    split
    · nofun
    split
    · nofun
    · exact fails_receive s forwarding _ round

theorem receive_ok {number : Nat} {result : Members}
    (h : (s.receive codec call forwarding number round).2 = some (.ok result)) :
    let response := forwarding.response
      ++ (s.connections number).toSpace.take (min 65536 (round.more + 1))
    response.getLast? = some newline ∧
      (∃ id, jsonMember (codec.read response) "id" = some id ∧ id.equals call.id = true) ∧
      jsonMember (codec.read response) "result" = some (.obj result) := by
  unfold Hop.receive at h
  dsimp only at h ⊢
  split at h
  · cases h
  split at h
  · rename_i hcomplete
    simp only [Bool.and_eq_true, beq_iff_eq] at hcomplete
    exact ⟨hcomplete.2, answer_ok h⟩
  · cases h

theorem connectHost_ok {result : Members} :
    (s.connectHost codec call round).2 ≠ some (.ok result) := by
  unfold Hop.connectHost
  dsimp only
  split
  · nofun
  split
  · nofun
  split
  · nofun
  split
  · nofun
  split
  · nofun
  · nofun

/-- The result of a call is read from its connection. -/
theorem forwardTool_ok {result : Members}
    (h : (s.forwardTool codec call round).2 = some (.ok result)) :
    ∃ forwarding number, s.forwarding = some forwarding ∧ s.hostFd = some number ∧
      (s.receive codec call forwarding number round).2 = some (.ok result) := by
  unfold Hop.forwardTool at h
  split at h
  · exact absurd h connectHost_ok
  rename_i forwarding hforwarding
  unfold Hop.forward at h
  split at h
  · cases h
  · cases h
  rename_i number _ hnumber
  split at h
  · cases h
  split at h
  · cases h
  split at h
  · cases h
  · exact ⟨forwarding, number, hforwarding, hnumber, h⟩

theorem Consistent.isAnswer (h : Consistent codec s) (hcall : s.Forwards call) {result : Members}
    (hresult : (s.forwardTool codec call round).2 = some (.ok result)) :
    ∃ forwarding number client reply, s.forwarding = some forwarding ∧
      s.IsAnswer codec call forwarding number client reply result := by
  obtain ⟨forwarding, number, hforwarding, hnumber, hreceived⟩ := forwardTool_ok hresult
  obtain ⟨hlast, hid, hmembers⟩ := receive_ok hreceived
  have hunderway := (h.current number hnumber).underway_call hcall hforwarding
  obtain ⟨reply, hresponse, hdialogue, -⟩ :=
    (hunderway.receives (min 65536 (round.more + 1))).complete hlast
  obtain ⟨client, hclient⟩ : ∃ client, (s.connections number).serial = some client := by
    cases hserial : (s.connections number).serial with
    | none =>
        rw [Host.viewOf, hserial] at hdialogue
        cases hdialogue
    | some client => exact ⟨client, rfl⟩
  rw [viewOf_accepted hclient] at hdialogue
  dsimp only at hresponse
  rw [hresponse] at hid hmembers
  exact ⟨forwarding, number, client, reply, hforwarding, hnumber, hclient, hunderway.settled,
    hdialogue, hid, hmembers⟩

/-- The tick stops a call that is being forwarded. -/
theorem forwardTool_stopped {failure : Failure} (hforwarding : s.forwarding = some forwarding)
    (htick : s.tick round = some failure) :
    s.forwardTool codec call round = s.giveUp failure := by
  rw [forwardTool, hforwarding]
  dsimp only
  rw [forward, htick]

theorem Consistent.correlated (h : Consistent codec s) : Correlated codec ReportsEnd s where
  answered _ _ _ hcall hresult := h.isAnswer hcall hresult
  ended call round failure _ hsome hresult := by
    obtain ⟨forwarding, hforwarding⟩ := Option.isSome_iff_exists.mp hsome
    rw [forwardTool, hforwarding] at hresult
    exact (fails_forward failure hresult).1
  abandoned call round failure _ hsome hresult := by
    obtain ⟨forwarding, hforwarding⟩ := Option.isSome_iff_exists.mp hsome
    rw [forwardTool, hforwarding] at hresult ⊢
    exact (fails_forward failure hresult).2
  stopped call round _ hsome htick := by
    obtain ⟨forwarding, hforwarding⟩ := Option.isSome_iff_exists.mp hsome
    obtain ⟨failure, hfailure⟩ := Option.isSome_iff_exists.mp htick
    rw [forwardTool_stopped hforwarding hfailure]
    rfl

/-- In every state that the two servers reach, a call returns the host's answer to
its own request, or reports that the host disconnected, or was stopped by the tick. -/
theorem forwardTool_correlated (noVision testPath : Bool) (codec : Codec) (inputs : List Input) :
    Correlated codec ReportsEnd (inputs.foldl (Hop.step noVision codec) (initial testPath)) :=
  (run_consistent noVision testPath codec inputs).correlated

/-! ## A call of `status` -/

def statusCall : Json :=
  message [("id", .uint 1), ("method", .str "tools/call"),
    ("params", .obj [("name", .str "status")])]

def statusRequest : Json := request (beginCall false (.uint 1) (statusCall.get "params") [])

def statusResult : Members := [("content", .arr []), ("isError", .bool false)]

/-- What yyjson writes for the documents of the call. -/
def statusTexts : List (Json × String) :=
  [(statusRequest, "\x7b\"jsonrpc\":\"2.0\",\"method\":\"tools/call\",\"id\":1," ++
      "\"params\":\x7b\"name\":\"status\"\x7d\x7d"),
    (sendResult false (.uint 1) statusResult,
      "\x7b\"jsonrpc\":\"2.0\",\"id\":1,\"result\":\x7b\"content\":[],\"isError\":false\x7d\x7d")]

def asciiLine (text : String) : Bytes :=
  (text.toList.map fun c => UInt8.ofNat c.toNat).filter (· ≠ newline)

/-- Writes and reads the documents of the call as yyjson does. -/
def statusCodec : Codec where
  write document :=
    ((statusTexts.find? (·.1.sameText document)).map (asciiLine ·.2)).getD []
  read bytes :=
    (statusTexts.find? fun entry => asciiLine entry.2 = bytes.filter (· ≠ newline)).map (·.1)
  write_line document := by
    cases statusTexts.find? (·.1.sameText document) with
    | none => exact List.not_mem_nil
    | some entry => simp [asciiLine]

/-- The call is forwarded and its line sent. -/
def sentHistory : List Input :=
  [.line (some (message [("id", .uint 0), ("method", .str "initialize"),
      ("params", .obj [("protocolVersion", .str "2025-11-25")])])),
    .serve, .line (some statusCall), .serve, .call {}, .call { more := 4095 }]

/-- The host accepts the connection, hears the line, executes the call and answers,
in three pieces. -/
def answeredHistory : List Input :=
  sentHistory ++ [.accept 0 0 true] ++ List.replicate 74 (.hear 0)
    ++ [.host (.turn true true), .host (.tick none), .host (.finish (.ok statusResult)), .post 0,
      .write 0 7, .call { more := 4 }, .write 0 4096]

/-- Whether a round has returned a result. -/
def hasResult : Option Outcome → Bool
  | some (.ok _) => true
  | _ => false

theorem result_of_hasResult {outcome : Option Outcome} (h : hasResult outcome = true) :
    ∃ result, outcome = some (.ok result) := by
  unfold hasResult at h
  split at h
  · exact ⟨_, rfl⟩
  · cases h

/-- The next round returns the host's answer. -/
theorem answeredHistory_answered :
    let s := answeredHistory.foldl (Hop.step false statusCodec) (initial true)
    ∃ call forwarding number client reply result, s.Forwards call ∧
      s.forwarding = some forwarding ∧
      s.IsAnswer statusCodec call forwarding number client reply result := by
  intro s
  have hreturned : s.frontend.active.any (fun active => active.call.failure.isNone &&
      hasResult (s.forwardTool statusCodec active.call { more := 4095 }).2) = true := by
    decide +kernel
  obtain ⟨active, hactive, hcall⟩ := (Option.any_eq_true _ _).mp hreturned
  rw [Bool.and_eq_true, Option.isNone_iff_eq_none] at hcall
  obtain ⟨result, hresult⟩ := result_of_hasResult hcall.2
  have hforwards : s.Forwards active.call := ⟨hcall.1, active, hactive, rfl⟩
  obtain ⟨forwarding, number, client, reply, hforwarding, hanswer⟩ :=
    (forwardTool_correlated false true statusCodec answeredHistory).answered active.call
      { more := 4095 } result hforwards hresult
  exact ⟨active.call, forwarding, number, client, reply, result, hforwards, hforwarding, hanswer⟩

/-! ## The deadline -/

/-- When its deadline passes, a call that was forwarded reports a timeout. -/
theorem sentHistory_timesOut :
    ¬ Correlated statusCodec ReportsDisconnection
      (sentHistory.foldl (Hop.step false statusCodec) (initial true)) := by
  let s := sentHistory.foldl (Hop.step false statusCodec) (initial true)
  intro h
  have hsent : s.frontend.active.any (·.call.failure.isNone) = true ∧
      s.forwarding.isSome = true ∧
      (s.tick { late := true }).any (·.code == "timeout") = true := by decide +kernel
  obtain ⟨hcall, hsome, hlate⟩ := hsent
  obtain ⟨active, hactive, hfailure⟩ := (Option.any_eq_true _ _).mp hcall
  obtain ⟨forwarding, hforwarding⟩ := Option.isSome_iff_exists.mp hsome
  obtain ⟨failure, htick, hcode⟩ := (Option.any_eq_true _ _).mp hlate
  have hforwards : s.Forwards active.call :=
    ⟨Option.isNone_iff_eq_none.mp hfailure, active, hactive, rfl⟩
  have hreturned : (s.forwardTool statusCodec active.call { late := true }).2
      = some (.error failure) := by
    rw [forwardTool_stopped hforwarding htick]
    rfl
  have hdisconnected : failure = disconnectedFailure :=
    h.ended active.call { late := true } failure hforwards hsome hreturned
  rw [hdisconnected] at hcode
  exact absurd hcode (by decide)

end Hop

end Spaces.Computer
