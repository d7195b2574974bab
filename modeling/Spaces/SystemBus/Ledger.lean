import Mathlib.Data.List.Nodup
import Spaces.SystemBus.Steps

/-!
# The ledger of forwarded calls

A trace is the bridge with everything it has sent. Over a trace, a forwarded call
has had one answer exactly when it is not pending any more or has been marked as
delivered, and a call is pending exactly as long as GDBus holds a ticket for it:
it waits for the call, or it has a source in the main loop that will finish it.

`CallsInv` is that ledger, and the lemmas say what keeps it: forwarding a call,
delivering an answer, finishing a call, and whatever leaves the calls alone.
-/

namespace Spaces.SystemBus

/-! ## Traces -/

structure Trace where
  app : App
  sent : List Output := []

def Trace.next (t : Trace) (s : Step) : Trace where
  app := (step t.app s).1
  sent := t.sent ++ (step t.app s).2

def emits (app : App) (s : Step) : List Output := (step app s).2

/-- The broker, with or without `--admin`, or the relay on a guest's bus. -/
inductive Initial : Trace → Prop
  | broker (admin : Bool) : Initial { app := { broker := true, admin := admin } }
  | relay (uniqueName : String) (guestNames : List String) :
      Initial { app := { broker := false, uniqueName := uniqueName, guestNames := guestNames } }

def answersTo (c id : Nat) : Output → Bool
  | .reply d call _ _ => d == c && call.id == id
  | _ => false

/-- How many answers have been sent to a call. -/
def replies (sent : List Output) (c id : Nat) : Nat := sent.countP (answersTo c id)

/-- One as long as the call is pending without an answer. -/
def owed (client : Client) (id : Nat) : Nat :=
  client.pendingCalls.countP fun call => call.id == id && !call.delivered

/-- GDBus's hold on the calls. -/
def Waiting.ticket (waiting : Waiting) : Nat × Nat := (waiting.client, waiting.call)

def Idle.ticket : Idle → Option (Nat × Nat)
  | .finished client call _ => some (client, call)
  | _ => none

def tickets (app : App) : List (Nat × Nat) :=
  app.waiting.map Waiting.ticket ++ app.idle.filterMap Idle.ticket

/-! ## The calls -/

/-- `hand` are the tickets that a step has taken and not yet used. -/
structure CallsInv (hand : List (Nat × Nat)) (t : Trace) : Prop where
  unborn : ∀ c, t.app.nextClient ≤ c → (t.app.client c).pendingCalls = [] ∧
    (t.app.client c).outstanding = 0
  outstanding : ∀ c, (t.app.client c).outstanding = (t.app.client c).pendingCalls.length
  limit : ∀ c, (t.app.client c).pendingCalls.length ≤ 64
  distinct : ∀ c, ((t.app.client c).pendingCalls.map Call.id).Nodup
  issued : ∀ c, ∀ call ∈ (t.app.client c).pendingCalls, call.id < t.app.nextCall
  held : (hand ++ tickets t.app).Nodup
  ticket : ∀ c id, (c, id) ∈ hand ++ tickets t.app ↔
    ∃ call ∈ (t.app.client c).pendingCalls, call.id = id
  sentIssued : ∀ c call copy, .call c call copy ∈ t.sent → call.id < t.app.nextCall
  /-- A pending call is as it was sent, but for the mark of its delivery. -/
  asSent : ∀ c, ∀ call ∈ (t.app.client c).pendingCalls,
    (∃ copy, .call c { call with delivered := false } copy ∈ t.sent) ∧
    ∀ sent copy, .call c sent copy ∈ t.sent → sent.id = call.id →
      sent = { call with delivered := false }
  once : ∀ c call copy, .call c call copy ∈ t.sent → call.request.type = .methodCall →
    replies t.sent c call.id + owed (t.app.client c) call.id = 1
  answer : ∀ c call message received, .reply c call message received ∈ t.sent →
    message.replySerial = call.request.serial ∧ isReply message = true ∧
      (∃ copy, .call c { call with delivered := false } copy ∈ t.sent)

theorem replies_append (sent outputs : List Output) (c id : Nat) :
    replies (sent ++ outputs) c id = replies sent c id + replies outputs c id :=
  List.countP_append

theorem replies_plain {outputs : List Output} (h : ∀ o ∈ outputs, o.plain) (c id : Nat) :
    replies outputs c id = 0 := by
  refine List.countP_eq_zero.mpr fun o ho hanswer => ?_
  cases o with
  | reply => exact h _ ho
  | send | call | ownName => cases hanswer

theorem mem_append_plain {sent outputs : List Output} {o : Output}
    (hplain : ∀ o ∈ outputs, o.plain) (h : o ∈ sent ++ outputs) (ho : ¬ o.plain) :
    o ∈ sent := by
  rcases List.mem_append.mp h with h | h
  · exact h
  · exact absurd (hplain _ h) ho

/-- What holds of every client, where only one changes and it still holds of that one. -/
theorem client_keeps {app app' : App} {c : Nat} {p : Client → Prop}
    (hother : ∀ d, d ≠ c → app'.client d = app.client d) (hall : ∀ d, p (app.client d))
    (h : p (app'.client c)) (d : Nat) : p (app'.client d) := by
  by_cases hd : d = c
  · subst hd
    exact h
  · rw [hother d hd]
    exact hall d

/-- What only turns on the calls is kept by what leaves them alone. -/
theorem CallsInv.same {hand hand' : List (Nat × Nat)} {app app' : App}
    {sent outputs : List Output} (hi : CallsInv hand ⟨app, sent⟩)
    (hclient : ∀ c, (app'.client c).pendingCalls = (app.client c).pendingCalls ∧
      (app'.client c).outstanding = (app.client c).outstanding)
    (hclients : app.nextClient ≤ app'.nextClient) (hnext : app'.nextCall = app.nextCall)
    (htickets : (hand ++ tickets app).Perm (hand' ++ tickets app'))
    (hplain : ∀ o ∈ outputs, o.plain) : CallsInv hand' ⟨app', sent ++ outputs⟩ where
  unborn := fun c hc => by
    rw [(hclient c).1, (hclient c).2]
    exact hi.unborn c (Nat.le_trans hclients hc)
  outstanding := fun c => by
    rw [(hclient c).1, (hclient c).2]
    exact hi.outstanding c
  limit := fun c => by
    rw [(hclient c).1]
    exact hi.limit c
  distinct := fun c => by
    rw [(hclient c).1]
    exact hi.distinct c
  issued := fun c => by
    rw [(hclient c).1, hnext]
    exact hi.issued c
  held := htickets.nodup_iff.mp hi.held
  ticket := fun c id => by
    rw [← htickets.mem_iff, (hclient c).1]
    exact hi.ticket c id
  sentIssued := fun c call copy h => by
    rw [hnext]
    exact hi.sentIssued c call copy (mem_append_plain hplain h id)
  asSent := fun c call h => by
    rw [(hclient c).1] at h
    obtain ⟨⟨copy, hsent⟩, hsame⟩ := hi.asSent c call h
    exact ⟨⟨copy, List.mem_append_left _ hsent⟩,
      fun other copy hother => hsame other copy (mem_append_plain hplain hother id)⟩
  once := fun c call copy h htype => by
    have howed : owed (app'.client c) call.id = owed (app.client c) call.id := by
      unfold owed
      rw [(hclient c).1]
    rw [replies_append, replies_plain hplain, howed]
    exact hi.once c call copy (mem_append_plain hplain h id) htype
  answer := fun c call message received h => by
    obtain ⟨hserial, htype, copy, hsent⟩ :=
      hi.answer c call message received (mem_append_plain hplain h id)
    exact ⟨hserial, htype, copy, List.mem_append_left _ hsent⟩

theorem CallsInv.frame {hand : List (Nat × Nat)} {app app' : App}
    {sent outputs : List Output} (hi : CallsInv hand ⟨app, sent⟩) (h : Frame app app')
    (hplain : ∀ o ∈ outputs, o.plain) : CallsInv hand ⟨app', sent ++ outputs⟩ := by
  refine hi.same (fun c => ?_) h.clients (by rw [h.rest]) ?_ hplain
  · rcases h.client c with hsame | ⟨hnew, -, hempty⟩
    · exact ⟨hsame.pendingCalls, hsame.outstanding⟩
    · obtain ⟨hpending, houtstanding⟩ := hi.unborn c hnew
      exact ⟨hempty.pendingCalls.trans hpending.symm,
        hempty.outstanding.trans houtstanding.symm⟩
  · have htickets : tickets app' = tickets app := by rw [h.rest]; rfl
    rw [htickets]

/-! ### Forwarding -/

theorem CallsInv.replies_unissued {hand : List (Nat × Nat)} {app : App}
    {sent : List Output} (hi : CallsInv hand ⟨app, sent⟩) (c : Nat) {id : Nat}
    (hid : app.nextCall ≤ id) : replies sent c id = 0 := by
  refine List.countP_eq_zero.mpr fun o ho hanswer => ?_
  cases o with
  | reply d call message received =>
      obtain ⟨-, -, copy, hsent⟩ := hi.answer d call message received ho
      have hlt := hi.sentIssued d _ copy hsent
      have hsame : call.id = id := by simpa using (Bool.and_eq_true_iff.mp hanswer).2
      have hlt : call.id < app.nextCall := hlt
      omega
  | send | call | ownName => cases hanswer

theorem owed_eq_zero {client : Client} {id : Nat}
    (h : ∀ call ∈ client.pendingCalls, call.id ≠ id) : owed client id = 0 := by
  refine List.countP_eq_zero.mpr fun call hcall howed => ?_
  exact h call hcall (by simpa using (Bool.and_eq_true_iff.mp howed).1)

/-- What `forward` does to the state with a new call: the ticket is GDBus's. -/
structure Issues (app : App) (c : Nat) (call : Call) (app' : App) : Prop where
  client : app'.client c = { app.client c with
    pendingCalls := call :: (app.client c).pendingCalls
    outstanding := (app.client c).outstanding + 1 }
  other : ∀ d, d ≠ c → app'.client d = app.client d
  clients : app'.nextClient = app.nextClient
  next : app'.nextCall = app.nextCall + 1
  held : (tickets app').Perm ((c, call.id) :: tickets app)

theorem forward_issues (app : App) (c : Nat) (call : Call) {waiting : Waiting}
    (hwaiting : waiting.ticket = (c, call.id)) :
    Issues app c call { app.updateClient c fun client =>
        { client with
          pendingCalls := call :: client.pendingCalls
          outstanding := client.outstanding + 1 } with
      nextCall := app.nextCall + 1
      waiting := app.waiting ++ [waiting] } where
  client := Function.update_self ..
  other := fun _ hd => Function.update_of_ne hd ..
  clients := rfl
  next := rfl
  held := by
    show ((app.waiting ++ [waiting]).map Waiting.ticket ++ app.idle.filterMap Idle.ticket).Perm _
    rw [List.map_append, List.map_singleton, hwaiting, List.append_assoc, List.singleton_append]
    exact List.perm_middle

section Issues

variable {app app' : App} {c d : Nat} {call other : Call}

theorem Issues.mem_pending (h : Issues app c call app') :
    other ∈ (app'.client d).pendingCalls ↔
      (d = c ∧ other = call) ∨ other ∈ (app.client d).pendingCalls := by
  by_cases hd : d = c
  · subst hd
    rw [h.client, List.mem_cons]
    simp only [true_and]
  · rw [h.other d hd]
    simp only [hd, false_and, false_or]

theorem Issues.owed_before (h : Issues app c call app') {id : Nat} (hid : call.id ≠ id) :
    owed (app'.client d) id = owed (app.client d) id := by
  by_cases hd : d = c
  · subst hd
    rw [h.client]
    unfold owed
    rw [List.countP_cons, if_neg (by simp [hid]), Nat.add_zero]
  · rw [h.other d hd]

theorem Issues.owed_issued (h : Issues app c call app') (hnew : call.delivered = false)
    (hfresh : ∀ before ∈ (app.client c).pendingCalls, before.id ≠ call.id) :
    owed (app'.client c) call.id = 1 := by
  have howed : owed (app.client c) call.id = 0 := owed_eq_zero hfresh
  rw [h.client]
  unfold owed at howed ⊢
  rw [List.countP_cons, howed, hnew]
  simp

end Issues

theorem mem_append_call {sent : List Output} {c d : Nat} {call other : Call} {copy m : Message}
    (h : Output.call d other m ∈ sent ++ [.call c call copy]) :
    (d = c ∧ other = call) ∨ Output.call d other m ∈ sent := by
  rcases List.mem_append.mp h with h | h
  · exact .inr h
  · injection List.mem_singleton.mp h with hd hcall
    exact .inl ⟨hd, hcall⟩

theorem CallsInv.issue {app app' : App} {sent : List Output} (hi : CallsInv [] ⟨app, sent⟩)
    {c : Nat} (hc : c < app.nextClient) (hlimit : (app.client c).outstanding < 64)
    {call : Call} (h : Issues app c call app') (hid : call.id = app.nextCall)
    (hnew : call.delivered = false) (copy : Message) :
    CallsInv [] ⟨app', sent ++ [.call c call copy]⟩ := by
  have hfresh : ∀ d, ∀ before ∈ (app.client d).pendingCalls, before.id ≠ call.id := by
    intro d before hbefore
    have hlt : before.id < app.nextCall := hi.issued d before hbefore
    omega
  have hticket : (c, call.id) ∉ tickets app := fun hmem => by
    obtain ⟨before, hbefore, heq⟩ := (hi.ticket c call.id).mp hmem
    exact hfresh c before hbefore heq
  have hundelivered : { call with delivered := false } = call := by rw [← hnew]
  refine {
    unborn := fun d hd => ?_
    outstanding := client_keeps (p := fun client =>
      client.outstanding = client.pendingCalls.length) h.other hi.outstanding ?_
    limit := client_keeps (p := fun client => client.pendingCalls.length ≤ 64)
      h.other hi.limit ?_
    distinct := client_keeps (p := fun client => (client.pendingCalls.map Call.id).Nodup)
      h.other hi.distinct ?_
    issued := fun d other hmem => ?_
    held := h.held.nodup_iff.mpr (List.nodup_cons.mpr ⟨hticket, hi.held⟩)
    ticket := fun d id => ?_
    sentIssued := fun d other m hmem => ?_
    asSent := fun d other hmem => ?_
    once := fun d other m hmem htype => ?_
    answer := fun d other m received hmem => ?_ }
  · have hd : app.nextClient ≤ d := h.clients ▸ hd
    show (app'.client d).pendingCalls = [] ∧ (app'.client d).outstanding = 0
    rw [h.other d (by omega)]
    exact hi.unborn d hd
  · rw [h.client]
    exact congrArg (· + 1) (hi.outstanding c)
  · have hcount : (app.client c).outstanding = (app.client c).pendingCalls.length :=
      hi.outstanding c
    rw [h.client, List.length_cons]
    omega
  · rw [h.client]
    refine List.nodup_cons.mpr ⟨fun hmem => ?_, hi.distinct c⟩
    obtain ⟨before, hbefore, heq⟩ := List.mem_map.mp hmem
    exact hfresh c before hbefore heq
  · show other.id < app'.nextCall
    rw [h.next]
    rcases h.mem_pending.mp hmem with ⟨rfl, rfl⟩ | hmem
    · omega
    · exact Nat.lt_succ_of_lt (hi.issued d other hmem)
  · show (d, id) ∈ tickets app' ↔ ∃ other ∈ (app'.client d).pendingCalls, other.id = id
    have hold : (d, id) ∈ tickets app ↔ _ := hi.ticket d id
    rw [h.held.mem_iff, List.mem_cons, Prod.mk.injEq, hold]
    constructor
    · rintro (⟨rfl, rfl⟩ | ⟨other, hmem, heq⟩)
      · exact ⟨call, h.mem_pending.mpr (.inl ⟨rfl, rfl⟩), rfl⟩
      · exact ⟨other, h.mem_pending.mpr (.inr hmem), heq⟩
    · rintro ⟨other, hmem, heq⟩
      rcases h.mem_pending.mp hmem with ⟨rfl, rfl⟩ | hmem
      · exact .inl ⟨rfl, heq.symm⟩
      · exact .inr ⟨other, hmem, heq⟩
  · show other.id < app'.nextCall
    rw [h.next]
    rcases mem_append_call hmem with ⟨rfl, rfl⟩ | hmem
    · omega
    · exact Nat.lt_succ_of_lt (hi.sentIssued d other m hmem)
  · rcases h.mem_pending.mp hmem with ⟨rfl, rfl⟩ | hmem
    · rw [hundelivered]
      refine ⟨⟨copy, List.mem_append_right _ (.head _)⟩, fun before m hbefore heq => ?_⟩
      rcases mem_append_call hbefore with ⟨-, rfl⟩ | hbefore
      · rfl
      · have hlt : before.id < app.nextCall := hi.sentIssued d before m hbefore
        omega
    · have hold : other.id ≠ call.id := hfresh d other hmem
      obtain ⟨⟨m, hm⟩, hunique⟩ := hi.asSent d other hmem
      refine ⟨⟨m, List.mem_append_left _ hm⟩, fun before m hbefore heq => ?_⟩
      rcases mem_append_call hbefore with ⟨-, rfl⟩ | hbefore
      · exact absurd heq.symm hold
      · exact hunique before m hbefore heq
  · show replies (sent ++ [.call c call copy]) d other.id + owed (app'.client d) other.id = 1
    have hnone : replies [Output.call c call copy] d other.id = 0 := rfl
    rw [replies_append, hnone, Nat.add_zero]
    rcases mem_append_call hmem with ⟨rfl, rfl⟩ | hmem
    · rw [hi.replies_unissued d (Nat.le_of_eq hid.symm), h.owed_issued hnew (hfresh d)]
    · have hlt : other.id < app.nextCall := hi.sentIssued d other m hmem
      rw [h.owed_before (by omega)]
      exact hi.once d other m hmem htype
  · have hmem : Output.reply d other m received ∈ sent := by
      rcases List.mem_append.mp hmem with hmem | hmem
      · exact hmem
      · cases List.mem_singleton.mp hmem
    obtain ⟨hserial, htype, m', hm'⟩ := hi.answer d other m received hmem
    exact ⟨hserial, htype, m', List.mem_append_left _ hm'⟩

theorem CallsInv.forward {app : App} {sent : List Output} (hi : CallsInv [] ⟨app, sent⟩)
    {c : Nat} (hc : c < app.nextClient) (origin target : Bus) (request : Message)
    (destination : Option String) (serial : Nat) :
    CallsInv [] ⟨(forward app c origin target request destination serial).1,
      sent ++ (forward app c origin target request destination serial).2⟩ := by
  unfold SystemBus.forward
  split
  · refine hi.same (fun _ => ⟨rfl, rfl⟩) (Nat.le_refl _) rfl (.refl _) ?_
    exact fun _ ho => replyError_plain ho
  · next hlimit =>
    exact hi.issue hc (by omega) (forward_issues app c _ rfl) rfl rfl _

/-! ### Delivering -/

/-- The agent flag after an answer, or its absence, has been delivered. -/
def agentAfterReply (call : Call) (reply : Option (Message × Nat)) (agent : Bool) : Bool :=
  match reply with
  | some (message, _) =>
      if messageBounded message ∧ message.type = .methodReturn then agentAfter call agent
      else agent
  | none => agent

/-- What `deliver_reply` does to the state and what it sends. -/
structure Delivers (app : App) (c : Nat) (call : Call) (reply : Option (Message × Nat))
    (r : App × List Output) : Prop where
  rest : r.1 = { app with client := r.1.client }
  other : ∀ d, d ≠ c → r.1.client d = app.client d
  client : r.1.client c = { app.client c with
    pendingCalls := (app.client c).pendingCalls.map (Call.markDelivered call.id)
    agent := agentAfterReply call reply (app.client c).agent }
  outputs : (r.2 = [] ∧ call.request.type ≠ .methodCall) ∨
    ∃ message, r.2 = [.reply c call message (reply.map Prod.snd)] ∧
      message.replySerial = call.request.serial ∧
      (message.type = .error ∨ ∃ received position, reply = some (received, position) ∧
        message = relayedReply (app.client c) call received)
  relayed : ∀ received position, reply = some (received, position) →
    messageBounded received = true →
    r.2 = [.reply c call (relayedReply (app.client c) call received) (some position)]
  refused : (∀ r ∈ reply, messageBounded r.1 = false) →
    ∀ d other message n, .reply d other message n ∈ r.2 → message.type = .error

theorem relayedReply_serial (client : Client) (call : Call) (reply : Message) :
    (relayedReply client call reply).replySerial = call.request.serial := by
  unfold relayedReply
  dsimp only
  split <;> rfl

theorem relayedReply_isReply (client : Client) (call : Call) (reply : Message) :
    isReply (relayedReply client call reply) = isReply reply := by
  unfold relayedReply
  dsimp only
  split <;> rfl

/-- The first thing it does: the call is marked. -/
structure Marks (app : App) (c : Nat) (call : Call) (app' : App) : Prop where
  client : app'.client c = { app.client c with
    pendingCalls := (app.client c).pendingCalls.map (Call.markDelivered call.id) }
  other : ∀ d, d ≠ c → app'.client d = app.client d
  rest : ∀ client, { app' with client := client } = { app with client := client }

theorem updateClient_marks (app : App) (c : Nat) (call : Call) :
    Marks app c call (app.updateClient c fun client =>
      { client with
        pendingCalls := client.pendingCalls.map (Call.markDelivered call.id) }) where
  client := App.updateClient_client ..
  other := fun _ hd => App.updateClient_other _ _ hd
  rest := fun _ => rfl

/-- Without a message that may be relayed the answer is an error, and only a call has one. -/
theorem Marks.delivers_error {app app' : App} {c : Nat} {call : Call} (h : Marks app c call app')
    {reply : Option (Message × Nat)} (hnone : ∀ r ∈ reply, messageBounded r.1 = false)
    (name text : String) :
    Delivers app c call reply (app', ((methodError call.request name text).map
      fun message => Output.reply c call message (reply.map Prod.snd)).toList) := by
  have hagent : agentAfterReply call reply (app.client c).agent = (app.client c).agent := by
    cases reply with
    | none => rfl
    | some reply => simp [agentAfterReply, hnone reply rfl]
  refine ⟨h.rest app'.client, h.other, h.client.trans (by rw [hagent]), ?_,
    fun received position hreply hbounded => ?_, fun _ d other message n hmem => ?_⟩
  · unfold methodError
    by_cases htype : call.request.type = .methodCall
    · right
      rw [if_pos htype]
      exact ⟨_, rfl, rfl, .inl rfl⟩
    · left
      rw [if_neg htype]
      exact ⟨rfl, htype⟩
  · exact absurd ((hnone _ hreply).symm.trans hbounded) nofun
  · rw [Option.mem_toList, Option.map_eq_some_iff] at hmem
    obtain ⟨sent, hsent, heq⟩ := hmem
    injection heq with _ _ heq _
    rw [← heq]
    unfold methodError at hsent
    split at hsent
    · injection hsent with hsent
      rw [← hsent]
    · cases hsent

theorem Marks.delivers_relayed {app app' : App} {c : Nat} {call : Call}
    (h : Marks app c call app') {message : Message} (position : Nat)
    (hbounded : messageBounded message = true) :
    Delivers app c call (some (message, position))
      (if message.type = .methodReturn then
          app'.updateClient c fun client =>
            { client with agent := agentAfter call client.agent }
        else app',
        [.reply c call (relayedReply (app.client c) call message) (some position)]) := by
  have houtputs : ∃ sent, [Output.reply c call
      (relayedReply (app.client c) call message) (some position)] =
        [.reply c call sent ((some (message, position)).map Prod.snd)] ∧
      sent.replySerial = call.request.serial ∧ (sent.type = .error ∨
        ∃ received p, some (message, position) = some (received, p) ∧
          sent = relayedReply (app.client c) call received) :=
    ⟨_, rfl, relayedReply_serial _ _ _, .inr ⟨message, position, rfl, rfl⟩⟩
  have hrelayed : ∀ received p, some (message, position) = some (received, p) →
      [Output.reply c call (relayedReply (app.client c) call message) (some position)] =
        [.reply c call (relayedReply (app.client c) call received) (some p)] := by
    intro received p heq
    injection heq with heq
    injection heq with hm hp
    rw [hm, hp]
  have hrefused : ¬ ∀ r ∈ some (message, position), messageBounded r.1 = false :=
    fun h => absurd ((h _ rfl).symm.trans hbounded) nofun
  by_cases htype : message.type = .methodReturn
  · rw [if_pos htype]
    refine ⟨h.rest _, fun d hd => ?_, ?_, .inr houtputs,
      fun received p heq _ => hrelayed received p heq, fun h => absurd h hrefused⟩
    · dsimp only
      rw [App.updateClient_other app' _ hd]
      exact h.other d hd
    · dsimp only
      rw [App.updateClient_client, h.client]
      simp [agentAfterReply, hbounded, htype]
  · rw [if_neg htype]
    refine ⟨h.rest app'.client, h.other, h.client.trans ?_, .inr houtputs,
      fun received p heq _ => hrelayed received p heq, fun h => absurd h hrefused⟩
    simp [agentAfterReply, htype]

theorem deliverReply_delivers (app : App) (c : Nat) (call : Call)
    (reply : Option (Message × Nat)) :
    Delivers app c call reply (deliverReply app c call reply) := by
  have hmarks := updateClient_marks app c call
  unfold deliverReply
  dsimp only
  split
  · next hnone =>
      refine hmarks.delivers_error (fun r hr => ?_) _ _
      have hbounded := Option.filter_eq_none_iff.mp hnone r hr
      simpa using hbounded
  · next message position hsome =>
      obtain ⟨hreply, hbounded⟩ := Option.filter_eq_some_iff.mp hsome
      subst hreply
      rw [hmarks.client]
      exact hmarks.delivers_relayed position hbounded

@[simp] theorem Call.markDelivered_id (id : Nat) (call : Call) :
    (call.markDelivered id).id = call.id := by
  unfold Call.markDelivered
  split <;> rfl

theorem Call.markDelivered_undelivered (id : Nat) (call : Call) :
    { call.markDelivered id with delivered := false } =
      { call with delivered := false } := by
  unfold Call.markDelivered
  split <;> rfl

theorem Call.markDelivered_delivered (id : Nat) (call : Call) :
    (call.markDelivered id).delivered = (call.delivered || call.id == id) := by
  unfold Call.markDelivered
  split
  · next h => simp [h]
  · next h => simp [h]

theorem map_markDelivered_id (id : Nat) (calls : List Call) :
    (calls.map (Call.markDelivered id)).map Call.id = calls.map Call.id := by
  rw [List.map_map]
  exact List.map_congr_left fun call _ => Call.markDelivered_id id call

/-- The answer takes the place of one that was owed. -/
theorem Delivers.balance {app : App} {sent : List Output} {c d id : Nat} {call : Call}
    {reply : Option (Message × Nat)} {r : App × List Output} (hd : Delivers app c call reply r)
    (hcall : call ∈ (app.client c).pendingCalls) (hnew : call.delivered = false)
    (hexpected : d = c → id = call.id → call.request.type = .methodCall)
    (hone : replies sent d id + owed (app.client d) id = 1) :
    replies (sent ++ r.2) d id + owed (r.1.client d) id = 1 := by
  rw [replies_append]
  by_cases hsame : d = c ∧ id = call.id
  · obtain ⟨rfl, rfl⟩ := hsame
    rcases hd.outputs with ⟨-, hnone⟩ | ⟨message, hsent, -⟩
    · exact absurd (hexpected rfl rfl) hnone
    · have hreply : replies r.2 d call.id = 1 := by
        rw [hsent]
        simp [replies, answersTo]
      have hafter : owed (r.1.client d) call.id = 0 := by
        refine List.countP_eq_zero.mpr fun after hafter howed => ?_
        rw [hd.client] at hafter
        obtain ⟨before, -, rfl⟩ := List.mem_map.mp hafter
        rw [Call.markDelivered_id, Call.markDelivered_delivered] at howed
        cases hb : before.id == call.id <;> simp [hb] at howed
      have hbefore : 0 < owed (app.client d) call.id := by
        refine List.countP_pos_iff.mpr ⟨call, hcall, ?_⟩
        simp [hnew]
      omega
  · have hreply : replies r.2 d id = 0 := by
      rcases hd.outputs with ⟨hnil, -⟩ | ⟨message, hsent, -⟩
      · rw [hnil]
        rfl
      · rw [hsent]
        refine List.countP_eq_zero.mpr fun o ho hanswer => hsame ?_
        rw [List.mem_singleton.mp ho] at hanswer
        obtain ⟨hc, hid⟩ := Bool.and_eq_true_iff.mp hanswer
        exact ⟨(eq_of_beq hc).symm, (eq_of_beq hid).symm⟩
    have howed : owed (r.1.client d) id = owed (app.client d) id := by
      by_cases hdc : d = c
      · subst hdc
        have hid : id ≠ call.id := fun hid => hsame ⟨rfl, hid⟩
        rw [hd.client]
        unfold owed
        rw [List.countP_map]
        refine List.countP_congr fun before _ => ?_
        rw [Function.comp_apply, Call.markDelivered_id, Call.markDelivered_delivered]
        by_cases hb : before.id = id
        · simp [hb, hid]
        · simp [hb]
      · rw [hd.other d hdc]
    rw [hreply, howed]
    exact hone

section Delivers

variable {app : App} {sent : List Output} {c : Nat} {call other : Call}
  {reply : Option (Message × Nat)} {r : App × List Output}

theorem Delivers.ids (hd : Delivers app c call reply r) (d : Nat) :
    (r.1.client d).pendingCalls.map Call.id = (app.client d).pendingCalls.map Call.id := by
  by_cases hdc : d = c
  · subst hdc
    rw [hd.client]
    exact map_markDelivered_id call.id _
  · rw [hd.other d hdc]

theorem Delivers.length (hd : Delivers app c call reply r) (d : Nat) :
    (r.1.client d).pendingCalls.length = (app.client d).pendingCalls.length := by
  have hlength := congrArg List.length (hd.ids d)
  rwa [List.length_map, List.length_map] at hlength

theorem Delivers.outstanding (hd : Delivers app c call reply r) (d : Nat) :
    (r.1.client d).outstanding = (app.client d).outstanding := by
  by_cases hdc : d = c
  · subst hdc
    rw [hd.client]
  · rw [hd.other d hdc]

/-- A pending call was pending, and has at most been marked. -/
theorem Delivers.marked (hd : Delivers app c call reply r) {d : Nat}
    (h : other ∈ (r.1.client d).pendingCalls) :
    ∃ before ∈ (app.client d).pendingCalls, other.id = before.id ∧
      { other with delivered := false } = { before with delivered := false } := by
  by_cases hdc : d = c
  · subst hdc
    rw [hd.client] at h
    obtain ⟨before, hbefore, rfl⟩ := List.mem_map.mp h
    exact ⟨before, hbefore, Call.markDelivered_id _ _, Call.markDelivered_undelivered _ _⟩
  · rw [hd.other d hdc] at h
    exact ⟨other, h, rfl, rfl⟩

theorem Delivers.sent_call (hd : Delivers app c call reply r) {d : Nat} {m : Message}
    (h : Output.call d other m ∈ sent ++ r.2) : Output.call d other m ∈ sent := by
  rcases List.mem_append.mp h with h | h
  · exact h
  · rcases hd.outputs with ⟨hnil, -⟩ | ⟨message, hone, -⟩
    · rw [hnil] at h
      exact absurd h List.not_mem_nil
    · rw [hone] at h
      cases List.mem_singleton.mp h

/-- An answer that is sent is to the call, and is an answer. -/
theorem Delivers.sent_reply (hd : Delivers app c call reply r)
    (hreply : ∀ r ∈ reply, isReply r.1 = true) {d : Nat} {m : Message} {received : Option Nat}
    (h : Output.reply d other m received ∈ r.2) :
    d = c ∧ other = call ∧ m.replySerial = call.request.serial ∧ isReply m = true := by
  rcases hd.outputs with ⟨hnil, -⟩ | ⟨message, hone, hserial, hkind⟩
  · rw [hnil] at h
    exact absurd h List.not_mem_nil
  · rw [hone] at h
    injection List.mem_singleton.mp h with hdc hother hm
    subst hdc hother hm
    refine ⟨rfl, rfl, hserial, ?_⟩
    rcases hkind with hkind | ⟨reply', position, hsome, hrelayed⟩
    · rw [isReply, hkind]
      rfl
    · rw [hrelayed, relayedReply_isReply]
      exact hreply _ hsome

end Delivers

/-- An answer to a pending call that has had none. -/
theorem CallsInv.deliver {hand : List (Nat × Nat)} {app : App} {sent : List Output}
    (hi : CallsInv hand ⟨app, sent⟩) {c : Nat} {call : Call}
    (hcall : call ∈ (app.client c).pendingCalls) (hnew : call.delivered = false)
    {reply : Option (Message × Nat)} (hreply : ∀ r ∈ reply, isReply r.1 = true)
    {r : App × List Output} (hd : Delivers app c call reply r) :
    CallsInv hand ⟨r.1, sent ++ r.2⟩ := by
  have hnextClient : r.1.nextClient = app.nextClient := by rw [hd.rest]
  have hnextCall : r.1.nextCall = app.nextCall := by rw [hd.rest]
  have htickets : tickets r.1 = tickets app := by rw [hd.rest]; rfl
  refine {
    unborn := fun d h => ?_
    outstanding := fun d => ?_
    limit := fun d => Nat.le_trans (Nat.le_of_eq (hd.length d)) (hi.limit d)
    distinct := fun d => ?_
    issued := fun d other h => ?_
    held := ?_
    ticket := fun d id => ?_
    sentIssued := fun d other m h => ?_
    asSent := fun d other h => ?_
    once := fun d other m h htype => ?_
    answer := fun d other m received h => ?_ }
  · obtain ⟨hpending, houtstanding⟩ := hi.unborn d (hnextClient ▸ h)
    refine ⟨List.eq_nil_of_length_eq_zero ?_, (hd.outstanding d).trans houtstanding⟩
    exact (hd.length d).trans (congrArg List.length hpending)
  · exact (hd.outstanding d).trans ((hi.outstanding d).trans (hd.length d).symm)
  · show ((r.1.client d).pendingCalls.map Call.id).Nodup
    rw [hd.ids]
    exact hi.distinct d
  · obtain ⟨before, hbefore, hid, -⟩ := hd.marked h
    rw [hid]
    exact Nat.lt_of_lt_of_eq (hi.issued d before hbefore) hnextCall.symm
  · show (hand ++ tickets r.1).Nodup
    rw [htickets]
    exact hi.held
  · show (d, id) ∈ hand ++ tickets r.1 ↔ ∃ other ∈ (r.1.client d).pendingCalls, other.id = id
    rw [htickets, ← List.mem_map, hd.ids, List.mem_map]
    exact hi.ticket d id
  · exact Nat.lt_of_lt_of_eq (hi.sentIssued d other m (hd.sent_call h)) hnextCall.symm
  · obtain ⟨before, hbefore, hid, hsame⟩ := hd.marked h
    obtain ⟨⟨m, hm⟩, hunique⟩ := hi.asSent d before hbefore
    rw [hsame, hid]
    exact ⟨⟨m, List.mem_append_left _ hm⟩,
      fun first copy hfirst => hunique first copy (hd.sent_call hfirst)⟩
  · refine hd.balance hcall hnew ?_ (hi.once d other m (hd.sent_call h) htype)
    rintro rfl hid
    have hrequest := (hi.asSent d call hcall).2 other m (hd.sent_call h) hid
    rw [hrequest] at htype
    exact htype
  · rcases List.mem_append.mp h with h | h
    · obtain ⟨hserial, htype, m', hm'⟩ := hi.answer d other m received h
      exact ⟨hserial, htype, m', List.mem_append_left _ hm'⟩
    · obtain ⟨rfl, rfl, hserial, htype⟩ := hd.sent_reply hreply h
      obtain ⟨⟨m', hm'⟩, -⟩ := hi.asSent d other hcall
      exact ⟨hserial, htype, m', List.mem_append_left _ hm'⟩

/-! ### Finishing -/

theorem filter_id_length {calls : List Call} {id : Nat} (hnodup : (calls.map Call.id).Nodup)
    (hmem : ∃ call ∈ calls, call.id = id) :
    (calls.filter (·.id ≠ id)).length = calls.length - 1 := by
  obtain ⟨call, hcall, rfl⟩ := hmem
  induction calls with
  | nil => exact absurd hcall List.not_mem_nil
  | cons first rest ih =>
      obtain ⟨hfirst, hnodup⟩ := List.nodup_cons.mp hnodup
      rcases List.mem_cons.mp hcall with rfl | hrest
      · have hall : rest.filter (·.id ≠ call.id) = rest := by
          refine List.filter_eq_self.mpr fun other hother => ?_
          have hne : other.id ≠ call.id := fun h =>
            hfirst (h ▸ List.mem_map_of_mem hother)
          simpa using hne
        rw [List.filter_cons_of_neg (by simp), hall, List.length_cons, Nat.add_sub_cancel]
      · have hne : first.id ≠ call.id := fun h =>
          hfirst (h ▸ List.mem_map_of_mem hrest)
        have hpos : 0 < rest.length := List.length_pos_of_mem hrest
        rw [List.filter_cons_of_pos (by simpa using hne), List.length_cons, ih hnodup hrest,
          List.length_cons]
        omega

/-- What is left once a call is over. -/
structure Retires (app : App) (c id : Nat) (app' : App) : Prop where
  client : app'.client c = { app.client c with
    pendingCalls := (app.client c).pendingCalls.filter (·.id ≠ id)
    outstanding := (app.client c).outstanding - 1 }
  other : ∀ d, d ≠ c → app'.client d = app.client d
  rest : app' = { app with client := app'.client }

theorem updateClient_retires (app : App) (c id : Nat) :
    Retires app c id (app.updateClient c fun client =>
      { client with
        pendingCalls := client.pendingCalls.filter (·.id ≠ id)
        outstanding := client.outstanding - 1 }) where
  client := App.updateClient_client ..
  other := fun _ hd => App.updateClient_other _ _ hd
  rest := rfl

section Retires

variable {app app' : App} {c id d : Nat} {call : Call}

theorem Retires.mem_pending (h : Retires app c id app') :
    call ∈ (app'.client d).pendingCalls ↔
      call ∈ (app.client d).pendingCalls ∧ ¬(d = c ∧ call.id = id) := by
  by_cases hd : d = c
  · subst hd
    rw [h.client, List.mem_filter, decide_eq_true_eq]
    simp only [true_and]
  · rw [h.other d hd]
    simp only [hd, false_and, not_false_eq_true, and_true]

/-- The call that is over was not owed an answer any more. -/
theorem Retires.owed (h : Retires app c id app')
    (hdone : ∀ call ∈ (app.client c).pendingCalls, call.id = id → call.delivered = true)
    (i : Nat) : owed (app'.client d) i = owed (app.client d) i := by
  by_cases hd : d = c
  · subst hd
    rw [h.client]
    unfold SystemBus.owed
    dsimp only
    rw [List.countP_filter]
    refine List.countP_congr fun other hmem => ?_
    by_cases hid : other.id = id
    · simp [hdone other hmem hid]
    · simp [hid]
  · rw [h.other d hd]

end Retires

/-- A delivered call is over, and its ticket is used up. -/
theorem CallsInv.retire {app app' : App} {sent : List Output} {c id : Nat}
    (hi : CallsInv [(c, id)] ⟨app, sent⟩) (h : Retires app c id app')
    (hdone : ∀ call ∈ (app.client c).pendingCalls, call.id = id → call.delivered = true) :
    CallsInv [] ⟨app', sent⟩ := by
  have hnextClient : app'.nextClient = app.nextClient := by rw [h.rest]
  have hnextCall : app'.nextCall = app.nextCall := by rw [h.rest]
  have htickets : tickets app' = tickets app := by rw [h.rest]; rfl
  have hpending : ∃ call ∈ (app.client c).pendingCalls, call.id = id :=
    (hi.ticket c id).mp (List.mem_append_left _ (.head _))
  refine {
    unborn := fun d hd => ?_
    outstanding := client_keeps (p := fun client =>
      client.outstanding = client.pendingCalls.length) h.other hi.outstanding ?_
    limit := client_keeps (p := fun client => client.pendingCalls.length ≤ 64)
      h.other hi.limit ?_
    distinct := client_keeps (p := fun client => (client.pendingCalls.map Call.id).Nodup)
      h.other hi.distinct ?_
    issued := fun d call hmem => ?_
    held := ?_
    ticket := fun d i => ?_
    sentIssued := fun d call copy hmem => ?_
    asSent := fun d call hmem => hi.asSent d call (h.mem_pending.mp hmem).1
    once := fun d call copy hmem htype => ?_
    answer := hi.answer }
  · have hunborn : (app.client d).pendingCalls = [] ∧ (app.client d).outstanding = 0 :=
      hi.unborn d (hnextClient ▸ hd)
    have hne : d ≠ c := by
      rintro rfl
      obtain ⟨call, hcall, -⟩ := hpending
      rw [hunborn.1] at hcall
      exact absurd hcall List.not_mem_nil
    show (app'.client d).pendingCalls = [] ∧ (app'.client d).outstanding = 0
    rw [h.other d hne]
    exact hunborn
  · rw [h.client]
    exact (congrArg (· - 1) (hi.outstanding c)).trans
      (filter_id_length (hi.distinct c) hpending).symm
  · rw [h.client]
    exact Nat.le_trans (List.length_filter_le _ _) (hi.limit c)
  · rw [h.client]
    exact (hi.distinct c).sublist (List.filter_sublist.map _)
  · exact Nat.lt_of_lt_of_eq (hi.issued d call (h.mem_pending.mp hmem).1) hnextCall.symm
  · show (tickets app').Nodup
    rw [htickets]
    exact (List.nodup_cons.mp hi.held).2
  · have hnotin : (c, id) ∉ tickets app := (List.nodup_cons.mp hi.held).1
    have hbefore : (d, i) ∈ (c, id) :: tickets app ↔
      ∃ call ∈ (app.client d).pendingCalls, call.id = i := hi.ticket d i
    show (d, i) ∈ tickets app' ↔ ∃ call ∈ (app'.client d).pendingCalls, call.id = i
    rw [List.mem_cons, Prod.mk.injEq] at hbefore
    rw [htickets]
    constructor
    · intro hmem
      obtain ⟨call, hcall, rfl⟩ := hbefore.mp (.inr hmem)
      refine ⟨call, h.mem_pending.mpr ⟨hcall, ?_⟩, rfl⟩
      rintro ⟨rfl, rfl⟩
      exact hnotin hmem
    · rintro ⟨call, hcall, rfl⟩
      obtain ⟨hcall, hne⟩ := h.mem_pending.mp hcall
      rcases hbefore.mpr ⟨call, hcall, rfl⟩ with hover | hmem
      · exact absurd hover hne
      · exact hmem
  · exact Nat.lt_of_lt_of_eq (hi.sentIssued d call copy hmem) hnextCall.symm
  · show replies sent d call.id + owed (app'.client d) call.id = 1
    rw [h.owed hdone]
    exact hi.once d call copy hmem htype

theorem CallsInv.finish {app : App} {sent : List Output} {c id : Nat}
    (hi : CallsInv [(c, id)] ⟨app, sent⟩) {reply : Option (Message × Nat)}
    (hreply : ∀ r ∈ reply, isReply r.1 = true) :
    CallsInv [] ⟨(forwardFinished app c id reply).1,
      sent ++ (forwardFinished app c id reply).2⟩ := by
  have hpending : ∃ call ∈ (app.client c).pendingCalls, call.id = id :=
    (hi.ticket c id).mp (List.mem_append_left _ (.head _))
  unfold forwardFinished
  split
  · next hnone =>
      obtain ⟨call, hcall, rfl⟩ := hpending
      exact absurd (beq_self_eq_true call.id) (List.find?_eq_none.mp hnone call hcall)
  · next call hfind =>
      have hcall := List.mem_of_find?_eq_some hfind
      have hid : call.id = id := by simpa using List.find?_some hfind
      have hunique : ∀ other ∈ (app.client c).pendingCalls, other.id = id → other = call :=
        fun other hother h => List.inj_on_of_nodup_map (hi.distinct c) hother hcall
          (h.trans hid.symm)
      dsimp only
      split
      · next hdelivered =>
          dsimp only
          rw [List.append_nil]
          refine hi.retire (updateClient_retires ..) fun other hother h => ?_
          rw [hunique other hother h]
          exact hdelivered
      · next hdelivered =>
          have hd := deliverReply_delivers app c call reply
          refine (hi.deliver hcall (Bool.eq_false_iff.mpr hdelivered) hreply hd).retire
            (updateClient_retires ..) ?_
          intro other hother h
          have hother : other ∈ ((deliverReply app c call reply).1.client c).pendingCalls :=
            hother
          rw [hd.client] at hother
          obtain ⟨before, -, rfl⟩ := List.mem_map.mp hother
          rw [Call.markDelivered_id] at h
          rw [Call.markDelivered_delivered, h, hid]
          simp

/-- A finished call is not pending any more. -/
theorem forwardFinished_removes (app : App) (c id : Nat) (reply : Option (Message × Nat)) :
    ∀ call ∈ ((forwardFinished app c id reply).1.client c).pendingCalls, call.id ≠ id := by
  intro call hcall
  unfold forwardFinished at hcall
  split at hcall
  · next hnone =>
      simpa using List.find?_eq_none.mp hnone call hcall
  · dsimp only at hcall
    rw [App.updateClient_client] at hcall
    simpa using (List.mem_filter.mp hcall).2

end Spaces.SystemBus
