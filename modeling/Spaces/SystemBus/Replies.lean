import Spaces.SystemBus.Queue

/-!
# Every forwarded call is answered once

Each step keeps the ledger of calls, so that in every run each forwarded call is
answered once, and in the order in which answers and signals were received.
-/

namespace Spaces.SystemBus

open Spaces.Library

/-! ## The calls over a step -/

theorem queueMessage_calls (app : App) (e : Event) :
    (queueMessage app e).1.client = app.client ∧
      (queueMessage app e).1.nextClient = app.nextClient ∧
      (queueMessage app e).1.nextCall = app.nextCall ∧
      (queueMessage app e).1.waiting = app.waiting ∧
      (queueMessage app e).1.idle = app.idle := by
  unfold queueMessage
  split <;> exact ⟨rfl, rfl, rfl, rfl, rfl⟩

theorem queueMessage_plain {app : App} {e : Event} {o : Output}
    (h : o ∈ (queueMessage app e).2) : o.plain := by
  unfold queueMessage at h
  split at h
  · exact replyError_plain h
  · exact absurd h List.not_mem_nil

theorem tickets_congr {app app' : App} (hwaiting : app'.waiting = app.waiting)
    (hidle : app'.idle.filterMap Idle.ticket = app.idle.filterMap Idle.ticket) :
    tickets app' = tickets app := by
  unfold tickets
  rw [hwaiting, hidle]

/-- The calls stay the same while a message is queued. -/
theorem CallsInv.queue {app app' : App} {sent : List Output} {e : Event}
    (hi : CallsInv [] ⟨app, sent⟩)
    (hclient : app'.client = app.client) (hclients : app'.nextClient = app.nextClient)
    (hnext : app'.nextCall = app.nextCall) (htickets : tickets app' = tickets app)
    (before : App) : CallsInv [] ⟨app', sent ++ (queueMessage before e).2⟩ := by
  refine hi.same (fun c => ?_) (Nat.le_of_eq hclients.symm) hnext ?_
    fun _ ho => queueMessage_plain ho
  · rw [hclient]
    exact ⟨rfl, rfl⟩
  · rw [htickets]

theorem CallsInv.receive {app : App} {sent : List Output} (hi : CallsInv [] ⟨app, sent⟩)
    (bus : Bus) (message : Message) : CallsInv [] ⟨(receive app bus message).1,
      sent ++ (receive app bus message).2⟩ := by
  unfold SystemBus.receive
  split
  · next client _ _ =>
      obtain ⟨hclient, hclients, hnext, hwaiting, hidle⟩ := queueMessage_calls
        { app with received := app.received + 1 } ⟨client, bus, message, app.received⟩
      dsimp only
      split
      · exact hi.queue hclient hclients hnext (tickets_congr hwaiting (by rw [hidle])) _
      · split
        · refine hi.queue ?_ ?_ ?_ ?_ _
          · exact hclient
          · exact hclients
          · exact hnext
          · exact tickets_congr hwaiting (congrArg _ hidle)
        · exact hi.same (fun _ => ⟨rfl, rfl⟩) (Nat.le_refl _) rfl (.refl _)
            fun _ ho => absurd ho List.not_mem_nil
  · exact hi.same (fun _ => ⟨rfl, rfl⟩) (Nat.le_refl _) rfl (.refl _)
      fun _ ho => absurd ho List.not_mem_nil

/-- A ticket goes from the list of waiting calls to the hand. -/
theorem tickets_take {app : App} {waiting : Waiting} (h : waiting ∈ app.waiting) :
    (tickets app).Perm
      (waiting.ticket :: tickets { app with waiting := app.waiting.erase waiting }) := by
  unfold tickets
  exact ((List.perm_cons_erase h).map Waiting.ticket).append_right _

/-- And from there to a source of the main loop. -/
theorem tickets_add {app : App} {source : Idle} {ticket : Nat × Nat}
    (h : source.ticket = some ticket) :
    (ticket :: tickets app).Perm (tickets { app with idle := app.idle ++ [source] }) := by
  unfold tickets
  dsimp only
  rw [List.filterMap_append, List.filterMap_cons, h, List.filterMap_nil,
    ← List.append_assoc]
  exact (List.perm_append_singleton _ _).symm

theorem tickets_other {app : App} {source : Idle} (h : source.ticket = none) :
    tickets { app with idle := app.idle ++ [source] } = tickets app := by
  unfold tickets
  dsimp only
  rw [List.filterMap_append, List.filterMap_cons, h, List.filterMap_nil, List.append_nil]

theorem CallsInv.quiet {app app' : App} {sent : List Output} (hi : CallsInv [] ⟨app, sent⟩)
    (hclient : app'.client = app.client) (hclients : app'.nextClient = app.nextClient)
    (hnext : app'.nextCall = app.nextCall) (htickets : (tickets app).Perm (tickets app')) :
    CallsInv [] ⟨app', sent ++ []⟩ := by
  refine hi.same (fun c => ?_) (Nat.le_of_eq hclients.symm) hnext htickets
    fun _ ho => absurd ho List.not_mem_nil
  rw [hclient]
  exact ⟨rfl, rfl⟩

theorem CallsInv.matchReply {app : App} {sent : List Output}
    (hi : CallsInv [] ⟨app, sent⟩) : CallsInv [] ⟨matchReply app, sent ++ []⟩ := by
  unfold SystemBus.matchReply
  split
  · exact hi.quiet rfl rfl rfl (.refl _)
  · next e _ =>
      dsimp only
      split
      · next waiting hfind =>
          exact hi.quiet rfl rfl rfl
            ((tickets_take (List.mem_of_find?_eq_some hfind)).trans (tickets_add rfl))
      · exact hi.quiet rfl rfl rfl (.refl _)

theorem CallsInv.fail {app : App} {sent : List Output} (hi : CallsInv [] ⟨app, sent⟩)
    (c id : Nat) : CallsInv [] ⟨fail app c id, sent ++ []⟩ := by
  unfold SystemBus.fail
  split
  · next waiting hfind =>
      have hfound := List.find?_some hfind
      obtain ⟨hc, hid⟩ := Bool.and_eq_true_iff.mp hfound
      have hticket : (Idle.finished c id none).ticket = some waiting.ticket := by
        rw [Waiting.ticket, eq_of_beq hc, eq_of_beq hid]
        rfl
      exact hi.quiet rfl rfl rfl
        ((tickets_take (List.mem_of_find?_eq_some hfind)).trans (tickets_add hticket))
  · exact hi.quiet rfl rfl rfl (.refl _)

theorem CallsInv.watchStarted {app : App} {sent : List Output}
    (hi : CallsInv [] ⟨app, sent⟩) (c : Nat) (service : Service) (owner : Option String) :
    CallsInv [] ⟨watchStarted app c service owner, sent ++ []⟩ := by
  unfold SystemBus.watchStarted
  split
  · exact hi.quiet rfl rfl rfl (.refl _)
  · refine hi.quiet rfl rfl rfl ?_
    have hother : tickets { app with
        idle := app.idle ++ [.nameOwner c service owner app.received] } = tickets app :=
      tickets_other rfl
    exact hother ▸ .refl _

theorem CallsInv.nameOwnerChanged {app : App} {sent : List Output}
    (hi : CallsInv [] ⟨app, sent⟩) (c : Nat) (service : Service)
    (oldOwner newOwner : Option String) :
    CallsInv [] ⟨(nameOwnerChanged app c service oldOwner newOwner).1,
      sent ++ (nameOwnerChanged app c service oldOwner newOwner).2⟩ := by
  unfold SystemBus.nameOwnerChanged
  split
  · exact hi.quiet rfl rfl rfl (.refl _)
  split
  · exact hi.quiet rfl rfl rfl (.refl _)
  · dsimp only
    generalize Event.mk (some c) (.host c) _ app.received = event
    obtain ⟨hclient, hclients, hnext, hwaiting, hidle⟩ := queueMessage_calls
      { app with received := app.received + 1 } event
    have hother : (app.idle ++ [Idle.nameOwnerChanged c service oldOwner newOwner
        app.received]).filterMap Idle.ticket =
          app.idle.filterMap Idle.ticket := by
      rw [List.filterMap_append]
      exact List.append_nil _
    refine hi.queue ?_ ?_ ?_ ?_ _
    · exact hclient
    · exact hclients
    · exact hnext
    · refine tickets_congr hwaiting ?_
      dsimp only
      split
      · rw [hidle]
        exact hother
      · rw [hidle]

theorem notifyObserver_plain {client : Client} {c : Nat} {service : Service} {o : Output}
    (h : o ∈ notifyObserver client c service) : o.plain := by
  unfold notifyObserver at h
  split at h
  · rw [List.mem_singleton.mp h]
    trivial
  · exact absurd h List.not_mem_nil

/-- A name watch leaves the calls alone. -/
theorem watchReport_calls (app : App) (c : Nat) (service : Service) (lost : Bool)
    (owner : Option String) :
    (∀ d, ((watchReport app c service lost owner).1.client d).pendingCalls =
        (app.client d).pendingCalls ∧
      ((watchReport app c service lost owner).1.client d).outstanding =
        (app.client d).outstanding) ∧
    ∀ o ∈ (watchReport app c service lost owner).2, o.plain := by
  have hupdate : ∀ (app : App) (f : Client → Client), (∀ client,
      (f client).pendingCalls = client.pendingCalls ∧
        (f client).outstanding = client.outstanding) → ∀ d,
      ((app.updateClient c f).client d).pendingCalls = (app.client d).pendingCalls ∧
        ((app.updateClient c f).client d).outstanding = (app.client d).outstanding := by
    intro app f hf
    exact app.updateClient_rel (r := fun before after =>
      after.pendingCalls = before.pendingCalls ∧ after.outstanding = before.outstanding)
      (fun _ => ⟨rfl, rfl⟩) (hf _)
  have hvanished := hupdate app (fun client => { client with
    owners := Function.update client.owners service none
    agent := if service = .networkManager then false else client.agent })
    fun _ => ⟨rfl, rfl⟩
  have happeared := fun app owner => hupdate app (fun client => { client with
    owners := Function.update client.owners service (some owner) }) fun _ => ⟨rfl, rfl⟩
  unfold watchReport
  split
  · exact ⟨fun _ => ⟨rfl, rfl⟩, fun _ ho => absurd ho List.not_mem_nil⟩
  · cases lost with
    | false =>
        cases owner with
        | none => exact ⟨fun _ => ⟨rfl, rfl⟩, fun _ ho => absurd ho List.not_mem_nil⟩
        | some owner => exact ⟨happeared app owner, fun _ ho => notifyObserver_plain ho⟩
    | true =>
        cases owner with
        | none => exact ⟨hvanished, fun _ ho => notifyObserver_plain ho⟩
        | some owner =>
            refine ⟨fun d => ?_, fun o ho => ?_⟩
            · have h := happeared (vanished app c service).1 owner d
              exact ⟨h.1.trans (hvanished d).1, h.2.trans (hvanished d).2⟩
            · rcases List.mem_append.mp ho with ho | ho
              · exact notifyObserver_plain ho
              · exact notifyObserver_plain ho

theorem CallsInv.watchReport {app : App} {sent : List Output}
    (hi : CallsInv [] ⟨app, sent⟩) (c : Nat) (service : Service) (lost : Bool)
    (owner : Option String) : CallsInv [] ⟨(watchReport app c service lost owner).1,
      sent ++ (watchReport app c service lost owner).2⟩ := by
  obtain ⟨hcalls, hplain⟩ := watchReport_calls app c service lost owner
  have hrest : (SystemBus.watchReport app c service lost owner).1 = { app with
      client := (SystemBus.watchReport app c service lost owner).1.client } := by
    unfold SystemBus.watchReport
    split
    · rfl
    · cases lost <;> cases owner <;> rfl
  have htickets := congrArg tickets hrest
  have hclients := congrArg App.nextClient hrest
  refine hi.same hcalls (Nat.le_of_eq hclients.symm) ?_ (.of_eq htickets.symm) hplain
  rw [hrest]

theorem CallsInv.acts {app : App} {sent : List Output} (hi : CallsInv [] ⟨app, sent⟩)
    (hq : QueueInv app) {event : Option Event}
    (hevent : ∀ e c, event = some e → e.client = some c → c < app.nextClient)
    {r : App × List Output} (h : Acts app event r) : CallsInv [] ⟨r.1, sent ++ r.2⟩ := by
  cases h with
  | plain hframe hplain => exact hi.frame hframe hplain
  | @forwards app₁ c serial origin target request destination hframe _ hknown _ =>
      have hi₁ : CallsInv [] ⟨app₁, sent ++ []⟩ :=
        hi.frame hframe fun _ ho => absurd ho List.not_mem_nil
      rw [List.append_nil] at hi₁
      exact hi₁.forward (hknown hq.known hevent) origin target request destination serial
  | @delivers c call e _ hreply hcall =>
      have hmem := List.mem_of_find?_eq_some hcall
      have hfound := List.find?_some hcall
      simp only [Bool.and_eq_true, Bool.not_eq_true'] at hfound
      refine hi.deliver hmem hfound.1.1 (fun r hr => ?_) (deliverReply_delivers _ _ _ _)
      exact Option.some.inj hr ▸ hreply

theorem CallsInv.process {app : App} {sent : List Output} (hi : CallsInv [] ⟨app, sent⟩)
    (hq : QueueInv app) (env : Env) : CallsInv [] ⟨(processEvent env app).1,
      sent ++ (processEvent env app).2⟩ := by
  unfold processEvent
  split
  · exact hi.quiet rfl rfl rfl (.refl _)
  · next e rest hqueue =>
      have hi₀ : CallsInv [] ⟨{ app with queue := rest, queued := app.queued - 1 },
          sent ++ []⟩ := hi.quiet rfl rfl rfl (.refl _)
      rw [List.append_nil] at hi₀
      refine hi₀.acts (hq.pop hqueue).1 (fun e' c he' hc => ?_) handleEvent_acts
      injection he' with he'
      subst he'
      exact hq.clients e (by rw [hqueue]; exact .head _) c hc

theorem CallsInv.dispatch {app : App} {sent : List Output} (hi : CallsInv [] ⟨app, sent⟩)
    (hq : QueueInv app) : CallsInv [] ⟨(dispatch app).1, sent ++ (dispatch app).2⟩ := by
  unfold SystemBus.dispatch
  split
  · next collected source rest _ hidle =>
      have htickets : tickets app = app.waiting.map Waiting.ticket ++
          (source :: rest).filterMap Idle.ticket := by
        unfold tickets
        rw [hidle]
      cases source with
      | finished c id reply =>
          have hi₀ : CallsInv [(c, id)]
              ⟨{ app with idle := rest, collected := collected }, sent ++ []⟩ := by
            refine hi.same (fun _ => ⟨rfl, rfl⟩) (Nat.le_refl _) rfl ?_
              fun _ ho => absurd ho List.not_mem_nil
            rw [List.nil_append, htickets]
            exact List.perm_middle
          rw [List.append_nil] at hi₀
          refine hi₀.finish fun r hr => hq.replies c id r ?_
          rw [hidle, ← Option.mem_def.mp hr]
          exact .head _
      | nameOwner c service owner position =>
          have hi₀ : CallsInv []
              ⟨{ app with idle := rest, collected := collected }, sent ++ []⟩ :=
            hi.quiet rfl rfl rfl (htickets ▸ .refl _)
          rw [List.append_nil] at hi₀
          exact hi₀.watchReport _ _ _ _
      | nameOwnerChanged c service oldOwner newOwner position =>
          have hi₀ : CallsInv []
              ⟨{ app with idle := rest, collected := collected }, sent ++ []⟩ :=
            hi.quiet rfl rfl rfl (htickets ▸ .refl _)
          rw [List.append_nil] at hi₀
          exact hi₀.watchReport _ _ _ _
  · exact hi.quiet rfl rfl rfl (.refl _)

theorem CallsInv.timeout {app : App} {sent : List Output} (hi : CallsInv [] ⟨app, sent⟩)
    (c id : Nat) : CallsInv [] ⟨(timeout app c id).1, sent ++ (timeout app c id).2⟩ := by
  unfold SystemBus.timeout
  split
  · next waiting hfind =>
      have hfound := List.find?_some hfind
      obtain ⟨hc, hid⟩ := Bool.and_eq_true_iff.mp hfound
      have hticket : waiting.ticket = (c, id) := by
        rw [Waiting.ticket, eq_of_beq hc, eq_of_beq hid]
      have hi₀ : CallsInv [(c, id)]
          ⟨{ app with waiting := app.waiting.erase waiting }, sent ++ []⟩ := by
        refine hi.same (fun _ => ⟨rfl, rfl⟩) (Nat.le_refl _) rfl ?_
          fun _ ho => absurd ho List.not_mem_nil
        rw [← hticket]
        exact tickets_take (List.mem_of_find?_eq_some hfind)
      rw [List.append_nil] at hi₀
      exact hi₀.finish fun r hr => absurd hr (Option.not_mem_none r)
  · exact hi.quiet rfl rfl rfl (.refl _)

theorem CallsInv.step {t : Trace} (hi : CallsInv [] t) (hq : QueueInv t.app) (s : Step) :
    CallsInv [] (t.next s) := by
  have hframe : ∀ {app' : App}, Frame t.app app' → CallsInv [] ⟨app', t.sent ++ []⟩ :=
    fun h => CallsInv.frame hi h fun _ ho => absurd ho List.not_mem_nil
  cases s with
  | receive bus message => exact CallsInv.receive hi bus message
  | «match» => exact CallsInv.matchReply hi
  | watchStarted c service owner => exact CallsInv.watchStarted hi c service owner
  | nameOwnerChanged c service oldOwner newOwner =>
      exact CallsInv.nameOwnerChanged hi c service oldOwner newOwner
  | fail c id => exact CallsInv.fail hi c id
  | process env => exact CallsInv.process hi hq env
  | check =>
      show CallsInv [] ⟨if t.app.queue.isEmpty then _ else t.app, t.sent ++ []⟩
      split
      · exact CallsInv.quiet hi rfl rfl rfl (.refl _)
      · exact CallsInv.quiet hi rfl rfl rfl (.refl _)
  | dispatch => exact CallsInv.dispatch hi hq
  | timeout c id => exact CallsInv.timeout hi c id
  | closed c =>
      show CallsInv [] ⟨if (t.app.client c).closed then t.app else _, t.sent ++ []⟩
      split
      · exact CallsInv.quiet hi rfl rfl rfl (.refl _)
      · exact hframe (removeClient_frame _ _)
  | newPeer name => exact hframe (newPeer_frame _ _)
  | observerTick env =>
      show CallsInv [] ⟨if t.app.broker then t.app else _, t.sent ++ []⟩
      split
      · exact CallsInv.quiet hi rfl rfl rfl (.refl _)
      · next hbroker => exact hframe (relayClient_frame env (by simpa using hbroker) _ _)
  | guestNameChanged name owner => exact hframe (guestNameChanged_frame _ _ _)

/-! ## Answers in order -/

theorem CallsInv.initial {t : Trace} (h : Initial t) : CallsInv [] t := by
  have hempty : ∀ app : App, app.client = (fun _ => {}) → tickets app = [] →
      CallsInv [] { app := app } := fun app hclient htickets =>
    { unborn := fun c _ => by rw [hclient]; exact ⟨rfl, rfl⟩
      outstanding := fun c => by rw [hclient]; rfl
      limit := fun c => by rw [hclient]; exact Nat.zero_le _
      distinct := fun c => by rw [hclient]; exact List.nodup_nil
      issued := fun c call hcall => by
        rw [hclient] at hcall
        exact absurd hcall List.not_mem_nil
      held := by
        show ([] ++ tickets app).Nodup
        rw [htickets]
        exact List.nodup_nil
      ticket := fun c id => by
        show (c, id) ∈ [] ++ tickets app ↔ _
        rw [htickets, hclient]
        simp
      sentIssued := fun _ _ _ h => absurd h List.not_mem_nil
      asSent := fun c call hcall => by
        rw [hclient] at hcall
        exact absurd hcall List.not_mem_nil
      once := fun _ _ _ h => absurd h List.not_mem_nil
      answer := fun _ _ _ _ h => absurd h List.not_mem_nil }
  cases h with
  | broker admin => exact hempty _ rfl rfl
  | relay uniqueName guestNames => exact hempty _ rfl rfl

theorem forward_no_reply {app : App} {c : Nat} {origin target : Bus} {request : Message}
    {destination : Option String} {serial : Nat} {o : Output}
    (h : o ∈ (forward app c origin target request destination serial).2) :
    o.plain ∨ ∃ d call copy, o = .call d call copy := by
  unfold forward at h
  split at h
  · exact .inl (replyError_plain h)
  · exact .inr ⟨_, _, _, List.mem_singleton.mp h⟩

theorem Delivers.received {app : App} {c : Nat} {call : Call}
    {reply : Option (Message × Nat)} {r : App × List Output}
    (hd : Delivers app c call reply r) {d : Nat} {other : Call} {message : Message}
    {n : Option Nat} (h : .reply d other message n ∈ r.2) : n = reply.map Prod.snd := by
  rcases hd.outputs with ⟨hnil, -⟩ | ⟨sent, hone, -⟩
  · rw [hnil] at h
    exact absurd h List.not_mem_nil
  · rw [hone] at h
    injection List.mem_singleton.mp h

theorem forwardFinished_received {app : App} {c id : Nat} {reply : Option (Message × Nat)}
    {d : Nat} {other : Call} {message : Message} {n : Option Nat}
    (h : .reply d other message n ∈ (forwardFinished app c id reply).2) :
    n = reply.map Prod.snd := by
  unfold forwardFinished at h
  split at h
  · exact absurd h List.not_mem_nil
  · next call _ =>
      dsimp only at h
      split at h
      · exact absurd h List.not_mem_nil
      · exact (deliverReply_delivers app c call reply).received h

/-- The steps that forward and deliver nothing. -/
def Step.plain : Step → Prop
  | .process _ | .dispatch | .timeout _ _ => False
  | _ => True

theorem step_plain {app : App} {s : Step} {o : Output} (h : o ∈ (step app s).2)
    (hs : s.plain) : o.plain := by
  cases s with
  | process env => exact hs.elim
  | dispatch => exact hs.elim
  | timeout c id => exact hs.elim
  | receive bus message =>
      have h : o ∈ (receive app bus message).2 := h
      unfold receive at h
      split at h
      · dsimp only at h
        split at h
        · exact queueMessage_plain h
        · split at h
          · exact queueMessage_plain h
          · exact absurd h List.not_mem_nil
      · exact absurd h List.not_mem_nil
  | nameOwnerChanged c service oldOwner newOwner =>
      have h : o ∈ (nameOwnerChanged app c service oldOwner newOwner).2 := h
      unfold nameOwnerChanged at h
      split at h
      · exact absurd h List.not_mem_nil
      split at h
      · exact absurd h List.not_mem_nil
      · exact queueMessage_plain h
  | _ => exact absurd h List.not_mem_nil

/-- When an answer is handed on, what is left in the queue was received later. -/
theorem QueueInv.inOrder {app : App} (hq : QueueInv app) {s : Step} {c : Nat} {call : Call}
    {message : Message} {n : Nat}
    (h : .reply c call message (some n) ∈ (SystemBus.step app s).2) :
    ∀ e ∈ (SystemBus.step app s).1.queue, n < e.position := by
  have hplain : ∀ {outputs : List Output}, (∀ o ∈ outputs, o.plain) →
      .reply c call message (some n) ∉ outputs := fun hplain hmem => hplain _ hmem
  cases s with
  | process env =>
      have h : .reply c call message (some n) ∈ (processEvent env app).2 := h
      show ∀ e ∈ (processEvent env app).1.queue, n < e.position
      unfold processEvent at h ⊢
      split at h
      · exact absurd h List.not_mem_nil
      · next event rest hqueue =>
          obtain ⟨-, hlater⟩ := hq.pop hqueue
          have hacts : Acts { app with queue := rest, queued := app.queued - 1 } (some event)
              (handleEvent env { app with queue := rest, queued := app.queued - 1 } event) :=
            handleEvent_acts
          have hsame := hacts.sameQueue.queue
          rw [hsame]
          generalize handleEvent env _ event = r at h hacts
          cases hacts with
          | plain _ hp => exact absurd h (hplain hp)
          | forwards _ _ _ _ =>
              rcases forward_no_reply h with hp | ⟨d, other, copy, hp⟩
              · exact absurd hp id
              · cases hp
          | delivers he _ _ =>
              injection he with he
              have hn := (deliverReply_delivers _ _ _ _).received h
              injection hn with hn
              rw [hn, ← he]
              exact hlater
  | dispatch =>
      have h : .reply c call message (some n) ∈ (SystemBus.dispatch app).2 := h
      show ∀ e ∈ (SystemBus.dispatch app).1.queue, n < e.position
      unfold SystemBus.dispatch at h ⊢
      split at h
      · next collected source rest hcollected hidle =>
          obtain ⟨-, hlater⟩ := hq.dispatch hcollected hidle
          rw [(dispatchIdle_sameQueue _ source).queue]
          cases source with
          | finished d id reply => exact hlater n (forwardFinished_received h).symm
          | nameOwner d service owner position =>
              exact absurd h (hplain (watchReport_calls _ _ _ _ _).2)
          | nameOwnerChanged d service oldOwner newOwner position =>
              exact absurd h (hplain (watchReport_calls _ _ _ _ _).2)
      · exact absurd h List.not_mem_nil
  | timeout d id =>
      have h : .reply c call message (some n) ∈ (timeout app d id).2 := h
      unfold timeout at h
      split at h
      · exact absurd (forwardFinished_received h) (Option.some_ne_none n)
      · exact absurd h List.not_mem_nil
  | _ => exact absurd (step_plain h trivial) fun hp => hp

/-- The discipline of answers, counters and order, of a state with everything sent
so far and of the step it takes next. -/
structure AnsweredOnce (t : Trace) : Prop where
  /-- A forwarded call has had one answer, or is pending and has had none. -/
  once : ∀ c call copy, .call c call copy ∈ t.sent → call.request.type = .methodCall →
    (replies t.sent c call.id = 1 ∧
      ∀ pending ∈ (t.app.client c).pendingCalls, pending.id = call.id →
        pending.delivered = true) ∨
    (replies t.sent c call.id = 0 ∧
      ∃ pending ∈ (t.app.client c).pendingCalls, pending.id = call.id ∧
        pending.delivered = false)
  /-- As long as a call is pending, GDBus waits for it or is about to finish it. -/
  due : ∀ c, ∀ call ∈ (t.app.client c).pendingCalls,
    (∃ waiting ∈ t.app.waiting, waiting.client = c ∧ waiting.call = call.id) ∨
      ∃ reply, Idle.finished c call.id reply ∈ t.app.idle
  /-- When GDBus stops waiting, or its source runs, the call is over. -/
  settled : ∀ c id,
    (∃ waiting ∈ t.app.waiting, waiting.client = c ∧ waiting.call = id) →
    ∀ call ∈ ((step t.app (.timeout c id)).1.client c).pendingCalls, call.id ≠ id
  finished : ∀ c id reply rest, t.app.idle = .finished c id reply :: rest →
    t.app.collected ≠ 0 →
    ∀ call ∈ ((step t.app .dispatch).1.client c).pendingCalls, call.id ≠ id
  /-- An answer is a return or an error with the serial of a call that was
  forwarded. -/
  answer : ∀ c call message received, .reply c call message received ∈ t.sent →
    isReply message = true ∧ message.replySerial = call.request.serial ∧
      ∃ copy, .call c { call with delivered := false } copy ∈ t.sent
  outstanding : ∀ c, (t.app.client c).outstanding =
    (t.app.client c).pendingCalls.length ∧ (t.app.client c).outstanding ≤ 64
  queued : t.app.queued = t.app.queue.length ∧ t.app.queued ≤ 1024
  /-- What is still queued when an answer is handed on was received after it. -/
  inOrder : ∀ s c call message n, .reply c call message (some n) ∈ emits t.app s →
    ∀ e ∈ (step t.app s).1.queue, n < e.position

theorem CallsInv.answeredOnce {t : Trace} (hi : CallsInv [] t) (hq : QueueInv t.app) :
    AnsweredOnce t where
  once := fun c call copy hsent htype => by
    have hone := hi.once c call copy hsent htype
    by_cases howed : owed (t.app.client c) call.id = 0
    · left
      refine ⟨by omega, fun pending hpending hid => ?_⟩
      have hnot := List.countP_eq_zero.mp howed pending hpending
      simpa [hid] using hnot
    · right
      obtain ⟨pending, hpending, hmatch⟩ :=
        List.countP_pos_iff.mp (Nat.pos_of_ne_zero howed)
      simp only [Bool.and_eq_true, beq_iff_eq, Bool.not_eq_true'] at hmatch
      exact ⟨by omega, pending, hpending, hmatch⟩
  due := fun c call hcall => by
    have hticket := (hi.ticket c call.id).mpr ⟨call, hcall, rfl⟩
    rw [List.nil_append, tickets, List.mem_append] at hticket
    rcases hticket with hticket | hticket
    · obtain ⟨waiting, hwaiting, heq⟩ := List.mem_map.mp hticket
      injection heq with hc hid
      exact .inl ⟨waiting, hwaiting, hc, hid⟩
    · obtain ⟨source, hsource, heq⟩ := List.mem_filterMap.mp hticket
      cases source with
      | finished d id reply =>
          injection heq with heq
          injection heq with hc hid
          subst hc hid
          exact .inr ⟨reply, hsource⟩
      | nameOwner => cases heq
      | nameOwnerChanged => cases heq
  settled := fun c id hwaiting call hcall => by
    obtain ⟨waiting, hmem, hc, hid⟩ := hwaiting
    have hcall : call ∈ ((SystemBus.timeout t.app c id).1.client c).pendingCalls := hcall
    unfold SystemBus.timeout at hcall
    split at hcall
    · exact forwardFinished_removes _ c id none call hcall
    · next hnone =>
        have hno := List.find?_eq_none.mp hnone waiting hmem
        simp [hc, hid] at hno
  finished := fun c id reply rest hidle hcollected call hcall => by
    have hcall : call ∈ ((SystemBus.dispatch t.app).1.client c).pendingCalls := hcall
    obtain ⟨collected, hcount⟩ := Nat.exists_eq_succ_of_ne_zero hcollected
    rw [SystemBus.dispatch, hcount, hidle] at hcall
    exact forwardFinished_removes _ c id reply call hcall
  answer := fun c call message received h => by
    obtain ⟨hserial, htype, hcopy⟩ := hi.answer c call message received h
    exact ⟨htype, hserial, hcopy⟩
  outstanding := fun c => by
    have hcount := hi.outstanding c
    have hlimit := hi.limit c
    exact ⟨hcount, by omega⟩
  queued := by
    have hcount := hq.queued
    have hlimit := hq.limit
    exact ⟨hcount, by omega⟩
  inOrder := fun _ _ _ _ _ h => hq.inOrder h

/-- A run keeps both invariants. -/
theorem reachable_inv {t₀ t : Trace} (h₀ : Initial t₀) (h : Reachable Trace.next t₀ t) :
    CallsInv [] t ∧ QueueInv t.app := by
  have hstart : CallsInv [] t₀ ∧ QueueInv t₀.app := ⟨CallsInv.initial h₀, QueueInv.initial h₀⟩
  induction h with
  | start => exact hstart
  | step s _ ih => exact ⟨ih.1.step ih.2 _, ih.2.step _⟩

theorem forwarded_answered_once {t₀ t : Trace} (h₀ : Initial t₀)
    (h : Reachable Trace.next t₀ t) : AnsweredOnce t :=
  have hinv := reachable_inv h₀ h
  hinv.1.answeredOnce hinv.2

/-! ## A client of the broker -/

def openMessage (observer : Bool) : Message :=
  { serial := 1, path := some controlPath, interfaceName := some control
    member := some "Open", body := some [.basic 'u' 1000, Portal.Variant.bool observer] }

/-- The broker without Network Admin, with one client that has been opened. -/
def sampleClient : Trace :=
  [.newPeer "peer", .receive (.peer 0) (openMessage false), .process { hostBus := true }]
    |>.foldl Trace.next { app := { broker := true } }

def introspectCall : Message :=
  { serial := 2, destination := some resolve, path := some "/org/freedesktop/resolve1"
    interfaceName := some introspectable, member := some "Introspect" }

theorem forwarded_answered_once_sample : AnsweredOnce
    ([.receive (.peer 0) introspectCall, .process { serial := 7 }, .timeout 0 0].foldl
      Trace.next sampleClient) := by
  refine forwarded_answered_once (.broker false) ?_
  unfold sampleClient
  rw [← List.foldl_append]
  exact Guarded.run _ _

end Spaces.SystemBus
