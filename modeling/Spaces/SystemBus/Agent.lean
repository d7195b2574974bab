import Spaces.SystemBus.Announcements
import Spaces.SystemBus.Forwarding

/-!
# Callbacks to a secret agent

NetworkManager calls back an agent that a guest has registered with it. What the
broker lets through is a matter of three facts that arrive separately: the answer
to `Register`, the answer to `Unregister`, and the owner of NetworkManager's name.
`Gated` says of a callback what these were when it was received.

The broker learns the last of them from a watch whose reports have a lower
priority than the messages in the queue, and an answer that was not queued is
delivered late, so it goes by what it has been told only if `InOrder` holds of the
step: `former_owner_called` is a run where it does not.
-/

namespace Spaces.SystemBus

open Spaces.Library

/-! ## The gate -/

/-- A call of the client's own has had success, in an answer received at
`position`. -/
def Succeeded (t : Trace) (c : Nat) (asks : Message → Bool) (position : Nat) : Prop :=
  ∃ call message, Output.reply c call message (some position) ∈ t.sent ∧
    message.type = .methodReturn ∧ call.origin = .peer c ∧ asks call.request = true

/-- At `position`, the client's last successful `Register` has not been followed by
a successful `Unregister`, nor by NetworkManager leaving the bus. -/
def Registered (t : Trace) (c position : Nat) : Prop :=
  ∃ p, p < position ∧ Succeeded t c isRegister p ∧
    (∀ q, Succeeded t c isUnregister q → q < p) ∧
    ∀ a ∈ told t.app c, a.oldOwner.isSome = true → a.position < position → a.position < p

/-- What the broker asks of a callback. -/
def admitted (app : App) (c : Nat) (e : Event) : Bool :=
  let client := app.client c
  app.broker && !client.closed && messageBounded e.message && e.bus != .peer c
    && isCallback e.message && client.agent && (client.owners .networkManager).isSome
    && e.message.sender == client.owners .networkManager

/-- The program goes by what it was told first. -/
structure InOrder (t : Trace) (s : Step) : Prop where
  /-- Before a callback that is let through, every report of an earlier
  announcement has been made. -/
  callback : ∀ env e rest c, s = .process env → t.app.queue = e :: rest →
    e.client = some c → admitted t.app c e = true →
    ∀ source ∈ reports t.app c, ∀ p, source.position = some p → e.position < p
  /-- An answer to `Register` that was not queued comes before every `Unregister`. -/
  late : ∀ c id message n rest, s = .dispatch → 0 < t.app.collected →
    t.app.idle = .finished c id (some (message, n)) :: rest →
    message.type = .methodReturn → messageBounded message = true →
    (∃ call ∈ (t.app.client c).pendingCalls, call.id = id ∧ call.delivered = false ∧
      call.registerAgent = true) → ∀ q, Succeeded t c isUnregister q → q < n
  /-- When the watch first names an owner, a registered agent has been registered
  after every owner that has left. -/
  owner : ∀ c owner n rest, s = .dispatch → 0 < t.app.collected →
    t.app.idle = .nameOwner c .networkManager (some owner) n :: rest →
    (t.app.client c).closed = false → (t.app.client c).agent = true →
    ∃ p, Succeeded t c isRegister p ∧
      ∀ a ∈ told t.app c, a.oldOwner.isSome = true → a.position < n → a.position < p

/-! ## Registrations -/

theorem isRegister_allowed {message : Message} (h : isRegister message = true) :
    systemCallAllowed message false = false := by
  have hinterface : message.interfaceName = some (nm ++ ".AgentManager") :=
    eq_of_beq (Bool.and_eq_true_iff.mp h).1
  unfold systemCallAllowed
  rw [hinterface]
  split
  · next service interfaceName method _ heq _ =>
      injection heq with heq
      subst heq
      split
      · rfl
      · rw [if_neg (by decide), if_neg (by decide), if_neg (by decide), if_neg (by decide)]
        cases service <;> simp [readMethod, nm, resolve, upower]
  · rfl

theorem isRegister_not_callback {message : Message} (h : isRegister message = true) :
    isCallback message = false := by
  have hinterface : message.interfaceName = some (nm ++ ".AgentManager") :=
    eq_of_beq (Bool.and_eq_true_iff.mp h).1
  unfold isCallback
  rw [hinterface]
  rfl

theorem isRegister_not_unregister {message : Message} (h : isRegister message = true) :
    isUnregister message = false := by
  have hmember : message.member = some "Register" ∨
      message.member = some "RegisterWithCapabilities" := by
    simpa using (Bool.and_eq_true_iff.mp h).2
  unfold isUnregister
  rcases hmember with hmember | hmember <;> simp [hmember]

structure AgentInv (t : Trace) : Prop where
  broker : t.app.broker = true
  /-- What has been answered was received before what is in the queue. -/
  answered : ∀ c call message n, .reply c call message (some n) ∈ t.sent →
    n < t.app.received ∧ ∀ e ∈ t.app.queue, n < e.position
  asks : ∀ c, ∀ call ∈ (t.app.client c).pendingCalls, call.registerAgent = true →
    (t.app.client c).opened = true ∧ (t.app.client c).admin = true
  agent : ∀ c, (t.app.client c).agent = true →
    (t.app.client c).opened = true ∧ (t.app.client c).admin = true
  enrolled : ∀ c, (t.app.client c).closed = false → (t.app.client c).agent = true →
    ∃ p, Succeeded t c isRegister p ∧ (∀ q, Succeeded t c isUnregister q → q < p) ∧
      ∀ a, Handled t.app c a → a.oldOwner.isSome = true → a.position < p

/-! ## What keeps the registrations -/

/-- Outputs without an answer. -/
def Unanswered (outputs : List Output) : Prop :=
  ∀ c call message n, Output.reply c call message n ∉ outputs

theorem unanswered_plain {outputs : List Output} (h : ∀ o ∈ outputs, o.plain) :
    Unanswered outputs :=
  fun _ _ _ _ hmem => h _ hmem

theorem Unanswered.sent {sent outputs : List Output} (h : Unanswered outputs) {c : Nat}
    {call : Call} {message : Message} {n : Option Nat}
    (hmem : .reply c call message n ∈ sent ++ outputs) : .reply c call message n ∈ sent :=
  (List.mem_append.mp hmem).resolve_right (h c call message n)

theorem Succeeded.before {t : Trace} {app' : App} {outputs : List Output}
    (hnone : Unanswered outputs) {c n : Nat} {asks : Message → Bool}
    (h : Succeeded ⟨app', t.sent ++ outputs⟩ c asks n) : Succeeded t c asks n := by
  obtain ⟨call, message, hsent, hrest⟩ := h
  exact ⟨call, message, hnone.sent hsent, hrest⟩

theorem Succeeded.later {t : Trace} {c n : Nat} {asks : Message → Bool}
    (h : Succeeded t c asks n) (app' : App) (outputs : List Output) :
    Succeeded ⟨app', t.sent ++ outputs⟩ c asks n := by
  obtain ⟨call, message, hsent, hrest⟩ := h
  exact ⟨call, message, List.mem_append_left _ hsent, hrest⟩

/-- A client that has no registration and no right that it did not have, and asks for
none without the right to. -/
structure Fewer (before after : Client) : Prop where
  calls : ∀ call ∈ after.pendingCalls, call.registerAgent = true →
    (before.opened = true ∧ before.admin = true) ∨
      ∃ old ∈ before.pendingCalls, old.registerAgent = true
  agent : after.agent = true → before.agent = true
  closed : before.closed = true → after.closed = true
  admin : before.opened = true → after.opened = true ∧ after.admin = before.admin

theorem SameClient.fewer {before after : Client} (h : SameClient before after) :
    Fewer before after :=
  ⟨fun call hcall hask => .inr ⟨call, h.pendingCalls ▸ hcall, hask⟩,
    fun ha => h.agent ▸ ha, h.closed, h.admin⟩

theorem AgentInv.keep {t : Trace} (h : AgentInv t) {app' : App} {outputs : List Output}
    (hbroker : app'.broker = t.app.broker) (hreceived : t.app.received ≤ app'.received)
    (hqueue : ∀ e ∈ app'.queue, e ∈ t.app.queue ∨ t.app.received ≤ e.position)
    (hclient : ∀ c, Fewer (t.app.client c) (app'.client c) ∨ NewClient (app'.client c))
    (hhandled : ∀ c, (app'.client c).closed = false → (app'.client c).agent = true →
      ∀ p₀, Succeeded t c isRegister p₀ → ∃ p, Succeeded t c isRegister p ∧
        ∀ a, Handled app' c a → a.oldOwner.isSome = true →
          Handled t.app c a ∨ a.position < p)
    (hnone : Unanswered outputs) : AgentInv ⟨app', t.sent ++ outputs⟩ where
  broker := hbroker.trans h.broker
  answered := fun c call message n hsent => by
    obtain ⟨hn, hbefore⟩ := h.answered c call message n (hnone.sent hsent)
    refine ⟨Nat.lt_of_lt_of_le hn hreceived, fun e he => ?_⟩
    rcases hqueue e he with he | he
    · exact hbefore e he
    · omega
  asks := fun c call hcall hask => by
    rcases hclient c with hfewer | hnew
    · have hbefore : (t.app.client c).opened = true ∧ (t.app.client c).admin = true := by
        rcases hfewer.calls call hcall hask with hright | ⟨old, hold, hasked⟩
        · exact hright
        · exact h.asks c old hold hasked
      exact ⟨(hfewer.admin hbefore.1).1, (hfewer.admin hbefore.1).2.trans hbefore.2⟩
    · have hcall : call ∈ (app'.client c).pendingCalls := hcall
      rw [hnew.pendingCalls] at hcall
      exact absurd hcall List.not_mem_nil
  agent := fun c hagent => by
    rcases hclient c with hfewer | hnew
    · obtain ⟨hopened, hadmin⟩ := h.agent c (hfewer.agent hagent)
      exact ⟨(hfewer.admin hopened).1, (hfewer.admin hopened).2.trans hadmin⟩
    · exact absurd (hnew.agent.symm.trans hagent) nofun
  enrolled := fun c hopen hagent => by
    rcases hclient c with hfewer | hnew
    · have hbefore : (t.app.client c).closed = false := by
        rw [← Bool.not_eq_true]
        exact fun hclosed => absurd (hopen.symm.trans (hfewer.closed hclosed)) nofun
      obtain ⟨p, hregister, hunregister, hleft⟩ := h.enrolled c hbefore (hfewer.agent hagent)
      obtain ⟨p', hregister', hleft'⟩ := hhandled c hopen hagent p hregister
      refine ⟨max p p', ?_, fun q hq => ?_, fun a ha hgone => ?_⟩
      · rcases Nat.le_total p p' with hle | hle
        · rw [Nat.max_eq_right hle]
          exact hregister'.later _ _
        · rw [Nat.max_eq_left hle]
          exact hregister.later _ _
      · have hlt := hunregister q (hq.before hnone)
        omega
      · rcases hleft' a ha hgone with hold | hlt
        · have hlt := hleft a hold hgone
          omega
        · omega
    · exact absurd (hnew.agent.symm.trans hagent) nofun

/-- A step that reports nothing. -/
theorem AgentInv.heard {t : Trace} (h : AgentInv t) {app' : App} {outputs : List Output}
    (hbroker : app'.broker = t.app.broker) (hreceived : t.app.received ≤ app'.received)
    (hqueue : ∀ e ∈ app'.queue, e ∈ t.app.queue ∨ t.app.received ≤ e.position)
    (hclient : ∀ c, Fewer (t.app.client c) (app'.client c) ∨ NewClient (app'.client c))
    (hheard : Heard t.app app') (hnone : Unanswered outputs) :
    AgentInv ⟨app', t.sent ++ outputs⟩ :=
  h.keep hbroker hreceived hqueue hclient
    (fun c _ _ p hp => ⟨p, hp, fun a ha _ => .inl (hheard.handled c a ha)⟩) hnone

/-! ## Answers -/

/-- What an answer to a pending call must be for it to be delivered in order. -/
structure Timely (t : Trace) (c : Nat) (call : Call) (reply : Option (Message × Nat)) :
    Prop where
  received : ∀ message n, reply = some (message, n) → n < t.app.received
  queue : ∀ message n, reply = some (message, n) → ∀ e ∈ t.app.queue, n < e.position
  handled : ∀ message n, reply = some (message, n) →
    ∀ a, Handled t.app c a → a.position < n
  unregister : ∀ message n, reply = some (message, n) → message.type = .methodReturn →
    messageBounded message = true → call.registerAgent = true →
    ∀ q, Succeeded t c isUnregister q → q < n

/-- The success that an answer brings is one of its call. -/
theorem Succeeded.delivered {t : Trace} {c : Nat} {call : Call}
    {reply : Option (Message × Nat)} {r : App × List Output}
    (hd : Delivers t.app c call reply r) {d n : Nat} {asks : Message → Bool}
    (h : Succeeded ⟨r.1, t.sent ++ r.2⟩ d asks n) : Succeeded t d asks n ∨
      d = c ∧ call.origin = .peer c ∧ asks call.request = true ∧ ∃ message,
        reply = some (message, n) ∧ messageBounded message = true ∧
        message.type = .methodReturn := by
  obtain ⟨other, sent, hsent, htype, horigin, hasks⟩ := h
  rcases List.mem_append.mp hsent with hsent | hsent
  · exact .inl ⟨other, sent, hsent, htype, horigin, hasks⟩
  · obtain ⟨rfl, rfl, hkind⟩ := hd.mem hsent
    refine .inr ⟨rfl, horigin, hasks, ?_⟩
    have hn := hd.received hsent
    rcases hkind with herror | ⟨message, position, rfl, hmessage⟩
    · exact absurd (herror.symm.trans htype) nofun
    · injection hn with hn
      subst hn
      refine ⟨message, rfl, ?_, ?_⟩
      · rw [← Bool.not_eq_false]
        intro hbounded
        have herror := hd.refused (fun r hr => by
          injection hr with hr
          exact hr ▸ hbounded) _ _ _ _ hsent
        exact absurd (herror.symm.trans htype) nofun
      · rw [hmessage] at htype
        unfold relayedReply at htype
        dsimp only at htype
        split at htype <;> exact htype

theorem Delivers.registered {t : Trace} {c : Nat} {call : Call} {message : Message}
    {n : Nat} {r : App × List Output} (hd : Delivers t.app c call (some (message, n)) r)
    (hbounded : messageBounded message = true) (htype : message.type = .methodReturn)
    {asks : Message → Bool} (horigin : call.origin = .peer c)
    (hasks : asks call.request = true) : Succeeded ⟨r.1, t.sent ++ r.2⟩ c asks n := by
  refine ⟨call, relayedReply (t.app.client c) call message, ?_, ?_, horigin, hasks⟩
  · rw [hd.relayed message n rfl hbounded]
    exact List.mem_append_right _ (.head _)
  · unfold relayedReply
    dsimp only
    split <;> exact htype

/-- An agent is registered after an answer because the answer registers it, or it
was and the answer does not unregister it. -/
theorem agentAfterReply_true {call : Call} {reply : Option (Message × Nat)} {agent : Bool}
    (h : agentAfterReply call reply agent = true) :
    (∃ message n, reply = some (message, n) ∧ messageBounded message = true ∧
      message.type = .methodReturn ∧ call.registerAgent = true) ∨
    agent = true ∧ ∀ message n, reply = some (message, n) →
      messageBounded message = true → message.type = .methodReturn →
      call.unregisterAgent = false := by
  unfold agentAfterReply at h
  split at h
  · next message n =>
      split at h
      · next hsuccess =>
          unfold agentAfter at h
          cases hunregister : call.unregisterAgent with
          | true =>
              rw [hunregister] at h
              cases h
          | false =>
              rw [hunregister] at h
              cases hregister : call.registerAgent with
              | true => exact .inl ⟨message, n, rfl, hsuccess.1, hsuccess.2, rfl⟩
              | false =>
                  rw [hregister] at h
                  exact .inr ⟨h, fun _ _ _ _ _ => rfl⟩
      · next hfailure =>
          refine .inr ⟨h, fun other m heq hbounded htype => ?_⟩
          injection heq with heq
          injection heq with heq _
          subst heq
          exact absurd ⟨hbounded, htype⟩ hfailure
  · exact .inr ⟨h, fun _ _ heq => by cases heq⟩

theorem AgentInv.deliver {t : Trace} (h : AgentInv t) (ho : Order t.app) {c : Nat}
    {call : Call} {reply : Option (Message × Nat)} {r : App × List Output}
    (hcall : call ∈ (t.app.client c).pendingCalls)
    (hregister : call.registerAgent =
      (t.app.broker && call.origin == .peer c && isRegister call.request))
    (hunregister : call.unregisterAgent =
      (t.app.broker && call.origin == .peer c && isUnregister call.request))
    (hd : Delivers t.app c call reply r) (ht : Timely t c call reply) :
    AgentInv ⟨r.1, t.sent ++ r.2⟩ := by
  have hs := hd.sameQueue
  have hheard : Heard t.app r.1 := ho.same hs (.of_same hd.same)
  have hrole : ∀ d, (r.1.client d).opened = (t.app.client d).opened ∧
      (r.1.client d).admin = (t.app.client d).admin := by
    intro d
    by_cases hdc : d = c
    · subst hdc
      rw [hd.client]
      exact ⟨rfl, rfl⟩
    · rw [hd.other d hdc]
      exact ⟨rfl, rfl⟩
  rw [h.broker, Bool.true_and] at hregister hunregister
  refine {
    broker := hs.broker.trans h.broker
    answered := fun d other message n hsent => ?_
    asks := fun d other hother hask => ?_
    agent := fun d hagent => ?_
    enrolled := fun d hopen hagent => ?_ }
  · show n < r.1.received ∧ ∀ e ∈ r.1.queue, n < e.position
    rw [hs.received, hs.queue]
    rcases List.mem_append.mp hsent with hsent | hsent
    · exact h.answered d other message n hsent
    · have hn := hd.received hsent
      cases reply with
      | none => cases hn
      | some reply =>
          injection hn with hn
          rw [hn]
          exact ⟨ht.received _ _ rfl, ht.queue _ _ rfl⟩
  · rw [(hrole d).1, (hrole d).2]
    have hother : other ∈ (r.1.client d).pendingCalls := hother
    by_cases hdc : d = c
    · subst hdc
      rw [hd.client] at hother
      obtain ⟨before, hbefore, rfl⟩ := List.mem_map.mp hother
      refine h.asks d before hbefore ?_
      unfold Call.markDelivered at hask
      split at hask <;> exact hask
    · rw [hd.other d hdc] at hother
      exact h.asks d other hother hask
  · rw [(hrole d).1, (hrole d).2]
    have hagent : (r.1.client d).agent = true := hagent
    by_cases hdc : d = c
    · subst hdc
      rw [hd.client] at hagent
      rcases agentAfterReply_true hagent with ⟨_, _, -, -, -, hask⟩ | ⟨hbefore, -⟩
      · exact h.asks d call hcall hask
      · exact h.agent d hbefore
    · rw [hd.other d hdc] at hagent
      exact h.agent d hagent
  · have hopen : (t.app.client d).closed = false := (hd.same d).1.symm.trans hopen
    have hagent : (r.1.client d).agent = true := hagent
    by_cases hdc : d = c
    · subst hdc
      rw [hd.client] at hagent
      rcases agentAfterReply_true hagent with
        ⟨message, n, rfl, hbounded, htype, hask⟩ | ⟨hbefore, hnot⟩
      · have hasked := hregister.symm.trans hask
        rw [Bool.and_eq_true, beq_iff_eq] at hasked
        refine ⟨n, hd.registered hbounded htype hasked.1 hasked.2, fun q hq => ?_,
          fun a ha _ => ht.handled message n rfl a (hheard.handled d a ha)⟩
        rcases hq.delivered hd with hq | ⟨-, -, hunasks, -⟩
        · exact ht.unregister message n rfl htype hbounded hask q hq
        · exact absurd ((isRegister_not_unregister hasked.2).symm.trans hunasks) nofun
      · obtain ⟨p, hp, hafter, hleft⟩ := h.enrolled d hopen hbefore
        refine ⟨p, hp.later _ _, fun q hq => ?_,
          fun a ha hgone => hleft a (hheard.handled d a ha) hgone⟩
        rcases hq.delivered hd with hq | ⟨-, horigin, hunasks, message, hsome, hbounded, htype⟩
        · exact hafter q hq
        · have hmark := hunregister.symm.trans (hnot message q hsome hbounded htype)
          rw [horigin, hunasks, beq_self_eq_true] at hmark
          cases hmark
    · rw [hd.other d hdc] at hagent
      obtain ⟨p, hp, hafter, hleft⟩ := h.enrolled d hopen hagent
      refine ⟨p, hp.later _ _, fun q hq => ?_,
        fun a ha hgone => hleft a (hheard.handled d a ha) hgone⟩
      rcases hq.delivered hd with hq | ⟨hc, -⟩
      · exact hafter q hq
      · exact absurd hc hdc

/-! ## Calls -/

/-- Only an administrator's registration is forwarded. -/
theorem Reason.admin {app : App} {c : Nat} {origin target : Bus} {request : Message}
    {destination : Option String} (h : Reason app c origin target request destination)
    (hbroker : app.broker = true) (hregister : isRegister request = true) :
    (app.client c).opened = true ∧ (app.client c).admin = true := by
  cases h with
  | guest _ hrelay _ => exact absurd (hrelay.symm.trans hbroker) nofun
  | guestAgent _ hrelay _ _ _ => exact absurd (hrelay.symm.trans hbroker) nofun
  | agent _ _ hcallback _ _ _ =>
      exact absurd ((isRegister_not_callback hregister).symm.trans hcallback) nofun
  | broker _ hopened _ hallowed =>
      refine ⟨hopened, ?_⟩
      rw [← Bool.not_eq_false]
      intro hadmin
      rw [hadmin, isRegister_allowed hregister] at hallowed
      cases hallowed

theorem AgentInv.forward {t : Trace} (h : AgentInv t) (ho : Order t.app) {c : Nat}
    {origin target : Bus} {request : Message} {destination : Option String}
    (hreason : Reason t.app c origin target request destination) (serial : Nat) :
    AgentInv ⟨(forward t.app c origin target request destination serial).1,
      t.sent ++ (forward t.app c origin target request destination serial).2⟩ := by
  have hs := forward_sameQueue t.app c origin target request destination serial
  have hheard := ho.same hs (.of_same (forward_same t.app c origin target request
    destination serial))
  refine h.heard hs.broker (Nat.le_of_eq hs.received.symm) (fun e he => .inl ?_)
    (fun d => .inl ?_) hheard fun d call message n hmem => ?_
  · rw [hs.queue] at he
    exact he
  · unfold SystemBus.forward
    split
    · exact (SameClient.refl _).fewer
    · dsimp only
      refine t.app.updateClient_rel (fun _ => (SameClient.refl _).fewer)
        ⟨fun call hcall hask => ?_, id, id, fun hopened => ⟨hopened, rfl⟩⟩ d
      rcases List.mem_cons.mp hcall with rfl | hcall
      · exact .inl (hreason.admin h.broker (Bool.and_eq_true_iff.mp hask).2)
      · exact .inr ⟨call, hcall, hask⟩
  · rcases forward_no_reply hmem with hplain | ⟨_, _, _, hcall⟩
    · exact hplain
    · cases hcall

/-! ## Steps -/

theorem AgentInv.finish {t : Trace} (h : AgentInv t) (ho : Order t.app) {c id : Nat}
    {reply : Option (Message × Nat)}
    (hmarks : ∀ call ∈ (t.app.client c).pendingCalls, call.registerAgent =
        (t.app.broker && call.origin == .peer c && isRegister call.request) ∧
      call.unregisterAgent =
        (t.app.broker && call.origin == .peer c && isUnregister call.request))
    (ht : ∀ call ∈ (t.app.client c).pendingCalls, call.id = id → call.delivered = false →
      Timely t c call reply) :
    AgentInv ⟨(forwardFinished t.app c id reply).1,
      t.sent ++ (forwardFinished t.app c id reply).2⟩ := by
  have hretire : ∀ t₁ : Trace, AgentInv t₁ → Order t₁.app →
      AgentInv ⟨t₁.app.updateClient c fun client => { client with
        pendingCalls := client.pendingCalls.filter (·.id ≠ id)
        outstanding := client.outstanding - 1 }, t₁.sent ++ []⟩ := by
    intro t₁ h₁ ho₁
    refine h₁.heard rfl (Nat.le_refl _) (fun _ he => .inl he) (fun d => .inl ?_)
      (ho₁.same (.update _ rfl) (.of_same (updateClient_same _ rfl rfl)))
      fun _ _ _ _ => List.not_mem_nil
    exact t₁.app.updateClient_rel (fun _ => (SameClient.refl _).fewer)
      ⟨fun call hcall hask => .inr ⟨call, List.mem_of_mem_filter hcall, hask⟩,
        fun hagent => hagent, fun hclosed => hclosed, fun hopened => ⟨hopened, rfl⟩⟩ d
  unfold forwardFinished
  split
  · rw [List.append_nil]
    exact h
  · next call hfind =>
      have hcall := List.mem_of_find?_eq_some hfind
      have hid : call.id = id := by simpa using List.find?_some hfind
      dsimp only
      split
      · exact hretire t h ho
      · next hfresh =>
          have hd := deliverReply_delivers t.app c call reply
          have hdelivered := h.deliver ho hcall (hmarks call hcall).1 (hmarks call hcall).2 hd
            (ht call hcall hid (by simpa using hfresh))
          have hretired := hretire _ hdelivered (ho.same hd.sameQueue (.of_same hd.same)).order
          rw [List.append_nil] at hretired
          exact hretired

theorem AgentInv.process {t : Trace} (h : AgentInv t) (hq : QueueInv t.app)
    (ho : Order t.app) (hi : CallsInv [] t) (hmarked : Marked t) (env : Env) :
    AgentInv ⟨(processEvent env t.app).1, t.sent ++ (processEvent env t.app).2⟩ := by
  unfold processEvent
  split
  · rw [List.append_nil]
    exact h
  · next e rest hqueue =>
      have hpop := ho.pop hqueue
      have hh : AgentInv ⟨{ t.app with queue := rest, queued := t.app.queued - 1 },
          t.sent ++ []⟩ :=
        h.heard rfl (Nat.le_refl _)
          (fun other hother => .inl (by rw [hqueue]; exact .tail _ hother))
          (fun c => .inl (SameClient.refl _).fewer) hpop fun _ _ _ _ => List.not_mem_nil
      rw [List.append_nil] at hh
      have hmem : e ∈ t.app.queue := by
        rw [hqueue]
        exact .head _
      have hacts : Acts { t.app with queue := rest, queued := t.app.queued - 1 } (some e)
          (handleEvent env { t.app with queue := rest, queued := t.app.queued - 1 } e) :=
        handleEvent_acts
      generalize handleEvent env _ e = r at hacts
      cases hacts with
      | plain hframe hplain =>
          have hs := hframe.sameQueue
          refine hh.heard hs.broker (Nat.le_of_eq hs.received.symm) (fun other hother => .inl ?_)
            (fun c => (hframe.client c).imp SameClient.fewer fun hnew => hnew.2.2)
            (hpop.order.frame hframe) (unanswered_plain hplain)
          rw [hs.queue] at hother
          exact hother
      | forwards hframe hreason _ hevent =>
          obtain ⟨_, -, hevent⟩ := hevent
          obtain ⟨rfl, -⟩ := hevent h.broker
          exact hh.forward hpop.order hreason _
      | @delivers c call e' he hreply hcall =>
          injection he with he
          subst he
          have hpending := List.mem_of_find?_eq_some hcall
          obtain ⟨-, hregister, hunregister⟩ := hmarked.pending hi hpending
          refine hh.deliver hpop.order hpending hregister hunregister
            (deliverReply_delivers _ _ _ _) ⟨?_, ?_, ?_, ?_⟩
          · rintro _ _ ⟨⟩
            exact hq.before e hmem
          · rintro _ _ ⟨⟩
            exact (hq.pop hqueue).2
          · rintro _ _ ⟨⟩ a ha
            exact (ho.handled c a (hpop.handled c a ha)).1 e hmem
          · rintro _ _ ⟨⟩ _ _ _ q ⟨other, message, hsent, -⟩
            exact (h.answered c other message q hsent).2 e hmem

theorem Reported.fewer {app app' : App} {c : Nat} {service : Service} {lost : Bool}
    {owner : Option String} (h : Reported app c service lost owner app') (d : Nat) :
    Fewer (app.client d) (app'.client d) where
  calls := fun call hcall hask => by
    rw [(h.same d).2.2] at hcall
    exact .inr ⟨call, hcall, hask⟩
  agent := fun hagent => by
    by_cases hd : d ≠ c ∨ service ≠ .networkManager
    · rw [(h.other d hd).2] at hagent
      exact hagent
    · rw [not_or, not_not, not_not] at hd
      obtain ⟨rfl, hservice⟩ := hd
      cases hclosed : (app.client d).closed with
      | true =>
          rw [h.silent hclosed] at hagent
          exact hagent
      | false =>
          rw [h.agent hservice hclosed] at hagent
          exact (Bool.and_eq_true_iff.mp hagent).1
  closed := fun hclosed => (h.same d).1.trans hclosed
  admin := fun hopened => by
    have hrole := (h.same d).2.1
    simp only [Client.role, Prod.mk.injEq] at hrole
    exact ⟨hrole.2.2.trans hopened, hrole.1⟩

/-- The main loop makes a report. -/
theorem AgentInv.report {t : Trace} (h : AgentInv t) {collected : Nat} {source : Idle}
    {rest : List Idle} (hidle : t.app.idle = source :: rest) (hpositive : 0 < t.app.collected)
    (hok : InOrder t .dispatch) {app' : App} {outputs : List Output}
    (hs : SameQueue { t.app with idle := rest, collected := collected } app')
    (hfewer : ∀ d, Fewer (t.app.client d) (app'.client d))
    (hreports : Reports t.app source app') (hnone : Unanswered outputs) :
    AgentInv ⟨app', t.sent ++ outputs⟩ := by
  refine h.keep hs.broker (Nat.le_of_eq hs.received.symm) (fun e he => .inl ?_)
    (fun d => .inl (hfewer d)) (fun c hopen hagent p hp => ?_) hnone
  · rw [hs.queue] at he
    exact he
  · have htold : told app' c = told t.app c := by
      unfold told
      rw [hs.history]
    by_cases hfirst : ∃ owner n, source = .nameOwner c .networkManager (some owner) n ∧
        (t.app.client c).closed = false ∧ (t.app.client c).agent = true
    · obtain ⟨owner, n, rfl, hbefore, hold⟩ := hfirst
      obtain ⟨p', hp', hleft⟩ := hok.owner c owner n rest rfl hpositive hidle hbefore hold
      refine ⟨p', hp', fun a ha hgone => ?_⟩
      rcases hreports.handled c a hopen hagent ha hgone with
        hhandled | ⟨_, position, heq, -, -, hlt⟩
      · exact .inl hhandled
      · injection heq with _ _ _ heq
        subst heq
        exact .inr (hleft a (htold ▸ ha.1) hgone hlt)
    · refine ⟨p, hp, fun a ha hgone => .inl ?_⟩
      rcases hreports.handled c a hopen hagent ha hgone with
        hhandled | ⟨owner, position, heq, hbefore, hold, -⟩
      · exact hhandled
      · exact absurd ⟨owner, position, heq, hbefore, hold⟩ hfirst

theorem AgentInv.dispatch {t : Trace} (h : AgentInv t) (hq : QueueInv t.app)
    (ho : Order t.app) (hi : CallsInv [] t) (hmarked : Marked t)
    (hok : InOrder t .dispatch) :
    AgentInv ⟨(dispatch t.app).1, t.sent ++ (dispatch t.app).2⟩ := by
  unfold SystemBus.dispatch
  split
  · next collected source rest hcollected hidle =>
      have hpositive : 0 < t.app.collected := by omega
      have hreports := ho.dispatch hq hcollected hidle
      have hs := dispatchIdle_sameQueue { t.app with idle := rest, collected := collected }
        source
      cases source with
      | finished c id reply =>
          have hskip : Heard t.app { t.app with idle := rest, collected := collected } :=
            ho.skip hidle fun _ => rfl
          have hh : AgentInv ⟨{ t.app with idle := rest, collected := collected },
              t.sent ++ []⟩ :=
            h.heard rfl (Nat.le_refl _) (fun _ he => .inl he)
              (fun d => .inl (SameClient.refl _).fewer) hskip
              fun _ _ _ _ => List.not_mem_nil
          rw [List.append_nil] at hh
          have hmem : Idle.finished c id reply ∈ t.app.idle := by
            rw [hidle]
            exact .head _
          refine hh.finish hskip.order (fun call hcall => ?_) fun call hcall hid hfresh =>
            ⟨?_, ?_, ?_, ?_⟩
          · exact (hmarked.pending hi hcall).2
          · rintro message n rfl
            exact hq.idle _ hmem n rfl
          · rintro message n rfl
            exact (hq.dispatch hcollected hidle).2 n rfl
          · rintro message n rfl a ha
            exact (ho.handled c a (hskip.handled c a ha)).2 n
              (List.mem_filterMap.mpr ⟨_, hmem, rfl⟩)
          · rintro message n rfl htype hbounded hask
            exact hok.late c id message n rest rfl hpositive hidle htype hbounded
              ⟨call, hcall, hid, hfresh, hask⟩
      | nameOwner d service owner position =>
          have hreported := watchReport_reported
            { t.app with idle := rest, collected := collected } d service owner.isNone owner
          exact h.report hidle hpositive hok hs hreported.fewer hreports
            (unanswered_plain (watchReport_calls _ _ _ _ _).2)
      | nameOwnerChanged d service oldOwner newOwner position =>
          have hreported := watchReport_reported
            { t.app with idle := rest, collected := collected } d service
            (oldOwner.isSome && ((t.app.client d).owners service).isSome) newOwner
          exact h.report hidle hpositive hok hs hreported.fewer hreports
            (unanswered_plain (watchReport_calls _ _ _ _ _).2)
  · rw [List.append_nil]
    exact h

theorem AgentInv.timeout {t : Trace} (h : AgentInv t) (ho : Order t.app)
    (hi : CallsInv [] t) (hmarked : Marked t) (c id : Nat) :
    AgentInv ⟨(timeout t.app c id).1, t.sent ++ (timeout t.app c id).2⟩ := by
  unfold SystemBus.timeout
  split
  · next waiting _ =>
      have herased : Heard t.app
          { t.app with waiting := t.app.waiting.erase waiting } :=
        ho.keep rfl rfl (Nat.le_refl _) (Nat.le_refl _) (fun _ => rfl) ho.idle
          (fun _ hp => .inl hp) ho.inHand (fun _ he => .inl he) (.of_client rfl)
      have hh : AgentInv ⟨{ t.app with waiting := t.app.waiting.erase waiting },
          t.sent ++ []⟩ :=
        h.heard rfl (Nat.le_refl _) (fun _ he => .inl he)
          (fun d => .inl (SameClient.refl _).fewer) herased fun _ _ _ _ => List.not_mem_nil
      rw [List.append_nil] at hh
      refine hh.finish herased.order (fun call hcall => (hmarked.pending hi hcall).2)
        fun _ _ _ _ => ⟨?_, ?_, ?_, ?_⟩
      · exact fun _ _ hnone => by cases hnone
      · exact fun _ _ hnone => by cases hnone
      · exact fun _ _ hnone => by cases hnone
      · exact fun _ _ hnone => by cases hnone
  · rw [List.append_nil]
    exact h

/-- What the steps do that neither forward nor deliver. -/
structure Quiet (app app' : App) : Prop where
  received : app.received ≤ app'.received
  queue : ∀ e ∈ app'.queue, e ∈ app.queue ∨ app.received ≤ e.position
  client : ∀ c, SameClient (app.client c) (app'.client c) ∨ NewClient (app'.client c)

theorem Frame.quiet {app app' : App} (h : Frame app app') : Quiet app app' where
  received := Nat.le_of_eq h.sameQueue.received.symm
  queue := fun e he => by
    rw [h.sameQueue.queue] at he
    exact .inl he
  client := fun c => (h.client c).imp_right fun hnew => hnew.2.2

theorem Quiet.same {app app' : App} (hclient : app'.client = app.client)
    (hqueue : app'.queue = app.queue) (hreceived : app.received ≤ app'.received) :
    Quiet app app' where
  received := hreceived
  queue := fun e he => by
    rw [hqueue] at he
    exact .inl he
  client := fun c => by
    rw [hclient]
    exact .inl (SameClient.refl _)

theorem Quiet.queued {app app' : App} {e : Event} (hposition : e.position = app.received)
    (hclient : app'.client =
      (queueMessage { app with received := app.received + 1 } e).1.client)
    (hqueue : app'.queue = (queueMessage { app with received := app.received + 1 } e).1.queue)
    (hreceived : app'.received =
      (queueMessage { app with received := app.received + 1 } e).1.received) :
    Quiet app app' := by
  obtain ⟨hrest, hmem⟩ := queueMessage_rest { app with received := app.received + 1 } e
  rw [hrest] at hclient hreceived
  refine ⟨?_, fun other hother => ?_, fun c => ?_⟩
  · rw [hreceived]
    exact Nat.le_succ _
  · rw [hqueue] at hother
    rcases hmem other hother with hold | rfl
    · exact .inl hold
    · exact .inr (Nat.le_of_eq hposition.symm)
  · rw [hclient]
    exact .inl (SameClient.refl _)

theorem step_quiet {app : App} {s : Step} (h : s.plain) : Quiet app (step app s).1 := by
  have hrefl : Quiet app app := .same rfl rfl (Nat.le_refl _)
  cases s with
  | receive bus message =>
      show Quiet app (receive app bus message).1
      unfold receive
      split
      · next client _ _ =>
          have hqueued := fun (next : App) => @Quiet.queued app next
            ⟨client, bus, message, app.received⟩ rfl
          dsimp only
          split
          · exact hqueued _ rfl rfl rfl
          · split
            · exact hqueued _ rfl rfl rfl
            · exact .same rfl rfl (Nat.le_succ _)
      · exact hrefl
  | «match» =>
      show Quiet app (matchReply app)
      unfold matchReply
      split
      · exact hrefl
      · dsimp only
        split
        · exact .same rfl rfl (Nat.le_refl _)
        · exact .same rfl rfl (Nat.le_refl _)
  | watchStarted c service owner =>
      show Quiet app (watchStarted app c service owner)
      unfold watchStarted
      split
      · exact hrefl
      · exact .same rfl rfl (Nat.le_succ _)
  | nameOwnerChanged c service oldOwner newOwner =>
      show Quiet app (nameOwnerChanged app c service oldOwner newOwner).1
      unfold nameOwnerChanged
      split
      · exact hrefl
      split
      · exact hrefl
      · dsimp only
        generalize hevent : Event.mk (some c) (.host c) _ app.received = event
        have hposition : event.position = app.received := by rw [← hevent]
        exact .queued hposition rfl rfl rfl
  | fail c id =>
      show Quiet app (fail app c id)
      unfold fail
      split
      · exact .same rfl rfl (Nat.le_refl _)
      · exact hrefl
  | process env => exact h.elim
  | check =>
      show Quiet app (if app.queue.isEmpty then _ else app)
      split
      · exact .same rfl rfl (Nat.le_refl _)
      · exact hrefl
  | dispatch => exact h.elim
  | timeout c id => exact h.elim
  | closed c =>
      show Quiet app (if (app.client c).closed then app else _)
      split
      · exact hrefl
      · exact (removeClient_frame _ _).quiet
  | newPeer name => exact (newPeer_frame app name).quiet
  | observerTick env =>
      show Quiet app (if app.broker then app else _)
      split
      · exact hrefl
      · next hbroker => exact (relayClient_frame env (by simpa using hbroker) _ _).quiet
  | guestNameChanged name owner => exact (guestNameChanged_frame app name owner).quiet

theorem AgentInv.step {t : Trace} (h : AgentInv t) (hq : QueueInv t.app)
    (ho : Order t.app) (hi : CallsInv [] t) (hmarked : Marked t) {s : Step}
    (hok : InOrder t s) : AgentInv (t.next s) := by
  by_cases hplain : s.plain
  · have hs : s ≠ .dispatch := by
      rintro rfl
      exact hplain
    have hquiet : Quiet t.app (SystemBus.step t.app s).1 := step_quiet hplain
    refine h.heard (step_broker t.app s) hquiet.received hquiet.queue
      (fun c => (hquiet.client c).imp_left SameClient.fewer) (ho.step hq hs)
      (unanswered_plain fun _ ho => step_plain ho hplain)
  · cases s with
    | process env => exact h.process hq ho hi hmarked env
    | dispatch => exact h.dispatch hq ho hi hmarked hok
    | timeout c id => exact h.timeout ho hi hmarked c id
    | _ => exact absurd trivial hplain

theorem AgentInv.initial {t : Trace} (h : Initial t) (hbroker : t.app.broker = true) :
    AgentInv t := by
  cases h with
  | relay => cases hbroker
  | broker admin =>
      exact {
        broker := rfl
        answered := fun _ _ _ _ hsent => absurd hsent List.not_mem_nil
        asks := fun _ _ hcall => absurd hcall List.not_mem_nil
        agent := fun _ hagent => by cases hagent
        enrolled := fun _ _ hagent => by cases hagent }

/-! ## The gate is kept -/

/-- With no report of an earlier announcement to come, the owner the program knows
is the one that the bus had announced. -/
theorem Order.owner {app : App} (h : Order app) {c n : Nat} {owner : String}
    (hopen : (app.client c).closed = false)
    (howner : (app.client c).owners .networkManager = some owner)
    (hreports : ∀ source ∈ reports app c, ∀ p, source.position = some p → n < p)
    (hbefore : ∀ a, Handled app c a → a.position < n) :
    ownerAt app c n = some owner ∧
      ∀ a ∈ told app c, a.position < n → Handled app c a := by
  have hsorted := h.sorted c
  cases h.phase c with
  | unwatched _ _ hnone => exact absurd ((hnone hopen).symm.trans howner) nofun
  | starting _ _ _ _ _ _ _ hnone => exact absurd ((hnone hopen).symm.trans howner) nofun
  | running done later hstate hlist hpending hknown _ =>
      rw [hlist, List.map_append, List.pairwise_append] at hsorted
      have hhandled : ∀ a ∈ done, Handled app c a := by
        intro a ha
        refine ⟨?_, hstate, fun source hsource => ?_⟩
        · rw [hlist]
          exact List.mem_append_left _ ha
        · rw [hpending] at hsource
          obtain ⟨b, hb, rfl⟩ := List.mem_map.mp hsource
          exact ⟨b, rfl, hsorted.2.2 _ (List.mem_map_of_mem ha) _ (List.mem_map_of_mem hb)⟩
      have hlater : ∀ a ∈ later, n < a.position := fun a ha =>
        hreports a.report (hpending ▸ List.mem_map_of_mem ha) a.position rfl
      constructor
      · have hdone : done.filter (·.position < n) = done :=
          List.filter_eq_self.mpr fun a ha =>
            decide_eq_true (hbefore a (hhandled a ha))
        have hnone : later.filter (·.position < n) = [] :=
          List.filter_eq_nil_iff.mpr fun a ha => by
            have hlt := hlater a ha
            simp
            omega
        rw [ownerAt, hlist, List.filter_append, hdone, hnone, List.append_nil,
          ← hknown hopen]
        exact howner
      · intro a ha hlt
        rw [hlist] at ha
        rcases List.mem_append.mp ha with ha | ha
        · exact hhandled a ha
        · have hgt := hlater a ha
          omega

end Spaces.SystemBus
