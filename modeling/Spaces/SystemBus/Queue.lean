import Spaces.SystemBus.Ledger

/-!
# The queue and the main loop

The order of answers and signals is a matter of positions. The queue is sorted
by them, and what the main loop has taken up at default priority was received
before everything that is in the queue, because it was taken up when the queue
was empty.
-/

namespace Spaces.SystemBus

def Idle.position : Idle → Option Nat
  | .finished _ _ reply => reply.map Prod.snd
  | .nameOwner _ _ _ position => some position
  | .nameOwnerChanged _ _ _ _ position => some position

structure QueueInv (app : App) : Prop where
  known : Known app
  administered : Administered app
  clients : ∀ e ∈ app.queue, ∀ c, e.client = some c → c < app.nextClient
  queued : app.queued = app.queue.length
  limit : app.queue.length ≤ 1024
  sorted : (app.queue.map Event.position).Pairwise (· < ·)
  before : ∀ e ∈ app.queue, e.position < app.received
  inHand : ∀ e, app.inHand = some e → e.position < app.received
  idle : ∀ source ∈ app.idle, ∀ p, source.position = some p → p < app.received
  replies : ∀ c id r, Idle.finished c id (some r) ∈ app.idle → isReply r.1 = true
  collected : app.collected ≤ app.idle.length
  /-- What has been taken up was received before what is in the queue. -/
  taken : ∀ source ∈ app.idle.take app.collected, ∀ p, source.position = some p →
    ∀ e ∈ app.queue, p < e.position

/-- The handlers move nothing in the queue and in the main loop. -/
structure SameQueue (app app' : App) : Prop where
  broker : app'.broker = app.broker
  clients : app.nextClient ≤ app'.nextClient
  known : Known app → Known app'
  administered : Administered app → Administered app'
  queue : app'.queue = app.queue
  queued : app'.queued = app.queued
  received : app'.received = app.received
  inHand : app'.inHand = app.inHand
  idle : app'.idle = app.idle
  collected : app'.collected = app.collected
  connection : app'.connection = app.connection
  history : app'.history = app.history

theorem SameQueue.refl (app : App) : SameQueue app app :=
  ⟨rfl, Nat.le_refl _, id, id, rfl, rfl, rfl, rfl, rfl, rfl, rfl, rfl⟩

theorem SameQueue.trans {a b c : App} (h₁ : SameQueue a b) (h₂ : SameQueue b c) :
    SameQueue a c where
  broker := h₂.broker.trans h₁.broker
  clients := Nat.le_trans h₁.clients h₂.clients
  known := fun h => h₂.known (h₁.known h)
  administered := fun h => h₂.administered (h₁.administered h)
  queue := h₂.queue.trans h₁.queue
  queued := h₂.queued.trans h₁.queued
  received := h₂.received.trans h₁.received
  inHand := h₂.inHand.trans h₁.inHand
  idle := h₂.idle.trans h₁.idle
  collected := h₂.collected.trans h₁.collected
  connection := h₂.connection.trans h₁.connection
  history := h₂.history.trans h₁.history

theorem Frame.sameQueue {app app' : App} (h : Frame app app') : SameQueue app app' where
  broker := by rw [h.rest]
  clients := h.clients
  known := h.known
  administered := h.administered
  queue := by rw [h.rest]
  queued := by rw [h.rest]
  received := by rw [h.rest]
  inHand := by rw [h.rest]
  idle := by rw [h.rest]
  collected := by rw [h.rest]
  connection := by rw [h.rest]
  history := by rw [h.rest]

/-- A change of the clients alone, which leaves what they are to the policy. -/
theorem SameQueue.client {app app' : App} (h : app' = { app with client := app'.client })
    (hrole : ∀ c, (app'.client c).role = (app.client c).role) : SameQueue app app' := by
  have hadministered : Administered app → Administered app' := fun hadmin =>
    hadmin.congr (by rw [h]) (by rw [h]) hrole
  rw [h] at hadministered ⊢
  exact ⟨rfl, Nat.le_refl _, id, hadministered, rfl, rfl, rfl, rfl, rfl, rfl, rfl, rfl⟩

theorem forward_sameQueue (app : App) (c : Nat) (origin target : Bus) (request : Message)
    (destination : Option String) (serial : Nat) :
    SameQueue app (forward app c origin target request destination serial).1 := by
  unfold forward
  split
  · exact SameQueue.refl app
  · refine ⟨rfl, Nat.le_refl _, id, fun h => h.congr rfl rfl ?_, rfl, rfl, rfl, rfl, rfl,
      rfl, rfl, rfl⟩
    dsimp only
    refine App.updateClient_role app ?_
    rfl

theorem Delivers.sameQueue {app : App} {c : Nat} {call : Call}
    {reply : Option (Message × Nat)} {r : App × List Output}
    (hd : Delivers app c call reply r) : SameQueue app r.1 := by
  refine .client hd.rest fun d => ?_
  by_cases hdc : d = c
  · subst hdc
    rw [hd.client]
    rfl
  · rw [hd.other d hdc]

theorem SameQueue.update (app : App) {c : Nat} {f : Client → Client}
    (h : (f (app.client c)).role = (app.client c).role) :
    SameQueue app (app.updateClient c f) :=
  .client rfl (App.updateClient_role app h)

theorem forwardFinished_sameQueue (app : App) (c id : Nat)
    (reply : Option (Message × Nat)) :
    SameQueue app (forwardFinished app c id reply).1 := by
  unfold forwardFinished
  split
  · exact SameQueue.refl app
  · next call _ =>
      dsimp only
      split
      · refine .update app ?_
        rfl
      · refine (deliverReply_delivers app c call reply).sameQueue.trans (.update _ ?_)
        rfl

theorem watchReport_sameQueue (app : App) (c : Nat) (service : Service) (lost : Bool)
    (owner : Option String) : SameQueue app (watchReport app c service lost owner).1 := by
  unfold watchReport
  split
  · exact SameQueue.refl app
  · have hvanished : SameQueue app (vanished app c service).1 := by
      unfold vanished
      dsimp only
      refine .update app ?_
      rfl
    have happeared : ∀ app owner, SameQueue app (appeared app c service owner).1 := by
      intro app owner
      unfold appeared
      dsimp only
      refine .update app ?_
      rfl
    cases lost with
    | false =>
        cases owner with
        | none => exact SameQueue.refl app
        | some owner => exact happeared app owner
    | true =>
        cases owner with
        | none => exact hvanished
        | some owner => exact hvanished.trans (happeared _ owner)

theorem Acts.sameQueue {app : App} {event : Option Event} {r : App × List Output}
    (h : Acts app event r) : SameQueue app r.1 := by
  cases h with
  | plain hframe _ => exact hframe.sameQueue
  | forwards hframe _ _ _ =>
      exact hframe.sameQueue.trans (forward_sameQueue _ _ _ _ _ _ _)
  | delivers _ _ _ => exact (deliverReply_delivers _ _ _ _).sameQueue

theorem dispatchIdle_sameQueue (app : App) (source : Idle) :
    SameQueue app (dispatchIdle app source).1 := by
  cases source with
  | finished c id reply => exact forwardFinished_sameQueue app c id reply
  | nameOwner c service owner position => exact watchReport_sameQueue _ _ _ _ _
  | nameOwnerChanged c service oldOwner newOwner position =>
      exact watchReport_sameQueue _ _ _ _ _

theorem QueueInv.same {app app' : App} (hq : QueueInv app) (h : SameQueue app app') :
    QueueInv app' where
  known := h.known hq.known
  administered := h.administered hq.administered
  clients := fun e he c hc => by
    rw [h.queue] at he
    exact Nat.lt_of_lt_of_le (hq.clients e he c hc) h.clients
  queued := by
    rw [h.queue, h.queued]
    exact hq.queued
  limit := by
    rw [h.queue]
    exact hq.limit
  sorted := by
    rw [h.queue]
    exact hq.sorted
  before := by
    rw [h.queue, h.received]
    exact hq.before
  inHand := by
    rw [h.inHand, h.received]
    exact hq.inHand
  idle := by
    rw [h.idle, h.received]
    exact hq.idle
  replies := by
    rw [h.idle]
    exact hq.replies
  collected := by
    rw [h.idle, h.collected]
    exact hq.collected
  taken := by
    rw [h.idle, h.collected, h.queue]
    exact hq.taken

/-- A bridge that has received nothing. -/
theorem QueueInv.empty {app : App} (hclient : app.client = fun _ => {})
    (hclients : app.clients = []) (hqueue : app.queue = [])
    (hqueued : app.queued = 0) (hinHand : app.inHand = none) (hidle : app.idle = [])
    (hcollected : app.collected = 0) : QueueInv app where
  known := by
    unfold Known
    rw [hclients]
    exact fun _ h => absurd h List.not_mem_nil
  administered := fun _ c hc => by
    rw [hclient] at hc
    cases hc
  clients := by
    rw [hqueue]
    exact fun _ h => absurd h List.not_mem_nil
  queued := by rw [hqueued, hqueue, List.length_nil]
  limit := by
    rw [hqueue]
    exact Nat.zero_le _
  sorted := by
    rw [hqueue]
    exact .nil
  before := by
    rw [hqueue]
    exact fun _ h => absurd h List.not_mem_nil
  inHand := fun e h => absurd (hinHand.symm.trans h) (Option.some_ne_none e).symm
  idle := by
    rw [hidle]
    exact fun _ h => absurd h List.not_mem_nil
  replies := by
    rw [hidle]
    exact fun _ _ _ h => absurd h List.not_mem_nil
  collected := by
    rw [hcollected]
    exact Nat.zero_le _
  taken := by
    rw [hidle, List.take_nil]
    exact fun _ h => absurd h List.not_mem_nil

theorem QueueInv.initial {t : Trace} (h : Initial t) : QueueInv t.app := by
  cases h with
  | broker admin => exact .empty rfl rfl rfl rfl rfl rfl rfl
  | relay uniqueName guestNames => exact .empty rfl rfl rfl rfl rfl rfl rfl

/-- The head of the queue is taken. -/
theorem QueueInv.pop {app : App} (hq : QueueInv app) {e : Event} {rest : List Event}
    (h : app.queue = e :: rest) :
    QueueInv { app with queue := rest, queued := app.queued - 1 } ∧
      ∀ later ∈ rest, e.position < later.position := by
  have hmem : ∀ {later}, later ∈ rest → later ∈ app.queue := fun hl => by
    rw [h]
    exact .tail _ hl
  have hcount := hq.queued
  have hlimit := hq.limit
  have hsorted := hq.sorted
  rw [h, List.length_cons] at hcount hlimit
  rw [h, List.map_cons, List.pairwise_cons] at hsorted
  refine ⟨{ hq with
    clients := fun later hl => hq.clients later (hmem hl)
    queued := ?_
    limit := ?_
    sorted := hsorted.2
    before := fun later hl => hq.before later (hmem hl)
    taken := fun source hs p hp later hl => hq.taken source hs p hp later (hmem hl) }, ?_⟩
  · show app.queued - 1 = rest.length
    omega
  · show rest.length ≤ 1024
    omega
  · exact fun later hl => hsorted.1 _ (List.mem_map_of_mem hl)

theorem QueueInv.tick {app : App} (hq : QueueInv app) :
    QueueInv { app with received := app.received + 1 } :=
  { hq with
    before := fun later hl => Nat.lt_succ_of_lt (hq.before later hl)
    inHand := fun later hl => Nat.lt_succ_of_lt (hq.inHand later hl)
    idle := fun source hs p hp => Nat.lt_succ_of_lt (hq.idle source hs p hp) }

/-- A message is put at the end, at a position of its own. -/
theorem QueueInv.push {app : App} (hq : QueueInv app) {e : Event}
    (hclient : ∀ c, e.client = some c → c < app.nextClient)
    (hposition : e.position = app.received) :
    QueueInv (queueMessage { app with received := app.received + 1 } e).1 := by
  unfold queueMessage
  split
  · exact hq.tick
  · next hroom =>
      have hmem : ∀ {later}, later ∈ app.queue ++ [e] → later ∈ app.queue ∨ later = e :=
        fun hl => (List.mem_append.mp hl).imp_right List.mem_singleton.mp
      refine { hq.tick with
        clients := fun later hl c hc => ?_
        queued := ?_
        limit := ?_
        sorted := ?_
        before := fun later hl => ?_
        taken := fun source hs p hp later hl => ?_ }
      · rcases hmem hl with hl | rfl
        · exact hq.clients later hl c hc
        · exact hclient c hc
      · show app.queued + 1 = (app.queue ++ [e]).length
        rw [List.length_append, hq.queued]
        rfl
      · show (app.queue ++ [e]).length ≤ 1024
        have hcount := hq.queued
        rw [List.length_append, List.length_singleton]
        have hroom : ¬ 1024 ≤ app.queued := hroom
        omega
      · show ((app.queue ++ [e]).map Event.position).Pairwise (· < ·)
        rw [List.map_append, List.pairwise_append]
        refine ⟨hq.sorted, List.pairwise_singleton _ _, fun p hp q hl => ?_⟩
        obtain ⟨before, hbefore, rfl⟩ := List.mem_map.mp hp
        rw [List.mem_singleton.mp hl, hposition]
        exact hq.before before hbefore
      · show later.position < app.received + 1
        rcases hmem hl with hl | rfl
        · exact Nat.lt_succ_of_lt (hq.before later hl)
        · omega
      · rcases hmem hl with hl | rfl
        · exact hq.taken source hs p hp later hl
        · rw [hposition]
          exact hq.idle source (List.mem_of_mem_take hs) p hp

/-- A source is added to the main loop, for a message received before. -/
theorem QueueInv.addIdle {app : App} (hq : QueueInv app) {source : Idle}
    (h : ∀ p, source.position = some p → p < app.received)
    (hreply : ∀ c id r, source = .finished c id (some r) → isReply r.1 = true) :
    QueueInv { app with idle := app.idle ++ [source] } :=
  { hq with
    idle := fun other hother p hp => by
      rcases List.mem_append.mp hother with hother | hother
      · exact hq.idle other hother p hp
      · rw [List.mem_singleton.mp hother] at hp
        exact h p hp
    replies := fun c id r hother => by
      rcases List.mem_append.mp hother with hother | hother
      · exact hq.replies c id r hother
      · exact hreply c id r (List.mem_singleton.mp hother).symm
    collected := by
      show app.collected ≤ (app.idle ++ [source]).length
      rw [List.length_append]
      exact Nat.le_add_right_of_le hq.collected
    taken := fun other hother => by
      have hother : other ∈ (app.idle ++ [source]).take app.collected := hother
      rw [List.take_append_of_le_length hq.collected] at hother
      exact hq.taken other hother }

theorem QueueInv.hold {app : App} (hq : QueueInv app) {e : Event}
    (h : e.position < app.received) : QueueInv { app with inHand := some e } :=
  { hq with inHand := fun _ he => Option.some.inj he ▸ h }

theorem busClient_known {app : App} {bus : Bus} {client : Option Nat}
    (h : busClient app bus = some client) : ∀ c, client = some c → c < app.nextClient := by
  rintro c rfl
  cases bus with
  | app =>
      rw [busClient] at h
      split at h <;> cases h
  | peer d =>
      rw [busClient] at h
      split at h
      · next hd =>
          injection h with h
          injection h with h
          exact h ▸ hd
      · cases h
  | host d =>
      rw [busClient] at h
      split at h
      · next hd =>
          injection h with h
          injection h with h
          simp only [Bool.and_eq_true, decide_eq_true_eq] at hd
          exact h ▸ hd.1.1
      · cases h

theorem queueMessage_received (app : App) (e : Event) :
    (queueMessage app e).1.received = app.received := by
  unfold queueMessage
  split <;> rfl

theorem QueueInv.receive {app : App} (hq : QueueInv app) (bus : Bus) (message : Message) :
    QueueInv (receive app bus message).1 := by
  unfold SystemBus.receive
  split
  · next client _ hbus =>
      have hpush : QueueInv (queueMessage _ ⟨client, bus, message, app.received⟩).1 :=
        hq.push (busClient_known hbus) rfl
      dsimp only
      split
      · exact hpush
      · split
        · refine hpush.hold ?_
          rw [queueMessage_received]
          exact Nat.lt_succ_self _
        · exact hq.tick.hold (Nat.lt_succ_self _)
  · exact hq

theorem QueueInv.matchReply {app : App} (hq : QueueInv app) :
    QueueInv (matchReply app) := by
  unfold SystemBus.matchReply
  split
  · exact hq
  · next e hhand =>
      have hdrop : QueueInv { app with inHand := none } :=
        { hq with inHand := fun e h => absurd h.symm (Option.some_ne_none e) }
      dsimp only
      split
      · next waiting hfind =>
          have hreply : isReply e.message = true := by
            have hfound := List.find?_some hfind
            simp only [Bool.and_eq_true] at hfound
            exact hfound.1.1
          have hsource : ∀ p, (Idle.finished waiting.client waiting.call
              (some (e.message, e.position))).position = some p → p < app.received :=
            fun p hp => Option.some.inj hp ▸ hq.inHand e hhand
          refine { hdrop.addIdle hsource fun c id r h => ?_ with }
          injection h with _ _ h
          injection h with h
          exact h ▸ hreply
      · exact hdrop

theorem QueueInv.watchStarted {app : App} (hq : QueueInv app) (c : Nat)
    (service : Service) (owner : Option String) :
    QueueInv (watchStarted app c service owner) := by
  unfold SystemBus.watchStarted
  split
  · exact hq
  · have hsource : ∀ p, (Idle.nameOwner c service owner app.received).position = some p →
        p < app.received + 1 := fun p hp => Option.some.inj hp ▸ Nat.lt_succ_self _
    exact { hq.tick.addIdle hsource (fun _ _ _ h => by cases h) with }

theorem host_known {app : App} {c : Nat} (h : (busClient app (.host c)).isNone = false) :
    c < app.nextClient := by
  cases hbus : busClient app (.host c) with
  | none =>
      rw [hbus] at h
      cases h
  | some client =>
      rw [busClient] at hbus
      split at hbus
      · next hd =>
          simp only [Bool.and_eq_true, decide_eq_true_eq] at hd
          exact hd.1.1
      · cases hbus

theorem QueueInv.nameOwnerChanged {app : App} (hq : QueueInv app) (c : Nat)
    (service : Service) (oldOwner newOwner : Option String) :
    QueueInv (nameOwnerChanged app c service oldOwner newOwner).1 := by
  unfold SystemBus.nameOwnerChanged
  split
  · exact hq
  split
  · exact hq
  · next hready _ =>
      have hhost : (busClient app (.host c)).isNone = false := by
        rw [Bool.or_eq_true, not_or] at hready
        exact Bool.eq_false_iff.mpr hready.2
      dsimp only
      generalize hevent : Event.mk (some c) (.host c) _ app.received = event
      have hpush : QueueInv (queueMessage { app with received := app.received + 1 } event).1 := by
        refine hq.push (fun d hd => ?_) (by rw [← hevent])
        rw [← hevent] at hd
        exact Option.some.inj hd ▸ host_known hhost
      split
      · have hsource : ∀ p, (Idle.nameOwnerChanged c service oldOwner newOwner
            app.received).position = some p →
            p < (queueMessage { app with received := app.received + 1 } event).1.received := by
          intro p hp
          rw [queueMessage_received]
          exact Option.some.inj hp ▸ Nat.lt_succ_self _
        exact { hpush.addIdle hsource (fun _ _ _ h => by cases h) with }
      · exact { hpush with }

theorem QueueInv.dispatch {app : App} (hq : QueueInv app) {collected : Nat}
    {source : Idle} {rest : List Idle} (hcollected : app.collected = collected + 1)
    (hidle : app.idle = source :: rest) :
    QueueInv { app with idle := rest, collected := collected } ∧
      ∀ p, source.position = some p → ∀ e ∈ app.queue, p < e.position := by
  have htaken := hq.taken
  have hlength := hq.collected
  rw [hidle, hcollected, List.take_succ_cons] at htaken
  rw [hidle, hcollected, List.length_cons] at hlength
  refine ⟨{ hq with
    idle := fun other hother => hq.idle other (by rw [hidle]; exact .tail _ hother)
    replies := fun c id r h => hq.replies c id r (by rw [hidle]; exact .tail _ h)
    collected := Nat.le_of_succ_le_succ hlength
    taken := fun other hother => htaken other (.tail _ hother) }, ?_⟩
  exact fun p hp => htaken source (.head _) p hp

theorem QueueInv.step {app : App} (hq : QueueInv app) (s : Step) :
    QueueInv (step app s).1 := by
  cases s with
  | receive bus message => exact hq.receive bus message
  | «match» => exact hq.matchReply
  | watchStarted c service owner => exact hq.watchStarted c service owner
  | nameOwnerChanged c service oldOwner newOwner =>
      exact hq.nameOwnerChanged c service oldOwner newOwner
  | fail c id =>
      show QueueInv (fail app c id)
      unfold fail
      split
      · have hsource : ∀ p, (Idle.finished c id none).position = some p →
            p < app.received := fun p hp => absurd hp.symm (Option.some_ne_none p)
        exact { hq.addIdle hsource (fun _ _ _ h => by cases h) with }
      · exact hq
  | process env =>
      show QueueInv (processEvent env app).1
      unfold processEvent
      split
      · exact hq
      · next e rest hqueue =>
          exact (hq.pop hqueue).1.same handleEvent_acts.sameQueue
  | check =>
      show QueueInv (if app.queue.isEmpty then _ else app)
      split
      · next hempty =>
          have hempty : app.queue = [] := List.isEmpty_iff.mp hempty
          refine { hq with collected := Nat.le_refl _, taken := fun _ _ _ _ e he => ?_ }
          have he : e ∈ app.queue := he
          rw [hempty] at he
          exact absurd he List.not_mem_nil
      · exact hq
  | dispatch =>
      show QueueInv (SystemBus.dispatch app).1
      unfold SystemBus.dispatch
      split
      · next collected source rest hcollected hidle =>
          exact (hq.dispatch hcollected hidle).1.same (dispatchIdle_sameQueue _ source)
      · exact hq
  | timeout c id =>
      show QueueInv (timeout app c id).1
      unfold timeout
      split
      · next waiting _ =>
          have herased : QueueInv { app with waiting := app.waiting.erase waiting } :=
            { hq with }
          exact herased.same (forwardFinished_sameQueue _ _ _ _)
      · exact hq
  | closed c =>
      show QueueInv (if (app.client c).closed then app else _)
      split
      · exact hq
      · exact hq.same (removeClient_frame _ _).sameQueue
  | newPeer name => exact hq.same (newPeer_frame _ _).sameQueue
  | observerTick env =>
      show QueueInv (if app.broker then app else _)
      split
      · exact hq
      · next hbroker =>
          exact hq.same (relayClient_frame env (by simpa using hbroker) _ _).sameQueue
  | guestNameChanged name owner => exact hq.same (guestNameChanged_frame _ _ _).sameQueue

theorem queueMessage_broker (app : App) (e : Event) :
    (queueMessage app e).1.broker = app.broker := by
  unfold queueMessage
  split <;> rfl

theorem step_broker (app : App) (s : Step) : (step app s).1.broker = app.broker := by
  cases s with
  | receive bus message =>
      show (receive app bus message).1.broker = app.broker
      unfold receive
      split
      · dsimp only
        split
        · exact queueMessage_broker _ _
        · split
          · exact queueMessage_broker _ _
          · rfl
      · rfl
  | «match» =>
      show (matchReply app).broker = app.broker
      unfold matchReply
      split
      · rfl
      · dsimp only
        split <;> rfl
  | watchStarted c service owner =>
      show (watchStarted app c service owner).broker = app.broker
      unfold watchStarted
      split <;> rfl
  | nameOwnerChanged c service oldOwner newOwner =>
      show (nameOwnerChanged app c service oldOwner newOwner).1.broker = app.broker
      unfold nameOwnerChanged
      split
      · rfl
      split
      · rfl
      · exact queueMessage_broker _ _
  | fail c id =>
      show (fail app c id).broker = app.broker
      unfold fail
      split <;> rfl
  | process env =>
      show (processEvent env app).1.broker = app.broker
      unfold processEvent
      split
      · rfl
      · exact handleEvent_acts.sameQueue.broker
  | check =>
      show (if app.queue.isEmpty then _ else app : App).broker = app.broker
      split <;> rfl
  | dispatch =>
      show (dispatch app).1.broker = app.broker
      unfold dispatch
      split
      · exact (dispatchIdle_sameQueue _ _).broker
      · rfl
  | timeout c id =>
      show (timeout app c id).1.broker = app.broker
      unfold timeout
      split
      · exact (forwardFinished_sameQueue _ _ _ _).broker
      · rfl
  | closed c =>
      show (if (app.client c).closed then app else _ : App).broker = app.broker
      split
      · rfl
      · exact (removeClient_frame _ _).sameQueue.broker
  | newPeer name => exact (newPeer_frame _ _).sameQueue.broker
  | observerTick env =>
      show (if app.broker then app else _ : App).broker = app.broker
      split
      · rfl
      · next hbroker =>
          exact (relayClient_frame env (by simpa using hbroker) _ _).sameQueue.broker
  | guestNameChanged name owner => exact (guestNameChanged_frame _ _ _).sameQueue.broker

end Spaces.SystemBus
