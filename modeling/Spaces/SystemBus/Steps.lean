import Spaces.Library.Runs
import Spaces.SystemBus.Bridge

/-!
# What a step of the bridge can do

`handleEvent_acts` says once for all the results about runs what comes of a
message: nothing but refusals and signals, a call that is forwarded for a reason,
or an answer that is delivered. Everything else of the state stays as it was,
which is what `Frame` says.
-/

namespace Spaces.SystemBus

open Portal (Variant)

/-! ## What stays -/

/-- What every handler leaves of a client but those that forward, deliver or
watch. -/
structure SameClient (before after : Client) : Prop where
  pendingCalls : after.pendingCalls = before.pendingCalls
  outstanding : after.outstanding = before.outstanding
  agent : after.agent = before.agent
  owners : after.owners = before.owners
  closed : before.closed = true → after.closed = true
  admin : before.opened = true → after.opened = true ∧ after.admin = before.admin

theorem SameClient.refl (client : Client) : SameClient client client :=
  ⟨rfl, rfl, rfl, rfl, id, fun h => ⟨h, rfl⟩⟩

/-- A client that has just been made. -/
structure NewClient (client : Client) : Prop where
  pendingCalls : client.pendingCalls = []
  outstanding : client.outstanding = 0
  agent : client.agent = false
  owners : client.owners = fun _ => none

/-- The clients that the table and the messages name have been made. -/
def Known (app : App) : Prop := ∀ entry ∈ app.clients, entry.2 < app.nextClient

/-- In the broker an administrator is a client that has been opened under
`--admin` and not as an observer. -/
def Administered (app : App) : Prop :=
  app.broker = true → ∀ c, (app.client c).admin = true →
    app.admin = true ∧ (app.client c).observer = false ∧ (app.client c).opened = true

/-- The tables of clients and names may change, and nothing else does; a client
is the same or new. -/
structure Frame (app app' : App) : Prop where
  rest : app' = { app with
    client := app'.client, nextClient := app'.nextClient, clients := app'.clients
    guestNames := app'.guestNames }
  clients : app.nextClient ≤ app'.nextClient
  known : Known app → Known app'
  administered : Administered app → Administered app'
  client : ∀ c, SameClient (app.client c) (app'.client c) ∨
    (app.nextClient ≤ c ∧ c < app'.nextClient ∧ NewClient (app'.client c))

theorem Frame.refl (app : App) : Frame app app :=
  ⟨rfl, Nat.le_refl _, id, id, fun _ => .inl (SameClient.refl _)⟩

/-- What a client is to the policy. -/
def Client.role (client : Client) : Bool × Bool × Bool :=
  (client.admin, client.observer, client.opened)

theorem App.updateClient_role (app : App) {c : Nat} {f : Client → Client}
    (h : (f (app.client c)).role = (app.client c).role) (d : Nat) :
    ((app.updateClient c f).client d).role = (app.client d).role :=
  app.updateClient_rel (r := fun before after => after.role = before.role) (fun _ => rfl) h d

theorem Administered.congr {app app' : App} (h : Administered app)
    (hbroker : app'.broker = app.broker) (hadmin : app'.admin = app.admin)
    (hrole : ∀ c, (app'.client c).role = (app.client c).role) : Administered app' := by
  intro hb c hc
  have hrole := hrole c
  simp only [Client.role, Prod.mk.injEq] at hrole
  rw [hadmin, hrole.2.1, hrole.2.2]
  exact h (hbroker ▸ hb) c (hrole.1 ▸ hc)

theorem Frame.update {app : App} {c : Nat} {f : Client → Client}
    (h : SameClient (app.client c) (f (app.client c)))
    (hadmin : Administered app → Administered (app.updateClient c f)) :
    Frame app (app.updateClient c f) where
  rest := rfl
  clients := Nat.le_refl _
  known := id
  administered := hadmin
  client := fun d => .inl (app.updateClient_rel SameClient.refl h d)

/-! ## Outputs -/

/-- Neither a call nor an answer to one. -/
def Output.plain : Output → Prop
  | .send _ _ | .ownName _ => True
  | .call _ _ _ | .reply _ _ _ _ => False

theorem replyError_plain {bus : Bus} {request : Message} {name text : String} {o : Output}
    (h : o ∈ replyError bus request name text) : o.plain := by
  unfold replyError at h
  rw [Option.mem_toList, Option.map_eq_some_iff] at h
  obtain ⟨message, -, rfl⟩ := h
  trivial

theorem replySuccess_plain {bus : Bus} {request : Message} {body : List Variant}
    {o : Output} (h : o ∈ replySuccess bus request body) : o.plain := by
  unfold replySuccess at h
  split at h
  · rw [List.mem_singleton.mp h]
    trivial
  · exact absurd h List.not_mem_nil

/-! ## Actions -/

/-- Why a message is forwarded. -/
inductive Reason (app : App) (c : Nat) : Bus → Bus → Message → Option String → Prop
  | guest {message : Message} (origin : Bus) : app.broker = false →
      systemCallAllowed message (app.client c).admin = true →
      Reason app c origin (.peer c) message message.destination
  | broker {message : Message} : app.broker = true → (app.client c).opened = true →
      (app.client c).observer = false →
      systemCallAllowed message (app.client c).admin = true →
      Reason app c (.peer c) (.host c) message message.destination
  | agent {message : Message} {owner : String} (origin : Bus) : app.broker = true →
      isCallback message = true → (app.client c).agent = true →
      (app.client c).owners .networkManager = some owner →
      message.sender = some owner → Reason app c origin (.peer c) message none
  | guestAgent {message : Message} (origin : Bus) : app.broker = false →
      isCallback message = true → (app.client c).admin = true →
      (app.client c).observer = false →
      Reason app c origin .app message (some (app.client c).name)

/-- What a handler does from `app`, while it handles `event` if there is one. -/
inductive Acts (app : App) (event : Option Event) : App × List Output → Prop
  | plain {app' : App} {outputs : List Output} : Frame app app' →
      (∀ o ∈ outputs, o.plain) → Acts app event (app', outputs)
  | forwards {app₁ : App} {c serial : Nat} {origin target : Bus} {request : Message}
      {destination : Option String} : Frame app app₁ →
      Reason app₁ c origin target request destination →
      (Known app → (∀ e d, event = some e → e.client = some d → d < app.nextClient) →
        c < app₁.nextClient) →
      (∃ e, event = some e ∧ (app.broker = true →
        app₁ = app ∧ e.client = some c ∧ request = e.message)) →
      Acts app event (forward app₁ c origin target request destination serial)
  | delivers {c : Nat} {call : Call} {e : Event} : event = some e →
      isReply e.message = true → answeredCall (app.client c) e = some call →
      Acts app event (deliverReply app c call (some (e.message, e.position)))

section Handlers

variable {env : Env} {app : App} {c : Nat} {e : Event}

theorem Acts.silent (event : Option Event) {app' : App} (h : Frame app app') :
    Acts app event (app', []) :=
  .plain h fun _ ho => absurd ho List.not_mem_nil

theorem Acts.refused (event : Option Event) {app' : App} (h : Frame app app') (bus : Bus)
    (request : Message) (name text : String) :
    Acts app event (app', replyError bus request name text) :=
  .plain h fun _ ho => replyError_plain ho

theorem openClient_acts (request : Message) (event : Option Event) :
    Acts app event (openClient env app c request) := by
  unfold openClient
  split
  · next uid observer hopened hbody =>
      have hframe : ∀ f : Client → Client, (∀ client, (f client).pendingCalls =
          client.pendingCalls ∧ (f client).outstanding = client.outstanding ∧
          (f client).agent = client.agent ∧ (f client).owners = client.owners ∧
          (f client).closed = client.closed) →
          ((f (app.client c)).admin = true → (app.client c).admin = true ∨
            (app.admin = true ∧ (f (app.client c)).observer = false ∧
              (f (app.client c)).opened = true)) →
          Frame app (app.updateClient c f) := by
        intro f hf hadmin
        refine Frame.update ⟨(hf _).1, (hf _).2.1, (hf _).2.2.1, (hf _).2.2.2.1,
          fun h => (hf _).2.2.2.2.trans h, fun h => absurd (hopened.symm.trans h) nofun⟩
          fun h hb d hd => ?_
        by_cases hdc : d = c
        · subst hdc
          rw [App.updateClient_client] at hd ⊢
          rcases hadmin hd with hbefore | hafter
          · exact absurd (hopened.symm.trans (h hb d hbefore).2.2) nofun
          · exact hafter
        · rw [App.updateClient_other app f hdc] at hd ⊢
          exact h hb d hd
      split
      · refine .plain ?_ fun _ ho => replySuccess_plain ho
        rw [App.updateClient_twice]
        refine hframe _ (fun _ => ⟨rfl, rfl, rfl, rfl, rfl⟩) fun h => .inr ?_
        have h : (app.admin && !observer) = true := h
        simp only [Bool.and_eq_true, Bool.not_eq_true'] at h
        exact ⟨h.1, h.2, rfl⟩
      · refine .refused _ ?_ _ _ _ _
        exact hframe _ (fun _ => ⟨rfl, rfl, rfl, rfl, rfl⟩) .inl
  · exact .refused _ (Frame.refl app) _ _ _ _

theorem addClient_frame (app : App) (name : String) {client : Client}
    (h : NewClient client) (hadmin : app.broker = true → client.admin = false) :
    Frame app (addClient app name client) where
  rest := rfl
  clients := Nat.le_succ _
  known := fun hknown entry hentry => by
    rcases List.mem_cons.mp hentry with rfl | hentry
    · exact Nat.lt_succ_self _
    · exact Nat.lt_succ_of_lt (hknown entry hentry)
  administered := fun hadministered hb d hd => by
    have hd : ((app.updateClient app.nextClient fun _ => client).client d).admin = true := hd
    show app.admin = true ∧
      ((app.updateClient app.nextClient fun _ => client).client d).observer = false ∧
      ((app.updateClient app.nextClient fun _ => client).client d).opened = true
    by_cases hnew : d = app.nextClient
    · subst hnew
      rw [App.updateClient_client] at hd
      exact absurd ((hadmin hb).symm.trans hd) nofun
    · rw [App.updateClient_other app _ hnew] at hd ⊢
      exact hadministered hb d hd
  client := fun d => by
    by_cases hd : d = app.nextClient
    · subst hd
      refine .inr ⟨Nat.le_refl _, Nat.lt_succ_self _, ?_⟩
      show NewClient ((app.updateClient app.nextClient fun _ => client).client app.nextClient)
      rw [App.updateClient_client]
      exact h
    · left
      show SameClient _ ((app.updateClient app.nextClient fun _ => client).client d)
      rw [App.updateClient_other app _ hd]
      exact SameClient.refl _

theorem relayClient_frame (env : Env) (hbroker : app.broker = false) (sender : String)
    (observer : Bool) : Frame app (relayClient env app sender observer).1 := by
  unfold relayClient
  split
  · exact Frame.refl app
  · split
    · exact Frame.refl app
    · split
      · exact Frame.refl app
      · split
        · exact addClient_frame app sender ⟨rfl, rfl, rfl, rfl⟩
            fun hb => absurd (hbroker.symm.trans hb) nofun
        · exact Frame.refl app

theorem removeClient_frame (app : App) (name : String) :
    Frame app (removeClient app name) := by
  unfold removeClient
  split
  · next c _ =>
      have hupdate : Frame app (app.updateClient c fun client =>
          { client with closed := true }) :=
        Frame.update ⟨rfl, rfl, rfl, rfl, fun _ => rfl, fun h => ⟨h, rfl⟩⟩ fun h =>
          h.congr rfl rfl (App.updateClient_role app rfl)
      exact {
        rest := rfl
        clients := Nat.le_refl _
        known := fun h entry hentry => h entry (List.mem_of_mem_filter hentry)
        administered := hupdate.administered
        client := hupdate.client }
  · exact Frame.refl app

theorem newPeer_frame (app : App) (name : String) : Frame app (newPeer app name) := by
  unfold newPeer
  split
  · exact addClient_frame app name ⟨rfl, rfl, rfl, rfl⟩ fun _ => rfl
  · exact Frame.refl app

theorem Frame.guests {app app' : App} {names : List String}
    (h : Frame { app with guestNames := names } app') : Frame app app' where
  rest := h.rest
  clients := h.clients
  known := h.known
  administered := h.administered
  client := h.client

theorem guestNameChanged_frame (app : App) (name owner : String) :
    Frame app (guestNameChanged app name owner) := by
  unfold guestNameChanged
  split
  · split
    · exact (removeClient_frame _ name).guests
    · split
      · exact (Frame.refl { app with guestNames := name :: app.guestNames }).guests
      · exact Frame.refl app
  · exact Frame.refl app

theorem relayClient_known {sender : String} {observer : Bool} {app₁ : App}
    (h : relayClient env app sender observer = (app₁, some c)) (hknown : Known app) :
    c < app₁.nextClient := by
  unfold relayClient at h
  split at h
  · next d hlookup =>
      injection h with happ hc
      injection hc with hc
      subst happ
      subst hc
      obtain ⟨before, after, hclients, -⟩ := List.lookup_eq_some_iff.mp hlookup
      exact hknown (sender, d) (by rw [hclients]; simp)
  · split at h
    · cases h
    · split at h
      · cases h
      · split at h
        · injection h with happ hc
          injection hc with hc
          subst happ
          subst hc
          exact Nat.lt_succ_self _
        · cases h

theorem handleGuestCall_acts (hbroker : app.broker = false) :
    Acts app (some e) (handleGuestCall env app e) := by
  have hframe := relayClient_frame env hbroker (e.message.sender.getD "") false
  unfold handleGuestCall
  split
  · next app₁ hrelay =>
      rw [hrelay] at hframe
      exact .refused _ hframe _ _ _ _
  · next app₁ c hrelay =>
      rw [hrelay] at hframe
      have hbroker₁ : app₁.broker = false :=
        (congrArg App.broker hframe.rest).trans hbroker
      dsimp only
      split
      · next hallowed =>
          refine .forwards hframe (.guest _ hbroker₁ hallowed)
            (fun hknown _ => relayClient_known hrelay hknown) ⟨e, rfl, fun h => ?_⟩
          exact absurd (hbroker.symm.trans h) nofun
      · exact .refused _ hframe _ _ _ _

theorem handleBrokerCall_acts (hbroker : app.broker = true) (hclient : e.client = some c) :
    Acts app (some e) (handleBrokerCall env app c e) := by
  unfold handleBrokerCall
  dsimp only
  split
  · exact openClient_acts _ _
  · split
    · exact .refused _ (Frame.refl app) _ _ _ _
    · next hallowed =>
        have hallowed : ((app.client c).opened = true ∧ (app.client c).observer = false) ∧
            systemCallAllowed e.message (app.client c).admin = true := by
          simpa using hallowed
        exact .forwards (Frame.refl app)
          (.broker hbroker hallowed.1.1 hallowed.1.2 hallowed.2)
          (fun _ h => h e c rfl hclient)
          ⟨e, rfl, fun _ => ⟨rfl, hclient, rfl⟩⟩

theorem handleAgentCallback_acts (hclient : e.client = some c) :
    Acts app (some e) (handleAgentCallback env app c e) := by
  unfold handleAgentCallback
  dsimp only
  cases hbroker : app.broker with
  | true =>
      simp only [↓reduceIte]
      split
      · next hgate =>
          simp only [Bool.and_eq_true, beq_iff_eq, Option.isSome_iff_exists] at hgate
          obtain ⟨hcallback, ⟨hagent, owner, howner⟩, hsender⟩ := hgate
          refine .forwards (Frame.refl app) ?_ (fun _ h => h e c rfl hclient)
            ⟨e, rfl, fun _ => ⟨rfl, hclient, rfl⟩⟩
          exact .agent _ hbroker hcallback hagent howner (hsender.trans howner)
      · exact .refused _ (Frame.refl app) _ _ _ _
  | false =>
      simp only [Bool.false_eq_true, ↓reduceIte]
      split
      · next hgate =>
          have hgate : isCallback e.message = true ∧ (app.client c).admin = true ∧
              (app.client c).observer = false := by simpa using hgate
          refine .forwards (Frame.refl app) ?_ (fun _ h => h e c rfl hclient)
            ⟨e, rfl, fun _ => ⟨rfl, hclient, rfl⟩⟩
          exact .guestAgent _ hbroker hgate.1 hgate.2.1 hgate.2.2
      · exact .refused _ (Frame.refl app) _ _ _ _

theorem forwardHostSignal_plain {o : Output} (h : o ∈ forwardHostSignal app c e) :
    o.plain := by
  unfold forwardHostSignal at h
  dsimp only at h
  split at h
  · split at h
    · exact absurd h List.not_mem_nil
    · rw [List.mem_singleton.mp h]
      trivial
  · exact absurd h List.not_mem_nil

theorem forwardPeerSignal_plain {o : Output} (h : o ∈ forwardPeerSignal app c e) :
    o.plain := by
  unfold forwardPeerSignal at h
  dsimp only at h
  split at h
  · split at h
    · rw [Option.mem_toList, Option.map_eq_some_iff] at h
      obtain ⟨service, -, rfl⟩ := h
      trivial
    · exact absurd h List.not_mem_nil
  · split at h
    · split at h
      · exact absurd h List.not_mem_nil
      · split at h
        · obtain ⟨name, -, rfl⟩ := List.mem_map.mp h
          trivial
        · rw [List.mem_singleton.mp h]
          trivial
    · exact absurd h List.not_mem_nil

theorem routeEvent_acts : Acts app (some e) (routeEvent env app e) := by
  unfold routeEvent
  split
  · split
    · exact .silent _ (Frame.refl app)
    · next hbroker => exact handleGuestCall_acts (by simpa using hbroker)
  · next c hclient =>
      split
      · next hpeer =>
          exact handleBrokerCall_acts (Bool.and_eq_true_iff.mp hpeer).1 hclient
      · split
        · refine .plain (Frame.refl app) fun o ho => ?_
          split at ho
          · exact forwardHostSignal_plain ho
          · exact forwardPeerSignal_plain ho
        · exact handleAgentCallback_acts hclient
        · exact .silent _ (Frame.refl app)

theorem handleEvent_acts : Acts app (some e) (handleEvent env app e) := by
  unfold handleEvent
  dsimp only
  split
  · exact .silent _ (Frame.refl app)
  · split
    · next c _ hreply =>
        split
        · next call hcall => exact .delivers rfl hreply hcall
        · exact .silent _ (Frame.refl app)
    · split
      · exact routeEvent_acts
      · exact .refused _ (Frame.refl app) _ _ _ _

end Handlers

end Spaces.SystemBus
