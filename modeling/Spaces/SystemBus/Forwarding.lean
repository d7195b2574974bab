import Spaces.SystemBus.Replies

/-!
# What a guest without Network Admin reaches

The relay and the broker decide about every call before it is forwarded. Of a
client that is not an administrator only calls that read go on, of an observer
none, and the answer to `GetPermissions` says no to everything.
-/

namespace Spaces.SystemBus

open Spaces.Library
open Portal (Variant)

/-! ## Where forwarded calls come from -/

/-- A call in the output of a step was the head of the queue, and there is a
reason to forward it. -/
structure Emitted (app : App) (s : Step) (c : Nat) (call : Call) (copy : Message)
    (e : Event) (app₁ : App) (destination : Option String) : Prop where
  head : ∃ env rest, s = .process env ∧ app.queue = e :: rest ∧
    Frame { app with queue := rest, queued := app.queued - 1 } app₁ ∧
    (app.broker = true → app₁ = { app with queue := rest, queued := app.queued - 1 })
  reason : Reason app₁ c call.origin call.target call.request destination
  copy : ∃ serial, copy = forwardedMessage call.request destination serial
  permissions : call.permissions = isGetPermissions call.request
  registerAgent : call.registerAgent =
    (app.broker && call.origin == .peer c && isRegister call.request)
  unregisterAgent : call.unregisterAgent =
    (app.broker && call.origin == .peer c && isUnregister call.request)
  event : app.broker = true → e.client = some c ∧ call.request = e.message
  after : ((step app s).1.client c).role = (app₁.client c).role

theorem forward_call {app : App} {c : Nat} {origin target : Bus} {request : Message}
    {destination : Option String} {serial : Nat} {d : Nat} {call : Call} {copy : Message}
    (h : .call d call copy ∈ (forward app c origin target request destination serial).2) :
    d = c ∧ call.origin = origin ∧ call.target = target ∧ call.request = request ∧
      call.permissions = isGetPermissions request ∧
      call.registerAgent = (app.broker && origin == .peer c && isRegister request) ∧
      call.unregisterAgent = (app.broker && origin == .peer c && isUnregister request) ∧
      copy = forwardedMessage request destination serial := by
  unfold forward at h
  split at h
  · exact absurd (replyError_plain h) id
  · injection List.mem_singleton.mp h with hd hcall hcopy
    subst hd hcall hcopy
    exact ⟨rfl, rfl, rfl, rfl, rfl, rfl, rfl, rfl⟩

theorem forward_role (app : App) (c : Nat) (origin target : Bus) (request : Message)
    (destination : Option String) (serial d : Nat) :
    ((forward app c origin target request destination serial).1.client d).role =
      (app.client d).role := by
  unfold forward
  split
  · rfl
  · dsimp only
    refine App.updateClient_role app ?_ d
    rfl

theorem forwardFinished_no_call {app : App} {c id : Nat} {reply : Option (Message × Nat)}
    {d : Nat} {call : Call} {copy : Message} :
    .call d call copy ∉ (forwardFinished app c id reply).2 := by
  intro h
  unfold forwardFinished at h
  split at h
  · exact absurd h List.not_mem_nil
  · next found _ =>
      dsimp only at h
      split at h
      · exact absurd h List.not_mem_nil
      · rcases (deliverReply_delivers app c found reply).outputs with
          ⟨hnil, -⟩ | ⟨message, hone, -⟩
        · rw [hnil] at h
          exact absurd h List.not_mem_nil
        · rw [hone] at h
          cases List.mem_singleton.mp h

theorem emits_call {app : App} {s : Step} {c : Nat} {call : Call} {copy : Message}
    (h : .call c call copy ∈ emits app s) :
    ∃ e app₁ destination, Emitted app s c call copy e app₁ destination := by
  cases s with
  | process env =>
      have h : .call c call copy ∈ (processEvent env app).2 := h
      have hafter : (step app (.process env)).1 = (processEvent env app).1 := rfl
      unfold processEvent at h hafter
      split at h
      · exact absurd h List.not_mem_nil
      · next e rest hqueue =>
          have hacts : Acts { app with queue := rest, queued := app.queued - 1 } (some e)
              (handleEvent env { app with queue := rest, queued := app.queued - 1 } e) :=
            handleEvent_acts
          rw [hqueue] at hafter
          dsimp only at hafter
          generalize handleEvent env _ e = r at h hacts hafter
          cases hacts with
          | plain _ hp => exact absurd (hp _ h) id
          | @forwards app₁ d serial origin target request destination hframe hreason _
              hevent =>
              obtain ⟨rfl, rfl, rfl, rfl, hperm, hreg, hunreg, rfl⟩ := forward_call h
              obtain ⟨e', he', hevent⟩ := hevent
              injection he' with he'
              subst he'
              have hbroker : app₁.broker = app.broker := by rw [hframe.rest]
              rw [hbroker] at hreg hunreg
              refine ⟨e, app₁, destination, ⟨env, rest, rfl, hqueue, hframe,
                fun hb => (hevent hb).1⟩, hreason, ⟨serial, rfl⟩, hperm, hreg, hunreg,
                fun hb => (hevent hb).2, ?_⟩
              rw [hafter]
              exact forward_role _ _ _ _ _ _ _ _
          | @delivers d found e' he' _ _ =>
              rcases (deliverReply_delivers _ d found (some (e'.message, e'.position))).outputs
                with ⟨hnil, -⟩ | ⟨message, hone, -⟩
              · rw [hnil] at h
                exact absurd h List.not_mem_nil
              · rw [hone] at h
                cases List.mem_singleton.mp h
  | dispatch =>
      have h : .call c call copy ∈ (dispatch app).2 := h
      unfold dispatch at h
      split at h
      · next collected source rest _ _ =>
          cases source with
          | finished d id reply => exact absurd h forwardFinished_no_call
          | nameOwner d service owner position =>
              exact absurd ((watchReport_calls _ _ _ _ _).2 _ h) id
          | nameOwnerChanged d service oldOwner newOwner position =>
              exact absurd ((watchReport_calls _ _ _ _ _).2 _ h) id
      · exact absurd h List.not_mem_nil
  | timeout d id =>
      have h : .call c call copy ∈ (timeout app d id).2 := h
      unfold timeout at h
      split at h
      · exact absurd h forwardFinished_no_call
      · exact absurd h List.not_mem_nil
  | _ => exact absurd (step_plain h trivial) fun hp => hp

/-! ## Where answers come from -/

theorem Delivers.mem {app : App} {c : Nat} {call : Call} {reply : Option (Message × Nat)}
    {r : App × List Output} (hd : Delivers app c call reply r) {d : Nat} {other : Call}
    {message : Message} {n : Option Nat} (h : .reply d other message n ∈ r.2) :
    d = c ∧ other = call ∧ (message.type = .error ∨ ∃ received position,
      reply = some (received, position) ∧
        message = relayedReply (app.client c) call received) := by
  rcases hd.outputs with ⟨hnil, -⟩ | ⟨sent, hone, -, hkind⟩
  · rw [hnil] at h
    exact absurd h List.not_mem_nil
  · rw [hone] at h
    injection List.mem_singleton.mp h with hdc hcall hmessage
    subst hdc hcall hmessage
    exact ⟨rfl, rfl, hkind⟩

theorem forwardFinished_mem {app : App} {c id : Nat} {reply : Option (Message × Nat)}
    {d : Nat} {call : Call} {message : Message} {n : Option Nat}
    (h : .reply d call message n ∈ (forwardFinished app c id reply).2) :
    d = c ∧ call ∈ (app.client c).pendingCalls ∧ (message.type = .error ∨
      ∃ received, message = relayedReply (app.client c) call received) := by
  unfold forwardFinished at h
  split at h
  · exact absurd h List.not_mem_nil
  · next found hfind =>
      dsimp only at h
      split at h
      · exact absurd h List.not_mem_nil
      · obtain ⟨hd, rfl, hkind⟩ := (deliverReply_delivers app c found reply).mem h
        refine ⟨hd, List.mem_of_find?_eq_some hfind, hkind.imp_right ?_⟩
        rintro ⟨received, position, -, hmessage⟩
        exact ⟨received, hmessage⟩

/-- An answer in the output of a step is an error, or what has been made of an
answer to a pending call. -/
theorem emits_reply {app : App} {s : Step} {c : Nat} {call : Call} {message : Message}
    {n : Option Nat} (h : .reply c call message n ∈ emits app s) :
    call ∈ (app.client c).pendingCalls ∧ (message.type = .error ∨
      ∃ received, message = relayedReply (app.client c) call received) := by
  cases s with
  | process env =>
      have h : .reply c call message n ∈ (processEvent env app).2 := h
      unfold processEvent at h
      split at h
      · exact absurd h List.not_mem_nil
      · next e rest _ =>
          have hacts : Acts { app with queue := rest, queued := app.queued - 1 } (some e)
              (handleEvent env { app with queue := rest, queued := app.queued - 1 } e) :=
            handleEvent_acts
          generalize handleEvent env _ e = r at h hacts
          cases hacts with
          | plain _ hp => exact absurd (hp _ h) id
          | forwards _ _ _ _ =>
              rcases forward_no_reply h with hp | ⟨d, other, copy, hp⟩
              · exact absurd hp id
              · cases hp
          | delivers _ _ hcall =>
              obtain ⟨rfl, rfl, hkind⟩ := (deliverReply_delivers _ _ _ _).mem h
              refine ⟨List.mem_of_find?_eq_some hcall, hkind.imp_right ?_⟩
              rintro ⟨received, position, -, hmessage⟩
              exact ⟨received, hmessage⟩
  | dispatch =>
      have h : .reply c call message n ∈ (dispatch app).2 := h
      unfold dispatch at h
      split at h
      · next collected source rest _ _ =>
          cases source with
          | finished d id reply =>
              obtain ⟨rfl, hmem, hkind⟩ := forwardFinished_mem h
              exact ⟨hmem, hkind⟩
          | nameOwner d service owner position =>
              exact absurd ((watchReport_calls _ _ _ _ _).2 _ h) id
          | nameOwnerChanged d service oldOwner newOwner position =>
              exact absurd ((watchReport_calls _ _ _ _ _).2 _ h) id
      · exact absurd h List.not_mem_nil
  | timeout d id =>
      have h : .reply c call message n ∈ (timeout app d id).2 := h
      unfold timeout at h
      split at h
      · obtain ⟨rfl, hmem, hkind⟩ := forwardFinished_mem h
        exact ⟨hmem, hkind⟩
      · exact absurd h List.not_mem_nil
  | _ => exact absurd (step_plain h trivial) id

/-! ## The marks of a call -/

/-- The marks of a forwarded call are those of its request. -/
def Marked (t : Trace) : Prop :=
  ∀ c call copy, .call c call copy ∈ t.sent →
    call.permissions = isGetPermissions call.request ∧
    call.registerAgent =
      (t.app.broker && call.origin == .peer c && isRegister call.request) ∧
    call.unregisterAgent =
      (t.app.broker && call.origin == .peer c && isUnregister call.request)

theorem Marked.step {t : Trace} (h : Marked t) (s : Step) : Marked (t.next s) := by
  intro c call copy hcall
  have hbroker : (t.next s).app.broker = t.app.broker := step_broker t.app s
  rw [hbroker]
  rcases List.mem_append.mp hcall with hcall | hcall
  · exact h c call copy hcall
  · obtain ⟨e, app₁, destination, he⟩ := emits_call hcall
    exact ⟨he.permissions, he.registerAgent, he.unregisterAgent⟩

theorem marked_reachable {t₀ t : Trace} (h₀ : Initial t₀)
    (h : Reachable Trace.next t₀ t) : Marked t := by
  refine h.invariant (fun c call copy hcall => ?_) fun t s ht _ => ht.step s
  cases h₀ <;> exact absurd hcall List.not_mem_nil

/-- A pending call carries the marks of its request. -/
theorem Marked.pending {t : Trace} (h : Marked t) (hi : CallsInv [] t) {c : Nat}
    {call : Call} (hcall : call ∈ (t.app.client c).pendingCalls) :
    call.permissions = isGetPermissions call.request ∧
    call.registerAgent =
      (t.app.broker && call.origin == .peer c && isRegister call.request) ∧
    call.unregisterAgent =
      (t.app.broker && call.origin == .peer c && isUnregister call.request) := by
  obtain ⟨⟨copy, hsent⟩, -⟩ := hi.asSent c call hcall
  exact h c { call with delivered := false } copy hsent

/-! ## Permissions -/

/-- The permissions that a body of type `(a{ss})` reports. -/
def grants : Option (List Variant) → List (String × String)
  | some [.array "\x7bss\x7d" entries] => entries.filterMap fun
      | .dictEntry (.str key) (.str value) => some (key, value)
      | _ => none
  | _ => []

theorem denyPermissions_grants {body : Option (List Variant)} {entry : String × String}
    (h : entry ∈ grants (denyPermissions body)) : entry.2 = "no" := by
  unfold denyPermissions at h
  split at h
  · next entries =>
      obtain ⟨denied, hdenied, hentry⟩ := List.mem_filterMap.mp h
      obtain ⟨before, -, hbefore⟩ := List.mem_filterMap.mp hdenied
      split at hbefore
      · injection hbefore with hbefore
        subst hbefore
        injection hentry with hentry
        rw [← hentry]
      · cases hbefore
  · next hother =>
      unfold grants at h
      split at h
      · exact absurd rfl (hother _)
      · exact absurd h List.not_mem_nil

/-! ## The boundary -/

/-- What a step may let through. -/
structure ReadsOnly (t : Trace) (s : Step) : Prop where
  /-- What goes to the host's bus is not from an observer, and if the client is not
  an administrator it only reads. -/
  host : ∀ c d call copy, .call c call copy ∈ emits t.app s → call.target = .host d →
    (t.app.client c).observer = false ∧
      ((t.app.client c).admin = false → Permitted copy)
  /-- The relay sends the broker only such calls, for a guest that is not an
  administrator. -/
  relay : t.app.broker = false → ∀ c d call copy, .call c call copy ∈ emits t.app s →
    call.target = .peer d → ((step t.app s).1.client c).admin = false → Permitted copy
  /-- The answer to `GetPermissions` that a client gets grants nothing. -/
  permissions : ∀ c call message n, .reply c call message n ∈ emits t.app s →
    isGetPermissions call.request = true → (t.app.client c).admin = false →
    message.type = .methodReturn → ∀ entry ∈ grants message.body, entry.2 = "no"
  /-- Without `--admin` the broker has no administrator, and an observer never is. -/
  administered : Administered t.app

theorem Reason.permitted {app : App} {c : Nat} {origin target : Bus} {request : Message}
    {destination : Option String} (h : Reason app c origin target request destination)
    (hadmin : (app.client c).admin = false) (serial : Nat)
    (htarget : (∃ d, target = .host d) ∨ app.broker = false ∧ ∃ d, target = .peer d) :
    Permitted (forwardedMessage request destination serial) := by
  cases h with
  | guest origin _ hallowed =>
      rw [hadmin] at hallowed
      exact systemCallAllowed_iff.mp hallowed
  | broker _ _ _ hallowed =>
      rw [hadmin] at hallowed
      exact systemCallAllowed_iff.mp hallowed
  | agent origin hbroker =>
      rcases htarget with ⟨d, hd⟩ | ⟨hnot, -⟩
      · cases hd
      · exact absurd (hnot.symm.trans hbroker) nofun
  | guestAgent =>
      rcases htarget with ⟨d, hd⟩ | ⟨-, d, hd⟩ <;> cases hd

theorem Reason.toHost {app : App} {c d : Nat} {origin : Bus} {request : Message}
    {destination : Option String} (h : Reason app c origin (.host d) request destination) :
    app.broker = true ∧ (app.client c).observer = false := by
  cases h with
  | broker hbroker _ hobserver _ => exact ⟨hbroker, hobserver⟩

theorem forwarded_reads_only {t₀ t : Trace} (h₀ : Initial t₀)
    (h : Reachable Trace.next t₀ t) (s : Step) : ReadsOnly t s := by
  obtain ⟨hi, hq⟩ := reachable_inv h₀ h
  have hmarked := marked_reachable h₀ h
  refine ⟨?_, ?_, ?_, hq.administered⟩
  · intro c d call copy hcall htarget
    obtain ⟨e, app₁, destination, he⟩ := emits_call hcall
    obtain ⟨env, rest, rfl, hqueue, hframe, hsame⟩ := he.head
    obtain ⟨serial, rfl⟩ := he.copy
    have hreason := he.reason
    obtain ⟨hbroker, hobserver⟩ := (htarget ▸ hreason).toHost
    have happ : app₁.client c = t.app.client c := by
      rw [hsame (by rw [hframe.rest] at hbroker; exact hbroker)]
    rw [happ] at hobserver
    refine ⟨hobserver, fun hadmin => ?_⟩
    rw [← happ] at hadmin
    exact hreason.permitted hadmin serial (.inl ⟨d, htarget⟩)
  · intro hrelay c d call copy hcall htarget hadmin
    obtain ⟨e, app₁, destination, he⟩ := emits_call hcall
    obtain ⟨env, rest, rfl, hqueue, hframe, -⟩ := he.head
    obtain ⟨serial, rfl⟩ := he.copy
    have hrole := he.after
    simp only [Client.role, Prod.mk.injEq] at hrole
    have hbroker : app₁.broker = false := by
      rw [hframe.rest]
      exact hrelay
    exact he.reason.permitted (hrole.1.symm.trans hadmin) serial (.inr ⟨hbroker, d, htarget⟩)
  · intro c call message n hreply hget hadmin htype entry hentry
    obtain ⟨hcall, herror | ⟨received, hmessage⟩⟩ := emits_reply hreply
    · rw [herror] at htype
      cases htype
    · have hpermissions := (hmarked.pending hi hcall).1.trans hget
      rw [hmessage] at htype hentry
      unfold relayedReply at htype hentry
      dsimp only at htype hentry
      split at hentry
      · exact denyPermissions_grants hentry
      · next hnot =>
          have hreturn : received.type = .methodReturn := by
            split at htype <;> exact htype
          exact absurd ⟨hreturn, hpermissions, hadmin⟩ hnot

theorem forwarded_reads_only_sample :
    ReadsOnly ([.receive (.peer 0) introspectCall].foldl Trace.next sampleClient)
      (.process { serial := 7 }) := by
  refine forwarded_reads_only (.broker false) ?_ _
  unfold sampleClient
  rw [← List.foldl_append]
  exact Guarded.run _ _

/-! ## The empty interface -/

def allPropertiesCall : Message :=
  { serial := 2, destination := some resolve, path := some "/org/freedesktop/resolve1"
    interfaceName := some properties, member := some "GetAll", body := some [.str ""] }

theorem interfaceOf_empty (service : Service) : ¬ InterfaceOf service "" := by
  rw [← serviceInterface_iff]
  cases service <;> decide

/-- `GetAll` may leave the interface empty, and then it asks for the properties of
all of them. -/
theorem all_properties_forwarded : ¬ ∀ t₀ t, Initial t₀ → Reachable Trace.next t₀ t →
    ∀ s c d call copy, .call c call copy ∈ emits t.app s → call.target = .host d →
      (t.app.client c).admin = false → copy.interfaceName = some properties →
      ∃ service target rest, copy.body = some (.str target :: rest) ∧
        InterfaceOf service target := by
  intro h
  have hrun : Reachable Trace.next { app := { broker := true } }
      ([.receive (.peer 0) allPropertiesCall].foldl Trace.next sampleClient) := by
    unfold sampleClient
    rw [← List.foldl_append]
    exact Guarded.run _ _
  have hforwarded : ∃ call copy, emits ([.receive (.peer 0) allPropertiesCall].foldl
      Trace.next sampleClient).app (.process { serial := 7 }) = [.call 0 call copy] ∧
      call.target = .host 0 ∧ copy.interfaceName = some properties ∧
      copy.body = some [.str ""] := ⟨_, _, rfl, rfl, rfl, rfl⟩
  obtain ⟨call, copy, hemits, htarget, hinterface, hbody⟩ := hforwarded
  obtain ⟨service, target, rest, hsame, hof⟩ := h _ _ (.broker false) hrun
    (.process { serial := 7 }) 0 0 call copy (by rw [hemits]; exact .head _) htarget rfl
    hinterface
  rw [hbody] at hsame
  injection hsame with hsame
  injection hsame with htarget _
  injection htarget with htarget
  rw [← htarget] at hof
  exact interfaceOf_empty service hof

end Spaces.SystemBus
