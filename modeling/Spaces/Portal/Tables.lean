import Spaces.Portal.Replies

/-!
# What an event does to the tables

The handlers are read once, here. For each table a relation lists every way an
event can change it, with the guards the code checked on the way, and one
theorem says that the relation covers `handle`. The consistency, isolation and
owner-loss results are case analyses over these relations and never unfold a
handler again.

A table changes by at most one operation per event. What decides the operation
is often buried in a reply, so the host objects a reply or a response names are
read out first, by functions of the call and the message alone.
-/

namespace Spaces.Portal

open Spaces.Library

/-! ## The host objects a message names -/

/-- The host request that the reply to a forwarded call creates. -/
def ForwardCall.newRequest (call : ForwardCall) (reply : Option (List Variant)) :
    Option String :=
  match reply with
  | some [.objectPath hostPath] => if call.returnsRequest then some hostPath else none
  | _ => none

/-- The host session that the reply to a forwarded call creates: it is the
reply, or it is named in its results. -/
def ForwardCall.newSession (call : ForwardCall) (reply : Option (List Variant)) :
    Option String :=
  match reply with
  | none => none
  | some reply =>
      if call.returnsRequest then none
      else if call.returnsSession then
        match reply with
        | [.objectPath hostPath] => some hostPath
        | _ => none
      else
        match call.guestSessionPath, reply with
        | some _, results :: _ =>
            if results.isOfType "a\x7bsv\x7d" then
              ((sessionHandle results).map handleText).filter isObjectPath
            else none
        | _, _ => none

/-- The guest path of the request that the reply to a forwarded call ends. -/
def ForwardCall.finished (call : ForwardCall) (reply : Option (List Variant)) :
    Option String :=
  match reply with
  | some [_, .basic 'b' finished] =>
      if call.returnsRequest || call.returnsSession || finished = 0 then none
      else call.finishGuestRequest
  | _ => none

/-- The host session that a response creates for a request. -/
def Request.newSession (request : Request) (parameters : List Variant) :
    Option String :=
  match request.guestSessionPath, parameters with
  | some _, [.basic _ 0, results] =>
      ((sessionHandle results).map handleText).filter isObjectPath
  | _, _ => none

/-- The request that a completion of the router's own is about. -/
def Completion.Finds (p : Router) : Completion → Request → Prop
  | .chooser _ address, request => p.requests.Live address request
  | .localRequest _ _ guestPath, request => p.requests.find? guestPath = some request
  | _, _ => False

/-- `guest_name_changed` acts when a name loses its owner. -/
def Vanishes (oldOwner newOwner : String) : Prop := newOwner = "" ∧ oldOwner ≠ ""

/-! ## The relations -/

/-- The requests an event may insert: a local one of the caller, or one that the
host created for a forwarded call. -/
inductive NewRequest (p : Router) : Event → Request → Prop
  | opened {e request} (hsender : e.sender? = some request.owner)
      (hlocal : request.hostPath = none) : NewRequest p e request
  | created {serial values call hostPath guestPath}
      (hpending : p.pending.lookup serial = some (.forward call))
      (hnew : call.newRequest values = some hostPath)
      (hguest : call.guestRequestPath = some guestPath) :
      NewRequest p (.reply serial values)
        { forwardedRequest call hostPath with guestPath }

inductive RequestsStep (p : Router) : Event → Arena String Request → Prop
  | same {e} : RequestsStep p e p.requests
  | inserted {e request requests} (hnew : NewRequest p e request)
      (hins : p.requests.insert request = some requests) : RequestsStep p e requests
  | cancelled {sender path request} (hfind : p.requests.find? path = some request)
      (howner : request.owner = sender) :
      RequestsStep p (.lifecycleCall sender path requestInterface "Close")
        (p.requests.update path fun r => { r with cancelled := true })
  | finished {serial values call guestPath request}
      (hpending : p.pending.lookup serial = some (.forward call))
      (hend : call.finished values = some guestPath)
      (hfind : p.requests.find? guestPath = some request)
      (hhost : request.hostPath ≠ none) :
      RequestsStep p (.reply serial values) (p.requests.release guestPath)
  | ended {serial values done request}
      (hpending : p.pending.lookup serial = some done)
      (hfinds : done.Finds p request) :
      RequestsStep p (.reply serial values) (p.requests.eraseKey request.guestPath)
  | answered {hostPath parameters request}
      (hfind : p.requests.findAlias? hostPath = some request) :
      RequestsStep p (.hostPortalSignal hostPath requestInterface "Response" parameters)
        (p.requests.release request.guestPath)
  | lost {name oldOwner newOwner} (hgone : Vanishes oldOwner newOwner) :
      RequestsStep p (.guestNameChanged name oldOwner newOwner)
        (p.requests.releaseAll (ownedKeys p.requests Request.owner name))

/-- The sessions an event may insert: named by a reply, or in a response. -/
inductive NewSession (p : Router) : Event → Session → Prop
  | replied {serial values call hostPath guestPath}
      (hpending : p.pending.lookup serial = some (.forward call))
      (hnew : call.newSession values = some hostPath)
      (hguest : call.guestSessionPath = some guestPath) :
      NewSession p (.reply serial values) ⟨call.owner, guestPath, hostPath⟩
  | responded {path parameters request hostPath guestPath}
      (hfind : p.requests.findAlias? path = some request)
      (hlive : request.cancelled = false)
      (hnew : request.newSession parameters = some hostPath)
      (hguest : request.guestSessionPath = some guestPath) :
      NewSession p (.hostPortalSignal path requestInterface "Response" parameters)
        ⟨request.owner, guestPath, hostPath⟩

inductive SessionsStep (p : Router) : Event → Arena String Session → Prop
  | same {e} : SessionsStep p e p.sessions
  | inserted {e session sessions} (hnew : NewSession p e session)
      (hins : p.sessions.insert session = some sessions) : SessionsStep p e sessions
  | closed {hostPath parameters session}
      (hfind : p.sessions.findAlias? hostPath = some session) :
      SessionsStep p (.hostPortalSignal hostPath sessionInterface "Closed" parameters)
        (p.sessions.release session.guestPath)
  | lost {name oldOwner newOwner} (hgone : Vanishes oldOwner newOwner) :
      SessionsStep p (.guestNameChanged name oldOwner newOwner)
        (p.sessions.releaseAll (ownedKeys p.sessions Session.owner name))

/-- How the calls in flight change, with the request table the change goes
with: a chooser call keeps the address of the request just inserted. -/
inductive PendingStep (p : Router) : Event → Router → Prop
  | same {e p'} (hpending : p'.pending = p.pending) : PendingStep p e p'
  | asked {e p' done} (hcaller : e.caller p = some done.caller)
      (hkind : ∀ sender address, done ≠ .chooser sender address)
      (hpending : p'.pending = p.pending.insert p.serial done) : PendingStep p e p'
  | chosen {e p' sender request} (hcaller : e.caller p = some sender)
      (howner : request.owner = sender) (hlocal : request.hostPath = none)
      (hins : p.requests.insert request = some p'.requests)
      (hpending : p'.pending
        = p.pending.insert p.serial (.chooser sender p.requests.fresh)) :
      PendingStep p e p'
  | taken {serial values p'} (hpending : p'.pending = p.pending.erase serial) :
      PendingStep p (.reply serial values) p'

inductive InhibitorsStep (p : Router) :
    Event → (AList fun _ : Bool × Nat => Inhibitor) → Prop
  | same {e} : InhibitorsStep p e p.inhibitors
  | added {serial call cookie}
      (hpending : p.pending.lookup serial = some (.screen call))
      (hadd : call.add = true) :
      InhibitorsStep p (.reply serial (some [.basic 'u' (.ofNat cookie)]))
        (p.inhibitors.insert (inhibitorKey call.throttle cookie)
          ⟨call.owner, cookie, call.throttle⟩)
  | removed {serial values call key}
      (hpending : p.pending.lookup serial = some (.screen call))
      (hadd : call.add = false) (hkey : call.key = some key) :
      InhibitorsStep p (.reply serial (some values)) (p.inhibitors.erase key)
  | lost {name oldOwner newOwner} (hgone : Vanishes oldOwner newOwner) :
      InhibitorsStep p (.guestNameChanged name oldOwner newOwner)
        ((ownedInhibitors p name).foldl
          (fun t i => t.erase (inhibitorKey i.throttle i.cookie)) p.inhibitors)
  | cleared : InhibitorsStep p .screenSaverVanished ∅

/-! ## Calls from the guest

A guest call asks the host at most once. It leaves the tables alone, or it
exports a local request for its sender first. -/

inductive CallStep (p : Router) (sender : String) : Router → Prop
  | refused : CallStep p sender p
  | asked {call done} (hcaller : done.caller = sender)
      (hkind : ∀ sender address, done ≠ .chooser sender address) :
      CallStep p sender (p.callHost call done).1
  | requested (call) {kind request requests} (howner : request.owner = sender)
      (hlocal : request.hostPath = none)
      (hins : p.requests.insert request = some requests) :
      CallStep p sender ({ p with requests := requests }.callHost call
        (.localRequest sender kind request.guestPath)).1
  | chosen (request) {requests} (howner : request.owner = sender)
      (hlocal : request.hostPath = none)
      (hins : p.requests.insert request = some requests) :
      CallStep p sender { p with
        requests := requests
        pending := p.pending.insert p.serial (.chooser sender p.requests.fresh)
        serial := p.serial + 1 }

variable {cfg : Config} {p : Router}

theorem callStep_relay (g : GuestCall) (call : HostCall) :
    CallStep p g.sender (p.callHost call (.relay g.sender)).1 :=
  .asked rfl fun _ _ h => nomatch h

/-- The two descriptions are of one guest call. -/
def ForwardCall.SameCall (call call' : ForwardCall) : Prop :=
  call'.owner = call.owner ∧ call'.interfaceName = call.interfaceName ∧
    call'.methodName = call.methodName

theorem rewriteOptions_sameCall (cfg : Config) (tokens : Tokens) (call : ForwardCall)
    (options : Variant) : call.SameCall (rewriteOptions cfg call tokens options).1 := by
  simp only [rewriteOptions]
  split <;> split <;> exact ⟨rfl, rfl, rfl⟩

theorem prepareParameter_sameCall (cfg : Config) (p : Router) (tokens : Tokens)
    (call : ForwardCall) (argument : ArgInfo) (child : Variant) :
    call.SameCall (prepareParameter cfg p tokens call argument child).1 := by
  unfold prepareParameter
  extract_lets launcher
  split
  next prepared mapped heq =>
  have hprepared : call.SameCall prepared := by
    split at heq
    · split at heq <;> cases heq <;> exact ⟨rfl, rfl, rfl⟩
    · split at heq
      · split at heq <;> cases heq <;> exact ⟨rfl, rfl, rfl⟩
      · split at heq
        · have h := rewriteOptions_sameCall cfg tokens call child
          rwa [heq] at h
        · cases heq; exact ⟨rfl, rfl, rfl⟩
  obtain ⟨howner, hinterface, hmethod⟩ := hprepared
  split
  · split <;> exact ⟨howner, hinterface, hmethod⟩
  · exact ⟨howner, hinterface, hmethod⟩

theorem prepareParameters_owner (cfg : Config) (p : Router) (tokens : Tokens) :
    ∀ (arguments : List (ArgInfo × Variant)) (call : ForwardCall),
      (prepareParameters cfg p tokens call arguments).1.owner = call.owner := by
  intro arguments
  induction arguments with
  | nil => exact fun _ => rfl
  | cons head rest ih =>
      intro call
      rw [prepareParameters]
      exact (ih _).trans (prepareParameter_sameCall cfg p tokens call head.1 head.2).1

theorem startLocalRequest_callStep (g : GuestCall) (options : Variant)
    (flatpakAppId : Option String) (kind : LocalKind) (ask : HostCall) :
    CallStep p g.sender (startLocalRequest p g options flatpakAppId kind ask).1 := by
  simp only [startLocalRequest]
  split
  · exact .refused
  · next requests hins => exact .requested ask rfl rfl hins

theorem fileChooserCall_callStep (g : GuestCall) :
    CallStep p g.sender (fileChooserCall cfg p g).1 := by
  unfold fileChooserCall
  split
  · exact .refused
  · split
    · exact .refused
    · extract_lets token request
      split
      · exact .refused
      · next requests hins => exact .chosen request rfl rfl hins
  · exact .refused

theorem screenshotCall_callStep (g : GuestCall) :
    CallStep p g.sender (screenshotCall cfg p g).1 := by
  unfold screenshotCall
  split
  · exact .refused
  · exact startLocalRequest_callStep g _ _ _ _
  · exact .refused

theorem openFileCall_callStep (g : GuestCall) :
    CallStep p g.sender (openFileCall cfg p g).1 := by
  unfold openFileCall
  split
  · exact .refused
  · split
    · exact .refused
    · split
      · exact .refused
      · extract_lets activation writable
        split
        · exact startLocalRequest_callStep g _ _ _ _
        · exact .refused
  · exact .refused

theorem transformedRequestCall_callStep (g : GuestCall) :
    CallStep p g.sender (transformedRequestCall cfg p g).1 := by
  unfold transformedRequestCall
  split
  · exact .refused
  · split
    · exact .refused
    · exact startLocalRequest_callStep g _ _ _ _

theorem gameModeCall_callStep (g : GuestCall) :
    CallStep p g.sender (gameModeCall cfg p g).1 := by
  unfold gameModeCall
  split
  · exact .refused
  · extract_lets hostMethod
    split
    · exact callStep_relay g _
    · exact .refused

theorem realtimeCall_callStep (g : GuestCall) :
    CallStep p g.sender (realtimeCall cfg p g).1 := by
  unfold realtimeCall
  split
  · exact .refused
  · extract_lets limit high
    split
    · exact .refused
    · split
      · exact .refused
      · split
        · exact .refused
        · exact callStep_relay g _
  · exact .refused

theorem forwardPortalCall_callStep (g : GuestCall) (method : MethodInfo) :
    CallStep p g.sender (forwardPortalCall cfg p method g).1 := by
  unfold forwardPortalCall
  extract_lets call
  have howner := prepareParameters_owner cfg p g.tokens
    (method.inArgs.zip g.parameters) call
  exact .asked howner fun _ _ h => nomatch h

theorem portalMethodCall_callStep (g : GuestCall) :
    CallStep p g.sender (portalMethodCall cfg p g).1 := by
  unfold portalMethodCall
  split
  · exact .refused
  · next method _ =>
      split
      · exact fileChooserCall_callStep g
      · exact screenshotCall_callStep g
      · exact openFileCall_callStep g
      · exact transformedRequestCall_callStep g
      · show CallStep p g.sender (dynamicCall cfg p g).1
        unfold dynamicCall
        split
        · exact .refused
        · exact callStep_relay g _
      · exact gameModeCall_callStep g
      · exact realtimeCall_callStep g
      · exact forwardPortalCall_callStep g method

theorem screenSaverCall_callStep (g : GuestCall) :
    CallStep p g.sender (screenSaverCall cfg p g).1 := by
  unfold screenSaverCall
  split
  · exact .refused
  · extract_lets ask
    split
    · split
      · exact .asked rfl fun _ _ h => nomatch h
      · exact .refused
    · split
      · split
        · extract_lets key
          split
          · exact .refused
          · split
            · exact .refused
            · exact .asked rfl fun _ _ h => nomatch h
        · exact .refused
      · split
        · exact .refused
        · exact callStep_relay g _

theorem simpleBridgeCall_callStep (objectPath : String) (g : GuestCall) :
    CallStep p g.sender (simpleBridgeCall cfg p objectPath g).1 := by
  unfold simpleBridgeCall
  extract_lets relayTo
  have hrelay : ∀ hostPath parameters,
      CallStep p g.sender (relayTo hostPath parameters).1 := by
    intro hostPath parameters
    simp only [relayTo]
    split
    · exact .refused
    · exact callStep_relay g _
  split
  · exact screenSaverCall_callStep g
  · split
    · exact hrelay _ _
    · split
      · split
        · exact hrelay _ _
        · exact .refused
      · exact hrelay _ _

/-! ## Answers -/

/-- What `finishRequest` does: nothing, release the request it finds, or die on
the missing host path of a local one. -/
theorem finishRequest_cases (finish : Option String) (reply : List Variant) :
    finishRequest p finish reply = p ∨
    ∃ guestPath first finished request, finish = some guestPath ∧
      reply = [first, .basic 'b' finished] ∧ finished ≠ 0 ∧
      p.requests.find? guestPath = some request ∧
      (request.hostPath = none ∧
          finishRequest p finish reply = { p with crashed := true } ∨
        request.hostPath ≠ none ∧ finishRequest p finish reply
          = { p with requests := p.requests.release guestPath }) := by
  unfold finishRequest
  split
  · next guestPath first finished =>
      split
      · exact .inl rfl
      · next hfinished =>
          split
          · exact .inl rfl
          · next request hfind =>
              refine .inr ⟨guestPath, first, finished, request, rfl, rfl, hfinished,
                hfind, ?_⟩
              split
              · next hnone => exact .inl ⟨hnone, rfl⟩
              · next hsome => exact .inr ⟨by simp [hsome], rfl⟩
  · exact .inl rfl

/-- The router after the session that a reply names was registered, if it was. -/
def Registered (p : Router) (call : ForwardCall) (reply : Option (List Variant))
    (q : Router) : Prop :=
  q = p ∨ ∃ hostPath guestPath sessions, call.newSession reply = some hostPath ∧
    call.guestSessionPath = some guestPath ∧
    p.sessions.insert ⟨call.owner, guestPath, hostPath⟩ = some sessions ∧
    q = { p with sessions }

theorem registerSession_eq_some {owner hostPath : String} {guestPath : Option String}
    {q : Router} (h : registerSession p owner guestPath hostPath = some q) :
    ∃ guest sessions, guestPath = some guest ∧
      p.sessions.insert ⟨owner, guest, hostPath⟩ = some sessions ∧
      q = { p with sessions } := by
  unfold registerSession at h
  split at h
  · cases h
  · next guest =>
      obtain ⟨sessions, hins, rfl⟩ := Option.map_eq_some_iff.mp h
      exact ⟨guest, sessions, rfl, hins, rfl⟩

/-- The end of `forward_done`: the reply goes back, and may finish a request. -/
theorem finishRequest_forward {q : Router} {call : ForwardCall}
    {reply sent : List Variant}
    (hsent : sent = reply ∨ ∃ x y others, reply = x :: others ∧ sent = y :: others)
    (hrequest : call.returnsRequest = false) (hsession : call.returnsSession = false) :
    finishRequest q call.finishGuestRequest sent = q ∨
    ∃ guestPath request, call.finished (some reply) = some guestPath ∧
      q.requests.find? guestPath = some request ∧
      (request.hostPath = none ∧
          finishRequest q call.finishGuestRequest sent = { q with crashed := true } ∨
        request.hostPath ≠ none ∧ finishRequest q call.finishGuestRequest sent
          = { q with requests := q.requests.release guestPath }) := by
  refine (finishRequest_cases call.finishGuestRequest sent).imp_right ?_
  rintro ⟨guestPath, first, finished, request, hcall, rfl, hfinished, hfind, hdone⟩
  refine ⟨guestPath, request, ?_, hfind, hdone⟩
  have hreply : ∃ x, reply = [x, .basic 'b' finished] := by
    rcases hsent with rfl | ⟨x, y, others, rfl, hcons⟩
    · exact ⟨first, rfl⟩
    · cases hcons
      exact ⟨x, rfl⟩
  obtain ⟨x, rfl⟩ := hreply
  simp [ForwardCall.finished, hrequest, hsession, hfinished, hcall]

theorem forwardDone_cases (call : ForwardCall) (reply : Option (List Variant)) :
    (∃ hostPath guestPath requests, call.newRequest reply = some hostPath ∧
      call.guestRequestPath = some guestPath ∧
      p.requests.insert { forwardedRequest call hostPath with guestPath }
        = some requests ∧
      (forwardDone p call reply).1 = { p with requests }) ∨
    ∃ q, Registered p call reply q ∧ ((forwardDone p call reply).1 = q ∨
      ∃ guestPath request, call.finished reply = some guestPath ∧
        q.requests.find? guestPath = some request ∧
        (request.hostPath = none ∧
            (forwardDone p call reply).1 = { q with crashed := true } ∨
          request.hostPath ≠ none ∧ (forwardDone p call reply).1
            = { q with requests := q.requests.release guestPath })) := by
  have hsame : Registered p call reply p := .inl rfl
  unfold forwardDone
  split
  · exact .inr ⟨p, hsame, .inl rfl⟩
  · next reply =>
      split
      · next hreturns =>
          split
          · next hostPath =>
              split
              · exact .inr ⟨p, hsame, .inl rfl⟩
              · next q hq =>
                  unfold registerRequest at hq
                  split at hq
                  · cases hq
                  · next guestPath hguest =>
                      obtain ⟨requests, hins, rfl⟩ := Option.map_eq_some_iff.mp hq
                      exact .inl ⟨hostPath, guestPath, requests,
                        by simp [ForwardCall.newRequest, hreturns], hguest, hins, rfl⟩
          · exact .inr ⟨p, hsame, .inl rfl⟩
      · next hrequest =>
          simp only [Bool.not_eq_true] at hrequest
          split
          · next hsession =>
              split
              · next hostPath =>
                  split
                  · exact .inr ⟨p, hsame, .inl rfl⟩
                  · next q hq =>
                      obtain ⟨guest, sessions, hguest, hins, rfl⟩ :=
                        registerSession_eq_some hq
                      refine .inr ⟨_, .inr ⟨hostPath, guest, sessions, ?_, hguest, hins,
                        rfl⟩, .inl rfl⟩
                      simp [ForwardCall.newSession, hrequest, hsession]
              · exact .inr ⟨p, hsame, .inl rfl⟩
          · next hsession =>
              simp only [Bool.not_eq_true] at hsession
              refine .inr ?_
              split
              · next guestPath results others hguest =>
                  split
                  · next handle hhandle =>
                      split
                      · exact ⟨p, hsame, .inl rfl⟩
                      · next hpath =>
                          split
                          · exact ⟨p, hsame, .inl rfl⟩
                          · next q hq =>
                              obtain ⟨guest, sessions, heq, hins, rfl⟩ :=
                                registerSession_eq_some hq
                              cases heq
                              refine ⟨_, .inr ⟨handleText handle, guestPath, sessions, ?_,
                                hguest, hins, rfl⟩, finishRequest_forward
                                (.inr ⟨results, _, others, rfl, rfl⟩) hrequest hsession⟩
                              split at hhandle
                              · next htype =>
                                  simp only [Bool.not_eq_true, Bool.not_eq_false'] at hpath
                                  simp [ForwardCall.newSession, hrequest, hsession,
                                    hguest, htype, hhandle, hpath]
                              · cases hhandle
                  · exact ⟨p, hsame, finishRequest_forward (.inl rfl) hrequest hsession⟩
              · exact ⟨p, hsame, finishRequest_forward (.inl rfl) hrequest hsession⟩

theorem screenCallDone_step (call : ScreenCall) (reply : Option (List Variant)) :
    ∃ inhibitors, (screenCallDone p call reply).1 = { p with inhibitors } ∧
      (inhibitors = p.inhibitors ∨
        (∃ cookie, call.add = true ∧ reply = some [.basic 'u' (.ofNat cookie)] ∧
          inhibitors = p.inhibitors.insert (inhibitorKey call.throttle cookie)
            ⟨call.owner, cookie, call.throttle⟩) ∨
        ∃ values key, call.add = false ∧ call.key = some key ∧ reply = some values ∧
          inhibitors = p.inhibitors.erase key) := by
  unfold screenCallDone
  split
  · exact ⟨_, rfl, .inl rfl⟩
  · next values =>
      extract_lets done
      split
      · next hadd =>
          split
          · next cookie => exact ⟨_, rfl, .inr (.inl ⟨cookie, hadd, rfl, rfl⟩)⟩
          · exact ⟨_, rfl, .inl rfl⟩
      · next hadd =>
          simp only [Bool.not_eq_true] at hadd
          split
          · next key hkey =>
              exact ⟨_, rfl, .inr (.inr ⟨values, key, hadd, hkey, rfl, rfl⟩)⟩
          · exact ⟨_, rfl, .inl rfl⟩

/-- What answering one of the router's own requests does: nothing, die on a
freed request, or drop the request it finds. -/
theorem ownDone_cases {done : Completion} {q : Router} {reply : Option (List Variant)}
    (h : (∃ sender address, done = .chooser sender address ∧
        q = (chooserDone p address reply).1) ∨
      ∃ sender kind guestPath, done = .localRequest sender kind guestPath ∧
        q = (localRequestDone p kind guestPath reply).1) :
    q = p ∨
    (∃ sender address, done = .chooser sender address ∧
      p.requests.heap.lookup address = none ∧ q = { p with crashed := true }) ∨
    ∃ request, done.Finds p request ∧
      q = { p with requests := p.requests.eraseKey request.guestPath } := by
  rcases h with ⟨sender, address, rfl, rfl⟩ | ⟨sender, kind, guestPath, rfl, rfl⟩
  · unfold chooserDone
    split
    · next hfreed => exact .inr (.inl ⟨sender, address, rfl, hfreed, rfl⟩)
    · next request hlive =>
        refine .inr (.inr ⟨request, hlive, ?_⟩)
        split <;> rfl
  · unfold localRequestDone
    split
    · exact .inl rfl
    · next request hfind => exact .inr (.inr ⟨request, hfind, rfl⟩)

/-! ## Signals of the host -/

theorem mapResponse_step (request : Request) (response results : Variant) :
    ∃ sessions, (mapResponse p request response results).1 = { p with sessions } ∧
      (sessions = p.sessions ∨ ∃ hostPath guestPath,
        request.newSession [response, results] = some hostPath ∧
        request.guestSessionPath = some guestPath ∧
        p.sessions.insert ⟨request.owner, guestPath, hostPath⟩ = some sessions) := by
  unfold mapResponse
  split
  next q results' heq =>
  split at heq
  · next guestPath handle code hguest hhandle =>
      split at heq
      · next hpath =>
          split at heq
          · next q' hq =>
              cases heq
              obtain ⟨guest, sessions, hsome, hins, rfl⟩ := registerSession_eq_some hq
              refine ⟨sessions, rfl, .inr ⟨handleText handle, guest, ?_,
                hguest.trans hsome, hins⟩⟩
              simp [Request.newSession, hguest, hhandle, hpath]
          · cases heq; exact ⟨_, rfl, .inl rfl⟩
      · cases heq; exact ⟨_, rfl, .inl rfl⟩
  · cases heq; exact ⟨_, rfl, .inl rfl⟩

/-- A signal on a request's host path. Only a response changes anything: it may
export a session, and it ends the request unless that is persistent. -/
theorem hostRequestSignal_step {request : Request} {interfaceName signalName : String}
    {parameters : List Variant} {q : Router} {sent : List Output}
    (hq : hostRequestSignal p request interfaceName signalName parameters = (q, sent)) :
    q = p ∨ interfaceName = requestInterface ∧ signalName = "Response" ∧
      ∃ requests sessions, q = { p with requests, sessions } ∧
        (requests = p.requests ∨ requests = p.requests.release request.guestPath) ∧
        (sessions = p.sessions ∨ request.cancelled = false ∧ ∃ hostPath guestPath,
          request.newSession parameters = some hostPath ∧
          request.guestSessionPath = some guestPath ∧
          p.sessions.insert ⟨request.owner, guestPath, hostPath⟩ = some sessions) := by
  unfold hostRequestSignal at hq
  extract_lets isResponse at hq
  cases hresponse : isResponse with
  | false =>
      rw [hresponse, Bool.and_false, Bool.and_false] at hq
      cases hq
      exact .inl rfl
  | true =>
      rw [hresponse] at hq
      simp only [isResponse, Bool.and_eq_true, beq_iff_eq] at hresponse
      refine .inr ⟨hresponse.1, hresponse.2, ?_⟩
      cases hcancelled : request.cancelled with
      | true =>
          rw [hcancelled] at hq
          cases hq
          exact ⟨_, _, rfl, .inr rfl, .inl rfl⟩
      | false =>
          rw [hcancelled, Bool.false_and, if_neg Bool.false_ne_true] at hq
          split at hq
          next q' mapped heq =>
          have hmap : ∃ sessions, q' = { p with sessions } ∧ (sessions = p.sessions ∨
              ∃ hostPath guestPath, request.newSession parameters = some hostPath ∧
              request.guestSessionPath = some guestPath ∧
              p.sessions.insert ⟨request.owner, guestPath, hostPath⟩ = some sessions) := by
            split at heq
            · next response results _ =>
                have hstep := mapResponse_step (p := p) request response results
                rw [heq] at hstep
                exact hstep
            · cases heq
              exact ⟨_, rfl, .inl rfl⟩
          obtain ⟨sessions, rfl, hsessions⟩ := hmap
          have hsessions := hsessions.imp_right fun h => And.intro (Eq.refl false) h
          split at hq <;> cases hq
          · exact ⟨_, sessions, rfl, .inr rfl, hsessions⟩
          · exact ⟨_, sessions, rfl, .inl rfl, hsessions⟩

theorem hostPortalSignal_requests (objectPath interfaceName signalName : String)
    (parameters : List Variant) :
    RequestsStep p (.hostPortalSignal objectPath interfaceName signalName parameters)
      (hostPortalSignal p objectPath interfaceName signalName parameters).1.requests := by
  unfold hostPortalSignal
  extract_lets translated
  split
  · next request hfind =>
      split
      next q sent heq =>
      have hstep := hostRequestSignal_step heq
      have hrequests : RequestsStep p
          (.hostPortalSignal objectPath interfaceName signalName parameters)
          q.requests := by
        rcases hstep with rfl | ⟨rfl, rfl, requests, sessions, rfl, rfl | rfl, -⟩
        · exact .same
        · exact .same
        · exact .answered hfind
      split
      · split <;> exact hrequests
      · exact hrequests
  · split <;> exact .same
  · split <;> exact .same

theorem hostPortalSignal_sessions (objectPath interfaceName signalName : String)
    (parameters : List Variant) :
    SessionsStep p (.hostPortalSignal objectPath interfaceName signalName parameters)
      (hostPortalSignal p objectPath interfaceName signalName parameters).1.sessions := by
  unfold hostPortalSignal
  extract_lets translated
  split
  · next request hfind =>
      split
      next q sent heq =>
      have hstep := hostRequestSignal_step heq
      rcases hstep with rfl | ⟨rfl, rfl, requests, sessions, rfl, -, hsessions⟩
      · split
        · next session hsession =>
            split
            · next hclosed =>
                simp only [Bool.and_eq_true, beq_iff_eq] at hclosed
                obtain ⟨rfl, rfl⟩ := hclosed
                exact .closed hsession
            · exact .same
        · exact .same
      · have hother : (requestInterface == sessionInterface) = false := by decide
        have hkept : SessionsStep p (.hostPortalSignal objectPath requestInterface
            "Response" parameters) sessions := by
          rcases hsessions with rfl | ⟨hlive, hostPath, guestPath, hnew, hguest, hins⟩
          · exact .same
          · exact .inserted (.responded hfind hlive hnew hguest) hins
        split
        · rw [hother]; exact hkept
        · exact hkept
  · next session hfind =>
      split
      · next hclosed =>
          simp only [Bool.and_eq_true, beq_iff_eq] at hclosed
          obtain ⟨rfl, rfl⟩ := hclosed
          exact .closed hfind
      · exact .same
  · split <;> exact .same

/-- Nothing but the request and session tables differs. -/
def Router.SameRest (p q : Router) : Prop :=
  q.pending = p.pending ∧ q.inhibitors = p.inhibitors ∧ q.crashed = p.crashed

/-- A signal of the host touches the request and session tables only. -/
theorem hostPortalSignal_sameRest (objectPath interfaceName signalName : String)
    (parameters : List Variant) : p.SameRest
      (hostPortalSignal p objectPath interfaceName signalName parameters).1 := by
  have hsame : p.SameRest p := ⟨rfl, rfl, rfl⟩
  unfold hostPortalSignal
  extract_lets translated
  split
  · split
    next q sent heq =>
    have hq : p.SameRest q := by
      rcases hostRequestSignal_step heq with rfl | ⟨-, -, _, _, rfl, -⟩
      · exact hsame
      · exact hsame
    split
    · split <;> exact hq
    · exact hq
  · split <;> exact hsame
  · split <;> exact hsame

/-! ## One event -/

theorem CallStep.requests {e : Event} {sender : String} {q : Router}
    (h : CallStep p sender q) (hsender : e.sender? = some sender) :
    RequestsStep p e q.requests := by
  cases h with
  | refused => exact .same
  | asked _ _ => exact .same
  | requested _ howner hlocal hins =>
      exact .inserted (.opened (howner ▸ hsender) hlocal) hins
  | chosen _ howner hlocal hins =>
      exact .inserted (.opened (howner ▸ hsender) hlocal) hins

theorem CallStep.sessions {sender : String} {q : Router}
    (h : CallStep p sender q) : q.sessions = p.sessions := by
  cases h <;> rfl

theorem CallStep.inhibitors {sender : String} {q : Router}
    (h : CallStep p sender q) : q.inhibitors = p.inhibitors := by
  cases h <;> rfl

theorem CallStep.crashed {sender : String} {q : Router}
    (h : CallStep p sender q) : q.crashed = p.crashed := by
  cases h <;> rfl

theorem CallStep.pending {e : Event} {sender : String} {q : Router}
    (h : CallStep p sender q) (hcaller : e.caller p = some sender) :
    PendingStep p e q := by
  cases h with
  | refused => exact .same rfl
  | asked hdone hkind => exact .asked (hdone ▸ hcaller) hkind rfl
  | @requested _ kind request _ _ _ _ =>
      have hdone : e.caller p
          = some (Completion.localRequest sender kind request.guestPath).caller := hcaller
      exact .asked hdone (fun _ _ h => nomatch h) rfl
  | chosen _ howner hlocal hins => exact .chosen hcaller howner hlocal hins rfl

theorem lifecycleCall_requests (sender objectPath interfaceName methodName : String) :
    RequestsStep p (.lifecycleCall sender objectPath interfaceName methodName)
      (lifecycleCall p sender objectPath interfaceName methodName).1.requests := by
  unfold lifecycleCall
  extract_lets denied
  split
  · exact .same
  · next hmethod =>
      split
      · next hinterface =>
          split
          · exact .same
          · next request hfind =>
              split
              · exact .same
              · next howner =>
                  simp only [bne_iff_ne, ne_eq, not_not, beq_iff_eq]
                    at hmethod hinterface howner
                  obtain rfl := hmethod
                  obtain rfl := hinterface
                  split <;> exact .cancelled hfind howner
      · split
        · exact .same
        · split <;> exact .same

theorem lifecycleCall_other (sender objectPath interfaceName methodName : String) :
    (lifecycleCall p sender objectPath interfaceName methodName).1 = { p with
      requests :=
        (lifecycleCall p sender objectPath interfaceName methodName).1.requests } := by
  unfold lifecycleCall
  extract_lets denied
  split
  · rfl
  · split
    · split
      · rfl
      · split
        · rfl
        · split <;> rfl
    · split
      · rfl
      · split <;> rfl

/-- The completion of a call in flight, by its kind. -/
theorem complete_cases (serial : Nat) (reply : Option (List Variant)) :
    (p.pending.lookup serial = none ∧ (complete p serial reply).1 = p) ∨
    ∃ done, p.pending.lookup serial = some done ∧
      let q := { p with pending := p.pending.erase serial }
      ((∃ call, done = .forward call ∧
          (complete p serial reply).1 = (forwardDone q call reply).1) ∨
        ((∃ sender address, done = .chooser sender address ∧
            (complete p serial reply).1 = (chooserDone q address reply).1) ∨
          ∃ sender kind guestPath, done = .localRequest sender kind guestPath ∧
            (complete p serial reply).1 = (localRequestDone q kind guestPath reply).1) ∨
        (∃ call, done = .screen call ∧
          (complete p serial reply).1 = (screenCallDone q call reply).1) ∨
        ∃ caller, done = .relay caller ∧ (complete p serial reply).1 = q) := by
  unfold complete
  split
  · next hnone => exact .inl ⟨hnone, rfl⟩
  · next done hpending =>
      refine .inr ⟨done, hpending, ?_⟩
      cases done with
      | forward call => exact .inl ⟨call, rfl, rfl⟩
      | chooser sender address => exact .inr (.inl (.inl ⟨sender, address, rfl, rfl⟩))
      | localRequest sender kind guestPath =>
          exact .inr (.inl (.inr ⟨sender, kind, guestPath, rfl, rfl⟩))
      | screen call => exact .inr (.inr (.inl ⟨call, rfl, rfl⟩))
      | relay caller =>
          refine .inr (.inr (.inr ⟨caller, rfl, ?_⟩))
          simp only [relayDone]
          split <;> rfl

theorem complete_requests (serial : Nat) (reply : Option (List Variant)) :
    RequestsStep p (.reply serial reply) (complete p serial reply).1.requests := by
  rcases complete_cases (p := p) serial reply with ⟨-, h⟩ | ⟨done, hpending, h⟩
  · rw [h]; exact .same
  · rcases h with ⟨call, rfl, h⟩ | hown | ⟨call, rfl, h⟩ | ⟨caller, rfl, h⟩
    · rw [h]
      rcases forwardDone_cases call reply with
        ⟨hostPath, guestPath, requests, hnew, hguest, hins, heq⟩ | ⟨q, hreg, hdone⟩
      · rw [heq]; exact .inserted (.created hpending hnew hguest) hins
      · have hq : q.requests = p.requests := by
          rcases hreg with rfl | ⟨_, _, _, -, -, -, rfl⟩ <;> rfl
        rcases hdone with heq | ⟨guestPath, request, hend, hfind, hdone⟩
        · rw [heq, hq]; exact .same
        · rw [hq] at hfind
          rcases hdone with ⟨-, heq⟩ | ⟨hhost, heq⟩ <;> rw [heq]
          · show RequestsStep p _ q.requests
            rw [hq]; exact .same
          · show RequestsStep p _ (q.requests.release guestPath)
            rw [hq]; exact .finished hpending hend hfind hhost
    · rcases ownDone_cases hown with heq | ⟨_, _, -, -, heq⟩ | ⟨request, hfinds, heq⟩ <;> rw [heq]
      · exact .same
      · exact .same
      · have hfinds : done.Finds p request := by cases done <;> exact hfinds
        exact .ended hpending hfinds
    · rw [h]
      obtain ⟨_, heq, -⟩ := screenCallDone_step
        (p := { p with pending := p.pending.erase serial }) call reply
      rw [heq]; exact .same
    · rw [h]; exact .same

theorem complete_sessions (serial : Nat) (reply : Option (List Variant)) :
    SessionsStep p (.reply serial reply) (complete p serial reply).1.sessions := by
  rcases complete_cases (p := p) serial reply with ⟨-, h⟩ | ⟨done, hpending, h⟩
  · rw [h]; exact .same
  · rcases h with ⟨call, rfl, h⟩ | hown | ⟨call, rfl, h⟩ | ⟨caller, rfl, h⟩
    · rw [h]
      rcases forwardDone_cases call reply with
        ⟨_, _, requests, -, -, -, heq⟩ | ⟨q, hreg, hdone⟩
      · rw [heq]; exact .same
      · have hq : SessionsStep p (.reply serial reply) q.sessions := by
          rcases hreg with rfl | ⟨_, _, _, hnew, hguest, hins, rfl⟩
          · exact .same
          · exact .inserted (.replied hpending hnew hguest) hins
        rcases hdone with heq | ⟨_, _, -, -, ⟨-, heq⟩ | ⟨-, heq⟩⟩ <;> rw [heq] <;> exact hq
    · rcases ownDone_cases hown with heq | ⟨_, _, -, -, heq⟩ | ⟨_, -, heq⟩ <;> rw [heq] <;>
        exact .same
    · rw [h]
      obtain ⟨_, heq, -⟩ := screenCallDone_step
        (p := { p with pending := p.pending.erase serial }) call reply
      rw [heq]; exact .same
    · rw [h]; exact .same

theorem complete_inhibitors (serial : Nat) (reply : Option (List Variant)) :
    InhibitorsStep p (.reply serial reply) (complete p serial reply).1.inhibitors := by
  rcases complete_cases (p := p) serial reply with ⟨-, h⟩ | ⟨done, hpending, h⟩
  · rw [h]; exact .same
  · rcases h with ⟨call, rfl, h⟩ | hown | ⟨call, rfl, h⟩ | ⟨caller, rfl, h⟩
    · rw [h]
      rcases forwardDone_cases call reply with
        ⟨_, _, requests, -, -, -, heq⟩ | ⟨q, hreg, hdone⟩
      · rw [heq]; exact .same
      · have hq : q.inhibitors = p.inhibitors := by
          rcases hreg with rfl | ⟨_, _, _, -, -, -, rfl⟩ <;> rfl
        rcases hdone with heq | ⟨_, _, -, -, ⟨-, heq⟩ | ⟨-, heq⟩⟩ <;> rw [heq] <;>
          exact hq ▸ .same
    · rcases ownDone_cases hown with heq | ⟨_, _, -, -, heq⟩ | ⟨_, -, heq⟩ <;> rw [heq] <;>
        exact .same
    · rw [h]
      obtain ⟨inhibitors, heq, hchange⟩ := screenCallDone_step
        (p := { p with pending := p.pending.erase serial }) call reply
      rw [heq]
      rcases hchange with rfl | ⟨cookie, hadd, rfl, rfl⟩ |
        ⟨values, key, hadd, hkey, rfl, rfl⟩
      · exact .same
      · exact .added hpending hadd
      · exact .removed hpending hadd hkey
    · rw [h]; exact .same

/-- An answer takes its call out of the calls in flight. -/
theorem complete_pending (serial : Nat) (reply : Option (List Variant)) :
    (complete p serial reply).1.pending = p.pending.erase serial := by
  rcases complete_cases (p := p) serial reply with ⟨hnone, h⟩ | ⟨done, hpending, h⟩
  · rw [h]
    exact (AList.ext (List.kerase_of_notMem_keys (AList.lookup_eq_none.mp hnone))).symm
  · rcases h with ⟨call, rfl, h⟩ | hown | ⟨call, rfl, h⟩ | ⟨caller, rfl, h⟩
    · rw [h]
      rcases forwardDone_cases call reply with
        ⟨_, _, requests, -, -, -, heq⟩ | ⟨q, hreg, hdone⟩
      · rw [heq]
      · have hq : q.pending = p.pending.erase serial := by
          rcases hreg with rfl | ⟨_, _, _, -, -, -, rfl⟩ <;> rfl
        rcases hdone with heq | ⟨_, _, -, -, ⟨-, heq⟩ | ⟨-, heq⟩⟩ <;> rw [heq] <;> exact hq
    · rcases ownDone_cases hown with heq | ⟨_, _, -, -, heq⟩ | ⟨_, -, heq⟩ <;> rw [heq]
    · rw [h]
      obtain ⟨_, heq, -⟩ := screenCallDone_step
        (p := { p with pending := p.pending.erase serial }) call reply
      rw [heq]
    · rw [h]

/-- What kills the process: following the address of a freed request, and
finishing a request that has no host path. -/
def Deadly (p : Router) (serial : Nat) (values : Option (List Variant)) : Prop :=
  (∃ sender address, p.pending.lookup serial = some (.chooser sender address) ∧
    p.requests.heap.lookup address = none) ∨
  ∃ call guestPath request, p.pending.lookup serial = some (.forward call) ∧
    call.finished values = some guestPath ∧
    p.requests.find? guestPath = some request ∧ request.hostPath = none

theorem complete_crashed (serial : Nat) (reply : Option (List Variant)) :
    (complete p serial reply).1.crashed = p.crashed ∨ Deadly p serial reply := by
  rcases complete_cases (p := p) serial reply with ⟨-, h⟩ | ⟨done, hpending, h⟩
  · rw [h]; exact .inl rfl
  · rcases h with ⟨call, rfl, h⟩ | hown | ⟨call, rfl, h⟩ | ⟨caller, rfl, h⟩
    · rw [h]
      rcases forwardDone_cases call reply with
        ⟨_, _, requests, -, -, -, heq⟩ | ⟨q, hreg, hdone⟩
      · rw [heq]; exact .inl rfl
      · have hq : q.crashed = p.crashed ∧ q.requests = p.requests := by
          rcases hreg with rfl | ⟨_, _, _, -, -, -, rfl⟩ <;> exact ⟨rfl, rfl⟩
        rcases hdone with heq | ⟨guestPath, request, hend, hfind, hdone⟩
        · rw [heq]; exact .inl hq.1
        · rw [hq.2] at hfind
          rcases hdone with ⟨hlocal, -⟩ | ⟨-, heq⟩
          · exact .inr (.inr ⟨call, guestPath, request, hpending, hend, hfind, hlocal⟩)
          · rw [heq]; exact .inl hq.1
    · rcases ownDone_cases hown with heq | ⟨sender, address, rfl, hfreed, -⟩ | ⟨_, -, heq⟩
      · rw [heq]; exact .inl rfl
      · exact .inr (.inl ⟨sender, address, hpending, hfreed⟩)
      · rw [heq]; exact .inl rfl
    · rw [h]
      obtain ⟨_, heq, -⟩ := screenCallDone_step
        (p := { p with pending := p.pending.erase serial }) call reply
      rw [heq]; exact .inl rfl
    · rw [h]; exact .inl rfl

variable (cfg p) (e : Event)

/-- The request table changes only in the listed ways. -/
theorem handle_requests : RequestsStep p e (handle cfg p e).1.requests := by
  cases e with
  | portalMethodCall g => exact (portalMethodCall_callStep g).requests rfl
  | simpleBridgeCall path g => exact (simpleBridgeCall_callStep path g).requests rfl
  | lifecycleCall sender path interface method =>
      exact lifecycleCall_requests sender path interface method
  | reply serial values => exact complete_requests serial values
  | hostPortalSignal path interface signal parameters =>
      exact hostPortalSignal_requests path interface signal parameters
  | guestNameChanged name oldOwner newOwner =>
      simp only [handle, guestNameChanged]
      split
      · exact .same
      · next hgone => exact .lost (by simpa [Vanishes] using hgone)
  | screenSaverAppeared hostPath => exact .same
  | screenSaverVanished => exact .same

theorem handle_sessions : SessionsStep p e (handle cfg p e).1.sessions := by
  cases e with
  | portalMethodCall g =>
      rw [handle, (portalMethodCall_callStep g).sessions]; exact .same
  | simpleBridgeCall path g =>
      rw [handle, (simpleBridgeCall_callStep path g).sessions]; exact .same
  | lifecycleCall sender path interface method =>
      rw [handle, lifecycleCall_other]; exact .same
  | reply serial values => exact complete_sessions serial values
  | hostPortalSignal path interface signal parameters =>
      exact hostPortalSignal_sessions path interface signal parameters
  | guestNameChanged name oldOwner newOwner =>
      simp only [handle, guestNameChanged]
      split
      · exact .same
      · next hgone => exact .lost (by simpa [Vanishes] using hgone)
  | screenSaverAppeared hostPath => exact .same
  | screenSaverVanished => exact .same

theorem handle_pending : PendingStep p e (handle cfg p e).1 := by
  cases e with
  | portalMethodCall g => exact (portalMethodCall_callStep g).pending rfl
  | simpleBridgeCall path g => exact (simpleBridgeCall_callStep path g).pending rfl
  | lifecycleCall sender path interface method =>
      refine .same ?_
      rw [handle, lifecycleCall_other]
  | reply serial values => exact .taken (complete_pending serial values)
  | hostPortalSignal path interface signal parameters =>
      exact .same (hostPortalSignal_sameRest path interface signal parameters).1
  | guestNameChanged name oldOwner newOwner =>
      refine .same ?_
      simp only [handle, guestNameChanged]
      split <;> rfl
  | screenSaverAppeared hostPath => exact .same rfl
  | screenSaverVanished => exact .same rfl

theorem handle_crashed : (handle cfg p e).1.crashed = p.crashed ∨
    ∃ serial values, e = .reply serial values ∧ Deadly p serial values := by
  cases e with
  | portalMethodCall g => exact .inl (portalMethodCall_callStep g).crashed
  | simpleBridgeCall path g => exact .inl (simpleBridgeCall_callStep path g).crashed
  | lifecycleCall sender path interface method =>
      rw [handle, lifecycleCall_other]; exact .inl rfl
  | reply serial values =>
      exact (complete_crashed serial values).imp_right fun h => ⟨_, _, rfl, h⟩
  | hostPortalSignal path interface signal parameters =>
      exact .inl (hostPortalSignal_sameRest path interface signal parameters).2.2
  | guestNameChanged name oldOwner newOwner =>
      simp only [handle, guestNameChanged]
      split <;> exact .inl rfl
  | screenSaverAppeared hostPath => exact .inl rfl
  | screenSaverVanished => exact .inl rfl

theorem handle_inhibitors : InhibitorsStep p e (handle cfg p e).1.inhibitors := by
  cases e with
  | portalMethodCall g =>
      rw [handle, (portalMethodCall_callStep g).inhibitors]; exact .same
  | simpleBridgeCall path g =>
      rw [handle, (simpleBridgeCall_callStep path g).inhibitors]; exact .same
  | lifecycleCall sender path interface method =>
      rw [handle, lifecycleCall_other]; exact .same
  | reply serial values => exact complete_inhibitors serial values
  | hostPortalSignal path interface signal parameters =>
      rw [handle, (hostPortalSignal_sameRest path interface signal parameters).2.1]
      exact .same
  | guestNameChanged name oldOwner newOwner =>
      simp only [handle, guestNameChanged]
      split
      · exact .same
      · next hgone => exact .lost (by simpa [Vanishes] using hgone)
  | screenSaverAppeared hostPath => exact .same
  | screenSaverVanished => exact .cleared

end Spaces.Portal
