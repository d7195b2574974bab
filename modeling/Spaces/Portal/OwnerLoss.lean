import Spaces.Portal.Consistency

/-!
# What is left of a caller that is gone

The router holds host objects for its callers: requests, sessions and
screen-saver cookies. A ledger beside the router records, from the messages
alone, which host objects exist on whose behalf and which names have vanished.
An object leaves the ledger when the router closes or releases it, or when the
host says that it is over.

The vanish handler closes what the tables hold, so nothing is left of a name as
long as every object reaches a table while its owner is still there. `Timely`
says so, event by event; an answer that is late, a response that comes when its
request is no longer listened to, and a session that cannot be exported are what
it excludes.
-/

namespace Spaces.Portal

open Spaces.Library

variable {cfg : Config} {e : Event}

inductive HostObject where
  | request (path : String)
  | session (path : String)
  | cookie (throttle : Bool) (cookie : Nat)
  deriving DecidableEq

/-- The router closes or releases the object. -/
def Output.closes : Output → HostObject → Bool
  | .hostCall call, .request path =>
      call.path == path && call.interfaceName == requestInterface
        && call.methodName == "Close"
  | .hostCall call, .session path =>
      call.path == path && call.interfaceName == sessionInterface
        && call.methodName == "Close"
  | .hostCall call, .cookie throttle cookie =>
      call.interfaceName == screenSaverName
        && call.methodName == (if throttle then "UnThrottle" else "UnInhibit")
        && match call.parameters with
          | [.basic 'u' (.ofNat released)] => released == cookie
          | _ => false
  | _, _ => false

/-- The host says that the object is over: a request with its response, a
session with its end, cookies with the service that issued them. -/
def Event.reports : Event → HostObject → Bool
  | .hostPortalSignal objectPath interfaceName signalName _, .request path =>
      objectPath == path && interfaceName == requestInterface
        && signalName == "Response"
  | .hostPortalSignal objectPath interfaceName signalName _, .session path =>
      objectPath == path && interfaceName == sessionInterface && signalName == "Closed"
  | .screenSaverVanished, .cookie _ _ => true
  | _, _ => false

structure Ledger where
  router : Router
  /-- Host objects that exist, and on whose behalf they were created. -/
  held : List (String × HostObject)
  /-- Every host request ever created. -/
  past : List Request
  /-- The names that lost their owner. -/
  vanished : List String

namespace Ledger

def initial : Ledger := ⟨.initial, [], [], []⟩

/-- The host requests an answer creates. -/
def newRequests (p : Router) : Event → List Request
  | .reply serial values =>
      match p.pending.lookup serial with
      | some (.forward call) => ((call.newRequest values).map (forwardedRequest call)).toList
      | _ => []
  | _ => []

/-- The host objects an event brings into being, with their owners: what an
answer names, and a session in the response to any request there ever was. -/
def creates (l : Ledger) : Event → List (String × HostObject)
  | .reply serial values =>
      match l.router.pending.lookup serial with
      | some (.forward call) =>
          ((call.newRequest values).map fun path => (call.owner, .request path)).toList
            ++ ((call.newSession values).map fun path => (call.owner, .session path)).toList
      | some (.screen call) =>
          match call.add, values with
          | true, some [.basic 'u' (.ofNat cookie)] =>
              [(call.owner, .cookie call.throttle cookie)]
          | _, _ => []
      | _ => []
  | .hostPortalSignal path interfaceName signalName parameters =>
      if interfaceName = requestInterface ∧ signalName = "Response" then
        l.past.filterMap fun request =>
          if request.hostPath = some path then
            (request.newSession parameters).map fun session =>
              (request.owner, .session session)
          else none
      else []
  | _ => []

def vanishedName : Event → List String
  | .guestNameChanged name oldOwner newOwner =>
      if newOwner = "" ∧ oldOwner ≠ "" then [name] else []
  | _ => []

/-- One event, for the router and the ledger. -/
def next (cfg : Config) (l : Ledger) (e : Event) : Ledger :=
  let (router, outputs) := step cfg l.router e
  { router
    held := (l.held.filter (fun h => !e.reports h.2) ++ l.creates e).filter
      fun h => !outputs.any fun o => o.closes h.2
    past := l.past ++ newRequests l.router e
    vanished := vanishedName e ++ l.vanished }

end Ledger

open Ledger (newRequests vanishedName)

/-! ## The condition on the events of a run -/

/-- A response that creates a session finds its request: known, not cancelled,
and with a guest path that is still free. -/
def Listened (p : Router) (owner path : String) : Prop :=
  ∃ request guestPath, p.requests.findAlias? path = some request ∧
    request.owner = owner ∧ request.cancelled = false ∧
    request.guestSessionPath = some guestPath ∧ p.sessions.find? guestPath = none

/-- An answer to a forwarded call: what it makes the router export, it exports
for a caller that is still there. -/
structure TimelyForward (l : Ledger) (call : ForwardCall)
    (values : Option (List Variant)) : Prop where
  request : ∀ path guestPath, call.newRequest values = some path →
    call.guestRequestPath = some guestPath →
    l.router.requests.find? guestPath = none → call.owner ∉ l.vanished
  session : ∀ path guestPath, call.newSession values = some path →
    call.guestSessionPath = some guestPath →
    l.router.sessions.find? guestPath = none → call.owner ∉ l.vanished
  /-- A session named in results is not closed when it cannot be exported. -/
  exported : ∀ path guestPath, call.newSession values = some path →
    call.returnsSession = false → call.guestSessionPath = some guestPath →
    l.router.sessions.find? guestPath = none
  /-- Only a request of the host is finished, and only when it is over. -/
  finished : ∀ guestPath request, call.finished values = some guestPath →
    l.router.requests.find? guestPath = some request →
    ∃ path, request.hostPath = some path ∧ (request.owner, .request path) ∉ l.held

/-- An answer of the screen saver. -/
structure TimelyScreen (l : Ledger) (call : ScreenCall)
    (values : Option (List Variant)) : Prop where
  added : ∀ cookie, values = some [.basic 'u' (.ofNat cookie)] → call.add = true →
    call.owner ∉ l.vanished ∧
    ∀ i, l.router.inhibitors.lookup (call.throttle, cookie) = some i →
      i.owner = call.owner ∨ (i.owner, .cookie call.throttle cookie) ∉ l.held
  removed : ∀ throttle cookie i, values ≠ none → call.add = false →
    call.key = some (throttle, cookie) →
    l.router.inhibitors.lookup (throttle, cookie) = some i →
    (i.owner, .cookie throttle cookie) ∉ l.held

def Timely (l : Ledger) : Event → Prop
  | .portalMethodCall g | .simpleBridgeCall _ g => g.sender ∉ l.vanished
  | .reply serial values =>
      match l.router.pending.lookup serial with
      | some (.forward call) => TimelyForward l call values
      | some (.screen call) => TimelyScreen l call values
      | some (.chooser _ address) => ∃ request, l.router.requests.Live address request
      | some (.localRequest _ _ guestPath) => ∀ request,
          l.router.requests.find? guestPath = some request → request.hostPath = none
      | _ => True
  | .hostPortalSignal path interfaceName signalName parameters =>
      interfaceName = requestInterface → signalName = "Response" →
      ∀ request ∈ l.past, request.hostPath = some path →
        request.newSession parameters ≠ none → Listened l.router request.owner path
  | .guestNameChanged name oldOwner newOwner => Vanishes oldOwner newOwner →
      ∀ throttle cookie, (name, .cookie throttle cookie) ∈ l.held →
        l.router.screenSaverHostPath ≠ none
  | _ => True

theorem Timely.answersLocal {l : Ledger} (h : Timely l e) : AnswersLocal l.router e := by
  cases e with
  | reply serial values =>
      intro sender kind guestPath request hpending hfind
      simp only [Timely, hpending] at h
      exact h request hfind
  | _ => trivial

/-! ## The invariant -/

/-- The router has nothing that belongs to the name. -/
structure Forgotten (p : Router) (name : String) : Prop where
  requests : ∀ address request, p.requests.Live address request → request.owner ≠ name
  sessions : ∀ address session, p.sessions.Live address session → session.owner ≠ name
  inhibitors : ∀ key i, p.inhibitors.lookup key = some i → i.owner ≠ name

/-- Whatever exists on a caller's behalf is in a table under its name, and a
vanished name has nothing in the tables. -/
structure Tracked (l : Ledger) : Prop where
  wellFormed : WellFormed l.router
  alive : l.router.crashed = false
  keyed : ∀ key i, l.router.inhibitors.lookup key = some i →
    key = inhibitorKey i.throttle i.cookie
  request : ∀ owner path, (owner, .request path) ∈ l.held →
    ∃ address request, l.router.requests.Live address request ∧
      request.owner = owner ∧ request.hostPath = some path
  session : ∀ owner path, (owner, .session path) ∈ l.held →
    ∃ address session, l.router.sessions.Live address session ∧
      session.owner = owner ∧ session.hostPath = path
  cookie : ∀ owner throttle cookie, (owner, .cookie throttle cookie) ∈ l.held →
    l.router.inhibitors.lookup (inhibitorKey throttle cookie)
      = some ⟨owner, cookie, throttle⟩
  forgotten : ∀ name ∈ l.vanished, Forgotten l.router name

theorem tracked_initial : Tracked .initial where
  wellFormed := wellFormed_initial
  alive := rfl
  keyed := by simp [Ledger.initial, Router.initial]
  request := by simp [Ledger.initial]
  session := by simp [Ledger.initial]
  cookie := by simp [Ledger.initial]
  forgotten := by simp [Ledger.initial]

/-! ## What the handlers close

Each creating answer either enters the object in its table or closes it, and
the vanish handler closes everything it finds. -/

section Closing

variable {p : Router}

theorem closes_request (caller : Option String) {outputs : List Output} {path : String}
    (h : ∀ o ∈ closeHostObject caller (some path) requestInterface, o ∈ outputs) :
    outputs.any (fun o => o.closes (.request path)) = true :=
  List.any_eq_true.mpr ⟨_, h _ List.mem_cons_self, by
    simp [Output.closes]⟩

theorem closes_session (caller : Option String) {outputs : List Output} {path : String}
    (h : ∀ o ∈ closeHostObject caller (some path) sessionInterface, o ∈ outputs) :
    outputs.any (fun o => o.closes (.session path)) = true :=
  List.any_eq_true.mpr ⟨_, h _ List.mem_cons_self, by
    simp [Output.closes]⟩

theorem forwardDone_newRequest (hc : p.requests.Consistent) {call : ForwardCall}
    {values : Option (List Variant)} {path : String}
    (hnew : call.newRequest values = some path) :
    (∃ address request, (forwardDone p call values).1.requests.Live address request ∧
      request.owner = call.owner ∧ request.hostPath = some path) ∨
    (forwardDone p call values).2.any (fun o => o.closes (.request path)) = true := by
  unfold ForwardCall.newRequest at hnew
  split at hnew
  · next hostPath =>
      split at hnew
      · next hreturns =>
          cases hnew
          simp only [forwardDone, hreturns, if_true]
          split
          · exact .inr (closes_request none fun o ho =>
              List.mem_append_left _ ho)
          · next q hq =>
              unfold registerRequest at hq
              split at hq
              · cases hq
              · obtain ⟨requests, hins, rfl⟩ := Option.map_eq_some_iff.mp hq
                exact .inl ⟨_, _, (hc.live_insert hins).mpr (.inl ⟨rfl, rfl⟩), rfl, rfl⟩
      · cases hnew
  · cases hnew

theorem finishRequest_sessions (finish : Option String) (reply : List Variant) :
    (finishRequest p finish reply).sessions = p.sessions := by
  rcases finishRequest_cases (p := p) finish reply with h | ⟨_, _, _, _, -, -, -, -, h⟩
  · rw [h]
  · rcases h with ⟨-, h⟩ | ⟨-, h⟩ <;> rw [h]

/-- Exporting a session under a free guest path succeeds. -/
theorem registerSession_free (hc : p.sessions.Consistent) (owner path : String)
    {guestPath : String}
    (hfree : p.sessions.find? guestPath = none) : ∃ q,
      registerSession p owner (some guestPath) path = some q ∧
      ∃ address session, q.sessions.Live address session ∧ session.owner = owner ∧
        session.hostPath = path := by
  obtain ⟨sessions, hins⟩ := hc.insert_of_find?_eq_none
    (o := (⟨owner, guestPath, path⟩ : Session)) hfree
  refine ⟨{ p with sessions }, by simp [registerSession, hins], _, _,
    (hc.live_insert hins).mpr (.inl ⟨rfl, rfl⟩), rfl, rfl⟩

theorem forwardDone_newSession (hc : p.sessions.Consistent) {call : ForwardCall}
    {values : Option (List Variant)} {path : String}
    (hnew : call.newSession values = some path)
    (hfree : call.returnsSession = false → ∀ guestPath,
      call.guestSessionPath = some guestPath → p.sessions.find? guestPath = none) :
    (∃ address session, (forwardDone p call values).1.sessions.Live address session ∧
      session.owner = call.owner ∧ session.hostPath = path) ∨
    (forwardDone p call values).2.any (fun o => o.closes (.session path)) = true := by
  unfold ForwardCall.newSession at hnew
  split at hnew
  · cases hnew
  · next reply =>
      split at hnew
      · cases hnew
      · next hrequest =>
          simp only [Bool.not_eq_true] at hrequest
          split at hnew
          · next hsession =>
              split at hnew
              · next hostPath =>
                  cases hnew
                  simp only [forwardDone, hrequest, hsession, Bool.false_eq_true, if_false,
                    if_true]
                  split
                  · exact .inr (closes_session none fun o ho =>
                      List.mem_append_left _ ho)
                  · next q hq =>
                      obtain ⟨guest, sessions, -, hins, rfl⟩ := registerSession_eq_some hq
                      exact .inl ⟨_, _, (hc.live_insert hins).mpr (.inl ⟨rfl, rfl⟩),
                        rfl, rfl⟩
              · cases hnew
          · next hsession =>
              simp only [Bool.not_eq_true] at hsession
              split at hnew
              · next guestPath results others hguest =>
                  split at hnew
                  · next htype =>
                      obtain ⟨hsome, hpath⟩ := Option.filter_eq_some_iff.mp hnew
                      obtain ⟨handle, hhandle, rfl⟩ := Option.map_eq_some_iff.mp hsome
                      obtain ⟨q, hq, address, session, hlive, howner, hhost⟩ :=
                        registerSession_free hc call.owner (handleText handle)
                          (hfree hsession guestPath hguest)
                      refine .inl ⟨address, session, ?_, howner, hhost⟩
                      simp only [forwardDone, hrequest, hsession, hguest, htype, hhandle,
                        hpath, hq, Bool.false_eq_true, if_false, if_true, Bool.not_true]
                      rw [finishRequest_sessions]
                      exact hlive
                  · cases hnew
              · cases hnew

/-- A response never ends a session that has its request's host path. -/
theorem hostPortalSignal_response {path : String} {request : Request}
    {parameters : List Variant} (hfind : p.requests.findAlias? path = some request) :
    (hostPortalSignal p path requestInterface "Response" parameters).1
      = (hostRequestSignal p request requestInterface "Response" parameters).1 := by
  have hother : (requestInterface == sessionInterface) = false := by decide
  simp only [hostPortalSignal, hfind, hother, Bool.false_and, Bool.false_eq_true, if_false]
  split <;> rfl

/-- A response that is listened to exports the session it creates. -/
theorem hostPortalSignal_listened (hc : p.sessions.Consistent) {owner path hostPath : String}
    {parameters : List Variant} {past : Request}
    (hpast : past.newSession parameters = some hostPath)
    (hlisten : Listened p owner path) :
    ∃ address session, (hostPortalSignal p path requestInterface "Response"
      parameters).1.sessions.Live address session ∧ session.owner = owner ∧
      session.hostPath = hostPath := by
  obtain ⟨request, guestPath, hfind, rfl, hlive, hguest, hfree⟩ := hlisten
  unfold Request.newSession at hpast
  split at hpast
  · next guest code results hpastGuest =>
      obtain ⟨hsome, hpath⟩ := Option.filter_eq_some_iff.mp hpast
      obtain ⟨handle, hhandle, rfl⟩ := Option.map_eq_some_iff.mp hsome
      obtain ⟨q, hq, address, session, hin, howner, hhost⟩ :=
        registerSession_free hc request.owner (handleText handle) hfree
      refine ⟨address, session, ?_, howner, hhost⟩
      have hmap : (mapResponse p request (.basic code 0) results).1 = q := by
        simp only [mapResponse, hguest, hhandle, hpath, hq, if_true]
      have hsignal : (hostRequestSignal p request requestInterface "Response"
          [.basic code 0, results]).1.sessions = q.sessions := by
        unfold hostRequestSignal
        extract_lets isResponse
        have hresponse : isResponse = true := by decide
        rw [hresponse, hlive, Bool.false_and, if_neg Bool.false_ne_true]
        show (if _ then _ else _ : Router).sessions = _
        rw [← hmap]
        split <;> rfl
      rw [hostPortalSignal_response hfind, hsignal]
      exact hin
  · cases hpast

theorem mem_ownedKeys {α : Type} [Keyed String α] {t : Arena String α} {owner : α → String}
    (hc : t.Consistent) {address : Nat} {object : α} (hlive : t.Live address object)
    {name : String} (howner : owner object = name) :
    Keyed.key object ∈ ownedKeys t owner name := by
  have hfind := hc.find?_eq_some.mpr ⟨address, hlive, rfl⟩
  refine List.mem_filter.mpr ⟨AList.mem_keys.mpr ?_, by simp [hfind, howner]⟩
  exact AList.lookup_isSome.mp (by rw [hc.live_owned _ _ hlive]; rfl)

theorem guestNameVanished_closes_request (hc : p.requests.Consistent) {name path : String}
    {address : Nat} {request : Request} (hlive : p.requests.Live address request)
    (howner : request.owner = name) (hhost : request.hostPath = some path) :
    (guestNameVanished p name).2.any (fun o => o.closes (.request path)) = true := by
  have hfind := hc.find?_eq_some.mpr ⟨address, hlive, rfl⟩
  refine closes_request none fun o ho => ?_
  refine List.mem_append_left _ (List.mem_append_left _ (List.mem_flatMap.mpr
    ⟨Keyed.key request, mem_ownedKeys hc hlive howner, ?_⟩))
  rw [hfind]
  simpa [hhost] using ho

theorem guestNameVanished_closes_session (hc : p.sessions.Consistent) {name : String}
    {address : Nat} {session : Session} (hlive : p.sessions.Live address session)
    (howner : session.owner = name) :
    (guestNameVanished p name).2.any (fun o => o.closes (.session session.hostPath))
      = true := by
  have hfind := hc.find?_eq_some.mpr ⟨address, hlive, rfl⟩
  refine closes_session none fun o ho => ?_
  refine List.mem_append_left _ (List.mem_append_right _ (List.mem_flatMap.mpr
    ⟨Keyed.key session, mem_ownedKeys hc hlive howner, ?_⟩))
  rw [hfind]
  exact ho

theorem mem_ownedInhibitors {key : Bool × Nat} {i : Inhibitor} {name : String}
    (h : p.inhibitors.lookup key = some i) (howner : i.owner = name) :
    i ∈ ownedInhibitors p name := by
  refine List.mem_filter.mpr ⟨List.mem_map.mpr ⟨⟨key, i⟩, ?_, rfl⟩, by simp [howner]⟩
  exact AList.mem_lookup_iff.mp h

theorem guestNameVanished_closes_cookie {name : String} {throttle : Bool} {cookie : Nat}
    (h : p.inhibitors.lookup (inhibitorKey throttle cookie)
      = some ⟨name, cookie, throttle⟩)
    (hservice : p.screenSaverHostPath ≠ none) :
    (guestNameVanished p name).2.any (fun o => o.closes (.cookie throttle cookie))
      = true := by
  obtain ⟨hostPath, hhost⟩ := Option.ne_none_iff_exists'.mp hservice
  refine List.any_eq_true.mpr ⟨.hostCall ⟨none, screenSaverName, hostPath,
    screenSaverName, if throttle then "UnThrottle" else "UnInhibit", [.uint32 cookie]⟩,
    List.mem_append_right _ (List.mem_flatMap.mpr ⟨_, mem_ownedInhibitors h rfl, ?_⟩), ?_⟩
  · simp [releaseInhibitor, hhost]
  · simp only [Output.closes, Variant.uint32, beq_self_eq_true, Bool.true_and]
    exact beq_self_eq_true cookie

/-- Erasing the inhibitors of a name leaves none of them, and the others. -/
theorem lookup_eraseInhibitors (hkeyed : ∀ key i, p.inhibitors.lookup key = some i →
      key = inhibitorKey i.throttle i.cookie) (name : String) (key : Bool × Nat)
    (i : Inhibitor) :
    ((ownedInhibitors p name).foldl
        (fun t i => t.erase (inhibitorKey i.throttle i.cookie)) p.inhibitors).lookup key
      = some i ↔ p.inhibitors.lookup key = some i ∧ i.owner ≠ name := by
  rw [lookup_foldl_erase]
  split
  · next hmem =>
      obtain ⟨j, hj, hjkey⟩ := List.mem_map.mp hmem
      obtain ⟨hin, howner⟩ := List.mem_filter.mp hj
      obtain ⟨⟨key', j'⟩, hentry, rfl⟩ := List.mem_map.mp hin
      have hlookup := AList.mem_lookup_iff.mpr hentry
      obtain rfl := (hkeyed key' j' hlookup).trans hjkey
      refine ⟨fun h => (nomatch h), fun ⟨hi, hne⟩ => absurd ?_ hne⟩
      rw [Option.mem_def.mp hlookup, Option.some_inj] at hi
      rw [← hi]
      exact beq_iff_eq.mp howner
  · next hmem =>
      refine ⟨fun hi => ⟨hi, fun howner => hmem ?_⟩, And.left⟩
      exact List.mem_map.mpr ⟨i, mem_ownedInhibitors hi howner, (hkeyed key i hi).symm⟩

end Closing

/-! ## One event keeps the ledger -/

theorem mem_held_next {l : Ledger} {h : String × HostObject}
    (hmem : h ∈ (l.next cfg e).held) :
    (h ∈ l.held ∧ e.reports h.2 = false ∨ h ∈ l.creates e) ∧
      (step cfg l.router e).2.any (fun o => o.closes h.2) = false := by
  simp only [Ledger.next, List.mem_filter, List.mem_append, Bool.not_eq_true'] at hmem
  exact hmem

/-- Where the ledger's entries come from: an answer, or a session in a response. -/
theorem mem_creates {l : Ledger} {owner : String} {object : HostObject}
    (h : (owner, object) ∈ l.creates e) :
    (∃ serial values call, e = .reply serial values ∧
      l.router.pending.lookup serial = some (.forward call) ∧ owner = call.owner ∧
      ((∃ path, object = .request path ∧ call.newRequest values = some path) ∨
        ∃ path, object = .session path ∧ call.newSession values = some path)) ∨
    (∃ serial call cookie, e = .reply serial (some [.basic 'u' (.ofNat cookie)]) ∧
      l.router.pending.lookup serial = some (.screen call) ∧ owner = call.owner ∧
      call.add = true ∧ object = .cookie call.throttle cookie) ∨
    ∃ path parameters past session,
      e = .hostPortalSignal path requestInterface "Response" parameters ∧
      past ∈ l.past ∧ past.hostPath = some path ∧ owner = past.owner ∧
      past.newSession parameters = some session ∧ object = .session session := by
  cases e with
  | reply serial values =>
      simp only [Ledger.creates] at h
      split at h
      · next call hpending =>
          refine .inl ⟨serial, values, call, rfl, hpending, ?_⟩
          rcases List.mem_append.mp h with h | h
          · simp only [Option.mem_toList, Option.map_eq_some_iff] at h
            obtain ⟨path, hnew, heq⟩ := h
            cases heq
            exact ⟨rfl, .inl ⟨path, rfl, hnew⟩⟩
          · simp only [Option.mem_toList, Option.map_eq_some_iff] at h
            obtain ⟨path, hnew, heq⟩ := h
            cases heq
            exact ⟨rfl, .inr ⟨path, rfl, hnew⟩⟩
      · next call hpending =>
          split at h
          · next cookie hadd =>
              simp only [List.mem_singleton, Prod.mk.injEq] at h
              exact .inr (.inl ⟨serial, call, cookie, rfl, hpending, h.1, hadd, h.2⟩)
          · cases h
      · cases h
  | hostPortalSignal path interface signal parameters =>
      simp only [Ledger.creates] at h
      split at h
      · next hresponse =>
          obtain ⟨rfl, rfl⟩ := hresponse
          obtain ⟨past, hpast, hsome⟩ := List.mem_filterMap.mp h
          split at hsome
          · next hhost =>
              obtain ⟨session, hnew, heq⟩ := Option.map_eq_some_iff.mp hsome
              cases heq
              exact .inr (.inr ⟨path, parameters, past, session, rfl, hpast, hhost, rfl,
                hnew, rfl⟩)
          · cases hsome
      · cases h
  | _ => cases h

/-- A vanished name is gone from the tables. -/
theorem guestNameVanished_forgotten {p : Router} (hw : WellFormed p)
    (hkeyed : ∀ key i, p.inhibitors.lookup key = some i →
      key = inhibitorKey i.throttle i.cookie) (name : String) :
    Forgotten (guestNameVanished p name).1 name where
  requests address request hlive howner := by
    obtain ⟨hbefore, hkey⟩ := ((hw.requests.releaseAll _).2 _ _).mp hlive
    exact hkey (mem_ownedKeys hw.requests hbefore howner)
  sessions address session hlive howner := by
    obtain ⟨hbefore, hkey⟩ := ((hw.sessions.releaseAll _).2 _ _).mp hlive
    exact hkey (mem_ownedKeys hw.sessions hbefore howner)
  inhibitors key i hi :=
    ((lookup_eraseInhibitors hkeyed name key i).mp hi).2

theorem handle_vanished {p : Router} {name oldOwner newOwner : String}
    (h : Vanishes oldOwner newOwner) :
    handle cfg p (.guestNameChanged name oldOwner newOwner)
      = guestNameVanished p name := by
  simp [handle, guestNameChanged, h.1, h.2]

section Step

variable {l : Ledger}

theorem Tracked.step_eq (ht : Tracked l) : step cfg l.router e = handle cfg l.router e := by
  rw [step, ht.alive, if_neg Bool.false_ne_true]

/-- A timely event does not kill the process. -/
theorem Timely.not_deadly {serial : Nat} {values : Option (List Variant)}
    (hok : Timely l (.reply serial values)) : ¬ Deadly l.router serial values := by
  rintro (⟨sender, address, hpending, hfreed⟩ |
    ⟨call, guestPath, request, hpending, hend, hfind, hlocal⟩)
  · simp only [Timely, hpending] at hok
    obtain ⟨request, hlive⟩ := hok
    rw [Arena.Live, hfreed] at hlive
    cases hlive
  · simp only [Timely, hpending] at hok
    obtain ⟨path, hpath, -⟩ := hok.finished guestPath request hend hfind
    rw [hlocal] at hpath
    cases hpath

/-- A held request stays in its table unless its owner vanishes or the host says
that it is over. -/
theorem RequestsStep.stays (ht : Tracked l) (hok : Timely l e)
    {requests : Arena String Request} (h : RequestsStep l.router e requests)
    {address : Nat} {request : Request} {path : String}
    (hlive : l.router.requests.Live address request) (hhost : request.hostPath = some path)
    (hheld : (request.owner, .request path) ∈ l.held)
    (hreport : e.reports (.request path) = false)
    (hthere : ∀ name oldOwner newOwner, e = .guestNameChanged name oldOwner newOwner →
      Vanishes oldOwner newOwner → request.owner ≠ name) :
    ∃ address request', requests.Live address request' ∧
      request'.owner = request.owner ∧ request'.hostPath = some path := by
  have hw := ht.wellFormed
  have hc := hw.requests
  cases h with
  | same => exact ⟨address, request, hlive, rfl, hhost⟩
  | inserted _ hins =>
      exact ⟨address, request, (hc.live_insert hins).mpr (.inr hlive), rfl, hhost⟩
  | cancelled _ _ =>
      refine ⟨address, _, hc.live_update.mpr ⟨request, hlive, rfl⟩, ?_, ?_⟩
      · split <;> rfl
      · split <;> exact hhost
  | finished hpending hend hfind _ =>
      refine ⟨address, request, hc.live_release.mpr ⟨hlive, fun hkey => ?_⟩, rfl, hhost⟩
      -- the request it finishes is over, and this one is not
      simp only [Timely, hpending] at hok
      obtain ⟨path', hpath, hover⟩ := hok.finished _ _ hend hfind
      rw [← hkey, hc.find?_eq_some.mpr ⟨address, hlive, rfl⟩, Option.some_inj] at hfind
      rw [← hfind] at hpath hover
      obtain rfl := Option.some.inj (hhost.symm.trans hpath)
      exact hover hheld
  | ended hpending hfinds =>
      refine ⟨address, request, hc.live_eraseKey.mpr ⟨hlive, fun hkey => ?_⟩, rfl, hhost⟩
      obtain ⟨⟨a, ha⟩, hlocal⟩ := hfinds.live hw hok.answersLocal hpending
      obtain rfl := hc.key_unique hlive ha hkey
      rw [← hlive.inj ha, hhost] at hlocal
      cases hlocal
  | answered hfind =>
      refine ⟨address, request, hc.live_release.mpr ⟨hlive, fun hkey => ?_⟩, rfl, hhost⟩
      obtain ⟨a, ha, hpath⟩ := hc.findAlias?_live hfind
      obtain rfl := hc.key_unique hlive ha hkey
      rw [aliasKey_request, ← hlive.inj ha, hhost, Option.some_inj] at hpath
      rw [hpath] at hreport
      simp [Event.reports] at hreport
  | lost hgone =>
      refine ⟨address, request, ((hc.releaseAll _).2 _ _).mpr ⟨hlive, fun hmem => ?_⟩,
        rfl, hhost⟩
      have hkey := hc.find?_eq_some.mpr ⟨address, hlive, rfl⟩
      simp only [ownedKeys, List.mem_filter, hkey, Option.any_some, beq_iff_eq] at hmem
      exact hthere _ _ _ rfl hgone hmem.2

theorem SessionsStep.stays (ht : Tracked l)
    {sessions : Arena String Session} (h : SessionsStep l.router e sessions)
    {address : Nat} {session : Session}
    (hlive : l.router.sessions.Live address session)
    (hreport : e.reports (.session session.hostPath) = false)
    (hthere : ∀ name oldOwner newOwner, e = .guestNameChanged name oldOwner newOwner →
      Vanishes oldOwner newOwner → session.owner ≠ name) :
    sessions.Live address session := by
  have hc := ht.wellFormed.sessions
  cases h with
  | same => exact hlive
  | inserted _ hins => exact (hc.live_insert hins).mpr (.inr hlive)
  | closed hfind =>
      refine hc.live_release.mpr ⟨hlive, fun hkey => ?_⟩
      obtain ⟨a, ha, hpath⟩ := hc.findAlias?_live hfind
      obtain rfl := hc.key_unique hlive ha hkey
      rw [aliasKey_session, ← hlive.inj ha, Option.some_inj] at hpath
      rw [hpath] at hreport
      simp [Event.reports] at hreport
  | lost hgone =>
      refine ((hc.releaseAll _).2 _ _).mpr ⟨hlive, fun hmem => ?_⟩
      have hkey := hc.find?_eq_some.mpr ⟨address, hlive, rfl⟩
      simp only [ownedKeys, List.mem_filter, hkey, Option.any_some, beq_iff_eq] at hmem
      exact hthere _ _ _ rfl hgone hmem.2

/-- An answer to a forwarded call meets its completion with the same tables. -/
theorem handle_forward {p : Router} {serial : Nat} {values : Option (List Variant)}
    {call : ForwardCall} (hpending : p.pending.lookup serial = some (.forward call)) :
    handle cfg p (.reply serial values)
      = forwardDone { p with pending := p.pending.erase serial } call values := by
  simp only [handle, complete, hpending]

theorem Tracked.request_next (ht : Tracked l) (hok : Timely l e) {owner path : String}
    (hmem : (owner, .request path) ∈ (l.next cfg e).held) :
    ∃ address request, (handle cfg l.router e).1.requests.Live address request ∧
      request.owner = owner ∧ request.hostPath = some path := by
  obtain ⟨hfrom, hopen⟩ := mem_held_next hmem
  rw [ht.step_eq] at hopen
  have hc := ht.wellFormed.requests
  rcases hfrom with ⟨hheld, hreport⟩ | hnew
  · obtain ⟨address, request, hlive, rfl, hhost⟩ := ht.request owner path hheld
    refine (handle_requests cfg l.router e).stays ht hok hlive hhost hheld hreport ?_
    intro name oldOwner newOwner heq hgone howner
    rw [heq, handle_vanished hgone,
      guestNameVanished_closes_request hc hlive howner hhost] at hopen
    cases hopen
  · rcases mem_creates hnew with ⟨serial, values, call, rfl, hpending, rfl, hobject⟩ |
      ⟨_, _, _, -, -, -, -, hobject⟩ | ⟨_, _, _, _, -, -, -, -, -, hobject⟩
    · rw [handle_forward hpending] at hopen ⊢
      rcases hobject with ⟨_, heq, hnew⟩ | ⟨_, heq, -⟩
      · cases heq
        rcases forwardDone_newRequest (p := { l.router with
          pending := l.router.pending.erase serial }) hc hnew with hlive | hclosed
        · exact hlive
        · rw [hclosed] at hopen
          cases hopen
      · cases heq
    · cases hobject
    · cases hobject

theorem Tracked.session_next (ht : Tracked l) (hok : Timely l e) {owner path : String}
    (hmem : (owner, .session path) ∈ (l.next cfg e).held) :
    ∃ address session, (handle cfg l.router e).1.sessions.Live address session ∧
      session.owner = owner ∧ session.hostPath = path := by
  obtain ⟨hfrom, hopen⟩ := mem_held_next hmem
  rw [ht.step_eq] at hopen
  have hc := ht.wellFormed.sessions
  rcases hfrom with ⟨hheld, hreport⟩ | hnew
  · obtain ⟨address, session, hlive, rfl, rfl⟩ := ht.session owner path hheld
    refine ⟨address, session,
      (handle_sessions cfg l.router e).stays ht hlive hreport ?_, rfl, rfl⟩
    intro name oldOwner newOwner heq hgone howner
    rw [heq, handle_vanished hgone,
      guestNameVanished_closes_session hc hlive howner] at hopen
    cases hopen
  · rcases mem_creates hnew with ⟨serial, values, call, rfl, hpending, rfl, hobject⟩ |
      ⟨_, _, _, -, -, -, -, hobject⟩ |
      ⟨path', parameters, past, session, rfl, hpast, hhost, rfl, hnew, hobject⟩
    · rw [handle_forward hpending] at hopen ⊢
      simp only [Timely, hpending] at hok
      rcases hobject with ⟨_, heq, -⟩ | ⟨_, heq, hnew⟩
      · cases heq
      · cases heq
        rcases forwardDone_newSession (p := { l.router with
          pending := l.router.pending.erase serial }) hc hnew
          (fun hreturns guestPath => hok.exported _ guestPath hnew hreturns)
          with hlive | hclosed
        · exact hlive
        · rw [hclosed] at hopen
          cases hopen
    · cases hobject
    · cases hobject
      have hlisten := hok rfl rfl past hpast hhost (by rw [hnew]; exact Option.some_ne_none _)
      exact hostPortalSignal_listened hc hnew hlisten

/-- An inhibitor was there before, or an answer of the screen saver adds it. -/
theorem InhibitorsStep.before (ht : Tracked l)
    {inhibitors : AList fun _ : Bool × Nat => Inhibitor}
    (h : InhibitorsStep l.router e inhibitors) {key : Bool × Nat} {i : Inhibitor}
    (hi : inhibitors.lookup key = some i) : l.router.inhibitors.lookup key = some i ∨
      ∃ serial call cookie, e = .reply serial (some [.basic 'u' (.ofNat cookie)]) ∧
        l.router.pending.lookup serial = some (.screen call) ∧ call.add = true ∧
        i.owner = call.owner ∧ key = inhibitorKey i.throttle i.cookie := by
  cases h with
  | same => exact .inl hi
  | added hpending hadd =>
      rename_i serial call cookie
      rcases eq_or_ne key (inhibitorKey call.throttle cookie) with rfl | hne
      · rw [AList.lookup_insert, Option.some_inj] at hi
        rw [← hi]
        exact .inr ⟨serial, call, cookie, rfl, hpending, hadd, rfl, rfl⟩
      · rw [AList.lookup_insert_ne hne] at hi
        exact .inl hi
  | removed _ _ _ =>
      rename_i key' _ _ _
      rcases eq_or_ne key key' with rfl | hne
      · rw [AList.lookup_erase] at hi
        cases hi
      · rw [AList.lookup_erase_ne hne] at hi
        exact .inl hi
  | lost _ => exact .inl ((lookup_eraseInhibitors ht.keyed _ key i).mp hi).1
  | cleared => cases hi

/-- A held cookie keeps its inhibitor unless its owner vanishes or the screen
saver does. -/
theorem InhibitorsStep.stays (ht : Tracked l) (hok : Timely l e)
    {inhibitors : AList fun _ : Bool × Nat => Inhibitor}
    (h : InhibitorsStep l.router e inhibitors) {owner : String} {throttle : Bool}
    {cookie : Nat} (hheld : (owner, .cookie throttle cookie) ∈ l.held)
    (hreport : e.reports (.cookie throttle cookie) = false)
    (hthere : ∀ name oldOwner newOwner, e = .guestNameChanged name oldOwner newOwner →
      Vanishes oldOwner newOwner → owner ≠ name) :
    inhibitors.lookup (inhibitorKey throttle cookie) = some ⟨owner, cookie, throttle⟩ := by
  have hold := ht.cookie owner throttle cookie hheld
  cases h with
  | same => exact hold
  | added hpending hadd =>
      rename_i serial call cookie'
      rcases eq_or_ne (inhibitorKey throttle cookie) (inhibitorKey call.throttle cookie')
        with heq | hne
      · simp only [inhibitorKey, Prod.mk.injEq] at heq
        obtain ⟨rfl, rfl⟩ := heq
        simp only [Timely, hpending] at hok
        rcases (hok.added cookie rfl hadd).2 _ hold with rfl | hover
        · exact AList.lookup_insert _
        · exact absurd hheld hover
      · rw [AList.lookup_insert_ne hne]
        exact hold
  | removed hpending hadd hkey =>
      rename_i serial values call key
      rcases eq_or_ne (inhibitorKey throttle cookie) key with rfl | hne
      · simp only [Timely, hpending] at hok
        exact absurd hheld (hok.removed _ _ _ (Option.some_ne_none _) hadd hkey hold)
      · rw [AList.lookup_erase_ne hne]
        exact hold
  | lost hgone =>
      exact (lookup_eraseInhibitors ht.keyed _ _ _).mpr ⟨hold, hthere _ _ _ rfl hgone⟩
  | cleared => cases hreport

theorem Tracked.cookie_next (ht : Tracked l) (hok : Timely l e) {owner : String}
    {throttle : Bool} {cookie : Nat}
    (hmem : (owner, .cookie throttle cookie) ∈ (l.next cfg e).held) :
    (handle cfg l.router e).1.inhibitors.lookup (inhibitorKey throttle cookie)
      = some ⟨owner, cookie, throttle⟩ := by
  obtain ⟨hfrom, hopen⟩ := mem_held_next hmem
  rw [ht.step_eq] at hopen
  rcases hfrom with ⟨hheld, hreport⟩ | hnew
  · refine (handle_inhibitors cfg l.router e).stays ht hok hheld hreport ?_
    rintro name oldOwner newOwner rfl hgone rfl
    rw [handle_vanished hgone, guestNameVanished_closes_cookie
      (ht.cookie owner throttle cookie hheld) (hok hgone throttle cookie hheld)] at hopen
    cases hopen
  · rcases mem_creates hnew with ⟨_, _, _, -, -, -, ⟨_, hobject, -⟩ | ⟨_, hobject, -⟩⟩ |
      ⟨serial, call, cookie', rfl, hpending, rfl, hadd, hobject⟩ |
      ⟨_, _, _, _, -, -, -, -, -, hobject⟩
    · cases hobject
    · cases hobject
    · cases hobject
      simp only [handle, complete, hpending, screenCallDone, hadd, if_true]
      exact AList.lookup_insert _
    · cases hobject

/-! ## Vanished names stay forgotten -/

/-- Whatever an event enters in a table, its owner is still there. -/
theorem Timely.new_request (hok : Timely l e) {request : Request}
    (h : NewRequest l.router e request)
    (hfree : l.router.requests.find? request.guestPath = none) :
    request.owner ∉ l.vanished := by
  cases h with
  | opened hsender _ =>
      cases e with
      | portalMethodCall g => exact Option.some.inj hsender ▸ hok
      | simpleBridgeCall path g => exact Option.some.inj hsender ▸ hok
      | _ => cases hsender
  | created hpending hnew hguest =>
      simp only [Timely, hpending] at hok
      exact hok.request _ _ hnew hguest hfree

theorem Timely.new_session (hok : Timely l e) (ht : Tracked l) {session : Session}
    (h : NewSession l.router e session)
    (hfree : l.router.sessions.find? session.guestPath = none) :
    session.owner ∉ l.vanished := by
  cases h with
  | replied hpending hnew hguest =>
      simp only [Timely, hpending] at hok
      exact hok.session _ _ hnew hguest hfree
  | responded hfind _ _ _ =>
      intro hgone
      obtain ⟨a, ha, -⟩ := ht.wellFormed.requests.findAlias?_live hfind
      exact (ht.forgotten _ hgone).requests a _ ha rfl

theorem Forgotten.next (ht : Tracked l) (hok : Timely l e) {name : String}
    (hgone : name ∈ l.vanished) : Forgotten (handle cfg l.router e).1 name where
  requests address request hlive howner := by
    rcases (handle_requests cfg l.router e).live ht.wellFormed hlive with
      ⟨before, hbefore, hsame, -⟩ | ⟨-, hins, hnew⟩
    · exact (ht.forgotten name hgone).requests address before hbefore (hsame ▸ howner)
    · have hfree := ht.wellFormed.requests.find?_of_insert hins
      exact hok.new_request hnew hfree (howner ▸ hgone)
  sessions address session hlive howner := by
    rcases (handle_sessions cfg l.router e).live ht.wellFormed hlive with
      hbefore | ⟨hins, hnew⟩
    · exact (ht.forgotten name hgone).sessions address session hbefore howner
    · have hfree := ht.wellFormed.sessions.find?_of_insert hins
      exact hok.new_session ht hnew hfree (howner ▸ hgone)
  inhibitors key i hi howner := by
    rcases (handle_inhibitors cfg l.router e).before ht hi with
      hbefore | ⟨serial, call, cookie, rfl, hpending, hadd, hcall, -⟩
    · exact (ht.forgotten name hgone).inhibitors key i hbefore howner
    · simp only [Timely, hpending] at hok
      exact (hok.added cookie rfl hadd).1 (hcall ▸ howner ▸ hgone)

theorem Tracked.preserved (ht : Tracked l) (hok : Timely l e) :
    Tracked (l.next cfg e) := by
  have hrouter : (l.next cfg e).router = (handle cfg l.router e).1 := by
    rw [← ht.step_eq]
    rfl
  constructor
  · rw [hrouter]
    exact ht.wellFormed.handled hok.answersLocal
  · rw [hrouter]
    rcases handle_crashed cfg l.router e with h | ⟨serial, values, rfl, hdeadly⟩
    · exact h.trans ht.alive
    · exact absurd hdeadly hok.not_deadly
  · intro key i hi
    rw [hrouter] at hi
    rcases (handle_inhibitors cfg l.router e).before ht hi with
      hbefore | ⟨_, _, _, -, -, -, -, hkey⟩
    · exact ht.keyed key i hbefore
    · exact hkey
  · rw [hrouter]
    exact fun owner path hmem => ht.request_next hok hmem
  · rw [hrouter]
    exact fun owner path hmem => ht.session_next hok hmem
  · rw [hrouter]
    exact fun owner throttle cookie hmem => ht.cookie_next hok hmem
  · rw [hrouter]
    intro name hmem
    rcases List.mem_append.mp hmem with hnow | hbefore
    · cases e with
      | guestNameChanged gone oldOwner newOwner =>
          simp only [vanishedName] at hnow
          split at hnow
          · next hgone =>
              rw [List.mem_singleton] at hnow
              rw [hnow, handle_vanished hgone]
              exact guestNameVanished_forgotten ht.wellFormed ht.keyed gone
          · cases hnow
      | _ => cases hnow
    · exact .next ht hok hbefore

end Step

/-! ## Nothing is left of a vanished name -/

/-- Nothing the router holds, and nothing that exists on the host, belongs to
the name. -/
structure Released (l : Ledger) (name : String) : Prop where
  tables : Forgotten l.router name
  host : ∀ object, (name, object) ∉ l.held

theorem Tracked.released {l : Ledger} (ht : Tracked l) {name : String}
    (hgone : name ∈ l.vanished) : Released l name := by
  have hf := ht.forgotten name hgone
  refine ⟨hf, fun object hheld => ?_⟩
  cases object with
  | request path =>
      obtain ⟨address, request, hlive, howner, -⟩ := ht.request name path hheld
      exact hf.requests address request hlive howner
  | session path =>
      obtain ⟨address, session, hlive, howner, -⟩ := ht.session name path hheld
      exact hf.sessions address session hlive howner
  | cookie throttle cookie =>
      exact hf.inhibitors _ _ (ht.cookie name throttle cookie hheld) rfl

/-- Every call of the name to the host has been answered. -/
def Answered (p : Router) (name : String) : Prop :=
  ∀ serial done, p.pending.lookup serial = some done → done.onHost = true →
    done.caller ≠ name

theorem vanished_released {l : Ledger} (h : Guarded (Ledger.next cfg) Timely .initial l)
    {name : String} (hgone : name ∈ l.vanished) : Released l name :=
  (h.invariant tracked_initial fun _ _ ht hok => ht.preserved hok).released hgone

/-! ## An answer that comes too late -/

def vanishEvent : Event := .guestNameChanged ":1.1" ":1.1" ""

/-- The ledger of the run that gives `:1.1` its session. -/
def sampleLedger : Ledger :=
  (Ledger.initial.next sampleConfig createSessionEvent).next sampleConfig sessionReply

theorem sampleLedger_held : sampleLedger.held =
    [(":1.1", .session "/org/freedesktop/portal/desktop/session/1_42/s2")] := by decide

theorem vanished_released_session :
    Released (sampleLedger.next sampleConfig vanishEvent) ":1.1" := by
  refine vanished_released (.step (.step (.step .start ?_) ?_) ?_) ?_
  · exact List.not_mem_nil
  · refine TimelyForward.mk ?_ ?_ ?_ ?_
    · intro path guestPath hnew
      cases hnew
    · intro path guestPath _ _ _
      exact List.not_mem_nil
    · intro path guestPath _ hreturns
      cases hreturns
    · intro guestPath request hend
      cases hend
  · intro _ throttle cookie hheld
    have hheld : (":1.1", .cookie throttle cookie) ∈ sampleLedger.held := hheld
    rw [sampleLedger_held, List.mem_singleton] at hheld
    cases hheld
  · decide

theorem late_session_kept : ¬ ∀ cfg l, Reachable (Ledger.next cfg) .initial l →
    ∀ name ∈ l.vanished, Answered l.router name → Released l name := by
  intro h
  have hreleased := h sampleConfig (((Ledger.initial.next sampleConfig
    createSessionEvent).next sampleConfig vanishEvent).next sampleConfig sessionReply)
    (.step (.step (.step .start trivial) trivial) trivial) ":1.1" (by decide) ?_
  · refine hreleased.tables.sessions 0 ⟨":1.1",
      "/org/freedesktop/portal/desktop/session/1_1/s1",
      "/org/freedesktop/portal/desktop/session/1_42/s2"⟩ ?_ rfl
    show AList.lookup _ _ = _
    decide
  · intro serial done hpending
    cases hpending

end Spaces.Portal
