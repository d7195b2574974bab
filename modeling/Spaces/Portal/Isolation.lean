import Spaces.Portal.Consistency

/-!
# Callers of the portal are kept apart

The router checks the caller of a `Close`, but the object paths inside an
argument are translated without asking whose they are, and a finished USB
request is dropped without asking whose it was. Callers are isolated in a run
as long as no call names another caller's object, on either side of the
translation, and no answer ends another caller's request.

`Foreign` says what must not leave the router for a caller. The invariant is
that callers share no host path, so that translating the caller's own paths
never produces a foreign one.
-/

namespace Spaces.Portal

open Spaces.Library

variable {cfg : Config} {p : Router} {e : Event}

/-- A live request or session of this owner has this host path. -/
def Router.Owns (p : Router) (owner path : String) : Prop :=
  (∃ address request, p.requests.Live address request ∧ request.owner = owner ∧
    request.hostPath = some path) ∨
  ∃ address session, p.sessions.Live address session ∧ session.owner = owner ∧
    session.hostPath = path

/-- The host path of an object that belongs to another caller. -/
def Foreign (p : Router) (caller path : String) : Prop :=
  ∃ owner, owner ≠ caller ∧ p.Owns owner path

/-- `/` begins every object path, and no name of another kind. -/
def Absolute (text : String) : Prop := text.toList.head? = some '/'

instance (text : String) : Decidable (Absolute text) :=
  inferInstanceAs (Decidable (_ = _))

/-- What an object path of an argument is translated to is the caller's own or
nobody's. -/
def Harmless (p : Router) (caller path : String) : Prop :=
  match p.requests.find? path with
  | some request =>
      match request.hostPath with
      | some _ => request.owner = caller
      | none => ¬ Foreign p caller path
  | none =>
      match p.sessions.find? path with
      | some session => session.owner = caller
      | none => ¬ Foreign p caller path

/-- An argument of a forwarded call names nothing foreign: an option dictionary
is passed on as it is, in other arguments object paths are translated. -/
def HarmlessArgument (p : Router) (caller : String) (argument : ArgInfo)
    (value : Variant) : Prop :=
  if argument.name == "options" && value.isOfType "a\x7bsv\x7d" then
    ∀ text ∈ value.texts, ¬ Foreign p caller text
  else
    (∀ text ∈ value.strings, ¬ Foreign p caller text) ∧
      ∀ path ∈ value.paths, Harmless p caller path

/-- The texts of a call that its handler hands on to the host, when the call is
not forwarded. -/
def GuestCall.handsOn (g : GuestCall) : Route → List String
  | .fileChooser | .realtime | .forward => []
  | .screenshot => g.parameters.flatMap Variant.texts
  | .openFile => g.descriptorPath.toList ++ match g.parameters with
      | [_, _, options] => (options.lookupString "activation_token").toList
      | _ => []
  | .transformed => g.interfaceName :: g.methodName
      :: (g.flatpakAppId.toList ++ g.parameters.flatMap Variant.texts)
  | .dynamic => g.methodName :: g.parameters.flatMap Variant.texts
  | .gameMode => [g.methodName]

/-- A host path that a message hands out for an owner is a path, and nobody
else has it. -/
def NewHostPath (p : Router) (owner : String) (hostPath : Option String) : Prop :=
  ∀ path, hostPath = some path → Absolute path ∧ ¬ Foreign p owner path

/-- The condition on the events of a run. -/
def KeepsApart (cfg : Config) (p : Router) : Event → Prop
  | .portalMethodCall g =>
      if route g.interfaceName g.methodName = .forward then
        ∀ method, cfg.findMethod g.interfaceName g.methodName = some method →
          ∀ a ∈ method.inArgs.zip g.parameters, HarmlessArgument p g.sender a.1 a.2
      else ∀ text ∈ g.handsOn (route g.interfaceName g.methodName),
        ¬ Foreign p g.sender text
  | .simpleBridgeCall _ g => ∀ v ∈ g.parameters, ∀ text ∈ v.texts,
      ¬ Foreign p g.sender text ∧
      (g.interfaceName = notificationsName → g.methodName = "Notify" →
        ¬ Foreign p g.sender (g.hostIcon text) ∧
        ∀ uri, g.resolveHostFileUri text = some uri → ¬ Foreign p g.sender uri)
  | .reply serial values =>
      (∀ call, p.pending.lookup serial = some (.forward call) →
        NewHostPath p call.owner (call.newRequest values) ∧
        NewHostPath p call.owner (call.newSession values) ∧
        ∀ path request, call.finished values = some path →
          p.requests.find? path = some request → request.hostPath ≠ none →
          request.owner = call.owner) ∧
      ∀ sender kind guestPath request,
        p.pending.lookup serial = some (.localRequest sender kind guestPath) →
        p.requests.find? guestPath = some request →
        request.hostPath = none ∧ request.owner = sender
  | .hostPortalSignal path interfaceName signalName parameters =>
      interfaceName = requestInterface → signalName = "Response" →
      ∀ request, p.requests.findAlias? path = some request →
        NewHostPath p request.owner (request.newSession parameters)
  | _ => True

theorem KeepsApart.answersLocal (h : KeepsApart cfg p e) : AnswersLocal p e := by
  cases e with
  | reply serial values =>
      intro sender kind guestPath request hpending hfind
      exact (h.2 sender kind guestPath request hpending hfind).1
  | _ => trivial

/-- The invariant of such a run. -/
structure Separate (p : Router) : Prop where
  wellFormed : WellFormed p
  absolute : ∀ owner path, p.Owns owner path → Absolute path
  disjoint : ∀ owner owner' path, p.Owns owner path → p.Owns owner' path →
    owner = owner'

theorem separate_initial : Separate .initial where
  wellFormed := wellFormed_initial
  absolute := by simp [Router.Owns, Router.initial]
  disjoint := by simp [Router.Owns, Router.initial]

/-! ## Host paths stay with their owners -/

/-- The caller an event may create host objects for. -/
def Event.createsFor (p : Router) : Event → Option String
  | .reply serial _ => (p.pending.lookup serial).map Completion.caller
  | .hostPortalSignal path _ _ _ => (p.requests.findAlias? path).map Request.owner
  | _ => none

theorem NewRequest.hostPath {request : Request} (h : NewRequest p e request)
    (hok : KeepsApart cfg p e) {path : String} (hpath : request.hostPath = some path) :
    Absolute path ∧ ¬ Foreign p request.owner path ∧
      e.createsFor p = some request.owner := by
  cases h with
  | opened _ hlocal => rw [hlocal] at hpath; cases hpath
  | created hpending hnew _ =>
      cases hpath
      obtain ⟨habs, hforeign⟩ := (hok.1 _ hpending).1 _ hnew
      exact ⟨habs, hforeign, by rw [Event.createsFor, hpending]; rfl⟩

theorem NewSession.hostPath {session : Session} (h : NewSession p e session)
    (hok : KeepsApart cfg p e) : Absolute session.hostPath ∧
      ¬ Foreign p session.owner session.hostPath ∧
      e.createsFor p = some session.owner := by
  cases h with
  | replied hpending hnew _ =>
      obtain ⟨habs, hforeign⟩ := (hok.1 _ hpending).2.1 _ hnew
      exact ⟨habs, hforeign, by rw [Event.createsFor, hpending]; rfl⟩
  | responded hfind _ hnew _ =>
      obtain ⟨habs, hforeign⟩ := hok rfl rfl _ hfind _ hnew
      exact ⟨habs, hforeign, by rw [Event.createsFor, hfind]; rfl⟩

/-- A host path after an event was its owner's before it, or the event handed
it out to the caller it acts for. -/
theorem Separate.owns_before (hs : Separate p) (hok : KeepsApart cfg p e)
    {owner path : String} (h : (handle cfg p e).1.Owns owner path) :
    p.Owns owner path ∨ Absolute path ∧ ¬ Foreign p owner path ∧
      e.createsFor p = some owner := by
  have hw := hs.wellFormed
  rcases h with ⟨address, request', hlive, rfl, hpath⟩ | ⟨address, session, hlive, rfl, rfl⟩
  · rcases (handle_requests cfg p e).live hw hlive with
      ⟨request, hbefore, howner, -, hhost⟩ | ⟨-, -, hnew⟩
    · exact .inl (.inl ⟨address, request, hbefore, howner.symm, hhost ▸ hpath⟩)
    · exact .inr (hnew.hostPath hok hpath)
  · rcases (handle_sessions cfg p e).live hw hlive with hbefore | ⟨-, hnew⟩
    · exact .inl (.inr ⟨address, session, hbefore, rfl, rfl⟩)
    · exact .inr (hnew.hostPath hok)

theorem Separate.preserved (hs : Separate p) (hok : KeepsApart cfg p e) :
    Separate (next cfg p e) := by
  unfold next step
  split
  · exact hs
  · refine ⟨hs.wellFormed.handled hok.answersLocal, fun owner path h => ?_,
      fun owner owner' path h h' => ?_⟩
    · rcases hs.owns_before hok h with hbefore | ⟨habs, -⟩
      · exact hs.absolute owner path hbefore
      · exact habs
    · by_contra hne
      rcases hs.owns_before hok h with hold | ⟨-, hforeign, hfor⟩ <;>
        rcases hs.owns_before hok h' with hold' | ⟨-, hforeign', hfor'⟩
      · exact hne (hs.disjoint owner owner' path hold hold')
      · exact hforeign' ⟨owner, hne, hold⟩
      · exact hforeign ⟨owner', Ne.symm hne, hold'⟩
      · rw [hfor, Option.some_inj] at hfor'
        exact hne hfor'

/-! ## No call removes another caller's entries -/

/-- The request an answer ends belongs to the caller the answer is for. -/
theorem Separate.ends_own (hs : Separate p) {serial : Nat}
    {values : Option (List Variant)} (hok : KeepsApart cfg p (.reply serial values))
    {done : Completion} {request : Request}
    (hpending : p.pending.lookup serial = some done) (hfinds : done.Finds p request) :
    request.owner = done.caller := by
  cases done with
  | chooser sender address =>
      exact (hs.wellFormed.chooser_own serial sender address request hpending hfinds).1
  | localRequest sender kind guestPath =>
      exact (hok.2 sender kind guestPath request hpending hfinds).2
  | _ => exact hfinds.elim

theorem NewRequest.caller {request : Request} (h : NewRequest p e request) :
    e.caller p = some request.owner := by
  cases h with
  | opened hsender _ => exact Event.caller_of_sender hsender
  | created hpending _ _ => rw [Event.caller, hpending]; rfl

theorem NewSession.caller {session : Session} (h : NewSession p e session)
    {caller : String} (hcaller : e.caller p = some caller) : session.owner = caller := by
  cases h with
  | replied hpending _ _ =>
      rw [Event.caller, hpending] at hcaller
      exact Option.some.inj hcaller
  | responded _ _ _ _ => cases hcaller

theorem RequestsStep.undisturbed (hs : Separate p) (hok : KeepsApart cfg p e)
    {requests : Arena String Request} (h : RequestsStep p e requests)
    {caller : String} (hcaller : e.caller p = some caller) {address : Nat}
    {request : Request} (hlive : p.requests.Live address request)
    (howner : request.owner ≠ caller) : p.requests.Undisturbed requests address := by
  have hc := hs.wellFormed.requests
  -- an object of the caller has neither the key nor the host path of this one
  have hkey : ∀ {a own}, p.requests.Live a own → own.owner = caller →
      request.guestPath ≠ own.guestPath := by
    intro a own ha hown heq
    obtain rfl := hc.key_unique hlive ha heq
    exact howner (by rw [hlive.inj ha, hown])
  have hhost : ∀ {a own path}, p.requests.Live a own → own.owner = caller →
      own.hostPath = some path → request.hostPath ≠ some path := by
    intro a own path ha hown hpath heq
    refine howner (hs.disjoint _ _ path (.inl ⟨address, request, hlive, rfl, heq⟩) ?_)
    exact .inl ⟨a, own, ha, hown, hpath⟩
  cases h with
  | same => exact .refl _ _
  | inserted hnew hins =>
      have hown := Option.some.inj (hcaller.symm.trans hnew.caller)
      refine hc.undisturbed_insert hins hlive fun path hpath heq => ?_
      obtain ⟨-, hforeign, -⟩ := hnew.hostPath hok hpath
      exact hforeign ⟨request.owner, hown ▸ howner,
        .inl ⟨address, request, hlive, rfl, heq⟩⟩
  | cancelled hfind hown =>
      cases hcaller
      obtain ⟨a, ha, rfl⟩ := hc.find?_eq_some.mp hfind
      exact hc.undisturbed_update hlive (hkey ha hown)
  | finished hpending hend hfind hpath =>
      rw [Event.caller, hpending] at hcaller
      have hown := ((hok.1 _ hpending).2.2 _ _ hend hfind hpath).trans
        (Option.some.inj hcaller)
      obtain ⟨a, ha, rfl⟩ := hc.find?_eq_some.mp hfind
      refine hc.undisturbed_release hlive (hkey ha hown) fun own path hown' hpath' => ?_
      obtain rfl := Option.some.inj (hfind.symm.trans hown')
      exact hhost ha hown hpath'
  | ended hpending hfinds =>
      rw [Event.caller, hpending] at hcaller
      have hown := (hs.ends_own hok hpending hfinds).trans (Option.some.inj hcaller)
      obtain ⟨⟨a, ha⟩, -⟩ := hfinds.live hs.wellFormed hok.answersLocal hpending
      exact hc.undisturbed_eraseKey hlive (hkey ha hown)
  | answered _ => cases hcaller
  | lost _ => cases hcaller

theorem SessionsStep.undisturbed (hs : Separate p) (hok : KeepsApart cfg p e)
    {sessions : Arena String Session} (h : SessionsStep p e sessions)
    {caller : String} (hcaller : e.caller p = some caller) {address : Nat}
    {session : Session} (hlive : p.sessions.Live address session)
    (howner : session.owner ≠ caller) : p.sessions.Undisturbed sessions address := by
  cases h with
  | same => exact .refl _ _
  | inserted hnew hins =>
      have hown := hnew.caller hcaller
      refine hs.wellFormed.sessions.undisturbed_insert hins hlive fun path hpath heq => ?_
      obtain ⟨-, hforeign, -⟩ := hnew.hostPath hok
      rw [aliasKey_session, Option.some_inj] at hpath heq
      exact hforeign ⟨session.owner, hown ▸ howner,
        .inr ⟨address, session, hlive, rfl, heq.trans hpath.symm⟩⟩
  | closed _ => cases hcaller
  | lost _ => cases hcaller

/-! ## No call names another caller's objects -/

/-- A value that names nothing foreign. -/
def Clean (p : Router) (caller : String) (value : Variant) : Prop :=
  ∀ text ∈ value.texts, ¬ Foreign p caller text

theorem Separate.not_foreign_relative (hs : Separate p) {caller text : String}
    (h : ¬ Absolute text) : ¬ Foreign p caller text := by
  intro ⟨owner, _, howns⟩
  exact h (hs.absolute owner text howns)

theorem Separate.not_foreign_own (hs : Separate p) {caller path : String}
    (h : p.Owns caller path) : ¬ Foreign p caller path := by
  intro ⟨owner, hne, howns⟩
  exact hne (hs.disjoint owner caller path howns h)

/-- A harmless object path is translated to the caller's own or nobody's. -/
theorem Separate.not_foreign_hostPathOf (hs : Separate p) {caller path : String}
    (h : Harmless p caller path) : ¬ Foreign p caller (p.hostPathOf path) := by
  have hw := hs.wellFormed
  cases hrequest : p.requests.find? path with
  | some request =>
      obtain ⟨a, ha, -⟩ := hw.requests.find?_eq_some.mp hrequest
      cases hhost : request.hostPath with
      | some host =>
          simp only [Harmless, hrequest, hhost] at h
          simp only [Router.hostPathOf, hrequest, hhost, Option.getD_some]
          exact hs.not_foreign_own (.inl ⟨a, request, ha, h, hhost⟩)
      | none =>
          simp only [Harmless, hrequest, hhost] at h
          simp only [Router.hostPathOf, hrequest, hhost, Option.getD_none]
          exact h
  | none =>
      cases hsession : p.sessions.find? path with
      | some session =>
          obtain ⟨a, ha, -⟩ := hw.sessions.find?_eq_some.mp hsession
          simp only [Harmless, hrequest, hsession] at h
          simp only [Router.hostPathOf, hrequest, hsession]
          exact hs.not_foreign_own (.inr ⟨a, session, ha, h, rfl⟩)
      | none =>
          simp only [Harmless, hrequest, hsession] at h
          simp only [Router.hostPathOf, hrequest, hsession]
          exact h

theorem Separate.clean_translated (hs : Separate p) {caller : String} {value : Variant}
    (hstrings : ∀ text ∈ value.strings, ¬ Foreign p caller text)
    (hpaths : ∀ path ∈ value.paths, Harmless p caller path) :
    Clean p caller (p.translateObjectPaths value true) := by
  intro text htext
  rcases Variant.mem_texts_mapPaths.mp htext with h | ⟨path, hpath, rfl⟩
  · exact hstrings text h
  · exact hs.not_foreign_hostPathOf (hpaths path hpath)

theorem clean_str {caller text : String} (h : ¬ Foreign p caller text) :
    Clean p caller (.str text) := by
  simpa [Clean, Variant.texts, Variant.strings, Variant.paths] using h

theorem clean_basic {caller : String} {code : Char} {value : Int} :
    Clean p caller (.basic code value) := by
  simp [Clean, Variant.texts, Variant.strings, Variant.paths]

theorem clean_dictInsert {caller key : String} {value : Variant}
    {entries : List (String × Variant)} (hkey : ¬ Foreign p caller key)
    (hvalue : Clean p caller value) (h : Clean p caller (Variant.vardict entries)) :
    Clean p caller (Variant.vardict (Variant.dictInsert key value entries)) := by
  intro text htext
  obtain ⟨entry, hentry, hin⟩ := Variant.mem_texts_vardict.mp htext
  rcases Variant.mem_dictInsert hentry with hold | rfl
  · exact h text (Variant.mem_texts_vardict.mpr ⟨entry, hold, hin⟩)
  · rcases hin with rfl | hin
    · exact hkey
    · exact hvalue text hin

theorem clean_dictInit {caller : String} {value : Variant} (h : Clean p caller value) :
    Clean p caller (Variant.vardict value.dictInit) := by
  intro text htext
  obtain ⟨entry, hentry, hin⟩ := Variant.mem_texts_vardict.mp htext
  exact h text (Variant.texts_of_mem_entries (Variant.mem_dictInit hentry) hin)

theorem Token.not_absolute (token : Token) : ¬ Absolute token.text := by
  intro h
  have hvalid := token.valid
  simp only [validToken, Bool.and_eq_true, List.all_eq_true] at hvalid
  have hslash := hvalid.2 '/' (List.mem_of_head? h)
  exact absurd hslash (by decide)

/-! A forwarded call: its options are rewritten and its other arguments are
translated. The launcher and background rewrites never meet a forwarded call,
because those interfaces are routed elsewhere. -/

/-- The interfaces whose arguments `prepareParameter` rewrites specially. -/
structure Plain (call : ForwardCall) : Prop where
  launcher : (call.interfaceName == desktopInterfacePrefix ++ "DynamicLauncher") = false
  background : (call.interfaceName == desktopInterfacePrefix ++ "Background"
    && call.methodName == "RequestBackground") = false

theorem route_launcher (methodName : String) :
    route (desktopInterfacePrefix ++ "DynamicLauncher") methodName
      = if methodName == "PrepareInstall" then .transformed else .dynamic := rfl

theorem plain_of_route {call : ForwardCall}
    (h : route call.interfaceName call.methodName = .forward) : Plain call := by
  constructor
  · by_contra hlauncher
    simp only [Bool.not_eq_false, beq_iff_eq] at hlauncher
    rw [hlauncher, route_launcher] at h
    split at h <;> cases h
  · by_contra hbackground
    simp only [Bool.not_eq_false, Bool.and_eq_true, beq_iff_eq] at hbackground
    rw [hbackground.1, hbackground.2] at h
    exact absurd h (by decide)

theorem Separate.clean_rewriteOptions (hs : Separate p) (cfg : Config) {call : ForwardCall}
    (hplain : Plain call) (tokens : Tokens) {options : Variant}
    (h : Clean p call.owner options) :
    Clean p call.owner (rewriteOptions cfg call tokens options).2 := by
  have hinsert : ∀ key (token : Token) entries, ¬ Absolute key →
      Clean p call.owner (Variant.vardict entries) → Clean p call.owner
        (Variant.vardict (Variant.dictInsert key (.str token.text) entries)) := by
    intro key token entries hkey hentries
    exact clean_dictInsert (hs.not_foreign_relative hkey)
      (clean_str (hs.not_foreign_relative token.not_absolute)) hentries
  unfold rewriteOptions
  extract_lets guestToken callReq given sessionToken
    callSes dict dictReq dictSes dictAll
  have hsame : call.SameCall callSes :=
    rewriteOptions_sameCall cfg tokens call options
  have hdictReq : Clean p call.owner (Variant.vardict dictReq) := by
    simp only [dictReq]
    split
    · exact hinsert _ _ _ (by decide) (clean_dictInit h)
    · exact clean_dictInit h
  have hdictSes : Clean p call.owner (Variant.vardict dictSes) := by
    simp only [dictSes]
    split
    · exact hinsert _ _ _ (by decide) hdictReq
    · exact hdictReq
  show Clean p call.owner (Variant.vardict dictAll)
  simp only [dictAll]
  rw [hsame.2.1, hsame.2.2, hplain.background]
  exact hdictSes

theorem Separate.clean_prepareParameter (hs : Separate p) {call : ForwardCall}
    (hplain : Plain call) (tokens : Tokens) {argument : ArgInfo} {child : Variant}
    (h : HarmlessArgument p call.owner argument child) :
    Clean p call.owner (prepareParameter cfg p tokens call argument child).2 := by
  unfold HarmlessArgument at h
  unfold prepareParameter
  extract_lets launcher
  split
  next prepared mapped heq =>
  simp only [launcher, hplain.launcher, Bool.false_and, Bool.false_eq_true, if_false] at heq
  show Clean p call.owner mapped
  split at heq
  · next hoptions =>
      rw [if_pos hoptions] at h
      have hclean := hs.clean_rewriteOptions cfg hplain tokens h
      rwa [heq] at hclean
  · next hoptions =>
      rw [if_neg hoptions] at h
      cases heq
      exact hs.clean_translated h.1 h.2

theorem Separate.clean_prepareParameters (hs : Separate p) (tokens : Tokens) :
    ∀ (arguments : List (ArgInfo × Variant)) (call : ForwardCall), Plain call →
      (∀ a ∈ arguments, HarmlessArgument p call.owner a.1 a.2) →
      ∀ v ∈ (prepareParameters cfg p tokens call arguments).2, Clean p call.owner v := by
  intro arguments
  induction arguments with
  | nil =>
      intro call _ _ v hv
      cases hv
  | cons head rest ih =>
      intro call hplain hall v hv
      obtain ⟨howner, hinterface, hmethod⟩ :=
        prepareParameter_sameCall cfg p tokens call head.1 head.2
      rw [prepareParameters] at hv
      rcases List.mem_cons.mp hv with rfl | hv
      · exact hs.clean_prepareParameter hplain tokens (hall head List.mem_cons_self)
      · have hplain' : Plain (prepareParameter cfg p tokens call head.1 head.2).1 :=
          ⟨hinterface ▸ hplain.launcher, hinterface ▸ hmethod ▸ hplain.background⟩
        rw [← howner]
        refine ih _ hplain' (fun a ha => ?_) v hv
        rw [howner]
        exact hall a (List.mem_cons_of_mem _ ha)

/-! Every output of an event: a call made for a caller names nothing foreign. -/

/-- The outputs of a handler carry nothing foreign for the caller they act for. -/
def CarriesClean (p : Router) (outputs : List Output) : Prop :=
  ∀ call caller, Output.hostCall call ∈ outputs → call.caller = some caller →
    ∀ v ∈ call.parameters, Clean p caller v

theorem carriesClean_refused (g : GuestCall) (message : String) :
    CarriesClean p (returnError g message) := by
  intro call caller hmem
  simp [returnError] at hmem

theorem carriesClean_callHost {caller : String} {call : HostCall}
    (hcaller : call.caller = some caller) (h : ∀ v ∈ call.parameters, Clean p caller v)
    (q : Router) (done : Completion) : CarriesClean p (q.callHost call done).2 := by
  intro call' caller' hmem hcaller' v hv
  simp only [Router.callHost, List.mem_singleton, Output.hostCall.injEq] at hmem
  rw [hmem] at hcaller' hv
  obtain rfl := Option.some.inj (hcaller.symm.trans hcaller')
  exact h v hv

theorem carriesClean_startLocalRequest (g : GuestCall) {options : Variant}
    {flatpakAppId : Option String} {kind : LocalKind} {ask : HostCall}
    (hcaller : ask.caller = some g.sender)
    (h : ∀ v ∈ ask.parameters, Clean p g.sender v) :
    CarriesClean p (startLocalRequest p g options flatpakAppId kind ask).2 := by
  unfold startLocalRequest
  extract_lets token request
  split
  · exact carriesClean_refused g _
  · next requests _ =>
      have hasked := carriesClean_callHost (p := p) hcaller h
        { p with requests := requests } (.localRequest g.sender kind request.guestPath)
      split
      next q sent heq =>
      rw [heq] at hasked
      intro call caller hmem
      simp only [List.mem_append, List.mem_singleton, reduceCtorEq, or_false] at hmem
      exact hasked call caller hmem

theorem clean_tuple {caller : String} {values : List Variant}
    (h : ∀ v ∈ values, Clean p caller v) : Clean p caller (.variant (.tuple values)) := by
  intro text htext
  obtain ⟨v, hv, hin⟩ := Variant.mem_texts_tuple.mp htext
  exact h v hv text hin

/-! The calls that are not forwarded. They hand on what their route takes from
the call and texts of the router's own, which are not paths. -/

/-- What the handler of a route hands on names nothing foreign. -/
def HandsOnNothing (p : Router) (g : GuestCall) (r : Route) : Prop :=
  ∀ text ∈ g.handsOn r, ¬ Foreign p g.sender text

theorem carriesClean_screenshot {g : GuestCall} (h : HandsOnNothing p g .screenshot) :
    CarriesClean p (screenshotCall cfg p g).2 := by
  unfold screenshotCall
  split
  · exact carriesClean_refused g _
  · next parent options _ hparameters =>
      refine carriesClean_startLocalRequest g rfl fun v hv text htext => ?_
      refine h text (List.mem_flatMap.mpr ⟨v, ?_, htext⟩)
      rw [hparameters]
      exact hv
  · intro call caller hmem
    cases hmem

theorem carriesClean_openFile {g : GuestCall} (h : HandsOnNothing p g .openFile)
    (hs : Separate p) : CarriesClean p (openFileCall cfg p g).2 := by
  unfold openFileCall
  split
  · exact carriesClean_refused g _
  · next parent _ options _ hparameters =>
      split
      · exact carriesClean_refused g _
      · next guestPath hpath =>
          split
          · exact carriesClean_refused g _
          · extract_lets activation writable
            have hguest : Clean p g.sender (.str guestPath) :=
              clean_str (h _ (by simp [GuestCall.handsOn, hpath]))
            have hactivation : Clean p g.sender (.str activation) := by
              refine clean_str ?_
              simp only [activation]
              cases htoken : options.lookupString "activation_token" with
              | none => exact hs.not_foreign_relative (by decide)
              | some token => exact h _ (by simp [GuestCall.handsOn, hparameters, htoken])
            have hwritable : ∀ v ∈ writable, Clean p g.sender v := by
              simp only [writable]
              split
              · simpa using clean_basic
              · simpa [Variant.bool] using clean_basic
            split
            · refine carriesClean_startLocalRequest g rfl fun v hv => ?_
              simp only [brokerCall, List.mem_append, List.mem_cons, List.not_mem_nil,
                or_false] at hv
              rcases hv with ((rfl | rfl) | hv) | rfl
              · exact hguest
              · exact clean_basic
              · split at hv
                · exact hwritable v hv
                · cases hv
              · exact hactivation
            · exact carriesClean_refused g _
  · intro call caller hmem
    cases hmem

theorem carriesClean_transformed {g : GuestCall} (h : HandsOnNothing p g .transformed)
    (hs : Separate p) : CarriesClean p (transformedRequestCall cfg p g).2 := by
  unfold transformedRequestCall
  split
  · exact carriesClean_refused g _
  · split
    · intro call caller hmem
      cases hmem
    · extract_lets appId
      have happ : Clean p g.sender (.str appId) := by
        refine clean_str ?_
        simp only [appId]
        split
        · cases hid : g.flatpakAppId with
          | none => exact hs.not_foreign_relative (by decide)
          | some id => exact h _ (by simp [GuestCall.handsOn, hid])
        · exact hs.not_foreign_relative (by decide)
      refine carriesClean_startLocalRequest g rfl fun v hv => ?_
      simp only [brokerCall, List.mem_cons, List.not_mem_nil, or_false] at hv
      rcases hv with rfl | rfl | rfl | rfl
      · exact clean_str (h _ (by simp [GuestCall.handsOn]))
      · exact clean_str (h _ (by simp [GuestCall.handsOn]))
      · exact happ
      · refine clean_tuple fun v hv text htext => h text ?_
        simp only [GuestCall.handsOn, List.mem_cons, List.mem_append, List.mem_flatMap]
        exact .inr (.inr (.inr ⟨v, hv, htext⟩))

theorem carriesClean_dynamic {g : GuestCall} (h : HandsOnNothing p g .dynamic) :
    CarriesClean p (dynamicCall cfg p g).2 := by
  unfold dynamicCall
  split
  · exact carriesClean_refused g _
  · refine carriesClean_callHost rfl (fun v hv => ?_) p _
    simp only [brokerCall, List.mem_cons, List.not_mem_nil, or_false] at hv
    rcases hv with rfl | rfl
    · exact clean_str (h _ (by simp [GuestCall.handsOn]))
    · refine clean_tuple fun v hv text htext => h text ?_
      simp only [GuestCall.handsOn, List.mem_cons, List.mem_flatMap]
      exact .inr ⟨v, hv, htext⟩

theorem carriesClean_gameMode {g : GuestCall} (h : HandsOnNothing p g .gameMode)
    (hs : Separate p) : CarriesClean p (gameModeCall cfg p g).2 := by
  unfold gameModeCall
  split
  · exact carriesClean_refused g _
  · extract_lets hostMethod
    split
    · next hostMethod' target requester hmethod _ =>
        have hclean : Clean p g.sender (.str hostMethod') := by
          simp only [hostMethod] at hmethod
          split at hmethod
          · cases hmethod
            exact clean_str (h _ (by simp [GuestCall.handsOn]))
          · obtain ⟨m, hfind, rfl⟩ := Option.map_eq_some_iff.mp hmethod
            refine clean_str (hs.not_foreign_relative ?_)
            have hall : ∀ m ∈ gameModeMethods, ¬ Absolute m.2 := by decide
            exact hall m (List.mem_of_find?_eq_some hfind)
        refine carriesClean_callHost rfl (fun v hv => ?_) p _
        simp only [brokerCall, List.mem_cons, List.not_mem_nil, or_false] at hv
        rcases hv with rfl | rfl | rfl
        · exact hclean
        · exact clean_basic
        · exact clean_basic
    · exact carriesClean_refused g _

theorem carriesClean_realtime (g : GuestCall) :
    CarriesClean p (realtimeCall cfg p g).2 := by
  unfold realtimeCall
  split
  · exact carriesClean_refused g _
  · extract_lets limit high
    split
    · exact carriesClean_refused g _
    · split
      · exact carriesClean_refused g _
      · split
        · exact carriesClean_refused g _
        · refine carriesClean_callHost rfl (fun v hv => ?_) p _
          simp only [brokerCall, List.mem_cons, List.not_mem_nil, or_false] at hv
          rcases hv with rfl | rfl | rfl | rfl <;> exact clean_basic
  · intro call caller hmem
    cases hmem

theorem carriesClean_fileChooser (g : GuestCall) :
    CarriesClean p (fileChooserCall cfg p g).2 := by
  unfold fileChooserCall
  split
  · exact carriesClean_refused g _
  · split
    · exact carriesClean_refused g _
    · extract_lets token request
      split
      · exact carriesClean_refused g _
      · intro call caller hmem
        simp at hmem
  · intro call caller hmem
    cases hmem

theorem Separate.carriesClean_portalMethodCall (hs : Separate p) (g : GuestCall)
    (hok : KeepsApart cfg p (.portalMethodCall g)) :
    CarriesClean p (portalMethodCall cfg p g).2 := by
  unfold portalMethodCall
  simp only [KeepsApart] at hok
  split
  · exact carriesClean_refused g _
  · next method hmethod =>
      split at hok
      · next hroute =>
          rw [hroute]
          refine carriesClean_callHost rfl ?_ p _
          exact hs.clean_prepareParameters g.tokens _ _ (plain_of_route hroute)
            (hok method hmethod)
      · next hroute =>
          split
          · exact carriesClean_fileChooser g
          · next hr => exact carriesClean_screenshot (hr ▸ hok)
          · next hr => exact carriesClean_openFile (hr ▸ hok) hs
          · next hr => exact carriesClean_transformed (hr ▸ hok) hs
          · next hr => exact carriesClean_dynamic (hr ▸ hok)
          · next hr => exact carriesClean_gameMode (hr ▸ hok) hs
          · exact carriesClean_realtime g
          · next hforward => exact absurd hforward hroute

/-! The screen-saver, notification and power bridges. -/

theorem Separate.not_foreign_application (hs : Separate p) {caller application : String}
    (h : ¬ Foreign p caller application) :
    ¬ Foreign p caller (screenSaverApplication cfg application) := by
  unfold screenSaverApplication
  split
  · extract_lets basename stem
    split
    · exact h
    · refine hs.not_foreign_relative ?_
      simp [Absolute, String.toList_append]
  · exact h

theorem Separate.carriesClean_screenSaver (hs : Separate p) {g : GuestCall}
    (h : ∀ v ∈ g.parameters, Clean p g.sender v) :
    CarriesClean p (screenSaverCall cfg p g).2 := by
  unfold screenSaverCall
  split
  · exact carriesClean_refused g _
  · extract_lets ask
    split
    · split
      · next application reason hparameters =>
          rw [hparameters] at h
          have happlication := h (.str application) (by simp)
          refine carriesClean_callHost rfl (fun v hv => ?_) p _
          simp only [ask, List.mem_cons, List.not_mem_nil, or_false] at hv
          rcases hv with rfl | rfl
          · refine clean_str (hs.not_foreign_application ?_)
            exact happlication application (by simp [Variant.texts, Variant.strings])
          · exact h (.str reason) (by simp)
      · intro call caller hmem
        cases hmem
    · split
      · split
        · extract_lets key
          split
          · exact carriesClean_refused g _
          · split
            · exact carriesClean_refused g _
            · exact carriesClean_callHost rfl h p _
        · intro call caller hmem
          cases hmem
      · split
        · exact carriesClean_refused g _
        · exact carriesClean_callHost rfl h p _

theorem clean_mapUrl {g : GuestCall} {url v : Variant} (h : Clean p g.sender url)
    (hhost : ∀ text ∈ url.texts, ∀ uri, g.resolveHostFileUri text = some uri →
      ¬ Foreign p g.sender uri) (hmap : mapUrl g url = some v) : Clean p g.sender v := by
  unfold mapUrl at hmap
  split at hmap
  · next uri =>
      split at hmap
      · obtain ⟨resolved, hresolved, rfl⟩ := Option.map_eq_some_iff.mp hmap
        refine clean_str (hhost uri ?_ resolved hresolved)
        simp [Variant.texts, Variant.strings]
      · cases hmap
        exact h
  · cases hmap
    exact h

/-- A staged notification names what its parts name, where the icons and files
are found on the host, and nothing else. -/
theorem Separate.clean_notification (hs : Separate p) {g : GuestCall}
    (h : ∀ v ∈ g.parameters, Clean p g.sender v)
    (hhost : ∀ v ∈ g.parameters, ∀ text ∈ v.texts,
      ¬ Foreign p g.sender (g.hostIcon text) ∧
      ∀ uri, g.resolveHostFileUri text = some uri → ¬ Foreign p g.sender uri) :
    ∀ v ∈ rewriteNotificationPaths g, Clean p g.sender v := by
  unfold rewriteNotificationPaths
  split
  · next appName replaces appIcon summary body actions hints timeout hparameters =>
      rw [hparameters] at h hhost
      have hhints : Clean p g.sender hints := h hints (by simp)
      have hstage : ∀ key dict, ¬ Absolute key → Clean p g.sender (Variant.vardict dict) →
          Clean p g.sender (Variant.vardict (match hints.lookupString key with
            | some icon => Variant.dictInsert key (.str (g.hostIcon icon)) dict
            | none => dict)) := by
        intro key dict hkey hdict
        split
        · next icon hicon =>
            refine clean_dictInsert (hs.not_foreign_relative hkey) (clean_str ?_) hdict
            exact (hhost hints (by simp) icon (Variant.mem_texts_of_lookupString hicon)).1
        · exact hdict
      extract_lets stage dict staged
      have hdict : Clean p g.sender (Variant.vardict dict) :=
        hstage _ _ (by decide) (hstage _ _ (by decide) (clean_dictInit hhints))
      have hstaged : Clean p g.sender (Variant.vardict staged) := by
        simp only [staged]
        split
        · next urls hurls =>
            refine clean_dictInsert (hs.not_foreign_relative (by decide)) ?_ hdict
            intro text htext
            obtain ⟨v, hv, hin⟩ := Variant.mem_texts_array.mp htext
            obtain ⟨url, hurl, hmap⟩ := List.mem_filterMap.mp hv
            have hknown : ∀ t ∈ url.texts, t ∈ hints.texts := fun t ht =>
              Variant.mem_texts_of_lookupValue hurls
                (Variant.mem_texts_array.mpr ⟨url, hurl, ht⟩)
            exact clean_mapUrl (fun t ht => hhints t (hknown t ht))
              (fun t ht => (hhost hints (by simp) t (hknown t ht)).2) hmap text hin
        · exact hdict
      intro v hv
      simp only [List.mem_cons, List.not_mem_nil, or_false] at hv
      rcases hv with rfl | rfl | rfl | rfl | rfl | rfl | rfl | rfl
      · exact h _ (by simp)
      · exact h _ (by simp)
      · refine clean_str (hhost (.str appIcon) (by simp) appIcon ?_).1
        simp [Variant.texts, Variant.strings]
      · exact h _ (by simp)
      · exact h _ (by simp)
      · exact h _ (by simp)
      · exact hstaged
      · exact h _ (by simp)
  · exact h

theorem Separate.carriesClean_simpleBridge (hs : Separate p) (objectPath : String)
    (g : GuestCall) (hok : KeepsApart cfg p (.simpleBridgeCall objectPath g)) :
    CarriesClean p (simpleBridgeCall cfg p objectPath g).2 := by
  have h : ∀ v ∈ g.parameters, Clean p g.sender v :=
    fun v hv text htext => (hok v hv text htext).1
  unfold simpleBridgeCall
  extract_lets relayTo
  have hrelay : ∀ hostPath parameters, (∀ v ∈ parameters, Clean p g.sender v) →
      CarriesClean p (relayTo hostPath parameters).2 := by
    intro hostPath parameters hparameters
    simp only [relayTo]
    split
    · exact carriesClean_refused g _
    · exact carriesClean_callHost rfl hparameters p _
  split
  · exact hs.carriesClean_screenSaver h
  · split
    · next hname =>
        refine hrelay _ _ ?_
        split
        · next hmethod =>
            rw [beq_iff_eq] at hname hmethod
            exact hs.clean_notification h fun v hv text htext =>
              (hok v hv text htext).2 hname hmethod
        · exact h
    · split
      · split
        · exact hrelay _ _ h
        · exact carriesClean_refused g _
      · exact hrelay _ _ h

/-! What the router calls on its own account, it calls for no caller. -/

theorem carriesClean_close (path : Option String) (interfaceName : String) :
    CarriesClean p (closeHostObject none path interfaceName) := by
  intro call caller hmem hcaller
  unfold closeHostObject at hmem
  split at hmem
  · cases hmem
  · simp only [List.mem_singleton, Output.hostCall.injEq] at hmem
    rw [hmem] at hcaller
    cases hcaller

theorem CarriesClean.append {outputs outputs' : List Output} (h : CarriesClean p outputs)
    (h' : CarriesClean p outputs') : CarriesClean p (outputs ++ outputs') := by
  intro call caller hmem
  exact (List.mem_append.mp hmem).elim (h call caller) (h' call caller)

theorem CarriesClean.flatMap {α : Type} {items : List α} {f : α → List Output}
    (h : ∀ item, CarriesClean p (f item)) : CarriesClean p (items.flatMap f) := by
  intro call caller hmem
  obtain ⟨item, _, hin⟩ := List.mem_flatMap.mp hmem
  exact h item call caller hin

/-- Outputs without a call to the host. -/
theorem carriesClean_quiet {outputs : List Output}
    (h : ∀ call, Output.hostCall call ∉ outputs) : CarriesClean p outputs :=
  fun call _ hmem => absurd hmem (h call)

theorem carriesClean_lifecycle (sender objectPath interfaceName methodName : String) :
    CarriesClean p (lifecycleCall p sender objectPath interfaceName methodName).2 := by
  have hclose : ∀ path interface, CarriesClean p
      (closeHostObject (some sender) path interface ++ [.returnValue sender []]) := by
    intro path interface
    refine .append (fun call caller hmem _ v hv => ?_) (carriesClean_quiet (by simp))
    unfold closeHostObject at hmem
    split at hmem
    · cases hmem
    · simp only [List.mem_singleton, Output.hostCall.injEq] at hmem
      rw [hmem] at hv
      cases hv
  unfold lifecycleCall
  extract_lets denied
  have hdenied : CarriesClean p denied.2 := carriesClean_quiet (by simp [denied])
  split
  · exact carriesClean_quiet (by simp)
  · split
    · split
      · exact hdenied
      · split
        · exact hdenied
        · split
          · exact carriesClean_quiet (by simp)
          · exact hclose _ _
    · split
      · exact hdenied
      · split
        · exact hdenied
        · exact hclose _ _

theorem carriesClean_forwardDone (call : ForwardCall) (reply : Option (List Variant)) :
    ∀ q : Router, CarriesClean p (forwardDone q call reply).2 := by
  have hclosed : ∀ path interface message,
      CarriesClean p (closeHostObject none path interface
        ++ [.returnError call.owner message]) := fun path interface message =>
    (carriesClean_close path interface).append (carriesClean_quiet (by simp))
  intro q
  unfold forwardDone
  split
  · exact carriesClean_quiet (by simp)
  · split
    · split
      · split
        · exact hclosed _ _ _
        · exact carriesClean_quiet (by simp)
      · exact carriesClean_quiet (by simp)
    · split
      · split
        · split
          · exact hclosed _ _ _
          · exact carriesClean_quiet (by simp)
        · exact carriesClean_quiet (by simp)
      · -- only the caller hears of a session named in the results
        split
        · split
          · split
            · exact carriesClean_quiet (by simp [sessionFailure])
            · split
              · exact carriesClean_quiet (by simp [sessionFailure])
              · exact carriesClean_quiet (by simp)
          · exact carriesClean_quiet (by simp)
        · exact carriesClean_quiet (by simp)

theorem carriesClean_finishLocal (q : Router) (request : Request)
    (response results : Variant) :
    CarriesClean p (finishLocal q request response results).2 := by
  refine carriesClean_quiet fun call => ?_
  unfold finishLocal
  split <;> simp

theorem carriesClean_complete (serial : Nat) (values : Option (List Variant)) :
    CarriesClean p (complete p serial values).2 := by
  unfold complete
  split
  · exact carriesClean_quiet (by simp)
  · next done _ =>
      cases done with
      | forward call => exact carriesClean_forwardDone call values _
      | chooser sender address =>
          simp only [chooserDone]
          split
          · exact carriesClean_quiet (by simp)
          · split <;> exact carriesClean_finishLocal _ _ _ _
      | localRequest sender kind guestPath =>
          simp only [localRequestDone]
          split
          · exact carriesClean_quiet (by simp)
          · exact carriesClean_finishLocal _ _ _ _
      | screen call =>
          refine carriesClean_quiet fun call' => ?_
          simp only [screenCallDone]
          split
          · simp
          · split
            · split <;> simp
            · split <;> simp
      | relay caller =>
          refine carriesClean_quiet fun call' => ?_
          simp only [relayDone]
          split <;> simp

theorem carriesClean_signal (objectPath interfaceName signalName : String)
    (parameters : List Variant) :
    CarriesClean p
      (hostPortalSignal p objectPath interfaceName signalName parameters).2 := by
  have hrequest : ∀ request call, Output.hostCall call ∉
      (hostRequestSignal p request interfaceName signalName parameters).2 := by
    intro request call
    unfold hostRequestSignal
    extract_lets isResponse
    split
    · simp
    · split
      simp
  refine carriesClean_quiet fun call => ?_
  unfold hostPortalSignal
  extract_lets translated
  split
  · next request _ =>
      split
      next q sent heq =>
      have hsent := hrequest request call
      rw [heq] at hsent
      split
      · split <;> exact hsent
      · exact hsent
  · simp
  · split <;> simp

theorem carriesClean_vanished (name : String) :
    CarriesClean p (guestNameVanished p name).2 := by
  refine .append (.append (.flatMap fun _ => carriesClean_close _ _)
    (.flatMap fun _ => carriesClean_close _ _)) (.flatMap fun inhibitor => ?_)
  intro call caller hmem hcaller
  unfold releaseInhibitor at hmem
  split at hmem
  · cases hmem
  · simp only [List.mem_singleton, Output.hostCall.injEq] at hmem
    rw [hmem] at hcaller
    cases hcaller

/-! ## Isolated runs -/

/-- What one event must not do to other callers: a call it makes for a caller
names none of their host objects, and it disturbs none of their entries. -/
structure Isolated (cfg : Config) (p : Router) (e : Event) : Prop where
  carries : ∀ call caller, Output.hostCall call ∈ (step cfg p e).2 →
    call.caller = some caller → ∀ v ∈ call.parameters, ∀ text ∈ v.texts,
    ¬ Foreign p caller text
  requests : ∀ caller address request, e.caller p = some caller →
    p.requests.Live address request → request.owner ≠ caller →
    p.requests.Undisturbed (next cfg p e).requests address
  sessions : ∀ caller address session, e.caller p = some caller →
    p.sessions.Live address session → session.owner ≠ caller →
    p.sessions.Undisturbed (next cfg p e).sessions address

theorem Separate.carriesClean (hs : Separate p) (hok : KeepsApart cfg p e) :
    CarriesClean p (handle cfg p e).2 := by
  cases e with
  | portalMethodCall g => exact hs.carriesClean_portalMethodCall g hok
  | simpleBridgeCall path g => exact hs.carriesClean_simpleBridge path g hok
  | lifecycleCall sender path interface method =>
      exact carriesClean_lifecycle sender path interface method
  | reply serial values => exact carriesClean_complete serial values
  | hostPortalSignal path interface signal parameters =>
      exact carriesClean_signal path interface signal parameters
  | guestNameChanged name oldOwner newOwner =>
      simp only [handle, guestNameChanged]
      split
      · exact carriesClean_quiet (by simp)
      · exact carriesClean_vanished name
  | screenSaverAppeared hostPath => exact carriesClean_quiet (by simp [handle])
  | screenSaverVanished => exact carriesClean_quiet (by simp [handle])

theorem Separate.isolated (hs : Separate p) (hok : KeepsApart cfg p e) :
    Isolated cfg p e := by
  cases hcrashed : p.crashed with
  | true =>
      have hstep : step cfg p e = (p, []) := by rw [step, hcrashed, if_pos rfl]
      refine ⟨?_, ?_, ?_⟩
      · rw [hstep]
        exact carriesClean_quiet (by simp)
      · intro caller address request _ _ _
        rw [next, hstep]
        exact .refl _ _
      · intro caller address session _ _ _
        rw [next, hstep]
        exact .refl _ _
  | false =>
      have hstep : step cfg p e = handle cfg p e := by
        rw [step, hcrashed, if_neg Bool.false_ne_true]
      refine ⟨?_, ?_, ?_⟩
      · rw [hstep]
        exact hs.carriesClean hok
      · intro caller address request hcaller hlive howner
        rw [next, hstep]
        exact (handle_requests cfg p e).undisturbed hs hok hcaller hlive howner
      · intro caller address session hcaller hlive howner
        rw [next, hstep]
        exact (handle_sessions cfg p e).undisturbed hs hok hcaller hlive howner

theorem callers_isolated (h : Guarded (next cfg) (KeepsApart cfg) .initial p)
    (hok : KeepsApart cfg p e) : Isolated cfg p e :=
  h.each separate_initial (fun _ _ hs hok => hs.preserved hok)
    (fun _ _ hs hok => hs.isolated hok) hok

/-! ## A call that names another caller's session -/

/-- The session `:1.1` has after its call was answered. -/
def sampleRouter : Router :=
  next sampleConfig (next sampleConfig .initial createSessionEvent) sessionReply

def selectSourcesEvent (sender : String) : Event := .portalMethodCall
  { sender
    interfaceName := "org.freedesktop.portal.ScreenCast"
    methodName := "SelectSources"
    parameters := [.objectPath "/org/freedesktop/portal/desktop/session/1_1/s1",
      Variant.vardict []]
    tokens := sampleTokens }

theorem sampleRouter_session :
    sampleRouter.sessions.Live 0 ⟨":1.1", "/org/freedesktop/portal/desktop/session/1_1/s1",
      "/org/freedesktop/portal/desktop/session/1_42/s2"⟩ := by
  show AList.lookup _ _ = _
  decide

/-- With empty tables nothing is foreign. -/
theorem not_foreign_of_empty (hrequests : p.requests = .empty)
    (hsessions : p.sessions = .empty) (caller path : String) :
    ¬ Foreign p caller path := by
  simp [Foreign, Router.Owns, hrequests, hsessions]

theorem harmlessArgument_of_empty (hrequests : p.requests = .empty)
    (hsessions : p.sessions = .empty) (caller : String) (argument : ArgInfo)
    (value : Variant) : HarmlessArgument p caller argument value := by
  have hforeign := not_foreign_of_empty hrequests hsessions caller
  unfold HarmlessArgument
  split
  · exact fun text _ => hforeign text
  · refine ⟨fun text _ => hforeign text, fun path _ => ?_⟩
    unfold Harmless
    rw [hrequests, hsessions]
    exact hforeign path

theorem callers_isolated_own_session :
    Isolated sampleConfig sampleRouter (selectSourcesEvent ":1.1") := by
  have hforeign := not_foreign_of_empty
    (p := next sampleConfig .initial createSessionEvent) rfl rfl
  refine callers_isolated
    (.step (.step .start ?_) ⟨fun call hcall => ⟨?_, ?_, ?_⟩, ?_⟩) ?_
  · exact fun method _ a _ => harmlessArgument_of_empty rfl rfl _ _ _
  · cases hcall
    intro path hpath
    cases hpath
  · cases hcall
    intro path hpath
    cases hpath
    exact ⟨by decide, hforeign _ _⟩
  · cases hcall
    intro path request hend
    cases hend
  · intro sender kind guestPath request hpending
    cases hpending
  · intro method hmethod a ha
    cases hmethod
    simp only [List.zip_cons_cons, List.zip_nil_left, List.mem_cons,
      List.not_mem_nil, or_false] at ha
    rcases ha with rfl | rfl
    · refine ⟨fun text htext => ?_, fun path hpath => ?_⟩
      · simp [Variant.strings] at htext
      · simp only [Variant.paths, List.mem_singleton] at hpath
        rw [hpath]
        show ":1.1" = ":1.1"
        rfl
    · intro text htext
      simp [Variant.texts, Variant.strings, Variant.paths, Variant.vardict,
        Variant.stringsList, Variant.pathsList] at htext

theorem other_session_forwarded :
    ¬ ∀ cfg p e, Reachable (next cfg) .initial p → Isolated cfg p e := by
  intro h
  have hisolated := h sampleConfig sampleRouter (selectSourcesEvent ":1.2")
    (.step (.step .start trivial) trivial)
  have hforeign : Foreign sampleRouter ":1.2"
      "/org/freedesktop/portal/desktop/session/1_42/s2" :=
    ⟨":1.1", by decide, .inr ⟨0, _, sampleRouter_session, rfl, rfl⟩⟩
  have hcall : Output.hostCall ⟨some ":1.2", portalName, portalPath,
      "org.freedesktop.portal.ScreenCast", "SelectSources",
      [.objectPath "/org/freedesktop/portal/desktop/session/1_42/s2",
        Variant.vardict [("handle_token", .str "h2")]]⟩ ∈
      (step sampleConfig sampleRouter (selectSourcesEvent ":1.2")).2 :=
    List.mem_singleton.mpr rfl
  refine hisolated.carries _ ":1.2" hcall rfl _ List.mem_cons_self _ ?_ hforeign
  simp [Variant.texts, Variant.strings, Variant.paths]

end Spaces.Portal
