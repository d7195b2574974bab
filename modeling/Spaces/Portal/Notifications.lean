import Spaces.Library.Runs
import Spaces.Portal.Replies

/-!
# Whose notifications the guests act on

A notification has a number the host's server gave it, and closing or
replacing one takes nothing but that number. The router passes
`CloseNotification` and `Notify` on as they come. It keeps no record of who
asked for a notification, as it does for the cookies of the screen saver, and
the host takes any number from the router's connection.

`Dealings` sets beside the router what an observer of both buses knows: which
`Notify` calls are in flight and for whom, which numbers were returned to whom,
and what the host shows. A call acts on one of its caller's own notifications
exactly when the guest that made it named one.
-/

namespace Spaces.Portal

open Spaces.Library

/-- The number of a notification, an argument of type `u`. -/
def notificationId : Variant → Option Nat
  | .basic 'u' (.ofNat id) => some id
  | _ => none

/-- The notification that a method of the notification interface acts on: the
one `CloseNotification` names, or the one a `Notify` replaces. -/
def namedNotification (methodName : String) (parameters : List Variant) : Option Nat :=
  match methodName, parameters with
  | "CloseNotification", [id] => notificationId id
  | "Notify", _ :: replaces :: _ => (notificationId replaces).filter (· ≠ 0)
  | _, _ => none

/-- A call to the notification server of the host. -/
def HostCall.ToNotifications (call : HostCall) : Prop :=
  call.destination = notificationsName ∧ call.interfaceName = notificationsName

instance (call : HostCall) : Decidable call.ToNotifications :=
  inferInstanceAs (Decidable (_ ∧ _))

/-- `native_host_signal`: a signal of a bridged host service is emitted to every
guest, for the screen saver under both of its paths. -/
def nativeHostSignal (path interfaceName signalName : String)
    (parameters : List Variant) : List Output :=
  if interfaceName == screenSaverName then
    [.emitSignal none "/org/freedesktop/ScreenSaver" interfaceName signalName parameters,
     .emitSignal none "/ScreenSaver" interfaceName signalName parameters]
  else [.emitSignal none path interfaceName signalName parameters]

/-! ## What an observer of both buses knows -/

structure Dealings where
  router : Router
  /-- The callers of the `Notify` calls in flight, by serial. -/
  asked : AList fun _ : Nat => String
  /-- The notifications that a `Notify` call returned, with its caller. -/
  returned : List (String × Nat)
  /-- The notifications that the host shows, whoever asked for them. -/
  shown : List Nat

def Dealings.initial : Dealings where
  router := .initial
  asked := ∅
  returned := []
  shown := []

inductive Happening where
  | event (e : Event)
  /-- Another application of the host shows a notification. -/
  | otherApplication (id : Nat)
  | hostSignal (path interfaceName signalName : String) (parameters : List Variant)

/-- What the router sends. -/
def Dealings.sent (cfg : Config) (d : Dealings) : Happening → List Output
  | .event e => (step cfg d.router e).2
  | .otherApplication _ => []
  | .hostSignal path interfaceName signalName parameters =>
      nativeHostSignal path interfaceName signalName parameters

/-- The caller a `Notify` call is sent for. -/
def Output.notifies : Output → Option String
  | .hostCall call =>
      if call.ToNotifications ∧ call.methodName = "Notify" then call.caller else none
  | _ => none

/-- The answer to a `Notify` call in flight, as it is returned to its caller. -/
def Dealings.answered (d : Dealings) : Event → List Output → Option (String × Nat)
  | .reply serial _, [.returnValue caller [.basic 'u' (.ofNat id)]] =>
      if (d.asked.lookup serial).isSome then some (caller, id) else none
  | _, _ => none

def Dealings.next (cfg : Config) (d : Dealings) : Happening → Dealings
  | .event e =>
      let (router, sent) := step cfg d.router e
      let answer := d.answered e sent
      { router
        asked := match sent.findSome? Output.notifies with
          | some caller => d.asked.insert d.router.serial caller
          | none => d.asked
        returned := answer.toList ++ d.returned
        shown := answer.toList.map Prod.snd ++ d.shown }
  | .otherApplication id => { d with shown := id :: d.shown }
  | .hostSignal _ interfaceName signalName parameters =>
      match parameters with
      | .basic 'u' (.ofNat id) :: _ =>
          if interfaceName = notificationsName ∧ signalName = "NotificationClosed" then
            { d with shown := d.shown.filter (· ≠ id) }
          else d
      | _ => d

/-! ## Ownership, and what a guest must do for it -/

/-- A notification the router acts on at the host was returned to the guest
caller it acts for. -/
def Dealings.ForwardsOwn (cfg : Config) (d : Dealings) (o : Happening) : Prop :=
  ∀ call, .hostCall call ∈ d.sent cfg o → call.ToNotifications →
    ∀ id, namedNotification call.methodName call.parameters = some id →
      ∃ caller, call.caller = some caller ∧ (caller, id) ∈ d.returned

/-- A guest call that the router passes on to the notification server. -/
structure GuestCall.Notifies (cfg : Config) (d : Dealings) (g : GuestCall) : Prop where
  alive : d.router.crashed = false
  interface : g.interfaceName = notificationsName
  method : (cfg.findMethod g.interfaceName g.methodName).isSome = true

/-- The guest names one of its own notifications, or none. -/
def Dealings.NamesOwn (cfg : Config) (d : Dealings) : Happening → Prop
  | .event (.simpleBridgeCall _ g) => g.Notifies cfg d →
      ∀ id, namedNotification g.methodName g.parameters = some id →
        (g.sender, id) ∈ d.returned
  | _ => True

/-! ## Only the notification bridge calls the notification server -/

/-- Nothing is asked of the notification server. -/
def Elsewhere (sent : List Output) : Prop :=
  ∀ call, .hostCall call ∈ sent → ¬ call.ToNotifications

variable {cfg : Config} {p : Router}

theorem elsewhere_nil : Elsewhere [] := by
  intro call hmem
  cases hmem

theorem Elsewhere.append {sent sent' : List Output} (h : Elsewhere sent)
    (h' : Elsewhere sent') : Elsewhere (sent ++ sent') := by
  intro call hmem
  rcases List.mem_append.mp hmem with hmem | hmem
  · exact h call hmem
  · exact h' call hmem

theorem elsewhere_flatMap {α : Type} {xs : List α} {f : α → List Output}
    (h : ∀ x, Elsewhere (f x)) : Elsewhere (xs.flatMap f) := by
  intro call hmem
  obtain ⟨x, -, hmem⟩ := List.mem_flatMap.mp hmem
  exact h x call hmem

/-- Answers to guests and signals to guests are no calls. -/
theorem elsewhere_singleton {o : Output} (h : ∀ call, o ≠ .hostCall call) :
    Elsewhere [o] := by
  intro call hmem
  exact absurd (List.mem_singleton.mp hmem).symm (h call)

theorem elsewhere_refused {g : GuestCall} {message : String} :
    Elsewhere (returnError g message) :=
  elsewhere_singleton (by simp)

theorem elsewhere_callHost {q : Router} {call : HostCall} {done : Completion}
    (h : ¬ call.ToNotifications) : Elsewhere (q.callHost call done).2 := by
  intro call' hmem
  simp only [Router.callHost, List.mem_singleton, Output.hostCall.injEq] at hmem
  exact hmem ▸ h

theorem elsewhere_closeHostObject {caller path : Option String} {interfaceName : String} :
    Elsewhere (closeHostObject caller path interfaceName) := by
  cases path with
  | none => exact elsewhere_nil
  | some path =>
      intro call hmem hto
      simp only [closeHostObject, List.mem_singleton, Output.hostCall.injEq] at hmem
      have hportal : portalName ≠ notificationsName := by decide
      rw [hmem] at hto
      exact hportal hto.1

theorem elsewhere_brokerCall {q : Router} {g : GuestCall} {broker methodName : String}
    {parameters : List Variant} {done : Completion} :
    Elsewhere (q.callHost (brokerCall g broker methodName parameters) done).2 := by
  have hbroker : integrationInterface ≠ notificationsName := by decide
  exact elsewhere_callHost fun hto => hbroker hto.2

theorem elsewhere_startLocalRequest {g : GuestCall} {options : Variant}
    {flatpakAppId : Option String} {kind : LocalKind} {broker methodName : String}
    {parameters : List Variant} :
    Elsewhere (startLocalRequest p g options flatpakAppId kind
      (brokerCall g broker methodName parameters)).2 := by
  unfold startLocalRequest
  extract_lets token request
  split
  · exact elsewhere_refused
  · exact elsewhere_brokerCall.append (elsewhere_singleton (by simp))

theorem elsewhere_portalMethodCall {g : GuestCall} :
    Elsewhere (portalMethodCall cfg p g).2 := by
  unfold portalMethodCall
  split
  · exact elsewhere_refused
  · split
    · unfold fileChooserCall
      split
      · exact elsewhere_refused
      · split
        · exact elsewhere_refused
        · extract_lets token request
          split
          · exact elsewhere_refused
          · intro call hmem
            simp at hmem
      · exact elsewhere_nil
    · unfold screenshotCall
      split
      · exact elsewhere_refused
      · exact elsewhere_startLocalRequest
      · exact elsewhere_nil
    · unfold openFileCall
      split
      · exact elsewhere_refused
      · split
        · exact elsewhere_refused
        · split
          · exact elsewhere_refused
          · extract_lets activation writable
            split
            · exact elsewhere_startLocalRequest
            · exact elsewhere_refused
      · exact elsewhere_nil
    · unfold transformedRequestCall
      split
      · exact elsewhere_refused
      · split
        · exact elsewhere_nil
        · exact elsewhere_startLocalRequest
    · unfold dynamicCall
      split
      · exact elsewhere_refused
      · exact elsewhere_brokerCall
    · unfold gameModeCall
      split
      · exact elsewhere_refused
      · extract_lets hostMethod
        split
        · exact elsewhere_brokerCall
        · exact elsewhere_refused
    · unfold realtimeCall
      split
      · exact elsewhere_refused
      · extract_lets limit high
        split
        · exact elsewhere_refused
        · split
          · exact elsewhere_refused
          · split
            · exact elsewhere_refused
            · exact elsewhere_brokerCall
      · exact elsewhere_nil
    · have hportal : portalName ≠ notificationsName := by decide
      exact elsewhere_callHost fun hto => hportal hto.1

theorem elsewhere_lifecycleCall {sender path interfaceName methodName : String} :
    Elsewhere (lifecycleCall p sender path interfaceName methodName).2 := by
  have hreturn : ∀ values, Elsewhere [.returnValue sender values] := fun _ =>
    elsewhere_singleton (by simp)
  unfold lifecycleCall
  extract_lets denied
  have hdenied : Elsewhere denied.2 := elsewhere_singleton (by simp)
  split
  · exact elsewhere_singleton (by simp)
  · split
    · split
      · exact hdenied
      · split
        · exact hdenied
        · split
          · intro call hmem
            simp at hmem
          · exact elsewhere_closeHostObject.append (hreturn _)
    · split
      · exact hdenied
      · split
        · exact hdenied
        · exact elsewhere_closeHostObject.append (hreturn _)

theorem elsewhere_forwardDone {call : ForwardCall} {reply : Option (List Variant)} :
    Elsewhere (forwardDone p call reply).2 := by
  have hreturn : ∀ values, Elsewhere [.returnValue call.owner values] := fun _ =>
    elsewhere_singleton (by simp)
  have herror : ∀ message, Elsewhere [.returnError call.owner message] := fun _ =>
    elsewhere_singleton (by simp)
  unfold forwardDone
  split
  · exact herror _
  · split
    · split
      · split
        · exact elsewhere_closeHostObject.append (herror _)
        · exact hreturn _
      · exact elsewhere_nil
    · split
      · split
        · split
          · exact elsewhere_closeHostObject.append (herror _)
          · exact hreturn _
        · exact elsewhere_nil
      · split
        · split
          · split
            · exact herror _
            · split
              · exact herror _
              · exact hreturn _
          · exact hreturn _
        · exact hreturn _

theorem elsewhere_complete {serial : Nat} {reply : Option (List Variant)} :
    Elsewhere (complete p serial reply).2 := by
  have hlocal : ∀ (q : Router) (request : Request) (response results : Variant),
      Elsewhere (finishLocal q request response results).2 := by
    intro q request response results
    unfold finishLocal
    split
    · exact elsewhere_nil
    · exact elsewhere_singleton (by simp)
  unfold complete
  split
  · exact elsewhere_nil
  · extract_lets q
    split
    · exact elsewhere_forwardDone
    · unfold chooserDone
      split
      · exact elsewhere_nil
      · split
        · exact hlocal _ _ _ _
        · exact hlocal _ _ _ _
    · unfold localRequestDone
      split
      · exact elsewhere_nil
      · exact hlocal _ _ _ _
    · unfold screenCallDone
      split
      · exact elsewhere_singleton (by simp)
      · extract_lets done
        have hdone : Elsewhere done := elsewhere_singleton (by simp)
        split
        · split
          · exact hdone
          · exact hdone
        · split
          · exact hdone
          · exact hdone
    · unfold relayDone
      split
      · exact elsewhere_singleton (by simp)
      · exact elsewhere_singleton (by simp)

theorem elsewhere_hostRequestSignal {request : Request} {interfaceName signalName : String}
    {parameters : List Variant} :
    Elsewhere (hostRequestSignal p request interfaceName signalName parameters).2 := by
  unfold hostRequestSignal
  extract_lets isResponse
  split
  · exact elsewhere_nil
  · split
    exact elsewhere_singleton (by simp)

theorem elsewhere_hostPortalSignal {path interfaceName signalName : String}
    {parameters : List Variant} :
    Elsewhere (hostPortalSignal p path interfaceName signalName parameters).2 := by
  unfold hostPortalSignal
  extract_lets translated
  split
  · next _ session request _ =>
      have hsent : Elsewhere
          (hostRequestSignal p request interfaceName signalName parameters).2 :=
        elsewhere_hostRequestSignal
      split
      next q sent heq =>
      rw [heq] at hsent
      split
      · split
        · exact hsent
        · exact hsent
      · exact hsent
  · exact elsewhere_singleton (by simp)
  · split
    · exact elsewhere_singleton (by simp)
    · exact elsewhere_nil

theorem elsewhere_releaseInhibitor {inhibitor : Inhibitor} :
    Elsewhere (releaseInhibitor p inhibitor) := by
  have hsaver : screenSaverName ≠ notificationsName := by decide
  unfold releaseInhibitor
  split
  · exact elsewhere_nil
  · intro call hmem hto
    rw [Output.hostCall.inj (List.mem_singleton.mp hmem)] at hto
    exact hsaver hto.1

theorem elsewhere_guestNameChanged {name oldOwner newOwner : String} :
    Elsewhere (guestNameChanged p name oldOwner newOwner).2 := by
  unfold guestNameChanged
  split
  · exact elsewhere_nil
  · refine ((elsewhere_flatMap fun k => ?_).append (elsewhere_flatMap fun k => ?_)).append
      (elsewhere_flatMap fun inhibitor => ?_)
    · exact elsewhere_closeHostObject
    · exact elsewhere_closeHostObject
    · exact elsewhere_releaseInhibitor

theorem elsewhere_screenSaverCall {g : GuestCall} :
    Elsewhere (screenSaverCall cfg p g).2 := by
  have hsaver : screenSaverName ≠ notificationsName := by decide
  unfold screenSaverCall
  split
  · exact elsewhere_refused
  · extract_lets ask
    have hask : ∀ parameters done, Elsewhere (p.callHost (ask parameters) done).2 :=
      fun _ _ => elsewhere_callHost fun hto => hsaver hto.1
    split
    · split
      · exact hask _ _
      · exact elsewhere_nil
    · split
      · split
        · extract_lets key
          split
          · exact elsewhere_refused
          · split
            · exact elsewhere_refused
            · exact hask _ _
        · exact elsewhere_nil
      · split
        · exact elsewhere_refused
        · exact hask _ _

/-! ## The notification bridge -/

/-- The call a guest's call becomes. -/
def GuestCall.toHost (g : GuestCall) : HostCall :=
  ⟨some g.sender, notificationsName, notificationsPath, notificationsName, g.methodName,
    if g.methodName == "Notify" then rewriteNotificationPaths g else g.parameters⟩

theorem GuestCall.toNotifications_toHost (g : GuestCall) : g.toHost.ToNotifications :=
  ⟨rfl, rfl⟩

/-- Staging the icons and files of a notification keeps the number it replaces. -/
theorem named_rewriteNotificationPaths (g : GuestCall) :
    namedNotification "Notify" (rewriteNotificationPaths g) =
      namedNotification "Notify" g.parameters := by
  unfold rewriteNotificationPaths
  split
  · next appName replaces appIcon summary body actions hints timeout hparameters =>
      rw [hparameters]
      extract_lets
      rfl
  · rfl

theorem GuestCall.named_toHost (g : GuestCall) :
    namedNotification g.toHost.methodName g.toHost.parameters =
      namedNotification g.methodName g.parameters := by
  show namedNotification g.methodName (if g.methodName == "Notify" then
    rewriteNotificationPaths g else g.parameters) = _
  split
  · next hnotify =>
      rw [eq_of_beq hnotify]
      exact named_rewriteNotificationPaths g
  · rfl

theorem simpleBridgeCall_notifications {path : String} {g : GuestCall}
    (hinterface : g.interfaceName = notificationsName) :
    simpleBridgeCall cfg p path g =
      match cfg.findMethod notificationsName g.methodName with
      | none => (p, returnError g "Unknown desktop integration method")
      | some _ => p.callHost g.toHost (.relay g.sender) := by
  have hsaver : (notificationsName == screenSaverName) = false := by decide
  have hself : (notificationsName == notificationsName) = true := by decide
  simp only [simpleBridgeCall, hinterface, hsaver, hself, Bool.false_eq_true, if_false, if_true]
  rfl

theorem elsewhere_simpleBridgeCall {path : String} {g : GuestCall}
    (hinterface : g.interfaceName ≠ notificationsName) :
    Elsewhere (simpleBridgeCall cfg p path g).2 := by
  have hrelay : ∀ hostPath parameters, Elsewhere (p.callHost ⟨some g.sender,
      g.interfaceName, hostPath, g.interfaceName, g.methodName, parameters⟩
      (.relay g.sender)).2 :=
    fun _ _ => elsewhere_callHost fun hto => hinterface hto.1
  unfold simpleBridgeCall
  extract_lets relayTo
  have hto : ∀ hostPath parameters, Elsewhere (relayTo hostPath parameters).2 := by
    intro hostPath parameters
    simp only [relayTo]
    split
    · exact elsewhere_refused
    · exact hrelay _ _
  split
  · exact elsewhere_screenSaverCall
  · split
    · exact hto _ _
    · split
      · split
        · exact hto _ _
        · exact elsewhere_refused
      · exact hto _ _

/-- What is asked of the notification server is a guest's own call. -/
theorem toNotifications_of_sent {d : Dealings} {o : Happening} {call : HostCall}
    (hsent : .hostCall call ∈ d.sent cfg o) (hto : call.ToNotifications) :
    ∃ path g, o = .event (.simpleBridgeCall path g) ∧ g.Notifies cfg d ∧
      call = g.toHost := by
  cases o with
  | otherApplication id => cases hsent
  | hostSignal path interfaceName signalName parameters =>
      simp only [Dealings.sent, nativeHostSignal] at hsent
      split at hsent <;> simp at hsent
  | event e =>
      simp only [Dealings.sent, step] at hsent
      split at hsent
      · cases hsent
      · next hcrashed =>
          cases e with
          | simpleBridgeCall path g =>
              by_cases hinterface : g.interfaceName = notificationsName
              · simp only [handle, simpleBridgeCall_notifications hinterface] at hsent
                split at hsent
                · exact absurd hto (elsewhere_refused call hsent)
                · next method hmethod =>
                    refine ⟨path, g, rfl, ⟨Bool.eq_false_iff.mpr hcrashed, hinterface, ?_⟩, ?_⟩
                    · rw [hinterface, hmethod]; rfl
                    · exact Output.hostCall.inj (List.mem_singleton.mp hsent)
              · exact absurd hto (elsewhere_simpleBridgeCall hinterface call hsent)
          | portalMethodCall g => exact absurd hto (elsewhere_portalMethodCall call hsent)
          | lifecycleCall sender path interfaceName methodName =>
              exact absurd hto (elsewhere_lifecycleCall call hsent)
          | reply serial values => exact absurd hto (elsewhere_complete call hsent)
          | hostPortalSignal path interfaceName signalName parameters =>
              exact absurd hto (elsewhere_hostPortalSignal call hsent)
          | guestNameChanged name oldOwner newOwner =>
              exact absurd hto (elsewhere_guestNameChanged call hsent)
          | screenSaverAppeared hostPath => cases hsent
          | screenSaverVanished => cases hsent

/-- A guest's call that finds its method is sent on as it is. -/
theorem GuestCall.Notifies.sent {d : Dealings} {path : String} {g : GuestCall}
    (h : g.Notifies cfg d) :
    .hostCall g.toHost ∈ d.sent cfg (.event (.simpleBridgeCall path g)) := by
  obtain ⟨method, hmethod⟩ := Option.isSome_iff_exists.mp h.method
  rw [h.interface] at hmethod
  rw [Dealings.sent, step, h.alive, if_neg Bool.false_ne_true, handle,
    simpleBridgeCall_notifications h.interface, hmethod]
  exact List.mem_singleton.mpr rfl

/-! ## Ownership rests with the guests -/

theorem forwardsOwn_iff (d : Dealings) (o : Happening) :
    d.ForwardsOwn cfg o ↔ d.NamesOwn cfg o := by
  constructor
  · intro h
    cases o with
    | event e =>
        cases e with
        | simpleBridgeCall path g =>
            intro hnotifies id hnamed
            obtain ⟨caller, hcaller, hreturned⟩ := h g.toHost hnotifies.sent
              g.toNotifications_toHost id (g.named_toHost.trans hnamed)
            obtain rfl := Option.some.inj hcaller
            exact hreturned
        | _ => trivial
    | _ => trivial
  · intro h call hsent hto id hnamed
    obtain ⟨path, g, rfl, hnotifies, rfl⟩ := toNotifications_of_sent hsent hto
    exact ⟨g.sender, rfl, h hnotifies id (g.named_toHost ▸ hnamed)⟩

/-- Every call of a run acts on a notification of its own caller exactly when
every guest of the run names its own. -/
theorem notifications_owned (cfg : Config) (happenings : List Happening) :
    Allowed (Dealings.next cfg) (Dealings.ForwardsOwn cfg) .initial happenings ↔
      Allowed (Dealings.next cfg) (Dealings.NamesOwn cfg) .initial happenings :=
  Allowed.congr forwardsOwn_iff

/-! ## A guest that closes another's notification -/

def bridgeConfig : Config where
  spaceName := "devel"
  fileChooserBackend := none
  broker := none
  findMethod := fun _ _ => some ⟨[], []⟩
  rewriteDesktopEntry := some

def bridgeToken : Token := ⟨"t", by decide⟩

def bridgeCall (sender methodName : String) (parameters : List Variant) : Happening :=
  .event (.simpleBridgeCall notificationsPath
    { sender
      interfaceName := notificationsName
      methodName
      parameters
      tokens := ⟨bridgeToken, bridgeToken, bridgeToken, bridgeToken⟩ })

/-- `:1.1` shows a notification, the host numbers it 7, and `:1.2` closes it. -/
def closeAnothers : List Happening :=
  [bridgeCall ":1.1" "Notify" [.str "mail", .uint32 0, .str "", .str "New mail", .str "",
      .array "s" [], .vardict [], .int32 (-1)],
    .event (.reply 0 (some [.uint32 7])),
    bridgeCall ":1.2" "CloseNotification" [.uint32 7]]

theorem anothers_notification_closed :
    ¬ ∀ cfg happenings,
      Allowed (Dealings.next cfg) (Dealings.ForwardsOwn cfg) .initial happenings := by
  intro h
  obtain ⟨-, -, hclose, -⟩ := (notifications_owned bridgeConfig closeAnothers).mp
    (h bridgeConfig closeAnothers)
  have hreturned := hclose ⟨rfl, rfl, rfl⟩ 7 rfl
  revert hreturned
  decide

end Spaces.Portal
