import Spaces.Portal.Tables
import Spaces.Library.Runs

/-!
# The tables and the pointers into them

Each owning table and its alias table stay in step, and what a file chooser
call in flight points to stays in the table, as long as three things do not
happen: a name with a chooser call in flight vanishes, a local request's
answer finds a request of the host under its path, or the host hands out a
path it has handed out already. `WellFormed` is what survives without the
first and the last condition, and what the other results build on.
-/

namespace Spaces.Portal

open Spaces.Library

variable {cfg : Config} {p : Router} {e : Event}

/-- The answer to a local request finds a local request or none. -/
def AnswersLocal (p : Router) : Event → Prop
  | .reply serial _ => ∀ sender kind guestPath request,
      p.pending.lookup serial = some (.localRequest sender kind guestPath) →
      p.requests.find? guestPath = some request → request.hostPath = none
  | _ => True

/-- A file chooser call in flight that keeps an address. -/
def Router.Chooses (p : Router) (serial : Nat) (sender : String) (address : Nat) : Prop :=
  p.pending.lookup serial = some (.chooser sender address)

structure WellFormed (p : Router) : Prop where
  requests : p.requests.Consistent
  sessions : p.sessions.Consistent
  chooser_fresh : ∀ serial sender address, p.Chooses serial sender address →
    address < p.requests.fresh
  chooser_own : ∀ serial sender address request, p.Chooses serial sender address →
    p.requests.Live address request → request.owner = sender ∧ request.hostPath = none
  chooser_inj : ∀ serial serial' sender sender' address,
    p.Chooses serial sender address → p.Chooses serial' sender' address →
    serial = serial'

theorem wellFormed_initial : WellFormed .initial where
  requests := Arena.consistent_empty
  sessions := Arena.consistent_empty
  chooser_fresh := by simp [Router.initial, Router.Chooses]
  chooser_own := by simp [Router.initial, Router.Chooses]
  chooser_inj := by simp [Router.initial, Router.Chooses]

/-! ## One event -/

/-- What a request becomes while it stays in the table: it may be cancelled. -/
def Request.SameObject (request request' : Request) : Prop :=
  request'.owner = request.owner ∧ request'.guestPath = request.guestPath ∧
    request'.hostPath = request.hostPath

theorem Request.SameObject.refl (request : Request) : request.SameObject request :=
  ⟨rfl, rfl, rfl⟩

/-- What a completion of the router's own finds is in memory, and is a local
request. -/
theorem Completion.Finds.live (hw : WellFormed p) {serial : Nat}
    {values : Option (List Variant)} (hok : AnswersLocal p (.reply serial values))
    {done : Completion} {request : Request}
    (hpending : p.pending.lookup serial = some done) (h : done.Finds p request) :
    (∃ address, p.requests.Live address request) ∧ request.hostPath = none := by
  cases done with
  | chooser sender address =>
      exact ⟨⟨address, h⟩, (hw.chooser_own serial sender address request hpending h).2⟩
  | localRequest sender kind guestPath =>
      obtain ⟨address, hlive, -⟩ := hw.requests.find?_eq_some.mp h
      exact ⟨⟨address, hlive⟩, hok sender kind guestPath request hpending h⟩
  | _ => exact h.elim

theorem RequestsStep.consistent (hw : WellFormed p) (hok : AnswersLocal p e)
    {requests : Arena String Request} (h : RequestsStep p e requests) :
    requests.Consistent := by
  have hc := hw.requests
  cases h with
  | same => exact hc
  | inserted _ hins => exact hc.insert hins
  | cancelled _ _ => exact hc.update fun _ => ⟨rfl, rfl⟩
  | finished _ _ _ _ => exact hc.release _
  | answered _ => exact hc.release _
  | lost _ => exact (hc.releaseAll _).1
  | ended hpending hfinds =>
      obtain ⟨⟨address, hlive⟩, hlocal⟩ := hfinds.live hw hok hpending
      exact hc.eraseKey_unaliased hlive hlocal

theorem SessionsStep.consistent (hw : WellFormed p)
    {sessions : Arena String Session} (h : SessionsStep p e sessions) :
    sessions.Consistent := by
  have hc := hw.sessions
  cases h with
  | same => exact hc
  | inserted _ hins => exact hc.insert hins
  | closed _ => exact hc.release _
  | lost _ => exact (hc.releaseAll _).1

/-- Every request after an event was there before it, or is the one the event
inserted at the fresh address. -/
theorem RequestsStep.live (hw : WellFormed p) {requests : Arena String Request}
    (h : RequestsStep p e requests) {address : Nat} {request' : Request}
    (hlive : requests.Live address request') :
    (∃ request, p.requests.Live address request ∧ request.SameObject request') ∨
      address = p.requests.fresh ∧ p.requests.insert request' = some requests ∧
        NewRequest p e request' := by
  have hc := hw.requests
  have hold : p.requests.Live address request' → ∃ request,
      p.requests.Live address request ∧ request.SameObject request' :=
    fun h => ⟨request', h, .refl request'⟩
  cases h with
  | same => exact .inl (hold hlive)
  | inserted hnew hins =>
      rcases (hc.live_insert hins).mp hlive with ⟨rfl, rfl⟩ | hlive
      · exact .inr ⟨rfl, hins, hnew⟩
      · exact .inl (hold hlive)
  | cancelled _ _ =>
      obtain ⟨request, hbefore, rfl⟩ := hc.live_update.mp hlive
      refine .inl ⟨request, hbefore, ?_⟩
      split
      · exact ⟨rfl, rfl, rfl⟩
      · exact .refl request
  | finished _ _ _ _ => exact .inl (hold (hc.live_release.mp hlive).1)
  | answered _ => exact .inl (hold (hc.live_release.mp hlive).1)
  | lost _ => exact .inl (hold (((hc.releaseAll _).2 _ _).mp hlive).1)
  | ended _ _ => exact .inl (hold (hc.live_eraseKey.mp hlive).1)

theorem RequestsStep.fresh_le (hw : WellFormed p) {requests : Arena String Request}
    (h : RequestsStep p e requests) : p.requests.fresh ≤ requests.fresh := by
  cases h with
  | inserted _ hins => rw [hw.requests.fresh_insert hins]; omega
  | _ => simp

theorem SessionsStep.live (hw : WellFormed p) {sessions : Arena String Session}
    (h : SessionsStep p e sessions) {address : Nat} {session : Session}
    (hlive : sessions.Live address session) : p.sessions.Live address session ∨
      p.sessions.insert session = some sessions ∧ NewSession p e session := by
  have hc := hw.sessions
  cases h with
  | same => exact .inl hlive
  | inserted hnew hins =>
      rcases (hc.live_insert hins).mp hlive with ⟨rfl, rfl⟩ | hlive
      · exact .inr ⟨hins, hnew⟩
      · exact .inl hlive
  | closed _ => exact .inl (hc.live_release.mp hlive).1
  | lost _ => exact .inl (((hc.releaseAll _).2 _ _).mp hlive).1

/-- A chooser call in flight was in flight before, or is the one the event made
for the request it inserted at the fresh address. -/
theorem PendingStep.chooses {q : Router} (h : PendingStep p e q) {serial : Nat}
    {sender : String} {address : Nat} (hq : q.Chooses serial sender address) :
    p.Chooses serial sender address ∨
      address = p.requests.fresh ∧ serial = p.serial ∧ ∃ request,
        p.requests.insert request = some q.requests ∧ request.owner = sender ∧
        request.hostPath = none := by
  unfold Router.Chooses at hq
  cases h with
  | same hpending => rw [hpending] at hq; exact .inl hq
  | asked _ hkind hpending =>
      rw [hpending] at hq
      rcases eq_or_ne serial p.serial with rfl | hne
      · rw [AList.lookup_insert, Option.some_inj] at hq
        exact absurd hq (hkind _ _)
      · rw [AList.lookup_insert_ne hne] at hq
        exact .inl hq
  | chosen _ howner hlocal hins hpending =>
      rw [hpending] at hq
      rcases eq_or_ne serial p.serial with rfl | hne
      · rw [AList.lookup_insert, Option.some_inj] at hq
        cases hq
        exact .inr ⟨rfl, rfl, _, hins, howner, hlocal⟩
      · rw [AList.lookup_insert_ne hne] at hq
        exact .inl hq
  | taken hpending =>
      rw [hpending] at hq
      refine .inl ?_
      rename_i taken _
      rcases eq_or_ne serial taken with rfl | hne
      · rw [AList.lookup_erase] at hq
        cases hq
      · rwa [AList.lookup_erase_ne hne] at hq

theorem WellFormed.handled (hw : WellFormed p) (hok : AnswersLocal p e) :
    WellFormed (handle cfg p e).1 := by
  have hrequests := handle_requests cfg p e
  have hpending := handle_pending cfg p e
  have hfresh := hrequests.fresh_le hw
  constructor
  · exact hrequests.consistent hw hok
  · exact (handle_sessions cfg p e).consistent hw
  · intro serial sender address hq
    rcases hpending.chooses hq with hp | ⟨rfl, -, request, hins, -⟩
    · exact lt_of_lt_of_le (hw.chooser_fresh _ _ _ hp) hfresh
    · rw [hw.requests.fresh_insert hins]
      exact Nat.lt_succ_self _
  · intro serial sender address request' hq hlive
    rcases hpending.chooses hq with hp | ⟨rfl, -, request, hins, howner, hlocal⟩
    · rcases hrequests.live hw hlive with ⟨request, hlive, hsame⟩ | ⟨rfl, -⟩
      · rw [hsame.1, hsame.2.2]
        exact hw.chooser_own serial sender address request hp hlive
      · exact absurd (hw.chooser_fresh _ _ _ hp) (Nat.lt_irrefl _)
    · rcases (hw.requests.live_insert hins).mp hlive with ⟨-, rfl⟩ | hold
      · exact ⟨howner, hlocal⟩
      · exact absurd (hw.requests.live_fresh _ _ hold) (Nat.lt_irrefl _)
  · intro serial serial' sender sender' address hq hq'
    rcases hpending.chooses hq with hp | ⟨hnew, hserial, -⟩ <;>
      rcases hpending.chooses hq' with hp' | ⟨hnew', hserial', -⟩
    · exact hw.chooser_inj serial serial' sender sender' address hp hp'
    · have := hw.chooser_fresh _ _ _ hp
      omega
    · have := hw.chooser_fresh _ _ _ hp'
      omega
    · omega

/-! ## Runs that keep the tables in step -/

/-- No live session has the host path of a session about to be exported under a
guest path that is still free. -/
def FreshSession (p : Router) (guestPath : Option String) (hostPath : Option String) :
    Prop :=
  ∀ guest host, guestPath = some guest → hostPath = some host →
    p.sessions.find? guest = none →
    ∀ address session, p.sessions.Live address session → session.hostPath ≠ host

/-- The condition on the events of a run. -/
def KeepsTables (p : Router) : Event → Prop
  | .guestNameChanged name oldOwner newOwner => Vanishes oldOwner newOwner →
      ∀ serial sender address, p.Chooses serial sender address → sender ≠ name
  | .reply serial values =>
      (∀ call, p.pending.lookup serial = some (.forward call) →
        (∀ guest host, call.guestRequestPath = some guest →
          call.newRequest values = some host → p.requests.find? guest = none →
          ∀ address request, p.requests.Live address request →
            request.hostPath ≠ some host) ∧
        FreshSession p call.guestSessionPath (call.newSession values)) ∧
      ∀ sender kind guestPath request,
        p.pending.lookup serial = some (.localRequest sender kind guestPath) →
        p.requests.find? guestPath = some request → request.hostPath = none ∧
          ∀ serial' sender' address, p.Chooses serial' sender' address →
            ¬ p.requests.Live address request
  | .hostPortalSignal path interfaceName signalName parameters =>
      interfaceName = requestInterface → signalName = "Response" →
      ∀ request, p.requests.findAlias? path = some request →
        request.cancelled = false →
        FreshSession p request.guestSessionPath (request.newSession parameters)
  | _ => True

theorem KeepsTables.answersLocal (h : KeepsTables p e) : AnswersLocal p e := by
  cases e with
  | reply serial values =>
      intro sender kind guestPath request hpending hfind
      exact (h.2 sender kind guestPath request hpending hfind).1
  | _ => trivial

/-- What the router's tables and pointers are for: both pairs of tables agree,
and what a chooser call in flight points to is an entry of the table. -/
structure TablesAgree (p : Router) : Prop where
  requests : p.requests.Agrees
  sessions : p.sessions.Agrees
  chooser : ∀ serial sender address, p.Chooses serial sender address →
    ∃ request, p.requests.Live address request ∧
      p.requests.owned.lookup request.guestPath = some address

/-- The invariant of such a run. -/
structure TablesKept (p : Router) : Prop where
  wellFormed : WellFormed p
  request_paths : p.requests.AliasUnique
  session_paths : p.sessions.AliasUnique
  chooser_live : ∀ serial sender address, p.Chooses serial sender address →
    ∃ request, p.requests.Live address request

theorem tablesKept_initial : TablesKept .initial where
  wellFormed := wellFormed_initial
  request_paths := Arena.aliasUnique_empty
  session_paths := Arena.aliasUnique_empty
  chooser_live := by simp [Router.initial, Router.Chooses]

theorem RequestsStep.aliasUnique (hk : TablesKept p) (hok : KeepsTables p e)
    {requests : Arena String Request} (h : RequestsStep p e requests) :
    requests.AliasUnique := by
  have hc := hk.wellFormed.requests
  have hu := hk.request_paths
  cases h with
  | same => exact hu
  | inserted hnew hins =>
      refine hu.insert hc hins fun k hk => ?_
      cases hnew with
      | opened _ hlocal =>
          rw [aliasKey_request, hlocal] at hk
          cases hk
      | created hpending hnew hguest =>
          cases hk
          exact (hok.1 _ hpending).1 _ _ hguest hnew (hc.find?_of_insert hins)
  | cancelled _ _ =>
      refine hu.mono fun a r' hr' => ?_
      obtain ⟨r, hr, rfl⟩ := hc.live_update.mp hr'
      refine ⟨r, hr, ?_⟩
      split <;> rfl
  | finished _ _ _ _ => exact hu.mono fun a r hr => ⟨r, (hc.live_release.mp hr).1, rfl⟩
  | answered _ => exact hu.mono fun a r hr => ⟨r, (hc.live_release.mp hr).1, rfl⟩
  | lost _ => exact hu.mono fun a r hr => ⟨r, (((hc.releaseAll _).2 a r).mp hr).1, rfl⟩
  | ended _ _ => exact hu.mono fun a r hr => ⟨r, (hc.live_eraseKey.mp hr).1, rfl⟩

theorem SessionsStep.aliasUnique (hk : TablesKept p) (hok : KeepsTables p e)
    {sessions : Arena String Session} (h : SessionsStep p e sessions) :
    sessions.AliasUnique := by
  have hc := hk.wellFormed.sessions
  have hu := hk.session_paths
  cases h with
  | same => exact hu
  | inserted hnew hins =>
      have hfree := hc.find?_of_insert hins
      refine hu.insert hc hins fun k heq a s hs hk => ?_
      rw [aliasKey_session, Option.some_inj] at heq hk
      refine absurd (hk.trans heq.symm) ?_
      cases hnew with
      | replied hpending hnew hguest =>
          exact (hok.1 _ hpending).2 _ _ hguest hnew hfree a s hs
      | responded hfind hlive hnew hguest =>
          exact hok rfl rfl _ hfind hlive _ _ hguest hnew hfree a s hs
  | closed _ => exact hu.mono fun a s hs => ⟨s, (hc.live_release.mp hs).1, rfl⟩
  | lost _ => exact hu.mono fun a s hs => ⟨s, (((hc.releaseAll _).2 a s).mp hs).1, rfl⟩

/-- What a chooser call points to outlives every event but its own answer. -/
theorem RequestsStep.chooser_live (hk : TablesKept p) (hok : KeepsTables p e)
    {requests : Arena String Request} (h : RequestsStep p e requests)
    {serial : Nat} {sender : String} {address : Nat}
    (hchooses : p.Chooses serial sender address)
    (hother : ∀ values, e ≠ .reply serial values) :
    ∃ request, requests.Live address request := by
  have hw := hk.wellFormed
  have hc := hw.requests
  obtain ⟨request, hlive⟩ := hk.chooser_live serial sender address hchooses
  obtain ⟨howner, hlocal⟩ := hw.chooser_own serial sender address request hchooses hlive
  -- a request with a host path is another one
  have hhost : ∀ r, p.requests.find? r.guestPath = some r → r.hostPath ≠ none →
      request.guestPath ≠ r.guestPath := by
    intro r hr hpath heq
    obtain ⟨a, ha, -⟩ := hc.find?_eq_some.mp hr
    obtain rfl := hc.key_unique hlive ha heq
    rw [hlive.inj ha] at hlocal
    exact hpath hlocal
  cases h with
  | same => exact ⟨request, hlive⟩
  | inserted _ hins => exact ⟨request, (hc.live_insert hins).mpr (.inr hlive)⟩
  | cancelled _ _ => exact ⟨_, hc.live_update.mpr ⟨request, hlive, rfl⟩⟩
  | finished _ _ hfind hpath =>
      obtain ⟨a, ha, rfl⟩ := hc.find?_eq_some.mp hfind
      exact ⟨request, hc.live_release.mpr ⟨hlive, hhost _ hfind hpath⟩⟩
  | answered hfind =>
      obtain ⟨a, ha, hpath⟩ := hc.findAlias?_live hfind
      have hkey := hc.find?_eq_some.mpr ⟨a, ha, rfl⟩
      refine ⟨request, hc.live_release.mpr ⟨hlive, hhost _ hkey ?_⟩⟩
      rw [aliasKey_request] at hpath
      simp [hpath]
  | lost hgone =>
      refine ⟨request, ((hc.releaseAll _).2 _ _).mpr ⟨hlive, fun hmem => ?_⟩⟩
      have hkey := hc.find?_eq_some.mpr ⟨address, hlive, rfl⟩
      simp only [ownedKeys, List.mem_filter, hkey, Option.any_some, beq_iff_eq] at hmem
      exact hok hgone serial sender address hchooses (howner.symm.trans hmem.2)
  | ended hpending hfinds =>
      rename_i serial' values done request'
      refine ⟨request, hc.live_eraseKey.mpr ⟨hlive, fun heq => ?_⟩⟩
      obtain ⟨⟨a, ha⟩, -⟩ := hfinds.live hw hok.answersLocal hpending
      obtain rfl := hc.key_unique hlive ha heq
      cases done with
      | chooser sender' address' =>
          obtain rfl := hc.key_unique ha hfinds rfl
          obtain rfl := hw.chooser_inj _ _ _ _ _ hchooses hpending
          exact hother values rfl
      | localRequest sender' kind guestPath =>
          exact (hok.2 sender' kind guestPath request' hpending hfinds).2 _ _ _
            hchooses ha
      | _ => exact hfinds

theorem TablesKept.handled (hk : TablesKept p) (hok : KeepsTables p e) :
    TablesKept (handle cfg p e).1 := by
  have hw := hk.wellFormed
  have hrequests := handle_requests cfg p e
  have hpending := handle_pending cfg p e
  constructor
  · exact hw.handled hok.answersLocal
  · exact hrequests.aliasUnique hk hok
  · exact (handle_sessions cfg p e).aliasUnique hk hok
  · intro serial sender address hq
    rcases hpending.chooses hq with hp | ⟨rfl, -, request, hins, -⟩
    · refine hrequests.chooser_live hk hok hp fun values heq => ?_
      subst heq
      rw [Router.Chooses, handle, complete_pending, AList.lookup_erase] at hq
      cases hq
    · exact ⟨request, (hw.requests.live_insert hins).mpr (.inl ⟨rfl, rfl⟩)⟩

theorem TablesKept.preserved (hk : TablesKept p) (hok : KeepsTables p e) :
    TablesKept (step cfg p e).1 := by
  unfold step
  split
  · exact hk
  · exact hk.handled hok

theorem TablesKept.agree (hk : TablesKept p) : TablesAgree p where
  requests := hk.wellFormed.requests.agrees hk.request_paths
  sessions := hk.wellFormed.sessions.agrees hk.session_paths
  chooser serial sender address hchooses := by
    obtain ⟨request, hlive⟩ := hk.chooser_live serial sender address hchooses
    exact ⟨request, hlive, hk.wellFormed.requests.live_owned _ _ hlive⟩

/-- One turn of the main loop, for its effect on the router. -/
def next (cfg : Config) (p : Router) (e : Event) : Router := (step cfg p e).1

theorem tables_agree (h : Guarded (next cfg) KeepsTables .initial p) : TablesAgree p :=
  (h.invariant tablesKept_initial fun _ _ hk hok => hk.preserved hok).agree

/-! ## A file chooser call whose caller goes away -/

def sampleTokens : Tokens where
  handle := ⟨"h1", by decide⟩
  session := ⟨"s1", by decide⟩
  hostHandle := ⟨"h2", by decide⟩
  hostSession := ⟨"s2", by decide⟩

/-- Three methods of the host portal, as its introspection gives them. -/
def sampleMethod (_interfaceName methodName : String) : Option MethodInfo :=
  if methodName = "OpenFile" then
    some ⟨[⟨"parent_window", "s"⟩, ⟨"title", "s"⟩, ⟨"options", "a\x7bsv\x7d"⟩],
      [⟨"handle", "o"⟩]⟩
  else if methodName = "CreateSession" then
    some ⟨[⟨"options", "a\x7bsv\x7d"⟩], [⟨"session_handle", "o"⟩]⟩
  else if methodName = "SelectSources" then
    some ⟨[⟨"session_handle", "o"⟩, ⟨"options", "a\x7bsv\x7d"⟩], [⟨"handle", "o"⟩]⟩
  else none

def sampleConfig : Config where
  spaceName := "work"
  fileChooserBackend := some "org.freedesktop.impl.portal.desktop.gtk"
  broker := none
  findMethod := sampleMethod
  rewriteDesktopEntry := fun _ => none

def openFileEvent : Event := .portalMethodCall
  { sender := ":1.1"
    interfaceName := "org.freedesktop.portal.FileChooser"
    methodName := "OpenFile"
    parameters := [.str "", .str "Open", Variant.vardict []]
    tokens := sampleTokens }

def createSessionEvent : Event := .portalMethodCall
  { sender := ":1.1"
    interfaceName := "org.freedesktop.portal.Usb"
    methodName := "CreateSession"
    parameters := [Variant.vardict []]
    tokens := sampleTokens }

def sessionReply : Event :=
  .reply 0 (some [.objectPath "/org/freedesktop/portal/desktop/session/1_42/s2"])

theorem tables_agree_session : TablesAgree
    (next sampleConfig (next sampleConfig .initial createSessionEvent) sessionReply) := by
  have hrequests : (next sampleConfig .initial createSessionEvent).requests = .empty := rfl
  have hsessions : (next sampleConfig .initial createSessionEvent).sessions = .empty := rfl
  refine tables_agree (.step (.step .start trivial) ⟨fun call _ => ⟨?_, ?_⟩, ?_⟩)
  · intro guest host _ _ _ address request hlive
    rw [hrequests] at hlive
    exact absurd hlive Arena.live_empty
  · intro guest host _ _ _ address session hlive
    rw [hsessions] at hlive
    exact absurd hlive Arena.live_empty
  · intro sender kind guestPath request _ hfind
    rw [hrequests] at hfind
    cases hfind

theorem chooser_dangles : ¬ ∀ cfg p, Reachable (next cfg) .initial p → TablesAgree p := by
  intro h
  have hrun : Reachable (next sampleConfig) .initial
      (next sampleConfig (next sampleConfig .initial openFileEvent)
        (.guestNameChanged ":1.1" ":1.1" "")) :=
    .step (.step .start trivial) trivial
  obtain ⟨request, hlive, -⟩ := (h _ _ hrun).chooser 0 ":1.1" 0 rfl
  have hfreed : (next sampleConfig (next sampleConfig .initial openFileEvent)
      (.guestNameChanged ":1.1" ":1.1" "")).requests.heap.lookup 0 = none := by decide
  rw [Arena.Live, hfreed] at hlive
  cases hlive

end Spaces.Portal
