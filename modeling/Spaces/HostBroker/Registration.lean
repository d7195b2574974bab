import Mathlib.Data.List.Nodup
import Spaces.Library.Runs

/-!
# The broker's registration with the host portal

The broker serves portal calls for one Space over one connection to the host
bus. The portal knows that connection by the application id it registered, and
only the owner of the portal's name it registered with does. So every owner that
appears is sent a `Register`, again after a pause if it refuses, and a portal
call goes out only to an owner that has accepted.

The main context is a step function: the name watcher, the answers of the
`Register` calls, the retry timers and the portal calls of the Space come in any
order. A portal call that waits for a response runs a nested loop, in which the
other events go on being handled; the broker leaves only when the outermost loop
looks at its flag.

`Register` is one-shot. When its answer is lost the broker cannot know whether
it is registered, and it quits so that a fresh connection can try again. Until it
has left, the same owner may lose the portal's name and get it back; `Fresh` is
the condition that this does not happen.
-/

namespace Spaces.HostBroker

open Spaces.Library

/-! ## State -/

/-- The errors of `g_dbus_connection_call_finish` that the broker tells apart. -/
inductive CallError where
  | ioTimedOut
  | noReply
  | timeout
  | timedOut
  | cancelled
  | other
  deriving DecidableEq

/-- Whether the portal may have accepted a call that failed so. -/
def CallError.ambiguous : CallError → Bool
  | .ioTimedOut | .noReply | .timeout | .timedOut => true
  | .cancelled | .other => false

/-- A `Register` call that has not been finished. `cancelled` is the state of
its cancellable, and `tenure` says in which tenure of the portal's name it was
sent. -/
structure PortalRegistration where
  cancellable : Nat
  owner : Option String
  cancelled : Bool
  tenure : Nat
  deriving DecidableEq

structure Timer where
  source : Nat
  delay : Nat
  deriving DecidableEq

/-- The fields of the source's `Broker` that its registration uses. -/
structure Broker where
  portalOwner : Option String := none
  portalRegistered : Bool := false
  portalRetry : Nat := 0
  portalRetryDelay : Nat := 0
  portalRegistration : Option Nat := none
  exitStatus : Nat := 0

/-- The broker in its main context. Owners that accepted a `Register` are
recorded with the tenure they accepted it in, and so are owners whose answer was
lost. -/
structure Context extends Broker where
  calls : List PortalRegistration := []
  timers : List Timer := []
  nextCancellable : Nat := 0
  nextSource : Nat := 1
  /-- The flag of the outermost loop. -/
  running : Bool := true
  /-- How many portal calls are waiting, each in a loop of its own. -/
  nested : Nat := 0
  exited : Bool := false
  tenure : Nat := 0
  accepted : List (Option String × Nat) := []
  unknown : List (Option String) := []

inductive Message where
  | register (owner : Option String)
  | portalCall (destination : String)
  deriving DecidableEq

/-! ## Handlers -/

/-- `g_cancellable_cancel`, seen from the call it was given to. -/
def PortalRegistration.cancel (cancellable : Nat) (call : PortalRegistration) :
    PortalRegistration :=
  if call.cancellable = cancellable then { call with cancelled := true } else call

def registerPortalIdentity (c : Context) : Context × List Message :=
  ({ c with
      portalRetry := 0
      portalRegistration := some c.nextCancellable
      nextCancellable := c.nextCancellable + 1
      calls := ⟨c.nextCancellable, c.portalOwner, false, c.tenure⟩ :: c.calls },
    [.register c.portalOwner])

def clearPortalIdentity (c : Context) : Context :=
  { c with
    calls := match c.portalRegistration with
      | some cancellable => c.calls.map (PortalRegistration.cancel cancellable)
      | none => c.calls
    portalRegistration := none
    timers := if c.portalRetry ≠ 0 then
        c.timers.filter fun timer => timer.source ≠ c.portalRetry
      else c.timers
    portalRetry := 0
    portalRegistered := false
    portalRetryDelay := 1
    portalOwner := none
    tenure := c.tenure + 1 }

def portalAppeared (c : Context) (owner : String) : Context × List Message :=
  registerPortalIdentity { clearPortalIdentity c with portalOwner := some owner }

def portalVanished (c : Context) : Context := clearPortalIdentity c

/-- `g_timeout_add_seconds`. -/
def addTimer (c : Context) (delay : Nat) : Context :=
  { c with
    timers := ⟨c.nextSource, delay⟩ :: c.timers
    nextSource := c.nextSource + 1 }

/-- `portal_registration_done`, for the call `call` that finished with `reply`. -/
def portalRegistrationDone (c : Context) (call : PortalRegistration)
    (reply : Except CallError Unit) : Context :=
  if c.portalRegistration ≠ some call.cancellable then c
  else
    let c := { c with portalRegistration := none }
    match reply with
    | .ok () => { c with portalRegistered := true }
    | .error error =>
      if error.ambiguous then { c with exitStatus := 1, running := false }
      else { addTimer c c.portalRetryDelay with
        portalRetry := c.nextSource
        portalRetryDelay := min (c.portalRetryDelay * 2) 30 }

/-- `portal_destination`, where the bus says that `busOwner` has the portal's
name. -/
def portalDestination (c : Context) (busOwner : Option String) : Option String :=
  match busOwner with
  | some owner =>
      if c.portalRegistered && c.portalOwner == some owner then some owner else none
  | none => none

/-! ## Steps -/

inductive Event where
  | appeared (owner : String)
  | vanished
  /-- The call with this cancellable is answered, or its time is over. -/
  | reply (cancellable : Nat) (reply : Except CallError Unit)
  | timer (source : Nat)
  /-- The Space asks for a portal call; `waits` if it waits for a response. -/
  | portalCall (busOwner : Option String) (waits : Bool)
  /-- The innermost waiting call is over. -/
  | returned
  | signal
  /-- The outermost loop looks at its flag. -/
  | turn

/-- GLib finishes a cancelled call as cancelled, whatever the bus said. -/
def callFinish (call : PortalRegistration) (reply : Except CallError Unit) :
    Except CallError Unit :=
  if call.cancelled then .error .cancelled else reply

/-- What an answer says about the owner, beside what the broker makes of it. -/
def recordReply (c : Context) (call : PortalRegistration)
    (reply : Except CallError Unit) : Context :=
  match reply with
  | .ok () => { c with accepted := (call.owner, call.tenure) :: c.accepted }
  | .error error =>
      if error.ambiguous then { c with unknown := call.owner :: c.unknown } else c

def handle (c : Context) : Event → Context × List Message
  | .appeared owner => portalAppeared c owner
  | .vanished => (portalVanished c, [])
  | .reply cancellable reply =>
    match c.calls.find? (·.cancellable == cancellable) with
    | some call =>
      let reply := callFinish call reply
      let c := recordReply
        { c with calls := c.calls.filter (·.cancellable ≠ cancellable) } call reply
      (portalRegistrationDone c call reply, [])
    | none => (c, [])
  | .timer source =>
    if source ∈ c.timers.map Timer.source then
      registerPortalIdentity
        { c with timers := c.timers.filter (·.source ≠ source) }
    else (c, [])
  | .portalCall busOwner waits =>
    match portalDestination c busOwner with
    | some destination =>
      (if waits then { c with nested := c.nested + 1 } else c,
        [.portalCall destination])
    | none => (c, [])
  | .returned => ({ c with nested := c.nested - 1 }, [])
  | .signal => ({ c with running := false }, [])
  | .turn =>
    if c.nested = 0 ∧ c.running = false then
      ({ clearPortalIdentity c with exited := true }, [])
    else (c, [])

/-- A broker that has left handles nothing. -/
def step (c : Context) (e : Event) : Context × List Message :=
  if c.exited then (c, []) else handle c e

def next (c : Context) (e : Event) : Context := (step c e).1

def emits (c : Context) (e : Event) : List Message := (step c e).2

/-- No owner whose answer to a `Register` was lost is announced again. -/
def Fresh (c : Context) : Event → Prop
  | .appeared owner => c.exited = false → some owner ∉ c.unknown
  | _ => True

/-! ## What holds of every run -/

/-- The pauses between one `Register` and the next, in seconds. -/
def backOff : List Nat := [1, 2, 4, 8, 16, 30]

theorem backOff_next {delay : Nat} (h : delay ∈ backOff) :
    min (delay * 2) 30 ∈ backOff := by
  simp only [backOff, List.mem_cons, List.not_mem_nil, or_false] at h ⊢
  omega

def inFlight (c : Context) : List PortalRegistration :=
  c.calls.filter fun call => !call.cancelled

structure Inv (c : Context) : Prop where
  distinct : (c.calls.map PortalRegistration.cancellable).Nodup
  issued : ∀ call ∈ c.calls, call.cancellable < c.nextCancellable
  live : ∀ call ∈ c.calls,
    c.portalRegistration = some call.cancellable ↔ call.cancelled = false
  current : ∀ call ∈ c.calls, call.cancelled = false →
    call.owner = c.portalOwner ∧ call.tenure = c.tenure
  retry : ∀ timer ∈ c.timers, timer.source = c.portalRetry ∧ timer.source ≠ 0 ∧
    timer.delay ∈ backOff
  oneTimer : c.timers.length ≤ 1
  started : c.nextSource ≠ 0
  paused : c.timers ≠ [] → c.portalOwner ≠ none ∧ c.portalRegistration = none ∧
    c.portalRegistered = false
  sent : c.portalRegistration ≠ none → c.portalOwner ≠ none
  owned : c.portalRegistered = true → c.portalOwner ≠ none
  accepted : c.portalRegistered = true → c.portalRegistration = none ∧
    (c.portalOwner, c.tenure) ∈ c.accepted
  delay : c.portalOwner ≠ none → c.portalRetryDelay ∈ backOff
  settled : c.portalOwner ∈ c.unknown →
    c.portalRegistration = none ∧ c.timers = []

theorem Inv.initial : Inv {} where
  distinct := List.nodup_nil
  issued := fun _ h => absurd h List.not_mem_nil
  live := fun _ h => absurd h List.not_mem_nil
  current := fun _ h => absurd h List.not_mem_nil
  retry := fun _ h => absurd h List.not_mem_nil
  oneTimer := Nat.zero_le 1
  started := Nat.one_ne_zero
  paused := fun h => absurd rfl h
  sent := fun h => absurd rfl h
  owned := nofun
  accepted := nofun
  delay := fun h => absurd rfl h
  settled := fun h => absurd h List.not_mem_nil

@[simp] theorem PortalRegistration.cancel_cancellable (cancellable : Nat)
    (call : PortalRegistration) :
    (call.cancel cancellable).cancellable = call.cancellable := by
  unfold PortalRegistration.cancel
  split <;> rfl

theorem PortalRegistration.cancel_cancelled (cancellable : Nat)
    (call : PortalRegistration) : (call.cancel cancellable).cancelled =
      (call.cancelled || call.cancellable == cancellable) := by
  unfold PortalRegistration.cancel
  split
  · next h => simp [h]
  · next h => simp [h]

/-! Clearing forgets the owner: no call is in flight and no timer armed. -/

variable {c : Context}

theorem Inv.clear_calls (hi : Inv c) : ∀ call ∈ (clearPortalIdentity c).calls,
    call.cancelled = true ∧ ∃ before ∈ c.calls, call.cancellable = before.cancellable := by
  intro call hcall
  unfold clearPortalIdentity at hcall
  dsimp only at hcall
  split at hcall
  · next cancellable hpending =>
      obtain ⟨before, hbefore, rfl⟩ := List.mem_map.mp hcall
      refine ⟨?_, before, hbefore, PortalRegistration.cancel_cancellable _ _⟩
      rw [PortalRegistration.cancel_cancelled]
      have hlive := hi.live before hbefore
      rw [hpending, Option.some_inj] at hlive
      cases hc : before.cancelled with
      | true => rfl
      | false => simp [hlive.mpr hc]
  · next hpending =>
      refine ⟨?_, call, hcall, rfl⟩
      have hlive := hi.live call hcall
      rw [hpending] at hlive
      cases hc : call.cancelled with
      | true => rfl
      | false => exact absurd (hlive.mpr hc) nofun

theorem clear_cancellables (c : Context) :
    (clearPortalIdentity c).calls.map PortalRegistration.cancellable =
      c.calls.map PortalRegistration.cancellable := by
  unfold clearPortalIdentity
  dsimp only
  split
  · rw [List.map_map]
    exact List.map_congr_left fun call _ =>
      PortalRegistration.cancel_cancellable _ call
  · rfl

theorem Inv.clear_timers (hi : Inv c) : (clearPortalIdentity c).timers = [] := by
  unfold clearPortalIdentity
  dsimp only
  split
  · refine List.filter_eq_nil_iff.mpr fun timer htimer => ?_
    simp [(hi.retry timer htimer).1]
  · next hretry =>
      cases htimers : c.timers with
      | nil => rfl
      | cons timer rest =>
          obtain ⟨hsource, hne, -⟩ := hi.retry timer (by rw [htimers]; exact .head _)
          rw [hsource] at hne
          exact absurd hne hretry

theorem Inv.clear (hi : Inv c) : Inv (clearPortalIdentity c) where
  distinct := (clear_cancellables c).symm ▸ hi.distinct
  issued := fun call hcall => by
    obtain ⟨-, before, hbefore, heq⟩ := hi.clear_calls call hcall
    rw [heq]
    exact hi.issued before hbefore
  live := fun call hcall => by
    rw [(hi.clear_calls call hcall).1]
    exact ⟨nofun, nofun⟩
  current := fun call hcall hlive => by
    rw [(hi.clear_calls call hcall).1] at hlive
    cases hlive
  retry := fun timer htimer => by
    rw [hi.clear_timers] at htimer
    exact absurd htimer List.not_mem_nil
  oneTimer := by
    rw [hi.clear_timers]
    exact Nat.zero_le 1
  started := hi.started
  paused := fun h => absurd hi.clear_timers h
  sent := fun h => absurd rfl h
  owned := nofun
  accepted := nofun
  delay := fun h => absurd rfl h
  settled := fun _ => ⟨rfl, hi.clear_timers⟩

/-- A `Register` goes out when no other one is in flight and no timer armed. -/
theorem Inv.register (hi : Inv c) (hpending : c.portalRegistration = none)
    (htimers : c.timers = []) (howner : c.portalOwner ≠ none)
    (hregistered : c.portalRegistered = false) (hdelay : c.portalRetryDelay ∈ backOff)
    (hfresh : c.portalOwner ∉ c.unknown) : Inv (registerPortalIdentity c).1 where
  distinct := by
    refine List.nodup_cons.mpr ⟨fun hmem => ?_, hi.distinct⟩
    obtain ⟨call, hcall, heq⟩ := List.mem_map.mp hmem
    exact Nat.lt_irrefl _ (heq ▸ hi.issued call hcall)
  issued := fun call hcall => by
    show call.cancellable < c.nextCancellable + 1
    rcases List.mem_cons.mp hcall with heq | hcall
    · rw [heq]
      exact Nat.lt_succ_self _
    · have hlt := hi.issued call hcall
      omega
  live := fun call hcall => by
    show some c.nextCancellable = some call.cancellable ↔ _
    rcases List.mem_cons.mp hcall with rfl | hcall
    · exact ⟨fun _ => rfl, fun _ => rfl⟩
    · have hlt := hi.issued call hcall
      have hlive := hi.live call hcall
      rw [hpending] at hlive
      rw [← hlive, Option.some_inj]
      exact ⟨fun h => absurd h (by omega), nofun⟩
  current := fun call hcall hlive => by
    rcases List.mem_cons.mp hcall with rfl | hcall
    · exact ⟨rfl, rfl⟩
    · exact hi.current call hcall hlive
  retry := fun timer htimer => by
    have htimer : timer ∈ c.timers := htimer
    rw [htimers] at htimer
    exact absurd htimer List.not_mem_nil
  oneTimer := hi.oneTimer
  started := hi.started
  paused := fun h => absurd htimers h
  sent := fun _ => howner
  owned := fun _ => howner
  accepted := fun h => absurd (hregistered.symm.trans h) nofun
  delay := fun _ => hdelay
  settled := fun h => absurd h hfresh

theorem Inv.appeared (hi : Inv c) {owner : String} (hfresh : some owner ∉ c.unknown) :
    Inv (portalAppeared c owner).1 := by
  have hclear := hi.clear
  refine Inv.register (c := { clearPortalIdentity c with portalOwner := some owner })
    ⟨hclear.distinct, hclear.issued, hclear.live, ?_, ?_, hclear.oneTimer,
      hclear.started, ?_, ?_, nofun, nofun, ?_, ?_⟩ rfl hi.clear_timers nofun rfl
      (by decide : 1 ∈ backOff) hfresh
  · intro call hcall hlive
    rw [(hi.clear_calls call hcall).1] at hlive
    cases hlive
  · exact hclear.retry
  · exact fun h => absurd hi.clear_timers h
  · exact fun _ => nofun
  · exact fun _ => (by decide : 1 ∈ backOff)
  · exact fun h => absurd h hfresh

theorem Inv.timer (hi : Inv c) {source : Nat}
    (hmem : source ∈ c.timers.map Timer.source) :
    Inv (registerPortalIdentity
      { c with timers := c.timers.filter (·.source ≠ source) }).1 := by
  obtain ⟨timer, htimer, rfl⟩ := List.mem_map.mp hmem
  have hne : c.timers ≠ [] := List.ne_nil_of_mem htimer
  obtain ⟨howner, hpending, hregistered⟩ := hi.paused hne
  have hnone : c.timers.filter (·.source ≠ timer.source) = [] := by
    refine List.filter_eq_nil_iff.mpr fun other hother => ?_
    rw [(hi.retry other hother).1, (hi.retry timer htimer).1]
    simp
  rw [hnone]
  refine Inv.register { hi with
    retry := fun other hother => absurd hother List.not_mem_nil
    oneTimer := Nat.zero_le 1
    paused := fun h => absurd rfl h
    settled := fun h => ⟨(hi.settled h).1, rfl⟩ } hpending rfl howner hregistered
    (hi.delay howner) ?_
  exact fun h => hne (hi.settled h).2

/-! ### An answer -/

theorem Inv.remove (hi : Inv c) (cancellable : Nat) :
    Inv { c with calls := c.calls.filter (·.cancellable ≠ cancellable) } :=
  { hi with
    distinct := hi.distinct.sublist (List.filter_sublist.map _)
    issued := fun call hcall => hi.issued call (List.mem_of_mem_filter hcall)
    live := fun call hcall => hi.live call (List.mem_of_mem_filter hcall)
    current := fun call hcall => hi.current call (List.mem_of_mem_filter hcall) }

/-- A call whose answer came for an attempt that is over says nothing. -/
theorem portalRegistrationDone_stale {call : PortalRegistration}
    (h : c.portalRegistration ≠ some call.cancellable)
    (reply : Except CallError Unit) : portalRegistrationDone c call reply = c :=
  if_pos h

theorem portalRegistrationDone_ok {call : PortalRegistration}
    (h : c.portalRegistration = some call.cancellable) :
    portalRegistrationDone c call (.ok ()) =
      { c with portalRegistration := none, portalRegistered := true } :=
  if_neg (not_not_intro h)

theorem portalRegistrationDone_ambiguous {call : PortalRegistration} {error : CallError}
    (h : c.portalRegistration = some call.cancellable) (he : error.ambiguous = true) :
    portalRegistrationDone c call (.error error) =
      { c with portalRegistration := none, exitStatus := 1, running := false } := by
  rw [portalRegistrationDone, if_neg (not_not_intro h)]
  exact if_pos he

theorem portalRegistrationDone_failed {call : PortalRegistration} {error : CallError}
    (h : c.portalRegistration = some call.cancellable) (he : error.ambiguous = false) :
    portalRegistrationDone c call (.error error) =
      { addTimer c c.portalRetryDelay with
        portalRegistration := none
        portalRetry := c.nextSource
        portalRetryDelay := min (c.portalRetryDelay * 2) 30 } := by
  rw [portalRegistrationDone, if_neg (not_not_intro h)]
  exact if_neg (by rw [he]; nofun)

/-- The call in flight has been answered and is out of the list. -/
theorem Inv.finished (hi : Inv c) {call : PortalRegistration} (hcall : call ∈ c.calls)
    (hlive : call.cancelled = false) :
    Inv { c with
      calls := c.calls.filter (·.cancellable ≠ call.cancellable)
      portalRegistration := none } := by
  have hpending := (hi.live call hcall).mpr hlive
  refine { hi.remove call.cancellable with
    live := fun other hother => ⟨nofun, fun hother' => ?_⟩
    paused := fun h => absurd ((hi.paused h).2.1.symm.trans hpending) nofun
    sent := fun h => absurd rfl h
    accepted := fun h => absurd ((hi.accepted h).1.symm.trans hpending) nofun
    settled := fun h => ⟨rfl, (hi.settled h).2⟩ }
  have hmem := List.mem_filter.mp hother
  have hsame := (hi.live other hmem.1).mpr hother'
  rw [hpending, Option.some_inj] at hsame
  exact absurd hmem.2 (by simp [hsame])

theorem Inv.reply (hi : Inv c) {call : PortalRegistration} (hcall : call ∈ c.calls)
    (hlive : call.cancelled = false) (reply : Except CallError Unit) :
    Inv (portalRegistrationDone (recordReply
      { c with calls := c.calls.filter (·.cancellable ≠ call.cancellable) } call reply)
      call reply) := by
  have hpending := (hi.live call hcall).mpr hlive
  have hdone := hi.finished hcall hlive
  have howner : c.portalOwner ≠ none := hi.sent (by rw [hpending]; nofun)
  have htimers : c.timers = [] := by
    by_contra h
    exact absurd ((hi.paused h).2.1.symm.trans hpending) nofun
  obtain ⟨hsame, htenure⟩ := hi.current call hcall hlive
  cases reply with
  | ok value =>
      cases value
      rw [recordReply, portalRegistrationDone_ok]
      · refine { hdone with
          paused := fun h => absurd htimers h
          owned := fun _ => howner
          accepted := fun _ => ⟨rfl, ?_⟩ }
        show (c.portalOwner, c.tenure) ∈ (call.owner, call.tenure) :: c.accepted
        rw [hsame, htenure]
        exact .head _
      · exact hpending
  | error error =>
      cases hambiguous : error.ambiguous with
      | true =>
          rw [recordReply, if_pos hambiguous, portalRegistrationDone_ambiguous]
          · exact { hdone with settled := fun _ => ⟨rfl, htimers⟩ }
          · exact hpending
          · exact hambiguous
      | false =>
          have hregistered : c.portalRegistered = false := by
            cases h : c.portalRegistered with
            | false => rfl
            | true => exact absurd ((hi.accepted h).1.symm.trans hpending) nofun
          rw [recordReply, if_neg (by rw [hambiguous]; nofun),
            portalRegistrationDone_failed]
          · refine { hdone with
              retry := fun timer htimer => ?_
              oneTimer := ?_
              started := Nat.succ_ne_zero _
              paused := fun _ => ⟨howner, rfl, hregistered⟩
              delay := fun _ => backOff_next (hi.delay howner)
              settled := fun h =>
                absurd ((hi.settled h).1.symm.trans hpending) nofun }
            · have htimer : timer ∈ ⟨c.nextSource, c.portalRetryDelay⟩ :: c.timers :=
                htimer
              rw [htimers, List.mem_singleton] at htimer
              rw [htimer]
              exact ⟨rfl, hi.started, hi.delay howner⟩
            · show (⟨c.nextSource, c.portalRetryDelay⟩ :: c.timers).length ≤ 1
              rw [htimers]
              exact Nat.le_refl 1
          · exact hpending
          · exact hambiguous

theorem Inv.answer (hi : Inv c) (cancellable : Nat) (reply : Except CallError Unit) :
    Inv (handle c (.reply cancellable reply)).1 := by
  rw [handle]
  split
  · next call hfind =>
      have hcall := List.mem_of_find?_eq_some hfind
      have hsame : call.cancellable = cancellable := by
        simpa using List.find?_some hfind
      subst hsame
      cases hlive : call.cancelled with
      | false => simpa [callFinish, hlive] using hi.reply hcall hlive reply
      | true =>
          have hstale : c.portalRegistration ≠ some call.cancellable := fun h =>
            absurd (((hi.live call hcall).mp h).symm.trans hlive) nofun
          simp only [callFinish, hlive, if_true]
          rw [portalRegistrationDone_stale]
          · exact hi.remove call.cancellable
          · exact hstale
  · exact hi

theorem Inv.handle (hi : Inv c) {e : Event} (hexit : c.exited = false)
    (hok : Fresh c e) : Inv (handle c e).1 := by
  cases e with
  | appeared owner => exact hi.appeared (hok hexit)
  | vanished => exact hi.clear
  | reply cancellable reply => exact hi.answer cancellable reply
  | timer source =>
      rw [HostBroker.handle]
      split
      · next hmem => exact hi.timer hmem
      · exact hi
  | portalCall busOwner waits =>
      rw [HostBroker.handle]
      split
      · split
        · exact { hi with }
        · exact hi
      · exact hi
  | returned => exact { hi with }
  | signal => exact { hi with }
  | turn =>
      rw [HostBroker.handle]
      split
      · exact { hi.clear with }
      · exact hi

theorem Inv.step (hi : Inv c) {e : Event} (hok : Fresh c e) : Inv (next c e) := by
  unfold next HostBroker.step
  split
  · exact hi
  · next hexit => exact hi.handle (Bool.eq_false_iff.mpr hexit) hok

/-! ## The registration as a whole -/

/-- What the broker keeps to, in a state and in the step it takes next. -/
structure Registered (c : Context) : Prop where
  /-- A registered broker was accepted by the current owner in its tenure. -/
  certified : c.portalRegistered = true →
    ∃ owner, c.portalOwner = some owner ∧ (some owner, c.tenure) ∈ c.accepted
  portalCalls : ∀ e destination, .portalCall destination ∈ emits c e →
    c.portalRegistered = true ∧ c.portalOwner = some destination
  oneCall : (inFlight c).length ≤ 1
  oneTimer : c.timers.length ≤ 1
  /-- The answer to a call of an earlier tenure changes nothing but the list of
  calls. -/
  stale : ∀ call ∈ c.calls, call.tenure ≠ c.tenure → ∀ reply,
    (next c (.reply call.cancellable reply)).toBroker = c.toBroker ∧
      (next c (.reply call.cancellable reply)).timers = c.timers ∧
      (next c (.reply call.cancellable reply)).running = c.running
  fresh : ∀ e owner, Fresh c e → .register owner ∈ emits c e →
    owner ≠ none ∧ owner ∉ c.unknown
  delays : ∀ timer ∈ c.timers, timer.delay ∈ backOff
  nextDelay : c.portalOwner ≠ none → c.portalRetryDelay ∈ backOff

theorem Inv.certified (hi : Inv c) (h : c.portalRegistered = true)
    (howner : c.portalOwner ≠ none) :
    ∃ owner, c.portalOwner = some owner ∧ (some owner, c.tenure) ∈ c.accepted := by
  obtain ⟨owner, howner⟩ := Option.ne_none_iff_exists'.mp howner
  exact ⟨owner, howner, howner ▸ (hi.accepted h).2⟩

theorem emits_portalCall {e : Event} {destination : String}
    (h : .portalCall destination ∈ emits c e) :
    c.portalRegistered = true ∧ c.portalOwner = some destination := by
  unfold emits step at h
  split at h
  · exact absurd h List.not_mem_nil
  · cases e with
    | portalCall busOwner waits =>
        rw [handle] at h
        split at h
        · next found hfound =>
            rw [List.mem_singleton] at h
            injection h with h
            subst h
            cases busOwner with
            | none => cases hfound
            | some owner =>
                unfold portalDestination at hfound
                dsimp only at hfound
                split at hfound
                · next hboth =>
                    injection hfound with hfound
                    subst hfound
                    simpa using hboth
                · cases hfound
        · exact absurd h List.not_mem_nil
    | appeared owner =>
        rcases List.mem_singleton.mp h with h
        cases h
    | timer source =>
        rw [handle] at h
        split at h
        · rcases List.mem_singleton.mp h with h
          cases h
        · exact absurd h List.not_mem_nil
    | reply cancellable reply =>
        rw [handle] at h
        split at h <;> exact absurd h List.not_mem_nil
    | vanished => exact absurd h List.not_mem_nil
    | returned => exact absurd h List.not_mem_nil
    | signal => exact absurd h List.not_mem_nil
    | turn =>
        rw [handle] at h
        split at h <;> exact absurd h List.not_mem_nil

theorem emits_register {e : Event} {owner : Option String}
    (h : .register owner ∈ emits c e) : c.exited = false ∧
      ((∃ name, e = .appeared name ∧ owner = some name) ∨
        (c.timers ≠ [] ∧ owner = c.portalOwner)) := by
  unfold emits step at h
  split at h
  · exact absurd h List.not_mem_nil
  · next hexit =>
    refine ⟨Bool.eq_false_iff.mpr hexit, ?_⟩
    cases e with
    | appeared name =>
        rcases List.mem_singleton.mp h with h
        injection h with h
        exact .inl ⟨name, rfl, h⟩
    | timer source =>
        rw [handle] at h
        split at h
        · next hmem =>
            rcases List.mem_singleton.mp h with h
            injection h with h
            obtain ⟨timer, htimer, -⟩ := List.mem_map.mp hmem
            exact .inr ⟨List.ne_nil_of_mem htimer, h⟩
        · exact absurd h List.not_mem_nil
    | portalCall busOwner waits =>
        rw [handle] at h
        split at h
        · rcases List.mem_singleton.mp h with h
          cases h
        · exact absurd h List.not_mem_nil
    | reply cancellable reply =>
        rw [handle] at h
        split at h <;> exact absurd h List.not_mem_nil
    | vanished => exact absurd h List.not_mem_nil
    | returned => exact absurd h List.not_mem_nil
    | signal => exact absurd h List.not_mem_nil
    | turn =>
        rw [handle] at h
        split at h <;> exact absurd h List.not_mem_nil

theorem Inv.fresh (hi : Inv c) {e : Event} {owner : Option String} (hok : Fresh c e)
    (h : .register owner ∈ emits c e) : owner ≠ none ∧ owner ∉ c.unknown := by
  obtain ⟨hexit, ⟨name, rfl, rfl⟩ | ⟨htimers, rfl⟩⟩ := emits_register h
  · exact ⟨nofun, hok hexit⟩
  · exact ⟨(hi.paused htimers).1, fun hunknown => htimers (hi.settled hunknown).2⟩

theorem Inv.oneCall (hi : Inv c) : (inFlight c).length ≤ 1 := by
  cases hcalls : inFlight c with
  | nil => exact Nat.zero_le 1
  | cons first rest =>
    cases rest with
    | nil => exact Nat.le_refl 1
    | cons second rest =>
      have hnodup : ((inFlight c).map PortalRegistration.cancellable).Nodup :=
        hi.distinct.sublist (List.filter_sublist.map _)
      have hpending : ∀ call ∈ inFlight c,
          c.portalRegistration = some call.cancellable := fun call hcall =>
        (hi.live call (List.mem_of_mem_filter hcall)).mpr
          (by simpa using (List.mem_filter.mp hcall).2)
      have hfirst := hpending first (by rw [hcalls]; exact .head _)
      have hsecond := hpending second (by rw [hcalls]; exact .tail _ (.head _))
      rw [hfirst, Option.some_inj] at hsecond
      rw [hcalls, List.map_cons, List.map_cons, hsecond] at hnodup
      exact absurd (List.mem_cons_self) (List.nodup_cons.mp hnodup).1

theorem Inv.stale (hi : Inv c) {call : PortalRegistration} (hcall : call ∈ c.calls)
    (htenure : call.tenure ≠ c.tenure) (reply : Except CallError Unit) :
    (next c (.reply call.cancellable reply)).toBroker = c.toBroker ∧
      (next c (.reply call.cancellable reply)).timers = c.timers ∧
      (next c (.reply call.cancellable reply)).running = c.running := by
  unfold next HostBroker.step
  split
  · exact ⟨rfl, rfl, rfl⟩
  · rw [HostBroker.handle]
    split
    · next found hfind =>
        have hfound := List.mem_of_find?_eq_some hfind
        have hsame : found.cancellable = call.cancellable := by
          simpa using List.find?_some hfind
        have heq : found = call :=
          List.inj_on_of_nodup_map hi.distinct hfound hcall hsame
        subst heq
        have hcancelled : found.cancelled = true := by
          by_contra hlive
          exact htenure (hi.current found hcall (Bool.eq_false_iff.mpr hlive)).2
        have hother : c.portalRegistration ≠ some found.cancellable := fun h =>
          absurd (((hi.live found hcall).mp h).symm.trans hcancelled) nofun
        simp only [callFinish, hcancelled, if_true]
        rw [portalRegistrationDone_stale]
        · exact ⟨rfl, rfl, rfl⟩
        · exact hother
    · exact ⟨rfl, rfl, rfl⟩

/-- `Fresh` is needed for the `Register` calls only: the owner is sent a second
one when it is announced again. -/
theorem registered_of_fresh {c : Context} (h : Guarded next Fresh {} c) :
    Registered c := by
  have hi : Inv c := h.invariant Inv.initial fun _ _ hi hok => hi.step hok
  exact {
    certified := fun hregistered => hi.certified hregistered (hi.owned hregistered)
    portalCalls := fun _ _ hemit => emits_portalCall hemit
    oneCall := hi.oneCall
    oneTimer := hi.oneTimer
    stale := fun _ hcall htenure reply => hi.stale hcall htenure reply
    fresh := fun _ _ hok hemit => hi.fresh hok hemit
    delays := fun timer htimer => (hi.retry timer htimer).2.2
    nextDelay := hi.delay }

/-! ## A lost answer -/

/-- The owner of the portal's name accepts, and a portal call waits for its
response. -/
def sampleWaiting : Context :=
  [.appeared ":1.2", .reply 0 (.ok ()), .portalCall (some ":1.2") true].foldl next {}

theorem registered_sample : Registered sampleWaiting := by
  refine registered_of_fresh (.step (.step (.step .start ?_) trivial) trivial)
  exact fun _ => List.not_mem_nil

/-- The waiting call keeps the broker in its loop after another owner's answer
was lost, and that owner takes the portal's name a second time. -/
theorem lost_answer_registers_again : ¬ ∀ c, Reachable next {} c →
    ∀ e owner, .register owner ∈ emits c e → owner ∉ c.unknown := by
  intro h
  refine h ([.appeared ":1.9", .reply 1 (.error .ioTimedOut), .turn, .vanished].foldl
    next sampleWaiting) ?_ (.appeared ":1.9") (some ":1.9") ?_ ?_
  · exact .step (.step (.step (.step (.step (.step (.step .start trivial) trivial)
      trivial) trivial) trivial) trivial) trivial
  · decide
  · decide

end Spaces.HostBroker
