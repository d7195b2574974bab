import Spaces.Computer.Service
import Spaces.Mcp.Discipline

/-!
# What the host owes one of its clients

The host serves all of its clients from one queue and one loop. Seen from one of
them, most of what it does is nothing: `View` keeps the lines of the client that
are still queued, whether one of them is being executed, and what the two have
said to each other so far. `View.Served` lists what any input of the host, other
than a line of the client itself, can do to it. A line that is taken from the
queue is answered at most once, and nothing is answered that was not taken.
-/

namespace Spaces.Computer

open Spaces.Library Json Spaces.Mcp

/-- A line that the host queued or took from the queue, or a reply. -/
inductive Said where
  | heard (document : Option Json)
  | began (document : Option Json)
  | answered (reply : Json)

def Event.said (client : Nat) : Event → Option Said
  | .received c document => if c = client then some (.heard document) else none
  | .started _ c document => if c = client then some (.began document) else none
  | .replied c reply => if c = client then some (.answered reply) else none
  | _ => none

def HostEvent.lineOf (client : Nat) : HostEvent → Option (Option Json)
  | .call c document => if c = client then some document else none
  | _ => none

/-- The host from one client's side, its dialogue newest first. -/
structure View where
  waiting : List (Option Json) := []
  busy : Bool := false
  dialogue : List Said := []

def Host.view (s : Host) (client : Nat) : View where
  waiting := s.events.filterMap (HostEvent.lineOf client)
  busy := s.running.any (·.client == client)
  dialogue := s.trace.filterMap (Event.said client)

/-- What the host does to the view by anything but hearing another line. -/
inductive View.Served : View → View → Prop where
  | same {v : View} : Served v v
  /-- A line of a client that is gone. -/
  | dropped {d : Option Json} {w : List (Option Json)} {t : List Said} :
      Served ⟨d :: w, false, t⟩ ⟨w, false, t⟩
  | began {d : Option Json} {w : List (Option Json)} {t : List Said} :
      Served ⟨d :: w, false, t⟩ ⟨w, true, .began d :: t⟩
  /-- A line that is answered without being executed. -/
  | answered {d : Option Json} {w : List (Option Json)} {t : List Said} {reply : Json} :
      Served ⟨d :: w, false, t⟩ ⟨w, false, .answered reply :: .began d :: t⟩
  | passed {d : Option Json} {w : List (Option Json)} {t : List Said} :
      Served ⟨d :: w, false, t⟩ ⟨w, false, .began d :: t⟩
  | finished {w : List (Option Json)} {t : List Said} {reply : Json} :
      Served ⟨w, true, t⟩ ⟨w, false, .answered reply :: t⟩
  /-- A cancelled call is not answered. -/
  | silenced {w : List (Option Json)} {t : List Said} : Served ⟨w, true, t⟩ ⟨w, false, t⟩

theorem View.eq_of_busy {v : View} {busy : Bool} (h : v.busy = busy) :
    v = ⟨v.waiting, busy, v.dialogue⟩ := by
  subst h
  rfl

namespace Host

variable {s : Host} {c : Nat}

/-! ## Operations that no client's view depends on -/

@[simp] theorem view_setClient (client : Nat) (f : HostClient → HostClient) :
    (s.setClient client f).view c = s.view c := rfl

@[simp] theorem view_setLease (lease : Nat) (f : HostLease → HostLease) :
    (s.setLease lease f).view c = s.view c := rfl

@[simp] theorem view_clientClose (client : Nat) : (s.clientClose client).view c = s.view c := by
  unfold clientClose
  split
  · rfl
  · split
    · rfl
    · rfl

@[simp] theorem view_queue_register (lease : Nat) :
    (s.queue (.register lease)).view c = s.view c := by
  simp [queue, view, HostEvent.lineOf]

@[simp] theorem view_queue_revoke (lease : Nat) :
    (s.queue (.revoke lease)).view c = s.view c := by
  simp [queue, view, HostEvent.lineOf]

@[simp] theorem view_revoke (lease : Nat) : (s.revoke lease).view c = s.view c := by
  unfold revoke
  split
  · rfl
  · split
    · rfl
    · dsimp only
      rw [view_queue_revoke]
      exact List.foldlRecOn (motive := fun t : Host => t.view c = s.view c) _ _ rfl
        fun t ht client _ => (view_clientClose client.serial).trans ht

theorem view_accept (lease : Nat) (trusted : Bool) :
    (s.accept lease trusted).view c = s.view c := by
  unfold accept
  split
  · rfl
  · split
    · rfl
    · rfl

theorem view_controlRead (lease : Nat) (control : Control) :
    (s.controlRead lease control).view c = s.view c := by
  unfold controlRead
  split
  · rfl
  split
  · rfl
  split
  · exact view_revoke lease
  split
  · rfl
  · rw [view_queue_register, view_setLease]
  · exact view_revoke lease
  · exact view_revoke lease

theorem view_controlAccept : s.controlAccept.view c = s.view c := by
  unfold controlAccept
  split
  · rfl
  · rfl

theorem view_idle (lease : Nat) : (s.idle lease).view c = s.view c := by
  unfold idle
  split
  · split
    · exact view_revoke lease
    · rfl
  · rfl

theorem view_collect : s.collect.view c = s.view c := by
  unfold collect
  split
  · rfl
  · rfl

/-! ## Lines -/

/-- A line of another client. -/
theorem view_line_of_ne {client : Nat} (h : client ≠ c) (document : Option Json) :
    (s.line client document).view c = s.view c := by
  unfold line
  split
  · rfl
  split
  · rfl
  split
  · rfl
  split
  · simp [view, log, queue, setClient, HostEvent.lineOf, Event.said, h]
  · exact view_clientClose client

/-- The client's own line, which is queued or not. -/
theorem view_line (document : Option Json) :
    (s.line c document).view c = s.view c ∨
      (s.line c document).view c =
        { (s.view c) with
          waiting := (s.view c).waiting ++ [document]
          dialogue := .heard document :: (s.view c).dialogue } := by
  unfold line
  split
  · exact .inl rfl
  split
  · exact .inl rfl
  split
  · exact .inl rfl
  split
  · right
    simp [view, log, queue, setClient, HostEvent.lineOf, Event.said]
  · exact .inl (view_clientClose c)

/-! ## The end of a call -/

theorem view_finishCall (running : Running) (outcome : Outcome) :
    (s.finishCall running outcome).view c = { (s.view c) with busy := false } ∨
      running.client = c ∧ ∃ reply, (s.finishCall running outcome).view c =
        { waiting := (s.view c).waiting
          busy := false
          dialogue := .answered reply :: (s.view c).dialogue } := by
  unfold finishCall
  dsimp only
  split
  · exact .inl rfl
  split
  · split
    · exact .inl rfl
    · by_cases hclient : running.client = c
      · right
        refine ⟨hclient, sendResult s.session.modern running.call.id
          (callResult false running.call outcome), ?_⟩
        simp [view, log, setClient, Event.said, hclient]
      · left
        simp [view, log, setClient, Event.said, hclient]
  · exact .inl rfl

/-- The end of the call that runs. -/
theorem served_finishCall {running : Running} (h : s.running = some running)
    (outcome : Outcome) : View.Served (s.view c) ((s.finishCall running outcome).view c) := by
  have hbusy : (s.view c).busy = (running.client == c) := by
    rw [view, h]
    rfl
  rcases view_finishCall running outcome with hview | ⟨hclient, reply, hview⟩
  · rw [hview]
    cases hclient : (s.view c).busy with
    | true =>
        rw [View.eq_of_busy hclient]
        exact .silenced
    | false =>
        rw [View.eq_of_busy hclient]
        exact .same
  · have htrue : (s.view c).busy = true := by simp [hbusy, hclient]
    rw [hview, View.eq_of_busy htrue]
    exact .finished

theorem served_tick (failure : Option Failure) :
    View.Served (s.view c) ((s.tick failure).view c) := by
  unfold tick
  split
  · exact .same
  rename_i running hrunning
  split
  · exact .same
  split
  · have hlog : (s.log (.suppressed running.client running.call.id)).running = some running :=
      hrunning
    exact served_finishCall hlog (.ok [])
  split
  · exact served_finishCall hrunning _
  split
  · exact .same
  · rename_i client hclient
    have hview : Host.view { s with
          running := some { running with executing := true }
          trace := .executed client.lease running.client running.call.id :: s.trace } c
        = s.view c := by
      simp only [view, hrunning]
      rfl
    rw [hview]
    exact .same

theorem served_finish (outcome : Outcome) :
    View.Served (s.view c) ((s.finish outcome).view c) := by
  unfold finish
  split
  · exact .same
  split
  · exact served_finishCall ‹_› outcome
  · exact .same

/-! ## The next event of the queue -/

/-- A document is answered at once by at most one reply. -/
theorem replies_of_handles {session session' : Session} {request : Json} {replies : List Json}
    (h : Handles session request (session', .finished replies)) :
    replies = [] ∨ ∃ reply, replies = [reply] := by
  cases h with
  | invalid => exact .inr ⟨_, rfl⟩
  | initialized => exact .inl rfl
  | notification => exact .inl rfl
  | request _ _ _ hanswers =>
      cases hanswers with
      | answered => exact .inr ⟨_, rfl⟩

theorem view_log_replies {client : Nat} (h : client ≠ c) (replies : List Json) :
    (replies.map (Event.replied client) ++ s.trace).filterMap (Event.said c)
      = (s.view c).dialogue := by
  rw [List.filterMap_append]
  have hnone : (replies.map (Event.replied client)).filterMap (Event.said c) = [] := by
    induction replies with
    | nil => rfl
    | cons reply replies ih =>
        have hreply : (Event.replied client reply).said c = none := if_neg h
        rw [List.map_cons, List.filterMap_cons_none hreply, ih]
  rw [hnone]
  rfl

theorem view_log_reply (reply : Json) : (s.log (.replied c reply)).view c =
    ⟨(s.view c).waiting, (s.view c).busy, .answered reply :: (s.view c).dialogue⟩ := by
  simp [view, log, Event.said]

/-- A line of another client is taken from the queue. -/
theorem view_call_of_ne (h : s.running = none) {client : HostClient} (hne : client.serial ≠ c)
    (document : Option Json) : (s.call client document).view c = s.view c := by
  have hbusy : (s.view c).busy = false := by rw [view, h]; rfl
  have hlog : (s.log (.started client.lease client.serial document)).view c = s.view c := by
    simp [view, log, Event.said, hne]
  unfold call
  dsimp only
  split
  · rfl
  split
  · simp [view, log, Event.said, hne, setClient]
  · rename_i document
    split
    · rename_i session replies _
      refine Eq.trans ?_ hlog
      simp only [view, setClient, View.mk.injEq, true_and]
      exact view_log_replies hne replies
    · rename_i session call _
      split
      · refine Eq.trans ?_ (View.eq_of_busy hbusy).symm
        simp [view, log, Event.said, hne]
      · rcases view_finishCall { client := client.serial, call } (.ok []) with
          hview | ⟨hclient, -⟩
        · rw [hview, View.eq_of_busy hbusy]
          exact congrArg (fun v : View => { v with busy := false }) hlog
        · exact absurd hclient hne

/-- A line of the client itself is. -/
theorem served_call (h : s.running = none) {client : HostClient} (hclient : client.serial = c)
    (document : Option Json) :
    View.Served ⟨document :: (s.view c).waiting, false, (s.view c).dialogue⟩
      ((s.call client document).view c) := by
  have hbusy : (s.view c).busy = false := by rw [view, h]; rfl
  have hlog : (s.log (.started client.lease client.serial document)).view c =
      ⟨(s.view c).waiting, false, .began document :: (s.view c).dialogue⟩ := by
    rw [← hbusy]
    simp [view, log, Event.said, hclient]
  unfold call
  dsimp only
  split
  · rw [view_setClient, View.eq_of_busy hbusy]
    exact .dropped
  generalize s.log (.started client.lease client.serial document) = started at hlog
  have hwaiting : started.events.filterMap (HostEvent.lineOf c) = (s.view c).waiting :=
    congrArg View.waiting hlog
  have hrunning : started.running.any (·.client == c) = false := congrArg View.busy hlog
  have htrace : started.trace.filterMap (Event.said c) = .began document :: (s.view c).dialogue :=
    congrArg View.dialogue hlog
  split
  · rw [view_setClient, hclient, view_log_reply, hlog]
    exact .answered
  rename_i document
  have hhandles := handleRequest_handles false started.session document
  have hanswered : ∀ reply, View.Served ⟨some document :: (s.view c).waiting, false,
      (s.view c).dialogue⟩ ⟨(s.view c).waiting, false,
        .answered reply :: .began (some document) :: (s.view c).dialogue⟩ :=
    fun _ => .answered
  have hpassed : View.Served ⟨some document :: (s.view c).waiting, false, (s.view c).dialogue⟩
      ⟨(s.view c).waiting, false, .began (some document) :: (s.view c).dialogue⟩ := .passed
  split
  · rename_i session replies hresult
    rw [hresult] at hhandles
    rw [view_setClient, hclient]
    rcases replies_of_handles hhandles with rfl | ⟨reply, rfl⟩
    · simpa [view, hwaiting, hrunning, htrace] using hpassed
    · simpa [view, hwaiting, hrunning, htrace, Event.said] using hanswered reply
  · rename_i session call _
    split
    · have hbegan : View.Served ⟨some document :: (s.view c).waiting, false,
          (s.view c).dialogue⟩ ⟨(s.view c).waiting, true,
            .began (some document) :: (s.view c).dialogue⟩ := .began
      simpa [view, hwaiting, htrace, hclient] using hbegan
    · rcases view_finishCall { client := client.serial, call } (.ok []) with
        hview | ⟨-, reply, hview⟩
      · rw [hview]
        simpa [view, hwaiting, htrace] using hpassed
      · rw [hview]
        simpa [view, hwaiting, htrace] using hanswered reply

theorem client?_serial {serial : Nat} {client : HostClient} (h : s.client? serial = some client) :
    client.serial = serial := by
  have hfound := List.find?_some h
  exact beq_iff_eq.mp hfound

/-- An event that is no line of the client is taken from the queue. -/
theorem view_taken {event : HostEvent} {events : List HostEvent}
    (hevents : s.events = event :: events) (hline : event.lineOf c = none) :
    Host.view { s with events } c = s.view c := by
  simp only [view, hevents, List.filterMap_cons_none hline]

theorem served_turn (bound told : Bool) : View.Served (s.view c) ((s.turn bound told).view c) := by
  unfold turn
  split
  · exact .same
  · exact .same
  · rename_i serial document events hrunning hevents
    have hbusy : (s.view c).busy = false := by rw [view, hrunning]; rfl
    dsimp only
    by_cases hserial : serial = c
    · have hview : s.view c = ⟨document :: events.filterMap (HostEvent.lineOf c), false,
          (s.view c).dialogue⟩ := by
        rw [View.eq_of_busy hbusy]
        simp [view, hevents, HostEvent.lineOf, hserial]
      rw [hview]
      split
      · have hafter : Host.view { s with events } c =
            ⟨events.filterMap (HostEvent.lineOf c), false, (s.view c).dialogue⟩ :=
          View.eq_of_busy hbusy
        rw [hafter]
        exact .dropped
      · rename_i client hclient
        have hserved : client.serial = c := (client?_serial hclient).trans hserial
        exact served_call (s := { s with events }) hrunning hserved document
    · have hview : Host.view { s with events } c = s.view c := view_taken hevents (if_neg hserial)
      split
      · rw [hview]
        exact .same
      · rename_i client hclient
        have hserved : client.serial ≠ c := by
          rw [client?_serial hclient]
          exact hserial
        have hcall := view_call_of_ne (s := { s with events }) hrunning hserved document
        rw [hcall, hview]
        exact .same
  · rename_i lease events _ hevents
    have hview : Host.view { s with events } c = s.view c := view_taken hevents rfl
    dsimp only
    split
    · rw [hview]
      exact .same
    split
    · rw [hview]
      exact .same
    split
    · rw [view_setLease]
      exact hview ▸ .same
    · rw [view_revoke]
      exact hview ▸ .same
  · rename_i lease events _ hevents
    have hview : Host.view { s with events } c = s.view c := view_taken hevents rfl
    dsimp only
    split
    · rw [hview]
      exact .same
    rw [view_setLease]
    split
    · exact hview ▸ .same
    · exact hview ▸ .same

/-! ## Any input -/

/-- What an input does to a client's view, unless it is a line of the client. -/
theorem served_step {input : Input} (h : ∀ document, input ≠ .line c document) :
    View.Served (s.view c) ((s.step input).view c) := by
  cases input with
  | controlAccept => exact view_controlAccept (s := s) (c := c) ▸ .same
  | controlRead lease control => exact view_controlRead (s := s) (c := c) lease control ▸ .same
  | accept lease trusted => exact view_accept (s := s) (c := c) lease trusted ▸ .same
  | line client document =>
      have hne : client ≠ c := fun heq => h document (heq ▸ rfl)
      exact view_line_of_ne (s := s) hne document ▸ .same
  | hangup client => exact view_clientClose (s := s) (c := c) client ▸ .same
  | turn bound told => exact served_turn bound told
  | tick failure => exact served_tick failure
  | finish outcome => exact served_finish outcome
  | idle lease => exact view_idle (s := s) (c := c) lease ▸ .same
  | collect => exact view_collect (s := s) (c := c) ▸ .same

/-! ## The numbers of the clients -/

/-- The numbers of the clients there are, and the last number given. -/
def roster (s : Host) : List Nat × Nat := (s.clients.map HostClient.serial, s.serial)

theorem roster_setClient {f : HostClient → HostClient}
    (hf : ∀ client, (f client).serial = client.serial) (client : Nat) :
    (s.setClient client f).roster = s.roster := by
  simp only [roster, setClient, List.map_map, Prod.mk.injEq, and_true]
  refine List.map_congr_left fun other _ => ?_
  simp only [Function.comp_apply]
  split
  · exact hf other
  · rfl

theorem roster_pending (client : Nat) (p : HostClient → Nat) :
    (s.setClient client fun c => { c with pending := p c }).roster = s.roster :=
  roster_setClient (by intro; rfl) client

@[simp] theorem roster_log (event : Event) : (s.log event).roster = s.roster := rfl

@[simp] theorem roster_setLease (lease : Nat) (f : HostLease → HostLease) :
    (s.setLease lease f).roster = s.roster := rfl

@[simp] theorem roster_clientClose (client : Nat) : (s.clientClose client).roster = s.roster := by
  unfold clientClose
  split
  · rfl
  · split
    · rfl
    · have hclosed : (s.setClient client fun c => { c with closed := true }).roster = s.roster :=
        roster_setClient (by intro; rfl) client
      exact hclosed

@[simp] theorem roster_queue (event : HostEvent) : (s.queue event).roster = s.roster := by
  cases event with
  | call client document => exact roster_pending (s := s) client fun c => c.pending + 1
  | register lease => rfl
  | revoke lease => rfl

@[simp] theorem roster_revoke (lease : Nat) : (s.revoke lease).roster = s.roster := by
  unfold revoke
  split
  · rfl
  · split
    · rfl
    · dsimp only
      rw [roster_queue]
      exact List.foldlRecOn (motive := fun t : Host => t.roster = s.roster) _ _ rfl
        fun t ht client _ => (roster_clientClose client.serial).trans ht

theorem roster_line (client : Nat) (document : Option Json) :
    (s.line client document).roster = s.roster := by
  unfold line
  split
  · rfl
  split
  · rfl
  split
  · rfl
  split
  · rw [roster_log, roster_queue]
  · exact roster_clientClose client

theorem roster_controlRead (lease : Nat) (control : Control) :
    (s.controlRead lease control).roster = s.roster := by
  unfold controlRead
  split
  · rfl
  split
  · rfl
  split
  · exact roster_revoke lease
  split
  · rfl
  · rw [roster_queue, roster_setLease]
  · exact roster_revoke lease
  · exact roster_revoke lease

@[simp] theorem roster_finishCall (running : Running) (outcome : Outcome) :
    (s.finishCall running outcome).roster = s.roster := by
  unfold finishCall
  dsimp only
  refine (roster_pending running.client fun c => c.pending - 1).trans ?_
  split
  · rfl
  split
  · split
    · rfl
    · rfl
  · rfl

theorem roster_call (client : HostClient) (document : Option Json) :
    (s.call client document).roster = s.roster := by
  unfold call
  dsimp only
  split
  · exact roster_pending client.serial fun c => c.pending - 1
  split
  · exact roster_pending client.serial fun c => c.pending - 1
  split
  · exact roster_pending client.serial fun c => c.pending - 1
  split
  · rfl
  · exact roster_finishCall _ _

theorem roster_turn (bound told : Bool) : (s.turn bound told).roster = s.roster := by
  unfold turn
  split
  · rfl
  · rfl
  · dsimp only
    split
    · rfl
    · exact roster_call _ _
  · dsimp only
    split
    · rfl
    split
    · rfl
    split
    · rfl
    · exact roster_revoke _
  · dsimp only
    split
    · rfl
    rw [roster_setLease]
    split
    · rfl
    · rfl

theorem roster_tick (failure : Option Failure) : (s.tick failure).roster = s.roster := by
  unfold tick
  split
  · rfl
  split
  · rfl
  split
  · exact roster_finishCall _ _
  split
  · exact roster_finishCall _ _
  split
  · rfl
  · rfl

theorem roster_accept (lease : Nat) (trusted : Bool) :
    (s.accept lease trusted).roster = s.roster ∨
      (s.accept lease trusted).roster = ((s.serial + 1) :: s.roster.1, s.serial + 1) := by
  unfold accept
  split
  · exact .inl rfl
  · split
    · exact .inl rfl
    · exact .inr rfl

theorem roster_step {input : Input} (haccept : ∀ lease trusted, input ≠ .accept lease trusted)
    (hcollect : input ≠ .collect) : (s.step input).roster = s.roster := by
  cases input with
  | accept lease trusted => exact absurd rfl (haccept lease trusted)
  | collect => exact absurd rfl hcollect
  | line client document => exact roster_line client document
  | controlRead lease control => exact roster_controlRead lease control
  | hangup client => exact roster_clientClose client
  | turn bound told => exact roster_turn bound told
  | tick failure => exact roster_tick failure
  | controlAccept =>
      simp only [Host.step, controlAccept]
      split
      · rfl
      · rfl
  | finish outcome =>
      simp only [Host.step, finish]
      split
      · rfl
      · split
        · exact roster_finishCall _ _
        · rfl
  | idle lease =>
      simp only [Host.step, idle]
      split
      · split
        · exact roster_revoke lease
        · rfl
      · rfl

theorem serial_le_accept (lease : Nat) (trusted : Bool) :
    s.serial ≤ (s.accept lease trusted).serial := by
  rcases roster_accept (s := s) lease trusted with hsame | hnext
  · exact (congrArg Prod.snd hsame).ge
  · exact (congrArg Prod.snd hnext).ge.trans' (Nat.le_succ s.serial)

/-- A number is given once. -/
theorem serial_le_step (input : Input) : s.serial ≤ (s.step input).serial := by
  cases input with
  | accept lease trusted => exact serial_le_accept lease trusted
  | collect =>
      simp only [Host.step, collect]
      split
      · exact Nat.le_refl _
      · exact Nat.le_refl _
  | _ => exact (congrArg Prod.snd (roster_step (s := s) (by nofun) (by nofun))).ge

/-- Nothing has been said with a client that is not there yet. -/
structure Numbered (s : Host) : Prop where
  clients : ∀ serial ∈ s.roster.1, serial ≤ s.roster.2
  unknown : ∀ client, s.roster.2 < client → s.view client = {}

theorem numbered_initial (testPath : Bool) : Numbered (initial testPath) := by
  cases testPath
  · exact ⟨List.forall_mem_nil _, fun _ _ => rfl⟩
  · exact ⟨List.forall_mem_nil _, fun _ _ => rfl⟩

/-- Nothing is served to who has said nothing. -/
theorem served_empty {v : View} (h : View.Served {} v) : v = {} := by
  cases h
  rfl

theorem Numbered.client?_unknown (h : Numbered s) (hc : s.serial < c) : s.client? c = none := by
  refine List.find?_eq_none.mpr ?_
  intro client hclient heq
  have hle : client.serial ≤ s.serial := h.clients client.serial (List.mem_map_of_mem hclient)
  have hserial : client.serial = c := beq_iff_eq.mp heq
  omega

theorem Numbered.unchanged (h : Numbered s) {s' : Host} (hroster : s'.roster = s.roster)
    (hserved : ∀ client, View.Served (s.view client) (s'.view client)) : Numbered s' where
  clients := by
    rw [hroster]
    exact h.clients
  unknown client hclient := by
    rw [hroster] at hclient
    have hview := hserved client
    rw [h.unknown client hclient] at hview
    exact served_empty hview

theorem Numbered.line (h : Numbered s) (client : Nat) (document : Option Json) :
    Numbered (s.line client document) where
  clients := by
    rw [roster_line]
    exact h.clients
  unknown other hother := by
    rw [roster_line] at hother
    by_cases hne : client = other
    · subst hne
      have hnone : s.client? client = none := h.client?_unknown hother
      rw [Host.line, hnone]
      exact h.unknown client hother
    · rw [view_line_of_ne hne]
      exact h.unknown other hother

theorem Numbered.accept (h : Numbered s) (lease : Nat) (trusted : Bool) :
    Numbered (s.accept lease trusted) := by
  rcases roster_accept (s := s) lease trusted with hsame | hnext
  · exact h.unchanged hsame fun client => view_accept (s := s) (c := client) lease trusted ▸ .same
  · constructor
    · rw [hnext]
      intro serial hserial
      rcases List.mem_cons.mp hserial with rfl | hold
      · exact Nat.le_refl _
      · exact Nat.le_succ_of_le (h.clients serial hold)
    · rw [hnext]
      intro client hclient
      have hlt : s.roster.2 < client := Nat.lt_of_succ_lt hclient
      rw [view_accept]
      exact h.unknown client hlt

theorem Numbered.collect (h : Numbered s) : Numbered s.collect := by
  unfold Host.collect
  split
  · exact h
  · constructor
    · intro serial hserial
      obtain ⟨client, hclient, rfl⟩ := List.mem_map.mp hserial
      exact h.clients client.serial (List.mem_map_of_mem (List.mem_of_mem_filter hclient))
    · exact h.unknown

theorem Numbered.step (h : Numbered s) (input : Input) : Numbered (s.step input) := by
  cases input with
  | line client document => exact h.line client document
  | accept lease trusted => exact h.accept lease trusted
  | collect => exact h.collect
  | _ =>
      exact h.unchanged (roster_step (by nofun) (by nofun)) fun client => served_step (by nofun)

end Host

end Spaces.Computer
