import Spaces.Computer.Records

/-!
# The host while a lease is registered

To register a lease the host binds its desktop, which asks the system bus and waits.
While it waits it dispatches the main context: peers connect, lines and control
messages are read, and the lease itself may be revoked before the binding is over.
`Serving` takes that turn apart. It begins with the event's removal from the queue
and ends with `bound`; what comes between is read, but the loop takes no other event
and collects nothing.

Two results are about every run. A lease that has been released is over: nobody is
accepted on it, none of its requests begins, none is in work and all of its clients
are closed. And whatever the queue, the call in work, the binding or a client refers
to is still recorded, because `collect` takes exactly the records that nothing refers
to.
-/

namespace Spaces.Computer

open Spaces.Library Json Spaces.Mcp

/-- The host, and the lease it binds its desktop for. -/
structure Serving where
  host : Host
  binding : Option Nat := none

namespace Serving

def initial (testPath : Bool) : Serving := { host := Host.initial testPath }

/-- What the main context dispatches. The rest is done by the loop itself, or by the
call it has begun. -/
def dispatched : Host.Input → Bool
  | .controlAccept | .controlRead _ _ | .accept _ _ | .line _ _ | .hangup _ => true
  | .turn _ _ | .tick _ | .finish _ | .idle _ | .collect => false

/-- The registration that is next in the queue, and what is behind it. -/
def registration? (s : Host) : Option (Nat × List HostEvent) :=
  match s.running, s.events with
  | none, .register lease :: events =>
      if (s.lease? lease).any (!·.revoked) then some (lease, events) else none
  | _, _ => none

/-- A turn of the loop, up to `desktop_bind` if it comes to that. -/
def turn (s : Serving) (bound told : Bool) : Serving :=
  match registration? s.host with
  | some (lease, events) =>
      { host := { s.host with events, cancelled := false }, binding := some lease }
  | none => { s with host := s.host.turn bound told }

/-- The rest of the turn. `bound` is whether `desktop_bind` succeeded, and `told`
whether the controller could be answered. -/
def bound (s : Serving) (bound told : Bool) : Serving :=
  match s.binding with
  | none => s
  | some lease =>
      let host := if bound && told then s.host else s.host.revoke lease
      { host := match host.lease? lease with
          | some l =>
              if l.revoked then host
              else host.setLease lease fun l => { l with acceptSource := true }
          | none => host }

inductive Input where
  | host (input : Host.Input)
  | bound (bound told : Bool)

def hostStep (s : Serving) : Host.Input → Serving
  | .turn bound told => s.turn bound told
  | input => { s with host := s.host.step input }

/-- While the desktop is being bound, only what is dispatched comes through. -/
def step (s : Serving) : Input → Serving
  | .host input => if s.binding.isNone || dispatched input then s.hostStep input else s
  | .bound bound told => s.bound bound told

end Serving

namespace Host

variable {s : Host}

/-! ## Who belongs to which lease, and which leases are released -/

/-- The clients there are, each with its lease. -/
def ties (s : Host) : List (Nat × Nat) := s.clients.map fun c => (c.serial, c.lease)

def Event.released? : Event → Option Nat
  | .released lease => some lease
  | _ => none

def releases (s : Host) : List Nat := s.trace.filterMap Event.released?

theorem mem_releases {lease : Nat} : lease ∈ s.releases ↔ .released lease ∈ s.trace := by
  rw [releases, List.mem_filterMap]
  constructor
  · rintro ⟨event, hevent, hsome⟩
    cases event with
    | released other =>
        rw [← Option.some.inj hsome]
        exact hevent
    | _ => cases hsome
  · intro hevent
    exact ⟨_, hevent, rfl⟩

theorem ties_setClient {serial : Nat} {f : HostClient → HostClient}
    (h : ∀ c, ((f c).serial, (f c).lease) = (c.serial, c.lease)) :
    (s.setClient serial f).ties = s.ties := by
  simp only [ties, setClient, List.map_map]
  refine List.map_congr_left fun c _ => ?_
  show ((if c.serial = serial then f c else c).serial, (if c.serial = serial then f c else c).lease)
    = (c.serial, c.lease)
  split
  · exact h c
  · rfl

@[simp] theorem ties_pending (serial : Nat) (p : HostClient → Nat) :
    (s.setClient serial fun c => { c with pending := p c }).ties = s.ties :=
  ties_setClient fun _ => rfl

@[simp] theorem ties_clientClose (serial : Nat) : (s.clientClose serial).ties = s.ties := by
  unfold clientClose
  split
  · rfl
  · split
    · rfl
    · exact ties_setClient (s := s) fun _ => rfl

@[simp] theorem releases_clientClose (serial : Nat) :
    (s.clientClose serial).releases = s.releases := by
  unfold clientClose
  split
  · rfl
  · split
    · rfl
    · rfl

theorem closeAll_same (clients : List HostClient) : ∀ s : Host,
    (clients.foldl (fun s client => s.clientClose client.serial) s).ties = s.ties ∧
      (clients.foldl (fun s client => s.clientClose client.serial) s).releases = s.releases := by
  induction clients with
  | nil => exact fun s => ⟨rfl, rfl⟩
  | cons client clients ih =>
      intro s
      obtain ⟨hties, hreleases⟩ := ih (s.clientClose client.serial)
      exact ⟨hties.trans (ties_clientClose _), hreleases.trans (releases_clientClose _)⟩

@[simp] theorem ties_revoke (lease : Nat) : (s.revoke lease).ties = s.ties := by
  unfold revoke
  split
  · rfl
  · split
    · rfl
    · exact (closeAll_same _ _).1

@[simp] theorem releases_revoke (lease : Nat) : (s.revoke lease).releases = s.releases := by
  unfold revoke
  split
  · rfl
  · split
    · rfl
    · exact (closeAll_same _ _).2

theorem line_same (serial : Nat) (document : Option Json) :
    (s.line serial document).ties = s.ties ∧ (s.line serial document).releases = s.releases := by
  unfold line
  split
  · exact ⟨rfl, rfl⟩
  · split
    · exact ⟨rfl, rfl⟩
    · split
      · exact ⟨rfl, rfl⟩
      · split
        · exact ⟨ties_pending (s := s) serial _, rfl⟩
        · exact ⟨ties_clientClose serial, releases_clientClose serial⟩

theorem controlRead_same (lease : Nat) (control : Control) :
    (s.controlRead lease control).ties = s.ties ∧
      (s.controlRead lease control).releases = s.releases := by
  unfold controlRead
  split
  · exact ⟨rfl, rfl⟩
  · split
    · exact ⟨rfl, rfl⟩
    · split
      · exact ⟨ties_revoke lease, releases_revoke lease⟩
      · split
        · exact ⟨rfl, rfl⟩
        · exact ⟨rfl, rfl⟩
        · exact ⟨ties_revoke lease, releases_revoke lease⟩
        · exact ⟨ties_revoke lease, releases_revoke lease⟩

/-! ## A call in work is of a lease that is not released -/

def Unreleased (s : Host) : Prop :=
  ∀ running, s.running = some running → ∀ tie ∈ s.ties, tie.1 = running.client →
    tie.2 ∉ s.releases

theorem Unreleased.of_none (h : s.running = none) : Unreleased s := by
  intro running hrunning
  rw [h] at hrunning
  cases hrunning

theorem Unreleased.of_same {s' : Host} (h : Unreleased s) (hrunning : s'.running = s.running)
    (hties : ∀ tie ∈ s'.ties, tie ∈ s.ties) (hreleases : s'.releases = s.releases) :
    Unreleased s' := by
  intro running hsome tie htie hclient
  rw [hreleases]
  exact h running (hrunning ▸ hsome) tie (hties tie htie) hclient

theorem Unreleased.revoke (h : Unreleased s) (lease : Nat) : Unreleased (s.revoke lease) :=
  h.of_same (revoke_running lease) (fun _ htie => ties_revoke (s := s) lease ▸ htie)
    (releases_revoke lease)

/-- The new client is not the one in work. -/
theorem Unreleased.accept (h : Unreleased s) (hinv : Inv none s.inWork s) (lease : Nat)
    (trusted : Bool) : Unreleased (s.accept lease trusted) := by
  unfold Host.accept
  split
  · exact h
  · split
    · exact h
    · intro running hrunning tie htie hclient
      have hwork : running.client ∈ s.inWork := by
        have hsome : s.running = some running := hrunning
        simp [inWork, hsome]
      obtain ⟨c, hc, hserial⟩ := hinv.current running.client hwork
      have hbound := hinv.serialBound c hc
      simp only [ties, setLease, List.map_cons, List.mem_cons] at htie
      rcases htie with rfl | htie
      · have : s.serial + 1 = running.client := hclient
        omega
      · have hold := h running hrunning tie htie hclient
        simpa [releases, Event.released?, setLease] using hold

theorem call_unreleased (hserials : (s.clients.map (·.serial)).Nodup) (hrunning : s.running = none)
    {client : HostClient} (hclient : client ∈ s.clients)
    (hnot : .released client.lease ∉ s.trace) (document : Option Json) :
    Unreleased (s.call client document) := by
  rw [Host.call]
  dsimp only
  split
  · exact .of_none hrunning
  · split
    · exact .of_none hrunning
    · split
      · exact .of_none hrunning
      · split
        · intro running hsome tie htie hserial
          obtain rfl := Option.some.inj hsome
          obtain ⟨c, hc, rfl⟩ := List.mem_map.mp htie
          obtain rfl := eq_of_nodup hserials hc hclient hserial
          rw [← mem_releases] at hnot
          exact hnot
        · exact .of_none rfl

theorem Unreleased.turn (hinv : Inv none s.inWork s) (h : Unreleased s) (bound told : Bool) :
    Unreleased (s.turn bound told) := by
  rw [Host.turn.eq_def]
  split
  · exact h
  · exact h
  next serial document events hrunning hevents =>
    have hnone : s.inWork = [] := by rw [inWork, hrunning]; rfl
    rw [hnone] at hinv
    dsimp only
    split
    · exact .of_none hrunning
    next client hclient =>
      obtain ⟨hmem, hserial⟩ := mem_of_client? hclient
      subst hserial
      by_cases hclosed : client.closed = true
      · refine .of_none ?_
        rw [Host.call, if_pos hclosed]
        exact hrunning
      · -- only an open client's line begins anything, and an open client's lease is not over
        have hnot : .released client.lease ∉ s.trace :=
          hinv.client_not_released hmem (Bool.eq_false_iff.mpr hclosed)
        exact call_unreleased (s := { s with events }) hinv.serials hrunning hmem hnot document
  next lease events hrunning hevents =>
    dsimp only
    split
    · exact .of_none hrunning
    · split
      · exact .of_none hrunning
      · split
        · exact .of_none hrunning
        · exact .of_none ((revoke_running _).trans hrunning)
  next lease events hrunning hevents =>
    dsimp only
    split
    · exact .of_none hrunning
    · refine .of_none ?_
      split
      · exact hrunning
      · exact hrunning

theorem Unreleased.tick (h : Unreleased s) (failure : Option Failure) :
    Unreleased (s.tick failure) := by
  rw [Host.tick]
  split
  · exact h
  next running hrunning =>
    split
    · exact h
    · split
      · exact .of_none rfl
      · split
        · exact .of_none rfl
        · split
          · exact h
          · intro other hsome tie htie hclient
            obtain rfl := Option.some.inj hsome
            exact h running hrunning tie htie hclient

theorem Unreleased.finish (h : Unreleased s) (outcome : Outcome) :
    Unreleased (s.finish outcome) := by
  rw [Host.finish]
  split
  · exact h
  · split
    · exact .of_none rfl
    · exact h

theorem Unreleased.step (h : Unreleased s) (hinv : Inv none s.inWork s) (input : Input) :
    Unreleased (s.step input) := by
  cases input with
  | controlAccept =>
      show Unreleased s.controlAccept
      rw [Host.controlAccept]
      split
      · exact h
      · exact h
  | controlRead lease control =>
      obtain ⟨hties, hreleases⟩ := controlRead_same (s := s) lease control
      exact h.of_same (controlRead_running lease control) (fun _ htie => hties ▸ htie) hreleases
  | accept lease trusted => exact h.accept hinv lease trusted
  | line client document =>
      obtain ⟨hties, hreleases⟩ := line_same (s := s) client document
      exact h.of_same (line_running client document) (fun _ htie => hties ▸ htie) hreleases
  | hangup client =>
      exact h.of_same (clientClose_leases client).2.2
        (fun _ htie => ties_clientClose (s := s) client ▸ htie) (releases_clientClose client)
  | turn bound told => exact Unreleased.turn hinv h bound told
  | tick failure => exact h.tick failure
  | finish outcome => exact h.finish outcome
  | idle lease =>
      show Unreleased (s.idle lease)
      rw [Host.idle]
      split
      · split
        · exact h.revoke lease
        · exact h
      · exact h
  | collect =>
      show Unreleased s.collect
      rw [Host.collect]
      split
      · exact h
      next hrunning => exact .of_none hrunning

/-! ## What is dispatched -/

theorem dispatched_running {input : Input} (h : Serving.dispatched input = true) :
    (s.step input).running = s.running := by
  cases input with
  | controlAccept => exact controlAccept_running
  | controlRead lease control => exact controlRead_running lease control
  | accept lease trusted => exact accept_running lease trusted
  | line client document => exact line_running client document
  | hangup client => exact (clientClose_leases client).2.2
  | turn | tick | finish | idle | collect => cases h

/-- The lease is there, and the loop has not told its controller that it is over. -/
def Recorded (s : Host) (lease : Nat) : Prop :=
  ∃ l ∈ s.leases, l.id = lease ∧ l.acknowledged = false

theorem Recorded.setLease {lease : Nat} (h : s.Recorded lease) (id : Nat)
    {f : HostLease → HostLease} (hid : ∀ l, (f l).id = l.id)
    (hacknowledged : ∀ l, (f l).acknowledged = l.acknowledged) :
    (s.setLease id f).Recorded lease := by
  obtain ⟨l, hl, hlease, hnot⟩ := h
  refine ⟨_, List.mem_map_of_mem hl, ?_⟩
  split
  · exact ⟨(hid l).trans hlease, (hacknowledged l).trans hnot⟩
  · exact ⟨hlease, hnot⟩

theorem Recorded.of_leases {lease : Nat} {s' : Host} (h : s.Recorded lease)
    (hleases : s'.leases = s.leases) : s'.Recorded lease := by
  unfold Recorded
  rw [hleases]
  exact h

theorem Recorded.revoke {lease : Nat} (h : s.Recorded lease) (other : Nat) :
    (s.revoke other).Recorded lease := by
  rw [Host.revoke]
  split
  · exact h
  · split
    · exact h
    · refine List.foldlRecOn (motive := fun t : Host => t.Recorded lease) _ _
        (h.setLease other (fun _ => rfl) fun _ => rfl) fun t ht client _ => ?_
      exact ht.of_leases (clientClose_leases client.serial).1

theorem Recorded.dispatched {lease : Nat} (h : s.Recorded lease) {input : Input}
    (hinput : Serving.dispatched input = true) : (s.step input).Recorded lease := by
  cases input with
  | controlAccept =>
      show s.controlAccept.Recorded lease
      rw [Host.controlAccept]
      split
      · obtain ⟨l, hl, hrest⟩ := h
        exact ⟨l, List.mem_cons_of_mem _ hl, hrest⟩
      · exact h
  | controlRead other control =>
      show (s.controlRead other control).Recorded lease
      rw [Host.controlRead.eq_def]
      split
      · exact h
      · split
        · exact h
        · split
          · exact h.revoke other
          · split
            · exact h
            · exact h.setLease other (fun _ => rfl) fun _ => rfl
            · exact h.revoke other
            · exact h.revoke other
  | accept other trusted =>
      show (s.accept other trusted).Recorded lease
      rw [Host.accept]
      split
      · exact h
      · split
        · exact h
        · exact h.setLease other (fun _ => rfl) fun _ => rfl
  | line client document =>
      show (s.line client document).Recorded lease
      rw [Host.line]
      split
      · exact h
      · split
        · exact h
        · split
          · exact h
          · split
            · exact h
            · exact h.of_leases (clientClose_leases client).1
  | hangup client => exact h.of_leases (clientClose_leases client).1
  | turn | tick | finish | idle | collect => cases hinput

end Host

namespace Serving

open Host (Inv Flagged Unreleased Recorded)

variable {s : Serving}

/-! ## Every run -/

/-- The records, and the lease the desktop is being bound for. -/
structure Sound (s : Serving) : Prop where
  inv : Inv none s.host.inWork s.host
  flagged : Flagged s.host
  unreleased : Unreleased s.host
  binding : ∀ lease, s.binding = some lease → s.host.running = none ∧ s.host.Recorded lease

theorem sound_initial (testPath : Bool) : Sound (initial testPath) where
  inv := (Host.inv_reachable .start).1
  flagged := (Host.inv_reachable .start).2
  unreleased := by
    refine .of_none ?_
    cases testPath
    · rfl
    · rfl
  binding := nofun

theorem registration?_eq_some {h : Host} {lease : Nat} {events : List HostEvent}
    (hsome : registration? h = some (lease, events)) :
    h.running = none ∧ h.events = .register lease :: events ∧
      ∃ l ∈ h.leases, l.id = lease ∧ l.revoked = false := by
  unfold registration? at hsome
  split at hsome
  · next hrunning hevents =>
      split at hsome
      · next hany =>
          obtain ⟨rfl, rfl⟩ := Prod.mk.inj (Option.some.inj hsome)
          obtain ⟨l, hl, hrevoked⟩ := (Option.any_eq_true _ _).mp hany
          obtain ⟨hmem, hid⟩ := Host.mem_of_lease? hl
          exact ⟨hrunning, hevents, l, hmem, hid, by simpa using hrevoked⟩
      · cases hsome
  · cases hsome

theorem Sound.turn (h : Sound s) (hidle : s.binding = none) (bound told : Bool) :
    Sound (s.turn bound told) := by
  unfold Serving.turn
  split
  · next lease events hnext =>
      obtain ⟨hrunning, hevents, l, hl, rfl, hrevoked⟩ := registration?_eq_some hnext
      have hinv := h.inv
      have hnone : s.host.inWork = [] := by rw [Host.inWork, hrunning]; rfl
      rw [hnone] at hinv
      have hpop := hinv.pop_lease hevents fun _ => rfl
      have hreset : Inv none [] { s.host with events, cancelled := false } :=
        hpop.of_same rfl rfl rfl rfl rfl rfl
      refine ⟨hreset.idle_now hrunning, .of_none hrunning, .of_none hrunning, ?_⟩
      intro lease' hlease'
      obtain rfl := Option.some.inj hlease'
      refine ⟨hrunning, l, hl, rfl, ?_⟩
      rw [Bool.eq_false_iff]
      intro hacknowledged
      rw [h.inv.acknowledged l hl hacknowledged] at hrevoked
      cases hrevoked
  · refine ⟨h.inv.turn bound told, h.flagged.step h.inv (.turn bound told),
      Unreleased.turn h.inv h.unreleased bound told, ?_⟩
    intro lease hlease
    have hsome : s.binding = some lease := hlease
    rw [hidle] at hsome
    cases hsome

theorem Sound.bound (h : Sound s) (bound told : Bool) : Sound (s.bound bound told) := by
  unfold Serving.bound
  split
  · exact h
  · next lease hlease =>
      obtain ⟨hrunning, -⟩ := h.binding lease hlease
      have hinv := h.inv
      have hnone : s.host.inWork = [] := by rw [Host.inWork, hrunning]; rfl
      rw [hnone] at hinv
      -- either way the turn ends without a call in work
      obtain ⟨host, hhost, hinv, hrunning⟩ : ∃ host : Host,
          (if (bound && told) = true then s.host else s.host.revoke lease) = host ∧
            Inv none [] host ∧ host.running = none := by
        split
        · exact ⟨_, rfl, hinv, hrunning⟩
        · exact ⟨_, rfl, hinv.revoke lease, (Host.revoke_running lease).trans hrunning⟩
      dsimp only
      rw [hhost]
      split
      · next l hl =>
          obtain ⟨hmem, rfl⟩ := Host.mem_of_lease? hl
          split
          · exact ⟨hinv.idle_now hrunning, .of_none hrunning, .of_none hrunning,
              fun _ heq => by cases heq⟩
          · next hrevoked =>
              have hset : Inv none [] (host.setLease l.id fun l =>
                  { l with acceptSource := true }) := by
                refine hinv.setLease (fun _ => rfl) (fun _ => rfl) (fun _ hrev => hrev) ?_
                  fun _ _ _ hrev => .inl hrev
                intro l' hl' hid hrev
                obtain rfl := hinv.lease_eq hl' hmem hid
                exact (hrevoked hrev).elim
              exact ⟨hset.idle_now hrunning, .of_none hrunning, .of_none hrunning,
                fun _ heq => by cases heq⟩
      · exact ⟨hinv.idle_now hrunning, .of_none hrunning, .of_none hrunning,
          fun _ heq => by cases heq⟩

theorem Sound.host (h : Sound s) {input : Host.Input}
    (hkept : ∀ lease, s.binding = some lease → dispatched input = true) :
    Sound { s with host := s.host.step input } where
  inv := h.inv.step h.flagged input
  flagged := h.flagged.step h.inv input
  unreleased := h.unreleased.step h.inv input
  binding := by
    intro lease hlease
    have hinput := hkept lease hlease
    obtain ⟨hrunning, hrecorded⟩ := h.binding lease hlease
    exact ⟨(Host.dispatched_running hinput).trans hrunning, hrecorded.dispatched hinput⟩

theorem Sound.step (h : Sound s) (input : Input) : Sound (s.step input) := by
  cases input with
  | bound bound told => exact h.bound bound told
  | host input =>
      unfold Serving.step
      dsimp only
      split
      · next hcomes =>
          rw [Bool.or_eq_true, Option.isNone_iff_eq_none] at hcomes
          have hkept : ∀ lease, s.binding = some lease → dispatched input = true := by
            intro lease hlease
            rcases hcomes with hidle | hinput
            · rw [hidle] at hlease
              cases hlease
            · exact hinput
          cases input with
          | turn bound told => exact h.turn (hcomes.resolve_right Bool.false_ne_true) bound told
          | _ => exact h.host hkept
      · exact h

theorem sound_run (testPath : Bool) (inputs : List Input) :
    Sound (inputs.foldl step (initial testPath)) :=
  (Guarded.run inputs (initial testPath)).invariant (sound_initial testPath)
    fun _ input h _ => h.step input

/-! ## A lease that is over -/

/-- The clients of a released lease are closed. -/
theorem Sound.closed (h : Sound s) {lease : Nat} (hreleased : .released lease ∈ s.host.trace)
    {c : HostClient} (hc : c ∈ s.host.clients) (hlease : c.lease = lease) : c.closed = true := by
  rw [← Bool.not_eq_false]
  intro hopen
  subst hlease
  exact h.inv.client_not_released hc hopen hreleased

/-- Once a lease is released, however the registrations, connections, lines, calls and
revocations of all leases are interleaved, nobody is accepted on it, no request of its
clients begins or is executed, none is in work, and its clients stay closed. -/
theorem lease_over (testPath : Bool) (inputs : List Input) :
    let s := inputs.foldl step (initial testPath)
    Always Final s.host.trace ∧
      ∀ lease, .released lease ∈ s.host.trace →
        (∀ c ∈ s.host.clients, c.lease = lease → c.closed = true) ∧
          ∀ running, s.host.running = some running →
            ∀ c ∈ s.host.clients, c.serial = running.client → c.lease ≠ lease := by
  intro s
  have h : Sound s := sound_run testPath inputs
  refine ⟨h.inv.final, fun lease hreleased => ⟨?_, ?_⟩⟩
  · intro c hc hlease
    exact h.closed hreleased hc hlease
  · rintro running hrunning c hc hserial rfl
    have htie : (c.serial, c.lease) ∈ s.host.ties := List.mem_map_of_mem hc
    exact h.unreleased running hrunning _ htie hserial (Host.mem_releases.mpr hreleased)

/-! ## Records that are referred to -/

/-- What refers to a client: a queued line, or the call in work. -/
def refersToClient (s : Serving) (serial : Nat) : Prop :=
  (∃ document, .call serial document ∈ s.host.events) ∨
    ∃ running, s.host.running = some running ∧ running.client = serial

/-- What refers to a lease: a queued event, the binding of the desktop, or a client. -/
def refersToLease (s : Serving) (lease : Nat) : Prop :=
  .register lease ∈ s.host.events ∨ .revoke lease ∈ s.host.events ∨ s.binding = some lease ∨
    ∃ c ∈ s.host.clients, c.lease = lease

theorem Sound.pending (h : Sound s) (hidle : s.host.running = none) {c : HostClient}
    (hc : c ∈ s.host.clients) :
    c.pending = 0 ↔ ∀ document, .call c.serial document ∉ s.host.events := by
  have hpending := h.inv.pending c hc
  rw [Host.inWork, hidle] at hpending
  rw [hpending]
  show s.host.events.countP (HostEvent.isCall c.serial) + 0 = 0 ↔ _
  rw [Nat.add_zero, List.countP_eq_zero]
  constructor
  · intro hnone document hmem
    exact hnone _ hmem (by simp [HostEvent.isCall])
  · intro hnone event hmem hcall
    cases event with
    | call serial document =>
        obtain rfl : serial = c.serial := by simpa [HostEvent.isCall] using hcall
        exact hnone document hmem
    | register | revoke => cases hcall

/-- In every run what is referred to is recorded, once, and `collect` frees a client
exactly if it is closed and nothing refers to it, and a lease only if nothing does. -/
theorem records_kept (testPath : Bool) (inputs : List Input) :
    let s := inputs.foldl step (initial testPath)
    (s.host.clients.map (·.serial)).Nodup ∧ (s.host.leases.map (·.id)).Nodup ∧
      (∀ serial, s.refersToClient serial → ∃ c ∈ s.host.clients, c.serial = serial) ∧
      (∀ lease, s.refersToLease lease → ∃ l ∈ s.host.leases, l.id = lease) ∧
      (∀ c ∈ s.host.clients, s.host.running = none →
        (c ∉ s.host.collect.clients ↔ c.closed = true ∧ ¬ s.refersToClient c.serial)) ∧
      ∀ l ∈ s.host.leases, s.binding = none → l ∉ s.host.collect.leases →
        l.acknowledged = true ∧
          ¬ { s with host := s.host.collect }.refersToLease l.id := by
  intro s
  have h : Sound s := sound_run testPath inputs
  refine ⟨h.inv.serials, h.inv.leaseIds, ?_, ?_, ?_, ?_⟩
  · rintro serial (⟨document, hqueued⟩ | ⟨running, hrunning, rfl⟩)
    · exact h.inv.calls serial document hqueued
    · exact h.inv.current running.client (by simp [Host.inWork, hrunning])
  · rintro lease (hqueued | hqueued | hbinding | ⟨c, hc, rfl⟩)
    · obtain ⟨l, hl, hid, -⟩ := h.inv.registers lease hqueued
      exact ⟨l, hl, hid⟩
    · obtain ⟨l, hl, hid, -⟩ := h.inv.revokes lease hqueued
      exact ⟨l, hl, hid⟩
    · obtain ⟨-, l, hl, hid, -⟩ := h.binding lease hbinding
      exact ⟨l, hl, hid⟩
    · exact h.inv.clientLease c hc
  · intro c hc hidle
    have hnobody : s.refersToClient c.serial ↔ ¬ c.pending = 0 := by
      rw [h.pending hidle hc]
      simp [refersToClient, hidle]
    rw [Host.collect, hidle]
    dsimp only
    rw [List.mem_filter, hnobody, not_and, not_not]
    simp [hc]
  · intro l hl hidle hfreed
    have hstep := h.inv.collect
    rw [Host.collect] at hfreed hstep ⊢
    split at hfreed
    · exact absurd hl hfreed
    · next hrunning =>
        dsimp only at hfreed
        rw [List.mem_filter, not_and] at hfreed
        have hout := hfreed hl
        simp only [Bool.not_eq_true', Bool.not_eq_false, Bool.and_eq_true,
          Bool.not_eq_true'] at hout
        refine ⟨hout.1, ?_⟩
        rintro (hqueued | hqueued | hbinding | ⟨c, hc, hlease⟩)
        · obtain ⟨l', hl', hid, hnot⟩ := h.inv.registers l.id hqueued
          obtain rfl := h.inv.lease_eq hl' hl hid
          rw [hout.1] at hnot
          cases hnot
        · obtain ⟨l', hl', hid, hnot, -⟩ := h.inv.revokes l.id hqueued
          obtain rfl := h.inv.lease_eq hl' hl hid
          rw [hout.1] at hnot
          cases hnot
        · have hsome : s.binding = some l.id := hbinding
          rw [hidle] at hsome
          cases hsome
        · have hany := List.any_eq_false.mp hout.2 c hc
          simp [hlease] at hany

end Serving

end Spaces.Computer
