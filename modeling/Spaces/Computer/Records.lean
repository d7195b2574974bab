import Mathlib.Data.List.Nodup
import Spaces.Computer.Service

/-!
# The records of the host

A client and a lease are freed by `collect`. What may refer to them then is the
queue, the call in work and, for a lease, its clients. The invariant counts the
references: the `pending` of a client is the number of its queued lines, and one
more while it is the current client.

A revoked lease has no open client and is watched no longer, and its
acknowledgement is the last that is queued about it. So nothing of it can begin
once it is released.

Within a turn it is stated about more than the state. `held` lists the clients
that a line in work refers to, and `exempt` is the lease whose clients `revoke` is
closing.
-/

namespace Spaces.Computer

open Spaces.Library Json Spaces.Mcp

/-- What may happen after a lease has been released. -/
def Final (earlier : List Event) : Event → Prop
  | .accepted lease _ | .started lease _ _ | .executed lease _ _ => .released lease ∉ earlier
  | _ => True

def HostEvent.isCall (serial : Nat) : HostEvent → Bool
  | .call client _ => client == serial
  | _ => false

namespace Host

/-- Nothing about a lease is queued behind its revocation. -/
def Behind (event later : HostEvent) : Prop :=
  ∀ lease, event = .revoke lease → later ≠ .register lease ∧ later ≠ .revoke lease

structure Inv (exempt : Option Nat) (held : List Nat) (s : Host) : Prop where
  serials : (s.clients.map (·.serial)).Nodup
  serialBound : ∀ c ∈ s.clients, c.serial ≤ s.serial
  leaseIds : (s.leases.map (·.id)).Nodup
  leaseBound : ∀ l ∈ s.leases, l.id < s.nextLease
  clientLease : ∀ c ∈ s.clients, ∃ l ∈ s.leases, l.id = c.lease
  pending : ∀ c ∈ s.clients, c.pending =
    s.events.countP (HostEvent.isCall c.serial) + held.count c.serial
  calls : ∀ serial document, .call serial document ∈ s.events →
    ∃ c ∈ s.clients, c.serial = serial
  current : ∀ serial ∈ held, ∃ c ∈ s.clients, c.serial = serial
  registers : ∀ lease, .register lease ∈ s.events →
    ∃ l ∈ s.leases, l.id = lease ∧ l.acknowledged = false
  revokes : ∀ lease, .revoke lease ∈ s.events →
    ∃ l ∈ s.leases, l.id = lease ∧ l.acknowledged = false ∧ l.revoked = true
  order : s.events.Pairwise Behind
  openLease : ∀ c ∈ s.clients, c.closed = false → exempt ≠ some c.lease →
    ∀ l ∈ s.leases, l.id = c.lease → l.revoked = false
  acknowledged : ∀ l ∈ s.leases, l.acknowledged = true → l.revoked = true
  sources : ∀ l ∈ s.leases, l.revoked = true → l.source = false ∧ l.acceptSource = false
  released : ∀ lease, .released lease ∈ s.trace →
    lease < s.nextLease ∧ ∀ l ∈ s.leases, l.id = lease → l.acknowledged = true
  final : Always Final s.trace

theorem inv_initial (testPath : Bool) : Inv none [] (initial testPath) := by
  cases testPath
  · constructor <;> simp [initial, Always.nil]
  · constructor <;> simp [initial, Always.nil]

/-- The clients that the call in work refers to. -/
def inWork (s : Host) : List Nat := (s.running.map (·.client)).toList

/-- Once the client of the call in work is gone, the call is cancelled. -/
def Flagged (s : Host) : Prop :=
  ∀ running, s.running = some running → ∀ c ∈ s.clients, c.serial = running.client →
    c.closed = true → s.cancelled = true

/-! ## Records by their names -/

section

variable {s : Host} {exempt : Option Nat} {held : List Nat}

theorem mem_of_client? {serial : Nat} {client : HostClient} (h : s.client? serial = some client) :
    client ∈ s.clients ∧ client.serial = serial := by
  have hserial := List.find?_some h
  exact ⟨List.mem_of_find?_eq_some h, by simpa using hserial⟩

theorem mem_of_lease? {id : Nat} {l : HostLease} (h : s.lease? id = some l) :
    l ∈ s.leases ∧ l.id = id := by
  have hid := List.find?_some h
  exact ⟨List.mem_of_find?_eq_some h, by simpa using hid⟩

/-- Two records of one name are one record. -/
theorem eq_of_nodup {α : Type} {name : α → Nat} {records : List α} (h : (records.map name).Nodup)
    {a b : α} (ha : a ∈ records) (hb : b ∈ records) (hname : name a = name b) : a = b :=
  List.inj_on_of_nodup_map h ha hb hname

theorem Inv.lease_eq (h : Inv exempt held s) {l l' : HostLease} (hl : l ∈ s.leases)
    (hl' : l' ∈ s.leases) (hid : l.id = l'.id) : l = l' :=
  eq_of_nodup h.leaseIds hl hl' hid

theorem mem_setClient {serial : Nat} {f : HostClient → HostClient} {c : HostClient}
    (h : c ∈ (s.setClient serial f).clients) :
    ∃ c₀ ∈ s.clients, c = if c₀.serial = serial then f c₀ else c₀ := by
  obtain ⟨c₀, hc₀, rfl⟩ := List.mem_map.mp h
  exact ⟨c₀, hc₀, rfl⟩

theorem mem_setLease {id : Nat} {f : HostLease → HostLease} {l : HostLease}
    (h : l ∈ (s.setLease id f).leases) :
    ∃ l₀ ∈ s.leases, l = if l₀.id = id then f l₀ else l₀ := by
  obtain ⟨l₀, hl₀, rfl⟩ := List.mem_map.mp h
  exact ⟨l₀, hl₀, rfl⟩

/-- An event that begins nothing may always be logged. -/
theorem Inv.log (h : Inv exempt held s) {event : Event} (hfinal : Final s.trace event)
    (hreleased : ∀ lease, event ≠ .released lease) : Inv exempt held (s.log event) :=
  { h with
    released := by
      intro lease hmem
      rcases List.mem_cons.mp hmem with heq | hmem
      · exact (hreleased lease heq.symm).elim
      · exact h.released lease hmem
    final := h.final.cons hfinal }

/-- A lease that is not revoked has not been released. -/
theorem Inv.not_released (h : Inv exempt held s) {l : HostLease} (hl : l ∈ s.leases)
    (hrevoked : l.revoked = false) : .released l.id ∉ s.trace := by
  intro hmem
  have hacknowledged := (h.released l.id hmem).2 l hl rfl
  rw [h.acknowledged l hl hacknowledged] at hrevoked
  cases hrevoked

/-! ## Changes of one record -/

/-- A client's record may change, as long as it names the same client of the same
lease, opens nothing and counts rightly. -/
theorem Inv.setClient (h : Inv exempt held s) {serial : Nat} {f : HostClient → HostClient}
    {held' : List Nat}
    (hserial : ∀ c, (f c).serial = c.serial) (hlease : ∀ c, (f c).lease = c.lease)
    (hclosed : ∀ c, (f c).closed = false → c.closed = false)
    (hpending : ∀ c ∈ s.clients, c.serial = serial → (f c).pending =
      s.events.countP (HostEvent.isCall serial) + held'.count serial)
    (hother : ∀ other, other ≠ serial → held'.count other = held.count other)
    (hcurrent : ∀ other ∈ held', ∃ c ∈ s.clients, c.serial = other) :
    Inv exempt held' (s.setClient serial f) := by
  have hsame : ∀ c : HostClient, (if c.serial = serial then f c else c).serial = c.serial := by
    intro c
    split
    · exact hserial c
    · rfl
  have hsameLease : ∀ c : HostClient, (if c.serial = serial then f c else c).lease = c.lease := by
    intro c
    split
    · exact hlease c
    · rfl
  have hexists : ∀ other, (∃ c ∈ s.clients, c.serial = other) →
      ∃ c ∈ (s.setClient serial f).clients, c.serial = other := by
    rintro other ⟨c, hc, rfl⟩
    exact ⟨_, List.mem_map_of_mem hc, hsame c⟩
  refine { h with
    serials := ?_, serialBound := ?_, clientLease := ?_, pending := ?_, calls := ?_,
    current := fun other hheld => hexists other (hcurrent other hheld), openLease := ?_ }
  · rw [Host.setClient, List.map_map]
    refine (List.map_congr_left fun c _ => ?_).symm ▸ h.serials
    exact hsame c
  · intro c hc
    obtain ⟨c₀, hc₀, rfl⟩ := mem_setClient hc
    rw [hsame]
    exact h.serialBound c₀ hc₀
  · intro c hc
    obtain ⟨c₀, hc₀, rfl⟩ := mem_setClient hc
    rw [hsameLease]
    exact h.clientLease c₀ hc₀
  · intro c hc
    obtain ⟨c₀, hc₀, rfl⟩ := mem_setClient hc
    rw [hsame]
    split
    next heq =>
      rw [heq]
      exact hpending c₀ hc₀ heq
    next hne =>
      rw [h.pending c₀ hc₀, hother _ hne]
      rfl
  · intro other document hmem
    exact hexists other (h.calls other document hmem)
  · intro c hc hopen hexempt
    obtain ⟨c₀, hc₀, rfl⟩ := mem_setClient hc
    rw [hsameLease] at hexempt ⊢
    refine h.openLease c₀ hc₀ ?_ hexempt
    split at hopen
    · exact hclosed c₀ hopen
    · exact hopen

/-- What the invariant does not speak of may change freely. -/
theorem Inv.of_same {s' : Host} (h : Inv exempt held s) (hclients : s'.clients = s.clients)
    (hleases : s'.leases = s.leases) (hevents : s'.events = s.events)
    (hserial : s'.serial = s.serial) (hnext : s'.nextLease = s.nextLease)
    (htrace : s'.trace = s.trace) : Inv exempt held s' := by
  obtain ⟨clients, leases, events, serial, nextLease, running, cancelledIds, cancelled, session,
    trace⟩ := s'
  subst hclients hleases hevents hserial hnext htrace
  exact { h with }

theorem Inv.clientClose (h : Inv exempt held s) (serial : Nat) :
    Inv exempt held (s.clientClose serial) := by
  rw [Host.clientClose]
  split
  · exact h
  · split
    · exact h
    · have hset : Inv exempt held (s.setClient serial fun c => { c with closed := true }) := by
        refine h.setClient (fun _ => rfl) (fun _ => rfl) (fun c hc => nomatch hc) ?_
          (fun _ _ => rfl) h.current
        intro c hc heq
        rw [← heq]
        exact h.pending c hc
      have hlog : Inv exempt held ((s.setClient serial fun c => { c with closed := true }).log
          (.closed serial)) := hset.log trivial fun lease => nofun
      exact hlog.of_same rfl rfl rfl rfl rfl rfl

/-! ## The queue -/

/-- A line in work is one reference more. -/
theorem Inv.hold (h : Inv exempt held s) {serial : Nat}
    (hclient : ∃ c ∈ s.clients, c.serial = serial) :
    Inv exempt (serial :: held)
      (s.setClient serial fun c => { c with pending := c.pending + 1 }) := by
  refine h.setClient (fun _ => rfl) (fun _ => rfl) (fun _ hopen => hopen) ?_ ?_ ?_
  · intro c hc heq
    have hpending := h.pending c hc
    rw [heq] at hpending
    simp only [List.count_cons_self]
    omega
  · intro other hne
    rw [List.count_cons_of_ne (Ne.symm hne)]
  · intro other hmem
    rcases List.mem_cons.mp hmem with rfl | hmem
    · exact hclient
    · exact h.current other hmem

/-- The end of a line in work. -/
theorem Inv.drop {serial : Nat} (h : Inv exempt (serial :: held) s) :
    Inv exempt held (s.setClient serial fun c => { c with pending := c.pending - 1 }) := by
  refine h.setClient (fun _ => rfl) (fun _ => rfl) (fun _ hopen => hopen) ?_ ?_ ?_
  · intro c hc heq
    have hpending := h.pending c hc
    rw [heq, List.count_cons_self] at hpending
    simp only
    omega
  · intro other hne
    rw [List.count_cons_of_ne (Ne.symm hne)]
  · exact fun other hmem => h.current other (List.mem_cons_of_mem _ hmem)

theorem Inv.push_call {serial : Nat} {document : Option Json} (h : Inv exempt (serial :: held) s) :
    Inv exempt held { s with events := s.events ++ [.call serial document] } := by
  refine { h with
    pending := ?_, calls := ?_, current := ?_, registers := ?_, revokes := ?_, order := ?_ }
  · intro c hc
    have hpending := h.pending c hc
    by_cases heq : serial = c.serial
    · simp [HostEvent.isCall, heq] at hpending ⊢
      omega
    · simp [HostEvent.isCall, heq] at hpending ⊢
      omega
  · intro other document' hmem
    rcases List.mem_append.mp hmem with hmem | hmem
    · exact h.calls other document' hmem
    · obtain ⟨rfl, rfl⟩ : other = serial ∧ document' = document := by simpa using hmem
      exact h.current other (List.mem_cons_self ..)
  · exact fun other hmem => h.current other (List.mem_cons_of_mem _ hmem)
  · intro lease hmem
    exact h.registers lease (by simpa using hmem)
  · intro lease hmem
    exact h.revokes lease (by simpa using hmem)
  · refine List.pairwise_append.mpr ⟨h.order, List.pairwise_singleton _ _, fun e _ e' he' => ?_⟩
    obtain rfl := List.mem_singleton.mp he'
    exact fun lease _ => ⟨nofun, nofun⟩

/-- A line of a client that is there. -/
theorem Inv.queue_call (h : Inv exempt held s) {client : HostClient} (hclient : client ∈ s.clients)
    (document : Option Json) : Inv exempt held (s.queue (.call client.serial document)) :=
  (h.hold ⟨client, hclient, rfl⟩).push_call

theorem Inv.pop_call {serial : Nat} {document : Option Json} {events : List HostEvent}
    (h : Inv exempt held s) (hevents : s.events = .call serial document :: events) :
    Inv exempt (serial :: held) { s with events } := by
  have hmem : ∀ event ∈ events, event ∈ s.events := fun event hmem =>
    hevents ▸ List.mem_cons_of_mem _ hmem
  refine { h with
    pending := ?_, calls := ?_, current := ?_, registers := ?_, revokes := ?_, order := ?_ }
  · intro c hc
    have hpending := h.pending c hc
    by_cases heq : serial = c.serial
    · simp [hevents, HostEvent.isCall, heq] at hpending ⊢
      omega
    · simp [hevents, HostEvent.isCall, heq] at hpending ⊢
      omega
  · exact fun other document' hin => h.calls other document' (hmem _ hin)
  · intro other hin
    rcases List.mem_cons.mp hin with rfl | hin
    · exact h.calls other document (hevents ▸ List.mem_cons_self ..)
    · exact h.current other hin
  · exact fun lease hin => h.registers lease (hmem _ hin)
  · exact fun lease hin => h.revokes lease (hmem _ hin)
  · have horder := h.order
    rw [hevents] at horder
    exact horder.of_cons

/-- An event about a lease that is taken from the queue. -/
theorem Inv.pop_lease {event : HostEvent} {events : List HostEvent} (h : Inv exempt held s)
    (hevents : s.events = event :: events) (hevent : ∀ serial, event.isCall serial = false) :
    Inv exempt held { s with events } := by
  have hmem : ∀ event ∈ events, event ∈ s.events := fun event hmem =>
    hevents ▸ List.mem_cons_of_mem _ hmem
  refine { h with pending := ?_, calls := ?_, registers := ?_, revokes := ?_, order := ?_ }
  · intro c hc
    have hpending := h.pending c hc
    rwa [hevents, List.countP_cons, hevent, if_neg Bool.false_ne_true, Nat.add_zero] at hpending
  · exact fun other document' hin => h.calls other document' (hmem _ hin)
  · exact fun lease hin => h.registers lease (hmem _ hin)
  · exact fun lease hin => h.revokes lease (hmem _ hin)
  · have horder := h.order
    rw [hevents] at horder
    exact horder.of_cons

theorem behind_append {lease : Nat} {event : HostEvent} {events : List HostEvent}
    (horder : events.Pairwise Behind) (hnone : .revoke lease ∉ events)
    (hevent : event = .register lease ∨ event = .revoke lease) :
    (events ++ [event]).Pairwise Behind := by
  refine List.pairwise_append.mpr ⟨horder, List.pairwise_singleton _ _, fun e he e' he' => ?_⟩
  obtain rfl := List.mem_singleton.mp he'
  rintro other rfl
  have hne : other ≠ lease := fun heq => hnone (heq ▸ he)
  rcases hevent with rfl | rfl
  · exact ⟨fun heq => hne (HostEvent.register.inj heq).symm, nofun⟩
  · exact ⟨nofun, fun heq => hne (HostEvent.revoke.inj heq).symm⟩

theorem Inv.push_lease (h : Inv exempt held s) {l : HostLease} (hl : l ∈ s.leases)
    (hacknowledged : l.acknowledged = false) (hnone : .revoke l.id ∉ s.events)
    {event : HostEvent}
    (hevent : event = .register l.id ∨ (event = .revoke l.id ∧ l.revoked = true)) :
    Inv exempt held (s.queue event) := by
  have hqueue : s.queue event = { s with events := s.events ++ [event] } := by
    rcases hevent with rfl | ⟨rfl, -⟩ <;> rfl
  have hcall : ∀ serial, event.isCall serial = false := by
    rcases hevent with rfl | ⟨rfl, -⟩ <;> exact fun _ => rfl
  rw [hqueue]
  refine { h with
    pending := ?_, calls := ?_, registers := ?_, revokes := ?_
    order := behind_append h.order hnone (hevent.imp_right And.left) }
  · intro c hc
    simp only [List.countP_append, List.countP_singleton, hcall, Bool.false_eq_true, if_false,
      Nat.add_zero]
    exact h.pending c hc
  · intro serial document hmem
    rcases List.mem_append.mp hmem with hmem | hmem
    · exact h.calls serial document hmem
    · have heq := List.mem_singleton.mp hmem
      rcases hevent with rfl | ⟨rfl, -⟩ <;> cases heq
  · intro lease hmem
    rcases List.mem_append.mp hmem with hmem | hmem
    · exact h.registers lease hmem
    · have heq := List.mem_singleton.mp hmem
      rcases hevent with rfl | ⟨rfl, -⟩
      · obtain rfl := HostEvent.register.inj heq
        exact ⟨l, hl, rfl, hacknowledged⟩
      · cases heq
  · intro lease hmem
    rcases List.mem_append.mp hmem with hmem | hmem
    · exact h.revokes lease hmem
    · have heq := List.mem_singleton.mp hmem
      rcases hevent with rfl | ⟨rfl, hrevoked⟩
      · cases heq
      · obtain rfl := HostEvent.revoke.inj heq
        exact ⟨l, hl, rfl, hacknowledged, hrevoked⟩

/-! ## Leases -/

/-- A lease's record may change, as long as it stays the same lease and is not
acknowledged by it. A lease that becomes revoked is exempt. -/
theorem Inv.setLease (h : Inv none held s) {id : Nat} {f : HostLease → HostLease}
    (hid : ∀ l, (f l).id = l.id) (hacknowledged : ∀ l, (f l).acknowledged = l.acknowledged)
    (hrevoked : ∀ l, l.revoked = true → (f l).revoked = true)
    (hsources : ∀ l ∈ s.leases, l.id = id → (f l).revoked = true →
      (f l).source = false ∧ (f l).acceptSource = false)
    (hopen : ∀ l ∈ s.leases, l.id = id → (f l).revoked = true → l.revoked = true ∨
      exempt = some id) :
    Inv exempt held (s.setLease id f) := by
  have hsame : ∀ l : HostLease, (if l.id = id then f l else l).id = l.id := by
    intro l
    split
    · exact hid l
    · rfl
  have hsameAcknowledged : ∀ l : HostLease,
      (if l.id = id then f l else l).acknowledged = l.acknowledged := by
    intro l
    split
    · exact hacknowledged l
    · rfl
  have hstays : ∀ l : HostLease, l.revoked = true →
      (if l.id = id then f l else l).revoked = true := by
    intro l hl
    split
    · exact hrevoked l hl
    · exact hl
  refine { h with
    leaseIds := ?_, leaseBound := ?_, clientLease := ?_, registers := ?_, revokes := ?_,
    openLease := ?_, acknowledged := ?_, sources := ?_, released := ?_ }
  · rw [Host.setLease, List.map_map]
    refine (List.map_congr_left fun l _ => ?_).symm ▸ h.leaseIds
    exact hsame l
  · intro l hl
    obtain ⟨l₀, hl₀, rfl⟩ := mem_setLease hl
    rw [hsame]
    exact h.leaseBound l₀ hl₀
  · intro c hc
    obtain ⟨l, hl, hlease⟩ := h.clientLease c hc
    exact ⟨_, List.mem_map_of_mem hl, (hsame l).trans hlease⟩
  · intro lease hmem
    obtain ⟨l, hl, hlease, hnot⟩ := h.registers lease hmem
    exact ⟨_, List.mem_map_of_mem hl, (hsame l).trans hlease, (hsameAcknowledged l).trans hnot⟩
  · intro lease hmem
    obtain ⟨l, hl, hlease, hnot, hrev⟩ := h.revokes lease hmem
    exact ⟨_, List.mem_map_of_mem hl, (hsame l).trans hlease, (hsameAcknowledged l).trans hnot,
      hstays l hrev⟩
  · intro c hc hclosed hexempt l hl hlease
    obtain ⟨l₀, hl₀, rfl⟩ := mem_setLease hl
    rw [hsame] at hlease
    have hbefore := h.openLease c hc hclosed nofun l₀ hl₀ hlease
    split
    next heq =>
      rw [Bool.eq_false_iff]
      intro hafter
      rcases hopen l₀ hl₀ heq hafter with hrev | hex
      · rw [hbefore] at hrev
        cases hrev
      · rw [← heq, hlease] at hex
        exact hexempt hex
    next => exact hbefore
  · intro l hl hack
    obtain ⟨l₀, hl₀, rfl⟩ := mem_setLease hl
    rw [hsameAcknowledged] at hack
    exact hstays l₀ (h.acknowledged l₀ hl₀ hack)
  · intro l hl hrev
    obtain ⟨l₀, hl₀, rfl⟩ := mem_setLease hl
    split at hrev
    next heq =>
      rw [if_pos heq]
      exact hsources l₀ hl₀ heq hrev
    next hne =>
      rw [if_neg hne]
      exact h.sources l₀ hl₀ hrev
  · intro lease hmem
    obtain ⟨hlt, hall⟩ := h.released lease hmem
    refine ⟨hlt, fun l hl hlease => ?_⟩
    obtain ⟨l₀, hl₀, rfl⟩ := mem_setLease hl
    rw [hsame] at hlease
    rw [hsameAcknowledged]
    exact hall l₀ hl₀ hlease

/-- Clients keep their names and their leases, and a closed one stays closed. -/
def Kept (before after : List HostClient) : Prop :=
  ∀ c ∈ after, ∃ c₀ ∈ before, c₀.serial = c.serial ∧ c₀.lease = c.lease ∧
    (c.closed = false → c₀.closed = false)

theorem Kept.trans {a b c : List HostClient} (hab : Kept a b) (hbc : Kept b c) : Kept a c := by
  intro client hclient
  obtain ⟨c₁, hc₁, hserial₁, hlease₁, hclosed₁⟩ := hbc client hclient
  obtain ⟨c₀, hc₀, hserial₀, hlease₀, hclosed₀⟩ := hab c₁ hc₁
  exact ⟨c₀, hc₀, hserial₀.trans hserial₁, hlease₀.trans hlease₁,
    fun h => hclosed₀ (hclosed₁ h)⟩

theorem clientClose_kept (serial : Nat) : Kept s.clients (s.clientClose serial).clients := by
  have hself : Kept s.clients s.clients := fun c hc => ⟨c, hc, rfl, rfl, fun h => h⟩
  rw [Host.clientClose]
  split
  · exact hself
  · split
    · exact hself
    · intro c hc
      obtain ⟨c₀, hc₀, rfl⟩ := mem_setClient hc
      refine ⟨c₀, hc₀, ?_⟩
      split <;> simp

theorem clientClose_closed (h : Inv exempt held s) (serial : Nat) :
    ∀ c ∈ (s.clientClose serial).clients, c.serial = serial → c.closed = true := by
  intro c hc hserial
  rw [Host.clientClose] at hc
  split at hc
  next hnone =>
    have hfalse := List.find?_eq_none.mp hnone c hc
    simp [hserial] at hfalse
  next client hclient =>
    split at hc
    next hclosed =>
      obtain ⟨hmem, hname⟩ := mem_of_client? hclient
      obtain rfl := eq_of_nodup h.serials hc hmem (hserial.trans hname.symm)
      exact hclosed
    next =>
      obtain ⟨c₀, hc₀, rfl⟩ := mem_setClient hc
      split
      next => rfl
      next hne =>
        rw [if_neg hne] at hserial
        exact (hne hserial).elim

theorem clientClose_leases (serial : Nat) : (s.clientClose serial).leases = s.leases ∧
    (s.clientClose serial).events = s.events ∧ (s.clientClose serial).running = s.running := by
  rw [Host.clientClose]
  split
  · exact ⟨rfl, rfl, rfl⟩
  · split <;> exact ⟨rfl, rfl, rfl⟩

/-- Closing clients one after another. -/
theorem closeAll (clients : List HostClient) : ∀ {s : Host}, Inv exempt held s →
    let s' := clients.foldl (fun s client => s.clientClose client.serial) s
    Inv exempt held s' ∧ Kept s.clients s'.clients ∧
      (∀ client ∈ clients, ∀ c ∈ s'.clients, c.serial = client.serial → c.closed = true) ∧
      s'.leases = s.leases ∧ s'.events = s.events ∧ s'.running = s.running := by
  induction clients with
  | nil =>
      intro s h
      exact ⟨h, fun c hc => ⟨c, hc, rfl, rfl, fun h => h⟩, (fun _ hmem => nomatch hmem), rfl, rfl,
        rfl⟩
  | cons client rest ih =>
      intro s h
      obtain ⟨hinv, hkept, hclosed, hleases, hevents, hrunning⟩ := ih (h.clientClose client.serial)
      obtain ⟨hleases₀, hevents₀, hrunning₀⟩ := clientClose_leases (s := s) client.serial
      refine ⟨hinv, (clientClose_kept client.serial).trans hkept, ?_, hleases.trans hleases₀,
        hevents.trans hevents₀, hrunning.trans hrunning₀⟩
      intro other hmem c hc hserial
      rcases List.mem_cons.mp hmem with rfl | hmem
      · obtain ⟨c₁, hc₁, hserial₁, -, hclosed₁⟩ := hkept c hc
        have hfirst := clientClose_closed h other.serial c₁ hc₁ (hserial₁.trans hserial)
        rw [← Bool.not_eq_false]
        intro hopen
        rw [hclosed₁ hopen] at hfirst
        cases hfirst
      · exact hclosed other hmem c hc hserial

/-- With its clients closed, a revoked lease needs no exemption. -/
theorem Inv.of_closed {lease : Nat} (h : Inv (some lease) held s)
    (hclosed : ∀ c ∈ s.clients, c.lease = lease → c.closed = true) : Inv none held s :=
  { h with
    openLease := by
      intro c hc hopen _
      refine h.openLease c hc hopen fun heq => ?_
      rw [hclosed c hc (Option.some.inj heq).symm] at hopen
      cases hopen }

theorem Inv.revoke (h : Inv none held s) (lease : Nat) : Inv none held (s.revoke lease) := by
  rw [Host.revoke]
  split
  · exact h
  next l hl =>
    obtain ⟨hmem, hid⟩ := mem_of_lease? hl
    split
    · exact h
    next hrevoked =>
      have hnone : .revoke lease ∉ s.events := by
        intro hqueued
        obtain ⟨l', hl', hid', -, hrevoked'⟩ := h.revokes lease hqueued
        obtain rfl := h.lease_eq hmem hl' (hid.trans hid'.symm)
        exact hrevoked hrevoked'
      have hset : Inv (some lease) held (s.setLease lease fun l =>
          { l with revoked := true, acceptSource := false, source := false }) :=
        h.setLease (fun _ => rfl) (fun _ => rfl) (fun _ _ => rfl) (fun _ _ _ _ => ⟨rfl, rfl⟩)
          fun _ _ _ _ => .inr rfl
      obtain ⟨hinv, hkept, hclosed, hleases, hevents, -⟩ := closeAll
        (s.clients.filter (·.lease == lease)) hset
      have hall : ∀ c ∈ ((s.clients.filter (·.lease == lease)).foldl
          (fun s client => s.clientClose client.serial) (s.setLease lease fun l =>
            { l with revoked := true, acceptSource := false, source := false })).clients,
          c.lease = lease → c.closed = true := by
        intro c hc hlease
        obtain ⟨c₀, hc₀, hserial, hlease₀, -⟩ := hkept c hc
        have hfilter : c₀ ∈ s.clients.filter (·.lease == lease) :=
          List.mem_filter.mpr ⟨hc₀, by simpa using hlease₀.trans hlease⟩
        exact hclosed c₀ hfilter c hc hserial.symm
      have hleaseMem : { l with revoked := true, acceptSource := false, source := false } ∈
          (s.setLease lease fun l =>
            { l with revoked := true, acceptSource := false, source := false }).leases :=
        List.mem_map.mpr ⟨l, hmem, if_pos hid⟩
      have hacknowledged : l.acknowledged = false := by
        rw [Bool.eq_false_iff]
        exact fun hack => hrevoked (h.acknowledged l hmem hack)
      subst hid
      refine (hinv.of_closed hall).push_lease
        (l := { l with revoked := true, acceptSource := false, source := false })
        (hleases.symm ▸ hleaseMem) hacknowledged ?_ (.inr ⟨rfl, rfl⟩)
      rw [hevents]
      exact hnone

theorem revoke_running (lease : Nat) : (s.revoke lease).running = s.running := by
  rw [Host.revoke]
  split
  · rfl
  · split
    · rfl
    · dsimp only
      exact List.foldlRecOn (motive := fun t : Host => t.running = s.running) _ _ rfl
        fun t ht client _ => (clientClose_leases client.serial).2.2.trans ht

/-! ## The inputs -/

theorem Inv.line (h : Inv none held s) (serial : Nat) (document : Option Json) :
    Inv none held (s.line serial document) := by
  rw [Host.line]
  split
  · exact h
  next client hclient =>
    obtain ⟨hmem, rfl⟩ := mem_of_client? hclient
    split
    · exact h
    · split
      · have hlog : Inv none held (s.log (.cancelled client.serial
            ((jsonMember (jsonMember document "params") "requestId").getD .null))) :=
          h.log trivial fun lease => nofun
        exact hlog.of_same rfl rfl rfl rfl rfl rfl
      · split
        · exact (h.queue_call hmem document).log trivial fun lease => nofun
        · exact h.clientClose client.serial

/-- A new client of a lease that is not revoked. -/
theorem Inv.connect (h : Inv none held s) {l : HostLease} (hl : l ∈ s.leases)
    (hrevoked : l.revoked = false) :
    Inv none held { s with
      clients := { lease := l.id, serial := s.serial + 1 } :: s.clients
      serial := s.serial + 1
      trace := .accepted l.id (s.serial + 1) :: s.trace } := by
  have hfresh : ∀ c ∈ s.clients, c.serial ≠ s.serial + 1 := by
    intro c hc
    have := h.serialBound c hc
    omega
  have hnew : ∀ serial, (∃ c ∈ s.clients, c.serial = serial) → serial ≠ s.serial + 1 := by
    rintro serial ⟨c, hc, rfl⟩
    exact hfresh c hc
  refine { h with
    serials := ?_, serialBound := ?_, clientLease := ?_, pending := ?_, calls := ?_
    current := ?_, openLease := ?_, released := ?_, final := ?_ }
  · simp only [List.map_cons, List.nodup_cons]
    refine ⟨fun hmem => ?_, h.serials⟩
    obtain ⟨c, hc, heq⟩ := List.mem_map.mp hmem
    exact hfresh c hc heq
  · intro c hc
    rcases List.mem_cons.mp hc with rfl | hc
    · exact Nat.le_refl _
    · exact Nat.le_succ_of_le (h.serialBound c hc)
  · intro c hc
    rcases List.mem_cons.mp hc with rfl | hc
    · exact ⟨l, hl, rfl⟩
    · exact h.clientLease c hc
  · intro c hc
    rcases List.mem_cons.mp hc with rfl | hc
    · have hcount : s.events.countP (HostEvent.isCall (s.serial + 1)) = 0 := by
        refine List.countP_eq_zero.mpr fun event hevent hcall => ?_
        cases event with
        | call client document =>
            have hserial : client = s.serial + 1 := by simpa [HostEvent.isCall] using hcall
            exact hnew client (h.calls client document hevent) hserial
        | register | revoke => cases hcall
      have hheld : held.count (s.serial + 1) = 0 :=
        List.count_eq_zero.mpr fun hmem => hnew _ (h.current _ hmem) rfl
      simp only [hcount, hheld]
    · exact h.pending c hc
  · intro serial document hmem
    obtain ⟨c, hc, heq⟩ := h.calls serial document hmem
    exact ⟨c, List.mem_cons_of_mem _ hc, heq⟩
  · intro serial hmem
    obtain ⟨c, hc, heq⟩ := h.current serial hmem
    exact ⟨c, List.mem_cons_of_mem _ hc, heq⟩
  · intro c hc hopen hexempt l' hl' hid
    rcases List.mem_cons.mp hc with rfl | hc
    · obtain rfl := h.lease_eq hl hl' hid.symm
      exact hrevoked
    · exact h.openLease c hc hopen hexempt l' hl' hid
  · intro lease hmem
    exact h.released lease (by simpa using hmem)
  · exact h.final.cons (h.not_released hl hrevoked)

theorem Inv.accept (h : Inv none held s) (lease : Nat) (trusted : Bool) :
    Inv none held (s.accept lease trusted) := by
  rw [Host.accept]
  split
  · exact h
  next l hl =>
    obtain ⟨hmem, rfl⟩ := mem_of_lease? hl
    split
    · exact h
    next hopen =>
      have hrevoked : l.revoked = false := by
        simp only [Bool.not_eq_true, Bool.or_eq_false_iff] at hopen
        exact hopen.1.1.2
      have hset : Inv none held (s.setLease l.id fun l => { l with used := true }) := by
        refine h.setLease (fun _ => rfl) (fun _ => rfl) (fun _ hrev => hrev) ?_
          fun _ _ _ hrev => .inl hrev
        exact fun l hl _ hrev => h.sources l hl hrev
      have hmem' : { l with used := true } ∈
          (s.setLease l.id fun l => { l with used := true }).leases :=
        List.mem_map.mpr ⟨l, hmem, if_pos rfl⟩
      exact hset.connect (l := { l with used := true }) hmem' hrevoked

theorem Inv.controlRead (h : Inv none held s) (lease : Nat) (control : Control) :
    Inv none held (s.controlRead lease control) := by
  rw [Host.controlRead.eq_def]
  split
  · exact h
  next l hl =>
    obtain ⟨hmem, rfl⟩ := mem_of_lease? hl
    split
    · exact h
    next hsource =>
      split
      · exact h.revoke l.id
      next hregistered =>
        have hrevoked : l.revoked = false := by
          rw [Bool.eq_false_iff]
          intro hrev
          rw [(h.sources l hmem hrev).1] at hsource
          exact hsource rfl
        split
        · exact h
        · have hset : Inv none held (s.setLease l.id fun l => { l with registered := true }) := by
            refine h.setLease (fun _ => rfl) (fun _ => rfl) (fun _ hrev => hrev) ?_
              fun _ _ _ hrev => .inl hrev
            exact fun l hl _ hrev => h.sources l hl hrev
          have hmem' : { l with registered := true } ∈
              (s.setLease l.id fun l => { l with registered := true }).leases :=
            List.mem_map.mpr ⟨l, hmem, if_pos rfl⟩
          have hacknowledged : l.acknowledged = false := by
            rw [Bool.eq_false_iff]
            intro hack
            rw [h.acknowledged l hmem hack] at hrevoked
            cases hrevoked
          refine hset.push_lease (l := { l with registered := true }) hmem' hacknowledged
            (fun hqueued => ?_) (.inl rfl)
          obtain ⟨l', hl', hid, -, hrev⟩ := h.revokes l.id hqueued
          obtain rfl := h.lease_eq hmem hl' hid.symm
          rw [hrevoked] at hrev
          cases hrev
        · exact h.revoke l.id
        · exact h.revoke l.id

theorem Inv.controlAccept (h : Inv none held s) : Inv none held s.controlAccept := by
  rw [Host.controlAccept]
  split
  · have hfresh : ∀ l ∈ s.leases, l.id ≠ s.nextLease := by
      intro l hl
      have := h.leaseBound l hl
      omega
    refine { h with
      leaseIds := ?_, leaseBound := ?_, clientLease := ?_, registers := ?_, revokes := ?_
      openLease := ?_, acknowledged := ?_, sources := ?_, released := ?_ }
    · simp only [List.map_cons, List.nodup_cons]
      refine ⟨fun hmem => ?_, h.leaseIds⟩
      obtain ⟨l, hl, heq⟩ := List.mem_map.mp hmem
      exact hfresh l hl heq
    · intro l hl
      rcases List.mem_cons.mp hl with rfl | hl
      · exact Nat.lt_succ_self _
      · exact Nat.lt_succ_of_lt (h.leaseBound l hl)
    · intro c hc
      obtain ⟨l, hl, heq⟩ := h.clientLease c hc
      exact ⟨l, List.mem_cons_of_mem _ hl, heq⟩
    · intro lease hmem
      obtain ⟨l, hl, heq⟩ := h.registers lease hmem
      exact ⟨l, List.mem_cons_of_mem _ hl, heq⟩
    · intro lease hmem
      obtain ⟨l, hl, heq⟩ := h.revokes lease hmem
      exact ⟨l, List.mem_cons_of_mem _ hl, heq⟩
    · intro c hc hopen hexempt l hl hid
      rcases List.mem_cons.mp hl with rfl | hl
      · rfl
      · exact h.openLease c hc hopen hexempt l hl hid
    · intro l hl hack
      rcases List.mem_cons.mp hl with rfl | hl
      · cases hack
      · exact h.acknowledged l hl hack
    · intro l hl hrev
      rcases List.mem_cons.mp hl with rfl | hl
      · cases hrev
      · exact h.sources l hl hrev
    · intro lease hmem
      obtain ⟨hlt, hall⟩ := h.released lease hmem
      refine ⟨Nat.lt_succ_of_lt hlt, fun l hl hid => ?_⟩
      rcases List.mem_cons.mp hl with rfl | hl
      · exact absurd hid (Nat.ne_of_gt hlt)
      · exact hall l hl hid
  · exact h

/-- A lease with an open client has not been released. -/
theorem Inv.client_not_released (h : Inv none held s) {client : HostClient}
    (hclient : client ∈ s.clients) (hopen : client.closed = false) :
    .released client.lease ∉ s.trace := by
  obtain ⟨l, hl, hid⟩ := h.clientLease client hclient
  have hrevoked := h.openLease client hclient hopen nofun l hl hid
  exact hid ▸ h.not_released hl hrevoked

theorem Inv.finishCall {running : Running} (h : Inv none [running.client] s) (outcome : Outcome) :
    Inv none [] (s.finishCall running outcome) := by
  rw [Host.finishCall]
  refine Inv.of_same (Inv.drop ?_) rfl rfl rfl rfl rfl rfl
  split
  · exact h
  · split
    · split
      · exact h
      · exact h.log trivial fun lease => nofun
    · exact h

theorem Inv.replies (h : Inv exempt held s) (client : Nat) (replies : List Json) :
    Inv exempt held { s with trace := replies.map (.replied client) ++ s.trace } := by
  induction replies with
  | nil => exact h
  | cons reply rest ih => exact ih.log trivial fun lease => nofun

theorem Inv.idle_now (h : Inv none [] s) (hrunning : s.running = none) : Inv none s.inWork s := by
  rw [Host.inWork, hrunning]
  exact h

theorem Inv.call {client : HostClient} (h : Inv none [client.serial] s)
    (hclient : client ∈ s.clients) (hrunning : s.running = none) (document : Option Json) :
    Inv none (s.call client document).inWork (s.call client document) := by
  rw [Host.call]
  dsimp only
  split
  · exact h.drop.idle_now hrunning
  next hclosed =>
    have hstarted : Inv none [client.serial]
        (s.log (.started client.lease client.serial document)) :=
      h.log (h.client_not_released hclient (by simpa using hclosed)) fun lease => nofun
    split
    · have hreplied : Inv none [client.serial]
          ((s.log (.started client.lease client.serial none)).log (.replied client.serial
            (sendError none (-32700) Frontend.malformedMessage))) :=
        hstarted.log trivial fun lease => nofun
      exact hreplied.drop.idle_now hrunning
    next document =>
      split
      next session replies hresult =>
        have hreplied := hstarted.replies client.serial replies
        refine Inv.idle_now (Inv.drop ?_) hrunning
        exact hreplied.of_same rfl rfl rfl rfl rfl rfl
      next session call hresult =>
        split
        · exact hstarted.of_same rfl rfl rfl rfl rfl rfl
        · have hcall : Inv none [client.serial] { s.log (.started client.lease client.serial
              (some document)) with
              session
              cancelled := (s.log (.started client.lease client.serial
                (some document))).cancelledIds.any
                (sameKey (Running.key { client := client.serial, call })) } :=
            hstarted.of_same rfl rfl rfl rfl rfl rfl
          exact (hcall.finishCall (.ok [])).idle_now rfl

/-- A lease with nothing queued about it any more may be acknowledged. -/
theorem Inv.acknowledge (h : Inv none held s) {l : HostLease} (hl : l ∈ s.leases)
    (hrevoked : l.revoked = true) (hregister : .register l.id ∉ s.events)
    (hrevoke : .revoke l.id ∉ s.events) :
    Inv none held (s.setLease l.id fun l => { l with acknowledged := true }) := by
  have hsame : ∀ l' : HostLease,
      (if l'.id = l.id then { l' with acknowledged := true } else l').id = l'.id := by
    intro l'
    split <;> rfl
  have hsameRevoked : ∀ l' : HostLease,
      (if l'.id = l.id then { l' with acknowledged := true } else l').revoked = l'.revoked := by
    intro l'
    split <;> rfl
  have hkept : ∀ l' ∈ s.leases, l'.id ≠ l.id →
      l' ∈ (s.setLease l.id fun l => { l with acknowledged := true }).leases := by
    intro l' hl' hne
    exact List.mem_map.mpr ⟨l', hl', if_neg hne⟩
  refine { h with
    leaseIds := ?_, leaseBound := ?_, clientLease := ?_, registers := ?_, revokes := ?_
    openLease := ?_, acknowledged := ?_, sources := ?_, released := ?_ }
  · rw [Host.setLease, List.map_map]
    refine (List.map_congr_left fun l' _ => ?_).symm ▸ h.leaseIds
    exact hsame l'
  · intro l' hl'
    obtain ⟨l₀, hl₀, rfl⟩ := mem_setLease hl'
    rw [hsame]
    exact h.leaseBound l₀ hl₀
  · intro c hc
    obtain ⟨l₀, hl₀, hlease⟩ := h.clientLease c hc
    exact ⟨_, List.mem_map_of_mem hl₀, (hsame l₀).trans hlease⟩
  · intro lease hmem
    obtain ⟨l₀, hl₀, hlease, hnot⟩ := h.registers lease hmem
    have hne : l₀.id ≠ l.id := by
      rintro heq
      rw [← hlease, heq] at hmem
      exact hregister hmem
    exact ⟨l₀, hkept l₀ hl₀ hne, hlease, hnot⟩
  · intro lease hmem
    obtain ⟨l₀, hl₀, hlease, hnot⟩ := h.revokes lease hmem
    have hne : l₀.id ≠ l.id := by
      rintro heq
      rw [← hlease, heq] at hmem
      exact hrevoke hmem
    exact ⟨l₀, hkept l₀ hl₀ hne, hlease, hnot⟩
  · intro c hc hopen hexempt l' hl' hlease
    obtain ⟨l₀, hl₀, rfl⟩ := mem_setLease hl'
    rw [hsame] at hlease
    rw [hsameRevoked]
    exact h.openLease c hc hopen hexempt l₀ hl₀ hlease
  · intro l' hl' hack
    obtain ⟨l₀, hl₀, rfl⟩ := mem_setLease hl'
    rw [hsameRevoked]
    split at hack
    next heq =>
      obtain rfl := h.lease_eq hl₀ hl heq
      exact hrevoked
    next => exact h.acknowledged l₀ hl₀ hack
  · intro l' hl' hrev
    obtain ⟨l₀, hl₀, rfl⟩ := mem_setLease hl'
    rw [hsameRevoked] at hrev
    split <;> exact h.sources l₀ hl₀ hrev
  · intro lease hmem
    obtain ⟨hlt, hall⟩ := h.released lease hmem
    refine ⟨hlt, fun l' hl' hlease => ?_⟩
    obtain ⟨l₀, hl₀, rfl⟩ := mem_setLease hl'
    rw [hsame] at hlease
    split
    · rfl
    · exact hall l₀ hl₀ hlease

/-- The release of a lease whose record is acknowledged. -/
theorem Inv.log_released (h : Inv none held s) {lease : Nat} (hlt : lease < s.nextLease)
    (hall : ∀ l ∈ s.leases, l.id = lease → l.acknowledged = true) :
    Inv none held (s.log (.released lease)) :=
  { h with
    released := by
      intro other hmem
      rcases List.mem_cons.mp hmem with heq | hmem
      · cases heq
        exact ⟨hlt, hall⟩
      · exact h.released other hmem
    final := h.final.cons trivial }

/-- A lease that is released: its revocation was the last that was queued of it. -/
theorem Inv.release (h : Inv none held s) {l : HostLease} (hl : l ∈ s.leases)
    {events : List HostEvent} (hevents : s.events = .revoke l.id :: events) :
    Inv none held (({ s with events } : Host).setLease l.id fun l =>
      { l with acknowledged := true }) ∧
    Inv none held ((({ s with events } : Host).log (.released l.id)).setLease l.id fun l =>
      { l with acknowledged := true }) := by
  have hrevoked : l.revoked = true := by
    obtain ⟨l', hl', hid, -, hrev⟩ := h.revokes l.id (hevents ▸ List.mem_cons_self ..)
    obtain rfl := h.lease_eq hl hl' hid.symm
    exact hrev
  have hbehind : ∀ event ∈ events, Behind (.revoke l.id) event := by
    have horder := h.order
    rw [hevents] at horder
    exact (List.pairwise_cons.mp horder).1
  have hack := (h.pop_lease hevents fun _ => rfl).acknowledge hl hrevoked
    (fun hmem => (hbehind _ hmem l.id rfl).1 rfl) fun hmem => (hbehind _ hmem l.id rfl).2 rfl
  refine ⟨hack, hack.log_released (h.leaseBound l hl) fun l' hl' hid => ?_⟩
  obtain ⟨l₀, hl₀, rfl⟩ := mem_setLease hl'
  split
  next => rfl
  next hne =>
    rw [if_neg hne] at hid
    exact (hne hid).elim

theorem Inv.turn (h : Inv none s.inWork s) (bound told : Bool) :
    Inv none (s.turn bound told).inWork (s.turn bound told) := by
  rw [Host.turn.eq_def]
  split
  · exact h
  · exact h
  next serial document events hrunning hevents =>
    have hnone : s.inWork = [] := by rw [Host.inWork, hrunning]; rfl
    rw [hnone] at h
    have hpop := h.pop_call hevents
    dsimp only
    split
    next hmissing =>
      obtain ⟨c, hc, heq⟩ := hpop.current serial (List.mem_singleton.mpr rfl)
      have hfalse := List.find?_eq_none.mp hmissing c hc
      simp [heq] at hfalse
    next client hclient =>
      obtain ⟨hmem, rfl⟩ := mem_of_client? hclient
      exact hpop.call hmem hrunning document
  next lease events hrunning hevents =>
    have hnone : s.inWork = [] := by rw [Host.inWork, hrunning]; rfl
    rw [hnone] at h
    have hpop := h.pop_lease hevents fun _ => rfl
    dsimp only
    split
    · exact hpop.idle_now hrunning
    next l hl =>
      obtain ⟨hmem, rfl⟩ := mem_of_lease? hl
      split
      · exact hpop.idle_now hrunning
      next hrevoked =>
        have hreset : Inv none [] { s with events, cancelled := false } :=
          hpop.of_same rfl rfl rfl rfl rfl rfl
        split
        · have hset : Inv none [] (({ s with events, cancelled := false } : Host).setLease l.id
              fun l => { l with acceptSource := true }) := by
            refine hreset.setLease (fun _ => rfl) (fun _ => rfl) (fun _ hrev => hrev) ?_
              fun _ _ _ hrev => .inl hrev
            intro l' hl' hid hrev
            obtain rfl := hreset.lease_eq hl' hmem hid
            exact (hrevoked hrev).elim
          exact hset.idle_now hrunning
        · exact (hreset.revoke l.id).idle_now ((revoke_running _).trans hrunning)
  next lease events hrunning hevents =>
    have hnone : s.inWork = [] := by rw [Host.inWork, hrunning]; rfl
    rw [hnone] at h
    dsimp only
    split
    next hmissing =>
      exact (h.pop_lease hevents fun _ => rfl).idle_now hrunning
    next l hl =>
      obtain ⟨hmem, rfl⟩ := mem_of_lease? hl
      obtain ⟨hquiet, htold⟩ := h.release hmem hevents
      cases l.control with
      | false => exact hquiet.idle_now hrunning
      | true => exact htold.idle_now hrunning

theorem inWork_running {running : Running} (hrunning : s.running = some running) :
    s.inWork = [running.client] := by
  rw [Host.inWork, hrunning]
  rfl

theorem Inv.tick (h : Inv none s.inWork s) (hflagged : Flagged s) (failure : Option Failure) :
    Inv none (s.tick failure).inWork (s.tick failure) := by
  rw [Host.tick]
  split
  · exact h
  next running hrunning =>
    have hheld := inWork_running hrunning
    split
    · exact h
    · rw [hheld] at h
      split
      · have hsuppressed : Inv none [running.client]
            (s.log (.suppressed running.client running.call.id)) :=
          h.log trivial fun lease => nofun
        exact (hsuppressed.finishCall _).idle_now rfl
      next hcancelled =>
        split
        · exact (h.finishCall _).idle_now rfl
        · split
          next hmissing =>
            rw [hheld]
            exact h
          next client hclient =>
            obtain ⟨hmem, hserial⟩ := mem_of_client? hclient
            have hopen : client.closed = false := by
              rw [Bool.eq_false_iff]
              intro hclosed
              exact hcancelled (hflagged running hrunning client hmem hserial hclosed)
            have hlog : Inv none [running.client]
                (s.log (.executed client.lease running.client running.call.id)) :=
              h.log (h.client_not_released hmem hopen) fun lease => nofun
            exact hlog.of_same rfl rfl rfl rfl rfl rfl

theorem Inv.finish (h : Inv none s.inWork s) (outcome : Outcome) :
    Inv none (s.finish outcome).inWork (s.finish outcome) := by
  rw [Host.finish]
  split
  · exact h
  next running hrunning =>
    split
    · rw [inWork_running hrunning] at h
      exact (h.finishCall outcome).idle_now rfl
    · exact h

theorem Inv.idle (h : Inv none s.inWork s) (lease : Nat) :
    Inv none (s.idle lease).inWork (s.idle lease) := by
  rw [Host.idle]
  split
  next hrunning _ =>
    split
    · have hrevoke := h.revoke lease
      rw [Host.inWork, revoke_running]
      exact hrevoke
    · exact h
  · exact h

theorem Inv.collect (h : Inv none s.inWork s) : Inv none s.collect.inWork s.collect := by
  rw [Host.collect]
  split
  · exact h
  next hrunning =>
    have hnone : s.inWork = [] := by rw [Host.inWork, hrunning]; rfl
    have hkeep : ∀ c ∈ s.clients, s.events.countP (HostEvent.isCall c.serial) ≠ 0 →
        c ∈ s.clients.filter fun c => !(c.closed && c.pending == 0) := by
      intro c hc hcount
      have hpending := h.pending c hc
      refine List.mem_filter.mpr ⟨hc, ?_⟩
      have hne : c.pending ≠ 0 := by omega
      simp [hne]
    have hlease : ∀ l ∈ s.leases, l.acknowledged = false ∨
        (∃ c ∈ s.clients.filter fun c => !(c.closed && c.pending == 0), c.lease = l.id) →
        l ∈ s.leases.filter fun l => !(l.acknowledged &&
          !(s.clients.filter fun c => !(c.closed && c.pending == 0)).any (·.lease == l.id)) := by
      intro l hl hor
      refine List.mem_filter.mpr ⟨hl, ?_⟩
      rcases hor with hack | ⟨c, hc, heq⟩
      · simp [hack]
      · have hany : (s.clients.filter fun c => !(c.closed && c.pending == 0)).any
            (·.lease == l.id) = true := List.any_eq_true.mpr ⟨c, hc, by simpa using heq⟩
        rw [hany, Bool.not_true, Bool.and_false, Bool.not_false]
    have hclients : ∀ c ∈ s.clients.filter (fun c => !(c.closed && c.pending == 0)),
        c ∈ s.clients := fun c hc => (List.mem_filter.mp hc).1
    have hleases : ∀ l ∈ s.leases.filter (fun l => !(l.acknowledged &&
        !(s.clients.filter fun c => !(c.closed && c.pending == 0)).any (·.lease == l.id))),
        l ∈ s.leases := fun l hl => (List.mem_filter.mp hl).1
    refine { h with
      serials := h.serials.sublist ((List.filter_sublist ..).map _)
      serialBound := fun c hc => h.serialBound c (hclients c hc)
      leaseIds := h.leaseIds.sublist ((List.filter_sublist ..).map _)
      leaseBound := fun l hl => h.leaseBound l (hleases l hl)
      clientLease := ?_
      pending := fun c hc => h.pending c (hclients c hc)
      calls := ?_
      current := ?_
      registers := ?_
      revokes := ?_
      openLease := fun c hc hopen hexempt l hl hid =>
        h.openLease c (hclients c hc) hopen hexempt l (hleases l hl) hid
      acknowledged := fun l hl => h.acknowledged l (hleases l hl)
      sources := fun l hl => h.sources l (hleases l hl)
      released := fun lease hmem => ⟨(h.released lease hmem).1, fun l hl =>
        (h.released lease hmem).2 l (hleases l hl)⟩ }
    · intro c hc
      obtain ⟨l, hl, heq⟩ := h.clientLease c (hclients c hc)
      exact ⟨l, hlease l hl (.inr ⟨c, hc, heq.symm⟩), heq⟩
    · intro serial document hmem
      obtain ⟨c, hc, rfl⟩ := h.calls serial document hmem
      refine ⟨c, hkeep c hc ?_, rfl⟩
      have hpos := List.countP_pos_iff.mpr
        ⟨_, hmem, show HostEvent.isCall c.serial (.call c.serial document) = true by
          simp [HostEvent.isCall]⟩
      exact Nat.ne_of_gt hpos
    · intro serial hmem
      have hin : serial ∈ s.inWork := hmem
      rw [hnone] at hin
      cases hin
    · intro lease hmem
      obtain ⟨l, hl, hid, hack⟩ := h.registers lease hmem
      exact ⟨l, hlease l hl (.inl hack), hid, hack⟩
    · intro lease hmem
      obtain ⟨l, hl, hid, hack, hrev⟩ := h.revokes lease hmem
      exact ⟨l, hlease l hl (.inl hack), hid, hack, hrev⟩


/-! ## The flag of the call in work -/

theorem Flagged.of_none (h : s.running = none) : Flagged s := by
  intro running hrunning
  rw [h] at hrunning
  cases hrunning

/-- Records that close no client, and a flag that stays, keep it. -/
theorem Flagged.of_kept {s' : Host} (h : Flagged s) (hrunning : s'.running = s.running)
    (hcancelled : s.cancelled = true → s'.cancelled = true)
    (hclients : ∀ c ∈ s'.clients, c.closed = true → ∃ c₀ ∈ s.clients,
      c₀.serial = c.serial ∧ c₀.closed = true) : Flagged s' := by
  intro running hsome c hc hserial hclosed
  obtain ⟨c₀, hc₀, hserial₀, hclosed₀⟩ := hclients c hc hclosed
  exact hcancelled (h running (hrunning ▸ hsome) c₀ hc₀ (hserial₀.trans hserial) hclosed₀)

theorem Flagged.setClient (h : Flagged s) (serial : Nat) {f : HostClient → HostClient}
    (hserial : ∀ c, (f c).serial = c.serial) (hclosed : ∀ c, (f c).closed = c.closed) :
    Flagged (s.setClient serial f) := by
  refine h.of_kept rfl (fun hflag => hflag) fun c hc hclose => ?_
  obtain ⟨c₀, hc₀, rfl⟩ := mem_setClient hc
  refine ⟨c₀, hc₀, ?_⟩
  split at hclose
  next heq =>
    rw [if_pos heq]
    exact ⟨(hserial c₀).symm, (hclosed c₀).symm.trans hclose⟩
  next hne =>
    rw [if_neg hne]
    exact ⟨rfl, hclose⟩

theorem Flagged.clientClose (h : Flagged s) (serial : Nat) : Flagged (s.clientClose serial) := by
  rw [Host.clientClose]
  split
  · exact h
  · split
    · exact h
    · intro running hrunning c hc hserial hclosed
      obtain ⟨c₀, hc₀, rfl⟩ := mem_setClient hc
      have hsame : s.running = some running := hrunning
      show (s.cancelled || s.running.any (·.client == serial)) = true
      rw [Bool.or_eq_true]
      by_cases heq : c₀.serial = serial
      · rw [if_pos heq] at hserial
        refine .inr ?_
        rw [hsame]
        have hclient : running.client = serial := hserial.symm.trans heq
        simpa using hclient
      · rw [if_neg heq] at hserial hclosed
        exact .inl (h running hsame c₀ hc₀ hserial hclosed)

theorem Flagged.revoke (h : Flagged s) (lease : Nat) : Flagged (s.revoke lease) := by
  rw [Host.revoke]
  split
  · exact h
  · split
    · exact h
    · have hset : Flagged (s.setLease lease fun l =>
          { l with revoked := true, acceptSource := false, source := false }) := h
      exact List.foldlRecOn (motive := Flagged) _ _ hset
        fun t ht client _ => ht.clientClose client.serial

theorem Flagged.line (h : Flagged s) (serial : Nat) (document : Option Json) :
    Flagged (s.line serial document) := by
  rw [Host.line]
  split
  · exact h
  · split
    · exact h
    · split
      · refine h.of_kept rfl (fun hflag => ?_) fun c hc hclosed => ⟨c, hc, rfl, hclosed⟩
        rw [Host.cancel, hflag]
        rfl
      · split
        · exact h.setClient serial (fun _ => rfl) fun _ => rfl
        · exact h.clientClose serial

theorem Flagged.accept (h : Flagged s) (lease : Nat) (trusted : Bool) :
    Flagged (s.accept lease trusted) := by
  rw [Host.accept]
  split
  · exact h
  · split
    · exact h
    · refine h.of_kept rfl (fun hflag => hflag) fun c hc hclosed => ?_
      rcases List.mem_cons.mp hc with rfl | hc
      · cases hclosed
      · exact ⟨c, hc, rfl, hclosed⟩

theorem Flagged.controlRead (h : Flagged s) (lease : Nat) (control : Control) :
    Flagged (s.controlRead lease control) := by
  rw [Host.controlRead.eq_def]
  split
  · exact h
  · split
    · exact h
    · split
      · exact h.revoke lease
      · split
        · exact h
        · exact h
        · exact h.revoke lease
        · exact h.revoke lease

theorem call_flagged (hnodup : (s.clients.map (·.serial)).Nodup) {client : HostClient}
    (hclient : client ∈ s.clients) (hrunning : s.running = none) (document : Option Json) :
    Flagged (s.call client document) := by
  rw [Host.call]
  dsimp only
  split
  · exact .of_none hrunning
  next hclosed =>
    split
    · exact .of_none hrunning
    · split
      · exact .of_none hrunning
      · split
        · intro running hsome c hc hserial hclose
          obtain rfl := Option.some.inj hsome
          obtain rfl := eq_of_nodup hnodup hc hclient hserial
          exact (hclosed hclose).elim
        · exact .of_none rfl

theorem Flagged.step (h : Flagged s) (hinv : Inv none s.inWork s) (input : Input) :
    Flagged (s.step input) := by
  cases input with
  | controlAccept =>
      show Flagged s.controlAccept
      rw [Host.controlAccept]
      split <;> exact h
  | controlRead lease control => exact h.controlRead lease control
  | accept lease trusted => exact h.accept lease trusted
  | line client document => exact h.line client document
  | hangup client => exact h.clientClose client
  | turn bound told =>
      show Flagged (s.turn bound told)
      rw [Host.turn.eq_def]
      split
      · exact h
      · exact h
      next serial document events hrunning hevents =>
        dsimp only
        split
        · exact .of_none hrunning
        next client hclient =>
          exact call_flagged (s := { s with events }) hinv.serials (mem_of_client? hclient).1
            hrunning document
      next lease events hrunning hevents =>
        dsimp only
        split
        · exact .of_none hrunning
        · split
          · exact .of_none hrunning
          · split
            · exact .of_none hrunning
            · exact .of_none ((revoke_running _).trans hrunning)
      next lease events hrunning hevents =>
        dsimp only
        split
        · exact .of_none hrunning
        · refine .of_none ?_
          split <;> exact hrunning
  | tick failure =>
      show Flagged (s.tick failure)
      rw [Host.tick]
      split
      · exact h
      next running hrunning =>
        split
        · exact h
        · split
          · exact .of_none rfl
          · split
            · exact .of_none rfl
            · split
              · exact h
              · intro other hsome c hc hserial hclosed
                obtain rfl := Option.some.inj hsome
                exact h running hrunning c hc hserial hclosed
  | finish outcome =>
      show Flagged (s.finish outcome)
      rw [Host.finish]
      split
      · exact h
      · split
        · exact .of_none rfl
        · exact h
  | idle lease =>
      show Flagged (s.idle lease)
      rw [Host.idle]
      split
      · split
        · exact h.revoke lease
        · exact h
      · exact h
  | collect =>
      show Flagged s.collect
      rw [Host.collect]
      split
      · exact h
      next hrunning => exact .of_none hrunning

/-! ## Runs -/

theorem line_running (serial : Nat) (document : Option Json) :
    (s.line serial document).running = s.running := by
  rw [Host.line]
  split
  · rfl
  · split
    · rfl
    · split
      · rfl
      · split
        · rfl
        · exact (clientClose_leases serial).2.2

theorem accept_running (lease : Nat) (trusted : Bool) :
    (s.accept lease trusted).running = s.running := by
  rw [Host.accept]
  split
  · rfl
  · split
    · rfl
    · rfl

theorem controlRead_running (lease : Nat) (control : Control) :
    (s.controlRead lease control).running = s.running := by
  rw [Host.controlRead.eq_def]
  split
  · rfl
  · split
    · rfl
    · split
      · exact revoke_running lease
      · split
        · rfl
        · rfl
        · exact revoke_running lease
        · exact revoke_running lease

theorem controlAccept_running : s.controlAccept.running = s.running := by
  rw [Host.controlAccept]
  split
  · rfl
  · rfl

/-- What does not touch the call in work leaves the references to it. -/
theorem Inv.of_running {s' : Host} (hrunning : s'.running = s.running)
    (h : Inv none s.inWork s') : Inv none s'.inWork s' := by
  rw [Host.inWork, hrunning]
  exact h

theorem Inv.step (h : Inv none s.inWork s) (hflagged : Flagged s) (input : Input) :
    Inv none (s.step input).inWork (s.step input) := by
  cases input with
  | controlAccept => exact .of_running controlAccept_running h.controlAccept
  | controlRead lease control =>
      exact .of_running (controlRead_running lease control) (h.controlRead lease control)
  | accept lease trusted =>
      exact .of_running (accept_running lease trusted) (h.accept lease trusted)
  | line client document =>
      exact .of_running (line_running client document) (h.line client document)
  | hangup client => exact .of_running (clientClose_leases client).2.2 (h.clientClose client)
  | turn bound told => exact h.turn bound told
  | tick failure => exact h.tick hflagged failure
  | finish outcome => exact h.finish outcome
  | idle lease => exact h.idle lease
  | collect => exact h.collect

/-- The records are as the invariant says after any inputs. -/
theorem inv_reachable {testPath : Bool} (h : Reachable Host.step (initial testPath) s) :
    Inv none s.inWork s ∧ Flagged s := by
  have hstart : Inv none (initial testPath).inWork (initial testPath) := by
    cases testPath
    · exact inv_initial false
    · exact inv_initial true
  have hnone : Flagged (initial testPath) := by
    cases testPath
    · exact .of_none rfl
    · exact .of_none rfl
  have hstep : ∀ t input, Inv none t.inWork t ∧ Flagged t → True →
      Inv none (Host.step t input).inWork (Host.step t input) ∧ Flagged (Host.step t input) := by
    intro t input ⟨hinv, hflagged⟩ _
    exact ⟨hinv.step hflagged input, hflagged.step hinv input⟩
  exact h.invariant ⟨hstart, hnone⟩ hstep

end

end Host

end Spaces.Computer
