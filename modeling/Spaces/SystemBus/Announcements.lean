import Spaces.SystemBus.Replies

/-!
# What a client knows of NetworkManager's owner

The host's bus announces every change of the owner in the order in which it
makes them, and among the messages it routes. The watch reports an announcement
to the program later, from a source of the main loop, so that what the program
takes for the owner is what the announcements said that have been reported.

`Phase` says how far a watch is: it has not been started, it has not said who
the owner is, or it follows the changes. `Order` says that reports are made in
the order of the announcements, and before anything is looked at that was
received after them, unless that is in the queue.
-/

namespace Spaces.SystemBus

open Spaces.Library

/-! ## Announcements and reports -/

/-- What the host's bus has told a client about NetworkManager. -/
def told (app : App) (c : Nat) : List Announcement :=
  app.history.filter fun a => a.client == c && a.service == .networkManager

/-- The owner after a list of announcements. -/
def ownerOf (announcements : List Announcement) : Option String :=
  announcements.getLast?.bind Announcement.newOwner

/-- NetworkManager's owner when the message at `position` was received. -/
def ownerAt (app : App) (c position : Nat) : Option String :=
  ownerOf ((told app c).filter (·.position < position))

/-- Whether a source is a report of the client's watch on NetworkManager. -/
def Idle.tells (c : Nat) : Idle → Bool
  | .finished _ _ _ => false
  | .nameOwner d service _ _ => d == c && service == .networkManager
  | .nameOwnerChanged d service _ _ _ => d == c && service == .networkManager

def reports (app : App) (c : Nat) : List Idle := app.idle.filter (Idle.tells c)

def Announcement.report (a : Announcement) : Idle :=
  .nameOwnerChanged a.client a.service a.oldOwner a.newOwner a.position

/-- Every announcement starts from the owner that the one before it named. -/
def Chained : Option String → List Announcement → Option String → Prop
  | owner, [], last => owner = last
  | owner, a :: rest, last => a.oldOwner = owner ∧ Chained a.newOwner rest last

/-- How far the watch on NetworkManager is, and what the program takes for the
owner, unless the client is closed. -/
inductive Phase (app : App) (c : Nat) : Prop
  | unwatched : (app.connection c).watching .networkManager = false →
      reports app c = [] →
      ((app.client c).closed = false → (app.client c).owners .networkManager = none) →
      Phase app c
  | starting (before : List Announcement) (first : Announcement)
      (later : List Announcement) :
      (app.connection c).watching .networkManager = true → first.oldOwner = none →
      told app c = before ++ first :: later →
      reports app c = .nameOwner c .networkManager first.newOwner first.position ::
        later.map Announcement.report →
      ((app.client c).closed = false → (app.client c).owners .networkManager = none) →
      Chained first.newOwner later ((app.connection c).announced .networkManager) →
      Phase app c
  | running (done later : List Announcement) :
      (app.connection c).watching .networkManager = true →
      told app c = done ++ later → reports app c = later.map Announcement.report →
      ((app.client c).closed = false →
        (app.client c).owners .networkManager = ownerOf done) →
      Chained (ownerOf done) later ((app.connection c).announced .networkManager) →
      Phase app c

/-- The watch follows the changes, and all it has still to report came after the
announcement. -/
def Handled (app : App) (c : Nat) (a : Announcement) : Prop :=
  a ∈ told app c ∧ (app.connection c).watching .networkManager = true ∧
    ∀ source ∈ reports app c, ∃ later : Announcement,
      source = later.report ∧ a.position < later.position

/-- The order in which the host's bus is heard. -/
structure Order (app : App) : Prop where
  history : (app.history.map Announcement.position).Pairwise (· < ·)
  received : ∀ a ∈ app.history, a.position < app.received
  idle : (app.idle.filterMap Idle.position).Pairwise (· < ·)
  inHand : ∀ e, app.inHand = some e → (∀ a ∈ app.history, a.position < e.position) ∧
    ∀ p ∈ app.idle.filterMap Idle.position, p < e.position
  phase : ∀ c, Phase app c
  handled : ∀ c a, Handled app c a → (∀ e ∈ app.queue, a.position < e.position) ∧
    ∀ p ∈ app.idle.filterMap Idle.position, a.position < p
  /-- Nobody watches for a client that there is not. -/
  fresh : ∀ c, app.nextClient ≤ c →
    (app.connection c).watching .networkManager = false ∧ reports app c = []

theorem Chained.snoc {a : Announcement} {last : Option String} {owner : Option String}
    {changes : List Announcement} (h : Chained owner changes last)
    (ha : a.oldOwner = last) : Chained owner (changes ++ [a]) a.newOwner := by
  induction changes generalizing owner with
  | nil =>
      have h : owner = last := h
      exact ⟨ha.trans h.symm, rfl⟩
  | cons b rest ih => exact ⟨h.1, ih h.2⟩

theorem mem_told {app : App} {c : Nat} {a : Announcement} :
    a ∈ told app c ↔ a ∈ app.history ∧ a.client = c ∧ a.service = .networkManager := by
  unfold told
  rw [List.mem_filter, Bool.and_eq_true, beq_iff_eq, beq_iff_eq]

theorem Order.sorted {app : App} (h : Order app) (c : Nat) :
    ((told app c).map Announcement.position).Pairwise (· < ·) :=
  h.history.sublist ((List.filter_sublist ..).map _)

/-! ## Steps that announce and report nothing -/

/-- A client that is not closed was not closed before, and its watch has reported
nothing, or it is new. -/
def SameOwners (app app' : App) : Prop :=
  ∀ c, (app'.client c).closed = false →
    ((app.client c).closed = false ∧
      (app'.client c).owners .networkManager = (app.client c).owners .networkManager) ∨
    (app.nextClient ≤ c ∧ (app'.client c).owners .networkManager = none)

theorem SameOwners.of_client {app app' : App} (h : app'.client = app.client) :
    SameOwners app app' := by
  intro c hc
  rw [h] at hc ⊢
  exact .inl ⟨hc, rfl⟩

section Congruence

variable {app app' : App} {c : Nat}

theorem Phase.congr (h : Phase app c)
    (hwatching : (app'.connection c).watching .networkManager =
      (app.connection c).watching .networkManager)
    (hannounced : (app'.connection c).announced .networkManager =
      (app.connection c).announced .networkManager)
    (htold : told app' c = told app c) (hreports : reports app' c = reports app c)
    (howner : (app'.client c).closed = false → (app.client c).closed = false ∧
      (app'.client c).owners .networkManager = (app.client c).owners .networkManager) :
    Phase app' c := by
  have hkept : ∀ owner, ((app.client c).closed = false →
      (app.client c).owners .networkManager = owner) → (app'.client c).closed = false →
      (app'.client c).owners .networkManager = owner := by
    intro owner hbefore hc
    obtain ⟨hopen, hsame⟩ := howner hc
    exact hsame.trans (hbefore hopen)
  cases h with
  | unwatched hstate hnone hbefore =>
      exact .unwatched (hwatching.trans hstate) (hreports.trans hnone) (hkept _ hbefore)
  | starting before first later hstate hfirst hlist hpending hbefore hchain =>
      exact .starting before first later (hwatching.trans hstate) hfirst (htold.trans hlist)
        (hreports.trans hpending) (hkept _ hbefore) (hannounced.symm ▸ hchain)
  | running done later hstate hlist hpending hbefore hchain =>
      exact .running done later (hwatching.trans hstate) (htold.trans hlist)
        (hreports.trans hpending) (hkept _ hbefore) (hannounced.symm ▸ hchain)

theorem Handled.congr {a : Announcement} (h : Handled app' c a)
    (hwatching : (app'.connection c).watching .networkManager =
      (app.connection c).watching .networkManager)
    (htold : told app' c = told app c) (hreports : reports app' c = reports app c) :
    Handled app c a := by
  obtain ⟨hmem, hstate, hall⟩ := h
  exact ⟨htold ▸ hmem, hwatching ▸ hstate, hreports ▸ hall⟩

end Congruence

/-- A step that keeps the order and reports nothing. -/
structure Heard (app app' : App) : Prop where
  order : Order app'
  handled : ∀ c a, Handled app' c a → Handled app c a

theorem Order.heard {app : App} (h : Order app) : Heard app app := ⟨h, fun _ _ => id⟩

theorem Heard.trans {a b c : App} (h₁ : Heard a b) (h₂ : Heard b c) : Heard a c :=
  ⟨h₂.order, fun d x hx => h₁.handled d x (h₂.handled d x hx)⟩

theorem Order.keep {app app' : App} (h : Order app)
    (hhistory : app'.history = app.history) (hconnection : app'.connection = app.connection)
    (hreceived : app.received ≤ app'.received) (hclients : app.nextClient ≤ app'.nextClient)
    (hreports : ∀ c, reports app' c = reports app c)
    (hidle : (app'.idle.filterMap Idle.position).Pairwise (· < ·))
    (hpositions : ∀ p ∈ app'.idle.filterMap Idle.position,
      p ∈ app.idle.filterMap Idle.position ∨ ∀ a ∈ app.history, a.position < p)
    (hinHand : ∀ e, app'.inHand = some e → (∀ a ∈ app.history, a.position < e.position) ∧
      ∀ p ∈ app'.idle.filterMap Idle.position, p < e.position)
    (hqueue : ∀ e ∈ app'.queue, e ∈ app.queue ∨ ∀ a ∈ app.history, a.position < e.position)
    (howners : SameOwners app app') : Heard app app' := by
  have htold : ∀ c, told app' c = told app c := by
    intro c
    unfold told
    rw [hhistory]
  have hhandled : ∀ c a, Handled app' c a → Handled app c a := fun c a ha =>
    ha.congr (by rw [hconnection]) (htold c) (hreports c)
  refine ⟨{
    history := by rw [hhistory]; exact h.history
    received := fun a ha => ?_
    idle := hidle
    inHand := by rw [hhistory]; exact hinHand
    phase := fun c => ?_
    handled := fun c a ha => ?_
    fresh := fun c hc => ?_ }, hhandled⟩
  · rw [hhistory] at ha
    exact Nat.lt_of_lt_of_le (h.received a ha) hreceived
  · have hsame := fun hkept => (h.phase c).congr (by rw [hconnection]) (by rw [hconnection])
      (htold c) (hreports c) hkept
    by_cases hnew : app.nextClient ≤ c
    · obtain ⟨hwatching, hnone⟩ := h.fresh c hnew
      refine .unwatched (hconnection ▸ hwatching) ((hreports c).trans hnone) fun hc => ?_
      rcases howners c hc with ⟨hopen, howner⟩ | ⟨-, howner⟩
      · cases h.phase c with
        | unwatched _ _ hbefore => exact howner.trans (hbefore hopen)
        | starting _ _ _ hstate => exact absurd (hwatching.symm.trans hstate) nofun
        | running _ _ hstate => exact absurd (hwatching.symm.trans hstate) nofun
      · exact howner
    · refine hsame fun hc => ?_
      rcases howners c hc with hkept | ⟨hfresh, -⟩
      · exact hkept
      · exact absurd hfresh hnew
  · have ha := hhandled c a ha
    have hmem := (mem_told.mp ha.1).1
    obtain ⟨hbefore, hbeforeIdle⟩ := h.handled c a ha
    exact ⟨fun e he => (hqueue e he).elim (hbefore e) fun hall => hall a hmem,
      fun p hp => (hpositions p hp).elim (hbeforeIdle p) fun hall => hall a hmem⟩
  · rw [hconnection, hreports]
    exact h.fresh c (Nat.le_trans hclients hc)

/-- The handlers that move nothing in the queue and the main loop. -/
theorem Order.same {app app' : App} (h : Order app) (hs : SameQueue app app')
    (howners : SameOwners app app') : Heard app app' := by
  refine h.keep hs.history hs.connection (Nat.le_of_eq hs.received.symm) hs.clients
    (fun c => ?_) ?_ (fun p hp => ?_) ?_ (fun e he => ?_) howners
  · unfold reports
    rw [hs.idle]
  · rw [hs.idle]
    exact h.idle
  · rw [hs.idle] at hp
    exact .inl hp
  · rw [hs.inHand, hs.idle]
    exact h.inHand
  · rw [hs.queue] at he
    exact .inl he

theorem queueMessage_rest (app : App) (e : Event) :
    (queueMessage app e).1 = { app with
      queue := (queueMessage app e).1.queue, queued := (queueMessage app e).1.queued } ∧
      ∀ other ∈ (queueMessage app e).1.queue, other ∈ app.queue ∨ other = e := by
  unfold queueMessage
  split
  · exact ⟨rfl, fun _ h => .inl h⟩
  · refine ⟨rfl, fun other h => ?_⟩
    rcases List.mem_append.mp h with h | h
    · exact .inl h
    · exact .inr (List.mem_singleton.mp h)

theorem QueueInv.idle_received {app : App} (hq : QueueInv app) :
    ∀ p ∈ app.idle.filterMap Idle.position, p < app.received := by
  intro p hp
  obtain ⟨source, hsource, hposition⟩ := List.mem_filterMap.mp hp
  exact hq.idle source hsource p hposition

/-- A message takes a position of its own; it may be queued and be in the hand. -/
theorem Order.tick {app : App} (h : Order app) (hq : QueueInv app) {e : Event}
    {queue : List Event} {queued : Nat} {inHand : Option Event}
    (hposition : e.position = app.received)
    (hqueue : ∀ other ∈ queue, other ∈ app.queue ∨ other = e)
    (hinHand : inHand = none ∨ inHand = some e) :
    Heard app { app with
      received := app.received + 1, queue := queue, queued := queued, inHand := inHand } := by
  refine h.keep rfl rfl (Nat.le_succ _) (Nat.le_refl _) (fun _ => rfl) h.idle
    (fun _ hp => .inl hp) (fun other hother => ?_) (fun other hother => ?_)
    (.of_client rfl)
  · have hother : inHand = some other := hother
    rcases hinHand with hnone | hsome
    · rw [hnone] at hother
      cases hother
    · rw [hsome] at hother
      injection hother with hother
      subst hother
      rw [hposition]
      exact ⟨h.received, hq.idle_received⟩
  · rcases hqueue other hother with hold | rfl
    · exact .inl hold
    · rw [hposition]
      exact .inr h.received

theorem Order.receive {app : App} (h : Order app) (hq : QueueInv app) (bus : Bus)
    (message : Message) : Heard app (receive app bus message).1 := by
  unfold SystemBus.receive
  split
  · next client hnone _ =>
      obtain ⟨hrest, hqueue⟩ := queueMessage_rest { app with received := app.received + 1 }
        ⟨client, bus, message, app.received⟩
      dsimp only
      split
      · rw [hrest]
        exact h.tick hq rfl hqueue (.inl hnone)
      · split
        · rw [hrest]
          exact h.tick hq rfl hqueue (.inr rfl)
        · exact h.tick hq (e := ⟨client, bus, message, app.received⟩) rfl
            (fun _ hother => .inl hother) (.inr rfl)
  · exact h.heard

theorem Order.matchReply {app : App} (h : Order app) : Heard app (matchReply app) := by
  unfold SystemBus.matchReply
  split
  · exact h.heard
  · next e hhand =>
      dsimp only
      obtain ⟨hhistory, hidle⟩ := h.inHand e hhand
      split
      · next waiting _ =>
          have hpositions : (app.idle ++ [Idle.finished waiting.client waiting.call
              (some (e.message, e.position))]).filterMap Idle.position =
              app.idle.filterMap Idle.position ++ [e.position] := by
            rw [List.filterMap_append]
            rfl
          refine h.keep rfl rfl (Nat.le_refl _) (Nat.le_refl _) (fun c => ?_) ?_
            (fun p hp => ?_) (fun _ hother => absurd hother.symm (Option.some_ne_none _))
            (fun _ hother => .inl hother) (.of_client rfl)
          · unfold reports
            rw [List.filter_append]
            exact List.append_nil _
          · show List.Pairwise _ (List.filterMap _ (app.idle ++ _))
            rw [hpositions, List.pairwise_append]
            refine ⟨h.idle, List.pairwise_singleton _ _, fun p hp q hlast => ?_⟩
            rw [List.mem_singleton.mp hlast]
            exact hidle p hp
          · have hp : p ∈ (app.idle ++ [Idle.finished waiting.client waiting.call
              (some (e.message, e.position))]).filterMap Idle.position := hp
            rw [hpositions] at hp
            rcases List.mem_append.mp hp with hp | hp
            · exact .inl hp
            · rw [List.mem_singleton.mp hp]
              exact .inr hhistory
      · exact h.keep rfl rfl (Nat.le_refl _) (Nat.le_refl _) (fun _ => rfl) h.idle
          (fun _ hp => .inl hp) (fun _ hother => absurd hother.symm (Option.some_ne_none _))
          (fun _ hother => .inl hother) (.of_client rfl)

theorem Order.fail {app : App} (h : Order app) (c id : Nat) :
    Heard app (fail app c id) := by
  unfold SystemBus.fail
  split
  · have hpositions : (app.idle ++ [Idle.finished c id none]).filterMap Idle.position =
        app.idle.filterMap Idle.position := by
      rw [List.filterMap_append]
      exact List.append_nil _
    refine h.keep rfl rfl (Nat.le_refl _) (Nat.le_refl _) (fun d => ?_) ?_
      (fun p hp => .inl ?_) (fun e he => ⟨(h.inHand e he).1, fun p hp => ?_⟩)
      (fun _ hother => .inl hother) (.of_client rfl)
    · unfold reports
      rw [List.filter_append]
      exact List.append_nil _
    · rw [hpositions]
      exact h.idle
    · rw [← hpositions]
      exact hp
    · rw [hpositions] at hp
      exact (h.inHand e he).2 p hp
  · exact h.heard

/-! ## Announcements -/

/-- An announcement takes the next position, and with it the source that reports it,
if there is one. -/
theorem Order.announce {app app' : App} (h : Order app) (hq : QueueInv app)
    {a : Announcement} {sources : List Idle} (hhistory : app'.history = app.history ++ [a])
    (hidle : app'.idle = app.idle ++ sources) (hreceived : app'.received = app.received + 1)
    (hclients : app'.nextClient = app.nextClient) (hclient : app'.client = app.client)
    (hinHand : app'.inHand = none) (hposition : a.position = app.received)
    (hsources : ∀ source ∈ sources, source.position = some app.received)
    (hone : (sources.filterMap Idle.position).Pairwise (· < ·))
    (hqueue : ∀ e ∈ app'.queue, e ∈ app.queue ∨ e.position = app.received)
    (hlive : a.client < app.nextClient)
    (hother : ∀ c, c ≠ a.client ∨ a.service ≠ .networkManager →
      (app'.connection c).watching .networkManager =
        (app.connection c).watching .networkManager ∧
      (app'.connection c).announced .networkManager =
        (app.connection c).announced .networkManager ∧
      ∀ source ∈ sources, source.tells c = false)
    (hphase : a.service = .networkManager → Phase app' a.client)
    (hhandled : a.service = .networkManager → ∀ b, Handled app' a.client b →
      Handled app a.client b) : Heard app app' := by
  have hidlePositions : ∀ p ∈ app'.idle.filterMap Idle.position,
      p ∈ app.idle.filterMap Idle.position ∨ p = app.received := by
    intro p hp
    rw [hidle, List.filterMap_append, List.mem_append] at hp
    refine hp.imp_right fun hp => ?_
    obtain ⟨source, hsource, hsome⟩ := List.mem_filterMap.mp hp
    exact Option.some.inj (hsome.symm.trans (hsources source hsource))
  have hsame : ∀ c, c ≠ a.client ∨ a.service ≠ .networkManager →
      told app' c = told app c ∧ reports app' c = reports app c := by
    intro c hc
    constructor
    · unfold told
      rw [hhistory, List.filter_append, List.filter_cons_of_neg, List.filter_nil,
        List.append_nil]
      rw [Bool.and_eq_true, beq_iff_eq, beq_iff_eq]
      exact fun hboth => hc.elim (fun hne => hne hboth.1.symm) fun hne => hne hboth.2
    · have hnone : sources.filter (Idle.tells c) = [] := by
        refine List.filter_eq_nil_iff.mpr fun source hsource => ?_
        rw [(hother c hc).2.2 source hsource]
        exact Bool.false_ne_true
      unfold reports
      rw [hidle, List.filter_append, hnone, List.append_nil]
  have hcases : ∀ c, (c = a.client ∧ a.service = .networkManager) ∨
      (c ≠ a.client ∨ a.service ≠ .networkManager) := by
    intro c
    by_cases hc : c = a.client
    · by_cases hservice : a.service = .networkManager
      · exact .inl ⟨hc, hservice⟩
      · exact .inr (.inr hservice)
    · exact .inr (.inl hc)
  have hbefore : ∀ c b, Handled app' c b → Handled app c b := by
    intro c b hb
    rcases hcases c with ⟨rfl, hservice⟩ | hc
    · exact hhandled hservice b hb
    · exact hb.congr (hother c hc).1 (hsame c hc).1 (hsame c hc).2
  refine ⟨{
    history := ?_
    received := fun b hb => ?_
    idle := ?_
    inHand := by rw [hinHand]; exact fun _ hother => by cases hother
    phase := fun c => ?_
    handled := fun c b hb => ?_
    fresh := fun c hc => ?_ }, hbefore⟩
  · rw [hhistory, List.map_append, List.pairwise_append]
    refine ⟨h.history, List.pairwise_singleton _ _, fun p hp q hlast => ?_⟩
    obtain ⟨b, hb, rfl⟩ := List.mem_map.mp hp
    rw [List.mem_singleton.mp hlast, hposition]
    exact h.received b hb
  · rw [hhistory] at hb
    rw [hreceived]
    rcases List.mem_append.mp hb with hb | hb
    · exact Nat.lt_succ_of_lt (h.received b hb)
    · rw [List.mem_singleton.mp hb, hposition]
      exact Nat.lt_succ_self _
  · rw [hidle, List.filterMap_append, List.pairwise_append]
    refine ⟨h.idle, hone, fun p hp q hlast => ?_⟩
    obtain ⟨source, hsource, hsome⟩ := List.mem_filterMap.mp hlast
    rw [Option.some.inj (hsome.symm.trans (hsources source hsource))]
    exact hq.idle_received p hp
  · rcases hcases c with ⟨rfl, hservice⟩ | hc
    · exact hphase hservice
    · obtain ⟨hwatching, hannounced, -⟩ := hother c hc
      refine (h.phase c).congr hwatching hannounced (hsame c hc).1 (hsame c hc).2 ?_
      rw [hclient]
      exact fun hopen => ⟨hopen, rfl⟩
  · have hb := hbefore c b hb
    have hold := h.received b (mem_told.mp hb.1).1
    obtain ⟨hbefore, hbeforeIdle⟩ := h.handled c b hb
    refine ⟨fun e he => ?_, fun p hp => ?_⟩
    · rcases hqueue e he with he | he
      · exact hbefore e he
      · omega
    · rcases hidlePositions p hp with hp | hp
      · exact hbeforeIdle p hp
      · omega
  · rw [hclients] at hc
    have hne : c ≠ a.client := by omega
    rw [(hother c (.inl hne)).1, (hsame c (.inl hne)).2]
    exact h.fresh c hc

/-- What an update of a connection leaves of the watch on NetworkManager. -/
theorem updateConnection_other (app : App) {c d : Nat} {service : Service}
    {f : Connection → Connection} (hd : d ≠ c ∨ service ≠ .networkManager)
    (hf : service ≠ .networkManager →
      (f (app.connection c)).watching .networkManager =
        (app.connection c).watching .networkManager ∧
      (f (app.connection c)).announced .networkManager =
        (app.connection c).announced .networkManager) :
    ((app.updateConnection c f).connection d).watching .networkManager =
        (app.connection d).watching .networkManager ∧
      ((app.updateConnection c f).connection d).announced .networkManager =
        (app.connection d).announced .networkManager := by
  unfold App.updateConnection
  dsimp only
  by_cases hdc : d = c
  · subst hdc
    rw [Function.update_self]
    exact hf (hd.elim (fun hne => absurd rfl hne) id)
  · rw [Function.update_of_ne hdc]
    exact ⟨rfl, rfl⟩

theorem tells_other {c d : Nat} {service : Service}
    (hd : d ≠ c ∨ service ≠ .networkManager) :
    (c == d && service == .networkManager) = false := by
  rw [Bool.and_eq_false_iff, beq_eq_false_iff_ne, beq_eq_false_iff_ne]
  exact hd.imp_left Ne.symm

theorem Order.watchStarted {app : App} (h : Order app) (hq : QueueInv app) (c : Nat)
    (service : Service) (owner : Option String) :
    Heard app (watchStarted app c service owner) := by
  unfold SystemBus.watchStarted
  split
  · exact h.heard
  · next hready =>
      rw [Bool.or_eq_true, Bool.or_eq_true, not_or, not_or] at hready
      obtain ⟨⟨hidle, hhand⟩, hhost⟩ := hready
      have hhand : app.inHand = none := by simpa using hhand
      have hlive : c < app.nextClient := host_known (Bool.eq_false_iff.mpr hhost)
      have hwatching : (app.connection c).watching service = false :=
        Bool.eq_false_iff.mpr hidle
      have hsources : ∀ source ∈ [Idle.nameOwner c service owner app.received],
          source.position = some app.received := by
        intro source hsource
        rw [List.mem_singleton.mp hsource]
        rfl
      refine h.announce hq (a := ⟨c, service, none, owner, app.received⟩) rfl rfl rfl rfl
        rfl hhand rfl hsources (List.pairwise_singleton _ _) (fun _ he => .inl he) hlive
        (fun d hd => ?_) (fun hservice => ?_) fun hservice b hb => ?_
      · have hsame := updateConnection_other app (f := fun connection =>
          { announced := Function.update connection.announced service owner
            watching := Function.update connection.watching service true }) hd
          fun hservice => ⟨Function.update_of_ne (Ne.symm hservice) ..,
            Function.update_of_ne (Ne.symm hservice) ..⟩
        refine ⟨hsame.1, hsame.2, fun source hsource => ?_⟩
        rw [List.mem_singleton.mp hsource]
        exact tells_other hd
      · have hservice : service = .networkManager := hservice
        subst hservice
        have hnow : Function.update app.connection c
            { announced := Function.update (app.connection c).announced .networkManager owner
              watching := Function.update (app.connection c).watching .networkManager true }
            c = _ := Function.update_self ..
        cases h.phase c with
        | unwatched _ hnone hbefore =>
            refine .starting (told app c) ⟨c, .networkManager, none, owner, app.received⟩ []
              ?_ rfl ?_ ?_ hbefore ?_
            · refine (congrArg (Connection.watching · .networkManager) hnow).trans ?_
              show Function.update (app.connection c).watching .networkManager true
                .networkManager = true
              rw [Function.update_self]
            · unfold told
              dsimp only
              rw [List.filter_append, List.filter_cons_of_pos]
              · rfl
              · simp
            · unfold reports at hnone ⊢
              dsimp only
              rw [List.filter_append, hnone, List.filter_cons_of_pos]
              · rfl
              · simp [Idle.tells]
            · refine ((congrArg (Connection.announced · .networkManager) hnow).trans ?_).symm
              show Function.update (app.connection c).announced .networkManager owner
                .networkManager = owner
              rw [Function.update_self]
        | starting _ _ _ hstate => exact absurd (hwatching.symm.trans hstate) nofun
        | running _ _ hstate => exact absurd (hwatching.symm.trans hstate) nofun
      · have hservice : service = .networkManager := hservice
        subst hservice
        have hfirst : Idle.nameOwner c .networkManager owner app.received ∈
            reports { app with idle := app.idle ++
              [.nameOwner c .networkManager owner app.received] } c := by
          unfold reports
          rw [List.mem_filter]
          exact ⟨List.mem_append_right _ (.head _), by simp [Idle.tells]⟩
        obtain ⟨later, hlater, -⟩ := hb.2.2 _ hfirst
        cases hlater

theorem Phase.change {app app' : App} {c : Nat} {owner : Option String} (h : Phase app c)
    {a : Announcement} (hold : (app.connection c).watching .networkManager = true →
      a.oldOwner = (app.connection c).announced .networkManager)
    (hnew : a.newOwner = owner)
    (hwatching : (app'.connection c).watching .networkManager =
      (app.connection c).watching .networkManager)
    (hannounced : (app'.connection c).announced .networkManager = owner)
    (htold : told app' c = told app c ++ [a])
    (hreports : reports app' c = if (app.connection c).watching .networkManager then
      reports app c ++ [a.report] else reports app c)
    (hclient : app'.client = app.client) : Phase app' c := by
  subst hnew
  cases h with
  | unwatched hstate hnone hbefore =>
      rw [hstate] at hwatching hreports
      exact .unwatched hwatching (hreports.trans hnone) (hclient ▸ hbefore)
  | starting before first later hstate hfirst hlist hpending hbefore hchain =>
      rw [hstate] at hwatching hreports
      refine .starting before first (later ++ [a]) hwatching hfirst ?_ ?_
        (hclient ▸ hbefore) ?_
      · rw [htold, hlist, List.append_assoc]
        rfl
      · rw [hreports, hpending, if_pos rfl, List.map_append]
        rfl
      · rw [hannounced]
        exact hchain.snoc (hold hstate)
  | running done later hstate hlist hpending hbefore hchain =>
      rw [hstate] at hwatching hreports
      refine .running done (later ++ [a]) hwatching ?_ ?_ (hclient ▸ hbefore) ?_
      · rw [htold, hlist, List.append_assoc]
      · rw [hreports, hpending, if_pos rfl, List.map_append]
        rfl
      · rw [hannounced]
        exact hchain.snoc (hold hstate)

theorem Handled.before {app app' : App} {c : Nat} {a b : Announcement}
    (hb : Handled app' c b)
    (hwatching : (app'.connection c).watching .networkManager =
      (app.connection c).watching .networkManager)
    (htold : told app' c = told app c ++ [a])
    (hreports : reports app' c = if (app.connection c).watching .networkManager then
      reports app c ++ [a.report] else reports app c) : Handled app c b := by
  obtain ⟨hmem, hstate, hall⟩ := hb
  rw [hwatching] at hstate
  rw [hstate, if_pos rfl] at hreports
  rw [htold] at hmem
  rw [hreports] at hall
  have hbefore : b.position < a.position := by
    obtain ⟨later, hlater, hlt⟩ := hall a.report (List.mem_append_right _ (.head _))
    injection hlater with _ _ _ _ hposition
    exact hposition ▸ hlt
  refine ⟨?_, hstate, fun source hsource => hall source (List.mem_append_left _ hsource)⟩
  rcases List.mem_append.mp hmem with hmem | hmem
  · exact hmem
  · rw [List.mem_singleton.mp hmem] at hbefore
    omega

/-- An announcement that the owner has changed. -/
theorem Order.change {app app' : App} (h : Order app) (hq : QueueInv app)
    {a : Announcement} (hold : (app.connection a.client).watching a.service = true →
      a.oldOwner = (app.connection a.client).announced a.service)
    (hposition : a.position = app.received) (hhistory : app'.history = app.history ++ [a])
    (hidle : app'.idle = app.idle ++
      if (app.connection a.client).watching a.service then [a.report] else [])
    (hconnection : app'.connection = (app.updateConnection a.client fun connection =>
      { connection with
        announced := Function.update connection.announced a.service a.newOwner }).connection)
    (hreceived : app'.received = app.received + 1) (hclients : app'.nextClient = app.nextClient)
    (hclient : app'.client = app.client) (hinHand : app'.inHand = none)
    (hqueue : ∀ e ∈ app'.queue, e ∈ app.queue ∨ e.position = app.received)
    (hlive : a.client < app.nextClient) : Heard app app' := by
  have hsources : ∀ source ∈ (if (app.connection a.client).watching a.service then
      [a.report] else []), source = a.report := by
    intro source hsource
    split at hsource
    · exact List.mem_singleton.mp hsource
    · exact absurd hsource List.not_mem_nil
  have hnow : app'.connection a.client = { app.connection a.client with
      announced := Function.update (app.connection a.client).announced a.service
        a.newOwner } := by
    rw [hconnection]
    exact Function.update_self ..
  have hwatching : (app'.connection a.client).watching .networkManager =
      (app.connection a.client).watching .networkManager := by rw [hnow]
  have htold : a.service = .networkManager →
      told app' a.client = told app a.client ++ [a] := by
    intro hservice
    unfold told
    rw [hhistory, List.filter_append, List.filter_cons_of_pos]
    · rfl
    · simp [hservice]
  have hreports : a.service = .networkManager → reports app' a.client =
      if (app.connection a.client).watching .networkManager then
        reports app a.client ++ [a.report] else reports app a.client := by
    intro hservice
    unfold reports
    rw [hidle, hservice]
    split
    · rw [List.filter_append, List.filter_cons_of_pos]
      · rfl
      · simp [hservice, Announcement.report, Idle.tells]
    · rw [List.append_nil]
  refine h.announce hq hhistory hidle hreceived hclients hclient hinHand hposition
    (fun source hsource => ?_) ?_ hqueue hlive (fun d hd => ?_) (fun hservice => ?_)
    fun hservice b hb => hb.before hwatching (htold hservice) (hreports hservice)
  · rw [hsources source hsource]
    exact congrArg some hposition
  · split
    · exact List.pairwise_singleton _ _
    · exact .nil
  · have hsame := updateConnection_other app (f := fun connection =>
      { connection with
        announced := Function.update connection.announced a.service a.newOwner }) hd
      fun hservice => ⟨rfl, Function.update_of_ne (Ne.symm hservice) ..⟩
    rw [← hconnection] at hsame
    refine ⟨hsame.1, hsame.2, fun source hsource => ?_⟩
    rw [hsources source hsource]
    exact tells_other hd
  · refine (h.phase a.client).change (hservice ▸ hold) rfl hwatching ?_ (htold hservice)
      (hreports hservice) hclient
    rw [hnow, hservice]
    dsimp only
    rw [Function.update_self]

theorem Order.nameOwnerChanged {app : App} (h : Order app) (hq : QueueInv app) (c : Nat)
    (service : Service) (oldOwner newOwner : Option String) :
    Heard app (nameOwnerChanged app c service oldOwner newOwner).1 := by
  unfold SystemBus.nameOwnerChanged
  split
  · exact h.heard
  split
  · exact h.heard
  · next hready hchained =>
      rw [Bool.or_eq_true, not_or] at hready
      have hold : (app.connection c).watching service = true →
          oldOwner = (app.connection c).announced service := by
        intro hwatching
        rw [hwatching, Bool.true_and, bne_iff_ne, not_not] at hchained
        exact hchained
      have hhand : app.inHand = none := by simpa using hready.1
      have hlive : c < app.nextClient := host_known (Bool.eq_false_iff.mpr hready.2)
      dsimp only
      generalize hevent : Event.mk (some c) (.host c) _ app.received = event
      obtain ⟨hrest, hqueue⟩ :=
        queueMessage_rest { app with received := app.received + 1 } event
      generalize (queueMessage { app with received := app.received + 1 } event).1 = app₁
        at hrest hqueue ⊢
      have hposition : event.position = app.received := by rw [← hevent]
      refine h.change hq (a := ⟨c, service, oldOwner, newOwner, app.received⟩) hold rfl
        ?_ ?_ ?_ ?_ ?_ ?_ ?_ (fun e he => ?_) hlive
      · rw [hrest]
      · rw [hrest]
        dsimp only
        split
        · rfl
        · rw [List.append_nil]
      · rw [hrest]
        rfl
      · rw [hrest]
        rfl
      · rw [hrest]
        rfl
      · rw [hrest]
        rfl
      · rw [hrest]
        exact hhand
      · rcases hqueue e he with he | he
        · exact .inl he
        · exact .inr (by rw [he, hposition])

/-! ## Reports -/

theorem Frame.sameOwners {app app' : App} (h : Frame app app') : SameOwners app app' := by
  intro c hc
  rcases h.client c with hsame | ⟨hnew, -, hempty⟩
  · refine .inl ⟨?_, by rw [hsame.owners]⟩
    rw [← Bool.not_eq_true]
    exact fun hclosed => absurd (hc.symm.trans (hsame.closed hclosed)) nofun
  · exact .inr ⟨hnew, by rw [hempty.owners]⟩

/-- A change of clients that concerns neither the watch nor the connection. -/
theorem SameOwners.of_same {app app' : App}
    (h : ∀ c, (app'.client c).closed = (app.client c).closed ∧
      (app'.client c).owners = (app.client c).owners) : SameOwners app app' := by
  intro c hc
  obtain ⟨hclosed, howners⟩ := h c
  exact .inl ⟨hclosed.symm.trans hc, by rw [howners]⟩

theorem updateClient_same (app : App) {c : Nat} {f : Client → Client}
    (hclosed : (f (app.client c)).closed = (app.client c).closed)
    (howners : (f (app.client c)).owners = (app.client c).owners) (d : Nat) :
    ((app.updateClient c f).client d).closed = (app.client d).closed ∧
      ((app.updateClient c f).client d).owners = (app.client d).owners :=
  app.updateClient_rel
    (r := fun before after => after.closed = before.closed ∧ after.owners = before.owners)
    (fun _ => ⟨rfl, rfl⟩) ⟨hclosed, howners⟩ d

theorem forward_same (app : App) (c : Nat) (origin target : Bus) (request : Message)
    (destination : Option String) (serial d : Nat) :
    ((forward app c origin target request destination serial).1.client d).closed =
        (app.client d).closed ∧
      ((forward app c origin target request destination serial).1.client d).owners =
        (app.client d).owners := by
  unfold forward
  split
  · exact ⟨rfl, rfl⟩
  · dsimp only
    refine updateClient_same app ?_ ?_ d
    · rfl
    · rfl

theorem Delivers.same {app : App} {c : Nat} {call : Call} {reply : Option (Message × Nat)}
    {r : App × List Output} (hd : Delivers app c call reply r) (d : Nat) :
    (r.1.client d).closed = (app.client d).closed ∧
      (r.1.client d).owners = (app.client d).owners := by
  by_cases hdc : d = c
  · subst hdc
    rw [hd.client]
    exact ⟨rfl, rfl⟩
  · rw [hd.other d hdc]
    exact ⟨rfl, rfl⟩

theorem forwardFinished_same (app : App) (c id : Nat) (reply : Option (Message × Nat))
    (d : Nat) : ((forwardFinished app c id reply).1.client d).closed =
        (app.client d).closed ∧
      ((forwardFinished app c id reply).1.client d).owners = (app.client d).owners := by
  unfold forwardFinished
  split
  · exact ⟨rfl, rfl⟩
  · next call _ =>
      dsimp only
      split
      · refine updateClient_same app ?_ ?_ d
        · rfl
        · rfl
      · have hdelivers := (deliverReply_delivers app c call reply).same d
        have hupdate := updateClient_same (deliverReply app c call reply).1 (c := c)
          (f := fun client => { client with
            pendingCalls := client.pendingCalls.filter (·.id ≠ id)
            outstanding := client.outstanding - 1 }) rfl rfl d
        exact ⟨hupdate.1.trans hdelivers.1, hupdate.2.trans hdelivers.2⟩

theorem Acts.sameOwners {app : App} {event : Option Event} {r : App × List Output}
    (h : Acts app event r) : SameOwners app r.1 := by
  cases h with
  | plain hframe _ => exact hframe.sameOwners
  | forwards hframe _ _ _ =>
      intro d hd
      obtain ⟨hclosed, howners⟩ := forward_same _ _ _ _ _ _ _ d
      rw [hclosed] at hd
      rw [howners]
      exact hframe.sameOwners d hd
  | delivers _ _ _ => exact .of_same (deliverReply_delivers _ _ _ _).same

/-- What a report does to the clients. -/
structure Reported (app : App) (c : Nat) (service : Service) (lost : Bool)
    (owner : Option String) (app' : App) : Prop where
  same : ∀ d, (app'.client d).closed = (app.client d).closed ∧
    (app'.client d).role = (app.client d).role ∧
    (app'.client d).pendingCalls = (app.client d).pendingCalls
  other : ∀ d, d ≠ c ∨ service ≠ .networkManager →
    (app'.client d).owners .networkManager = (app.client d).owners .networkManager ∧
    (app'.client d).agent = (app.client d).agent
  owner : service = .networkManager → (app.client c).closed = false →
    (app'.client c).owners .networkManager =
      owner.or (if lost then none else (app.client c).owners .networkManager)
  agent : service = .networkManager → (app.client c).closed = false →
    (app'.client c).agent = ((app.client c).agent && !lost)
  silent : (app.client c).closed = true → app' = app

theorem Reported.update {app : App} {c : Nat} {service : Service} {lost : Bool}
    {owner : Option String} {f : Client → Client} (hopen : (app.client c).closed ≠ true)
    (hsame : (f (app.client c)).closed = (app.client c).closed ∧
      (f (app.client c)).role = (app.client c).role ∧
      (f (app.client c)).pendingCalls = (app.client c).pendingCalls)
    (howners : (f (app.client c)).owners = if lost = true ∨ owner.isSome = true then
        Function.update (app.client c).owners service owner
      else (app.client c).owners)
    (hagent : (f (app.client c)).agent =
      if lost = true ∧ service = .networkManager then false else (app.client c).agent) :
    Reported app c service lost owner (app.updateClient c f) where
  same := app.updateClient_rel (r := fun before after => after.closed = before.closed ∧
    after.role = before.role ∧ after.pendingCalls = before.pendingCalls)
    (fun _ => ⟨rfl, rfl, rfl⟩) hsame
  other := fun d hd => by
    by_cases hdc : d = c
    · subst hdc
      have hservice := hd.elim (fun hne => absurd rfl hne) id
      rw [App.updateClient_client, howners, hagent]
      constructor
      · split
        · exact Function.update_of_ne (Ne.symm hservice) ..
        · rfl
      · exact if_neg fun hboth => hservice hboth.2
    · rw [App.updateClient_other app f hdc]
      exact ⟨rfl, rfl⟩
  owner := fun hservice _ => by
    subst hservice
    rw [App.updateClient_client, howners]
    cases owner with
    | some owner =>
        rw [if_pos (.inr rfl), Function.update_self]
        rfl
    | none =>
        cases lost with
        | true =>
            rw [if_pos (.inl rfl), Function.update_self]
            rfl
        | false =>
            rw [if_neg (by simp)]
            rfl
  agent := fun hservice _ => by
    subst hservice
    rw [App.updateClient_client, hagent]
    cases lost <;> simp
  silent := fun hclosed => absurd hclosed hopen

theorem watchReport_reported (app : App) (c : Nat) (service : Service) (lost : Bool)
    (owner : Option String) :
    Reported app c service lost owner (watchReport app c service lost owner).1 := by
  unfold watchReport
  split
  · next hclosed =>
      exact ⟨fun _ => ⟨rfl, rfl, rfl⟩, fun _ _ => ⟨rfl, rfl⟩,
        fun _ hopen => absurd (hclosed.symm.trans hopen) nofun,
        fun _ hopen => absurd (hclosed.symm.trans hopen) nofun, fun _ => rfl⟩
  · next hopen =>
      cases lost with
      | false =>
          cases owner with
          | none =>
              refine ⟨fun _ => ⟨rfl, rfl, rfl⟩, fun _ _ => ⟨rfl, rfl⟩, fun _ _ => rfl,
                fun _ _ => ?_, fun hclosed => absurd hclosed hopen⟩
              simp
          | some owner =>
              show Reported app c service false (some owner) (appeared app c service owner).1
              unfold appeared
              dsimp only
              refine .update hopen ⟨rfl, rfl, rfl⟩ ?_ ?_
              · simp
              · simp
      | true =>
          cases owner with
          | none =>
              show Reported app c service true none (vanished app c service).1
              unfold vanished
              dsimp only
              refine .update hopen ⟨rfl, rfl, rfl⟩ ?_ ?_
              · simp
              · simp
          | some owner =>
              show Reported app c service true (some owner)
                (appeared (vanished app c service).1 c service owner).1
              unfold appeared vanished
              dsimp only
              rw [App.updateClient_twice]
              refine .update hopen ⟨rfl, rfl, rfl⟩ ?_ ?_
              · simp
              · simp

section Report

variable {app app' : App} {c position : Nat}

/-- An announcement whose report is still to come is not handled. -/
theorem Handled.not_later {b : Announcement} (hb : Handled app c b)
    {later : List Announcement} (h : reports app c = later.map Announcement.report) :
    b ∉ later := by
  intro hmem
  obtain ⟨other, hother, hlt⟩ := hb.2.2 b.report (h ▸ List.mem_map_of_mem hmem)
  injection hother with _ _ _ _ hposition
  omega

theorem sorted_before {before later : List Announcement} {a b : Announcement}
    (h : ((before ++ a :: later).map Announcement.position).Pairwise (· < ·))
    (hb : b ∈ before) : b.position < a.position := by
  rw [List.map_append, List.pairwise_append] at h
  exact h.2.2 _ (List.mem_map_of_mem hb) _ (.head _)

theorem Handled.reported {before later : List Announcement} {a b : Announcement}
    (hb : Handled app' c b) (hlist : told app' c = before ++ a :: later)
    (hreports : reports app' c = later.map Announcement.report) : b ∈ before ∨ b = a := by
  have hmem := hb.1
  rw [hlist, List.mem_append, List.mem_cons] at hmem
  rcases hmem with hmem | hmem | hmem
  · exact .inl hmem
  · exact .inr hmem
  · exact absurd hmem (hb.not_later hreports)

/-- The watch says who the owner is. -/
theorem Phase.first {owner : Option String} {rest : List Idle} (h : Phase app c)
    (hhead : reports app c = .nameOwner c .networkManager owner position :: rest)
    (hreports : reports app' c = rest) (htold : told app' c = told app c)
    (hconnection : app'.connection = app.connection)
    (hsorted : ((told app c).map Announcement.position).Pairwise (· < ·))
    (howner : (app'.client c).closed = false →
      (app'.client c).owners .networkManager = owner) :
    Phase app' c ∧ ∀ b, Handled app' c b →
      b.position < position ∨ b.position = position ∧ b.oldOwner = none := by
  cases h with
  | unwatched _ hnone =>
      rw [hnone] at hhead
      cases hhead
  | running done later _ _ hpending =>
      rw [hpending] at hhead
      cases later with
      | nil => cases hhead
      | cons a later =>
          injection hhead with hhead _
          cases hhead
  | starting before first later hstate hfresh hlist hpending _ hchain =>
      rw [hpending] at hhead
      injection hhead with hfirst hrest
      injection hfirst with _ _ hname hposition
      subst hname hposition
      rw [hlist] at htold hsorted
      rw [← hrest] at hreports
      refine ⟨.running (before ++ [first]) later (hconnection ▸ hstate) ?_ hreports
        (fun hc => ?_) ?_, fun b hb => ?_⟩
      · rw [htold, List.append_assoc]
        rfl
      · rw [howner hc, ownerOf, List.getLast?_concat]
        rfl
      · rw [hconnection, ownerOf, List.getLast?_concat]
        exact hchain
      · rcases hb.reported htold hreports with hmem | rfl
        · exact .inl (sorted_before hsorted hmem)
        · exact .inr ⟨rfl, hfresh⟩

/-- The watch reports a change. -/
theorem Phase.next {oldOwner newOwner : Option String} {rest : List Idle}
    (h : Phase app c) (hhead : reports app c =
      .nameOwnerChanged c .networkManager oldOwner newOwner position :: rest)
    (hreports : reports app' c = rest) (htold : told app' c = told app c)
    (hconnection : app'.connection = app.connection)
    (hsorted : ((told app c).map Announcement.position).Pairwise (· < ·))
    (howner : (app'.client c).closed = false → (app.client c).closed = false ∧
      (app'.client c).owners .networkManager = newOwner.or
        (if oldOwner.isSome && ((app.client c).owners .networkManager).isSome then none
          else (app.client c).owners .networkManager)) :
    Phase app' c ∧ (∀ b, Handled app' c b → Handled app c b ∧ b.position < position ∨
      b.position = position ∧ b.oldOwner = oldOwner) ∧ ((app.client c).closed = false →
        (app.client c).owners .networkManager = oldOwner) := by
  cases h with
  | unwatched _ hnone =>
      rw [hnone] at hhead
      cases hhead
  | starting before first later _ _ _ hpending =>
      rw [hpending] at hhead
      injection hhead with hhead _
      cases hhead
  | running done later hstate hlist hpending hbefore hchain =>
      rw [hpending] at hhead
      cases later with
      | nil => cases hhead
      | cons a later =>
          injection hhead with hfirst hrest
          injection hfirst with _ _ hold hnew hposition
          subst hold hnew hposition
          rw [hlist] at htold hsorted
          rw [← hrest] at hreports
          have howned : (app.client c).closed = false →
              (app.client c).owners .networkManager = a.oldOwner := fun hc =>
            (hbefore hc).trans hchain.1.symm
          refine ⟨.running (done ++ [a]) later (hconnection ▸ hstate) ?_ hreports
            (fun hc => ?_) ?_, fun b hb => ?_, howned⟩
          · rw [htold, List.append_assoc]
            rfl
          · obtain ⟨hopen, hnow⟩ := howner hc
            rw [hnow, howned hopen, ownerOf, List.getLast?_concat]
            show _ = a.newOwner
            cases a.oldOwner <;> cases a.newOwner <;> rfl
          · rw [hconnection, ownerOf, List.getLast?_concat]
            exact hchain.2
          · rcases hb.reported htold hreports with hmem | rfl
            · have hlt := sorted_before hsorted hmem
              refine .inl ⟨⟨?_, hstate, fun source hsource => ?_⟩, hlt⟩
              · rw [hlist]
                exact List.mem_append_left _ hmem
              · rw [hpending, List.map_cons] at hsource
                rcases List.mem_cons.mp hsource with rfl | hsource
                · exact ⟨a, rfl, hlt⟩
                · exact hb.2.2 source (by rw [hreports]; exact hsource)
            · exact .inr ⟨rfl, rfl⟩

end Report

/-- The main loop takes a source that is no report about NetworkManager. -/
theorem Order.skip {app : App} (h : Order app) {collected : Nat} {source : Idle}
    {rest : List Idle} (hidle : app.idle = source :: rest)
    (htells : ∀ c, source.tells c = false) :
    Heard app { app with idle := rest, collected := collected } := by
  have hsub : (rest.filterMap Idle.position).Sublist
      (app.idle.filterMap Idle.position) := by
    rw [hidle]
    exact (List.sublist_cons_self ..).filterMap _
  refine h.keep rfl rfl (Nat.le_refl _) (Nat.le_refl _) (fun c => ?_)
    (h.idle.sublist hsub) (fun p hp => .inl (hsub.subset hp))
    (fun e he => ⟨(h.inHand e he).1, fun p hp => (h.inHand e he).2 p (hsub.subset hp)⟩)
    (fun _ he => .inl he) (.of_client rfl)
  unfold reports
  rw [hidle, List.filter_cons_of_neg]
  rw [htells c]
  exact Bool.false_ne_true

/-- It takes a report about NetworkManager. -/
theorem Order.report {app app' : App} (h : Order app) (hq : QueueInv app)
    {collected d position : Nat} {source : Idle} {rest : List Idle} {lost : Bool}
    {owner : Option String} (hcollected : app.collected = collected + 1)
    (hidle : app.idle = source :: rest) (hposition : source.position = some position)
    (htells : ∀ c, source.tells c = (d == c))
    (hs : SameQueue { app with idle := rest, collected := collected } app')
    (hreported : Reported { app with idle := rest, collected := collected } d
      .networkManager lost owner app')
    (hphase : Phase app' d) (hle : ∀ b, Handled app' d b → b.position ≤ position) :
    Order app' ∧ ∀ c, c ≠ d → ∀ b, Handled app' c b → Handled app c b := by
  obtain ⟨-, hqueue⟩ := hq.dispatch hcollected hidle
  have hsorted := h.idle
  have hsub : (rest.filterMap Idle.position).Sublist
      (app.idle.filterMap Idle.position) := by
    rw [hidle]
    exact (List.sublist_cons_self ..).filterMap _
  have hlater : ∀ q ∈ rest.filterMap Idle.position, position < q := by
    rw [hidle, List.filterMap_cons, hposition, List.pairwise_cons] at hsorted
    exact hsorted.1
  have htold : ∀ c, told app' c = told app c := by
    intro c
    unfold told
    rw [hs.history]
  have hother : ∀ c, c ≠ d → reports app' c = reports app c := by
    intro c hc
    unfold reports
    rw [hs.idle, hidle, List.filter_cons_of_neg]
    rw [htells c, beq_iff_eq]
    exact Ne.symm hc
  have hhandled : ∀ c, c ≠ d → ∀ b, Handled app' c b → Handled app c b := fun c hc b hb =>
    hb.congr (by rw [hs.connection]) (htold c) (hother c hc)
  refine ⟨{
    history := by rw [hs.history]; exact h.history
    received := by rw [hs.history, hs.received]; exact h.received
    idle := by rw [hs.idle]; exact h.idle.sublist hsub
    inHand := ?_
    phase := fun c => ?_
    handled := fun c b hb => ?_
    fresh := fun c hc => ?_ }, hhandled⟩
  · rw [hs.inHand, hs.history, hs.idle]
    exact fun e he =>
      ⟨(h.inHand e he).1, fun p hp => (h.inHand e he).2 p (hsub.subset hp)⟩
  · by_cases hc : c = d
    · exact hc ▸ hphase
    · refine (h.phase c).congr (by rw [hs.connection]) (by rw [hs.connection]) (htold c)
        (hother c hc) fun hopen => ?_
      exact ⟨(hreported.same c).1.symm.trans hopen, (hreported.other c (.inl hc)).1⟩
  · rw [hs.queue, hs.idle]
    by_cases hc : c = d
    · subst hc
      have hle := hle b hb
      exact ⟨fun e he => Nat.lt_of_le_of_lt hle (hqueue position hposition e he),
        fun q hq => Nat.lt_of_le_of_lt hle (hlater q hq)⟩
    · have hb := hhandled c hc b hb
      obtain ⟨hbefore, hbeforeIdle⟩ := h.handled c b hb
      exact ⟨hbefore, fun q hq => hbeforeIdle q (hsub.subset hq)⟩
  · obtain ⟨hwatching, hnone⟩ := h.fresh c (Nat.le_trans hs.clients hc)
    refine ⟨by rw [hs.connection]; exact hwatching, ?_⟩
    refine List.eq_nil_iff_forall_not_mem.mpr fun other hmem => ?_
    unfold reports at hmem hnone
    rw [hs.idle, List.mem_filter] at hmem
    have hin : other ∈ app.idle.filter (Idle.tells c) := by
      rw [List.mem_filter, hidle]
      exact ⟨.tail _ hmem.1, hmem.2⟩
    rw [hnone] at hin
    exact absurd hin List.not_mem_nil

/-- What is handled after a source has been dispatched. While the agent stays
registered nothing that the owner has left is, unless the watch has said only now
who the owner is. -/
structure Reports (app : App) (source : Idle) (app' : App) : Prop where
  order : Order app'
  handled : ∀ c b, (app'.client c).closed = false → (app'.client c).agent = true →
    Handled app' c b → b.oldOwner.isSome = true → Handled app c b ∨
      ∃ owner position, source = .nameOwner c .networkManager (some owner) position ∧
        (app.client c).closed = false ∧ (app.client c).agent = true ∧ b.position < position

theorem Reports.heard {app app' : App} {source : Idle} (h : Heard app app') :
    Reports app source app' :=
  ⟨h.order, fun c b _ _ hb _ => .inl (h.handled c b hb)⟩

theorem reports_head {app : App} {c collected : Nat} {source : Idle} {rest : List Idle}
    (hidle : app.idle = source :: rest) (htells : source.tells c = true) :
    reports app c =
      source :: reports { app with idle := rest, collected := collected } c := by
  unfold reports
  rw [hidle, List.filter_cons_of_pos htells]

theorem reports_same {app app' : App} (h : SameQueue app app') (c : Nat) :
    reports app' c = reports app c := by
  unfold reports
  rw [h.idle]

theorem Order.dispatch {app : App} (h : Order app) (hq : QueueInv app) {collected : Nat}
    {source : Idle} {rest : List Idle} (hcollected : app.collected = collected + 1)
    (hidle : app.idle = source :: rest) :
    Reports app source
      (dispatchIdle { app with idle := rest, collected := collected } source).1 := by
  have hs := dispatchIdle_sameQueue { app with idle := rest, collected := collected } source
  have htold : ∀ c, told (dispatchIdle
      { app with idle := rest, collected := collected } source).1 c = told app c := by
    intro c
    unfold told
    rw [hs.history]
  cases source with
  | finished d id reply =>
      have hskip : Heard app { app with idle := rest, collected := collected } :=
        h.skip hidle fun _ => rfl
      exact .heard (hskip.trans (hskip.order.same hs
        (.of_same (forwardFinished_same _ d id reply))))
  | nameOwner d service owner position =>
      have hreported := watchReport_reported
        { app with idle := rest, collected := collected } d service owner.isNone owner
      by_cases hservice : service = .networkManager
      · subst hservice
        have htells : ∀ c, (Idle.nameOwner d .networkManager owner position).tells c =
            (d == c) := fun c => Bool.and_true _
        obtain ⟨hphase, hle⟩ := (h.phase d).first
          (reports_head hidle (by simp [htells])) (reports_same hs d) (htold d)
          hs.connection (h.sorted d) fun hopen => by
            refine (hreported.owner rfl ((hreported.same d).1.symm.trans hopen)).trans ?_
            cases owner <;> rfl
        obtain ⟨horder, hhandled⟩ := h.report hq hcollected hidle rfl htells hs hreported
          hphase fun b hb => (hle b hb).elim Nat.le_of_lt fun heq => Nat.le_of_eq heq.1
        refine ⟨horder, fun c b hopen hagent hb hleft => ?_⟩
        by_cases hc : c = d
        · subst hc
          have hbefore := (hreported.same c).1.symm.trans hopen
          have hkept := (hreported.agent rfl hbefore).symm.trans hagent
          cases owner with
          | none =>
              rw [Option.isNone_none, Bool.not_true, Bool.and_false] at hkept
              cases hkept
          | some owner =>
              rcases hle b hb with hlt | ⟨-, hnone⟩
              · rw [Option.isNone_some, Bool.not_false, Bool.and_true] at hkept
                exact .inr ⟨owner, position, rfl, hbefore, hkept, hlt⟩
              · rw [hnone] at hleft
                cases hleft
        · exact .inl (hhandled c hc b hb)
      · have hskip : Heard app { app with idle := rest, collected := collected } :=
          h.skip hidle fun c => tells_other (.inr hservice)
        refine .heard (hskip.trans (hskip.order.same hs fun c hc => ?_))
        exact .inl ⟨(hreported.same c).1.symm.trans hc,
          (hreported.other c (.inr hservice)).1⟩
  | nameOwnerChanged d service oldOwner newOwner position =>
      have hreported := watchReport_reported
        { app with idle := rest, collected := collected } d service
        (oldOwner.isSome && ((app.client d).owners service).isSome) newOwner
      by_cases hservice : service = .networkManager
      · subst hservice
        have htells : ∀ c, (Idle.nameOwnerChanged d .networkManager oldOwner newOwner
            position).tells c = (d == c) := fun c => Bool.and_true _
        obtain ⟨hphase, hle, howned⟩ := (h.phase d).next
          (reports_head hidle (by simp [htells])) (reports_same hs d) (htold d)
          hs.connection (h.sorted d) fun hopen => by
            have hopen := (hreported.same d).1.symm.trans hopen
            exact ⟨hopen, hreported.owner rfl hopen⟩
        obtain ⟨horder, hhandled⟩ := h.report hq hcollected hidle rfl htells hs hreported
          hphase fun b hb => (hle b hb).elim (fun hlt => Nat.le_of_lt hlt.2)
            fun heq => Nat.le_of_eq heq.1
        refine ⟨horder, fun c b hopen hagent hb hleft => ?_⟩
        by_cases hc : c = d
        · subst hc
          have hbefore := (hreported.same c).1.symm.trans hopen
          have hkept := (hreported.agent rfl hbefore).symm.trans hagent
          rcases hle b hb with ⟨hold, -⟩ | ⟨-, hsame⟩
          · exact .inl hold
          · rw [howned hbefore, ← hsame, hleft, Bool.and_self, Bool.not_true,
              Bool.and_false] at hkept
            cases hkept
        · exact .inl (hhandled c hc b hb)
      · have hskip : Heard app { app with idle := rest, collected := collected } :=
          h.skip hidle fun c => tells_other (.inr hservice)
        refine .heard (hskip.trans (hskip.order.same hs fun c hc => ?_))
        exact .inl ⟨(hreported.same c).1.symm.trans hc,
          (hreported.other c (.inr hservice)).1⟩

/-- The head of the queue is taken. -/
theorem Order.pop {app : App} (h : Order app) {e : Event} {rest : List Event}
    (hqueue : app.queue = e :: rest) :
    Heard app { app with queue := rest, queued := app.queued - 1 } :=
  h.keep rfl rfl (Nat.le_refl _) (Nat.le_refl _) (fun _ => rfl) h.idle
    (fun _ hp => .inl hp) h.inHand
    (fun other hother => .inl (by rw [hqueue]; exact .tail _ hother)) (.of_client rfl)

theorem Order.process {app : App} (h : Order app) (env : Env) :
    Heard app (processEvent env app).1 := by
  unfold processEvent
  split
  · exact h.heard
  · next e rest hqueue =>
      have hpop := h.pop hqueue
      exact hpop.trans (hpop.order.same handleEvent_acts.sameQueue
        handleEvent_acts.sameOwners)

theorem Order.timeout {app : App} (h : Order app) (c id : Nat) :
    Heard app (timeout app c id).1 := by
  unfold SystemBus.timeout
  split
  · next waiting _ =>
      have herased : Heard app { app with waiting := app.waiting.erase waiting } :=
        h.keep rfl rfl (Nat.le_refl _) (Nat.le_refl _) (fun _ => rfl) h.idle
          (fun _ hp => .inl hp) h.inHand (fun _ he => .inl he) (.of_client rfl)
      exact herased.trans (herased.order.same (forwardFinished_sameQueue _ _ _ _)
        (.of_same (forwardFinished_same _ _ _ _)))
  · exact h.heard

theorem Order.frame {app app' : App} (h : Order app) (hframe : Frame app app') :
    Heard app app' :=
  h.same hframe.sameQueue hframe.sameOwners

theorem Order.check {app : App} (h : Order app) (collected : Nat) :
    Heard app { app with collected := collected } :=
  h.keep rfl rfl (Nat.le_refl _) (Nat.le_refl _) (fun _ => rfl) h.idle
    (fun _ hp => .inl hp) h.inHand (fun _ he => .inl he) (.of_client rfl)

theorem Order.initial {t : Trace} (h : Initial t) : Order t.app := by
  have hempty : ∀ app : App, app.history = [] → app.idle = [] → app.inHand = none →
      app.connection = (fun _ => {}) → app.client = (fun _ => {}) → Order app := by
    intro app hhistory hidle hinHand hconnection hclient
    have hreports : ∀ c, reports app c = [] := by
      intro c
      unfold reports
      rw [hidle, List.filter_nil]
    have hnone : ∀ c, (app.connection c).watching .networkManager = false := by
      intro c
      rw [hconnection]
    exact {
      history := by rw [hhistory]; exact .nil
      received := by rw [hhistory]; exact fun _ h => absurd h List.not_mem_nil
      idle := by rw [hidle]; exact .nil
      inHand := by rw [hinHand]; exact fun _ h => by cases h
      phase := fun c => .unwatched (hnone c) (hreports c) fun _ => by rw [hclient]
      handled := fun c a ha => absurd ((hnone c).symm.trans ha.2.1) nofun
      fresh := fun c _ => ⟨hnone c, hreports c⟩ }
  cases h with
  | broker admin => exact hempty _ rfl rfl rfl rfl rfl
  | relay uniqueName guestNames => exact hempty _ rfl rfl rfl rfl rfl

/-- Every step but the dispatch of a source reports nothing. -/
theorem Order.step {app : App} (h : Order app) (hq : QueueInv app) {s : Step}
    (hs : s ≠ .dispatch) : Heard app (step app s).1 := by
  cases s with
  | receive bus message => exact h.receive hq bus message
  | «match» => exact h.matchReply
  | watchStarted c service owner => exact h.watchStarted hq c service owner
  | nameOwnerChanged c service oldOwner newOwner =>
      exact h.nameOwnerChanged hq c service oldOwner newOwner
  | fail c id => exact h.fail c id
  | process env => exact h.process env
  | check =>
      show Heard app (if app.queue.isEmpty then _ else app)
      split
      · exact h.check _
      · exact h.heard
  | dispatch => exact absurd rfl hs
  | timeout c id => exact h.timeout c id
  | closed c =>
      show Heard app (if (app.client c).closed then app else _)
      split
      · exact h.heard
      · exact h.frame (removeClient_frame _ _)
  | newPeer name => exact h.frame (newPeer_frame _ _)
  | observerTick env =>
      show Heard app (if app.broker then app else _)
      split
      · exact h.heard
      · next hbroker => exact h.frame (relayClient_frame env (by simpa using hbroker) _ _)
  | guestNameChanged name owner => exact h.frame (guestNameChanged_frame _ _ _)

end Spaces.SystemBus
