import Mathlib.Data.Finset.Card
import Mathlib.Data.Finset.Range
import Spaces.Library.Runs

/-!
# The threads of the authentication service

One thread accepts the connections of a Space and starts a handler for each, up to
`maxRequests` at a time. A handler may start a worker process, waits for it and kills it
when it is overdue. `stop` may be called at any moment: it waits for the accepting thread,
shuts the connections of the handlers that are recorded, kills the workers that are
recorded and waits for both. Each of its waits is over after some time.

A step is what one thread does up to the next point where it matters what the others do.
Handlers are numbered in the order they were made, and connections and workers with them.
A killed process ends some time later, and is a number that the kernel may give away again
as soon as somebody has waited for it.

`timedOut` and `kills` are records for the theorems.
-/

namespace Spaces.Authentication.Service

open Spaces.Library

/-- `MAX_REQUESTS` -/
def maxRequests : Nat := 64

inductive Worker where
  | none
  | running
  /-- Nobody has waited for it yet. -/
  | exited
  | reaped
  deriving DecidableEq

/-- Where a handler is: in `_handle` up to `Popen`, in `_WorkerPool.run`, or in its
`finally` from `leaving` on. -/
inductive Phase where
  | unstarted
  | serving
  | launched
  | waiting
  | overdue
  | killed
  | reaped
  | leaving
  | closed
  | discarded
  | ended
  deriving DecidableEq

structure Handler where
  phase : Phase := .unstarted
  worker : Worker := .none
  connected : Bool := false
  deriving DecidableEq

/-- Where `_serve` is. -/
inductive Serve where
  | unstarted
  | looking
  | accepting
  | accepted
  | admitted
  /-- The handler is recorded and not started. -/
  | registered (i : Nat)
  | ended
  deriving DecidableEq

/-- Where the first call of `stop` is, with what it has taken down and what is left of
it. The other calls return at once. -/
inductive Stop where
  | uncalled
  | flagged
  | joined
  | shutting (handlers connections : List Nat)
  | shut (handlers : List Nat)
  | killing (handlers processes rest : List Nat)
  | reaping (handlers processes : List Nat)
  | joining (handlers : List Nat)
  | returned
  /-- A thread that was never started cannot be joined. -/
  | raised
  deriving DecidableEq

structure State where
  serve : Serve := .unstarted
  stopping : Stop := .uncalled
  /-- `_request_slots` -/
  slots : Nat := maxRequests
  count : Nat := 0
  handler : Nat → Handler := fun _ => {}
  /-- `_handlers` -/
  handlers : List Nat := []
  /-- `_connections` -/
  connections : List Nat := []
  /-- `_processes` of the pool. -/
  processes : List Nat := []
  timedOut : Bool := false
  kills : List (Nat × Worker) := []

inductive Accepted where
  | connection
  | timeout
  | error

inductive Event where
  | start
  | serve (accepted : Accepted) (starts : Bool)
  /-- `ok` is whether what the handler does next succeeds, or the wait goes on. -/
  | handle (i : Nat) (ok : Bool)
  | exits (i : Nat)
  /-- `expired` is whether the time for what `stop` waits for is over. -/
  | stop (expired : Bool)

namespace State

variable (s : State)

def set (i : Nat) (handler : Handler) : State :=
  { s with handler := Function.update s.handler i handler }

def goTo (i : Nat) (phase : Phase) : State := s.set i { s.handler i with phase := phase }

/-- `_kill` -/
def kill (i : Nat) : State := { s with kills := (i, (s.handler i).worker) :: s.kills }

/-- `Popen.wait`, of a process that is no longer running. -/
def reap (i : Nat) : State := s.set i { s.handler i with worker := .reaped }

def isRunning (i : Nat) : Bool := (s.handler i).worker == .running

def isFlagged : Bool := s.stopping != .uncalled

/-- `_serve` -/
def serving (accepted : Accepted) (starts : Bool) : State :=
  match s.serve with
  | .unstarted => s
  | .looking => { s with serve := if s.isFlagged then .ended else .accepting }
  | .accepting =>
      match accepted with
      | .connection => { s with serve := .accepted }
      | .timeout => { s with serve := .looking }
      | .error => { s with serve := if s.isFlagged then .ended else .looking }
  | .accepted =>
      if s.slots = 0 then { s with serve := .looking }
      else { s with serve := .admitted, slots := s.slots - 1 }
  | .admitted =>
      { s.set s.count { connected := true } with
        serve := .registered s.count
        count := s.count + 1
        handlers := s.count :: s.handlers
        connections := s.count :: s.connections }
  | .registered i =>
      if starts then { s.goTo i .serving with serve := .looking }
      else { s with serve := .ended }
  | .ended => s

/-- `_handle`, with `_WorkerPool.run` in it. -/
def handle (i : Nat) (ok : Bool) : State :=
  match (s.handler i).phase with
  | .unstarted => s
  | .serving =>
      if ok then s.set i { s.handler i with phase := .launched, worker := .running }
      else s.goTo i .leaving
  | .launched => { s.goTo i .waiting with processes := i :: s.processes }
  | .waiting =>
      if s.isRunning i then if ok then s else s.goTo i .overdue
      else (s.reap i).goTo i .reaped
  | .overdue => (s.kill i).goTo i .killed
  | .killed => if s.isRunning i then s else (s.reap i).goTo i .reaped
  | .reaped => { s.goTo i .leaving with processes := s.processes.filter (· ≠ i) }
  | .leaving => s.set i { s.handler i with phase := .closed, connected := false }
  | .closed =>
      { s.goTo i .discarded with
        handlers := s.handlers.filter (· ≠ i)
        connections := s.connections.filter (· ≠ i) }
  | .discarded => { s.goTo i .ended with slots := s.slots + 1 }
  | .ended => s

def exits (i : Nat) : State :=
  if s.isRunning i then s.set i { s.handler i with worker := .exited } else s

/-- `stop`, with `_WorkerPool.stop` in it. -/
def stop (expired : Bool) : State :=
  match s.stopping with
  | .uncalled => { s with stopping := .flagged }
  | .flagged =>
      if s.serve = .unstarted ∨ s.serve = .ended then { s with stopping := .joined }
      else if expired then { s with stopping := .joined, timedOut := true }
      else s
  | .joined => { s with stopping := .shutting s.handlers s.connections }
  | .shutting handlers (i :: connections) =>
      { s.set i { s.handler i with connected := false } with
        stopping := .shutting handlers connections }
  | .shutting handlers [] => { s with stopping := .shut handlers }
  | .shut handlers => { s with stopping := .killing handlers s.processes s.processes }
  | .killing handlers processes (i :: rest) =>
      { s.kill i with stopping := .killing handlers processes rest }
  | .killing handlers processes [] => { s with stopping := .reaping handlers processes }
  | .reaping handlers (i :: processes) =>
      if s.isRunning i then
        if expired then { s with stopping := .reaping handlers processes, timedOut := true }
        else s
      else { s.reap i with stopping := .reaping handlers processes }
  | .reaping handlers [] => { s with stopping := .joining handlers }
  | .joining (i :: handlers) =>
      match (s.handler i).phase with
      | .unstarted => { s with stopping := .raised }
      | .ended => { s with stopping := .joining handlers }
      | _ =>
          if expired then { s with stopping := .joining handlers, timedOut := true }
          else s
  | .joining [] => { s with stopping := .returned }
  | .returned => s
  | .raised => s

end State

def step (s : State) : Event → State
  | .start => if s.serve = .unstarted then { s with serve := .looking } else s
  | .serve accepted starts => s.serving accepted starts
  | .handle i ok => s.handle i ok
  | .exits i => s.exits i
  | .stop expired => s.stop expired

/-! ## What is known of a handler -/

namespace Phase

/-- The handler is in `_handlers`, and its connection in `_connections`. -/
def listed : Phase → Bool
  | discarded => false
  | ended => false
  | _ => true

def pooled : Phase → Bool
  | waiting => true
  | overdue => true
  | killed => true
  | reaped => true
  | _ => false

/-- There may be a worker nobody has waited for. -/
def works : Phase → Bool
  | launched => true
  | waiting => true
  | overdue => true
  | killed => true
  | _ => false

def connects : Phase → Bool
  | closed => false
  | discarded => false
  | ended => false
  | _ => true

end Phase

def Worker.unreaped : Worker → Bool
  | running => true
  | exited => true
  | _ => false

/-- Of one handler: whether it was made, and what the sets of the service say of it. -/
structure Sound (made listed linked pooled : Prop) (h : Handler) : Prop where
  fresh : ¬made → h.phase = .unstarted ∧ h.connected = false
  listed_iff : listed ↔ made ∧ h.phase.listed = true
  linked_iff : linked ↔ made ∧ h.phase.listed = true
  pooled_iff : pooled ↔ h.phase.pooled = true
  works : h.worker.unreaped = true → h.phase.works = true
  connects : h.connected = true → h.phase.connects = true

def State.Sound (s : State) : Prop :=
  ∀ i, Service.Sound (i < s.count) (i ∈ s.handlers) (i ∈ s.connections) (i ∈ s.processes)
    (s.handler i)

variable {s : State}

theorem sound_initial : State.Sound {} := fun i => by
  constructor <;> simp [Phase.listed, Phase.pooled, Phase.works, Phase.connects, Worker.unreaped]

theorem State.Sound.made (h : s.Sound) {i : Nat} (hphase : (s.handler i).phase ≠ .unstarted) :
    i < s.count := by
  by_contra hmade
  exact hphase ((h i).fresh hmade).1

/-- A change of one handler that the sets of the others say nothing of. -/
theorem Sound.of_made {made listed linked pooled : Prop} {h : Handler} (hmade : made)
    (hlisted : listed ↔ h.phase.listed = true) (hlinked : linked ↔ h.phase.listed = true)
    (hpooled : pooled ↔ h.phase.pooled = true)
    (hworks : h.worker.unreaped = true → h.phase.works = true)
    (hconnects : h.connected = true → h.phase.connects = true) :
    Sound made listed linked pooled h where
  fresh hnot := absurd hmade hnot
  listed_iff := hlisted.trans (and_iff_right hmade).symm
  linked_iff := hlinked.trans (and_iff_right hmade).symm
  pooled_iff := hpooled
  works := hworks
  connects := hconnects

/-- A change of one handler that the sets say nothing else of. -/
theorem State.Sound.replace {t : State} (h : s.Sound) {i : Nat} {handler : Handler}
    (hhandler : t.handler = Function.update s.handler i handler)
    (hothers : ∀ j, j ≠ i → (j < t.count ↔ j < s.count) ∧ (j ∈ t.handlers ↔ j ∈ s.handlers) ∧
      (j ∈ t.connections ↔ j ∈ s.connections) ∧ (j ∈ t.processes ↔ j ∈ s.processes))
    (hsound : Service.Sound (i < t.count) (i ∈ t.handlers) (i ∈ t.connections)
      (i ∈ t.processes) handler) : t.Sound := by
  intro j
  rw [hhandler]
  rcases eq_or_ne j i with rfl | hne
  · rw [Function.update_self]
    exact hsound
  · obtain ⟨hcount, hhandlers, hconnections, hprocesses⟩ := hothers j hne
    rw [Function.update_of_ne hne, hcount, hhandlers, hconnections, hprocesses]
    exact h j

/-- A change of one handler that changes none of the sets. -/
theorem State.Sound.set (h : s.Sound) {i : Nat} {handler : Handler} (hmade : i < s.count)
    (hlisted : handler.phase.listed = (s.handler i).phase.listed)
    (hpooled : handler.phase.pooled = (s.handler i).phase.pooled)
    (hworks : handler.worker.unreaped = true → handler.phase.works = true)
    (hconnects : handler.connected = true → handler.phase.connects = true) :
    (s.set i handler).Sound := by
  refine h.replace rfl (fun _ _ => ⟨Iff.rfl, Iff.rfl, Iff.rfl, Iff.rfl⟩)
    (.of_made hmade ?_ ?_ ?_ hworks hconnects)
  · rw [hlisted]
    exact (h i).listed_iff.trans (and_iff_right hmade)
  · rw [hlisted]
    exact (h i).linked_iff.trans (and_iff_right hmade)
  · rw [hpooled]
    exact (h i).pooled_iff

theorem State.reap_goTo (s : State) (i : Nat) (phase : Phase) :
    (s.reap i).goTo i phase = s.set i { s.handler i with worker := .reaped, phase := phase } := by
  simp [reap, goTo, set]

theorem State.Sound.handle (h : s.Sound) (i : Nat) (ok : Bool) : (s.handle i ok).Sound := by
  have hmade := h.made (i := i)
  obtain ⟨-, hlisted, hlinked, hpooled, hworks, hconnects⟩ := h i
  unfold State.handle
  split
  · exact h
  · next hphase =>
      rw [hphase] at hmade hworks
      split
      · exact h.set (hmade (by decide)) (by rw [hphase]; rfl) (by rw [hphase]; rfl)
          (fun _ => rfl) (fun _ => rfl)
      · exact h.set (hmade (by decide)) (by rw [hphase]; rfl) (by rw [hphase]; rfl)
          (fun hrun => absurd (hworks hrun) (by decide)) (fun _ => rfl)
  · next hphase =>
      rw [hphase] at hmade hlisted hlinked
      have hm := hmade (by decide)
      refine h.replace rfl (fun j hne => ⟨Iff.rfl, Iff.rfl, Iff.rfl, by simp [hne]⟩)
        (.of_made hm ?_ ?_ (by simp [Phase.pooled]) (fun _ => rfl) (fun _ => rfl))
      · exact hlisted.trans (and_iff_right hm)
      · exact hlinked.trans (and_iff_right hm)
  · next hphase =>
      rw [hphase] at hmade
      have hm := hmade (by decide)
      split
      · split
        · exact h
        · exact h.set hm (by rw [hphase]; rfl) (by rw [hphase]; rfl) (fun _ => rfl) (fun _ => rfl)
      · rw [State.reap_goTo]
        exact h.set hm (by rw [hphase]; rfl) (by rw [hphase]; rfl)
          (fun hrun => absurd hrun Bool.false_ne_true) (fun _ => rfl)
  · next hphase =>
      rw [hphase] at hmade
      exact h.set (hmade (by decide)) (by rw [hphase]; rfl) (by rw [hphase]; rfl)
        (fun _ => rfl) (fun _ => rfl)
  · next hphase =>
      rw [hphase] at hmade
      split
      · exact h
      · rw [State.reap_goTo]
        exact h.set (hmade (by decide)) (by rw [hphase]; rfl) (by rw [hphase]; rfl)
          (fun hrun => absurd hrun Bool.false_ne_true) (fun _ => rfl)
  · next hphase =>
      rw [hphase] at hmade hlisted hlinked hworks
      have hm := hmade (by decide)
      refine h.replace rfl (fun j hne => ⟨Iff.rfl, Iff.rfl, Iff.rfl, by simp [hne]⟩)
        (.of_made hm ?_ ?_ (by simp [Phase.pooled])
          (fun hrun => absurd (hworks hrun) (by decide)) (fun _ => rfl))
      · exact hlisted.trans (and_iff_right hm)
      · exact hlinked.trans (and_iff_right hm)
  · next hphase =>
      rw [hphase] at hmade hworks
      exact h.set (hmade (by decide)) (by rw [hphase]; rfl) (by rw [hphase]; rfl)
        (fun hrun => absurd (hworks hrun) (by decide))
        (fun hopen => absurd hopen Bool.false_ne_true)
  · next hphase =>
      rw [hphase] at hmade hpooled hworks hconnects
      refine h.replace rfl
        (fun j hne => ⟨Iff.rfl, by simp [hne], by simp [hne], Iff.rfl⟩)
        (.of_made (hmade (by decide)) (by simp [Phase.listed]) (by simp [Phase.listed]) hpooled
          (fun hrun => absurd (hworks hrun) (by decide))
          (fun hopen => absurd (hconnects hopen) (by decide)))
  · next hphase =>
      rw [hphase] at hmade hworks hconnects
      exact h.set (hmade (by decide)) (by rw [hphase]; rfl) (by rw [hphase]; rfl)
        (fun hrun => absurd (hworks hrun) (by decide))
        (fun hopen => absurd (hconnects hopen) (by decide))
  · exact h

theorem State.Sound.registered (h : s.Sound) {t : State}
    (hhandler : t.handler = Function.update s.handler s.count { connected := true })
    (hcount : t.count = s.count + 1) (hhandlers : t.handlers = s.count :: s.handlers)
    (hconnections : t.connections = s.count :: s.connections)
    (hprocesses : t.processes = s.processes) : t.Sound := by
  have hpooled : s.count ∉ s.processes := by
    rw [(h s.count).pooled_iff, ((h s.count).fresh (by omega)).1]
    decide
  refine h.replace hhandler (fun j hne => ?_) (.of_made (by omega)
    (by simp [hhandlers, Phase.listed]) (by simp [hconnections, Phase.listed])
    (by simp [hprocesses, hpooled, Phase.pooled])
    (fun hrun => absurd hrun Bool.false_ne_true) (fun _ => rfl))
  rw [hcount, hhandlers, hconnections, hprocesses]
  refine ⟨by omega, ?_, ?_, Iff.rfl⟩
  · simp [hne]
  · simp [hne]

theorem State.Sound.serving (h : s.Sound) (accepted : Accepted) (starts : Bool)
    (hunstarted : ∀ i, s.serve = .registered i →
      i < s.count ∧ (s.handler i).phase = .unstarted) :
    (s.serving accepted starts).Sound := by
  unfold State.serving
  split
  · exact h
  · exact h
  · cases accepted <;> exact h
  · split <;> exact h
  · exact h.registered rfl rfl rfl rfl rfl
  · next i hserve =>
      obtain ⟨hmade, hphase⟩ := hunstarted i hserve
      split
      · refine h.set hmade (by rw [hphase]; rfl) (by rw [hphase]; rfl) (fun hrun => ?_)
          (fun _ => rfl)
        have hworks := (h i).works hrun
        rw [hphase] at hworks
        cases hworks
      · exact h
  · exact h

/-- What `stop` leaves alone. -/
theorem State.stop_frame (s : State) (expired : Bool) :
    (s.stop expired).serve = s.serve ∧ (s.stop expired).slots = s.slots ∧
      (s.stop expired).count = s.count ∧ (s.stop expired).handlers = s.handlers ∧
      (s.stop expired).connections = s.connections ∧
      (s.stop expired).processes = s.processes := by
  unfold State.stop
  split
  all_goals try (split <;> try split)
  all_goals exact ⟨rfl, rfl, rfl, rfl, rfl, rfl⟩

/-- `stop` moves no handler. It closes their connections and waits for their workers. -/
theorem State.stop_handler (s : State) (expired : Bool) (i : Nat) :
    ((s.stop expired).handler i).phase = (s.handler i).phase ∧
      (((s.stop expired).handler i).connected = true → (s.handler i).connected = true) ∧
      (((s.stop expired).handler i).worker.unreaped = true →
        (s.handler i).worker.unreaped = true) := by
  have hset : ∀ (j : Nat) (handler : Handler), handler.phase = (s.handler j).phase →
      (handler.connected = true → (s.handler j).connected = true) →
      (handler.worker.unreaped = true → (s.handler j).worker.unreaped = true) →
      ((s.set j handler).handler i).phase = (s.handler i).phase ∧
        (((s.set j handler).handler i).connected = true → (s.handler i).connected = true) ∧
        (((s.set j handler).handler i).worker.unreaped = true →
          (s.handler i).worker.unreaped = true) := by
    intro j handler hphase hconnected hworker
    unfold State.set
    rcases eq_or_ne i j with rfl | hne
    · simpa using ⟨hphase, hconnected, hworker⟩
    · simp [hne]
  unfold State.stop
  split
  case h_4 => exact hset _ _ rfl (fun hopen => absurd hopen Bool.false_ne_true) id
  case h_9 =>
    split
    · split <;> exact ⟨rfl, id, id⟩
    · exact hset _ _ rfl id (fun hrun => absurd hrun Bool.false_ne_true)
  all_goals try (split <;> try split)
  all_goals exact ⟨rfl, id, id⟩

theorem State.Sound.stop (h : s.Sound) (expired : Bool) : (s.stop expired).Sound := by
  intro i
  obtain ⟨-, -, hcount, hhandlers, hconnections, hprocesses⟩ := s.stop_frame expired
  obtain ⟨hphase, hconnected, hworker⟩ := s.stop_handler expired i
  obtain ⟨hfresh, hlisted, hlinked, hpooled, hworks, hconnects⟩ := h i
  rw [hcount, hhandlers, hconnections, hprocesses]
  constructor
  · intro hmade
    obtain ⟨hunstarted, hclosed⟩ := hfresh hmade
    exact ⟨hphase.trans hunstarted, Bool.eq_false_iff.mpr fun hopen =>
      Bool.eq_false_iff.mp hclosed (hconnected hopen)⟩
  · rw [hphase]
    exact hlisted
  · rw [hphase]
    exact hlinked
  · rw [hphase]
    exact hpooled
  · rw [hphase]
    exact fun hrun => hworks (hworker hrun)
  · rw [hphase]
    exact fun hopen => hconnects (hconnected hopen)

theorem State.Sound.exits (h : s.Sound) (i : Nat) : (s.exits i).Sound := by
  unfold State.exits State.isRunning
  split
  · next hrunning =>
      have hworks := (h i).works (by rw [eq_of_beq hrunning]; rfl)
      have hmade : i < s.count := h.made fun hphase => by
        rw [hphase] at hworks
        cases hworks
      exact h.set hmade rfl rfl (fun _ => hworks) (h i).connects
  · exact h

/-! ## The slots -/

namespace State

/-- The handlers that have not ended. -/
def busy (s : State) : Finset Nat :=
  (Finset.range s.count).filter fun i => (s.handler i).phase ≠ .ended

end State

/-- A slot that no handler has yet. -/
def Serve.holds : Serve → Nat
  | admitted => 1
  | _ => 0

/-- Each slot is free, taken for a connection, or a handler's. -/
def State.Balanced (s : State) : Prop := s.slots + s.busy.card + s.serve.holds = maxRequests

theorem State.mem_busy {i : Nat} :
    i ∈ s.busy ↔ i < s.count ∧ (s.handler i).phase ≠ .ended := by
  rw [busy, Finset.mem_filter, Finset.mem_range]

theorem State.busy_congr {t : State} (hcount : t.count = s.count)
    (hphase : ∀ i, ((t.handler i).phase = .ended ↔ (s.handler i).phase = .ended)) :
    t.busy = s.busy := by
  ext i
  rw [mem_busy, mem_busy, hcount, ne_eq, ne_eq, hphase]

theorem State.busy_set {i : Nat} {handler : Handler}
    (hphase : handler.phase = .ended ↔ (s.handler i).phase = .ended) :
    (s.set i handler).busy = s.busy := by
  refine busy_congr rfl fun j => ?_
  unfold State.set
  rcases eq_or_ne j i with rfl | hne
  · simpa using hphase
  · simp [hne]

/-- Only a handler that ends gives a slot back. -/
theorem State.handle_busy (s : State) (i : Nat) (ok : Bool) :
    (s.handle i ok).busy = s.busy ∧ (s.handle i ok).slots = s.slots ∨
      (s.handler i).phase = .discarded ∧ (s.handle i ok).busy = s.busy.erase i ∧
        (s.handle i ok).slots = s.slots + 1 := by
  have hset : ∀ handler : Handler, handler.phase ≠ .ended → (s.handler i).phase ≠ .ended →
      (s.set i handler).busy = s.busy :=
    fun handler hnew hold => busy_set (iff_of_false hnew hold)
  have hreap : ∀ phase : Phase, phase ≠ .ended → (s.handler i).phase ≠ .ended →
      ((s.reap i).goTo i phase).busy = s.busy := by
    intro phase hnew hold
    rw [reap_goTo]
    exact hset _ hnew hold
  unfold State.handle
  split
  · exact .inl ⟨rfl, rfl⟩
  · next hphase =>
      rw [hphase] at hset
      split
      · exact .inl ⟨hset _ (by simp) (by simp), rfl⟩
      · exact .inl ⟨hset _ (by simp) (by simp), rfl⟩
  · next hphase =>
      rw [hphase] at hset
      exact .inl ⟨hset _ (by simp) (by simp), rfl⟩
  · next hphase =>
      rw [hphase] at hset hreap
      split
      · split
        · exact .inl ⟨rfl, rfl⟩
        · exact .inl ⟨hset _ (by simp) (by simp), rfl⟩
      · exact .inl ⟨hreap _ (by simp) (by simp), rfl⟩
  · next hphase =>
      rw [hphase] at hset
      exact .inl ⟨hset _ (by simp) (by simp), rfl⟩
  · next hphase =>
      rw [hphase] at hreap
      split
      · exact .inl ⟨rfl, rfl⟩
      · exact .inl ⟨hreap _ (by simp) (by simp), rfl⟩
  · next hphase =>
      rw [hphase] at hset
      exact .inl ⟨hset _ (by simp) (by simp), rfl⟩
  · next hphase =>
      rw [hphase] at hset
      exact .inl ⟨hset _ (by simp) (by simp), rfl⟩
  · next hphase =>
      rw [hphase] at hset
      exact .inl ⟨hset _ (by simp) (by simp), rfl⟩
  · next hphase =>
      refine .inr ⟨hphase, ?_, rfl⟩
      ext j
      rw [Finset.mem_erase, mem_busy, mem_busy]
      rcases eq_or_ne j i with rfl | hne
      · simp [goTo, State.set]
      · simp [goTo, State.set, hne]
  · exact .inl ⟨rfl, rfl⟩

theorem State.handle_serve (s : State) (i : Nat) (ok : Bool) :
    (s.handle i ok).serve = s.serve ∧ (s.handle i ok).stopping = s.stopping ∧
      (s.handle i ok).count = s.count ∧ (s.handle i ok).timedOut = s.timedOut := by
  unfold State.handle
  split
  all_goals try (split <;> try split)
  all_goals exact ⟨rfl, rfl, rfl, rfl⟩

theorem State.Balanced.handle (h : s.Balanced) (hsound : s.Sound) (i : Nat) (ok : Bool) :
    (s.handle i ok).Balanced := by
  unfold State.Balanced at h ⊢
  rw [(s.handle_serve i ok).1]
  rcases s.handle_busy i ok with ⟨hbusy, hslots⟩ | ⟨hphase, hbusy, hslots⟩
  · rw [hbusy, hslots]
    exact h
  · have hmem : i ∈ s.busy := State.mem_busy.mpr
      ⟨hsound.made (by rw [hphase]; decide), by rw [hphase]; decide⟩
    have hcard := Finset.card_erase_add_one hmem
    rw [hbusy, hslots]
    omega

theorem State.Balanced.serving (h : s.Balanced) (accepted : Accepted) (starts : Bool)
    (hunstarted : ∀ i, s.serve = .registered i → (s.handler i).phase = .unstarted) :
    (s.serving accepted starts).Balanced := by
  unfold State.Balanced at h ⊢
  unfold State.serving
  split
  · exact h
  · next hserve =>
      rw [hserve] at h
      cases hflag : s.isFlagged <;> exact h
  · next hserve =>
      rw [hserve] at h
      cases accepted
      · exact h
      · exact h
      · cases hflag : s.isFlagged <;> exact h
  · next hserve =>
      rw [hserve] at h
      split
      · exact h
      · next hslots =>
          change s.slots - 1 + s.busy.card + 1 = maxRequests
          change s.slots + s.busy.card + 0 = maxRequests at h
          omega
  · next hserve =>
      rw [hserve] at h
      have hnot : s.count ∉ s.busy := fun hmem => absurd (mem_busy.mp hmem).1 (Nat.lt_irrefl _)
      have hbusy : ({ s.set s.count { connected := true } with
          serve := .registered s.count
          count := s.count + 1
          handlers := s.count :: s.handlers
          connections := s.count :: s.connections } : State).busy = insert s.count s.busy := by
        ext j
        rw [Finset.mem_insert, mem_busy, mem_busy]
        rcases eq_or_ne j s.count with rfl | hne
        · simp [State.set]
        · have hlt : j < s.count + 1 ↔ j < s.count := by omega
          simp [State.set, hne, hlt]
      rw [hbusy, Finset.card_insert_of_notMem hnot]
      change s.slots + (s.busy.card + 1) + 0 = maxRequests
      change s.slots + s.busy.card + 1 = maxRequests at h
      omega
  · next i hserve =>
      rw [hserve] at h
      split
      · have hbusy : (s.goTo i .serving).busy = s.busy :=
          busy_set (iff_of_false (by simp) (by rw [hunstarted i hserve]; simp))
        change s.slots + (s.goTo i .serving).busy.card + 0 = maxRequests
        rw [hbusy]
        exact h
      · exact h
  · exact h

theorem State.handle_other (s : State) {i j : Nat} (ok : Bool) (hne : j ≠ i) :
    (s.handle i ok).handler j = s.handler j := by
  unfold State.handle
  split
  all_goals try (split <;> try split)
  all_goals simp [goTo, set, kill, reap, hne]

theorem State.serving_registered (s : State) (accepted : Accepted) (starts : Bool) {i : Nat}
    (h : (s.serving accepted starts).serve = .registered i) :
    i < (s.serving accepted starts).count ∧
      ((s.serving accepted starts).handler i).phase = .unstarted := by
  unfold State.serving at h ⊢
  cases hserve : s.serve with
  | admitted =>
      rw [hserve] at h
      cases h
      exact ⟨Nat.lt_succ_self _, by simp [set]⟩
  | accepting =>
      rw [hserve] at h
      cases accepted with
      | error => cases hflag : s.isFlagged <;> simp [hflag] at h
      | _ => cases h
  | looking =>
      rw [hserve] at h
      cases hflag : s.isFlagged <;> simp [hflag] at h
  | accepted =>
      rw [hserve] at h
      dsimp only at h
      split at h <;> cases h
  | registered j =>
      rw [hserve] at h
      cases starts <;> cases h
  | unstarted =>
      rw [hserve] at h
      rw [hserve] at h
      cases h
  | ended =>
      rw [hserve] at h
      rw [hserve] at h
      cases h

theorem State.handle_registered (s : State) (i : Nat) (ok : Bool) {j : Nat}
    (h : (s.handler j).phase = .unstarted) :
    ((s.handle i ok).handler j).phase = .unstarted := by
  rcases eq_or_ne j i with rfl | hne
  · simp [State.handle, h]
  · rw [s.handle_other ok hne, h]

theorem State.exits_handler (s : State) (i j : Nat) :
    ((s.exits i).handler j).phase = (s.handler j).phase := by
  unfold State.exits
  split
  · unfold State.set
    rcases eq_or_ne j i with rfl | hne
    · simp
    · simp [hne]
  · rfl

theorem State.exits_frame (s : State) (i : Nat) :
    (s.exits i).serve = s.serve ∧ (s.exits i).count = s.count ∧ (s.exits i).slots = s.slots ∧
      (s.exits i).stopping = s.stopping ∧ (s.exits i).timedOut = s.timedOut := by
  unfold State.exits
  split <;> exact ⟨rfl, rfl, rfl, rfl, rfl⟩

/-! ## The runs of the service -/

/-- What every run keeps of the handlers and the slots. -/
structure Served (s : State) : Prop where
  sound : s.Sound
  balanced : s.Balanced
  registered : ∀ i, s.serve = .registered i → i < s.count ∧ (s.handler i).phase = .unstarted

theorem served_initial : Served {} where
  sound := sound_initial
  balanced := rfl
  registered _ h := by cases h

/-- A step that changes neither what `Balanced` counts nor the accepting thread. -/
theorem Served.frame {t : State} (h : Served s) (hsound : t.Sound) (hserve : t.serve = s.serve)
    (hcount : t.count = s.count) (hslots : t.slots = s.slots)
    (hphase : ∀ i, (t.handler i).phase = (s.handler i).phase) : Served t := by
  have hbusy : t.busy = s.busy := State.busy_congr hcount fun i => by rw [hphase]
  refine ⟨hsound, ?_, fun i hi => ?_⟩
  · unfold State.Balanced
    rw [hbusy, hslots, hserve]
    exact h.balanced
  · rw [hcount, hphase]
    exact h.registered i (hserve ▸ hi)

theorem Served.step (h : Served s) (e : Event) : Served (step s e) := by
  cases e with
  | start =>
      unfold Service.step
      dsimp only
      split
      · next hserve =>
          have hbalanced := h.balanced
          unfold State.Balanced at hbalanced
          rw [hserve] at hbalanced
          exact ⟨h.sound, hbalanced, fun i hi => (by cases hi)⟩
      · exact h
  | serve accepted starts =>
      exact {
        sound := h.sound.serving accepted starts h.registered
        balanced := h.balanced.serving accepted starts fun i hi => (h.registered i hi).2
        registered := fun i hi => s.serving_registered accepted starts hi }
  | handle i ok =>
      obtain ⟨hserve, -, hcount, -⟩ := s.handle_serve i ok
      refine ⟨h.sound.handle i ok, h.balanced.handle h.sound i ok, fun j hj => ?_⟩
      obtain ⟨hmade, hphase⟩ := h.registered j (hserve ▸ hj)
      exact ⟨hcount ▸ hmade, s.handle_registered i ok hphase⟩
  | exits i =>
      obtain ⟨hserve, hcount, hslots, -⟩ := s.exits_frame i
      exact h.frame (h.sound.exits i) hserve hcount hslots (s.exits_handler i)
  | stop expired =>
      obtain ⟨hserve, hslots, hcount, -⟩ := s.stop_frame expired
      exact h.frame (h.sound.stop expired) hserve hcount hslots fun i =>
        (s.stop_handler expired i).1

theorem served_reachable (h : Reachable step {} s) : Served s :=
  h.invariant served_initial fun _ e ht _ => ht.step e

/-- No more requests are served at a time than there are slots. What is connected or has a
worker is served, and no slot is given back that was not taken. -/
theorem requests_bounded (h : Reachable step {} s) :
    s.slots + s.busy.card ≤ maxRequests ∧
      (∀ i, (s.handler i).connected = true ∨ (s.handler i).worker.unreaped = true →
        i ∈ s.busy) ∧
      ∀ i, (s.handler i).phase = .discarded → s.slots < maxRequests := by
  have hinv := served_reachable h
  have hbalanced := hinv.balanced
  unfold State.Balanced at hbalanced
  refine ⟨by omega, fun i hi => ?_, fun i hi => ?_⟩
  · obtain ⟨hfresh, -, -, -, hworks, hconnects⟩ := hinv.sound i
    rw [State.mem_busy]
    constructor
    · by_contra hmade
      obtain ⟨hphase, hclosed⟩ := hfresh hmade
      rcases hi with hopen | hrun
      · rw [hclosed] at hopen
        cases hopen
      · rw [hphase] at hworks
        cases hworks hrun
    · intro hended
      rw [hended] at hworks hconnects
      rcases hi with hopen | hrun
      · cases hconnects hopen
      · cases hworks hrun
  · have hmem : i ∈ s.busy := State.mem_busy.mpr
      ⟨hinv.sound.made (by rw [hi]; decide), by rw [hi]; decide⟩
    have hcard := Finset.card_pos.mpr ⟨i, hmem⟩
    omega

def ran (events : List Event) : State := events.foldl step {}

theorem ran_reachable (events : List Event) : Reachable step {} (ran events) :=
  Guarded.run events _

/-- One request, up to where its handler waits for a worker. -/
def waitingRun : List Event :=
  .start :: List.replicate 5 (.serve .connection true) ++ List.replicate 2 (.handle 0 true)

theorem requests_bounded_waiting :
    (ran waitingRun).slots + (ran waitingRun).busy.card ≤ maxRequests ∧
      0 ∈ (ran waitingRun).busy := by
  have hbounded := requests_bounded (ran_reachable waitingRun)
  exact ⟨hbounded.1, hbounded.2.1 0 (.inl (by decide))⟩

end Spaces.Authentication.Service
