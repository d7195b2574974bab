import Spaces.Authentication.Service

/-!
# Stopping the authentication service

`stop` looks up the handlers after the accepting thread has ended, so that it misses none,
and when it has joined them all nothing is left. It waits for each of its threads and
processes only so long, and so it comes to its end whatever they do; a wait that was given
up is the one reason for something to outlast it.

The workers are looked up earlier than they are killed. A handler may have waited for one
of them in between, and then the signal goes to a number that is free, or to whoever has
it. Before `stop` kills, nobody is killed who has been waited for.
-/

namespace Spaces.Authentication.Service

open Spaces.Library

variable {s : State}

theorem State.serving_frame (s : State) (accepted : Accepted) (starts : Bool) :
    (s.serving accepted starts).stopping = s.stopping ∧
      (s.serving accepted starts).timedOut = s.timedOut := by
  unfold State.serving
  split
  all_goals try (split <;> try split)
  all_goals exact ⟨rfl, rfl⟩

/-! ## The kills -/

/-- `_WorkerPool.stop` has begun to kill. -/
def Stop.kills : Stop → Bool
  | killing _ _ _ => true
  | reaping _ _ => true
  | joining _ => true
  | returned => true
  | raised => true
  | _ => false

/-- Nobody else has waited for a handler's worker, and who was killed was still there. -/
structure State.Aimed (s : State) : Prop where
  works : ∀ i, (s.handler i).phase.works = true → (s.handler i).worker.unreaped = true
  kills : ∀ kill ∈ s.kills, kill.2.unreaped = true

theorem State.Aimed.set (h : s.Aimed) {i : Nat} {handler : Handler}
    (hworks : handler.phase.works = true → handler.worker.unreaped = true) :
    (s.set i handler).Aimed where
  works j := by
    unfold State.set
    rcases eq_or_ne j i with rfl | hne
    · simpa using hworks
    · simpa [hne] using h.works j
  kills := h.kills

theorem State.Aimed.handle (h : s.Aimed) (i : Nat) (ok : Bool) : (s.handle i ok).Aimed := by
  have hworks := h.works i
  have hset : ∀ handler : Handler,
      (handler.phase.works = true → handler.worker.unreaped = true) → (s.set i handler).Aimed :=
    fun _ hnew => h.set hnew
  have hidle : ∀ handler : Handler, handler.phase.works = false → (s.set i handler).Aimed :=
    fun handler hphase => hset handler fun hon => by
      rw [hphase] at hon
      cases hon
  have hsame : ∀ handler : Handler, (s.handler i).phase.works = true →
      handler.worker = (s.handler i).worker → (s.set i handler).Aimed :=
    fun handler hphase hworker => hset handler fun _ => hworker ▸ hworks hphase
  unfold State.handle
  split
  · exact h
  · split
    · exact hset _ fun _ => rfl
    · exact hidle _ rfl
  · next hphase =>
      have hgo := hsame { s.handler i with phase := .waiting } (by rw [hphase]; rfl) rfl
      exact ⟨hgo.works, hgo.kills⟩
  · next hphase =>
      split
      · split
        · exact h
        · exact hsame _ (by rw [hphase]; rfl) rfl
      · rw [reap_goTo]
        exact hidle _ rfl
  · next hphase =>
      rw [hphase] at hworks
      have hgo := hsame { s.handler i with phase := .killed } (by rw [hphase]; rfl) rfl
      refine ⟨hgo.works, fun kill hkill => ?_⟩
      rcases List.mem_cons.mp hkill with rfl | hkill
      · exact hworks rfl
      · exact h.kills kill hkill
  · split
    · exact h
    · rw [reap_goTo]
      exact hidle _ rfl
  · have hgo := hidle { s.handler i with phase := .leaving } rfl
    exact ⟨hgo.works, hgo.kills⟩
  · exact hidle _ rfl
  · have hgo := hidle { s.handler i with phase := .discarded } rfl
    exact ⟨hgo.works, hgo.kills⟩
  · have hgo := hidle { s.handler i with phase := .ended } rfl
    exact ⟨hgo.works, hgo.kills⟩
  · exact h

theorem State.Aimed.exits (h : s.Aimed) (i : Nat) : (s.exits i).Aimed := by
  unfold State.exits
  split
  · exact h.set fun _ => rfl
  · exact h

theorem State.Aimed.serving (h : s.Aimed) (accepted : Accepted) (starts : Bool) :
    (s.serving accepted starts).Aimed := by
  have hidle : ∀ (i : Nat) (handler : Handler), handler.phase.works = false →
      (s.set i handler).Aimed := fun i handler hphase => h.set fun hon => by
    rw [hphase] at hon
    cases hon
  unfold State.serving
  split
  · exact h
  · exact ⟨h.works, h.kills⟩
  · cases accepted <;> exact ⟨h.works, h.kills⟩
  · split <;> exact ⟨h.works, h.kills⟩
  · have hnew := hidle s.count { connected := true } rfl
    exact ⟨hnew.works, hnew.kills⟩
  · next i _ =>
      split
      · have hgo := hidle i { s.handler i with phase := .serving } rfl
        exact ⟨hgo.works, hgo.kills⟩
      · exact ⟨h.works, h.kills⟩
  · exact h

theorem State.stop_kills (expired : Bool) (h : s.stopping.kills = true) :
    (s.stop expired).stopping.kills = true := by
  have hsame : s.stopping.kills = true := h
  unfold State.stop
  cases hstopping : s.stopping with
  | killing handlers processes rest => cases rest <;> rfl
  | reaping handlers processes =>
      cases processes with
      | nil => rfl
      | cons i processes =>
          dsimp only
          split
          · split
            · rfl
            · exact hsame
          · rfl
  | joining handlers =>
      cases handlers with
      | nil => rfl
      | cons i handlers =>
          dsimp only
          split
          · rfl
          · rfl
          · split
            · rfl
            · exact hsame
  | returned => exact hsame
  | raised => exact hsame
  | _ =>
      rw [hstopping] at h
      cases h

/-- Until it kills, `stop` does nothing to a worker. -/
theorem State.Aimed.stop (h : s.Aimed) (hbefore : s.stopping.kills = false) (expired : Bool) :
    (s.stop expired).Aimed := by
  unfold State.stop
  cases hstopping : s.stopping with
  | uncalled => exact ⟨h.works, h.kills⟩
  | flagged =>
      dsimp only
      split
      · exact ⟨h.works, h.kills⟩
      · split
        · exact ⟨h.works, h.kills⟩
        · exact h
  | joined => exact ⟨h.works, h.kills⟩
  | shutting handlers connections =>
      cases connections with
      | nil => exact ⟨h.works, h.kills⟩
      | cons i connections =>
          have hset : (s.set i { s.handler i with connected := false }).Aimed :=
            h.set (h.works i)
          exact ⟨hset.works, hset.kills⟩
  | shut handlers => exact ⟨h.works, h.kills⟩
  | killing handlers processes rest =>
      rw [hstopping] at hbefore
      cases hbefore
  | reaping handlers processes =>
      rw [hstopping] at hbefore
      cases hbefore
  | joining handlers =>
      rw [hstopping] at hbefore
      cases hbefore
  | returned => exact h
  | raised => exact h

/-- What is known until `stop` kills. -/
def State.Unstopped (s : State) : Prop := s.stopping.kills = false → s.Aimed

theorem State.Unstopped.step (h : s.Unstopped) (e : Event) : (step s e).Unstopped := by
  intro hstop
  cases e with
  | start =>
      unfold Service.step at hstop ⊢
      dsimp only at hstop ⊢
      split
      · next hserve =>
          rw [if_pos hserve] at hstop
          exact ⟨(h hstop).works, (h hstop).kills⟩
      · next hserve =>
          rw [if_neg hserve] at hstop
          exact h hstop
  | serve accepted starts =>
      exact (h ((s.serving_frame accepted starts).1 ▸ hstop)).serving accepted starts
  | handle i ok => exact (h ((s.handle_serve i ok).2.1 ▸ hstop)).handle i ok
  | exits i => exact (h ((s.exits_frame i).2.2.2.1 ▸ hstop)).exits i
  | stop expired =>
      have hbefore : s.stopping.kills = false := by
        by_contra hon
        rw [Bool.not_eq_false] at hon
        exact Bool.false_ne_true (hstop.symm.trans (s.stop_kills expired hon))
      exact (h hbefore).stop hbefore expired

theorem unstopped_reachable (h : Reachable step {} s) : s.Unstopped := by
  have hinitial : State.Unstopped {} :=
    fun _ => ⟨fun _ h => (by cases h), fun _ h => absurd h List.not_mem_nil⟩
  exact h.invariant hinitial fun _ e ht _ => ht.step e

/-- A process that was killed before `stop` begins to kill was there to be killed. -/
theorem kills_aimed (h : Reachable step {} s) (hstop : s.stopping.kills = false) :
    ∀ kill ∈ s.kills, kill.2.unreaped = true :=
  (unstopped_reachable h hstop).kills

/-- The handler kills its worker when it is overdue. -/
def overdueRun : List Event := waitingRun ++ List.replicate 2 (.handle 0 false)

theorem kills_aimed_overdue :
    (ran overdueRun).kills = [(0, .running)] ∧ Worker.running.unreaped = true := by
  have hkills : (ran overdueRun).kills = [(0, .running)] := by decide
  refine ⟨hkills, kills_aimed (ran_reachable overdueRun) (by decide) (0, .running) ?_⟩
  rw [hkills]
  exact List.mem_cons_self

/-- Up to where `stop` has looked the workers up. -/
def lookedUp : List Event :=
  waitingRun ++ .stop false :: .serve .timeout true :: List.replicate 5 (.stop false)

def reapedRun : List Event := lookedUp ++ [.exits 0, .handle 0 true, .stop false]

-- `stop` may kill what has been waited for since it looked: the number is free by then
example : (ran reapedRun).kills = [(0, .reaped)] := by decide

/-! ## What `stop` leaves -/

namespace Stop

/-- The handlers that are still to be joined, once they have been looked up. -/
def remaining : Stop → Option (List Nat)
  | shutting handlers _ => some handlers
  | shut handlers => some handlers
  | killing handlers _ _ => some handlers
  | reaping handlers _ => some handlers
  | joining handlers => some handlers
  | returned => some []
  | _ => none

/-- The wait for the accepting thread is over. -/
def waited : Stop → Bool
  | uncalled => false
  | flagged => false
  | _ => true

end Stop

/-- No handler will come of where the accepting thread is, when it is to stop. -/
def Serve.quiet : Serve → Bool
  | unstarted => true
  | looking => true
  | ended => true
  | _ => false

/-- As long as no wait of `stop` was given up: when the accepting thread has been waited
for there are no new handlers, and each that is listed is still to be joined. -/
structure State.Orderly (s : State) : Prop where
  quiet : s.stopping.waited = true → s.serve.quiet = true
  listed : ∀ handlers, s.stopping.remaining = some handlers → ∀ i < s.count,
    (s.handler i).phase.listed = true → i ∈ handlers

/-- A handler that is no longer listed is not listed again. -/
theorem State.handle_listed (s : State) (i : Nat) (ok : Bool) {j : Nat}
    (h : ((s.handle i ok).handler j).phase.listed = true) :
    (s.handler j).phase.listed = true := by
  rcases eq_or_ne j i with rfl | hne
  · cases hphase : (s.handler j).phase with
    | discarded => simp [State.handle, hphase, goTo, set, Phase.listed] at h
    | ended => simp [State.handle, hphase, Phase.listed] at h
    | _ => rfl
  · rwa [s.handle_other ok hne] at h

theorem State.Orderly.handle (h : s.Orderly) (i : Nat) (ok : Bool) : (s.handle i ok).Orderly := by
  obtain ⟨hserve, hstopping, hcount, -⟩ := s.handle_serve i ok
  constructor
  · rw [hserve, hstopping]
    exact h.quiet
  · rw [hstopping, hcount]
    exact fun handlers hremaining j hj hlisted =>
      h.listed handlers hremaining j hj (s.handle_listed i ok hlisted)

theorem State.Orderly.serving (h : s.Orderly) (accepted : Accepted) (starts : Bool) :
    (s.serving accepted starts).Orderly := by
  have hstopping : (s.serving accepted starts).stopping = s.stopping := by
    unfold State.serving
    split
    all_goals try (split <;> try split)
    all_goals rfl
  cases hwaited : s.stopping.waited with
  | false =>
      have hremaining : s.stopping.remaining = none := by
        cases hstop : s.stopping <;> rw [hstop] at hwaited <;> first | rfl | cases hwaited
      constructor
      · rw [hstopping, hwaited]
        exact fun hon => absurd hon Bool.false_ne_true
      · rw [hstopping, hremaining]
        exact fun _ hsome => by cases hsome
  | true =>
      -- the flag is set, so that the thread ends when it looks at it
      have hquiet := h.quiet hwaited
      have hcalled : s.stopping ≠ .uncalled := fun hstop => by
        rw [hstop] at hwaited
        cases hwaited
      have hflagged : s.isFlagged = true := by simpa [State.isFlagged] using hcalled
      unfold State.serving
      cases hserve : s.serve with
      | unstarted => exact h
      | looking =>
          refine ⟨fun _ => ?_, h.listed⟩
          simp [hflagged, Serve.quiet]
      | ended => exact h
      | _ =>
          rw [hserve] at hquiet
          cases hquiet

theorem State.Orderly.exits (h : s.Orderly) (i : Nat) : (s.exits i).Orderly := by
  unfold State.exits
  split
  · refine ⟨h.quiet, fun handlers hremaining j hj hlisted => h.listed handlers hremaining j hj ?_⟩
    unfold State.set at hlisted
    rcases eq_or_ne j i with rfl | hne
    · simpa using hlisted
    · simpa [hne] using hlisted
  · exact h

theorem State.stop_timedOut (expired : Bool) (h : (s.stop expired).timedOut = false) :
    s.timedOut = false := by
  unfold State.stop at h
  split at h
  all_goals try (split at h <;> try split at h)
  all_goals first | exact h | cases h

/-- The handlers that are still to be joined stay, or they are listed no longer. -/
theorem State.Orderly.goOn {t : State} (h : s.Orderly) (hserve : t.serve = s.serve)
    (hcount : t.count = s.count) (hphase : ∀ i, (t.handler i).phase = (s.handler i).phase)
    (hwaited : t.stopping.waited = true → s.stopping.waited = true)
    (hremaining : ∀ handlers, t.stopping.remaining = some handlers →
      ∃ before, s.stopping.remaining = some before ∧
        ∀ i ∈ before, (s.handler i).phase.listed = true → i ∈ handlers) : t.Orderly := by
  constructor
  · rw [hserve]
    exact fun hon => h.quiet (hwaited hon)
  · intro handlers hsome i hi hlisted
    rw [hcount] at hi
    rw [hphase] at hlisted
    obtain ⟨before, hbefore, hkept⟩ := hremaining handlers hsome
    exact hkept i (h.listed before hbefore i hi hlisted) hlisted

theorem State.Orderly.stop (h : s.Orderly) (hsound : s.Sound) (expired : Bool)
    (htime : (s.stop expired).timedOut = false) : (s.stop expired).Orderly := by
  obtain ⟨hserve, -, hcount, -⟩ := s.stop_frame expired
  have hphase := fun i => (s.stop_handler expired i).1
  have hgo := h.goOn hserve hcount hphase
  -- a step that takes down nothing that is to be joined
  have hkeep : ∀ handlers : List Nat, s.stopping.remaining = some handlers →
      (s.stop expired).stopping.remaining = some handlers →
      s.stopping.waited = true → (s.stop expired).Orderly := by
    intro handlers hbefore hafter hwaited
    refine hgo (fun _ => hwaited) fun after hsome => ⟨handlers, hbefore, fun i hi _ => ?_⟩
    rw [hafter] at hsome
    cases hsome
    exact hi
  have hstay : (s.stop expired).stopping = s.stopping → (s.stop expired).Orderly := by
    intro hsame
    refine hgo (fun hon => hsame ▸ hon) fun after hsome => ⟨after, hsame ▸ hsome, fun i hi _ => hi⟩
  cases hstopping : s.stopping with
  | uncalled =>
      have hto : (s.stop expired).stopping = .flagged := by simp [State.stop, hstopping]
      rw [hto] at hgo
      exact hgo (fun hon => by cases hon) fun _ hsome => by cases hsome
  | flagged =>
      by_cases hended : s.serve = .unstarted ∨ s.serve = .ended
      · have hto : (s.stop expired).stopping = .joined := by simp [State.stop, hstopping, hended]
        refine ⟨fun _ => ?_, fun _ hsome => ?_⟩
        · rw [hserve]
          rcases hended with hended | hended <;> rw [hended] <;> rfl
        · rw [hto] at hsome
          cases hsome
      · cases expired with
        | false => exact hstay (by simp [State.stop, hstopping, hended])
        | true => simp [State.stop, hstopping, hended] at htime
  | joined =>
      have hto : (s.stop expired).stopping = .shutting s.handlers s.connections := by
        simp [State.stop, hstopping]
      constructor
      · rw [hserve]
        exact fun _ => h.quiet (by rw [hstopping]; rfl)
      · intro handlers hsome i hi hlisted
        rw [hto] at hsome
        cases hsome
        rw [hcount] at hi
        rw [hphase] at hlisted
        exact (hsound i).listed_iff.mpr ⟨hi, hlisted⟩
  | shutting handlers connections =>
      refine hkeep handlers (by rw [hstopping]; rfl) ?_ (by rw [hstopping]; rfl)
      cases connections <;> simp [State.stop, hstopping, Stop.remaining]
  | shut handlers =>
      refine hkeep handlers (by rw [hstopping]; rfl) ?_ (by rw [hstopping]; rfl)
      simp [State.stop, hstopping, Stop.remaining]
  | killing handlers processes rest =>
      refine hkeep handlers (by rw [hstopping]; rfl) ?_ (by rw [hstopping]; rfl)
      cases rest <;> simp [State.stop, hstopping, Stop.remaining]
  | reaping handlers processes =>
      cases processes with
      | nil =>
          refine hkeep handlers (by rw [hstopping]; rfl) ?_ (by rw [hstopping]; rfl)
          simp [State.stop, hstopping, Stop.remaining]
      | cons i processes =>
          cases hrunning : s.isRunning i with
          | false =>
              refine hkeep handlers (by rw [hstopping]; rfl) ?_
                (by rw [hstopping]; rfl)
              simp [State.stop, hstopping, hrunning, Stop.remaining]
          | true =>
              cases expired with
              | false => exact hstay (by simp [State.stop, hstopping, hrunning])
              | true => simp [State.stop, hstopping, hrunning] at htime
  | joining handlers =>
      cases handlers with
      | nil =>
          refine hkeep [] (by rw [hstopping]; rfl) ?_ (by rw [hstopping]; rfl)
          simp [State.stop, hstopping, Stop.remaining]
      | cons i handlers =>
          cases hi : (s.handler i).phase with
          | unstarted =>
              have hto : (s.stop expired).stopping = .raised := by simp [State.stop, hstopping, hi]
              rw [hto] at hgo
              exact hgo (fun _ => by rw [hstopping]; rfl) fun _ hsome => by cases hsome
          | ended =>
              have hto : (s.stop expired).stopping = .joining handlers := by
                simp [State.stop, hstopping, hi]
              rw [hto] at hgo
              refine hgo (fun _ => by rw [hstopping]; rfl) fun after hsome =>
                ⟨i :: handlers, by rw [hstopping]; rfl, fun j hj hlisted => ?_⟩
              cases hsome
              rcases List.mem_cons.mp hj with rfl | hj
              · rw [hi] at hlisted
                cases hlisted
              · exact hj
          | _ =>
              cases expired with
              | false => exact hstay (by simp [State.stop, hstopping, hi])
              | true => simp [State.stop, hstopping, hi] at htime
  | returned => exact hstay (by simp [State.stop, hstopping])
  | raised => exact hstay (by simp [State.stop, hstopping])

/-! ## The runs that are stopped -/

/-- What is known of a run in which no wait of `stop` has been given up. -/
structure Inv (s : State) : Prop where
  served : Served s
  orderly : s.timedOut = false → s.Orderly

theorem Inv.step (h : Inv s) (e : Event) : Inv (step s e) := by
  refine ⟨h.served.step e, fun htime => ?_⟩
  cases e with
  | start =>
      unfold Service.step at htime ⊢
      dsimp only at htime ⊢
      split
      · next hserve =>
          rw [if_pos hserve] at htime
          exact ⟨fun _ => rfl, (h.orderly htime).listed⟩
      · next hserve =>
          rw [if_neg hserve] at htime
          exact h.orderly htime
  | serve accepted starts =>
      exact (h.orderly ((s.serving_frame accepted starts).2 ▸ htime)).serving accepted starts
  | handle i ok => exact (h.orderly ((s.handle_serve i ok).2.2.2 ▸ htime)).handle i ok
  | exits i => exact (h.orderly ((s.exits_frame i).2.2.2.2 ▸ htime)).exits i
  | stop expired =>
      exact (h.orderly (s.stop_timedOut expired htime)).stop h.served.sound expired htime

theorem inv_reachable (h : Reachable step {} s) : Inv s := by
  have hinitial : Inv {} :=
    ⟨served_initial, fun _ => ⟨fun h => (by cases h), fun _ h => (by cases h)⟩⟩
  exact h.invariant hinitial fun _ e ht _ => ht.step e

/-- `stop` has returned, and none of its waits was given up. -/
structure Over (count : Nat) (s : State) : Prop where
  inv : Inv s
  stopping : s.stopping = .returned
  timedOut : s.timedOut = false
  count : s.count = count

theorem Over.step {count : Nat} (h : Over count s) (e : Event) : Over count (step s e) := by
  obtain ⟨hinv, hstopping, hnone, hcount⟩ := h
  cases e with
  | start =>
      have hsame : (Service.step s .start).stopping = s.stopping ∧
          (Service.step s .start).timedOut = s.timedOut ∧
          (Service.step s .start).count = s.count := by
        unfold Service.step
        dsimp only
        split
        · exact ⟨rfl, rfl, rfl⟩
        · exact ⟨rfl, rfl, rfl⟩
      exact ⟨hinv.step _, hsame.1.trans hstopping, hsame.2.1.trans hnone, hsame.2.2.trans hcount⟩
  | serve accepted starts =>
      obtain ⟨hsame, htimedOut⟩ := s.serving_frame accepted starts
      refine ⟨hinv.step _, hsame.trans hstopping, htimedOut.trans hnone, Eq.trans ?_ hcount⟩
      have hquiet := (hinv.orderly hnone).quiet (by rw [hstopping]; rfl)
      unfold Service.step State.serving
      dsimp only
      cases hserve : s.serve with
      | unstarted => rfl
      | looking => rfl
      | ended => rfl
      | _ =>
          rw [hserve] at hquiet
          cases hquiet
  | handle i ok =>
      obtain ⟨-, hsame, hmade, htimedOut⟩ := s.handle_serve i ok
      exact ⟨hinv.step _, hsame.trans hstopping, htimedOut.trans hnone, hmade.trans hcount⟩
  | exits i =>
      obtain ⟨-, hmade, -, hsame, htimedOut⟩ := s.exits_frame i
      exact ⟨hinv.step _, hsame.trans hstopping, htimedOut.trans hnone, hmade.trans hcount⟩
  | stop expired =>
      have hstay : Service.step s (.stop expired) = s := by
        simp [Service.step, State.stop, hstopping]
      rw [hstay]
      exact ⟨hinv, hstopping, hnone, hcount⟩

/-- When `stop` has returned, and none of its waits was given up, nothing is left of the
service, and nothing will come of it. -/
theorem stop_complete (h : Reachable step {} s) (hreturned : s.stopping = .returned)
    (htime : s.timedOut = false) {t : State} (ht : Reachable step s t) :
    t.count = s.count ∧ t.handlers = [] ∧ t.connections = [] ∧ t.processes = [] ∧
      ∀ i, (t.handler i).connected = false ∧ (t.handler i).worker.unreaped = false := by
  have hover : Over s.count t :=
    ht.invariant ⟨inv_reachable h, hreturned, htime, rfl⟩ fun _ e hu _ => hu.step e
  obtain ⟨hinv, hstopping, hnone, hcount⟩ := hover
  -- what was made is listed no longer, for nothing is left to be joined
  have hidle : ∀ i, ¬(i < t.count ∧ (t.handler i).phase.listed = true) := fun i hi =>
    absurd ((hinv.orderly hnone).listed [] (by rw [hstopping]; rfl) i hi.1 hi.2)
      List.not_mem_nil
  have hphase : ∀ i, (t.handler i).phase.pooled = false ∧ (t.handler i).phase.works = false ∧
      ((t.handler i).connected = true → False) := by
    intro i
    obtain ⟨hfresh, -, -, -, -, hconnects⟩ := hinv.served.sound i
    by_cases hmade : i < t.count
    · have hoff := fun hlisted => hidle i ⟨hmade, hlisted⟩
      cases hi : (t.handler i).phase <;> rw [hi] at hoff hconnects <;>
        first
          | exact absurd rfl hoff
          | exact ⟨rfl, rfl, fun hopen => Bool.false_ne_true (hconnects hopen)⟩
    · obtain ⟨hunstarted, hclosed⟩ := hfresh hmade
      rw [hunstarted, hclosed]
      exact ⟨rfl, rfl, Bool.false_ne_true⟩
  refine ⟨hcount, ?_, ?_, ?_, fun i => ⟨?_, ?_⟩⟩
  · exact List.eq_nil_iff_forall_not_mem.mpr fun i hi =>
      hidle i ((hinv.served.sound i).listed_iff.mp hi)
  · exact List.eq_nil_iff_forall_not_mem.mpr fun i hi =>
      hidle i ((hinv.served.sound i).linked_iff.mp hi)
  · refine List.eq_nil_iff_forall_not_mem.mpr fun i hi => ?_
    have hpooled := (hinv.served.sound i).pooled_iff.mp hi
    rw [(hphase i).1] at hpooled
    cases hpooled
  · exact Bool.eq_false_iff.mpr (hphase i).2.2
  · refine Bool.eq_false_iff.mpr fun hrun => ?_
    have hworks := (hinv.served.sound i).works hrun
    rw [(hphase i).2.1] at hworks
    cases hworks

/-- A run in which every wait of `stop` comes to its end. -/
def stoppedRun : List Event :=
  lookedUp ++ [.stop false, .stop false, .exits 0, .stop false, .stop false] ++
    List.replicate 5 (.handle 0 true) ++ [.stop false, .stop false]

theorem stop_complete_stopped :
    (ran stoppedRun).stopping = .returned ∧ (ran stoppedRun).count = 1 ∧
      (step (ran stoppedRun) (.serve .connection true)).count = 1 := by
  have hreturned : (ran stoppedRun).stopping = .returned := by decide
  have hcount : (ran stoppedRun).count = 1 := by decide
  have hnext : Reachable step (ran stoppedRun)
      (step (ran stoppedRun) (.serve .connection true)) := .step .start trivial
  have hcomplete := stop_complete (ran_reachable stoppedRun) hreturned (by decide) hnext
  exact ⟨hreturned, hcount, hcomplete.1.trans hcount⟩

/-! ## How long `stop` takes -/

/-- No set of the service has anything twice. -/
structure State.Distinct (s : State) : Prop where
  handlers : s.handlers.Nodup
  connections : s.connections.Nodup
  processes : s.processes.Nodup

theorem State.Distinct.handle (h : s.Distinct) (hsound : s.Sound) (i : Nat) (ok : Bool) :
    (s.handle i ok).Distinct := by
  obtain ⟨hhandlers, hconnections, hprocesses⟩ := h
  unfold State.handle
  cases hphase : (s.handler i).phase with
  | launched =>
      have hnot : i ∉ s.processes := fun hmem => by
        have hpooled := (hsound i).pooled_iff.mp hmem
        rw [hphase] at hpooled
        cases hpooled
      exact ⟨hhandlers, hconnections, List.nodup_cons.mpr ⟨hnot, hprocesses⟩⟩
  | reaped => exact ⟨hhandlers, hconnections, hprocesses.filter _⟩
  | closed => exact ⟨hhandlers.filter _, hconnections.filter _, hprocesses⟩
  | serving => cases ok <;> exact ⟨hhandlers, hconnections, hprocesses⟩
  | waiting =>
      cases hrunning : s.isRunning i <;> cases ok <;> exact ⟨hhandlers, hconnections, hprocesses⟩
  | killed => cases hrunning : s.isRunning i <;> exact ⟨hhandlers, hconnections, hprocesses⟩
  | _ => exact ⟨hhandlers, hconnections, hprocesses⟩

theorem State.Distinct.serving (h : s.Distinct) (hsound : s.Sound) (accepted : Accepted)
    (starts : Bool) : (s.serving accepted starts).Distinct := by
  obtain ⟨hhandlers, hconnections, hprocesses⟩ := h
  unfold State.serving
  split
  case h_5 =>
    have hlisted : s.count ∉ s.handlers := fun hmem =>
      Nat.lt_irrefl _ ((hsound _).listed_iff.mp hmem).1
    have hlinked : s.count ∉ s.connections := fun hmem =>
      Nat.lt_irrefl _ ((hsound _).linked_iff.mp hmem).1
    exact ⟨List.nodup_cons.mpr ⟨hlisted, hhandlers⟩,
      List.nodup_cons.mpr ⟨hlinked, hconnections⟩, hprocesses⟩
  all_goals try (split <;> try split)
  all_goals exact ⟨hhandlers, hconnections, hprocesses⟩

theorem State.Distinct.step (h : s.Distinct) (hsound : s.Sound) (e : Event) :
    (step s e).Distinct := by
  cases e with
  | start =>
      unfold Service.step
      dsimp only
      split <;> exact ⟨h.handlers, h.connections, h.processes⟩
  | serve accepted starts => exact h.serving hsound accepted starts
  | handle i ok => exact h.handle hsound i ok
  | exits i =>
      unfold Service.step State.exits
      dsimp only
      split <;> exact ⟨h.handlers, h.connections, h.processes⟩
  | stop expired =>
      obtain ⟨-, -, -, hhandlers, hconnections, hprocesses⟩ := s.stop_frame expired
      refine ⟨?_, ?_, ?_⟩
      · exact hhandlers ▸ h.handlers
      · exact hconnections ▸ h.connections
      · exact hprocesses ▸ h.processes

/-- Handlers that are not done are not more than there are slots. -/
theorem Served.length_le (h : Served s) {found : List Nat} (hdistinct : found.Nodup)
    (hfound : ∀ i ∈ found, i < s.count ∧ (s.handler i).phase ≠ .ended) :
    found.length ≤ maxRequests := by
  have hbalanced := h.balanced
  unfold State.Balanced at hbalanced
  have hsubset : found.toFinset ⊆ s.busy := fun i hi =>
    State.mem_busy.mpr (hfound i (List.mem_toFinset.mp hi))
  have hcard := Finset.card_le_card hsubset
  rw [List.toFinset_card_of_nodup hdistinct] at hcard
  omega

theorem Served.lengths (h : Served s) (hdistinct : s.Distinct) :
    s.handlers.length ≤ maxRequests ∧ s.connections.length ≤ maxRequests ∧
      s.processes.length ≤ maxRequests := by
  have hended : ∀ i, (s.handler i).phase.listed = true → (s.handler i).phase ≠ .ended := by
    intro i hlisted hended
    rw [hended] at hlisted
    cases hlisted
  refine ⟨h.length_le hdistinct.handlers fun i hi => ?_,
    h.length_le hdistinct.connections fun i hi => ?_,
    h.length_le hdistinct.processes fun i hi => ?_⟩
  · obtain ⟨hmade, hlisted⟩ := (h.sound i).listed_iff.mp hi
    exact ⟨hmade, hended i hlisted⟩
  · obtain ⟨hmade, hlisted⟩ := (h.sound i).linked_iff.mp hi
    exact ⟨hmade, hended i hlisted⟩
  · have hpooled := (h.sound i).pooled_iff.mp hi
    refine ⟨h.sound.made fun hphase => ?_, fun hphase => ?_⟩
    · rw [hphase] at hpooled
      cases hpooled
    · rw [hphase] at hpooled
      cases hpooled

/-- How many steps `stop` has left at most. -/
def Stop.left : Stop → Nat
  | uncalled => 4 * maxRequests + 8
  | flagged => 4 * maxRequests + 7
  | joined => 4 * maxRequests + 6
  | shutting handlers connections => connections.length + 2 * maxRequests + handlers.length + 5
  | shut handlers => 2 * maxRequests + handlers.length + 4
  | killing handlers processes rest => rest.length + processes.length + handlers.length + 3
  | reaping handlers processes => processes.length + handlers.length + 2
  | joining handlers => handlers.length + 1
  | returned => 0
  | raised => 0

/-- `stop` goes on, or it waits, and with its time over it waits for nothing. -/
theorem State.stop_left (hserved : Served s) (hdistinct : s.Distinct) (expired : Bool) :
    (s.stop expired).stopping.left < s.stopping.left ∨
      (s.stop expired).stopping = s.stopping ∧ (expired = true → s.stopping.left = 0) := by
  obtain ⟨hhandlers, hconnections, hprocesses⟩ := hserved.lengths hdistinct
  cases hstopping : s.stopping with
  | uncalled => exact .inl (by simp [State.stop, hstopping, Stop.left])
  | flagged =>
      by_cases hended : s.serve = .unstarted ∨ s.serve = .ended
      · exact .inl (by simp [State.stop, hstopping, hended, Stop.left])
      · cases expired with
        | true => exact .inl (by simp [State.stop, hstopping, hended, Stop.left])
        | false => exact .inr ⟨by simp [State.stop, hstopping, hended], fun hon => by cases hon⟩
  | joined =>
      left
      simp only [State.stop, hstopping, Stop.left]
      omega
  | shutting handlers connections =>
      left
      cases connections with
      | nil =>
          simp only [State.stop, hstopping, Stop.left, List.length_nil]
          omega
      | cons i connections => simp [State.stop, hstopping, Stop.left]
  | shut handlers =>
      left
      simp only [State.stop, hstopping, Stop.left]
      omega
  | killing handlers processes rest =>
      left
      cases rest with
      | nil =>
          simp only [State.stop, hstopping, Stop.left, List.length_nil]
          omega
      | cons i rest => simp [State.stop, hstopping, Stop.left]
  | reaping handlers processes =>
      cases processes with
      | nil => exact .inl (by simp [State.stop, hstopping, Stop.left])
      | cons i processes =>
          cases hrunning : s.isRunning i with
          | false => exact .inl (by simp [State.stop, hstopping, hrunning, Stop.left])
          | true =>
              cases expired with
              | true => exact .inl (by simp [State.stop, hstopping, hrunning, Stop.left])
              | false =>
                  exact .inr ⟨by simp [State.stop, hstopping, hrunning], fun hon => by cases hon⟩
  | joining handlers =>
      cases handlers with
      | nil => exact .inl (by simp [State.stop, hstopping, Stop.left])
      | cons i handlers =>
          cases hi : (s.handler i).phase with
          | unstarted => exact .inl (by simp [State.stop, hstopping, hi, Stop.left])
          | ended => exact .inl (by simp [State.stop, hstopping, hi, Stop.left])
          | _ =>
              cases expired with
              | true => exact .inl (by simp [State.stop, hstopping, hi, Stop.left])
              | false => exact .inr ⟨by simp [State.stop, hstopping, hi], fun hon => by cases hon⟩
  | returned => exact .inr ⟨by simp [State.stop, hstopping], fun _ => rfl⟩
  | raised => exact .inr ⟨by simp [State.stop, hstopping], fun _ => rfl⟩

/-- Only `stop` goes on with `stop`. -/
theorem step_stopping (s : State) {e : Event} (he : ∀ expired, e ≠ .stop expired) :
    (step s e).stopping = s.stopping := by
  cases e with
  | start =>
      unfold step
      dsimp only
      split <;> rfl
  | serve accepted starts => exact (s.serving_frame accepted starts).1
  | handle i ok => exact (s.handle_serve i ok).2.1
  | exits i => exact (s.exits_frame i).2.2.2.1
  | stop expired => exact absurd rfl (he expired)

/-- The time for what `stop` waits for is over. -/
def Event.expires : Event → Bool
  | stop expired => expired
  | _ => false

theorem distinct_reachable (h : Reachable step {} s) : Served s ∧ s.Distinct := by
  have hinitial : Served {} ∧ State.Distinct {} :=
    ⟨served_initial, List.nodup_nil, List.nodup_nil, List.nodup_nil⟩
  refine ⟨served_reachable h, ?_⟩
  induction h with
  | start => exact hinitial.2
  | step hrun _ ih => exact ih.step (served_reachable hrun).sound _

/-- What `stop` has left, and how often its time was over before. -/
theorem left_le (events : List Event) :
    (ran events).stopping.left + events.countP Event.expires ≤ 4 * maxRequests + 8 ∨
      (ran events).stopping.left = 0 := by
  induction events using List.reverseRecOn with
  | nil => exact .inl (Nat.le_refl _)
  | append_singleton events e ih =>
      have hran : ran (events ++ [e]) = step (ran events) e := by simp [ran]
      obtain ⟨hserved, hdistinct⟩ := distinct_reachable (ran_reachable events)
      rw [hran, List.countP_append, List.countP_singleton]
      by_cases he : ∃ expired, e = .stop expired
      · obtain ⟨expired, rfl⟩ := he
        change ((ran events).stop expired).stopping.left + _ ≤ _ ∨
          ((ran events).stop expired).stopping.left = 0
        rcases (ran events).stop_left hserved hdistinct expired with hless | ⟨hsame, hover⟩
        · rcases ih with ih | ih
          · left
            split <;> omega
          · omega
        · rw [hsame]
          cases expired with
          | true => exact .inr (hover rfl)
          | false => simpa [Event.expires] using ih
      · push Not at he
        have hnot : e.expires = false := by
          cases e with
          | stop expired => exact absurd rfl (he expired)
          | _ => rfl
        rw [step_stopping _ he, hnot]
        simpa using ih

/-- Whatever the other threads do, `stop` comes to its end when the time for its waits has
been over often enough. -/
theorem stop_ends (events : List Event)
    (h : 4 * maxRequests + 8 ≤ events.countP Event.expires) :
    (ran events).stopping = .returned ∨ (ran events).stopping = .raised := by
  have hleft : (ran events).stopping.left = 0 := by
    rcases left_le events with hle | hzero
    · omega
    · exact hzero
  cases hstopping : (ran events).stopping with
  | returned => exact .inl rfl
  | raised => exact .inr rfl
  | _ =>
      rw [hstopping, Stop.left] at hleft
      omega

/-- `stop` has waited for the thread that accepts, and a handler and its worker are left.
From there its time is over each time. -/
def hurriedRun : List Event := lookedUp ++ List.replicate (4 * maxRequests + 8) (.stop true)

theorem stop_ends_hurried :
    (ran lookedUp).stopping ≠ .returned ∧ (ran lookedUp).busy = {0} ∧
    ((ran hurriedRun).stopping = .returned ∨ (ran hurriedRun).stopping = .raised) := by
  have hcount : hurriedRun.countP Event.expires = 4 * maxRequests + 8 := by
    unfold hurriedRun
    rw [List.countP_append, List.countP_replicate]
    rfl
  exact ⟨by decide, by decide, stop_ends hurriedRun hcount.ge⟩

end Spaces.Authentication.Service
