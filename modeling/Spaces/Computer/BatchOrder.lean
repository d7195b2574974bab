import Spaces.Computer.Batch

/-!
# Batches are executed in order

No operation takes a cancellation or a seen lock back (`Later`), and `scuTick` fails
under both. So nothing is begun of the step after one in which they came up. The run
of a batch is `Executed`: states that each step leaves to the next one, up to the first
step that fails.
-/

namespace Spaces.Computer.Batch

open Spaces.Library Json
open Spaces.Mcp

variable {R α : Type} (host : Host R)

/-! ## What is not taken back -/

structure Later (s s' : Scu R) : Prop where
  cancelled : s.cancelled = true → s'.cancelled = true
  stopping : s.stopping = true → s'.stopping = true
  lockSeen : s.lockSeen = true → s'.lockSeen = true
  visionRequest : s.visionRequest = true → s'.visionRequest = true
  lockMonitor : s.lockMonitor = true → s'.lockMonitor = true
  session : s'.desktop.session = s.desktop.session

theorem Later.refl (s : Scu R) : Later s s := ⟨id, id, id, id, id, rfl⟩

theorem Later.trans (a b c : Scu R) (hab : Later a b) (hbc : Later b c) : Later a c where
  cancelled h := hbc.cancelled (hab.cancelled h)
  stopping h := hbc.stopping (hab.stopping h)
  lockSeen h := hbc.lockSeen (hab.lockSeen h)
  visionRequest h := hbc.visionRequest (hab.visionRequest h)
  lockMonitor h := hbc.lockMonitor (hab.lockMonitor h)
  session := hbc.session.trans hab.session

abbrev Kept (m : Attempt (Scu R) α) : Prop := Attempt.Grows Later m

theorem Kept.bind {β : Type} {m : Attempt (Scu R) α} {f : α → Attempt (Scu R) β} (hm : Kept m)
    (hf : ∀ a, Kept (f a)) : Kept (m >>= f) := Attempt.Grows.bind Later.trans hm hf

theorem Kept.pure (a : α) : Kept (Pure.pure a : Attempt (Scu R) α) :=
  Attempt.Grows.pure Later.refl a

theorem Kept.look : Kept (Attempt.look : Attempt (Scu R) (Scu R)) := Attempt.Grows.look Later.refl

theorem Kept.times {m : Attempt (Scu R) Unit} (h : Kept m) (n : Nat) : Kept (m.times n) :=
  Attempt.Grows.times Later.refl Later.trans h n

theorem Kept.ite {p : Prop} [Decidable p] {m m' : Attempt (Scu R) α} (h : Kept m) (h' : Kept m') :
    Kept (if p then m else m') := by
  split
  · exact h
  · exact h'

theorem later_checkLock (s : Scu R) : Later s (checkLock host s) := by
  unfold checkLock release
  split
  · exact Later.refl s
  · split
    · exact ⟨id, fun _ => rfl, id, id, id, rfl⟩
    · split
      · exact ⟨id, id, fun h => Bool.or_eq_true_iff.mpr (.inl h), id, id, rfl⟩
      · split
        · exact ⟨id, id, id, id, id, rfl⟩
        · exact Later.refl s

theorem later_handle (s : Scu R) (event : Event) : Later s (handle host s event) := by
  cases event with
  | cancelled | clientClosed => exact ⟨fun _ => rfl, id, id, id, id, rfl⟩
  | stopping => exact ⟨id, fun _ => rfl, id, id, id, rfl⟩
  | lockedHint locked => exact ⟨id, id, fun h => Bool.or_eq_true_iff.mpr (.inl h), id, id, rfl⟩
  | screenChanged locked =>
      refine Later.trans _ _ _ ?_ (later_checkLock host _)
      exact ⟨id, id, fun h => Bool.or_eq_true_iff.mpr (.inl h), id, id, rfl⟩
  | lockChecked => exact later_checkLock host s
  | screenRead locked =>
      cases locked with
      | none => exact ⟨id, id, id, id, id, rfl⟩
      | some locked => exact ⟨id, id, id, id, fun _ => rfl, rfl⟩
  | deadlinePassed | lockedHintUnknown | loginInactive | lockerOwnerChanged | sessionRead
  | systemBusClosed | sessionBusClosed | compositorClosed | visualOpened | visualClosed
  | treesCleared => exact ⟨id, id, id, id, id, rfl⟩

theorem later_events (events : List Event) (s : Scu R) :
    Later s (events.foldl (handle host) s) := by
  induction events generalizing s with
  | nil => exact Later.refl s
  | cons event events ih => exact Later.trans _ _ _ (later_handle host s event) (ih _)

theorem kept_perform (operation : Operation R α) : Kept (perform host operation) := by
  intro s
  obtain ⟨hcancelled, hstopping, hlockSeen, hvision, hmonitor, hsession⟩ :=
    later_events host (operation s).events s
  exact ⟨hcancelled, hstopping, hlockSeen, hvision, hmonitor, hsession⟩

theorem kept_scuFail (code hint : String) : Kept (scuFail code hint : Attempt (Scu R) α) :=
  fun _ => ⟨id, id, id, id, id, rfl⟩

theorem kept_inputAllowed : Kept (inputAllowed : Attempt (Scu R) Unit) := by
  intro s
  unfold inputAllowed
  split
  · exact kept_scuFail _ _ s
  · split
    · exact kept_scuFail _ _ s
    · exact Later.refl s

theorem kept_wanted : Kept (wanted : Attempt (Scu R) Unit) :=
  Kept.look.bind fun _ =>
    Kept.ite (kept_scuFail _ _) (Kept.ite (kept_scuFail _ _) (Kept.pure ()))

theorem kept_goOn : Kept (goOn : Attempt (Scu R) Unit) :=
  Kept.look.bind fun _ =>
    Kept.ite (kept_inputAllowed.bind fun _ => kept_wanted) kept_wanted

theorem kept_scuTick : Kept (scuTick host) :=
  (kept_perform host _).bind fun _ =>
    Kept.bind (later_checkLock host) fun _ => kept_goOn

theorem kept_scuPause (ms : Nat) : Kept (scuPause host ms) :=
  (kept_scuTick host).bind fun _ => Kept.look.bind fun _ => (kept_scuTick host).times _

theorem kept_requireComputerAccess : Kept (requireComputerAccess host) :=
  Kept.look.bind fun _ =>
    Kept.ite (Kept.bind (fun _ => ⟨id, id, id, id, id, rfl⟩) fun _ => kept_scuFail _ _)
      (Kept.ite (kept_scuFail _ _)
        (Kept.bind (fun _ => ⟨id, id, id, id, id, rfl⟩) fun _ => kept_scuTick host))

theorem kept_waitForDelay (ms : Nat) : Kept (waitForDelay host ms) :=
  Kept.look.bind fun _ =>
    ((kept_scuPause host 10).bind fun _ => kept_requireComputerAccess host).times _

theorem kept_unavailable : Kept (unavailable host) := fun _ => ⟨id, id, id, id, id, rfl⟩

theorem kept_refreshLock : Kept (refreshLock host) := by
  intro s
  have hsession := kept_perform host host.readSession s
  unfold refreshLock
  split
  · exact Later.refl s
  · split
    · exact kept_scuFail _ _ s
    · split
      · next read hread =>
          rw [hread] at hsession
          exact Later.trans _ _ _ hsession (kept_unavailable host read)
      · next locked read hread =>
          rw [hread] at hsession
          have hlater := Later.trans _ _ _ hsession (later_handle host read (.sessionRead locked))
          have hscreen := Later.trans _ _ _ hlater (kept_perform host host.readScreen _)
          split
          · next screen hscreenRead =>
              rw [hscreenRead] at hscreen
              exact Later.trans _ _ _
                (Later.trans _ _ _ hscreen (later_handle host screen (.screenRead none)))
                (kept_unavailable host _)
          · next screenLocked screen hscreenRead =>
              rw [hscreenRead] at hscreen
              exact Later.trans _ _ _
                (Later.trans _ _ _ hscreen
                  (later_handle host screen (.screenRead (some screenLocked))))
                (later_checkLock host _)

theorem kept_foregroundReady : Kept (foregroundReady host) :=
  (kept_refreshLock host).bind fun _ => kept_inputAllowed

theorem kept_visualStep : Kept (visualStep host) :=
  (kept_scuTick host).bind fun _ => (kept_requireComputerAccess host).bind fun _ =>
    Kept.look.bind fun _ =>
      Kept.ite (Kept.bind Later.refl fun _ => kept_inputAllowed) kept_inputAllowed

/-! ## A step -/

theorem kept_typeTarget (name : String) (arguments : Json) (numeric : Bool) :
    Kept (typeTarget host name arguments numeric) := by
  intro s
  have hkept : Later s { s with keyboardFallback := true } := ⟨id, id, id, id, id, rfl⟩
  have htyped := Later.trans _ _ _ hkept
    (kept_perform host (host.typeTargetValue name arguments numeric) _)
  unfold typeTarget
  split
  · next hrun =>
      rw [hrun] at htyped
      exact htyped
  · next hrun =>
      rw [hrun] at htyped
      exact Later.trans _ _ _ htyped ⟨id, id, id, id, id, rfl⟩

theorem kept_onElement (name : String) (arguments : Json) :
    Kept (onElement host name arguments) := by
  refine (kept_perform host _).bind fun result => ?_
  split
  · exact kept_typeTarget host name arguments _
  · exact Kept.pure result

theorem kept_pointed (name : String) (arguments : Json) : Kept (pointed host name arguments) := by
  intro s
  have hpointed := kept_perform host (host.pointerAction name arguments) s
  unfold pointed
  split
  · next hrun =>
      rw [hrun] at hpointed
      exact hpointed
  · next hrun =>
      rw [hrun] at hpointed
      exact Later.trans _ _ _ hpointed ⟨id, id, id, id, id, rfl⟩

theorem kept_scuVisual (name : String) (arguments : Json) : Kept (scuVisual host name arguments) :=
  (kept_foregroundReady host).bind fun _ => (kept_perform host _).bind fun _ =>
    (kept_visualStep host).bind fun _ =>
      Kept.ite (kept_perform host _) (Kept.ite (kept_perform host _) (kept_pointed host _ _))

theorem kept_act (step : Step) : Kept (act host step) :=
  Kept.ite ((kept_waitForDelay host _).bind fun _ => Kept.pure [])
    (Kept.ite (kept_onElement host _ _) (kept_scuVisual host _ _))

/-- What comes before the step's own action. -/
def approach (gap : Bool) : Attempt (Scu R) Unit := do
  if gap then waitForDelay host 150
  scuTick host
  requireComputerAccess host
  refreshLock host

theorem runStep_eq (gap : Bool) (step : Step) :
    runStep host gap step = approach host gap >>= fun _ => act host step := by
  cases gap with
  | true => simp only [runStep, approach, executeTool, if_true, Attempt.bind_assoc]
  | false => simp only [runStep, approach, executeTool, Bool.false_eq_true, if_false,
      Attempt.bind_assoc]

theorem kept_approach (gap : Bool) : Kept (approach host gap) := by
  have hrest : Kept (do scuTick host; requireComputerAccess host; refreshLock host) :=
    (kept_scuTick host).bind fun _ => (kept_requireComputerAccess host).bind fun _ =>
      kept_refreshLock host
  exact Kept.ite ((kept_waitForDelay host 150).bind fun _ => hrest) hrest

theorem kept_runStep (gap : Bool) (step : Step) : Kept (runStep host gap step) := by
  rw [runStep_eq]
  exact (kept_approach host gap).bind fun _ => kept_act host step

/-! ## A request that has to stop -/

/-- The request was cancelled, or it is for vision and has seen a lock. -/
def Halted (s : Scu R) : Prop :=
  s.cancelled = true ∨ s.stopping = true ∨ (s.visionRequest = true ∧ s.lockSeen = true)

theorem Halted.later {s s' : Scu R} (h : Halted s) (hlater : Later s s') : Halted s' := by
  rcases h with h | h | ⟨hvision, hlock⟩
  · exact .inl (hlater.cancelled h)
  · exact .inr (.inl (hlater.stopping h))
  · exact .inr (.inr ⟨hlater.visionRequest hvision, hlater.lockSeen hlock⟩)

theorem inputAllowed_some {s s' : Scu R} (h : inputAllowed s = (some (), s')) :
    s' = s ∧ s.lockSeen = false := by
  unfold inputAllowed at h
  split at h
  · cases h
  · next hlock =>
      split at h
      · cases h
      · cases h
        exact ⟨rfl, by simpa using fun hseen => hlock (Bool.or_eq_true_iff.mpr (.inr hseen))⟩

theorem wanted_stopped {s : Scu R} (h : (s.cancelled || s.stopping) = true) :
    (wanted s).1 = none := by
  show ((if (s.cancelled || s.stopping) = true then _ else _ : Attempt (Scu R) Unit) s).1 = none
  rw [if_pos h]
  rfl

theorem goOn_halted {s : Scu R} (h : Halted s) : (goOn s).1 = none := by
  show ((if s.visionRequest = true then inputAllowed >>= fun _ => wanted else wanted :
    Attempt (Scu R) Unit) s).1 = none
  split
  · next hvision =>
      refine Attempt.bind_eq_none fun _ t hrun => ?_
      obtain ⟨rfl, hlock⟩ := inputAllowed_some hrun
      rcases h with h | h | ⟨-, hseen⟩
      · exact wanted_stopped (by rw [h, Bool.true_or])
      · exact wanted_stopped (by rw [h, Bool.or_true])
      · rw [hlock] at hseen
        cases hseen
  · next hvision =>
      rcases h with h | h | ⟨hrequest, -⟩
      · exact wanted_stopped (by rw [h, Bool.true_or])
      · exact wanted_stopped (by rw [h, Bool.or_true])
      · exact absurd hrequest hvision

theorem scuTick_halted {s : Scu R} (h : Halted s) : (scuTick host s).1 = none := by
  refine Attempt.bind_eq_none fun _ t hrun => ?_
  have hdispatched := kept_perform host host.dispatch s
  rw [hrun] at hdispatched
  exact goOn_halted (h.later (Later.trans _ _ _ hdispatched (later_checkLock host t)))

/-- The events that stop a request in that state. -/
def Stops (s : Scu R) : Event → Prop
  | .cancelled | .clientClosed | .stopping => True
  | .lockedHint locked | .screenChanged locked =>
      locked = true ∧ s.visionRequest = true ∧ s.lockMonitor = true
  | _ => False

theorem handle_halted {s : Scu R} {event : Event} (h : Stops s event) :
    Halted (handle host s event) := by
  cases event with
  | cancelled | clientClosed => exact .inl rfl
  | stopping => exact .inr (.inl rfl)
  | lockedHint locked =>
      obtain ⟨rfl, hvision, hmonitor⟩ := h
      exact .inr (.inr ⟨hvision, by simp [handle, hmonitor]⟩)
  | screenChanged locked =>
      obtain ⟨rfl, hvision, hmonitor⟩ := h
      refine Halted.later (.inr (.inr ?_)) (later_checkLock host _)
      exact ⟨hvision, by simp [hmonitor]⟩
  | deadlinePassed | lockedHintUnknown | loginInactive | lockerOwnerChanged | sessionRead
  | screenRead | lockChecked | systemBusClosed | sessionBusClosed | compositorClosed
  | visualOpened | visualClosed | treesCleared => exact h.elim

theorem Stops.later {s s' : Scu R} {event : Event} (h : Stops s event) (hlater : Later s s') :
    Stops s' event := by
  cases event with
  | lockedHint locked | screenChanged locked =>
      obtain ⟨hlocked, hvision, hmonitor⟩ := h
      exact ⟨hlocked, hlater.visionRequest hvision, hlater.lockMonitor hmonitor⟩
  | _ => exact h

theorem halted_events {events : List Event} {event : Event} (hmem : event ∈ events) {s : Scu R}
    (h : Stops s event) : Halted (events.foldl (handle host) s) := by
  induction events generalizing s with
  | nil => cases hmem
  | cons head events ih =>
      rcases List.mem_cons.mp hmem with rfl | htail
      · exact (handle_halted host h).later (later_events host events _)
      · exact ih htail (h.later (later_handle host s head))

/-- Nothing of a step is begun once its request has to stop. -/
theorem approach_halted (gap : Bool) {s : Scu R} (h : Halted s) :
    (approach host gap s).1 = none := by
  have hrest {t : Scu R} (ht : Halted t) :
      ((do scuTick host; requireComputerAccess host; refreshLock host :
        Attempt (Scu R) Unit) t).1 = none := by
    refine Attempt.bind_eq_none fun _ _ hrun => ?_
    have hnone := scuTick_halted host ht
    rw [hrun] at hnone
    cases hnone
  cases gap with
  | false => exact hrest h
  | true =>
      refine Attempt.bind_eq_none fun _ t hrun => hrest (h.later ?_)
      have hwaited := kept_waitForDelay host 150 s
      rw [hrun] at hwaited
      exact hwaited

/-! ## The loop -/

def delayAt (steps : List Step) (i : Nat) : Bool := steps[i]?.any Step.isDelay

/-- Whether there is a gap before the step of that index. -/
def needsGap (steps : List Step) (i : Nat) : Bool :=
  i ≠ 0 && !delayAt steps i && !delayAt steps (i - 1)

/-- The steps from `first` up to the `k`-th were completed, each in the state that the
one before it had left, and the `k`-th, if there is one, has failed. -/
structure Executed (steps : List Step) (first k : Nat) (states : Nat → Scu R) (p : Progress)
    (after : Scu R) : Prop where
  first_le : first ≤ k
  le : k ≤ steps.length
  ran : ∀ i, ∀ h : i < steps.length, first ≤ i → i < k → ∃ value,
    runStep host (needsGap steps i) steps[i] (clearFallback (states i)) =
      (some value, states (i + 1))
  completed : p.completed = k
  ended : (k = steps.length ∧ p.failed = none ∧ after = states k) ∨
    ∃ (h : k < steps.length) (s : Scu R),
      runStep host (needsGap steps k) steps[k] (clearFallback (states k)) = (none, s) ∧
      p.failed = some (batchFailure k steps[k].tool s.failure) ∧
      after = clearToolError (release host s)

variable {host}

/-- What the loop has of the steps it is through with. -/
structure Progress.After (p : Progress) (steps : List Step) (index : Nat) : Prop where
  completed : p.completed = index
  failed : p.failed = none
  previousDelay : p.previousDelay = (index ≠ 0 && delayAt steps (index - 1))

theorem Progress.After.gap {p : Progress} {steps : List Step} {index : Nat}
    (hp : p.After steps index) (h : index < steps.length) :
    gapBefore index p.previousDelay steps[index] = needsGap steps index := by
  have hdelay : delayAt steps index = steps[index].isDelay := by
    rw [delayAt, List.getElem?_eq_getElem h, Option.any_some]
  rw [gapBefore, needsGap, hp.previousDelay, hdelay]
  cases decide (index ≠ 0) <;> simp

theorem Progress.After.complete {p : Progress} {steps : List Step} {index : Nat}
    (hp : p.After steps index) (h : index < steps.length) (fallback : Bool) (value : Members) :
    ((p.attempt steps[index] fallback).complete index steps[index] value).After steps
      (index + 1) where
  completed := congrArg (· + 1) hp.completed
  failed := hp.failed
  previousDelay := by
    show steps[index].isDelay = _
    simp [delayAt, List.getElem?_eq_getElem h]

variable (host) in
theorem runSteps_executed (steps : List Step) {rest : List Step} {index : Nat} {p : Progress}
    (s : Scu R) (hrest : steps.drop index = rest) (hle : index ≤ steps.length)
    (hp : p.After steps index) :
    ∃ (k : Nat) (states : Nat → Scu R), states index = s ∧
      Executed host steps index k states (runSteps host index p rest s).1
        (runSteps host index p rest s).2 := by
  induction rest generalizing index p s with
  | nil =>
      have hlength : index = steps.length :=
        Nat.le_antisymm hle (List.drop_eq_nil_iff.mp hrest)
      exact ⟨index, fun _ => s, rfl, Nat.le_refl _, hle,
        fun i _ hi hk => absurd hk (Nat.not_lt.mpr hi), hp.completed,
        .inl ⟨hlength, hp.failed, rfl⟩⟩
  | cons step rest ih =>
      have hlt : index < steps.length := by
        by_contra hge
        rw [List.drop_eq_nil_of_le (Nat.not_lt.mp hge)] at hrest
        cases hrest
      rw [List.drop_eq_getElem_cons hlt] at hrest
      obtain ⟨rfl, htail⟩ := List.cons.inj hrest
      unfold runSteps
      rw [hp.gap hlt]
      cases hrun : runStep host (needsGap steps index) steps[index] (clearFallback s) with
      | mk value t =>
          cases value with
          | none =>
              exact ⟨index, fun _ => s, rfl, Nat.le_refl _, hle,
                fun i _ hi hk => absurd hk (Nat.not_lt.mpr hi), hp.completed,
                .inr ⟨hlt, t, hrun, rfl, rfl⟩⟩
          | some value =>
              obtain ⟨k, states, hstate, hk, hkle, hran, hcompleted, hended⟩ :=
                ih t htail hlt (hp.complete hlt t.keyboardFallback value)
              -- the states from the next step on, with the one this step began in put before
              refine ⟨k, fun i => if i = index then s else states i, if_pos rfl, by omega, hkle,
                ?_, hcompleted, ?_⟩
              · intro i hi hfrom hto
                by_cases hhere : i = index
                · subst hhere
                  refine ⟨value, ?_⟩
                  rw [if_pos rfl, if_neg (by omega), hstate]
                  exact hrun
                · obtain ⟨value', hvalue⟩ := hran i hi (by omega) hto
                  refine ⟨value', ?_⟩
                  rw [if_neg hhere, if_neg (by omega)]
                  exact hvalue
              · rw [if_neg (by omega)]
                exact hended

section Executed

variable {steps : List Step} {first k : Nat} {states : Nat → Scu R} {p : Progress} {after : Scu R}

theorem Executed.later (h : Executed host steps first k states p after) {i j : Nat}
    (hfirst : first ≤ i) (hij : i ≤ j) (hj : j ≤ k) : Later (states i) (states j) := by
  induction j, hij using Nat.le_induction with
  | base => exact Later.refl _
  | succ j hij ih =>
      have hlt : j < steps.length := Nat.lt_of_lt_of_le hj h.le
      obtain ⟨value, hrun⟩ := h.ran j hlt (Nat.le_trans hfirst hij) hj
      have hstep := kept_runStep host (needsGap steps j) steps[j] (clearFallback (states j))
      rw [hrun] at hstep
      refine Later.trans _ _ _ (ih (Nat.le_of_succ_le hj)) (Later.trans _ _ _ ?_ hstep)
      exact ⟨id, id, id, id, id, rfl⟩

/-- A request that has to stop is at its last step. -/
theorem Executed.halted (h : Executed host steps first k states p after) {i : Nat}
    (hfirst : first ≤ i) (hi : i ≤ k) (hhalted : Halted (states i)) :
    i = k ∧ (approach host (needsGap steps i) (clearFallback (states i))).1 = none := by
  have hnone := approach_halted host (needsGap steps i) (s := clearFallback (states i)) hhalted
  refine ⟨?_, hnone⟩
  by_contra hne
  have hlt : i < k := Nat.lt_of_le_of_ne hi hne
  obtain ⟨value, hrun⟩ := h.ran i (Nat.lt_of_lt_of_le hlt h.le) hfirst hlt
  rw [runStep_eq, Attempt.bind_eq_some] at hrun
  obtain ⟨_, t, happroach, -⟩ := hrun
  rw [happroach] at hnone
  cases hnone

end Executed

/-! ## The result -/

theorem lookup_batchResult_completed (p : Progress) (failed : Option Members) (anyFailed : Bool)
    (observations : List Members) :
    (batchResult p failed anyFailed observations).lookup "completed" =
      some (.sint p.completed) := by
  unfold batchResult
  cases p.warnings.isEmpty <;>
    simp [resultString, resultInteger, resultMember, lookup_putMember_ne, lookup_putMember_self]

theorem lookup_batchResult_failed (p : Progress) (failed : Option Members) (anyFailed : Bool)
    (observations : List Members) :
    (batchResult p failed anyFailed observations).lookup "failed" = failed.map .obj := by
  unfold batchResult
  cases failed <;> cases p.warnings.isEmpty <;>
    simp [resultString, resultInteger, resultMember, lookup_putMember_ne, lookup_putMember_self]

theorem lookup_batchResult_status (p : Progress) (failed : Option Members) (anyFailed : Bool)
    (observations : List Members) :
    (batchResult p failed anyFailed observations).lookup "status" =
      some (.str (if anyFailed then "failed" else "ok")) := lookup_putMember_self _ _ _

theorem lookup_batchFailure_index (index : Nat) (tool : Tool) (failure : Option Failure) :
    (batchFailure index tool failure).lookup "index" = some (.sint index) := by
  simp [batchFailure, resultString, resultInteger, resultMember, lookup_putMember_ne,
    lookup_putMember_self]

theorem lookup_batchFailure_tool (index : Nat) (tool : Tool) (failure : Option Failure) :
    (batchFailure index tool failure).lookup "tool" = some (.str tool.name) :=
  lookup_putMember_self _ _ _

theorem lookup_errorPayload_index (failure : Option Failure) :
    (errorPayload failure).lookup "index" = none := by
  simp [errorPayload, resultString, resultMember, lookup_putMember_ne]

/-- A lock takes the place of the code and the hint only. -/
theorem lookup_lockedFailure {key : String} (hcode : key ≠ "code") (hhint : key ≠ "hint")
    (failure : Members) (s : Scu R) :
    (lockedFailure (some failure) s).lookup key = failure.lookup key := by
  unfold lockedFailure
  dsimp only
  split
  · rw [resultString, resultMember, lookup_putMember_ne hhint, resultString, resultMember,
      lookup_putMember_ne hcode]
  · rfl

/-- What the result says of the steps. Where all of them were completed, only the
observation can have failed. -/
structure Reports (steps : List Step) (k : Nat) (result : Members) : Prop where
  completed : result.lookup "completed" = some (.sint k)
  failed : ∀ h : k < steps.length, result.lookup "status" = some (.str "failed") ∧
    ∃ failure, result.lookup "failed" = some (.obj failure) ∧
      failure.lookup "index" = some (.sint k) ∧
      failure.lookup "tool" = some (.str steps[k].tool.name)
  whole : k = steps.length → ∀ failure, result.lookup "failed" = some (.obj failure) →
    failure.lookup "index" = none

variable (host) in
/-- The failed step of the result is that of the loop, unless a lock changed it. -/
theorem finish_result (kind : BatchKind) (requested : Option Json) (p : Progress) (s : Scu R) :
    ∃ failed anyFailed observations,
      (finish host kind requested p s).1 = batchResult p failed anyFailed observations ∧
      ((failed = p.failed ∧ (p.failed.isSome = true → anyFailed = true)) ∨
        ∃ t : Scu R, failed = some (lockedFailure p.failed t) ∧ anyFailed = true) := by
  unfold finish
  rcases observe host kind requested p s with ⟨o, t⟩
  dsimp only
  unfold settleFailure
  rcases denied host kind t with ⟨deny, u⟩
  cases deny with
  | false =>
      refine ⟨_, _, _, rfl, .inl ⟨rfl, fun hfailed => ?_⟩⟩
      exact Bool.or_eq_true_iff.mpr (.inl hfailed)
  | true => exact ⟨_, _, _, rfl, .inr ⟨_, rfl, rfl⟩⟩

theorem Executed.reports {steps : List Step} {first k : Nat} {states : Nat → Scu R} {p : Progress}
    {after : Scu R} (h : Executed host steps first k states p after) (kind : BatchKind)
    (requested : Option Json) : Reports steps k (finish host kind requested p after).1 := by
  obtain ⟨failed, anyFailed, observations, hresult, hcases⟩ :=
    finish_result host kind requested p after
  rw [hresult]
  refine ⟨by rw [lookup_batchResult_completed, h.completed], fun hk => ?_, fun hk => ?_⟩
  · obtain ⟨hwhole, _, _⟩ | ⟨_, t, _, hfailed, _⟩ := h.ended
    · omega
    · rw [lookup_batchResult_status, lookup_batchResult_failed]
      rw [hfailed] at hcases
      rcases hcases with ⟨rfl, hany⟩ | ⟨u, rfl, rfl⟩
      · rw [hany rfl]
        exact ⟨rfl, _, rfl, lookup_batchFailure_index _ _ _, lookup_batchFailure_tool _ _ _⟩
      · refine ⟨rfl, _, rfl, ?_, ?_⟩
        · rw [lookup_lockedFailure (by decide) (by decide), lookup_batchFailure_index]
        · rw [lookup_lockedFailure (by decide) (by decide), lookup_batchFailure_tool]
  · obtain ⟨-, hfailed, -⟩ | ⟨hlt, -⟩ := h.ended
    · intro failure hlookup
      rw [lookup_batchResult_failed] at hlookup
      rw [hfailed] at hcases
      rcases hcases with ⟨rfl, -⟩ | ⟨u, rfl, -⟩
      · cases hlookup
      · cases hlookup
        exact lookup_errorPayload_index u.failure
    · omega

/-! ## Every batch -/

theorem readSteps_spec (noVision : Bool) (kind : BatchKind) (listed : List Json) :
    (∃ failure, (∃ step ∈ listed, readStep noVision kind step = .error failure) ∧
      readSteps noVision kind listed = .error failure) ∨
    ∃ steps, listed.map (readStep noVision kind) = steps.map .ok ∧
      readSteps noVision kind listed = .ok steps := by
  induction listed with
  | nil => exact .inr ⟨[], rfl, rfl⟩
  | cons step listed ih =>
      unfold readSteps
      cases hstep : readStep noVision kind step with
      | error failure => exact .inl ⟨failure, ⟨step, List.mem_cons_self, hstep⟩, rfl⟩
      | ok read =>
          rcases ih with ⟨failure, ⟨bad, hmem, hbad⟩, herror⟩ | ⟨steps, hall, hok⟩
          · rw [herror]
            exact .inl ⟨failure, ⟨bad, List.mem_cons_of_mem _ hmem, hbad⟩, rfl⟩
          · rw [hok]
            refine .inr ⟨read :: steps, ?_, rfl⟩
            rw [List.map_cons, hstep, hall, List.map_cons]

theorem refreshLock_monitor {s s' : Scu R} (h : refreshLock host s = (some (), s'))
    (hsession : s.desktop.session = true) : s'.lockMonitor = true := by
  unfold refreshLock at h
  rw [hsession] at h
  split at h
  · next hnone => cases hnone
  · split at h
    · cases h
    · split at h
      · cases h
      · split at h
        · cases h
        · cases h
          exact (later_checkLock host _).lockMonitor rfl

theorem letIn_monitor {kind : BatchKind} {s start : Scu R}
    (h : letIn host kind s = (some (), start)) (hsession : start.desktop.session = true) :
    start.lockMonitor = true := by
  obtain ⟨_, t, hrefresh, hrest⟩ := Attempt.bind_eq_some.mp h
  have hbefore := kept_refreshLock host s
  rw [hrefresh] at hbefore
  have hkept : Later t start := by
    have hlater : Kept (do
        if kind ≠ .accessibility then
          Attempt.update fun s => { s with visionRequest := true }
          inputAllowed
        requireComputerAccess host : Attempt (Scu R) Unit) :=
      Kept.ite
        (Kept.bind (fun _ => ⟨id, id, id, fun _ => rfl, id, rfl⟩) fun _ =>
          kept_inputAllowed.bind fun _ => kept_requireComputerAccess host)
        (kept_requireComputerAccess host)
    have hrun := hlater t
    rw [hrest] at hrun
    exact hrun
  rw [hkept.session, hbefore.session] at hsession
  exact hkept.lockMonitor (refreshLock_monitor hrefresh hsession)

theorem letIn_vision {kind : BatchKind} (hkind : kind ≠ .accessibility) {s start : Scu R}
    (h : letIn host kind s = (some (), start)) : start.visionRequest = true := by
  obtain ⟨_, t, _, hrest⟩ := Attempt.bind_eq_some.mp h
  rw [if_pos hkind] at hrest
  obtain ⟨_, u, hupdate, hrest⟩ := Attempt.bind_eq_some.mp hrest
  obtain ⟨_, v, hallowed, haccess⟩ := Attempt.bind_eq_some.mp hrest
  obtain ⟨rfl, _⟩ := inputAllowed_some hallowed
  have hkept := kept_requireComputerAccess host v
  dsimp only at haccess
  rw [haccess] at hkept
  cases hupdate
  exact hkept.visionRequest rfl

variable (host) in
/-- The steps were executed in order from that state on, and the outcome says how far. -/
def InOrder (kind : BatchKind) (requested : Option Json) (steps : List Step) (start : Scu R)
    (outcome : Option Members × Scu R) : Prop :=
  ∃ (k : Nat) (states : Nat → Scu R) (p : Progress) (after : Scu R) (result : Members),
    states 0 = start ∧ Executed host steps 0 k states p after ∧
    (∀ i j, i ≤ j → j ≤ k → Later (states i) (states j)) ∧
    (∀ i, i ≤ k → Halted (states i) →
      i = k ∧ (approach host (needsGap steps i) (clearFallback (states i))).1 = none) ∧
    Reports steps k result ∧
    outcome = (some result, (finish host kind requested p after).2)

theorem inOrder_executeSteps (kind : BatchKind) (requested : Option Json) (steps : List Step)
    (start : Scu R) :
    InOrder host kind requested steps start (executeSteps host kind requested steps start) := by
  obtain ⟨k, states, hstart, hexecuted⟩ :=
    runSteps_executed host steps start List.drop_zero (Nat.zero_le _)
      (p := {}) ⟨rfl, rfl, rfl⟩
  exact ⟨k, states, _, _, _, hstart, hexecuted,
    fun _ _ hij hj => hexecuted.later (Nat.zero_le _) hij hj,
    fun _ hi hhalted => hexecuted.halted (Nat.zero_le _) hi hhalted,
    hexecuted.reports kind requested, rfl⟩

variable (host) in
/-- A step that does not pass the check keeps every other one back. Otherwise the batch
is not let in, or its steps are executed in order. -/
theorem runBatch_inOrder (noVision : Bool) (kind : BatchKind) (arguments : Json) (s : Scu R) :
    (∃ failure,
      (∃ step ∈ items (arguments.get "steps"), readStep noVision kind step = .error failure) ∧
      runBatch host noVision kind arguments s = (none, record failure s)) ∨
    ∃ steps, (items (arguments.get "steps")).map (readStep noVision kind) = steps.map .ok ∧
      ((∃ s', letIn host kind s = (none, s') ∧
          runBatch host noVision kind arguments s = (none, s')) ∨
        ∃ start, letIn host kind s = (some (), start) ∧
          (kind ≠ .accessibility → start.visionRequest = true) ∧
          (start.desktop.session = true → start.lockMonitor = true) ∧
          InOrder host kind (arguments.get "observations") steps start
            (runBatch host noVision kind arguments s)) := by
  unfold runBatch
  rcases readSteps_spec noVision kind (items (arguments.get "steps")) with
    ⟨failure, hbad, hread⟩ | ⟨steps, hall, hread⟩
  · rw [hread]
    exact .inl ⟨failure, hbad, rfl⟩
  · rw [hread]
    refine .inr ⟨steps, hall, ?_⟩
    dsimp only
    cases hletIn : letIn host kind s with
    | mk entered start =>
        cases entered with
        | none => exact .inl ⟨start, rfl, Attempt.bind_of_none hletIn⟩
        | some =>
            refine .inr ⟨start, rfl, fun hkind => letIn_vision hkind hletIn,
              letIn_monitor hletIn, ?_⟩
            rw [Attempt.bind_of_some hletIn]
            exact inOrder_executeSteps kind _ steps start

/-- A screen that is locked from outside while an element is activated, and for each
activation whether the request had seen the lock before. -/
structure LockingScreen where
  locked : Bool := false
  activated : List Bool := []

def quietly (value : α) : Operation R α := fun s => ⟨[], s.failure, s.rest, some value⟩

def lockingHost : Host LockingScreen where
  dispatch := quietly ()
  rounds _ _ := 0
  releaseInput := id
  invalidate := id
  clearImages := id
  readSession := quietly false
  readScreen s := quietly s.rest.locked s
  ensureVisualSession := quietly ()
  keyboardAction _ := quietly []
  typeForegroundText _ := quietly []
  pointerAction _ _ := quietly []
  atspi _ _ s :=
    ⟨[.screenChanged true], s.failure, ⟨true, s.rest.activated ++ [s.lockSeen]⟩, some []⟩
  typeTargetValue _ _ _ := quietly []
  captureDesktop := quietly []
  refreshGeometry := quietly ()
  observeWindow _ _ := quietly []
  worker _ := false
  allocated _ := true

def unlocked : Scu LockingScreen where
  desktop :=
    { session := true, valid := true, locked := false, lockKnown := true, screenLocked := false
      screenKnown := true, systemClosed := false }
  rest := {}

def activation (element : Nat) : Json :=
  .obj [("tool", .str "activate"), ("args", .obj [("element_id", .uint element)])]

/-- A batch of accessibility goes on under a lock that it has seen. -/
theorem lockedActivation_goesOn :
    (runBatch lockingHost false .accessibility
        (.obj [("steps", .arr [activation 1, activation 2])]) unlocked).2.rest.activated =
      [false, true] ∧
    getSint ((runBatch lockingHost false .accessibility
        (.obj [("steps", .arr [activation 1, activation 2])]) unlocked).1.bind
          (·.lookup "completed")) = 2 := by
  decide +kernel

end Spaces.Computer.Batch
