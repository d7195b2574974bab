import Mathlib.Tactic.Linarith
import Spaces.Library.Json
import Spaces.Library.Runs

/-!
# How often a user may try

A request handler reads the clock and then takes the lock under which the attempts of
the user are counted. Between the two any time may pass, and other handlers go on. An
attempt is recorded with the reading of the clock, so it may be forgotten before its
time, and that much earlier the next one is let in.

`Limited` is what the limit is for. It holds of every run in which no attempt is
forgotten too soon, and it holds of all runs for windows that are shorter by the
longest delay.
-/

namespace Spaces.Authentication.RateLimit

open Spaces.Library

/-- `RATE_LIMIT_WINDOW`, in seconds. -/
def window : ℚ := 30

/-- `RATE_LIMIT_ATTEMPTS`. -/
def maxAttempts : Nat := 5

/-- What is recorded of an attempt is the reading of the clock. When it was let in is
kept here for the statements alone. -/
structure Attempt where
  stamp : ℚ
  admitted : ℚ
  deriving DecidableEq

/-- A handler between reading the clock and the lock. -/
structure Waiting where
  uid : Nat
  now : ℚ
  deriving DecidableEq

/-- What the locked section has decided, and when. -/
structure Decision where
  uid : Nat
  instant : ℚ
  admitted : Bool
  deriving DecidableEq

structure State where
  clock : ℚ := 0
  waiting : Nat → Option Waiting := fun _ => none
  /-- `_attempts`. -/
  attempts : Nat → Option (List Attempt) := fun _ => none
  /-- The newest first. -/
  decisions : List Decision := []

inductive Event where
  | elapses (duration : { d : ℚ // 0 ≤ d })
  | reads (thread : Nat) (request : Json)
  | enters (thread : Nat)

/-- The checks of `_authenticate`: an object with the one key, an integer that is no
truth value and not negative. -/
def requestedUid : Json → Option Nat
  | .obj members =>
      if members.all (·.1 = "uid") then
        match members.getLast? with
        | some (_, .uint uid) => some uid
        | some (_, .sint uid) => if uid < 0 then none else some uid.toNat
        | _ => none
      else none
  | _ => none

def recorded (s : State) (uid : Nat) : List Attempt := (s.attempts uid).getD []

/-- The attempts that are not older than the window by the reading of the clock. -/
def kept (s : State) (w : Waiting) : List Attempt :=
  (recorded s w.uid).filter fun attempt => w.now - attempt.stamp < window

/-- The locked section of `_consume_attempt`. -/
def consume (s : State) (thread : Nat) (w : Waiting) : State :=
  let attempts := kept s w
  let admitted := decide (attempts.length < maxAttempts)
  { s with
    waiting := Function.update s.waiting thread none
    attempts := Function.update s.attempts w.uid
      (some (if admitted then attempts ++ [⟨w.now, s.clock⟩] else attempts))
    decisions := ⟨w.uid, s.clock, admitted⟩ :: s.decisions }

/-- A handler of a configured user has read the clock. -/
def wait (s : State) (thread uid : Nat) : State :=
  { s with waiting := Function.update s.waiting thread (some ⟨uid, s.clock⟩) }

def next (users : List Nat) (s : State) : Event → State
  | .elapses duration => { s with clock := s.clock + duration }
  | .reads thread request =>
      match s.waiting thread, requestedUid request with
      | none, some uid => if uid ∈ users then wait s thread uid else s
      | _, _ => s
  | .enters thread =>
      match s.waiting thread with
      | none => s
      | some w => consume s thread w

/-- A request is rejected, or its handler waits for the lock. -/
theorem next_reads (users : List Nat) (s : State) (thread : Nat) (request : Json) :
    next users s (.reads thread request) = s ∨
      ∃ uid ∈ users, s.waiting thread = none ∧ requestedUid request = some uid
        ∧ next users s (.reads thread request) = wait s thread uid := by
  cases hwaiting : s.waiting thread with
  | some w => exact .inl (by rw [next, hwaiting])
  | none =>
      cases huid : requestedUid request with
      | none => exact .inl (by rw [next, hwaiting, huid])
      | some uid =>
          rw [next, hwaiting, huid]
          by_cases hmem : uid ∈ users
          · exact .inr ⟨uid, hmem, rfl, rfl, if_pos hmem⟩
          · exact .inl (if_neg hmem)

/-- A handler enters, if it waits. -/
theorem next_enters (users : List Nat) (s : State) (thread : Nat) :
    s.waiting thread = none ∧ next users s (.enters thread) = s ∨
      ∃ w, s.waiting thread = some w ∧ next users s (.enters thread) = consume s thread w := by
  cases hwaiting : s.waiting thread with
  | none => exact .inl ⟨rfl, by rw [next, hwaiting]⟩
  | some w => exact .inr ⟨w, rfl, by rw [next, hwaiting]⟩

@[simp] theorem waiting_wait_self (s : State) (thread uid : Nat) :
    (wait s thread uid).waiting thread = some ⟨uid, s.clock⟩ := Function.update_self ..

theorem waiting_wait_ne (s : State) (uid : Nat) {thread other : Nat} (h : other ≠ thread) :
    (wait s thread uid).waiting other = s.waiting other := Function.update_of_ne h ..

@[simp] theorem waiting_consume_self (s : State) (thread : Nat) (w : Waiting) :
    (consume s thread w).waiting thread = none := Function.update_self ..

theorem waiting_consume_ne (s : State) (w : Waiting) {thread other : Nat} (h : other ≠ thread) :
    (consume s thread w).waiting other = s.waiting other := Function.update_of_ne h ..

theorem waiting_wait (s : State) (thread uid : Nat) {other : Nat} {w : Waiting}
    (h : (wait s thread uid).waiting other = some w) :
    w = ⟨uid, s.clock⟩ ∨ s.waiting other = some w := by
  rcases eq_or_ne other thread with rfl | hne
  · rw [waiting_wait_self] at h
    exact .inl (Option.some.inj h).symm
  · exact .inr (waiting_wait_ne s uid hne ▸ h)

theorem waiting_consume (s : State) (thread : Nat) (w : Waiting) {other : Nat} {v : Waiting}
    (h : (consume s thread w).waiting other = some v) : s.waiting other = some v := by
  rcases eq_or_ne other thread with rfl | hne
  · rw [waiting_consume_self] at h
    cases h
  · exact waiting_consume_ne s w hne ▸ h

/-! ## What the limit is for -/

/-- The attempts of a user that were let in from `since` to `upto`. -/
def admissions (s : State) (uid : Nat) (since upto : ℚ) : Nat :=
  s.decisions.countP fun d =>
    d.uid = uid ∧ d.admitted = true ∧ since ≤ d.instant ∧ d.instant ≤ upto

/-- Not too many attempts in any time shorter than the span. -/
def Limited (span : ℚ) (s : State) : Prop :=
  ∀ uid since upto, upto - since < span → admissions s uid since upto ≤ maxAttempts

/-- What the locked section forgets was let in no later than a span ago. -/
def Spared (span : ℚ) (s : State) : Event → Prop
  | .enters thread => ∀ w ∈ s.waiting thread, ∀ attempt ∈ recorded s w.uid,
      window ≤ w.now - attempt.stamp → span ≤ s.clock - attempt.admitted
  | _ => True

/-- How many attempts of a user were let in at some time or later. -/
def admittedSince (s : State) (uid : Nat) (since : ℚ) : Nat :=
  s.decisions.countP fun d => d.uid = uid ∧ d.admitted = true ∧ since ≤ d.instant

/-- Every attempt of the last span is recorded. -/
structure Inv (span : ℚ) (s : State) : Prop where
  past : ∀ d ∈ s.decisions, d.instant ≤ s.clock
  length : ∀ uid, (recorded s uid).length ≤ maxAttempts
  counted : ∀ uid since, s.clock - since < span →
    admittedSince s uid since ≤ (recorded s uid).countP fun a => since ≤ a.admitted
  limited : Limited span s

theorem inv_initial (span : ℚ) : Inv span {} where
  past _ h := absurd h List.not_mem_nil
  length _ := Nat.zero_le _
  counted _ _ _ := Nat.zero_le _
  limited _ _ _ _ := Nat.zero_le _

theorem recorded_consume_self (s : State) (thread : Nat) (w : Waiting) :
    recorded (consume s thread w) w.uid =
      if (kept s w).length < maxAttempts then kept s w ++ [⟨w.now, s.clock⟩] else kept s w := by
  simp [recorded, consume]

theorem recorded_consume_ne (s : State) (thread : Nat) {w : Waiting} {uid : Nat}
    (h : uid ≠ w.uid) : recorded (consume s thread w) uid = recorded s uid := by
  simp [recorded, consume, h]

theorem decisions_consume (s : State) (thread : Nat) (w : Waiting) :
    (consume s thread w).decisions
      = ⟨w.uid, s.clock, decide ((kept s w).length < maxAttempts)⟩ :: s.decisions := rfl

/-- What is forgotten does not count any more. -/
theorem countP_kept {span since : ℚ} {s : State} {thread : Nat} {w : Waiting}
    (hwaiting : s.waiting thread = some w) (hspared : Spared span s (.enters thread))
    (hsince : s.clock - since < span) :
    (kept s w).countP (fun a => since ≤ a.admitted)
      = (recorded s w.uid).countP fun a => since ≤ a.admitted := by
  rw [kept, List.countP_filter]
  refine List.countP_congr fun a ha => ?_
  simp only [Bool.and_eq_true, decide_eq_true_eq, and_iff_left_iff_imp]
  intro hcounted
  by_contra hforgotten
  have hold := hspared w hwaiting a ha (not_lt.mp hforgotten)
  linarith

/-- The other attempts of a window are among those since it began. -/
theorem admissions_le (s : State) (uid : Nat) (since upto : ℚ) :
    admissions s uid since upto ≤ admittedSince s uid since := by
  refine List.countP_mono_left fun d _ h => ?_
  simp only [decide_eq_true_eq] at h ⊢
  exact ⟨h.1, h.2.1, h.2.2.1⟩

/-- After the locked section the attempts of the last span are recorded again. -/
theorem counted_consume {span : ℚ} {s : State} {thread : Nat} {w : Waiting} (h : Inv span s)
    (hwaiting : s.waiting thread = some w) (hspared : Spared span s (.enters thread))
    (uid : Nat) {since : ℚ} (hsince : s.clock - since < span) :
    admittedSince (consume s thread w) uid since
      ≤ (recorded (consume s thread w) uid).countP fun a => since ≤ a.admitted := by
  have hbefore := h.counted uid since hsince
  unfold admittedSince at hbefore ⊢
  rw [decisions_consume, List.countP_cons]
  rcases eq_or_ne uid w.uid with rfl | hne
  · rw [← countP_kept hwaiting hspared hsince] at hbefore
    rw [recorded_consume_self]
    by_cases hroom : (kept s w).length < maxAttempts
    · rw [if_pos hroom, List.countP_append, List.countP_singleton]
      simp only [hroom, decide_true, true_and]
      omega
    · rw [if_neg hroom]
      simp only [hroom, decide_false]
      simpa using hbefore
  · rw [recorded_consume_ne s thread hne]
    simp only [hne.symm, false_and, decide_false]
    simpa using hbefore

theorem length_consume {span : ℚ} {s : State} (h : Inv span s) (thread : Nat) (w : Waiting)
    (uid : Nat) : (recorded (consume s thread w) uid).length ≤ maxAttempts := by
  rcases eq_or_ne uid w.uid with rfl | hne
  · rw [recorded_consume_self]
    split
    · next hroom =>
        rw [List.length_append, List.length_singleton]
        exact hroom
    · exact (List.length_filter_le _ _).trans (h.length _)
  · rw [recorded_consume_ne s thread hne]
    exact h.length uid

/-- If the new attempt is in a window, all of the window's are recorded. -/
theorem limited_consume {span : ℚ} {s : State} {thread : Nat} {w : Waiting} (h : Inv span s)
    (hwaiting : s.waiting thread = some w) (hspared : Spared span s (.enters thread)) :
    Limited span (consume s thread w) := by
  intro uid since upto hspan
  by_cases hin : since ≤ s.clock ∧ s.clock ≤ upto
  · calc admissions (consume s thread w) uid since upto
        ≤ admittedSince (consume s thread w) uid since := admissions_le _ _ _ _
      _ ≤ (recorded (consume s thread w) uid).countP fun a => since ≤ a.admitted :=
          counted_consume h hwaiting hspared uid (by linarith [hin.2])
      _ ≤ (recorded (consume s thread w) uid).length := List.countP_le_length
      _ ≤ maxAttempts := length_consume h thread w uid
  · have hsame : admissions (consume s thread w) uid since upto
        = admissions s uid since upto := by
      unfold admissions
      rw [decisions_consume, List.countP_cons_of_neg]
      simp only [decide_eq_true_eq]
      exact fun hcounted => hin hcounted.2.2
    exact hsame ▸ h.limited uid since upto hspan

theorem inv_next {users : List Nat} {span : ℚ} (s : State) (e : Event) (h : Inv span s)
    (hspared : Spared span s e) : Inv span (next users s e) := by
  cases e with
  | elapses duration =>
      have hlater : s.clock ≤ s.clock + duration := le_add_of_nonneg_right duration.2
      exact ⟨fun d hd => (h.past d hd).trans hlater, h.length,
        fun uid since hsince => h.counted uid since (by
          have hclock : s.clock + duration - since < span := hsince
          linarith), h.limited⟩
  | reads thread request =>
      rcases next_reads users s thread request with hnext | ⟨uid, -, -, -, hnext⟩
      · rwa [hnext]
      · rw [hnext]
        exact ⟨h.past, h.length, h.counted, h.limited⟩
  | enters thread =>
      rcases next_enters users s thread with ⟨-, hnext⟩ | ⟨w, hwaiting, hnext⟩
      · rwa [hnext]
      · rw [hnext]
        refine ⟨fun d hd => ?_, length_consume h thread w, fun uid since =>
          counted_consume h hwaiting hspared uid, limited_consume h hwaiting hspared⟩
        rcases List.mem_cons.mp hd with rfl | hd
        · exact le_rfl
        · exact h.past d hd

theorem limited_of_spared {users : List Nat} {span : ℚ} {s : State}
    (h : Guarded (next users) (Spared span) {} s) : Limited span s :=
  (h.invariant (inv_initial span) inv_next).limited

/-! ## Delays -/

/-- A handler gets the lock at most `delay` after it has read the clock. -/
def Prompt (delay : ℚ) (s : State) : Event → Prop
  | .enters thread => ∀ w ∈ s.waiting thread, s.clock - w.now ≤ delay
  | _ => True

structure Delayed (delay : ℚ) (s : State) : Prop where
  waiting : ∀ thread, ∀ w ∈ s.waiting thread, w.now ≤ s.clock
  recorded : ∀ uid, ∀ attempt ∈ recorded s uid, attempt.admitted - attempt.stamp ≤ delay

theorem delayed_initial (delay : ℚ) : Delayed delay {} where
  waiting _ _ h := nomatch h
  recorded _ _ h := absurd h List.not_mem_nil

theorem delayed_next {users : List Nat} {delay : ℚ} (s : State) (e : Event)
    (h : Delayed delay s) (hprompt : Prompt delay s e) : Delayed delay (next users s e) := by
  cases e with
  | elapses duration =>
      have hlater : s.clock ≤ s.clock + duration := le_add_of_nonneg_right duration.2
      exact ⟨fun thread w hw => (h.waiting thread w hw).trans hlater, h.recorded⟩
  | reads thread request =>
      rcases next_reads users s thread request with hnext | ⟨uid, -, -, -, hnext⟩
      · rwa [hnext]
      · rw [hnext]
        refine ⟨fun other w hw => ?_, h.recorded⟩
        rcases waiting_wait s thread uid hw with rfl | hold
        · exact le_rfl
        · exact h.waiting other w hold
  | enters thread =>
      rcases next_enters users s thread with ⟨-, hnext⟩ | ⟨w, hwaiting, hnext⟩
      · rwa [hnext]
      · rw [hnext]
        refine ⟨fun other v hv => h.waiting other v (waiting_consume s thread w hv),
          fun uid attempt hattempt => ?_⟩
        rcases eq_or_ne uid w.uid with rfl | hne
        · have hkept : ∀ a ∈ kept s w, a.admitted - a.stamp ≤ delay := fun a ha =>
            h.recorded _ a (List.mem_of_mem_filter ha)
          rw [recorded_consume_self] at hattempt
          split at hattempt
          · rcases List.mem_append.mp hattempt with hold | hnew
            · exact hkept attempt hold
            · rw [List.mem_singleton.mp hnew]
              exact hprompt w hwaiting
          · exact hkept attempt hattempt
        · rw [recorded_consume_ne s thread hne] at hattempt
          exact h.recorded uid attempt hattempt

/-- A delay shortens the span for which the limit holds, and does no more. -/
theorem limited_of_prompt {users : List Nat} {delay : ℚ} {s : State}
    (h : Guarded (next users) (Prompt delay) {} s) : Limited (window - delay) s := by
  have hspared : Delayed delay s ∧ Guarded (next users) (Spared (window - delay)) {} s := by
    induction h with
    | start => exact ⟨delayed_initial delay, .start⟩
    | @step t e _ hprompt ih =>
        refine ⟨delayed_next t e ih.1 hprompt, ih.2.step ?_⟩
        cases e with
        | enters thread =>
            intro w hw attempt hattempt hold
            have hnow := ih.1.waiting thread w hw
            have hdelay := ih.1.recorded w.uid attempt hattempt
            linarith
        | _ => trivial
  exact limited_of_spared hspared.2

/-! ## Other users -/

/-- What an event has to do with a user. -/
def concerns (uid : Nat) (s : State) : Event → Bool
  | .elapses _ => true
  | .reads thread request => s.waiting thread = none ∧ requestedUid request = some uid
  | .enters thread => (s.waiting thread).any (·.uid = uid)

/-- A run without the attempts of all other users. -/
def alone (users : List Nat) (uid : Nat) : State → List Event → List Event
  | _, [] => []
  | s, e :: events =>
      if concerns uid s e then e :: alone users uid (next users s e) events
      else alone users uid (next users s e) events

def decisionsOf (uid : Nat) (s : State) : List Decision := s.decisions.filter (·.uid = uid)

/-- The states are the same for a user, and only that user is in the second. -/
structure Agree (uid : Nat) (s t : State) : Prop where
  clock : t.clock = s.clock
  waiting : ∀ thread, t.waiting thread = (s.waiting thread).filter (·.uid = uid)
  attempts : t.attempts uid = s.attempts uid
  decisions : decisionsOf uid t = decisionsOf uid s

theorem agree_initial (uid : Nat) : Agree uid {} {} := ⟨rfl, fun _ => rfl, rfl, rfl⟩

theorem Agree.recorded {uid : Nat} {s t : State} (h : Agree uid s t) :
    recorded t uid = recorded s uid := by
  rw [RateLimit.recorded, RateLimit.recorded, h.attempts]

theorem Agree.kept {s t : State} {w : Waiting} (h : Agree w.uid s t) : kept t w = kept s w := by
  rw [RateLimit.kept, RateLimit.kept, h.recorded]

theorem decisionsOf_consume_self (s : State) (thread : Nat) (w : Waiting) :
    decisionsOf w.uid (consume s thread w)
      = ⟨w.uid, s.clock, decide ((kept s w).length < maxAttempts)⟩ :: decisionsOf w.uid s := by
  rw [decisionsOf, decisions_consume, List.filter_cons_of_pos (by simp), decisionsOf]

theorem decisionsOf_consume_ne (s : State) (thread : Nat) {w : Waiting} {uid : Nat}
    (h : w.uid ≠ uid) : decisionsOf uid (consume s thread w) = decisionsOf uid s := by
  rw [decisionsOf, decisions_consume, List.filter_cons_of_neg (by simpa using h), decisionsOf]

/-- The locked section of the user sees the same in both states. -/
theorem Agree.consume {s t : State} {w : Waiting} (h : Agree w.uid s t) (thread : Nat) :
    Agree w.uid (consume s thread w) (consume t thread w) where
  clock := h.clock
  waiting other := by
    rcases eq_or_ne other thread with rfl | hne
    · rw [waiting_consume_self, waiting_consume_self]
      rfl
    · rw [waiting_consume_ne t w hne, waiting_consume_ne s w hne, h.waiting]
  attempts := by
    simp only [RateLimit.consume, Function.update_self, h.kept, h.clock]
  decisions := by
    rw [decisionsOf_consume_self, decisionsOf_consume_self, h.kept, h.clock, h.decisions]

theorem Agree.wait {uid : Nat} {s t : State} (h : Agree uid s t) (thread : Nat) :
    Agree uid (wait s thread uid) (wait t thread uid) where
  clock := h.clock
  waiting other := by
    rcases eq_or_ne other thread with rfl | hne
    · rw [waiting_wait_self, waiting_wait_self, h.clock]
      exact (if_pos (decide_eq_true rfl)).symm
    · rw [waiting_wait_ne t uid hne, waiting_wait_ne s uid hne, h.waiting]
  attempts := h.attempts
  decisions := h.decisions

theorem agree_concerned {users : List Nat} {uid : Nat} {s t : State} (h : Agree uid s t)
    {e : Event} (he : concerns uid s e = true) :
    Agree uid (next users s e) (next users t e) := by
  cases e with
  | elapses duration =>
      exact ⟨congrArg (· + duration.1) h.clock, h.waiting, h.attempts, h.decisions⟩
  | reads thread request =>
      obtain ⟨hfree, huid⟩ := of_decide_eq_true he
      have hfree' : t.waiting thread = none := by rw [h.waiting, hfree]; rfl
      rw [next, next, hfree, hfree', huid]
      dsimp only
      split
      · exact h.wait thread
      · exact h
  | enters thread =>
      rw [concerns] at he
      cases hwaiting : s.waiting thread with
      | none => simp [hwaiting] at he
      | some w =>
          obtain rfl : w.uid = uid := by simpa [hwaiting] using he
          have hwaiting' : t.waiting thread = some w := by simp [h.waiting, hwaiting]
          simp only [next, hwaiting, hwaiting']
          exact h.consume thread

theorem agree_unconcerned {users : List Nat} {uid : Nat} {s t : State} (h : Agree uid s t)
    {e : Event} (he : ¬ concerns uid s e = true) : Agree uid (next users s e) t := by
  cases e with
  | elapses duration => exact absurd rfl he
  | reads thread request =>
      rcases next_reads users s thread request with hnext | ⟨other, -, hfree, hother, hnext⟩
      · rwa [hnext]
      · have hne : other ≠ uid := by
          rintro rfl
          exact he (decide_eq_true ⟨hfree, hother⟩)
        rw [hnext]
        refine ⟨h.clock, fun thread' => ?_, h.attempts, h.decisions⟩
        rcases eq_or_ne thread' thread with rfl | hthread
        · rw [h.waiting, hfree, waiting_wait_self]
          exact (if_neg (by simpa using hne)).symm
        · rw [waiting_wait_ne s other hthread, h.waiting]
  | enters thread =>
      rcases next_enters users s thread with ⟨-, hnext⟩ | ⟨w, hwaiting, hnext⟩
      · rwa [hnext]
      · have hne : w.uid ≠ uid := by
          rintro rfl
          exact he (by simp [concerns, hwaiting])
        rw [hnext]
        refine ⟨h.clock, fun thread' => ?_, ?_, ?_⟩
        · rcases eq_or_ne thread' thread with rfl | hthread
          · rw [h.waiting, hwaiting, waiting_consume_self]
            simp [hne]
          · rw [waiting_consume_ne s w hthread, h.waiting]
        · exact h.attempts.trans (Function.update_of_ne hne.symm ..).symm
        · rw [h.decisions, decisionsOf_consume_ne s thread hne]

theorem agree_alone {users : List Nat} {uid : Nat} {s t : State} (h : Agree uid s t)
    (events : List Event) :
    Agree uid (events.foldl (next users) s) ((alone users uid s events).foldl (next users) t) := by
  induction events generalizing s t with
  | nil => exact h
  | cons e events ih =>
      rw [alone]
      by_cases he : concerns uid s e = true
      · rw [if_pos he]
        exact ih (agree_concerned h he)
      · rw [if_neg he]
        exact ih (agree_unconcerned h he)

/-! ## Users that are not configured -/

structure Configured (users : List Nat) (s : State) : Prop where
  waiting : ∀ thread, ∀ w ∈ s.waiting thread, w.uid ∈ users
  attempts : ∀ uid, uid ∉ users → s.attempts uid = none
  decisions : ∀ d ∈ s.decisions, d.uid ∈ users

theorem configured_initial (users : List Nat) : Configured users {} where
  waiting _ _ h := nomatch h
  attempts _ _ := rfl
  decisions _ h := absurd h List.not_mem_nil

theorem configured_next {users : List Nat} (s : State) (e : Event) (h : Configured users s) :
    Configured users (next users s e) := by
  cases e with
  | elapses duration => exact ⟨h.waiting, h.attempts, h.decisions⟩
  | reads thread request =>
      rcases next_reads users s thread request with hnext | ⟨uid, hmem, -, -, hnext⟩
      · rwa [hnext]
      · rw [hnext]
        refine ⟨fun other w hw => ?_, h.attempts, h.decisions⟩
        rcases waiting_wait s thread uid hw with rfl | hold
        · exact hmem
        · exact h.waiting other w hold
  | enters thread =>
      rcases next_enters users s thread with ⟨-, hnext⟩ | ⟨w, hwaiting, hnext⟩
      · rwa [hnext]
      · have hmem := h.waiting thread w hwaiting
        rw [hnext]
        refine ⟨fun other v hv => h.waiting other v (waiting_consume s thread w hv),
          fun uid huid => ?_, List.forall_mem_cons.mpr ⟨hmem, h.decisions⟩⟩
        have hne : uid ≠ w.uid := fun heq => huid (heq ▸ hmem)
        exact (Function.update_of_ne hne ..).trans (h.attempts uid huid)

/-- Every run in which no attempt is forgotten too soon is limited. That a user's attempts
are decided as if there were no others, and that only configured users have any, needs no
condition. -/
theorem rateLimit_holds {users : List Nat} {events : List Event}
    (h : Allowed (next users) (Spared window) {} events) :
    Limited window (events.foldl (next users) {})
      ∧ (∀ uid, decisionsOf uid (events.foldl (next users) {})
          = decisionsOf uid ((alone users uid {} events).foldl (next users) {}))
      ∧ Configured users (events.foldl (next users) {}) := by
  refine ⟨limited_of_spared (Guarded.start.foldl h), fun uid => ?_, ?_⟩
  · exact (agree_alone (agree_initial uid) events).decisions.symm
  · exact (Guarded.run events {}).invariant (configured_initial users) fun s e hs _ =>
      configured_next s e hs

/-! ## A delay -/

def sampleRequest : Json := .obj [("uid", .uint 1000)]

/-- A handler reads the clock and waits for ten seconds, and four others come. After
twenty more seconds the first attempt is forgotten and one more is let in. -/
def delayedRun : List Event :=
  [.reads 0 sampleRequest, .elapses ⟨10, by norm_num⟩, .enters 0]
    ++ [1, 2, 3, 4].flatMap (fun thread => [.reads thread sampleRequest, .enters thread])
    ++ [.elapses ⟨20, by norm_num⟩, .reads 5 sampleRequest, .enters 5]

/-- Six attempts in twenty seconds. -/
theorem delayedRun_notLimited : ¬ Limited window (delayedRun.foldl (next [1000]) {}) := by
  intro h
  have hcount : admissions (delayedRun.foldl (next [1000]) {}) 1000 10 30 = 6 := by
    decide +kernel
  have hle := h 1000 10 30 (by norm_num [window])
  rw [hcount] at hle
  exact absurd hle (by decide)

instance (span : ℚ) (s : State) : (event : Event) → Decidable (Spared span s event)
  | .enters thread => inferInstanceAs (Decidable (∀ w ∈ s.waiting thread,
      ∀ attempt ∈ recorded s w.uid,
        window ≤ w.now - attempt.stamp → span ≤ s.clock - attempt.admitted))
  | .elapses _ => inferInstanceAs (Decidable True)
  | .reads _ _ => inferInstanceAs (Decidable True)

def prompt (thread : Nat) : List Event := [.reads thread sampleRequest, .enters thread]

/-- Five attempts are let in and a sixth is not. After thirty seconds one more is. -/
def promptRun : List Event :=
  [0, 1, 2, 3, 4, 5].flatMap prompt ++ [.elapses ⟨30, by norm_num⟩] ++ prompt 6

theorem promptRun_limited :
    (promptRun.foldl (next [1000]) {}).decisions.map (·.admitted)
        = [true, false, true, true, true, true, true]
    ∧ Limited window (promptRun.foldl (next [1000]) {})
    ∧ (∀ uid, decisionsOf uid (promptRun.foldl (next [1000]) {})
        = decisionsOf uid ((alone [1000] uid {} promptRun).foldl (next [1000]) {}))
    ∧ Configured [1000] (promptRun.foldl (next [1000]) {}) :=
  ⟨by decide +kernel, rateLimit_holds (by decide +kernel)⟩

end Spaces.Authentication.RateLimit
