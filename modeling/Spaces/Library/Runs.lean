import Mathlib.Data.List.Induction
import Mathlib.Logic.Relation

/-!
# Runs of an event machine

A machine is a function that handles one event. What a run is allowed to
contain is a guard on each step, read in the state the step starts from, so
that one definition serves both "every reachable state" (the guard is `True`)
and "every run whose steps all meet a condition".

Every invariant of the development goes through `Guarded.invariant`, and every
statement about what a step may do goes through `Guarded.each`.
-/

namespace Spaces.Library

variable {σ ε : Type*}

/-- `Guarded next ok s t`: handling events one after another leads from `s` to
`t`, and each event met `ok` in the state it was handled in. -/
inductive Guarded (next : σ → ε → σ) (ok : σ → ε → Prop) (s : σ) : σ → Prop
  | start : Guarded next ok s s
  | step {t : σ} {e : ε} : Guarded next ok s t → ok t e →
      Guarded next ok s (next t e)

/-- Reachable without any condition on the events. -/
abbrev Reachable (next : σ → ε → σ) (s t : σ) : Prop :=
  Guarded next (fun _ _ => True) s t

/-- Each event of a list is allowed in the state it comes to. -/
def Allowed (next : σ → ε → σ) (ok : σ → ε → Prop) : σ → List ε → Prop
  | _, [] => True
  | s, e :: events => ok s e ∧ Allowed next ok (next s e) events

instance Allowed.decidable (next : σ → ε → σ) (ok : σ → ε → Prop) [∀ s e, Decidable (ok s e)] :
    (s : σ) → (events : List ε) → Decidable (Allowed next ok s events)
  | _, [] => inferInstanceAs (Decidable True)
  | s, e :: events =>
      have := Allowed.decidable next ok (next s e) events
      inferInstanceAs (Decidable (ok s e ∧ Allowed next ok (next s e) events))

/-- Conditions that agree on each step agree on the whole list. -/
theorem Allowed.congr {next : σ → ε → σ} {ok ok' : σ → ε → Prop}
    (h : ∀ s e, ok s e ↔ ok' s e) {events : List ε} :
    ∀ {s : σ}, Allowed next ok s events ↔ Allowed next ok' s events := by
  induction events with
  | nil => exact fun {_} => Iff.rfl
  | cons e events ih => exact fun {s} => and_congr (h s e) ih

namespace Guarded

variable {next : σ → ε → σ} {ok : σ → ε → Prop} {s t : σ}

/-- What holds at the start and is kept by every allowed step holds in every
state a run reaches. -/
theorem invariant {Inv : σ → Prop} (h : Guarded next ok s t) (hs : Inv s)
    (hstep : ∀ t e, Inv t → ok t e → Inv (next t e)) : Inv t := by
  induction h with
  | start => exact hs
  | step _ hok ih => exact hstep _ _ ih hok

/-- A run that meets a condition is a run. -/
theorem reachable (h : Guarded next ok s t) : Reachable next s t := by
  induction h with
  | start => exact .start
  | step _ _ ih => exact .step ih trivial

/-- A fact about one step, proved from an invariant of the run, holds of every
step the run can take next. -/
theorem each {Inv : σ → Prop} {P : σ → ε → Prop} (h : Guarded next ok s t)
    (hs : Inv s) (hstep : ∀ t e, Inv t → ok t e → Inv (next t e))
    (hP : ∀ t e, Inv t → ok t e → P t e) {e : ε} (he : ok t e) : P t e :=
  hP t e (h.invariant hs hstep) he

/-- A run goes on with the events of a list, if each is allowed when its turn
comes. -/
theorem foldl {events : List ε} :
    ∀ {t : σ}, Guarded next ok s t → Allowed next ok t events →
      Guarded next ok s (events.foldl next t) := by
  induction events with
  | nil => exact fun h _ => h
  | cons e events ih => exact fun h hallowed => ih (h.step hallowed.1) hallowed.2

/-- Handling the events of a list in turn is a run. -/
theorem run (events : List ε) (s : σ) : Reachable next s (events.foldl next s) := by
  induction events using List.reverseRecOn with
  | nil => exact .start
  | append_singleton events e ih =>
      rw [List.foldl_append]
      exact .step ih trivial

end Guarded

/-! ## What a trace owes -/

/-- Each event of a trace, its newest first, is one that the events before it
allow. -/
def Always (allowed : List ε → ε → Prop) (trace : List ε) : Prop :=
  ∀ event earlier, event :: earlier <:+ trace → allowed earlier event

namespace Always

variable {allowed : List ε → ε → Prop} {trace : List ε}

theorem nil : Always allowed [] := by
  intro event earlier h
  cases List.suffix_nil.mp h

theorem cons (h : Always allowed trace) {event : ε} (hevent : allowed trace event) :
    Always allowed (event :: trace) := by
  intro other earlier hsuffix
  rcases List.suffix_cons_iff.mp hsuffix with heq | hsuffix
  · cases heq
    exact hevent
  · exact h other earlier hsuffix

end Always

end Spaces.Library
