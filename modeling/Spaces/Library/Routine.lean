import Mathlib.Data.List.Basic

/-!
# Routines whose operations may fail

A routine performs operations on the outside, one after another, and each may
raise before it has done anything or after. What the operations will do is given
beforehand, as a list of faults. Every state that a routine passes is recorded,
for some facts have to hold at every point and not at the end alone.

`Meets always pre m post raised` is the judgement for this: started where `pre`
holds, `m` passes only states where `always` holds, and leaves one where `post`
holds, or `raised` if it raises. There is one rule for each way to build a
routine.
-/

namespace Spaces.Library

inductive Fault
  | none
  /-- It raises and has done nothing. -/
  | before
  /-- It raises when it has done its work. -/
  | after
  deriving DecidableEq

structure Trial (σ : Type) where
  state : σ
  /-- What the coming operations do; those that are not listed succeed. -/
  faults : List Fault := []
  /-- The states passed, the latest first. -/
  passed : List σ := []

/-- The trial goes on in another state. -/
def Trial.pass {σ : Type} (t : Trial σ) (s : σ) : Trial σ :=
  { t with state := s, passed := s :: t.passed }

/-- The next operation is over. -/
def Trial.next {σ : Type} (t : Trial σ) : Trial σ := { t with faults := t.faults.tail }

def Routine (σ ε α : Type) : Type := Trial σ → Except ε α × Trial σ

variable {σ ε α β : Type}

namespace Routine

protected def bind (m : Routine σ ε α) (f : α → Routine σ ε β) : Routine σ ε β := fun t =>
  match m t with
  | (.ok a, t') => f a t'
  | (.error e, t') => (.error e, t')

protected def recover (m : Routine σ ε α) (handle : ε → Routine σ ε α) : Routine σ ε α := fun t =>
  match m t with
  | (.ok a, t') => (.ok a, t')
  | (.error e, t') => handle e t'

instance : Monad (Routine σ ε) where
  pure a := fun t => (.ok a, t)
  bind := Routine.bind

instance : MonadExcept ε (Routine σ ε) where
  throw e := fun t => (.error e, t)
  tryCatch := Routine.recover

def look : Routine σ ε σ := fun t => (.ok t.state, t)

/-- A change of the worker's own, which cannot fail. -/
def update (f : σ → σ) : Routine σ ε Unit := fun t => (.ok (), t.pass (f t.state))

/-- An operation. It also raises where it cannot be done. -/
def perform (exception : ε) (effect : σ → Option σ) : Routine σ ε Unit := fun t =>
  match t.faults.headD .none, effect t.state with
  | .none, some s => (.ok (), t.next.pass s)
  | .after, some s => (.error exception, t.next.pass s)
  | _, _ => (.error exception, t.next)

/-- An operation of which it is known by name what it will do. -/
def performAs (fault : Fault) (exception : ε) (effect : σ → Option σ) : Routine σ ε Unit := fun t =>
  match fault, effect t.state with
  | .none, some s => (.ok (), t.pass s)
  | .after, some s => (.error exception, t.pass s)
  | _, _ => (.error exception, t)

/-- An operation that has no effect when it raises. -/
def performClean (exception : ε) (effect : σ → Option σ) : Routine σ ε Unit := fun t =>
  match t.faults.headD .none, effect t.state with
  | .none, some s => (.ok (), t.next.pass s)
  | _, _ => (.error exception, t.next)

def forEach (f : α → Routine σ ε Unit) : List α → Routine σ ε Unit
  | [] => pure ()
  | a :: rest => do
      f a
      forEach f rest

theorem bind_of_ok {m : Routine σ ε α} {f : α → Routine σ ε β} {t t' : Trial σ} {a : α}
    (h : m t = (.ok a, t')) : (m >>= f) t = f a t' := by
  show Routine.bind m f t = _
  rw [Routine.bind, h]

theorem tryCatch_of_ok {m : Routine σ ε α} {handle : ε → Routine σ ε α} {t t' : Trial σ} {a : α}
    (h : m t = (.ok a, t')) : (tryCatch m handle) t = (.ok a, t') := by
  show Routine.recover m handle t = _
  rw [Routine.recover, h]

/-! ## The judgement -/

/-- What holds of the states passed, and of the last by the outcome. -/
def Holds (always : σ → Prop) (post : α → σ → Prop) (raised : ε → σ → Prop) :
    Except ε α × Trial σ → Prop
  | (.ok a, t) => (∀ s ∈ t.passed, always s) ∧ post a t.state
  | (.error e, t) => (∀ s ∈ t.passed, always s) ∧ raised e t.state

def Meets (always pre : σ → Prop) (m : Routine σ ε α) (post : α → σ → Prop)
    (raised : ε → σ → Prop) : Prop :=
  ∀ t : Trial σ, (∀ s ∈ t.passed, always s) → pre t.state → Holds always post raised (m t)

variable {always pre pre' : σ → Prop} {post post' : α → σ → Prop} {after : β → σ → Prop}
  {raised raised' : ε → σ → Prop} {m : Routine σ ε α}

/-- By either outcome the states passed are fine. -/
theorem Holds.points {result : Except ε α × Trial σ} (h : Holds always post raised result) :
    ∀ s ∈ result.2.passed, always s := by
  match result, h with
  | (.ok _, _), h => exact h.1
  | (.error _, _), h => exact h.1

namespace Meets

theorem pure {a : α} (h : ∀ s, pre s → post a s) :
    Meets always pre (Pure.pure a : Routine σ ε α) post raised :=
  fun t hpassed hpre => ⟨hpassed, h t.state hpre⟩

theorem bind {f : α → Routine σ ε β} {Q : α → σ → Prop} (hm : Meets always pre m Q raised)
    (hf : ∀ a, Meets always (Q a) (f a) after raised) :
    Meets always pre (m >>= f) after raised := by
  intro t hpassed hpre
  have hfirst := hm t hpassed hpre
  show Holds always after raised (Routine.bind m f t)
  unfold Routine.bind
  split
  · next a t' hrun =>
      rw [hrun] at hfirst
      exact hf a t' hfirst.1 hfirst.2
  · next e t' hrun =>
      rw [hrun] at hfirst
      exact hfirst

theorem tryCatch {handle : ε → Routine σ ε α} (hm : Meets always pre m post raised')
    (hhandle : ∀ e, Meets always (raised' e) (handle e) post raised) :
    Meets always pre (MonadExcept.tryCatch m handle) post raised := by
  intro t hpassed hpre
  have hfirst := hm t hpassed hpre
  show Holds always post raised (Routine.recover m handle t)
  unfold Routine.recover
  split
  · next a t' hrun =>
      rw [hrun] at hfirst
      exact hfirst
  · next e t' hrun =>
      rw [hrun] at hfirst
      exact hhandle e t' hfirst.1 hfirst.2

theorem throw {e : ε} (h : ∀ s, pre s → raised e s) :
    Meets always pre (MonadExcept.throw e : Routine σ ε α) post raised :=
  fun t hpassed hpre => ⟨hpassed, h t.state hpre⟩

theorem look {post : σ → σ → Prop} (h : ∀ s, pre s → post s s) :
    Meets always pre (Routine.look : Routine σ ε σ) post raised :=
  fun t hpassed hpre => ⟨hpassed, h t.state hpre⟩

theorem update {f : σ → σ} {post : Unit → σ → Prop}
    (h : ∀ s, pre s → always (f s) ∧ post () (f s)) :
    Meets always pre (Routine.update f : Routine σ ε Unit) post raised := by
  intro t hpassed hpre
  obtain ⟨halways, hpost⟩ := h t.state hpre
  exact ⟨List.forall_mem_cons.mpr ⟨halways, hpassed⟩, hpost⟩

/-- What an operation needs: where it takes effect the new state is fine, by either
outcome, and where it does not the old one is. -/
theorem perform {exception : ε} {effect : σ → Option σ} {post : Unit → σ → Prop}
    (hsome : ∀ s s', pre s → effect s = some s' →
      always s' ∧ post () s' ∧ raised exception s')
    (hsame : ∀ s, pre s → raised exception s) :
    Meets always pre (Routine.perform exception effect) post raised := by
  intro t hpassed hpre
  unfold Routine.perform
  split
  · next s _ hs =>
      obtain ⟨halways, hpost, -⟩ := hsome t.state s hpre hs
      exact ⟨List.forall_mem_cons.mpr ⟨halways, hpassed⟩, hpost⟩
  · next s _ hs =>
      obtain ⟨halways, -, hraised⟩ := hsome t.state s hpre hs
      exact ⟨List.forall_mem_cons.mpr ⟨halways, hpassed⟩, hraised⟩
  · exact ⟨hpassed, hsame t.state hpre⟩

theorem performAs {fault : Fault} {exception : ε} {effect : σ → Option σ}
    {post : Unit → σ → Prop}
    (hsome : ∀ s s', pre s → effect s = some s' → fault ≠ .before → always s' ∧
      (fault = .none → post () s') ∧ (fault = .after → raised exception s'))
    (hsame : ∀ s, pre s → (fault ≠ .before → effect s = none) → raised exception s) :
    Meets always pre (Routine.performAs fault exception effect) post raised := by
  intro t hpassed hpre
  cases heffect : effect t.state with
  | none =>
      have hnone : Routine.performAs fault exception effect t = (.error exception, t) := by
        unfold Routine.performAs
        rw [heffect]
        cases fault <;> rfl
      rw [hnone]
      exact ⟨hpassed, hsame t.state hpre fun _ => heffect⟩
  | some s =>
      unfold Routine.performAs
      rw [heffect]
      cases fault with
      | none =>
          obtain ⟨halways, hpost, -⟩ := hsome t.state s hpre heffect (by decide)
          exact ⟨List.forall_mem_cons.mpr ⟨halways, hpassed⟩, hpost rfl⟩
      | before => exact ⟨hpassed, hsame t.state hpre fun hne => absurd rfl hne⟩
      | after =>
          obtain ⟨halways, -, hraised⟩ := hsome t.state s hpre heffect (by decide)
          exact ⟨List.forall_mem_cons.mpr ⟨halways, hpassed⟩, hraised rfl⟩

theorem performClean {exception : ε} {effect : σ → Option σ} {post : Unit → σ → Prop}
    (hsome : ∀ s s', pre s → effect s = some s' → always s' ∧ post () s')
    (hsame : ∀ s, pre s → raised exception s) :
    Meets always pre (Routine.performClean exception effect) post raised := by
  intro t hpassed hpre
  unfold Routine.performClean
  split
  · next s _ hs =>
      obtain ⟨halways, hpost⟩ := hsome t.state s hpre hs
      exact ⟨List.forall_mem_cons.mpr ⟨halways, hpassed⟩, hpost⟩
  · exact ⟨hpassed, hsame t.state hpre⟩

theorem weaken (hm : Meets always pre m post raised) (hpre : ∀ s, pre' s → pre s)
    (hpost : ∀ a s, post a s → post' a s) (hraised : ∀ e s, raised e s → raised' e s) :
    Meets always pre' m post' raised' := by
  intro t hpassed hpre'
  have h := hm t hpassed (hpre _ hpre')
  match m t, h with
  | (.ok a, t'), h => exact ⟨h.1, hpost a t'.state h.2⟩
  | (.error e, t'), h => exact ⟨h.1, hraised e t'.state h.2⟩

/-- The invariant of a loop is about what is left to do. -/
theorem forEach {f : α → Routine σ ε Unit} {inv : List α → σ → Prop} {as : List α}
    (hstep : ∀ a rest, Meets always (inv (a :: rest)) (f a) (fun _ => inv rest) raised) :
    Meets always (inv as) (Routine.forEach f as) (fun _ => inv []) raised := by
  induction as with
  | nil => exact pure fun _ h => h
  | cons a rest ih => exact bind (hstep a rest) fun _ => ih

/-- A judgement holds if it does from every state there may be. -/
theorem each (h : ∀ s, pre s → Meets always (· = s) m post raised) :
    Meets always pre m post raised :=
  fun t hpassed hpre => h t.state hpre t hpassed rfl

/-- What is looked at is the state there is. -/
theorem looked {f : σ → Routine σ ε β} {s : σ} (h : Meets always (· = s) (f s) after raised) :
    Meets always (· = s) (Routine.look >>= f) after raised := by
  rintro t hpassed rfl
  exact h t hpassed rfl

end Meets

/-! ## Completion -/

/-- Where nothing fails, the routine comes to its end. -/
def Completes (pre : σ → Prop) (m : Routine σ ε α) (post : α → σ → Prop) : Prop :=
  ∀ t : Trial σ, t.faults = [] → pre t.state →
    ∃ a t', m t = (.ok a, t') ∧ t'.faults = [] ∧ post a t'.state

namespace Completes

theorem pure {a : α} (h : ∀ s, pre s → post a s) :
    Completes pre (Pure.pure a : Routine σ ε α) post :=
  fun t hfaults hpre => ⟨a, t, rfl, hfaults, h t.state hpre⟩

theorem bind {f : α → Routine σ ε β} {Q : α → σ → Prop} (hm : Completes pre m Q)
    (hf : ∀ a, Completes (Q a) (f a) after) : Completes pre (m >>= f) after := by
  intro t hfaults hpre
  obtain ⟨a, t', hrun, hfaults', hpost⟩ := hm t hfaults hpre
  rw [bind_of_ok hrun]
  exact hf a t' hfaults' hpost

theorem tryCatch {handle : ε → Routine σ ε α} (hm : Completes pre m post) :
    Completes pre (MonadExcept.tryCatch m handle) post := by
  intro t hfaults hpre
  obtain ⟨a, t', hrun, hdone⟩ := hm t hfaults hpre
  exact ⟨a, t', tryCatch_of_ok hrun, hdone⟩

theorem look {post : σ → σ → Prop} (h : ∀ s, pre s → post s s) :
    Completes pre (Routine.look : Routine σ ε σ) post :=
  fun t hfaults hpre => ⟨t.state, t, rfl, hfaults, h t.state hpre⟩

theorem update {f : σ → σ} {post : Unit → σ → Prop} (h : ∀ s, pre s → post () (f s)) :
    Completes pre (Routine.update f : Routine σ ε Unit) post :=
  fun t hfaults hpre => ⟨(), _, rfl, hfaults, h t.state hpre⟩

/-- An operation that can be done is. -/
theorem performClean {exception : ε} {effect : σ → Option σ} {post : Unit → σ → Prop}
    (h : ∀ s, pre s → ∃ s', effect s = some s' ∧ post () s') :
    Completes pre (Routine.performClean exception effect) post := by
  intro t hfaults hpre
  obtain ⟨s, heffect, hpost⟩ := h t.state hpre
  refine ⟨(), t.next.pass s, ?_, ?_, hpost⟩
  · rw [Routine.performClean, hfaults, heffect]
    rfl
  · show t.faults.tail = []
    rw [hfaults]
    rfl

theorem forEach {f : α → Routine σ ε Unit} {inv : List α → σ → Prop} {as : List α}
    (hstep : ∀ a rest, Completes (inv (a :: rest)) (f a) (fun _ => inv rest)) :
    Completes (inv as) (Routine.forEach f as) (fun _ => inv []) := by
  induction as with
  | nil => exact pure fun _ h => h
  | cons a rest ih => exact bind (hstep a rest) fun _ => ih

theorem each (h : ∀ s, pre s → Completes (· = s) m post) : Completes pre m post :=
  fun t hfaults hpre => h t.state hpre t hfaults rfl

theorem looked {f : σ → Routine σ ε β} {s : σ} (h : Completes (· = s) (f s) after) :
    Completes (· = s) (Routine.look >>= f) after := by
  rintro t hfaults rfl
  exact h t hfaults rfl

theorem weaken (hm : Completes pre m post) (hpre : ∀ s, pre' s → pre s)
    (hpost : ∀ a s, post a s → post' a s) : Completes pre' m post' := by
  intro t hfaults hpre'
  obtain ⟨a, t', hrun, hfaults', hdone⟩ := hm t hfaults (hpre _ hpre')
  exact ⟨a, t', hrun, hfaults', hpost a t'.state hdone⟩

/-- What the routine comes to is what it meets. -/
theorem of_meets (hm : Completes pre m fun _ _ => True)
    (hmeets : Meets (fun _ => True) pre m post raised) : Completes pre m post := by
  intro t hfaults hpre
  obtain ⟨a, t', hrun, hfaults', -⟩ := hm t hfaults hpre
  have hholds := hmeets t (fun _ _ => trivial) hpre
  rw [hrun] at hholds
  exact ⟨a, t', hrun, hfaults', hholds.2⟩

end Completes

end Routine

end Spaces.Library
