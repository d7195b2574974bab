import Spaces.Library.Routine

/-!
# Routines on a part of the state

A routine that knows only a part of the state can be performed `within` one that knows
all of it. It has the same faults to come, and every state it passes is one of the
whole. What it raises is named as the whole names it.

There are more ways to build a routine: `probe` asks the outside a question that may be
answered either way, `ignoring` goes on whatever is raised, and `whenever` may do
nothing.
-/

namespace Spaces.Library.Routine

variable {σ τ ε ε' α : Type}

def within (get : σ → τ) (put : σ → τ → σ) (fail : ε → ε') (m : Routine τ ε α) :
    Routine σ ε' α := fun t =>
  let result := m { state := get t.state, faults := t.faults }
  (result.1.mapError fail,
    { state := put t.state result.2.state
      faults := result.2.faults
      passed := result.2.passed.map (put t.state) ++ t.passed })

/-- The answer is no if the coming operation has a fault. -/
def probe : Routine σ ε Bool := fun t => (.ok (t.faults.headD .none == .none), t.next)

def ignoring (m : Routine σ ε Unit) : Routine σ ε Unit := tryCatch m fun _ => pure ()

def whenever (condition : Bool) (m : Routine σ ε Unit) : Routine σ ε Unit :=
  if condition then m else pure ()

namespace Meets

variable {always pre : σ → Prop} {raised : ε → σ → Prop}

theorem probe {post : Bool → σ → Prop} (h : ∀ s, pre s → ∀ answer, post answer s) :
    Meets always pre (Routine.probe : Routine σ ε Bool) post raised :=
  fun t hpassed hpre => ⟨hpassed, h t.state hpre _⟩

theorem ignoring {m : Routine σ ε Unit} {post : Unit → σ → Prop}
    (hm : Meets always pre m post fun _ => post ()) :
    Meets always pre (Routine.ignoring m) post raised :=
  tryCatch hm fun _ => pure fun _ h => h

theorem whenever {condition : Bool} {m : Routine σ ε Unit} {post : Unit → σ → Prop}
    (hm : condition = true → Meets always pre m post raised)
    (hskip : condition = false → ∀ s, pre s → post () s) :
    Meets always pre (Routine.whenever condition m) post raised := by
  cases condition with
  | true => exact hm rfl
  | false => exact pure (hskip rfl)

theorem raising {m : Routine σ ε α} {post : α → σ → Prop} {raised' : ε → σ → Prop}
    (hm : Meets always pre m post raised) (himp : ∀ e s, raised e s → raised' e s) :
    Meets always pre m post raised' :=
  hm.weaken (fun _ h => h) (fun _ _ h => h) himp

/-- One of the states it may start from. -/
theorem start {m : Routine σ ε α} {post : α → σ → Prop} {s : σ}
    (hm : Meets always pre m post raised) (hs : pre s) : Meets always (· = s) m post raised :=
  hm.weaken (fun _ h => h ▸ hs) (fun _ _ h => h) fun _ _ h => h

/-- What is raised is not the routine's own business where it cannot be. -/
theorem of_false {m : Routine σ ε α} {post : α → σ → Prop}
    (hm : Meets always pre m post fun _ _ => False) : Meets always pre m post raised :=
  hm.weaken (fun _ h => h) (fun _ _ h => h) fun _ _ h => h.elim

/-- What a routine meets for two reasons it meets for both. -/
theorem and {m : Routine σ ε α} {pre' : σ → Prop} {post post' : α → σ → Prop}
    {raised' : ε → σ → Prop} (hm : Meets always pre m post raised)
    (hm' : Meets always pre' m post' raised') :
    Meets always (fun s => pre s ∧ pre' s) m (fun a s => post a s ∧ post' a s)
      fun e s => raised e s ∧ raised' e s := by
  rintro t hpassed ⟨hpre, hpre'⟩
  have h := hm t hpassed hpre
  have h' := hm' t hpassed hpre'
  match m t, h, h' with
  | (.ok _, _), h, h' => exact ⟨h.1, h.2, h'.2⟩
  | (.error _, _), h, h' => exact ⟨h.1, h.2, h'.2⟩

/-- The part meets what it has to, wherever the whole starts from. -/
theorem within {get : σ → τ} {put : σ → τ → σ} {fail : ε' → ε} {m : Routine τ ε' α}
    {post : α → σ → Prop}
    (h : ∀ s, pre s → Meets (fun x => always (put s x)) (· = get s) m
      (fun a x => post a (put s x)) fun e x => raised (fail e) (put s x)) :
    Meets always pre (Routine.within get put fail m) post raised := by
  intro t hpassed hpre
  have hpart := h t.state hpre { state := get t.state, faults := t.faults } nofun rfl
  have hall : ∀ passed : List τ, (∀ x ∈ passed, always (put t.state x)) →
      ∀ s ∈ passed.map (put t.state) ++ t.passed, always s := by
    intro passed hpart s hs
    rcases List.mem_append.mp hs with hs | hs
    · obtain ⟨x, hx, rfl⟩ := List.mem_map.mp hs
      exact hpart x hx
    · exact hpassed s hs
  unfold Routine.within
  dsimp only
  match m { state := get t.state, faults := t.faults }, hpart with
  | (.ok a, t'), ⟨hpoints, hpost⟩ => exact ⟨hall t'.passed hpoints, hpost⟩
  | (.error e, t'), ⟨hpoints, hraised⟩ => exact ⟨hall t'.passed hpoints, hraised⟩

end Meets

namespace Completes

variable {pre : σ → Prop}

/-- An operation that can be done is, also one that may raise afterwards. -/
theorem perform {exception : ε} {effect : σ → Option σ} {post : Unit → σ → Prop}
    (h : ∀ s, pre s → ∃ s', effect s = some s' ∧ post () s') :
    Completes pre (Routine.perform exception effect) post := by
  intro t hfaults hpre
  obtain ⟨s, heffect, hpost⟩ := h t.state hpre
  refine ⟨(), t.next.pass s, ?_, ?_, hpost⟩
  · rw [Routine.perform, hfaults, heffect]
    rfl
  · show t.faults.tail = []
    rw [hfaults]
    rfl

theorem whenever {condition : Bool} {m : Routine σ ε Unit} {post : Unit → σ → Prop}
    (hm : condition = true → Completes pre m post)
    (hskip : condition = false → ∀ s, pre s → post () s) :
    Completes pre (Routine.whenever condition m) post := by
  cases condition with
  | true => exact hm rfl
  | false => exact pure (hskip rfl)

/-- One of the states it may start from. -/
theorem start {m : Routine σ ε α} {post : α → σ → Prop} {s : σ} (hm : Completes pre m post)
    (hs : pre s) : Completes (· = s) m post :=
  hm.weaken (fun _ h => h ▸ hs) fun _ _ h => h

end Completes

end Spaces.Library.Routine
