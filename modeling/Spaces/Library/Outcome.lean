import Mathlib.Data.List.Forall2

/-!
# Computations that may fail

What is known of the parts when a computation in `Except` has succeeded.
-/

namespace Spaces.Library.Outcome

variable {ε α β : Type}

theorem bind_eq_ok {x : Except ε α} {f : α → Except ε β} {b : β} :
    x >>= f = .ok b ↔ ∃ a, x = .ok a ∧ f a = .ok b := by
  cases x with
  | error e =>
      constructor
      · intro h
        cases h
      · rintro ⟨a, h, -⟩
        cases h
  | ok a =>
      constructor
      · intro h
        exact ⟨a, rfl, h⟩
      · rintro ⟨a', h, hf⟩
        cases h
        exact hf

theorem map_eq_ok {x : Except ε α} {f : α → β} {b : β} :
    x.map f = .ok b ↔ ∃ a, x = .ok a ∧ f a = b := by
  cases x with
  | error e =>
      constructor
      · intro h
        cases h
      · rintro ⟨a, h, -⟩
        cases h
  | ok a =>
      constructor
      · intro h
        cases h
        exact ⟨a, rfl, rfl⟩
      · rintro ⟨a', h, rfl⟩
        cases h
        rfl

theorem mapError_eq_ok {ε' : Type} {x : Except ε α} {f : ε → ε'} {a : α} :
    x.mapError f = .ok a ↔ x = .ok a := by
  cases x with
  | error e =>
      constructor
      · intro h
        cases h
      · intro h
        cases h
  | ok a' =>
      constructor
      · intro h
        cases h
        rfl
      · intro h
        cases h
        rfl

/-- What every step of a fold keeps holds at its end. -/
theorem foldlM_ok {f : β → α → Except ε β} {P : β → Prop} {as : List α}
    (hstep : ∀ a ∈ as, ∀ b b', P b → f b a = .ok b' → P b') :
    ∀ {b b' : β}, P b → as.foldlM f b = .ok b' → P b' := by
  induction as with
  | nil =>
      intro b b' hb h
      cases h
      exact hb
  | cons a as ih =>
      intro b b' hb h
      rw [List.foldlM_cons] at h
      obtain ⟨next, hnext, h⟩ := bind_eq_ok.mp h
      exact ih (fun a' ha' => hstep a' (List.mem_cons_of_mem a ha'))
        (hstep a List.mem_cons_self b next hb hnext) h

theorem mapM_ok {f : α → Except ε β} {as : List α} {bs : List β} (h : as.mapM f = .ok bs) :
    List.Forall₂ (fun a b => f a = .ok b) as bs := by
  induction as generalizing bs with
  | nil =>
      cases h
      exact .nil
  | cons a as ih =>
      rw [List.mapM_cons] at h
      obtain ⟨b, hb, h⟩ := bind_eq_ok.mp h
      obtain ⟨rest, hrest, h⟩ := bind_eq_ok.mp h
      cases h
      exact .cons hb (ih hrest)

theorem map_isOk {x : Except ε α} {f : α → β} : (∃ b, x.map f = .ok b) ↔ ∃ a, x = .ok a := by
  cases x with
  | error e => exact ⟨fun ⟨_, h⟩ => (by cases h), fun ⟨_, h⟩ => by cases h⟩
  | ok a => exact ⟨fun _ => ⟨a, rfl⟩, fun _ => ⟨f a, rfl⟩⟩

theorem mapM_mem {f : α → Except ε β} {as : List α} {bs : List β} (h : as.mapM f = .ok bs) :
    (∀ a ∈ as, ∃ b ∈ bs, f a = .ok b) ∧ ∀ b ∈ bs, ∃ a ∈ as, f a = .ok b := by
  have hpairs := mapM_ok h
  clear h
  induction hpairs with
  | nil => exact ⟨fun a ha => absurd ha List.not_mem_nil, fun b hb => absurd hb List.not_mem_nil⟩
  | cons hfirst _ ih =>
      obtain ⟨hleft, hright⟩ := ih
      refine ⟨fun a ha => ?_, fun b hb => ?_⟩
      · rcases List.mem_cons.mp ha with rfl | ha
        · exact ⟨_, List.mem_cons_self .., hfirst⟩
        · obtain ⟨b, hb, hok⟩ := hleft a ha
          exact ⟨b, List.mem_cons_of_mem _ hb, hok⟩
      · rcases List.mem_cons.mp hb with rfl | hb
        · exact ⟨_, List.mem_cons_self .., hfirst⟩
        · obtain ⟨a, ha, hok⟩ := hright b hb
          exact ⟨a, List.mem_cons_of_mem _ ha, hok⟩

theorem mapM_isOk {f : α → Except ε β} {as : List α} :
    (∃ bs, as.mapM f = .ok bs) ↔ ∀ a ∈ as, ∃ b, f a = .ok b := by
  induction as with
  | nil => exact ⟨fun _ a ha => absurd ha List.not_mem_nil, fun _ => ⟨[], rfl⟩⟩
  | cons a as ih =>
      rw [List.forall_mem_cons, ← ih, List.mapM_cons]
      constructor
      · rintro ⟨bs, h⟩
        obtain ⟨b, hb, h⟩ := bind_eq_ok.mp h
        obtain ⟨rest, hrest, -⟩ := bind_eq_ok.mp h
        exact ⟨⟨b, hb⟩, rest, hrest⟩
      · rintro ⟨⟨b, hb⟩, rest, hrest⟩
        exact ⟨b :: rest, by rw [hb, hrest]; rfl⟩

/-! ## Failures of a kind -/

/-- The computation fails, and with an error of this kind. -/
def Fails (bad : ε → Prop) (x : Except ε α) : Prop := ∃ e, x = .error e ∧ bad e

theorem not_fails_ok {bad : ε → Prop} {a : α} : ¬ Fails bad (.ok a) := by
  rintro ⟨e, h, -⟩
  cases h

theorem fails_error {bad : ε → Prop} {e : ε} :
    Fails bad (.error e : Except ε α) ↔ bad e := by
  constructor
  · rintro ⟨e', h, hbad⟩
    cases h
    exact hbad
  · intro hbad
    exact ⟨e, rfl, hbad⟩

theorem fails_bind {bad : ε → Prop} {x : Except ε α} {f : α → Except ε β} :
    Fails bad (x >>= f) ↔ Fails bad x ∨ ∃ a, x = .ok a ∧ Fails bad (f a) := by
  cases x with
  | error e =>
      constructor
      · rintro ⟨e', h, hbad⟩
        cases h
        exact .inl ⟨e, rfl, hbad⟩
      · rintro (⟨e', h, hbad⟩ | ⟨a, h, -⟩)
        · cases h
          exact ⟨e, rfl, hbad⟩
        · cases h
  | ok a =>
      constructor
      · intro h
        exact .inr ⟨a, rfl, h⟩
      · rintro (⟨e', h, -⟩ | ⟨a', h, hfails⟩)
        · cases h
        · cases h
          exact hfails

theorem fails_mapError {ε' : Type} {bad : ε' → Prop} {x : Except ε α} {f : ε → ε'} :
    Fails bad (x.mapError f) ↔ Fails (fun e => bad (f e)) x := by
  cases x with
  | error e =>
      rw [fails_error]
      exact fails_error
  | ok a => exact iff_of_false not_fails_ok not_fails_ok

end Spaces.Library.Outcome
