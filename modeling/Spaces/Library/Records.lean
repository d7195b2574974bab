import Mathlib.Data.List.Nodup

/-!
# A list of records that is changed at one place

A new record takes the place of an old one, or comes in where there was none. What the
change needs to keep a column free of repetitions is that no other record has the new
one's key; whoever passes over both the old and the new one sees no change.
-/

namespace Spaces.Library.Records

variable {α κ : Type}

/-! ## The index of a record -/

/-- The index that a dictionary from the keys to the indices holds: the last one. -/
def lastIdx? (p : α → Bool) : List α → Option Nat
  | [] => none
  | a :: rest =>
      match lastIdx? p rest with
      | some i => some (i + 1)
      | none => if p a then some 0 else none

theorem lastIdx?_eq_none {p : α → Bool} {t : List α} :
    lastIdx? p t = none ↔ ∀ a ∈ t, p a = false := by
  induction t with
  | nil => simp [lastIdx?]
  | cons a rest ih =>
      rw [lastIdx?, List.forall_mem_cons]
      cases hrest : lastIdx? p rest with
      | some i =>
          rw [hrest] at ih
          simp only [reduceCtorEq, false_iff, not_and]
          exact fun _ hall => absurd (ih.mpr hall) (by simp)
      | none =>
          dsimp only
          rw [← ih, hrest]
          simp

theorem lastIdx?_eq_some {p : α → Bool} {t : List α} {i : Nat} (h : lastIdx? p t = some i) :
    ∃ before a after, t = before ++ a :: after ∧ before.length = i ∧ p a = true ∧
      ∀ b ∈ after, p b = false := by
  induction t generalizing i with
  | nil => cases h
  | cons a rest ih =>
      rw [lastIdx?] at h
      cases hrest : lastIdx? p rest with
      | some j =>
          rw [hrest] at h
          obtain ⟨before, b, after, rfl, rfl, hb, hafter⟩ := ih hrest
          exact ⟨a :: before, b, after, rfl, Option.some.inj h, hb, hafter⟩
      | none =>
          rw [hrest] at h
          dsimp only at h
          split at h
          · next ha =>
              exact ⟨[], a, rest, rfl, Option.some.inj h, ha, lastIdx?_eq_none.mp hrest⟩
          · cases h

theorem lastIdx?_split {p : α → Bool} {before after : List α} {a : α} (ha : p a = true)
    (hafter : ∀ b ∈ after, p b = false) :
    lastIdx? p (before ++ a :: after) = some before.length := by
  induction before with
  | nil =>
      rw [List.nil_append, lastIdx?, lastIdx?_eq_none.mpr hafter]
      exact if_pos ha
  | cons b before ih =>
      rw [List.cons_append, lastIdx?, ih]
      rfl

theorem modify_length_append (before after : List α) (a : α) (f : α → α) :
    (before ++ a :: after).modify before.length f = before ++ f a :: after := by
  induction before with
  | nil => rfl
  | cons b before ih =>
      rw [List.cons_append, List.length_cons, List.modify_succ_cons, ih, List.cons_append]

theorem findIdx?_split {p : α → Bool} {t : List α} {i : Nat} (h : t.findIdx? p = some i) :
    ∃ before a after, t = before ++ a :: after ∧ before.length = i ∧ p a = true ∧
      ∀ b ∈ before, p b = false := by
  induction t generalizing i with
  | nil => cases h
  | cons a rest ih =>
      rw [List.findIdx?_cons] at h
      split at h
      · next ha =>
          exact ⟨[], a, rest, rfl, Option.some.inj h, ha, by simp⟩
      · next ha =>
          obtain ⟨j, hj, rfl⟩ := Option.map_eq_some_iff.mp h
          obtain ⟨before, b, after, rfl, rfl, hb, hbefore⟩ := ih hj
          refine ⟨a :: before, b, after, rfl, rfl, hb, ?_⟩
          exact List.forall_mem_cons.mpr ⟨Bool.eq_false_iff.mpr ha, hbefore⟩

/-! ## The change -/

/-- The table `t'` has the record `new` between `before` and `after`, where the table `t`
has the record `old` or none. -/
structure Put (t t' : List α) (old : Option α) (new : α) (before after : List α) : Prop where
  source : t = before ++ (old.toList ++ after)
  target : t' = before ++ new :: after

namespace Put

variable {t t' before after : List α} {old : Option α} {new : α}

theorem at_end (t : List α) (new : α) : Put t (t ++ [new]) none new t [] :=
  ⟨by simp, rfl⟩

theorem mem_target (h : Put t t' old new before after) {a : α} :
    a ∈ t' ↔ a = new ∨ a ∈ before ++ after := by
  rw [h.target]
  simp only [List.mem_append, List.mem_cons]
  exact or_left_comm

theorem mem_source (h : Put t t' old new before after) {a : α} :
    a ∈ t ↔ old = some a ∨ a ∈ before ++ after := by
  rw [h.source]
  simp only [List.mem_append, Option.mem_toList]
  exact or_left_comm

theorem others (h : Put t t' old new before after) {a : α} (ha : a ∈ before ++ after) :
    a ∈ t :=
  h.mem_source.mpr (.inr ha)

theorem nodup (h : Put t t' old new before after) {key : α → κ} (ht : (t.map key).Nodup)
    (hnew : ∀ a ∈ before ++ after, key a ≠ key new) : (t'.map key).Nodup := by
  have hothers : ((before ++ after).map key).Nodup := by
    refine ht.sublist (List.Sublist.map key ?_)
    rw [h.source]
    exact List.Sublist.append_left (List.sublist_append_right _ _) before
  rw [h.target, (List.perm_middle.map key).nodup_iff, List.map_cons, List.nodup_cons]
  refine ⟨fun hmem => ?_, hothers⟩
  obtain ⟨a, ha, hkey⟩ := List.mem_map.mp hmem
  exact hnew a ha hkey

/-- Where the old record has a key, no other has it. -/
theorem others_ne (h : Put t t' old new before after) {key : α → κ} (ht : (t.map key).Nodup)
    {a b : α} (hold : old = some b) (ha : a ∈ before ++ after) : key a ≠ key b := by
  subst hold
  rw [h.source, Option.toList_some, List.singleton_append,
    (List.perm_middle.map key).nodup_iff, List.map_cons, List.nodup_cons] at ht
  exact fun heq => ht.1 (heq ▸ List.mem_map_of_mem ha)

theorem filter (h : Put t t' old new before after) {p : α → Bool} (hnew : p new = false)
    (hold : ∀ a ∈ old, p a = false) : t'.filter p = t.filter p := by
  have hnone : old.toList.filter p = [] := by
    rw [List.filter_eq_nil_iff]
    intro a ha
    rw [hold a (Option.mem_toList.mp ha)]
    exact Bool.false_ne_true
  rw [h.target, h.source, List.filter_append, List.filter_append, List.filter_append, hnone,
    List.filter_cons, if_neg (by rw [hnew]; exact Bool.false_ne_true), List.nil_append]

end Put

/-- The one record with its key. -/
theorem filter_eq_singleton [DecidableEq κ] {key : α → κ} {t : List α} (h : (t.map key).Nodup)
    {a : α} (ha : a ∈ t) : t.filter (key · = key a) = [a] := by
  induction t with
  | nil => cases ha
  | cons b t ih =>
      rw [List.map_cons, List.nodup_cons] at h
      rcases List.mem_cons.mp ha with rfl | ha
      · rw [List.filter_cons_of_pos (by simp), List.filter_eq_nil_iff.mpr]
        intro c hc hkey
        exact h.1 (of_decide_eq_true hkey ▸ List.mem_map_of_mem hc)
      · have hne : key b ≠ key a := fun heq => h.1 (heq ▸ List.mem_map_of_mem ha)
        rw [List.filter_cons_of_neg (by simpa using hne), ih h.2 ha]

/-- A record put in place of itself. -/
theorem modify_self {t : List α} {f : α → α} {i : Nat} (h : ∀ a, t[i]? = some a → f a = a) :
    t.modify i f = t := by
  refine List.ext_getElem? fun j => ?_
  rw [List.getElem?_modify]
  split
  · next hij =>
      subst hij
      cases hi : t[i]? with
      | none => rfl
      | some a => exact congrArg some (h a hi)
  · simp

/-! ## Without repetitions -/

theorem nodup_eraseDups [BEq α] [LawfulBEq α] (list : List α) : list.eraseDups.Nodup := by
  induction hlength : list.length using Nat.strongRecOn generalizing list with
  | _ length ih =>
      cases list with
      | nil => exact List.nodup_nil
      | cons a list =>
          have hshorter := List.length_filter_le (fun b => !b == a) list
          rw [List.length_cons] at hlength
          rw [List.eraseDups_cons, List.nodup_cons, List.mem_eraseDups]
          exact ⟨by simp, ih _ (by omega) _ rfl⟩

theorem eraseDups_eq_self [BEq α] [LawfulBEq α] {list : List α} (h : list.Nodup) :
    list.eraseDups = list := by
  induction list with
  | nil => rfl
  | cons a list ih =>
      obtain ⟨hmem, hlist⟩ := List.nodup_cons.mp h
      have hkept : list.filter (fun b => !b == a) = list := by
        refine List.filter_eq_self.mpr fun b hb => ?_
        simp only [Bool.not_eq_true', beq_eq_false_iff_ne]
        exact fun heq => hmem (heq ▸ hb)
      rw [List.eraseDups_cons, hkept, ih hlist]

end Spaces.Library.Records
