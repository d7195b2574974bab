import Mathlib.Data.List.AList
import Mathlib.Data.Finset.Basic

/-!
# Objects owned by one table and aliased by another

A program keeps heap objects in two hash tables. The *primary* table owns its
objects: removing or overwriting an entry frees the object. The *alias* table
stores bare addresses under a second key of the same object and frees nothing.
Whether the two stay in step is not a matter of types, so the arena keeps the
heap, both tables and the set of exported keys apart and `Consistent` says how
they must agree.

Clients reason about the set of live objects: `live_insert`, `live_eraseKey`,
`live_eraseAlias` and `live_update` say what each operation does to it, and the
`consistent_` lemmas say when the operation keeps the tables in step.
-/

namespace Spaces.Library

/-- The two keys of an object: the one it is owned under, and the one it may be
aliased under. -/
class Keyed (κ : outParam Type) (α : Type) where
  key : α → κ
  aliasKey : α → Option κ

open Keyed

/-- Erasing the keys of several items, one after another. -/
theorem lookup_foldl_erase {κ α ι : Type} [DecidableEq κ] (f : ι → κ) (items : List ι)
    (t : AList fun _ : κ => α) (k : κ) :
    (items.foldl (fun t i => t.erase (f i)) t).lookup k
      = if k ∈ items.map f then none else t.lookup k := by
  induction items generalizing t with
  | nil => simp
  | cons i items ih =>
      rw [List.foldl_cons, ih]
      rcases eq_or_ne k (f i) with rfl | hne
      · simp
      · simp [hne, AList.lookup_erase_ne hne]

structure Arena (κ α : Type) where
  heap : AList fun _ : Nat => α
  owned : AList fun _ : κ => Nat
  aliases : AList fun _ : κ => Nat
  /-- The keys under which an object is exported: exporting a key twice fails. -/
  exported : Finset κ
  fresh : Nat

namespace Arena

variable {κ α : Type}

def empty : Arena κ α := ⟨∅, ∅, ∅, ∅, 0⟩

/-- The object stored at an address, when it has not been freed. -/
def Live (t : Arena κ α) (a : Nat) (o : α) : Prop := t.heap.lookup a = some o

theorem Live.inj {t : Arena κ α} {a : Nat} {o p : α} (ho : t.Live a o)
    (hp : t.Live a p) : o = p := Option.some.inj (ho.symm.trans hp)

@[simp] theorem live_empty {a : Nat} {o : α} :
    ¬ (empty : Arena κ α).Live a o := by
  simp [Live, empty]

variable [DecidableEq κ]

/-- Look an object up under its owning key. -/
def find? (t : Arena κ α) (k : κ) : Option α :=
  (t.owned.lookup k).bind t.heap.lookup

/-- Look an object up under its alias key. -/
def findAlias? (t : Arena κ α) (k : κ) : Option α :=
  (t.aliases.lookup k).bind t.heap.lookup

/-- Remove an alias; no object is freed. -/
def eraseAlias (t : Arena κ α) (k : κ) : Arena κ α :=
  { t with aliases := t.aliases.erase k }

@[simp] theorem live_eraseAlias {t : Arena κ α} {k : κ} {a : Nat} {o : α} :
    (t.eraseAlias k).Live a o ↔ t.Live a o := Iff.rfl

variable [Keyed κ α]

/-- The destructor of the owning table: withdraw the export and free. -/
def free (t : Arena κ α) (a : Nat) : Arena κ α :=
  match t.heap.lookup a with
  | none => t
  | some o => { t with heap := t.heap.erase a, exported := t.exported.erase (key o) }

/-- Export the object and enter it in both tables; an entry it displaces from
the owning table is freed. Nothing happens when its key is exported already. -/
def insert (t : Arena κ α) (o : α) : Option (Arena κ α) :=
  if key o ∈ t.exported then none
  else
    let displaced := match t.owned.lookup (key o) with
      | none => t
      | some old => t.free old
    some { displaced with
      heap := displaced.heap.insert t.fresh o
      owned := t.owned.insert (key o) t.fresh
      aliases := match aliasKey o with
        | none => t.aliases
        | some k => t.aliases.insert k t.fresh
      exported := Insert.insert (key o) displaced.exported
      fresh := t.fresh + 1 }

/-- Remove an owning entry and free its object. -/
def eraseKey (t : Arena κ α) (k : κ) : Arena κ α :=
  match t.owned.lookup k with
  | none => t
  | some a => { t.free a with owned := t.owned.erase k }

/-- Write to an object in place. -/
def update (t : Arena κ α) (k : κ) (f : α → α) : Arena κ α :=
  match t.owned.lookup k with
  | none => t
  | some a =>
      match t.heap.lookup a with
      | none => t
      | some o => { t with heap := t.heap.insert a (f o) }

/-- Drop an object from both tables: its alias first, then its owning entry. -/
def release (t : Arena κ α) (k : κ) : Arena κ α :=
  match t.find? k with
  | none => t
  | some o =>
      match aliasKey o with
      | none => t.eraseKey k
      | some k' => (t.eraseAlias k').eraseKey k

/-- Drop several objects one after another. -/
def releaseAll (t : Arena κ α) (ks : List κ) : Arena κ α := ks.foldl release t

/-- The tables agree: whatever either of them stores is a live object that the
owning table has under its key. -/
structure Consistent (t : Arena κ α) : Prop where
  alias_live : ∀ k a, t.aliases.lookup k = some a →
    ∃ o, t.Live a o ∧ aliasKey o = some k
  owned_live : ∀ k a, t.owned.lookup k = some a → ∃ o, t.Live a o ∧ key o = k
  live_owned : ∀ a o, t.Live a o → t.owned.lookup (key o) = some a
  live_fresh : ∀ a o, t.Live a o → a < t.fresh
  exported_iff : ∀ k, k ∈ t.exported ↔ k ∈ t.owned

/-- No two live objects have one alias key. -/
def AliasUnique (t : Arena κ α) : Prop :=
  ∀ a b o p k, t.Live a o → t.Live b p → aliasKey o = some k →
    aliasKey p = some k → a = b

/-! ## Reading through the tables -/

variable {t t' : Arena κ α}

theorem Consistent.find?_eq_some (hc : t.Consistent) {k : κ} {o : α} :
    t.find? k = some o ↔ ∃ a, t.Live a o ∧ key o = k := by
  rw [find?, Option.bind_eq_some_iff]
  constructor
  · rintro ⟨a, hk, ho⟩
    obtain ⟨p, hp, rfl⟩ := hc.owned_live k a hk
    rw [Live, ho] at hp
    cases hp
    exact ⟨a, ho, rfl⟩
  · rintro ⟨a, ho, rfl⟩
    exact ⟨a, hc.live_owned a o ho, ho⟩

theorem Consistent.find?_eq_none (hc : t.Consistent) {k : κ} :
    t.find? k = none ↔ ∀ a o, t.Live a o → key o ≠ k := by
  rw [Option.eq_none_iff_forall_ne_some]
  constructor
  · intro h a o ho hk
    exact h o (hc.find?_eq_some.mpr ⟨a, ho, hk⟩)
  · intro h o ho
    obtain ⟨a, ha, hk⟩ := hc.find?_eq_some.mp ho
    exact h a o ha hk

/-- What an alias leads to is live and carries the alias. -/
theorem Consistent.findAlias?_live (hc : t.Consistent) {k : κ} {o : α}
    (h : t.findAlias? k = some o) : ∃ a, t.Live a o ∧ aliasKey o = some k := by
  rw [findAlias?, Option.bind_eq_some_iff] at h
  obtain ⟨a, hk, ho⟩ := h
  obtain ⟨p, hp, hpk⟩ := hc.alias_live k a hk
  rw [Live, ho] at hp
  cases hp
  exact ⟨a, ho, hpk⟩

/-- Two live objects with one owning key are the same object. -/
theorem Consistent.key_unique (hc : t.Consistent) {a b : Nat} {o p : α}
    (ho : t.Live a o) (hp : t.Live b p) (hk : key o = key p) : a = b := by
  have h := hc.live_owned a o ho
  rw [hk, hc.live_owned b p hp] at h
  exact (Option.some.inj h).symm

/-! ## What each operation does to the live objects -/

theorem live_free {a b : Nat} {o : α} :
    (t.free a).Live b o ↔ t.Live b o ∧ b ≠ a := by
  rw [free]
  split
  · next hnone =>
      refine ⟨fun h => ⟨h, ?_⟩, And.left⟩
      rintro rfl
      rw [Live, hnone] at h
      cases h
  · next p hsome =>
      rcases eq_or_ne b a with rfl | hne
      · simp [Live]
      · simp [Live, AList.lookup_erase_ne hne, hne]

theorem Consistent.live_eraseKey (hc : t.Consistent) {k : κ} {a : Nat} {o : α} :
    (t.eraseKey k).Live a o ↔ t.Live a o ∧ key o ≠ k := by
  rw [eraseKey]
  split
  · next hnone =>
      refine ⟨fun h => ⟨h, ?_⟩, And.left⟩
      rintro rfl
      rw [hc.live_owned a o h] at hnone
      cases hnone
  · next b hsome =>
      change (t.free b).Live a o ↔ _
      rw [live_free]
      refine and_congr_right fun ho => not_congr ?_
      obtain ⟨p, hp, hk⟩ := hc.owned_live k b hsome
      constructor
      · rintro rfl
        rw [ho.inj hp, hk]
      · rintro rfl
        exact hc.key_unique ho hp hk.symm

/-- Under `Consistent`, inserting succeeds exactly when the key is unused, and
then displaces nothing. -/
theorem Consistent.insert_eq_some (hc : t.Consistent) {o : α} :
    t.insert o = some t' ↔ key o ∉ t.owned ∧
      t' = { t with
        heap := t.heap.insert t.fresh o
        owned := t.owned.insert (key o) t.fresh
        aliases := match aliasKey o with
          | none => t.aliases
          | some k => t.aliases.insert k t.fresh
        exported := Insert.insert (key o) t.exported
        fresh := t.fresh + 1 } := by
  rw [insert]
  by_cases hk : key o ∈ t.exported
  · simp [hk, (hc.exported_iff _).mp hk]
  · have hno : key o ∉ t.owned := fun h => hk ((hc.exported_iff _).mpr h)
    rw [if_neg hk, AList.lookup_eq_none.mpr hno, Option.some_inj]
    exact ⟨fun h => ⟨hno, h.symm⟩, fun h => h.2.symm⟩

theorem Consistent.live_insert (hc : t.Consistent) {o p : α} {a : Nat}
    (h : t.insert o = some t') :
    t'.Live a p ↔ (a = t.fresh ∧ p = o) ∨ t.Live a p := by
  obtain ⟨-, rfl⟩ := hc.insert_eq_some.mp h
  rcases eq_or_ne a t.fresh with rfl | hne
  · simp only [Live, AList.lookup_insert, Option.some_inj, true_and]
    refine ⟨fun h => .inl h.symm, ?_⟩
    rintro (rfl | hold)
    · rfl
    · exact absurd (hc.live_fresh _ p hold) (Nat.lt_irrefl _)
  · simp [Live, AList.lookup_insert_ne hne, hne]

theorem Consistent.live_update (hc : t.Consistent) {k : κ} {f : α → α} {a : Nat}
    {p : α} : (t.update k f).Live a p ↔
      ∃ o, t.Live a o ∧ p = if key o = k then f o else o := by
  rw [update]
  split
  · next hnone =>
      constructor
      · intro h
        refine ⟨p, h, (if_neg ?_).symm⟩
        rintro rfl
        rw [hc.live_owned a p h] at hnone
        cases hnone
      · rintro ⟨o, ho, rfl⟩
        rw [if_neg]
        · exact ho
        · rintro rfl
          rw [hc.live_owned a o ho] at hnone
          cases hnone
  · next b hsome =>
      obtain ⟨q, hq, hk⟩ := hc.owned_live k b hsome
      rw [show t.heap.lookup b = some q from hq]
      rcases eq_or_ne a b with rfl | hne
      · simp only [Live, AList.lookup_insert, Option.some_inj]
        constructor
        · rintro rfl
          exact ⟨q, hq, by rw [if_pos hk]⟩
        · rintro ⟨o, ho, rfl⟩
          rw [Live.inj (t := t) ho hq, if_pos hk]
      · simp only [Live, AList.lookup_insert_ne hne]
        constructor
        · intro h
          refine ⟨p, h, (if_neg fun hp => hne ?_).symm⟩
          exact hc.key_unique h hq (hp.trans hk.symm)
        · rintro ⟨o, ho, rfl⟩
          rw [if_neg fun hp => hne (hc.key_unique ho hq (hp.trans hk.symm))]
          exact ho

/-! ## Addresses are never used twice -/

@[simp] theorem fresh_free {a : Nat} : (t.free a).fresh = t.fresh := by
  rw [free]; split <;> rfl

@[simp] theorem fresh_eraseKey {k : κ} : (t.eraseKey k).fresh = t.fresh := by
  rw [eraseKey]
  split
  · rfl
  · exact fresh_free

omit [Keyed κ α] in
@[simp] theorem fresh_update {k : κ} {f : α → α} :
    (t.update k f).fresh = t.fresh := by
  rw [update]
  split
  · rfl
  · split <;> rfl

@[simp] theorem fresh_release {k : κ} : (t.release k).fresh = t.fresh := by
  rw [release]
  split
  · rfl
  · split
    · exact fresh_eraseKey
    · exact fresh_eraseKey

@[simp] theorem fresh_releaseAll {ks : List κ} :
    (t.releaseAll ks).fresh = t.fresh := by
  induction ks generalizing t with
  | nil => rfl
  | cons k ks ih => exact ih.trans fresh_release

theorem Consistent.fresh_insert (hc : t.Consistent) {o : α}
    (h : t.insert o = some t') : t'.fresh = t.fresh + 1 := by
  obtain ⟨-, rfl⟩ := hc.insert_eq_some.mp h
  rfl

/-! ## When an operation keeps the tables in step -/

theorem consistent_empty : (empty : Arena κ α).Consistent where
  alias_live := by simp [empty]
  owned_live := by simp [empty]
  live_owned := by simp
  live_fresh := by simp
  exported_iff := by simp [empty]

theorem Consistent.insert (hc : t.Consistent) {o : α} (h : t.insert o = some t') :
    t'.Consistent := by
  have hlive := fun {a p} => hc.live_insert h (a := a) (p := p)
  obtain ⟨hno, rfl⟩ := hc.insert_eq_some.mp h
  constructor
  · intro k a ha
    have hold : ∀ {k a}, t.aliases.lookup k = some a →
        ∃ p, ((a = t.fresh ∧ p = o) ∨ t.Live a p) ∧ aliasKey p = some k := by
      intro k a ha
      obtain ⟨p, hp, hk⟩ := hc.alias_live k a ha
      exact ⟨p, .inr hp, hk⟩
    simp only [hlive]
    cases hal : aliasKey o with
    | none => rw [hal] at ha; exact hold ha
    | some k' =>
        rw [hal] at ha
        rcases eq_or_ne k k' with rfl | hne
        · rw [AList.lookup_insert, Option.some_inj] at ha
          exact ⟨o, .inl ⟨ha.symm, rfl⟩, hal⟩
        · rw [AList.lookup_insert_ne hne] at ha
          exact hold ha
  · intro k a ha
    simp only [hlive]
    rcases eq_or_ne k (key o) with rfl | hne
    · rw [AList.lookup_insert, Option.some_inj] at ha
      exact ⟨o, .inl ⟨ha.symm, rfl⟩, rfl⟩
    · rw [AList.lookup_insert_ne hne] at ha
      obtain ⟨p, hp, hk⟩ := hc.owned_live k a ha
      exact ⟨p, .inr hp, hk⟩
  · intro a p hp
    rcases hlive.mp hp with ⟨rfl, rfl⟩ | hold
    · exact AList.lookup_insert _
    · have hne : key p ≠ key o := by
        intro hk
        refine hno (AList.lookup_isSome.mp ?_)
        rw [← hk, hc.live_owned a p hold]
        rfl
      rw [AList.lookup_insert_ne hne]
      exact hc.live_owned a p hold
  · intro a p hp
    rcases hlive.mp hp with ⟨rfl, rfl⟩ | hold
    · exact Nat.lt_succ_self _
    · exact Nat.lt_succ_of_lt (hc.live_fresh a p hold)
  · intro k
    simp [hc.exported_iff]

theorem Consistent.eraseAlias (hc : t.Consistent) (k : κ) :
    (t.eraseAlias k).Consistent where
  alias_live k' a ha := by
    refine hc.alias_live k' a ?_
    rcases eq_or_ne k' k with rfl | hne
    · rw [Arena.eraseAlias, AList.lookup_erase] at ha
      cases ha
    · rwa [Arena.eraseAlias, AList.lookup_erase_ne hne] at ha
  owned_live := hc.owned_live
  live_owned := hc.live_owned
  live_fresh := hc.live_fresh
  exported_iff := hc.exported_iff

@[simp] theorem aliases_eraseKey {k : κ} : (t.eraseKey k).aliases = t.aliases := by
  rw [Arena.eraseKey]
  split
  · rfl
  · rw [free]; split <;> rfl

@[simp] theorem owned_eraseKey {k : κ} : (t.eraseKey k).owned = t.owned.erase k := by
  rw [Arena.eraseKey]
  split
  · next hnone =>
      rw [AList.lookup_eq_none] at hnone
      exact (AList.ext (List.kerase_of_notMem_keys hnone)).symm
  · rfl

/-- Removing an owning entry is sound once no alias leads to its object. -/
theorem Consistent.eraseKey (hc : t.Consistent) {k : κ}
    (hal : ∀ a o k', t.Live a o → key o = k → aliasKey o = some k' →
      t.aliases.lookup k' ≠ some a) : (t.eraseKey k).Consistent := by
  have hlive := fun {a o} => hc.live_eraseKey (k := k) (a := a) (o := o)
  constructor
  · intro k' a ha
    rw [aliases_eraseKey] at ha
    obtain ⟨o, ho, hk'⟩ := hc.alias_live k' a ha
    exact ⟨o, hlive.mpr ⟨ho, fun hk => hal a o k' ho hk hk' ha⟩, hk'⟩
  · intro k' a ha
    rw [owned_eraseKey] at ha
    rcases eq_or_ne k' k with rfl | hne
    · rw [AList.lookup_erase] at ha; cases ha
    · rw [AList.lookup_erase_ne hne] at ha
      obtain ⟨o, ho, rfl⟩ := hc.owned_live k' a ha
      exact ⟨o, hlive.mpr ⟨ho, hne⟩, rfl⟩
  · intro a o ho
    obtain ⟨hold, hne⟩ := hlive.mp ho
    rw [owned_eraseKey, AList.lookup_erase_ne hne]
    exact hc.live_owned a o hold
  · intro a o ho
    rw [fresh_eraseKey]
    exact hc.live_fresh a o (hlive.mp ho).1
  · intro k'
    rw [owned_eraseKey, AList.mem_erase, ← hc.exported_iff, Arena.eraseKey]
    split
    · next hnone =>
        rw [AList.lookup_eq_none, ← hc.exported_iff] at hnone
        refine ⟨fun h => ⟨?_, h⟩, And.right⟩
        rintro rfl
        exact hnone h
    · next a hsome =>
        obtain ⟨o, ho, rfl⟩ := hc.owned_live k a hsome
        change k' ∈ (t.free a).exported ↔ _
        rw [free, show t.heap.lookup a = some o from ho]
        exact Finset.mem_erase

omit [Keyed κ α] in
theorem update_tables {k : κ} {f : α → α} :
    (t.update k f).aliases = t.aliases ∧ (t.update k f).owned = t.owned ∧
      (t.update k f).exported = t.exported := by
  rw [Arena.update]
  split
  · exact ⟨rfl, rfl, rfl⟩
  · split <;> exact ⟨rfl, rfl, rfl⟩

/-- An object without an alias is removed by its owning key alone. -/
theorem Consistent.eraseKey_unaliased (hc : t.Consistent) {a : Nat} {o : α}
    (ho : t.Live a o) (hal : aliasKey o = none) : (t.eraseKey (key o)).Consistent := by
  refine hc.eraseKey fun b p k' hp hk hk' => ?_
  obtain rfl := hc.key_unique hp ho hk
  rw [hp.inj ho, hal] at hk'
  cases hk'

/-- Writing to an object keeps the tables in step when its keys stay. -/
theorem Consistent.update (hc : t.Consistent) {k : κ} {f : α → α}
    (hf : ∀ o, key (f o) = key o ∧ aliasKey (f o) = aliasKey o) :
    (t.update k f).Consistent := by
  have hlive := fun {a o} => hc.live_update (k := k) (f := f) (a := a) (p := o)
  have hkeys : ∀ o, key (if key o = k then f o else o) = key o ∧
      aliasKey (if key o = k then f o else o) = aliasKey o := by
    intro o; split
    · exact hf o
    · exact ⟨rfl, rfl⟩
  obtain ⟨haliases, howned, hexported⟩ := update_tables (t := t) (k := k) (f := f)
  constructor
  · intro k' a ha
    rw [haliases] at ha
    obtain ⟨o, ho, hk⟩ := hc.alias_live k' a ha
    exact ⟨_, hlive.mpr ⟨o, ho, rfl⟩, (hkeys o).2.trans hk⟩
  · intro k' a ha
    rw [howned] at ha
    obtain ⟨o, ho, hk⟩ := hc.owned_live k' a ha
    exact ⟨_, hlive.mpr ⟨o, ho, rfl⟩, (hkeys o).1.trans hk⟩
  · intro a p hp
    obtain ⟨o, ho, rfl⟩ := hlive.mp hp
    rw [howned, (hkeys o).1]
    exact hc.live_owned a o ho
  · intro a p hp
    obtain ⟨o, ho, rfl⟩ := hlive.mp hp
    rw [fresh_update]
    exact hc.live_fresh a o ho
  · intro k'
    rw [hexported, howned]
    exact hc.exported_iff k'

/-! ## Dropping an object from both tables -/

theorem Consistent.live_release (hc : t.Consistent) {k : κ} {a : Nat} {o : α} :
    (t.release k).Live a o ↔ t.Live a o ∧ key o ≠ k := by
  rw [Arena.release]
  split
  · next hnone =>
      exact ⟨fun h => ⟨h, hc.find?_eq_none.mp hnone a o h⟩, And.left⟩
  · split
    · exact hc.live_eraseKey
    · exact (hc.eraseAlias _).live_eraseKey

theorem Consistent.release (hc : t.Consistent) (k : κ) :
    (t.release k).Consistent := by
  rw [Arena.release]
  split
  · exact hc
  · next o ho =>
      obtain ⟨a, hlive, rfl⟩ := hc.find?_eq_some.mp ho
      have huniq : ∀ b p, t.Live b p → key p = key o → p = o := by
        intro b p hp hk
        obtain rfl := hc.key_unique hp hlive hk
        exact hp.inj hlive
      split
      · next hnone =>
          refine hc.eraseKey fun b p k' hp hk hal => ?_
          rw [huniq b p hp hk, hnone] at hal
          cases hal
      · next k' hsome =>
          refine (hc.eraseAlias k').eraseKey fun b p k'' hp hk hal => ?_
          rw [huniq b p hp hk, hsome, Option.some_inj] at hal
          rw [← hal, Arena.eraseAlias, AList.lookup_erase]
          exact Option.some_ne_none _ |>.symm

theorem Consistent.releaseAll (hc : t.Consistent) (ks : List κ) :
    (t.releaseAll ks).Consistent ∧ ∀ a o,
      (t.releaseAll ks).Live a o ↔ t.Live a o ∧ key o ∉ ks := by
  induction ks generalizing t with
  | nil => exact ⟨hc, fun a o => by simp [Arena.releaseAll]⟩
  | cons k ks ih =>
      obtain ⟨hcons, hlive⟩ := ih (hc.release k)
      refine ⟨hcons, fun a o => (hlive a o).trans ?_⟩
      rw [hc.live_release, List.mem_cons, not_or, and_assoc]

/-! ## Entries an operation leaves alone -/

/-- The object at an address, its owning entry and its alias are still there. -/
structure Undisturbed (t t' : Arena κ α) (a : Nat) : Prop where
  live : ∀ o, t.Live a o → t'.Live a o
  owned : ∀ k, t.owned.lookup k = some a → t'.owned.lookup k = some a
  aliased : ∀ k, t.aliases.lookup k = some a → t'.aliases.lookup k = some a

omit [Keyed κ α] in
theorem Undisturbed.refl (t : Arena κ α) (a : Nat) : t.Undisturbed t a :=
  ⟨fun _ h => h, fun _ h => h, fun _ h => h⟩

/-- An insertion disturbs nothing whose alias it does not take over. -/
theorem Consistent.undisturbed_insert (hc : t.Consistent) {o p : α} {a : Nat}
    (h : t.insert o = some t') (hp : t.Live a p)
    (hal : ∀ k, aliasKey o = some k → aliasKey p ≠ some k) : t.Undisturbed t' a := by
  have hlive := (hc.live_insert h (a := a) (p := p)).mpr (.inr hp)
  obtain ⟨hno, rfl⟩ := hc.insert_eq_some.mp h
  refine ⟨fun q hq => ?_, fun k hk => ?_, fun k hk => ?_⟩
  · rw [hq.inj hp]
    exact hlive
  · have hne : k ≠ key o := by
      rintro rfl
      rw [AList.lookup_eq_none.mpr hno] at hk
      cases hk
    rw [AList.lookup_insert_ne hne]
    exact hk
  · obtain ⟨q, hq, hkq⟩ := hc.alias_live k a hk
    rw [hq.inj hp] at hkq
    cases hnew : aliasKey o with
    | none => exact hk
    | some k' =>
        have hne : k ≠ k' := by
          rintro rfl
          exact hal k hnew hkq
        rw [AList.lookup_insert_ne hne]
        exact hk

theorem Consistent.undisturbed_eraseKey (hc : t.Consistent) {k : κ} {a : Nat} {o : α}
    (ho : t.Live a o) (hne : key o ≠ k) : t.Undisturbed (t.eraseKey k) a := by
  refine ⟨fun p hp => ?_, fun k' hk' => ?_, fun k' hk' => ?_⟩
  · exact hc.live_eraseKey.mpr ⟨hp, by rwa [hp.inj ho]⟩
  · obtain ⟨p, hp, rfl⟩ := hc.owned_live k' a hk'
    rw [hp.inj ho] at hk' ⊢
    rw [owned_eraseKey, AList.lookup_erase_ne hne]
    exact hk'
  · rw [aliases_eraseKey]
    exact hk'

theorem Consistent.undisturbed_update (hc : t.Consistent) {k : κ} {f : α → α}
    {a : Nat} {o : α} (ho : t.Live a o) (hne : key o ≠ k) :
    t.Undisturbed (t.update k f) a := by
  obtain ⟨haliases, howned, -⟩ := update_tables (t := t) (k := k) (f := f)
  refine ⟨fun p hp => ?_, fun k' hk' => ?_, fun k' hk' => ?_⟩
  · rw [hp.inj ho]
    exact hc.live_update.mpr ⟨o, ho, (if_neg hne).symm⟩
  · rw [howned]; exact hk'
  · rw [haliases]; exact hk'

theorem Consistent.undisturbed_release (hc : t.Consistent) {k : κ} {a : Nat} {o : α}
    (ho : t.Live a o) (hne : key o ≠ k)
    (hal : ∀ p k', t.find? k = some p → aliasKey p = some k' → aliasKey o ≠ some k') :
    t.Undisturbed (t.release k) a := by
  rw [Arena.release]
  split
  · exact .refl t a
  · next p hfind =>
      split
      · exact hc.undisturbed_eraseKey ho hne
      · next k' hk' =>
          have h := (hc.eraseAlias k').undisturbed_eraseKey (k := k)
            (show (t.eraseAlias k').Live a o from ho) hne
          refine ⟨h.live, h.owned, fun k'' hk'' => h.aliased k'' ?_⟩
          have hdiff : k'' ≠ k' := by
            rintro rfl
            obtain ⟨q, hq, hkq⟩ := hc.alias_live k'' a hk''
            rw [hq.inj ho] at hkq
            exact hal p k'' hfind hk' hkq
          rw [Arena.eraseAlias, AList.lookup_erase_ne hdiff]
          exact hk''

/-! ## Tables that agree -/

/-- What a client of two tables wants of them: an alias leads to the object
that is owned under its own key, and no two objects share a key or an alias. -/
structure Agrees (t : Arena κ α) : Prop where
  alias_owned : ∀ k a, t.aliases.lookup k = some a →
    ∃ o, t.Live a o ∧ aliasKey o = some k ∧ t.owned.lookup (key o) = some a
  key_unique : ∀ a b o p, t.Live a o → t.Live b p → key o = key p → a = b
  alias_unique : t.AliasUnique

theorem Consistent.agrees (hc : t.Consistent) (hu : t.AliasUnique) : t.Agrees where
  alias_owned k a ha := by
    obtain ⟨o, ho, hk⟩ := hc.alias_live k a ha
    exact ⟨o, ho, hk, hc.live_owned a o ho⟩
  key_unique _ _ _ _ := hc.key_unique
  alias_unique := hu

omit [DecidableEq κ] in
theorem aliasUnique_empty : (empty : Arena κ α).AliasUnique := by
  intro a b o p k ho
  exact absurd ho live_empty

omit [DecidableEq κ] in
/-- Objects that go, or are rewritten under their alias, leave aliases unique. -/
theorem AliasUnique.mono (hu : t.AliasUnique)
    (h : ∀ a o', t'.Live a o' → ∃ o, t.Live a o ∧ aliasKey o' = aliasKey o) :
    t'.AliasUnique := by
  intro a b o' p' k ho' hp' hk hk'
  obtain ⟨o, ho, heq⟩ := h a o' ho'
  obtain ⟨p, hp, heq'⟩ := h b p' hp'
  exact hu a b o p k ho hp (heq ▸ hk) (heq' ▸ hk')

/-- An object entered under an unused alias, or none, leaves aliases unique. -/
theorem AliasUnique.insert (hu : t.AliasUnique) (hc : t.Consistent) {o : α}
    (h : t.insert o = some t')
    (hnew : ∀ k, aliasKey o = some k → ∀ a p, t.Live a p → aliasKey p ≠ some k) :
    t'.AliasUnique := by
  intro a b p q k hp hq hk hk'
  rcases (hc.live_insert h).mp hp with ⟨rfl, rfl⟩ | hp <;>
    rcases (hc.live_insert h).mp hq with ⟨rfl, rfl⟩ | hq
  · rfl
  · exact absurd hk' (hnew k hk b q hq)
  · exact absurd hk (hnew k hk' a p hp)
  · exact hu a b p q k hp hq hk hk'

/-- Inserting succeeds under an unused key. -/
theorem Consistent.insert_of_find?_eq_none (hc : t.Consistent) {o : α}
    (h : t.find? (key o) = none) : ∃ t', t.insert o = some t' := by
  refine ⟨_, hc.insert_eq_some.mpr ⟨fun hmem => ?_, rfl⟩⟩
  obtain ⟨a, ha⟩ := Option.isSome_iff_exists.mp (AList.lookup_isSome.mpr hmem)
  obtain ⟨p, hp, hk⟩ := hc.owned_live _ a ha
  exact hc.find?_eq_none.mp h a p hp hk

/-- Inserting succeeds only under an unused key. -/
theorem Consistent.find?_of_insert (hc : t.Consistent) {o : α}
    (h : t.insert o = some t') : t.find? (key o) = none := by
  have hno := (hc.insert_eq_some.mp h).1
  rw [find?, AList.lookup_eq_none.mpr hno]
  rfl

end Arena

end Spaces.Library
