import Mathlib.Data.List.Nodup

/-!
# A table of mounts

A mount covers what is at its place and below it. So a place leads into the
latest mount at it or above it, and only that mount can be taken off by the place.
What was mounted later below it goes with it; what was mounted there before is
seen again.

The table lists the mounts, the latest first, and `place` says where each is.
-/

namespace Spaces.Library.MountTable

variable {κ α : Type} [DecidableEq κ] (place : α → List κ)

/-- Take off what a place leads into, if that is mounted at the place itself. -/
def detach (target : List κ) : List α → Option (List α)
  | [] => none
  | a :: older =>
      if place a = target then some older
      else if (place a).isPrefixOf target then none
      else (detach target older).map fun rest =>
        if target.isPrefixOf (place a) then rest else a :: rest

variable {place} {target : List κ} {table rest : List α}

theorem detach_sublist (h : detach place target table = some rest) : rest.Sublist table := by
  induction table generalizing rest with
  | nil => cases h
  | cons a older ih =>
      rw [detach] at h
      split at h
      · rw [← Option.some.inj h]
        exact List.sublist_cons_self a older
      · split at h
        · cases h
        · obtain ⟨rest', hrest, rfl⟩ := Option.map_eq_some_iff.mp h
          split
          · exact (ih hrest).cons a
          · exact (ih hrest).cons_cons a

/-- With nothing further below, the mounts at other places stay. -/
theorem mem_detach_of_ne (hbelow : ∀ a ∈ table, target <+: place a → place a = target)
    (h : detach place target table = some rest) {b : α} (hb : place b ≠ target) :
    b ∈ rest ↔ b ∈ table := by
  induction table generalizing rest with
  | nil => cases h
  | cons a older ih =>
      rw [detach] at h
      split at h
      · next hplace =>
          rw [← Option.some.inj h, List.mem_cons]
          refine (or_iff_right ?_).symm
          rintro rfl
          exact hb hplace
      · next hplace =>
          split at h
          · cases h
          · obtain ⟨rest', hrest, rfl⟩ := Option.map_eq_some_iff.mp h
            have hkept : ¬ target.isPrefixOf (place a) = true := fun hpre =>
              hplace (hbelow a List.mem_cons_self (List.isPrefixOf_iff_prefix.mp hpre))
            rw [if_neg hkept, List.mem_cons, List.mem_cons,
              ih (fun c hc => hbelow c (List.mem_cons_of_mem a hc)) hrest]

/-- With one mount to a place and none further below, nothing else goes. -/
theorem mem_detach (hdistinct : (table.map place).Nodup)
    (hbelow : ∀ a ∈ table, target <+: place a → place a = target)
    (h : detach place target table = some rest) {b : α} :
    b ∈ rest ↔ b ∈ table ∧ place b ≠ target := by
  induction table generalizing rest with
  | nil => cases h
  | cons a older ih =>
      obtain ⟨ha, hdistinct⟩ := List.nodup_cons.mp hdistinct
      rw [detach] at h
      split at h
      · next hplace =>
          rw [← Option.some.inj h, List.mem_cons]
          constructor
          · intro hb
            refine ⟨.inr hb, fun heq => ha ?_⟩
            exact List.mem_map.mpr ⟨b, hb, heq.trans hplace.symm⟩
          · rintro ⟨rfl | hb, hne⟩
            · exact absurd hplace hne
            · exact hb
      · next hplace =>
          split at h
          · cases h
          · obtain ⟨rest', hrest, rfl⟩ := Option.map_eq_some_iff.mp h
            have hkept : ¬ target.isPrefixOf (place a) = true := fun hpre =>
              hplace (hbelow a List.mem_cons_self (List.isPrefixOf_iff_prefix.mp hpre))
            rw [if_neg hkept, List.mem_cons, List.mem_cons,
              ih hdistinct (fun c hc => hbelow c (List.mem_cons_of_mem a hc)) hrest]
            constructor
            · rintro (rfl | ⟨hb, hne⟩)
              · exact ⟨.inl rfl, hplace⟩
              · exact ⟨.inr hb, hne⟩
            · rintro ⟨rfl | hb, hne⟩
              · exact .inl rfl
              · exact .inr ⟨hb, hne⟩

/-- What is mounted can be taken off by its place, unless something above it is. -/
theorem exists_detach (place : α → List κ) {a : α} (ha : a ∈ table)
    (habove : ∀ b ∈ table, place b <+: place a → place b = place a) :
    ∃ rest, detach place (place a) table = some rest := by
  induction table with
  | nil => cases ha
  | cons b older ih =>
      rw [detach]
      split
      · exact ⟨older, rfl⟩
      · next hplace =>
          rw [if_neg fun hpre =>
            hplace (habove b List.mem_cons_self (List.isPrefixOf_iff_prefix.mp hpre))]
          rcases List.mem_cons.mp ha with rfl | ha
          · exact absurd rfl hplace
          · obtain ⟨rest, hrest⟩ := ih ha fun c hc => habove c (List.mem_cons_of_mem b hc)
            rw [hrest]
            exact ⟨_, rfl⟩

/-- Taken off by its own place, a mount goes alone. -/
theorem mem_detach_place (hdistinct : (table.map place).Nodup) {a : α} (ha : a ∈ table)
    (hbelow : ∀ b ∈ table, place a <+: place b → place b = place a)
    (h : detach place (place a) table = some rest) (b : α) : b ∈ rest ↔ b ∈ table ∧ b ≠ a := by
  rw [mem_detach hdistinct hbelow h]
  constructor
  · exact fun hb => ⟨hb.1, fun heq => hb.2 (heq ▸ rfl)⟩
  · exact fun hb => ⟨hb.1, fun heq => hb.2 (List.inj_on_of_nodup_map hdistinct hb.1 ha heq)⟩

omit [DecidableEq κ] in
/-- A mount at a place of its own leaves the places distinct. -/
theorem nodup_mount (hdistinct : (table.map place).Nodup) {a : α} (ha : a ∉ table)
    (hown : ∀ b ∈ table, place b = place a → b = a) : ((a :: table).map place).Nodup := by
  refine List.nodup_cons.mpr ⟨fun hmem => ?_, hdistinct⟩
  obtain ⟨b, hb, heq⟩ := List.mem_map.mp hmem
  exact ha (hown b hb heq ▸ hb)

/-- What is still to be mounted is not mounted with the next of it. -/
theorem absent_mount {a : α} {todo : List α} (hnodup : (a :: todo).Nodup)
    (habsent : ∀ b ∈ a :: todo, b ∉ table) : ∀ b ∈ todo, b ∉ a :: table := by
  intro b hb hmem
  rcases List.mem_cons.mp hmem with rfl | hmem
  · exact (List.nodup_cons.mp hnodup).1 hb
  · exact habsent b (List.mem_cons_of_mem _ hb) hmem

end Spaces.Library.MountTable
