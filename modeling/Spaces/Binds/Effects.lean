import Spaces.Binds.Launch

/-!
# What a step does to the tree

Preparing a mount adds directories, and at most one file, where the destination leads;
where that is can be told from the tree before. Without two dots it is where the text of
the destination says, and the text can be listed. A removal takes away one empty file,
and when it leaves one it is to be tried again.
-/

namespace Spaces.Binds

open Spaces.Library Spaces.Shortcuts

variable {tree tree' : Rootfs} {place place' : Place} {fault fault' : Fault}

/-- No operation of the first `n` fails. -/
def Completes (fault : Fault) (n : Nat) : Prop := ∀ k, fault = some k → n ≤ k

theorem completes_zero (fault : Fault) : Completes fault 0 := fun k _ => Nat.zero_le k

theorem Completes.succ {n : Nat} (hfault : fault ≠ some 0) (h : Completes fault.later n) :
    Completes fault (n + 1) := by
  intro k hk
  subst hk
  cases k with
  | zero => exact absurd rfl hfault
  | succ k => exact Nat.succ_le_succ (h k rfl)

/-! ## Where a destination leads -/

/-- Where the parents lead, once those that are missing have been made. -/
def leadsTo (tree : Rootfs) (place : Place) : List Name → Option Place
  | [] => some place
  | component :: rest =>
      if component = up then
        match place with
        | [] => none
        | _ :: above => leadsTo tree above rest
      else
        match tree.kind (component :: place) with
        | .absent | .dir => leadsTo tree (component :: place) rest
        | _ => none

/-- Where the file is to be that a destination names. -/
def target (tree : Rootfs) (path : GuestPath) : Option Place :=
  match path.parts.reverse with
  | [] => none
  | name :: parents =>
      if name = up then none else (leadsTo tree [] parents.reverse).map (name :: ·)

theorem leadsTo_cons {component : Name} {rest : List Name} (hup : component ≠ up) :
    leadsTo tree place (component :: rest) =
      match tree.kind (component :: place) with
      | .absent | .dir => leadsTo tree (component :: place) rest
      | _ => none := by
  rw [leadsTo.eq_def]
  exact if_neg hup

theorem leadsTo_of_noDots {parents : List Name} (hup : up ∉ parents)
    (h : leadsTo tree place parents = some place') : place' = parents.reverse ++ place := by
  induction parents generalizing place with
  | nil =>
      cases h
      rfl
  | cons component rest ih =>
      rw [leadsTo_cons (fun heq => hup (heq ▸ List.mem_cons_self ..))] at h
      have hrest : leadsTo tree (component :: place) rest = some place' →
          place' = rest.reverse ++ component :: place :=
        ih fun hmem => hup (List.mem_cons_of_mem _ hmem)
      rw [List.reverse_cons, List.append_assoc]
      split at h
      · exact hrest h
      · exact hrest h
      · cases h

theorem target_of_noDots {path : GuestPath} (hup : up ∉ path.parts)
    (h : target tree path = some place) : place = path.parts.reverse := by
  unfold target at h
  split at h
  · cases h
  · next name parents hparts =>
      have hpath : path.parts = parents.reverse ++ [name] := by
        rw [← List.reverse_reverse path.parts, hparts, List.reverse_cons]
      rw [hpath] at hup
      split at h
      · cases h
      · obtain ⟨above, habove, rfl⟩ := Option.map_eq_some_iff.mp h
        have hplace := leadsTo_of_noDots
          (fun hmem => hup (List.mem_append_left _ hmem)) habove
        rw [hplace, hparts, List.append_nil, List.reverse_reverse]

/-! ## Preparing a mount -/

/-- What the loop over the parents does, when it comes to its end. -/
structure Entered (old tree : Rootfs) (start place : Place) (parents : List Name)
    (fault fault' : Fault) : Prop where
  dir : tree.kind place = .dir
  leads : leadsTo old start parents = some place
  completes : Completes fault parents.length
  last : fault' ≠ some 0 → Completes fault (parents.length + 1)

theorem enterParents_spec {old : Rootfs} (parents : List Name) (fault : Fault)
    (hold : old.DirsAdded tree)
    (hdir : tree.kind place = .dir) :
    old.DirsAdded (enterParents tree place parents fault).1 ∧
      ∀ place' fault', (enterParents tree place parents fault).2 = some (place', fault') →
        Entered old (enterParents tree place parents fault).1 place place' parents fault
          fault' := by
  induction parents generalizing tree place fault with
  | nil =>
      refine ⟨hold, fun place' fault' h => ?_⟩
      cases h
      exact ⟨hdir, rfl, completes_zero _, fun hfault => (completes_zero _).succ hfault⟩
  | cons component rest ih =>
      unfold enterParents
      split
      · exact ⟨hold, fun _ _ h => by cases h⟩
      · next hfault =>
          -- What is left to do after this component, from the place it leads to.
          have hrest : ∀ (tree' : Rootfs) (place' : Place), old.DirsAdded tree' →
              tree'.kind place' = .dir →
              leadsTo old place (component :: rest) = leadsTo old place' rest →
              old.DirsAdded (enterParents tree' place' rest fault.later).1 ∧
                ∀ end_ fault',
                  (enterParents tree' place' rest fault.later).2 = some (end_, fault') →
                  Entered old (enterParents tree' place' rest fault.later).1 place end_
                    (component :: rest) fault fault' := by
            intro tree' place' hadded hdir' hleads
            obtain ⟨hend, hentered⟩ := @ih _ _ fault.later hadded hdir'
            refine ⟨hend, fun end_ fault' h => ?_⟩
            obtain ⟨hd, hl, hc, hlast⟩ := hentered end_ fault' h
            exact ⟨hd, hleads.trans hl, hc.succ hfault, fun hne => (hlast hne).succ hfault⟩
          split
          · next hup =>
              split
              · exact ⟨hold, fun _ _ h => by cases h⟩
              · next name above =>
                  refine hrest tree above hold (tree.parents name above (by rw [hdir]; simp)) ?_
                  rw [leadsTo.eq_def]
                  exact if_pos hup
          · next hup =>
              split
              · next habsent =>
                  refine hrest _ _ (hold.trans (FileTree.DirsAdded.make _ _ _)) ?_ ?_
                  · rw [FileTree.make_kind hdir habsent, Function.update_self]
                  · rw [leadsTo_cons hup, hold.absent habsent]
              · next hkind =>
                  refine hrest _ _ hold hkind ?_
                  rw [leadsTo_cons hup]
                  rcases hold (component :: place) with hsame | ⟨habsent, -⟩
                  · rw [← hsame, hkind]
                  · rw [habsent]
              · exact ⟨hold, fun _ _ h => by cases h⟩
              · exact ⟨hold, fun _ _ h => by cases h⟩
              · exact ⟨hold, fun _ _ h => by cases h⟩

/-- What preparing a mount does. -/
structure Prepared (tree : Rootfs) (mount : Mount) (fault : Fault) (after : Rootfs)
    (outcome : Outcome) : Prop where
  present : ∀ place, tree.kind place ≠ .absent → after.kind place = tree.kind place
  bound : ∀ place created, outcome = .bound place created → mount.destination.root = .single ∧
    ∀ p, place = some p → target tree mount.destination = some p
  created : ∀ place, outcome = .bound place true → ∃ p, place = some p ∧ mount.source = .file ∧
    tree.kind p = .absent ∧ after.kind p = .file 0 ∧
      Completes fault mount.destination.parts.length

theorem prepared_skipped {mount : Mount} (h : tree.DirsAdded tree') :
    Prepared tree mount fault tree' .skipped :=
  ⟨fun _ => h.present, fun _ _ h => (by cases h), fun _ h => by cases h⟩

theorem prepareMount_spec (tree : Rootfs) (mount : Mount) (fault : Fault) :
    Prepared tree mount fault (prepareMount tree mount fault).1
      (prepareMount tree mount fault).2 := by
  have hrefl := FileTree.DirsAdded.refl tree
  unfold prepareMount
  split
  · exact prepared_skipped hrefl
  · next hsource =>
      split
      · exact prepared_skipped hrefl
      · next hroot =>
          have hsingle : mount.destination.root = .single := by simpa using hroot
          split
          · exact prepared_skipped hrefl
          · next name parents hparts =>
              obtain ⟨hadded, hentered⟩ := enterParents_spec parents.reverse
                fault hrefl tree.root
              have hlength : mount.destination.parts.length = parents.reverse.length + 1 := by
                rw [← List.length_reverse, hparts, List.length_reverse, List.length_cons]
              split
              · next after hafter =>
                  rw [hafter] at hadded
                  exact prepared_skipped hadded
              · next after place fault' hafter =>
                  rw [hafter] at hadded hentered
                  obtain ⟨hdir, hleads, -, hlast⟩ := hentered place fault' rfl
                  simp only at hadded hdir
                  unfold prepareTarget
                  split
                  · exact prepared_skipped hadded
                  · next hfault =>
                      split
                      · split
                        · exact ⟨fun _ => hadded.present, fun _ _ h => by
                            cases h
                            exact ⟨hsingle, fun _ h => by cases h⟩, fun _ h => by cases h⟩
                        · exact prepared_skipped hadded
                      · next hup =>
                          have htarget : target tree mount.destination = some (name :: place) := by
                            rw [target, hparts]
                            simp only [if_neg hup, hleads, Option.map_some]
                          split
                          · next hdirectory habsent =>
                              refine ⟨fun p hp => ?_, fun _ _ h => ?_, fun _ h => by cases h⟩
                              · exact (hadded.trans (FileTree.DirsAdded.make _ _ _)).present hp
                              · cases h
                                exact ⟨hsingle, fun _ h => by cases h⟩
                          · exact ⟨fun _ => hadded.present, fun _ _ h => by
                              cases h
                              exact ⟨hsingle, fun _ h => by cases h⟩, fun _ h => by cases h⟩
                          · next hfile habsent =>
                              refine ⟨fun p hp => ?_, fun _ _ h => ?_, fun _ h => ?_⟩
                              · have hsame := hadded.present hp
                                rw [FileTree.make_of_present (by rw [hsame]; exact hp), hsame]
                              · cases h
                                exact ⟨hsingle, fun _ h => by cases h; exact htarget⟩
                              · cases h
                                refine ⟨name :: place, rfl, ?_, hadded.absent habsent, ?_, ?_⟩
                                · cases hs : mount.source with
                                  | missing => exact absurd (.inl hs) hsource
                                  | other => exact absurd (.inr hs) hsource
                                  | directory => simp [hs] at hfile
                                  | file => rfl
                                · rw [FileTree.make_kind hdir habsent, Function.update_self]
                                · rw [hlength]
                                  exact hlast hfault
                          · exact ⟨fun _ => hadded.present, fun _ _ h => by
                              cases h
                              exact ⟨hsingle, fun _ h => by cases h; exact htarget⟩,
                              fun _ h => by cases h⟩
                          · exact prepared_skipped hadded

/-! ## Removing a file -/

theorem openParents_spec (tree : Rootfs) (place : Place) (parents : List Name) (fault : Fault) :
    (∀ place' fault', openParents tree place parents fault = .reached place' fault' →
      place' = parents.reverse ++ place ∧ Completes fault parents.length ∧
        (fault' ≠ some 0 → Completes fault (parents.length + 1))) ∧
    (openParents tree place parents fault = .gone →
      ∀ name, tree.kind (name :: (parents.reverse ++ place)) = .absent) := by
  induction parents generalizing place fault with
  | nil =>
      refine ⟨fun place' fault' h => ?_, fun h => by cases h⟩
      cases h
      exact ⟨rfl, completes_zero _, fun hfault => (completes_zero _).succ hfault⟩
  | cons component rest ih =>
      unfold openParents
      split
      · exact ⟨fun _ _ h => (by cases h), fun h => by cases h⟩
      · next hfault =>
          obtain ⟨hreached, hgone⟩ := ih (component :: place) fault.later
          rw [List.reverse_cons, List.append_assoc]
          split
          · refine ⟨fun place' fault' h => ?_, hgone⟩
            obtain ⟨hplace, hcompletes, hlast⟩ := hreached place' fault' h
            exact ⟨hplace, hcompletes.succ hfault, fun hne => (hlast hne).succ hfault⟩
          · next hkind =>
              refine ⟨fun _ _ h => (by cases h), fun _ name => ?_⟩
              by_contra hpresent
              exact hkind (tree.dir_of_below (List.cons_ne_nil name rest.reverse) hpresent)

/-- What a removal does: it takes an empty file away, or it leaves the tree as it is and
says whether it is to be tried again. -/
structure Removed (tree : Rootfs) (listed : ListedPath) (fault : Fault) (after : Rootfs)
    (removed retry : Bool) : Prop where
  taken : removed = true → after = tree.unlink listed.place ∧
    tree.kind listed.place = .file 0 ∧ Completes fault listed.path.parts.length
  left : removed = false → after = tree ∧ (tree.kind listed.place = .file 0 → retry = true)

theorem removeObsoleteBindFile_spec (tree : Rootfs) (listed : ListedPath) (fault : Fault) :
    Removed tree listed fault (removeObsoleteBindFile tree listed fault).1
      (removeObsoleteBindFile tree listed fault).2.1
      (removeObsoleteBindFile tree listed fault).2.2 := by
  unfold removeObsoleteBindFile
  split
  · next hparts => exact absurd (List.reverse_eq_nil_iff.mp hparts) listed.parts_ne_nil
  · next name parents hparts =>
      have hplace : listed.place = name :: parents := hparts
      have hlength : listed.path.parts.length = parents.reverse.length + 1 := by
        rw [← List.length_reverse, hparts, List.length_reverse, List.length_cons]
      obtain ⟨hreached, hgone⟩ := openParents_spec tree [] parents.reverse fault
      rw [List.reverse_reverse, List.append_nil] at hreached hgone
      split
      · next hopened =>
          refine ⟨fun h => (by cases h), fun _ => ⟨rfl, fun hkind => ?_⟩⟩
          rw [hplace, hgone hopened name] at hkind
          cases hkind
      · exact ⟨fun h => (by cases h), fun _ => ⟨rfl, fun _ => rfl⟩⟩
      · next place fault' hopened =>
          obtain ⟨rfl, -, hlast⟩ := hreached place fault' hopened
          split
          · exact ⟨fun h => (by cases h), fun _ => ⟨rfl, fun _ => rfl⟩⟩
          · next hfault =>
              split
              · next hkind =>
                  refine ⟨fun _ => ⟨by rw [hplace], by rw [hplace]; exact hkind, ?_⟩,
                    fun h => by cases h⟩
                  rw [hlength]
                  exact hlast hfault
              · next hkind =>
                  refine ⟨fun h => (by cases h), fun _ => ⟨rfl, fun hfile => ?_⟩⟩
                  rw [hplace] at hfile
                  exact absurd hfile hkind

end Spaces.Binds
