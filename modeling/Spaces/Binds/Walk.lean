import Spaces.Binds.Effects
import Spaces.Library.LexicalPath

/-!
# Where the targets are made

Neither a link nor a file is passed on the way to a target, so the way is the one that the
text of the destination says. Whatever a step adds is on it. And where there is nothing in
the way, and no operation fails, all of it is added.
-/

namespace Spaces.Binds

open Spaces.Library

variable {tree : Rootfs} {place last p : Place} {fault : Fault}

/-- A name on a way: what is before it, and where it is. -/
def OnWay (place : Place) (names : List Name) (p : Place) : Prop :=
  ∃ before name above, before ++ [name] <+: names ∧ name ≠ up ∧
    walk place before = some above ∧ p = name :: above

namespace OnWay

theorem here {name : Name} (h : name ≠ up) (place : Place) (rest : List Name) :
    OnWay place (name :: rest) (name :: place) :=
  ⟨[], name, place, ⟨rest, rfl⟩, h, rfl, rfl⟩

theorem name {name : Name} {rest : List Name} (hname : name ≠ up)
    (h : OnWay (name :: place) rest p) : OnWay place (name :: rest) p := by
  obtain ⟨before, last, above, hin, hlast, hwalk, rfl⟩ := h
  refine ⟨name :: before, last, above, ?_, hlast, ?_, rfl⟩
  · rw [List.cons_append]
    exact List.cons_prefix_cons.mpr ⟨rfl, hin⟩
  · rw [walk_name hname, hwalk]

theorem up {name : Name} {rest : List Name} (h : OnWay place rest p) :
    OnWay (name :: place) (up :: rest) p := by
  obtain ⟨before, last, above, hin, hlast, hwalk, rfl⟩ := h
  refine ⟨Binds.up :: before, last, above, ?_, hlast, ?_, rfl⟩
  · rw [List.cons_append]
    exact List.cons_prefix_cons.mpr ⟨rfl, hin⟩
  · exact (walk_up ..).trans hwalk

theorem of_cons {name : Name} {rest : List Name} (h : OnWay place (name :: rest) p) :
    (name ≠ Binds.up ∧ (p = name :: place ∨ OnWay (name :: place) rest p)) ∨
      (name = Binds.up ∧ ∃ first above, place = first :: above ∧ OnWay above rest p) := by
  obtain ⟨before, last, above, hin, hlast, hwalk, rfl⟩ := h
  cases before with
  | nil =>
      cases hwalk
      obtain ⟨rfl, -⟩ := List.cons_prefix_cons.mp hin
      exact .inl ⟨hlast, .inl rfl⟩
  | cons first before =>
      obtain ⟨rfl, hrest⟩ := List.cons_prefix_cons.mp hin
      by_cases hup : first = Binds.up
      · cases place with
        | nil => simp [walk, hup, Binds.up] at hwalk
        | cons head above' =>
            rw [hup] at hwalk
            exact .inr ⟨hup, head, above', rfl, before, last, above, hrest, hlast,
              (walk_up ..).symm.trans hwalk, rfl⟩
      · rw [walk_name hup] at hwalk
        exact .inl ⟨hup, .inr ⟨before, last, above, hrest, hlast, hwalk, rfl⟩⟩

theorem mono {names names' : List Name} (h : OnWay place names p) (hin : names <+: names') :
    OnWay place names' p := by
  obtain ⟨before, last, above, hbefore, h⟩ := h
  exact ⟨before, last, above, hbefore.trans hin, h⟩

end OnWay

theorem walk_of_leadsTo {names : List Name} (h : leadsTo tree place names = some last) :
    walk place names = some last := by
  induction names generalizing place with
  | nil => exact h
  | cons name rest ih =>
      by_cases hup : name = up
      · cases place with
        | nil => simp [leadsTo, hup] at h
        | cons first above =>
            rw [leadsTo.eq_def] at h
            simp only [if_pos hup] at h
            rw [hup]
            exact (walk_up ..).trans (ih h)
      · rw [leadsTo_cons hup] at h
        rw [walk_name hup]
        split at h
        · exact ih h
        · exact ih h
        · cases h

/-! ## What is added is on the way -/

theorem make_present {name : Name} {node : Kind Nat}
    (h : (tree.make name place node).kind p ≠ .absent) :
    tree.kind p ≠ .absent ∨ p = name :: place := by
  by_cases hp : p = name :: place
  · exact .inr hp
  · refine .inl fun habsent => h ?_
    unfold FileTree.make
    split
    · exact (Function.update_of_ne hp ..).trans habsent
    · exact habsent

theorem enterParents_added {names : List Name}
    (h : (enterParents tree place names fault).1.kind p ≠ .absent) :
    tree.kind p ≠ .absent ∨ OnWay place names p := by
  induction names generalizing tree place fault with
  | nil => exact .inl h
  | cons name rest ih =>
      unfold enterParents at h
      split at h
      · exact .inl h
      · split at h
        · next hup =>
            split at h
            · exact .inl h
            · exact (ih h).imp_right fun hway => hup ▸ hway.up
        · next hup =>
            split at h
            · next habsent =>
                rcases ih h with hmade | hway
                · rcases make_present hmade with hold | rfl
                  · exact .inl hold
                  · exact .inr (.here hup ..)
                · exact .inr (hway.name hup)
            · exact (ih h).imp_right (OnWay.name hup)
            · exact .inl h
            · exact .inl h
            · exact .inl h

theorem prepareTarget_added {name : Name} {directory : Bool}
    (h : (prepareTarget tree place name directory fault).1.kind p ≠ .absent) :
    tree.kind p ≠ .absent ∨ (name ≠ up ∧ p = name :: place) := by
  unfold prepareTarget at h
  split at h
  · exact .inl h
  · split at h
    · exact .inl h
    · next hup =>
        split at h
        · exact (make_present h).imp_right fun heq => ⟨hup, heq⟩
        · exact .inl h
        · exact (make_present h).imp_right fun heq => ⟨hup, heq⟩
        · exact .inl h
        · exact .inl h

theorem parts_eq {mount : Mount} {name : Name} {parents : List Name}
    (h : mount.destination.parts.reverse = name :: parents) :
    mount.destination.parts = parents.reverse ++ [name] := by
  rw [← List.reverse_reverse mount.destination.parts, h, List.reverse_cons]

/-- What a mount adds, and how far it has come when it is bound. -/
structure Way (tree : Rootfs) (mount : Mount) (after : Rootfs) (outcome : Outcome) : Prop where
  added : ∀ p, after.kind p ≠ .absent → tree.kind p ≠ .absent ∨
    (mount.destination.root = .single ∧ OnWay [] mount.destination.parts p)
  bound : ∀ place created, outcome = .bound place created →
    mount.destination.root = .single ∧ ∃ above name,
      mount.destination.parts = mount.destination.parts.dropLast ++ [name] ∧
        walk [] mount.destination.parts.dropLast = some above

theorem prepareMount_way (tree : Rootfs) (mount : Mount) (fault : Fault) :
    Way tree mount (prepareMount tree mount fault).1 (prepareMount tree mount fault).2 := by
  have hnothing : Way tree mount tree .skipped := ⟨fun _ h => .inl h, fun _ _ h => by cases h⟩
  unfold prepareMount
  split
  · exact hnothing
  · split
    · exact hnothing
    · next hroot =>
        have hsingle : mount.destination.root = .single := by simpa using hroot
        split
        · exact hnothing
        · next name parents hparts =>
            have hsplit := parts_eq hparts
            have hadded : ∀ p, (enterParents tree [] parents.reverse fault).1.kind p ≠ .absent →
                tree.kind p ≠ .absent ∨ (mount.destination.root = .single ∧
                  OnWay [] mount.destination.parts p) := by
              intro p hp
              refine (enterParents_added hp).imp_right fun hway => ⟨hsingle, hway.mono ?_⟩
              exact hsplit ▸ List.prefix_append ..
            split
            · next after hafter =>
                rw [hafter] at hadded
                exact ⟨hadded, fun _ _ h => by cases h⟩
            · next after above fault' hafter =>
                have hwalk : walk [] parents.reverse = some above := by
                  have hspec := enterParents_spec parents.reverse fault
                    (FileTree.DirsAdded.refl tree) tree.root
                  exact walk_of_leadsTo (hspec.2 above fault' (by rw [hafter])).leads
                rw [hafter] at hadded
                refine ⟨fun p hp => ?_, fun _ _ _ => ⟨hsingle, above, name, ?_, ?_⟩⟩
                · rcases prepareTarget_added hp with hp | ⟨hup, rfl⟩
                  · exact hadded p hp
                  · exact .inr ⟨hsingle, parents.reverse, name, above, hsplit ▸ List.prefix_rfl,
                      hup, hwalk, rfl⟩
                · rw [hsplit, List.dropLast_concat]
                · rw [hsplit, List.dropLast_concat, hwalk]

/-! ## With nothing in the way -/

/-- There are only directories. -/
def Clear (tree : Rootfs) : Prop := ∀ p, tree.kind p = .absent ∨ tree.kind p = .dir

theorem Clear.make (h : Clear tree) (name : Name) (place : Place) :
    Clear (tree.make name place .dir) := by
  intro p
  rcases FileTree.DirsAdded.make tree name place p with hsame | ⟨-, hdir⟩
  · rw [hsame]
    exact h p
  · exact .inr hdir

/-- What the loop over the parents comes to, when no operation fails. -/
structure Cleared (tree : Rootfs) (place : Place) (names : List Name)
    (result : Rootfs × Option (Place × Fault)) : Prop where
  clear : Clear result.1
  kept : ∀ p, tree.kind p = .dir → result.1.kind p = .dir
  made : ∀ p, OnWay place names p → result.1.kind p = .dir
  reached : ∀ last, walk place names = some last → result.2 = some (last, none)

theorem enterParents_cleared (names : List Name) (h : Clear tree) (hdir : tree.kind place = .dir) :
    Cleared tree place names (enterParents tree place names none) := by
  induction names generalizing tree place with
  | nil =>
      refine ⟨h, fun _ hp => hp, fun p hway => ?_, fun last hlast => ?_⟩
      · obtain ⟨before, name, above, hin, -⟩ := hway
        simp at hin
      · cases hlast
        rfl
  | cons name rest ih =>
      unfold enterParents
      rw [if_neg (by simp)]
      by_cases hup : name = up
      · rw [if_pos hup]
        cases place with
        | nil =>
            refine ⟨h, fun _ hp => hp, fun p hway => ?_, fun last hlast => ?_⟩
            · rcases hway.of_cons with ⟨hname, -⟩ | ⟨-, first, above, hnil, -⟩
              · exact absurd hup hname
              · cases hnil
            · simp [walk, hup, up] at hlast
        | cons first above =>
            obtain ⟨hclear, hkept, hmade, hreached⟩ :=
              ih h (tree.parents first above (by rw [hdir]; simp))
            refine ⟨hclear, hkept, fun p hway => ?_, fun last hlast => ?_⟩
            · rcases hway.of_cons with ⟨hname, -⟩ | ⟨-, first', above', heq, hway⟩
              · exact absurd hup hname
              · cases heq
                exact hmade p hway
            · rw [hup] at hlast
              exact hreached last ((walk_up ..).symm.trans hlast)
      · rw [if_neg hup]
        -- The directory is there, or it is made.
        have hrest : ∀ tree' : Rootfs, Clear tree' → tree'.kind (name :: place) = .dir →
            (∀ p, tree.kind p = .dir → tree'.kind p = .dir) →
            Cleared tree place (name :: rest)
              (enterParents tree' (name :: place) rest none) := by
          intro tree' hclear' hdir' hkept'
          obtain ⟨hclear, hkept, hmade, hreached⟩ := ih hclear' hdir'
          refine ⟨hclear, fun p hp => hkept p (hkept' p hp), fun p hway => ?_,
            fun last hlast => ?_⟩
          · rcases hway.of_cons with ⟨-, rfl | hway⟩ | ⟨hname, -⟩
            · exact hkept _ hdir'
            · exact hmade p hway
            · exact absurd hname hup
          · rw [walk_name hup] at hlast
            exact hreached last hlast
        rcases h (name :: place) with habsent | hpresent
        · rw [habsent]
          refine hrest _ (h.make name place) ?_ fun p hp => ?_
          · rw [FileTree.make_kind hdir habsent, Function.update_self]
          · exact (FileTree.DirsAdded.make tree name place).present (by rw [hp]; simp) |>.trans hp
        · rw [hpresent]
          exact hrest tree h hpresent fun _ hp => hp

theorem prepareTarget_kept {name : Name} {directory : Bool} (h : tree.kind p = .dir) :
    (prepareTarget tree place name directory fault).1.kind p = .dir := by
  have hmake : ∀ node, (tree.make name place node).kind p = .dir := fun node =>
    (FileTree.make_of_present (by rw [h]; simp)).trans h
  unfold prepareTarget
  split
  · exact h
  · split
    · exact h
    · split
      · exact hmake _
      · exact h
      · exact hmake _
      · exact h
      · exact h

theorem prepareTarget_clear (h : Clear tree) (hdir : tree.kind place = .dir) (name : Name) :
    (name ≠ up → (prepareTarget tree place name true none).1.kind (name :: place) = .dir) ∧
      ∃ place', (prepareTarget tree place name true none).2 = .bound place' false := by
  unfold prepareTarget
  rw [if_neg (by simp)]
  by_cases hup : name = up
  · rw [if_pos hup]
    exact ⟨fun hne => absurd hup hne, none, rfl⟩
  · rw [if_neg hup]
    rcases h (name :: place) with habsent | hpresent
    · rw [habsent]
      refine ⟨fun _ => ?_, none, rfl⟩
      exact (congrFun (FileTree.make_kind hdir habsent) _).trans (Function.update_self ..)
    · rw [hpresent]
      exact ⟨fun _ => hpresent, none, rfl⟩

/-- A directory that can be walked to is bound, and the whole way to it is made. -/
theorem prepareMount_clear {mount : Mount} (h : Clear tree) (hsource : mount.source = .directory)
    (hroot : mount.destination.root = .single) :
    (∀ p, OnWay [] mount.destination.parts p →
      (prepareMount tree mount none).1.kind p = .dir) ∧
    ∀ last, mount.destination.parts ≠ [] → walk [] mount.destination.parts.dropLast = some last →
      ∃ place, (prepareMount tree mount none).2 = .bound place false := by
  unfold prepareMount
  rw [if_neg (by simp [hsource]), if_neg (by simp [hroot])]
  split
  · next hparts =>
      have hnil : mount.destination.parts = [] := List.reverse_eq_nil_iff.mp hparts
      refine ⟨fun p hway => ?_, fun _ hne => absurd hnil hne⟩
      obtain ⟨before, name, above, hin, -⟩ := hway
      rw [hnil] at hin
      simp at hin
  · next name parents hparts =>
      have hsplit := parts_eq hparts
      have hcleared := enterParents_cleared parents.reverse h tree.root
      have hspec := enterParents_spec parents.reverse none
        (FileTree.DirsAdded.refl tree) tree.root
      -- What is on the way is a parent, or the target when the parents can be walked.
      have hway : ∀ p, OnWay [] mount.destination.parts p → OnWay [] parents.reverse p ∨
          ∃ above, walk [] parents.reverse = some above ∧ name ≠ up ∧ p = name :: above := by
        rintro p ⟨before, last, above, hin, hlast, hwalk, rfl⟩
        rw [hsplit] at hin
        rcases List.prefix_concat_iff.mp hin with heq | hin
        · obtain ⟨rfl, hname⟩ := List.append_inj' heq rfl
          cases hname
          exact .inr ⟨above, hwalk, hlast, rfl⟩
        · exact .inl ⟨before, last, above, hin, hlast, hwalk, rfl⟩
      rw [hsource, decide_eq_true rfl]
      split
      · next after hafter =>
          rw [hafter] at hcleared
          have hstuck : walk [] parents.reverse = none := by
            by_contra hne
            obtain ⟨last, hlast⟩ := Option.ne_none_iff_exists'.mp hne
            cases hcleared.reached last hlast
          refine ⟨fun p hp => ?_, fun last _ hlast => ?_⟩
          · rcases hway p hp with hp | ⟨above, hwalk, -⟩
            · exact hcleared.made p hp
            · rw [hstuck] at hwalk
              cases hwalk
          · rw [hsplit, List.dropLast_concat, hstuck] at hlast
            cases hlast
      · next after above fault hafter =>
          have hwalk := walk_of_leadsTo (hspec.2 above fault (by rw [hafter])).leads
          rw [hafter] at hcleared hspec
          cases hcleared.reached above hwalk
          have hdir := (hspec.2 above none rfl).dir
          obtain ⟨hmade, place, hbound⟩ := prepareTarget_clear hcleared.clear hdir name
          refine ⟨fun p hp => ?_, fun last _ hlast => ⟨place, hbound⟩⟩
          rcases hway p hp with hp | ⟨above', hwalk', hup, rfl⟩
          · exact prepareTarget_kept (hcleared.made p hp)
          · rw [hwalk] at hwalk'
            cases hwalk'
            exact hmade hup

/-! ## The destination of an overlay -/

theorem isAvailable_up (name : Name) (place rest : List Name) :
    isAvailable tree (name :: place) (up :: rest) = isAvailable tree place rest := by
  rw [isAvailable.eq_def]
  exact if_pos rfl

theorem isAvailable_name {name : Name} (h : name ≠ up) (place rest : List Name) :
    isAvailable tree place (name :: rest) =
      (decide (tree.kind (name :: place) = .dir) && isAvailable tree (name :: place) rest) := by
  rw [isAvailable.eq_def]
  exact if_neg h

/-- A destination is available when it can be walked to and the way is there. -/
theorem isAvailable_iff {names : List Name} :
    isAvailable tree place names = true ↔
      (∃ last, walk place names = some last) ∧ ∀ p, OnWay place names p → tree.kind p = .dir := by
  induction names generalizing place with
  | nil =>
      refine iff_of_true rfl ⟨⟨place, rfl⟩, fun p hway => ?_⟩
      obtain ⟨before, name, above, hin, -⟩ := hway
      simp at hin
  | cons name rest ih =>
      by_cases hup : name = up
      · subst hup
        cases place with
        | nil => simp [isAvailable, walk, up]
        | cons first above =>
            rw [isAvailable_up, ih, up, walk_up]
            refine and_congr_right fun _ => forall_congr' fun p => imp_congr_left ⟨OnWay.up, ?_⟩
            intro hway
            rcases hway.of_cons with ⟨hname, -⟩ | ⟨-, first', above', heq, hway⟩
            · exact absurd rfl hname
            · cases heq
              exact hway
      · rw [isAvailable_name hup, Bool.and_eq_true, decide_eq_true_eq, ih, walk_name hup]
        constructor
        · rintro ⟨hdir, hwalk, hrest⟩
          refine ⟨hwalk, fun p hway => ?_⟩
          rcases hway.of_cons with ⟨-, rfl | hway⟩ | ⟨hname, -⟩
          · exact hdir
          · exact hrest p hway
          · exact absurd hname hup
        · rintro ⟨hwalk, h⟩
          exact ⟨h _ (.here hup ..), hwalk, fun p hway => h p (hway.name hup)⟩

end Spaces.Binds
