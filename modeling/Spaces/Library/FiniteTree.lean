import Mathlib.Data.List.Basic
import Mathlib.Data.List.Dedup
import Spaces.Library.FileTree

/-!
# Trees that can be listed

A tree with a list of all places at which there is something, so that a directory can be
listed. The changes are those of the system calls on names, and each says by `none` that
it fails: nothing is made where something is, only what is empty is removed, and nothing
is moved into itself or over what is not empty.

What is moved keeps what is below it. `move` says where a place is afterwards.
-/

namespace Spaces.Library

structure FiniteTree (ν γ : Type) extends FileTree ν γ where
  support : List (List ν)
  mem_support : ∀ place, kind place ≠ .absent → place ∈ support

namespace FiniteTree

variable {ν γ : Type} [DecidableEq ν] [DecidableEq γ]

/-! ## Listing -/

def places (tree : FiniteTree ν γ) : List (List ν) :=
  tree.support.dedup.filter fun place => tree.kind place ≠ .absent

/-- The directories in a directory. -/
def subdirectories (tree : FiniteTree ν γ) (above : List ν) : List (List ν) :=
  tree.places.filter fun place => place ≠ [] ∧ place.tail = above ∧ tree.kind place = .dir

/-- What is below a place: the names that lead there from it. -/
def below (tree : FiniteTree ν γ) (top : List ν) : List (List ν) :=
  (tree.places.filterMap fun place => place.dropSuffix? top).filter (· ≠ [])

def IsEmpty (tree : FiniteTree ν γ) (place : List ν) : Prop := tree.below place = []

instance (tree : FiniteTree ν γ) (place : List ν) : Decidable (tree.IsEmpty place) :=
  inferInstanceAs (Decidable (_ = _))

theorem mem_places {tree : FiniteTree ν γ} {place : List ν} :
    place ∈ tree.places ↔ tree.kind place ≠ .absent := by
  rw [places, List.mem_filter, List.mem_dedup, decide_eq_true_eq, and_iff_right_iff_imp]
  exact tree.mem_support place

theorem mem_subdirectories {tree : FiniteTree ν γ} {name : ν} {above : List ν}
    (h : tree.kind (name :: above) = .dir) : name :: above ∈ tree.subdirectories above := by
  rw [subdirectories, List.mem_filter, mem_places, decide_eq_true_eq, h]
  exact ⟨by simp, List.cons_ne_nil _ _, rfl, rfl⟩

/-- A directory that is not the top itself is below one of the directories in it. -/
theorem dir_cases {tree : FiniteTree ν γ} {top place : List ν} (h : tree.kind place = .dir)
    (hbelow : top <:+ place) :
    place = top ∨ ∃ child ∈ tree.subdirectories top, child <:+ place := by
  obtain ⟨names, rfl⟩ := hbelow
  rcases List.eq_nil_or_concat names with rfl | ⟨rest, name, rfl⟩
  · exact .inl rfl
  · rw [List.concat_eq_append, List.append_assoc, List.singleton_append] at h ⊢
    refine .inr ⟨name :: top, mem_subdirectories ?_, List.suffix_append _ _⟩
    by_cases hrest : rest = []
    · rwa [hrest, List.nil_append] at h
    · exact tree.dir_of_below hrest (by rw [h]; simp)

/-! ## Changes -/

omit [DecidableEq γ] in
theorem dropSuffix?_iff {place top names : List ν} :
    place.dropSuffix? top = some names ↔ place = names ++ top := by
  rw [List.dropSuffix?_eq_some_iff]
  constructor
  · rintro ⟨top', rfl, htop⟩
    rw [eq_of_beq htop]
  · rintro rfl
    exact ⟨top, rfl, beq_self_eq_true top⟩

omit [DecidableEq γ] in
theorem not_suffix_of_dropSuffix? {place top : List ν} (h : place.dropSuffix? top = none) :
    ¬top <:+ place := by
  rintro ⟨names, hnames⟩
  rw [dropSuffix?_iff.mpr hnames.symm] at h
  cases h

/-- Where a place is once `source` is called `target`. -/
def move (source target place : List ν) : List ν :=
  match place.dropSuffix? source with
  | some names => names ++ target
  | none => place

/-- What is at a place then. -/
def movedKind (kind : List ν → Kind γ) (source target place : List ν) : Kind γ :=
  match place.dropSuffix? target with
  | some names => kind (names ++ source)
  | none => if source <:+ place then .absent else kind place

def create (tree : FiniteTree ν γ) (name : ν) (above : List ν) (node : Kind γ) :
    Option (FiniteTree ν γ) :=
  if tree.kind above = .dir ∧ tree.kind (name :: above) = .absent ∧ node ≠ .absent then
    some
      { tree.toFileTree.make name above node with
        support := (name :: above) :: tree.support
        mem_support := by
          intro place h
          by_cases hplace : tree.kind place = .absent
          · unfold FileTree.make at h
            split at h
            · by_cases hself : place = name :: above
              · exact hself ▸ List.mem_cons_self
              · exact absurd ((Function.update_of_ne hself ..).trans hplace) h
            · exact absurd hplace h
          · exact List.mem_cons_of_mem _ (tree.mem_support place hplace) }
  else none

/-- New content for a file. -/
def write (tree : FiniteTree ν γ) (name : ν) (above : List ν) (content : γ) :
    Option (FiniteTree ν γ) :=
  match h : tree.kind (name :: above) with
  | .file _ =>
      some
        { kind := Function.update tree.kind (name :: above) (.file content)
          root := by rw [Function.update_of_ne (List.cons_ne_nil name above).symm, tree.root]
          parents := by
            intro other place hother
            have hpresent : tree.kind (other :: place) ≠ .absent := by
              by_cases hself : other :: place = name :: above
              · rw [hself, h]
                simp
              · rwa [Function.update_of_ne hself] at hother
            have hplace := tree.parents other place hpresent
            rw [Function.update_of_ne ?_]
            · exact hplace
            · rintro rfl
              rw [h] at hplace
              cases hplace
          support := tree.support
          mem_support := by
            intro place hplace
            by_cases hself : place = name :: above
            · exact tree.mem_support place (by rw [hself, h]; simp)
            · rw [Function.update_of_ne hself] at hplace
              exact tree.mem_support place hplace }
  | _ => none

/-- `unlink`, and `rmdir` of an empty directory. -/
def remove (tree : FiniteTree ν γ) (name : ν) (above : List ν) : Option (FiniteTree ν γ) :=
  if h : tree.kind (name :: above) ≠ .absent ∧ tree.IsEmpty (name :: above) then
    some
      { kind := Function.update tree.kind (name :: above) .absent
        root := by rw [Function.update_of_ne (List.cons_ne_nil name above).symm, tree.root]
        parents := by
          intro other place hother
          by_cases hself : other :: place = name :: above
          · rw [hself, Function.update_self] at hother
            exact absurd rfl hother
          · rw [Function.update_of_ne hself] at hother
            rw [Function.update_of_ne, tree.parents other place hother]
            rintro rfl
            have hbelow : [other] ∈ tree.below (name :: above) := by
              rw [below, List.mem_filter, List.mem_filterMap]
              exact ⟨⟨_, mem_places.mpr hother, dropSuffix?_iff.mpr rfl⟩, by simp⟩
            rw [h.2] at hbelow
            cases hbelow
        support := tree.support
        mem_support := by
          intro place hplace
          by_cases hself : place = name :: above
          · exact tree.mem_support place (hself ▸ h.1)
          · rw [Function.update_of_ne hself] at hplace
            exact tree.mem_support place hplace }
  else none

/-- What `rename` asks for: the target is free or can be replaced, in a directory that is
not part of what is moved. -/
structure Movable (tree : FiniteTree ν γ) (source : List ν) (name : ν) (above : List ν) :
    Prop where
  present : tree.kind source ≠ .absent
  parent : tree.kind above = .dir
  outside : ¬source <:+ name :: above
  replaceable : tree.kind (name :: above) ≠ .absent →
    tree.IsEmpty (name :: above) ∧
      (tree.kind (name :: above) = .dir ↔ tree.kind source = .dir)

instance (tree : FiniteTree ν γ) (source : List ν) (name : ν) (above : List ν) :
    Decidable (tree.Movable source name above) :=
  decidable_of_iff
    (tree.kind source ≠ .absent ∧ tree.kind above = .dir ∧ ¬source <:+ name :: above ∧
      (tree.kind (name :: above) ≠ .absent → tree.IsEmpty (name :: above) ∧
        (tree.kind (name :: above) = .dir ↔ tree.kind source = .dir)))
    ⟨fun ⟨hpresent, hparent, houtside, hreplaceable⟩ =>
        ⟨hpresent, hparent, houtside, hreplaceable⟩,
      fun h => ⟨h.present, h.parent, h.outside, h.replaceable⟩⟩

theorem Movable.parents {tree : FiniteTree ν γ} {source : List ν} {name : ν} {above : List ν}
    (h : tree.Movable source name above) (other : ν) (place : List ν)
    (hother : movedKind tree.kind source (name :: above) (other :: place) ≠ .absent) :
    movedKind tree.kind source (name :: above) place = .dir := by
  unfold movedKind at hother
  split at hother
  · next names hnames =>
    rw [dropSuffix?_iff] at hnames
    cases names with
    | nil =>
        -- The target itself: its directory is where it was.
        cases hnames
        have hnone : above.dropSuffix? (name :: above) = none := by
          rw [Option.eq_none_iff_forall_ne_some]
          intro names hnames
          have hlength := congrArg List.length (dropSuffix?_iff.mp hnames)
          rw [List.length_append, List.length_cons] at hlength
          omega
        rw [movedKind, hnone]
        simp only
        rw [if_neg fun hbelow => h.outside (hbelow.trans (List.suffix_cons name above))]
        exact h.parent
    | cons first names =>
        have hplace : place = names ++ name :: above := (List.cons.inj hnames).2
        rw [movedKind, dropSuffix?_iff.mpr hplace]
        exact tree.parents _ _ hother
  · next hnone =>
    split at hother
    · exact absurd rfl hother
    · next hsource =>
      have htarget : place.dropSuffix? (name :: above) = none := by
        rw [Option.eq_none_iff_forall_ne_some]
        rintro names hnames
        refine not_suffix_of_dropSuffix? hnone ?_
        rw [dropSuffix?_iff.mp hnames]
        exact List.suffix_append (other :: names) _
      rw [movedKind, htarget]
      simp only
      rw [if_neg fun hbelow => hsource (hbelow.trans (List.suffix_cons other place))]
      exact tree.parents other place hother

def rename (tree : FiniteTree ν γ) (source : List ν) (name : ν) (above : List ν) :
    Option (FiniteTree ν γ) :=
  if h : tree.Movable source name above then
    some
      { kind := movedKind tree.kind source (name :: above)
        root := by
          have hsource : source ≠ [] := by
            rintro rfl
            exact h.outside List.nil_suffix
          have htarget : ([] : List ν).dropSuffix? (name :: above) = none := by
            rw [Option.eq_none_iff_forall_ne_some]
            intro names hnames
            have := dropSuffix?_iff.mp hnames
            simp at this
          rw [movedKind, htarget]
          simp only
          rw [if_neg (by rwa [List.suffix_nil]), tree.root]
        parents := h.parents
        support := tree.support.map (move source (name :: above))
        mem_support := by
          intro place hplace
          rw [List.mem_map]
          unfold movedKind at hplace
          split at hplace
          · next names hnames =>
            refine ⟨names ++ source, tree.mem_support _ hplace, ?_⟩
            rw [move, dropSuffix?_iff.mpr rfl, dropSuffix?_iff.mp hnames]
          · split at hplace
            · exact absurd rfl hplace
            · next hsource =>
              refine ⟨place, tree.mem_support _ hplace, ?_⟩
              have hnone : place.dropSuffix? source = none := by
                rw [Option.eq_none_iff_forall_ne_some]
                intro names hnames
                exact hsource ⟨names, (dropSuffix?_iff.mp hnames).symm⟩
              rw [move, hnone] }
  else none

end FiniteTree

end Spaces.Library
