import Spaces.Binds.Paths
import Spaces.Library.LexicalPath

/-!
# Locations in a Space

`spaces cp` takes the name of a Space, a colon and a location, and copies with the path
that the location has on the host. The text that the location begins with selects a tree;
what follows it is appended to the root of the tree, two dots are resolved by the text
alone, and what has left the tree then is refused.
-/

namespace Spaces.Locations

open Spaces.Library Spaces.Shortcuts
open Spaces.Binds (fsChars Name up)

abbrev FsPath := PurePath fsChars

def slash : FsChar := .char '/'

/-! ## Directories -/

def named (name : String) (h : (Component.ofName fsChars (fsText name.toList)).isSome = true) :
    Name :=
  (Component.ofName fsChars (fsText name.toList)).get h

namespace Dir

def var : Name := named "var" (by decide)
def lib : Name := named "lib" (by decide)
def spaces : Name := named "spaces" (by decide)
def cache : Name := named "cache" (by decide)
def home : Name := named "home" (by decide)
def root : Name := named "root" (by decide)
def rootfs : Name := named "rootfs" (by decide)

end Dir

def STATE_ROOT : FsPath := ⟨.single, [Dir.var, Dir.lib, Dir.spaces]⟩

def CACHE_ROOT : FsPath := ⟨.single, [Dir.var, Dir.cache, Dir.spaces]⟩

example : PurePath.parse fsChars (fsText "/var/lib/spaces".toList) = STATE_ROOT := by decide

theorem text_ne_nil (space : SpaceName) : fsText space.text ≠ [] := by
  obtain ⟨text, valid⟩ := space
  cases text with
  | nil => exact absurd valid (by decide)
  | cons first rest => exact List.cons_ne_nil _ _

theorem not_mem_text (space : SpaceName) {c : Char} (h : isSpaceNameChar c = false) :
    .char c ∉ fsText space.text := by
  intro hmem
  obtain ⟨d, hd, hdc⟩ := List.mem_map.mp hmem
  cases hdc
  exact Bool.false_ne_true (h.symm.trans (space.isSpaceNameChar _ hd))

theorem text_ne_dot (space : SpaceName) : fsText space.text ≠ [fsChars.dot] := by
  intro h
  exact not_mem_text space (c := '.') (by decide) (by rw [h]; exact List.mem_singleton_self _)

/-- The name of a Space as a part of a path. -/
def component (space : SpaceName) : Name :=
  ⟨fsText space.text, text_ne_nil space, text_ne_dot space,
    not_mem_text space (by decide)⟩

theorem component_ne_up (space : SpaceName) : component space ≠ up := by
  intro h
  have hname : fsText space.text = [fsChars.dot, fsChars.dot] := congrArg Component.name h
  exact not_mem_text space (c := '.') (by decide) (by rw [hname]; exact List.mem_cons_self)

/-! ## The code -/

structure Host where
  isSymlink : FsPath → Bool
  isDir : FsPath → Bool

inductive SpacesError where
  | spaceName
  | noSpace (name : SpaceName)
  | unsafeFilesystem (name : SpaceName)
  | escapes (name : SpaceName) (location : FsName)
  deriving DecidableEq

/-- The branches of `resolve_space_location`. -/
inductive Branch where
  | home
  | varHome
  | varCache
  | rootfs
  deriving DecidableEq

/-- What `removeprefix` takes from a location. -/
def Branch.top : Branch → FsName
  | .home => fsText "/home".toList
  | .varHome => fsText "/var/home".toList
  | .varCache => fsText "/var/cache".toList
  | .rootfs => []

def Branch.selects (b : Branch) (location : FsName) : Bool :=
  decide (location = b.top) || decide (b.top ++ [slash] <+: location)

def branch (location : FsName) : Branch :=
  if Branch.home.selects location then .home
  else if Branch.varHome.selects location then .varHome
  else if Branch.varCache.selects location then .varCache
  else .rootfs

def Branch.root (space : SpaceName) : Branch → FsPath
  | .home | .varHome => STATE_ROOT.joinpath [component space, Dir.home]
  | .varCache => CACHE_ROOT.joinpath [component space]
  | .rootfs => STATE_ROOT.joinpath [component space, Dir.rootfs]

def relative (location : FsName) : FsName :=
  (Text.removePrefix (branch location).top location).dropWhile (· = slash)

def resolveIn (host : Host) (space : SpaceName) (location : FsName) : Except SpacesError FsPath :=
  let directory := STATE_ROOT.joinpath [component space]
  if host.isSymlink directory || !host.isDir directory then .error (.noSpace space)
  else
    let root := (branch location).root space
    if host.isSymlink root || !host.isDir root then .error (.unsafeFilesystem space)
    else
      let fixedLocation := (root.div (relative location)).normpath
      if fixedLocation.within root then .ok fixedLocation else .error (.escapes space location)

def validateSpaceName (name : FsName) : Except SpacesError SpaceName :=
  match encode name with
  | none => .error .spaceName
  | some text =>
      if valid : isSpaceName text = true then .ok ⟨text, valid⟩ else .error .spaceName

def resolveSpaceLocation (host : Host) (value : FsName) : Except SpacesError FsName :=
  if value.head? = some (.char '-') then .ok value
  else
    match value.dropWhile (· ≠ .char ':') with
    | [] => .ok value
    | _ :: location =>
        match validateSpaceName (value.takeWhile (· ≠ .char ':')) with
        | .error error => .error error
        | .ok space => (resolveIn host space location).map PurePath.str

/-! ## What is appended, and where it leads -/

/-- The part of the guest's path that selects the branch. -/
def Branch.mount (b : Branch) : List Name := components fsChars b.top

/-- What comes after it. -/
def parts (location : FsName) : List Name := components fsChars (relative location)

theorem branch_selects (location : FsName) :
    branch location = .rootfs ∨ (branch location).selects location = true := by
  unfold branch
  split_ifs with hhome hvarHome hvarCache
  · exact .inr hhome
  · exact .inr hvarHome
  · exact .inr hvarCache
  · exact .inl rfl

theorem components_of_selects {b : Branch} {location : FsName}
    (h : b.selects location = true) :
    components fsChars location = b.mount ++
      components fsChars (Text.removePrefix b.top location) := by
  simp only [Branch.selects, Bool.or_eq_true, decide_eq_true_eq] at h
  unfold Branch.mount
  rcases h with rfl | ⟨rest, rfl⟩
  · rw [Text.removePrefix, if_pos (List.prefix_refl _), List.drop_length, components_nil,
      List.append_nil]
  · have hprefix : b.top <+: b.top ++ [slash] ++ rest := by
      rw [List.append_assoc]
      exact List.prefix_append ..
    rw [Text.removePrefix, if_pos hprefix, List.append_assoc, List.drop_left]
    have hrest : components fsChars ([slash] ++ rest) = components fsChars rest :=
      components_slash rest
    exact (components_append_slash b.top rest).trans (congrArg (_ ++ ·) hrest.symm)

/-- The components of the location, whichever branch it takes. -/
theorem components_location (location : FsName) :
    components fsChars location = (branch location).mount ++ parts location := by
  unfold parts relative
  rw [show slash = fsChars.slash from rfl, components_dropWhile_slash]
  rcases branch_selects location with hroot | hselects
  · rw [hroot]
    simp [Branch.mount, Branch.top, Text.removePrefix]
  · exact components_of_selects hselects

/-- No slash is left in front. -/
theorem relative_head (location : FsName) : (relative location).head? ≠ some slash := by
  intro hhead
  have hnot := List.head?_dropWhile_not (fun c => decide (c = slash))
    (Text.removePrefix (branch location).top location)
  unfold relative at hhead
  rw [hhead] at hnot
  simp at hnot

theorem up_not_mem_root (space : SpaceName) (b : Branch) : up ∉ (b.root space).parts := by
  have hspace := (component_ne_up space).symm
  have hdirs : up ≠ Dir.var ∧ up ≠ Dir.lib ∧ up ≠ Dir.spaces ∧ up ≠ Dir.cache ∧ up ≠ Dir.home
      ∧ up ≠ Dir.rootfs := by decide
  cases b <;> simp [Branch.root, PurePath.joinpath, STATE_ROOT, CACHE_ROOT, hspace, hdirs]

/-- Appended to the root of its tree, what is left of a location leads to `target`. -/
theorem normpath_div (space : SpaceName) (location : FsName) :
    (((branch location).root space).div (relative location)).normpath =
      ⟨.single, (Route.of (parts location)).target ((branch location).root space).parts⟩ := by
  have hroot : ((branch location).root space).root = .single := by
    cases branch location <;> rfl
  rw [PurePath.div, if_neg (not_not.mpr (PurePath.parse_root_of_head (relative_head location))),
    PurePath.joinpath, PurePath.normpath, PurePath.parse_parts, normal_append,
    normal_plain (up_not_mem_root space _), List.nil_append, Route.normal_eq_target, hroot]
  rfl

theorem resolveIn_eq_ok {host : Host} {space : SpaceName} {location : FsName} {path : FsPath}
    (h : resolveIn host space location = .ok path) :
    ((branch location).root space).parts <+: path.parts ∧
      path = ⟨.single,
        (Route.of (parts location)).target ((branch location).root space).parts⟩ := by
  unfold resolveIn at h
  dsimp only at h
  split at h
  · cases h
  · split at h
    · cases h
    · rw [normpath_div] at h
      split at h
      · next hwithin =>
          cases h
          exact ⟨(PurePath.within_iff.mp hwithin).2, rfl⟩
      · cases h

/-- The argument that names a location. -/
def spaceLocation (space : SpaceName) (location : FsName) : FsName :=
  fsText space.text ++ .char ':' :: location

theorem validateSpaceName_text (space : SpaceName) :
    validateSpaceName (fsText space.text) = .ok space := by
  rw [validateSpaceName, encode_fsText]
  exact dif_pos space.valid

theorem head_ne_dash (space : SpaceName) (location : FsName) :
    (spaceLocation space location).head? ≠ some (.char '-') := by
  obtain ⟨text, valid⟩ := space
  cases text with
  | nil => exact absurd valid (by decide)
  | cons first rest =>
      intro hhead
      cases hhead
      simp [isSpaceName] at valid

theorem resolveSpaceLocation_spaceLocation (host : Host) (space : SpaceName) (location : FsName) :
    resolveSpaceLocation host (spaceLocation space location) =
      (resolveIn host space location).map PurePath.str := by
  have hcolon : ∀ c ∈ fsText space.text, decide (c ≠ .char ':') = true := by
    intro c hc
    rw [decide_eq_true_eq]
    rintro rfl
    exact not_mem_text space (c := ':') (by decide) hc
  unfold resolveSpaceLocation
  rw [if_neg (head_ne_dash space location)]
  unfold spaceLocation
  rw [List.dropWhile_append_of_pos hcolon, List.takeWhile_append_of_pos hcolon,
    List.dropWhile_cons_of_neg (by simp), List.takeWhile_cons_of_neg (by simp), List.append_nil]
  simp only [validateSpaceName_text]

end Spaces.Locations
