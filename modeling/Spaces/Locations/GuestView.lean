import Spaces.Library.Outcome
import Spaces.Locations.Resolve

/-!
# What the guest sees at a location

The launcher binds the home tree, the home of the superuser and the cache over the root
file system, and puts a link there that makes `/var/home` another name of `/home`. So a
path in the guest has one path on the host, and `resolve_space_location` ought to find it.

It finds it when the text of the location selects the tree that the guest has there, and
when two dots do not climb out of it further than the guest's path and the host's end in
the same names. A location that is spelled otherwise, with a second slash in front, a dot
or a detour, is looked up in the root file system; so is the superuser's home, which no
branch selects.
-/

namespace Spaces.Locations

open Spaces.Library Spaces.Shortcuts
open Spaces.Binds (fsChars Name up)

/-! ## The launcher -/

/-- `--bind=source:destination` -/
structure Bind where
  source : FsPath
  destination : List Name

/-- The binds that `_command` gives every Space. -/
def commandBinds (space : SpaceName) : List Bind :=
  let home := STATE_ROOT.joinpath [component space, Dir.home]
  [⟨home, [Dir.home]⟩, ⟨home.joinpath [Dir.root], [Dir.root]⟩,
    ⟨CACHE_ROOT.joinpath [component space], [Dir.var, Dir.cache]⟩]

/-- The link of `ROOTFS_SYMLINKS`, and what it leads to. -/
def varHome : List Name := [Dir.var, Dir.home]
def varHomeTarget : List Name := [Dir.home]

/-- `linked` is false where the root file system had something else under the name. -/
def followed (linked : Bool) (place : List Name) : List Name :=
  if linked = true ∧ varHome <+: place then varHomeTarget ++ place.drop varHome.length else place

def mounted (space : SpaceName) (place : List Name) : FsPath :=
  match (commandBinds space).find? fun bind => decide (bind.destination <+: place) with
  | some bind => bind.source.joinpath (place.drop bind.destination.length)
  | none => (Branch.rootfs.root space).joinpath place

/-- The host's path of a path in the guest. -/
def seen (linked : Bool) (space : SpaceName) (place : List Name) : FsPath :=
  mounted space (followed linked place)

/-- Where a location leads in the guest. -/
def guestPlace (location : FsName) : List Name := normal [] (components fsChars location)

/-- What the guest has in other trees than the root file system. -/
def elsewhere (linked : Bool) : List (List Name) :=
  [[Dir.home], [Dir.root], [Dir.var, Dir.cache]] ++ if linked then [varHome] else []

theorem mounted_cases (space : SpaceName) (place : List Name) :
    (∃ rest, place = Dir.home :: rest ∧
      mounted space place = (Branch.home.root space).joinpath rest) ∨
    (∃ rest, place = Dir.root :: rest ∧
      mounted space place = (Branch.home.root space).joinpath place) ∨
    (∃ rest, place = Dir.var :: Dir.cache :: rest ∧
      mounted space place = (Branch.varCache.root space).joinpath rest) ∨
    (¬[Dir.home] <+: place ∧ ¬[Dir.root] <+: place ∧ ¬[Dir.var, Dir.cache] <+: place ∧
      mounted space place = (Branch.rootfs.root space).joinpath place) := by
  by_cases hhome : [Dir.home] <+: place
  · obtain ⟨rest, rfl⟩ := hhome
    exact .inl ⟨rest, rfl, by simp [mounted, commandBinds, Branch.root]⟩
  · by_cases hroot : [Dir.root] <+: place
    · obtain ⟨rest, rfl⟩ := hroot
      refine .inr (.inl ⟨rest, rfl, ?_⟩)
      simp +decide [mounted, commandBinds, Branch.root, PurePath.joinpath]
    · by_cases hcache : [Dir.var, Dir.cache] <+: place
      · obtain ⟨rest, rfl⟩ := hcache
        refine .inr (.inr (.inl ⟨rest, rfl, ?_⟩))
        simp +decide [mounted, commandBinds, Branch.root]
      · exact .inr (.inr (.inr ⟨hhome, hroot, hcache, by
          simp [mounted, commandBinds, hhome, hroot, hcache]⟩))

/-- The host's path, by what the guest's begins with. -/
inductive Sees (linked : Bool) (space : SpaceName) : List Name → FsPath → Prop where
  | home (rest : List Name) :
      Sees linked space (Dir.home :: rest) ((Branch.home.root space).joinpath rest)
  | varHome (hlinked : linked = true) (rest : List Name) :
      Sees linked space (Dir.var :: Dir.home :: rest) ((Branch.home.root space).joinpath rest)
  | root (rest : List Name) :
      Sees linked space (Dir.root :: rest) ((Branch.home.root space).joinpath (Dir.root :: rest))
  | varCache (rest : List Name) :
      Sees linked space (Dir.var :: Dir.cache :: rest)
        ((Branch.varCache.root space).joinpath rest)
  | rootfs (place : List Name) (h : ∀ top ∈ elsewhere linked, ¬top <+: place) :
      Sees linked space place ((Branch.rootfs.root space).joinpath place)

theorem sees (linked : Bool) (space : SpaceName) (place : List Name) :
    Sees linked space place (seen linked space place) := by
  unfold seen followed
  split
  · next h =>
      obtain ⟨hlinked, rest, rfl⟩ := h
      have hmounted : mounted space (varHomeTarget ++ (varHome ++ rest).drop varHome.length) =
          (Branch.home.root space).joinpath rest := by
        rw [List.drop_left]
        simp [varHomeTarget, mounted, commandBinds, Branch.root]
      rw [hmounted]
      exact .varHome hlinked rest
  · next hlink =>
      rcases mounted_cases space place with ⟨rest, rfl, h⟩ | ⟨rest, rfl, h⟩ | ⟨rest, rfl, h⟩ |
        ⟨hhome, hroot, hcache, h⟩
      · rw [h]
        exact .home rest
      · rw [h]
        exact .root rest
      · rw [h]
        exact .varCache rest
      · rw [h]
        refine .rootfs place fun top htop => ?_
        cases linked <;> simp [elsewhere] at htop hlink
        · rcases htop with rfl | rfl | rfl <;> assumption
        · rcases htop with rfl | rfl | rfl | rfl <;> assumption

theorem joinpath_inj {path : FsPath} {rest rest' : List Name} :
    path.joinpath rest = path.joinpath rest' ↔ rest = rest' := by
  simp [PurePath.joinpath]

theorem home_ne_rootfs (space : SpaceName) (rest rest' : List Name) :
    (Branch.home.root space).joinpath rest ≠ (Branch.rootfs.root space).joinpath rest' := by
  simp +decide [Branch.root, PurePath.joinpath, STATE_ROOT]

theorem cache_ne_state (space : SpaceName) (b : Branch) (hb : b ≠ .varCache)
    (rest rest' : List Name) :
    (Branch.varCache.root space).joinpath rest ≠ (b.root space).joinpath rest' := by
  cases b with
  | varCache => exact absurd rfl hb
  | home => simp +decide [Branch.root, PurePath.joinpath, STATE_ROOT, CACHE_ROOT]
  | varHome => simp +decide [Branch.root, PurePath.joinpath, STATE_ROOT, CACHE_ROOT]
  | rootfs => simp +decide [Branch.root, PurePath.joinpath, STATE_ROOT, CACHE_ROOT]

section Inversion

variable {linked : Bool} {space : SpaceName} {place rest : List Name}

theorem seen_eq_home_iff :
    seen linked space place = (Branch.home.root space).joinpath rest ↔
      place = Dir.home :: rest ∨ (linked = true ∧ place = Dir.var :: Dir.home :: rest) ∨
        (place = rest ∧ [Dir.root] <+: place) := by
  have hsees := sees linked space place
  generalize seen linked space place = path at hsees
  cases hsees with
  | home rest' =>
      rw [joinpath_inj]
      simp +decide
  | varHome hlinked rest' =>
      rw [joinpath_inj]
      simp +decide [hlinked]
  | root rest' =>
      rw [joinpath_inj]
      simp +decide
  | varCache rest' =>
      refine iff_of_false (cache_ne_state space .home (by decide) _ _) ?_
      simp +decide
  | rootfs place h =>
      refine iff_of_false (home_ne_rootfs space _ _).symm ?_
      rintro (rfl | ⟨hlinked, rfl⟩ | ⟨-, hroot⟩)
      · exact h [Dir.home] (by simp [elsewhere]) ⟨rest, rfl⟩
      · exact h varHome (by simp [elsewhere, hlinked]) ⟨rest, rfl⟩
      · exact h [Dir.root] (by simp [elsewhere]) hroot

theorem seen_eq_cache_iff :
    seen linked space place = (Branch.varCache.root space).joinpath rest ↔
      place = Dir.var :: Dir.cache :: rest := by
  have hsees := sees linked space place
  generalize seen linked space place = path at hsees
  have hstate := fun b hb rest' => (cache_ne_state space b hb rest rest').symm
  cases hsees with
  | home rest' => exact iff_of_false (hstate .home (by decide) _) (by simp +decide)
  | varHome hlinked rest' => exact iff_of_false (hstate .home (by decide) _) (by simp +decide)
  | root rest' => exact iff_of_false (hstate .home (by decide) _) (by simp +decide)
  | varCache rest' =>
      rw [joinpath_inj]
      simp
  | rootfs place h =>
      refine iff_of_false (hstate .rootfs (by decide) _) ?_
      rintro rfl
      exact h [Dir.var, Dir.cache] (by simp [elsewhere]) ⟨rest, rfl⟩

theorem seen_eq_rootfs_iff :
    seen linked space place = (Branch.rootfs.root space).joinpath rest ↔
      place = rest ∧ ∀ top ∈ elsewhere linked, ¬top <+: place := by
  have hsees := sees linked space place
  generalize seen linked space place = path at hsees
  cases hsees with
  | home rest' =>
      refine iff_of_false (home_ne_rootfs space _ _) fun h => ?_
      exact h.2 [Dir.home] (by simp [elsewhere]) ⟨rest', rfl⟩
  | varHome hlinked rest' =>
      refine iff_of_false (home_ne_rootfs space _ _) fun h => ?_
      exact h.2 varHome (by simp [elsewhere, hlinked]) ⟨rest', rfl⟩
  | root rest' =>
      refine iff_of_false (home_ne_rootfs space _ _) fun h => ?_
      exact h.2 [Dir.root] (by simp [elsewhere]) ⟨rest', rfl⟩
  | varCache rest' =>
      refine iff_of_false (cache_ne_state space .rootfs (by decide) _ _) fun h => ?_
      exact h.2 [Dir.var, Dir.cache] (by simp [elsewhere]) ⟨rest', rfl⟩
  | rootfs place h => rw [joinpath_inj, and_iff_left h]

end Inversion

/-! ## Where the two agree -/

/-- The condition on a location. `climb` counts the two dots that leave what the location
begins with; a climb that ends where it began passes the names that both paths end in. -/
def Straight (linked : Bool) (space : SpaceName) (location : FsName) : Prop :=
  let route := Route.of (parts location)
  match branch location with
  | .home =>
      route.climb ≤ 1 ∨ (route.climb = 2 ∧ component space = Dir.var ∧ linked = true)
  | .varHome =>
      linked = true ∧ (route.climb ≤ 1 ∨ (route.climb = 2 ∧ component space = Dir.var))
  | .varCache => route.climb = 0 ∨ (route.climb = 1 ∧ component space = Dir.cache)
  | .rootfs => route.climb = 0 ∧ ∀ top ∈ elsewhere linked, ¬top <+: route.descent

theorem guestPlace_eq (location : FsName) :
    guestPlace location = (Route.of (parts location)).target (branch location).mount := by
  have hmount : up ∉ (branch location).mount := by
    cases branch location <;> decide
  rw [guestPlace, components_location, normal_append, normal_plain hmount, List.nil_append,
    Route.normal_eq_target]

section Back

variable {linked : Bool} {space : SpaceName} {rest : List Name} (n : Nat)

theorem home_back :
    seen linked space ([Dir.home].rdrop n ++ ((Branch.home.root space).parts.rtake n ++ rest)) =
      (Branch.home.root space).joinpath rest ↔
    n ≤ 1 ∨ (n = 2 ∧ component space = Dir.var ∧ linked = true) := by
  have hlonger : [Dir.home].rdrop n ++ ((Branch.home.root space).parts.rtake n ++ rest) ≠ rest := by
    intro h
    have hlength := congrArg List.length h
    simp [List.rdrop, List.rtake, Branch.root, STATE_ROOT, PurePath.joinpath] at hlength
    omega
  rw [seen_eq_home_iff]
  simp only [hlonger, false_and, or_false]
  rcases n with _ | _ | _ | _ | _ | n
  · simp [List.rtake, List.rdrop]
  · simp [List.rtake, List.rdrop, Branch.root, STATE_ROOT, PurePath.joinpath]
  · simp +decide [List.rtake, List.rdrop, Branch.root, STATE_ROOT, PurePath.joinpath, and_comm]
  · simp +decide [List.rtake, List.rdrop, Branch.root, STATE_ROOT, PurePath.joinpath]
  · simp +decide [List.rtake, List.rdrop, Branch.root, STATE_ROOT, PurePath.joinpath]
  · simp +decide [List.rtake, List.rdrop, Branch.root, STATE_ROOT, PurePath.joinpath]

theorem varHome_back :
    seen linked space
        ([Dir.var, Dir.home].rdrop n ++ ((Branch.varHome.root space).parts.rtake n ++ rest)) =
      (Branch.varHome.root space).joinpath rest ↔
    linked = true ∧ (n ≤ 1 ∨ (n = 2 ∧ component space = Dir.var)) := by
  have hlonger : [Dir.var, Dir.home].rdrop n ++
      ((Branch.home.root space).parts.rtake n ++ rest) ≠ rest := by
    intro h
    have hlength := congrArg List.length h
    simp [List.rdrop, List.rtake, Branch.root, STATE_ROOT, PurePath.joinpath] at hlength
    omega
  rw [show Branch.varHome.root space = Branch.home.root space from rfl, seen_eq_home_iff]
  simp only [hlonger, false_and, or_false]
  rcases n with _ | _ | _ | _ | _ | n
  · simp +decide [List.rtake, List.rdrop]
  · simp +decide [List.rtake, List.rdrop, Branch.root, STATE_ROOT, PurePath.joinpath]
  · simp +decide [List.rtake, List.rdrop, Branch.root, STATE_ROOT, PurePath.joinpath]
  · simp +decide [List.rtake, List.rdrop, Branch.root, STATE_ROOT, PurePath.joinpath]
  · simp +decide [List.rtake, List.rdrop, Branch.root, STATE_ROOT, PurePath.joinpath]
  · simp +decide [List.rtake, List.rdrop, Branch.root, STATE_ROOT, PurePath.joinpath]

theorem varCache_back :
    seen linked space
        ([Dir.var, Dir.cache].rdrop n ++ ((Branch.varCache.root space).parts.rtake n ++ rest)) =
      (Branch.varCache.root space).joinpath rest ↔
    n = 0 ∨ (n = 1 ∧ component space = Dir.cache) := by
  rw [seen_eq_cache_iff]
  rcases n with _ | _ | _ | _ | n
  · simp [List.rtake, List.rdrop]
  · simp +decide [List.rtake, List.rdrop, Branch.root, CACHE_ROOT, PurePath.joinpath]
  · simp +decide [List.rtake, List.rdrop, Branch.root, CACHE_ROOT, PurePath.joinpath]
  · simp +decide [List.rtake, List.rdrop, Branch.root, CACHE_ROOT, PurePath.joinpath]
  · -- Back at the root of the cache, the guest's path still ends in the names it came by.
    have hlonger : Dir.spaces :: component space :: rest ≠ rest := by
      intro h
      have hlength := congrArg List.length h
      simp only [List.length_cons] at hlength
      omega
    simpa [List.rtake, List.rdrop, Branch.root, CACHE_ROOT, PurePath.joinpath] using hlonger

theorem rootfs_back :
    seen linked space ((Branch.rootfs.root space).parts.rtake n ++ rest) =
      (Branch.rootfs.root space).joinpath rest ↔
    n = 0 ∧ ∀ top ∈ elsewhere linked, ¬top <+: rest := by
  have hback : (Branch.rootfs.root space).parts.rtake n ++ rest = rest ↔ n = 0 := by
    constructor
    · intro h
      have hlength := congrArg List.length h
      simp [List.rtake, Branch.root, STATE_ROOT, PurePath.joinpath] at hlength
      omega
    · rintro rfl
      simp
  rw [seen_eq_rootfs_iff, hback]
  refine and_congr_right ?_
  rintro rfl
  rw [List.rtake_zero, List.nil_append]

end Back

theorem seen_eq_iff_straight {linked : Bool} {space : SpaceName} {location : FsName}
    (h : ((branch location).root space).parts <+:
      (Route.of (parts location)).target ((branch location).root space).parts) :
    seen linked space (guestPlace location) =
        ⟨.single, (Route.of (parts location)).target ((branch location).root space).parts⟩ ↔
      Straight linked space location := by
  rw [guestPlace_eq]
  unfold Straight
  generalize Route.of (parts location) = route at h ⊢
  obtain ⟨rest, hrest⟩ := Route.prefix_target_iff.mp h
  have hhost : (⟨.single, route.target ((branch location).root space).parts⟩ : FsPath) =
      ((branch location).root space).joinpath rest := by
    rw [Route.target_of_back hrest]
    cases branch location <;> rfl
  rw [hhost, Route.target, ← hrest]
  cases branch location with
  | home => exact home_back route.climb
  | varHome => exact varHome_back route.climb
  | varCache => exact varCache_back route.climb
  | rootfs =>
      have hmount : Branch.rootfs.mount = [] := components_nil
      rw [hmount, List.rdrop_nil, List.nil_append, rootfs_back]
      refine and_congr_right fun hclimb => ?_
      rw [← hrest, hclimb, List.rtake_zero, List.nil_append]

/-! ## The claim's property of two locations -/

def isAbsolute (location : FsName) : Prop := location.head? = some slash

/-- What one asks of the paths that two locations resolve to. -/
structure Faithful (linked : Bool) (space : SpaceName) (first second p q : FsName) : Prop where
  inside : (PurePath.parse fsChars p).within ((branch first).root space) = true ∧
    (PurePath.parse fsChars q).within ((branch second).root space) = true
  alike : isAbsolute first → isAbsolute second →
    components fsChars first = components fsChars second → p = q
  seen_first : isAbsolute first → p = (seen linked space (guestPlace first)).str
  seen_second : isAbsolute second → q = (seen linked space (guestPlace second)).str

theorem seen_root (linked : Bool) (space : SpaceName) (place : List Name) :
    (seen linked space place).root = .single := by
  have hsees := sees linked space place
  generalize seen linked space place = path at hsees
  cases hsees <;> rfl

theorem resolved {host : Host} {space : SpaceName} {location p : FsName}
    (h : resolveSpaceLocation host (spaceLocation space location) = .ok p) :
    (PurePath.parse fsChars p).within ((branch location).root space) = true ∧
      ∀ linked, p = (seen linked space (guestPlace location)).str ↔
        Straight linked space location := by
  rw [resolveSpaceLocation_spaceLocation] at h
  obtain ⟨path, hpath, rfl⟩ := Outcome.map_eq_ok.mp h
  obtain ⟨hinside, heq⟩ := resolveIn_eq_ok hpath
  have hroot : path.root = .single := by rw [heq]
  refine ⟨?_, fun linked => ?_⟩
  · rw [PurePath.parse_str hroot, PurePath.within_iff]
    refine ⟨?_, hinside⟩
    rw [hroot]
    cases branch location <;> rfl
  · rw [heq] at hinside
    rw [← seen_eq_iff_straight hinside, ← heq]
    constructor
    · intro hstr
      rw [← PurePath.parse_str hroot, hstr, PurePath.parse_str (seen_root ..)]
    · rintro hpath
      rw [hpath]

theorem resolveSpaceLocation_faithful_iff (host : Host) (linked : Bool) (space : SpaceName)
    {first second p q : FsName}
    (hp : resolveSpaceLocation host (spaceLocation space first) = .ok p)
    (hq : resolveSpaceLocation host (spaceLocation space second) = .ok q) :
    Faithful linked space first second p q ↔
      (isAbsolute first → Straight linked space first) ∧
        (isAbsolute second → Straight linked space second) := by
  obtain ⟨hinside, hseen⟩ := resolved hp
  obtain ⟨hinside', hseen'⟩ := resolved hq
  constructor
  · intro h
    exact ⟨fun habs => (hseen linked).mp (h.seen_first habs),
      fun habs => (hseen' linked).mp (h.seen_second habs)⟩
  · rintro ⟨hfirst, hsecond⟩
    refine ⟨⟨hinside, hinside'⟩, fun habs habs' heq => ?_,
      fun habs => (hseen linked).mpr (hfirst habs),
      fun habs => (hseen' linked).mpr (hsecond habs)⟩
    have hplace : guestPlace first = guestPlace second := by rw [guestPlace, heq, guestPlace]
    rw [(hseen linked).mpr (hfirst habs), hplace, ← (hseen' linked).mpr (hsecond habs')]

/-- Every tree is there. -/
def plainHost : Host := ⟨fun _ => false, fun _ => true⟩

def homeLocation : FsName := fsText "/home/alice".toList
def homeLocation' : FsName := fsText "/home/./alice/".toList

def homePath : FsName := fsText "/var/lib/spaces/box/home/alice".toList

theorem homeLocation_faithful :
    Faithful true sampleSpace homeLocation homeLocation' homePath homePath := by
  refine (resolveSpaceLocation_faithful_iff plainHost true sampleSpace (by decide +kernel)
    (by decide +kernel)).mpr ⟨fun _ => ?_, fun _ => ?_⟩
  · have hbranch : branch homeLocation = .home := by decide +kernel
    rw [Straight, hbranch]
    exact .inl (by decide +kernel)
  · have hbranch : branch homeLocation' = .home := by decide +kernel
    rw [Straight, hbranch]
    exact .inl (by decide +kernel)

def doubleSlash : FsName := fsText "//home/alice".toList

/-- The second slash alone makes another path of the location. -/
theorem doubleSlash_unfaithful :
    ¬∀ (host : Host) (linked : Bool) (space : SpaceName) (first second p q : FsName),
      resolveSpaceLocation host (spaceLocation space first) = .ok p →
      resolveSpaceLocation host (spaceLocation space second) = .ok q →
      Faithful linked space first second p q := by
  intro h
  have hfaithful := h plainHost true sampleSpace homeLocation doubleSlash homePath
    (fsText "/var/lib/spaces/box/rootfs/home/alice".toList) (by decide +kernel)
    (by decide +kernel)
  exact absurd (hfaithful.alike rfl rfl (by decide +kernel)) (by decide +kernel)

end Spaces.Locations
