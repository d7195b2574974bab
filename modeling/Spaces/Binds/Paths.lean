import Spaces.Library.PosixPath
import Spaces.Shortcuts.Names

/-!
# Guest paths

Two readers of the same paths: the host's configuration, which says where something is
to be mounted, and the manifest, which lists the empty files that were made for mounts.
The configuration refuses what is not absolute or not written in the normal form; the
manifest refuses more, two dots and two leading slashes among it.
-/

namespace Spaces.Binds

open Spaces.Library Spaces.Shortcuts

def fsChars : PathChars FsChar := ⟨.char '/', .char '.', by decide⟩

abbrev Name := Component fsChars

abbrev GuestPath := PurePath fsChars

def nul : FsChar := .char '\x00'

def up : Name := .up fsChars

def topLevel (name : String) (h : Component.ofName fsChars (fsText name.toList) ≠ none) :
    GuestPath :=
  ⟨.single, [(Component.ofName fsChars (fsText name.toList)).get (Option.isSome_iff_ne_none.mpr h)]⟩

def UNSAFE_DESTINATIONS : List GuestPath :=
  [topLevel "dev" (by decide), topLevel "home" (by decide), topLevel "proc" (by decide),
    topLevel "root" (by decide), topLevel "sys" (by decide)]

/-- `path == unsafe or unsafe in path.parents`, for one of them. -/
def isUnsafe (path : GuestPath) : Bool := UNSAFE_DESTINATIONS.any path.within

/-! ## `host_config` -/

/-- What is no string is ignored before. -/
def guestPath (value : FsName) : Option GuestPath :=
  if value = [] ∨ nul ∈ value then none
  else
    let path := PurePath.parse fsChars value
    if !path.isAbsolute || path.str ≠ value then none else some path

def safeMountDestination (value : FsName) : Option GuestPath :=
  match guestPath value with
  | none => none
  | some destination =>
      if destination = ⟨.single, []⟩ ∨ isUnsafe destination = true then none
      else some destination

/-- Where something can be mounted: what `host_config` accepts, and what is beneath it. -/
structure Safe (path : GuestPath) : Prop where
  noNul : ∀ name ∈ path.parts, nul ∉ name.name
  parts : path.root = .single → path.parts ≠ []
  destination : isUnsafe path = false

theorem guestPath_eq_some {value : FsName} {path : GuestPath} (h : guestPath value = some path) :
    nul ∉ value ∧ PurePath.parse fsChars value = path ∧ path.isAbsolute = true ∧
      path.str = value := by
  unfold guestPath at h
  split at h
  · cases h
  · next hvalue =>
      dsimp only at h
      split at h
      · cases h
      · next hpath =>
          cases h
          simp only [Bool.or_eq_true, not_or, Bool.not_eq_true', decide_eq_true_eq] at hpath hvalue
          exact ⟨hvalue.2, rfl, by simpa using hpath.1, by simpa using hpath.2⟩

theorem safe_of_safeMountDestination {value : FsName} {path : GuestPath}
    (h : safeMountDestination value = some path) : Safe path := by
  unfold safeMountDestination at h
  split at h
  · cases h
  · next destination hguest =>
      split at h
      · cases h
      · next hsafe =>
          cases h
          obtain ⟨hnul, hparse, -, -⟩ := guestPath_eq_some hguest
          push Not at hsafe
          refine ⟨fun name hname hmem => ?_, fun hroot hparts => ?_, by simpa using hsafe.2⟩
          · rw [← hparse, PurePath.parse_parts] at hname
            exact hnul (mem_components hname hmem)
          · refine hsafe.1 ?_
            obtain ⟨root, parts⟩ := path
            cases hroot
            cases hparts
            rfl

theorem mem_unsafe {path : GuestPath} (h : path ∈ UNSAFE_DESTINATIONS) :
    path.root = .single ∧ ∃ name, path.parts = [name] := by
  simp only [UNSAFE_DESTINATIONS, topLevel, List.mem_cons, List.not_mem_nil, or_false] at h
  rcases h with rfl | rfl | rfl | rfl | rfl <;> exact ⟨rfl, _, rfl⟩

/-- Beneath a path nothing is unsafe unless the path is. -/
theorem isUnsafe_joinpath {path : GuestPath} (h : path.root = .single → path.parts ≠ [])
    (names : List Name) : isUnsafe (path.joinpath names) = isUnsafe path := by
  unfold isUnsafe
  rw [Bool.eq_iff_iff, List.any_eq_true, List.any_eq_true]
  refine exists_congr fun other => and_congr_right fun hother => ?_
  obtain ⟨hsingle, name, hname⟩ := mem_unsafe hother
  rw [PurePath.within_iff, PurePath.within_iff, hname]
  refine and_congr_right fun hroot => ?_
  -- The first component is that of the path, which has one.
  have hparts := h (hroot.trans hsingle)
  cases hcases : path.parts with
  | nil => exact absurd hcases hparts
  | cons first parts => simp [PurePath.joinpath, hcases]

/-- Beneath a safe destination. -/
theorem Safe.joinpath {path : GuestPath} (h : Safe path) {names : List Name}
    (hnul : ∀ name ∈ names, nul ∉ name.name) : Safe (path.joinpath names) := by
  refine ⟨fun name hname => ?_, fun hroot => ?_, ?_⟩
  · rcases List.mem_append.mp hname with hname | hname
    · exact h.noNul name hname
    · exact hnul name hname
  · simp [PurePath.joinpath, h.parts hroot]
  · rw [isUnsafe_joinpath h.parts, h.destination]

/-! ## The manifest -/

inductive ManifestValue where
  | text (value : FsName)
  | other

inductive Manifest where
  | absent
  /-- A symbolic link, no regular file, or no JSON document. -/
  | unreadable
  | noList
  | list (values : List ManifestValue)

/-- The test of the loop of `_load_bind_files`. -/
def isListable (value : FsName) : Bool :=
  let path := PurePath.parse fsChars value
  path.isAbsolute && decide (¬[fsChars.slash, fsChars.slash] <+: value)
    && decide (path.str = value) && decide (up ∉ path.parts) && decide (path ≠ ⟨.single, []⟩)
    && !isUnsafe path

@[ext]
structure ListedPath where
  text : FsName
  noNul : nul ∉ text
  listable : isListable text = true
  deriving DecidableEq

inductive LoadError where
  | unreadable
  | noList
  | invalidPath
  | unsafePath

def loadPath : ManifestValue → Except LoadError ListedPath
  | .other => .error .invalidPath
  | .text value =>
      if hnul : nul ∈ value then .error .invalidPath
      else if h : isListable value = true then .ok ⟨value, hnul, h⟩
      else .error .unsafePath

def loadBindFiles : Manifest → Except LoadError (List ListedPath)
  | .absent => .ok []
  | .unreadable => .error .unreadable
  | .noList => .error .noList
  | .list values => (values.mapM loadPath).map List.dedup

namespace ListedPath

def path (listed : ListedPath) : GuestPath := .parse fsChars listed.text

/-- Where the file is, its own name first. -/
def place (listed : ListedPath) : List Name := listed.path.parts.reverse

theorem isListable_iff {value : FsName} :
    isListable value = true ↔ (PurePath.parse fsChars value).isAbsolute = true ∧
      ¬[fsChars.slash, fsChars.slash] <+: value ∧ (PurePath.parse fsChars value).str = value ∧
      up ∉ (PurePath.parse fsChars value).parts ∧
      PurePath.parse fsChars value ≠ ⟨.single, []⟩ ∧
      isUnsafe (PurePath.parse fsChars value) = false := by
  simp only [isListable, Bool.and_eq_true, decide_eq_true_eq, Bool.not_eq_true', and_assoc]

theorem root (listed : ListedPath) : listed.path.root = .single := by
  obtain ⟨habs, hdouble, hstr, -⟩ := isListable_iff.mp listed.listable
  refine PurePath.parse_root habs fun hroot => hdouble ?_
  rw [← hstr]
  unfold PurePath.str
  rw [hroot]
  exact ⟨_, rfl⟩

theorem str_path (listed : ListedPath) : listed.path.str = listed.text :=
  (isListable_iff.mp listed.listable).2.2.1

theorem parts_ne_nil (listed : ListedPath) : listed.path.parts ≠ [] := by
  intro hparts
  refine (isListable_iff.mp listed.listable).2.2.2.2.1 ?_
  have hroot := listed.root
  unfold path at hroot hparts
  cases hpath : PurePath.parse fsChars listed.text
  rw [hpath] at hroot hparts
  cases hroot
  cases hparts
  rfl

end ListedPath

/-- A safe destination without two dots can be listed under its text. -/
theorem Safe.listable {path : GuestPath} (h : Safe path) (hroot : path.root = .single)
    (hup : up ∉ path.parts) : nul ∉ path.str ∧ isListable path.str = true := by
  have hstr : path.str = fsChars.slash :: PurePath.joined path.parts := by
    rw [PurePath.str, hroot]
  refine ⟨fun hnul => ?_, ?_⟩
  · rw [hstr] at hnul
    rcases List.mem_cons.mp hnul with hnul | hnul
    · cases hnul
    · rcases mem_joined hnul with hnul | ⟨name, hname, hnul⟩
      · cases hnul
      · exact h.noNul name hname hnul
  · rw [ListedPath.isListable_iff, PurePath.parse_str hroot]
    refine ⟨by simp [PurePath.isAbsolute, hroot], fun hdouble => ?_, rfl, hup, fun hempty => ?_,
      h.destination⟩
    · rw [hstr] at hdouble
      have hhead := joined_head_ne path.parts
      simp only [List.cons_prefix_cons, true_and] at hdouble
      obtain ⟨rest, hrest⟩ := hdouble
      rw [← hrest] at hhead
      exact hhead rfl
    · exact h.parts hroot (by rw [hempty])

end Spaces.Binds
