import Mathlib.Data.List.MinMax
import Spaces.Library.Outcome
import Spaces.Library.PosixPath
import Spaces.Library.Text

/-!
# The broker's mapped paths

A Space names a file by its path in the guest, and sends along an open descriptor
of the file as a proof that it can reach it. The broker knows the host directories
and files behind the guest's mount points as descriptors of its own. It takes the
mapping with the longest guest path that the asked path begins with, opens the rest
of the path beneath that mapping, and acts on what it has opened only if that is the
object of the proof.

The texts are compared as they are written: a guest path counts only where the asked
path repeats it letter by letter, up to a slash or to the end. Where both are written
plainly this is the comparison by components; a doubled slash that leads to a deeper
mount point takes the mapping above it, and what is opened there is no longer the
object of the proof.
-/

namespace Spaces.HostBroker

open Spaces.Library Spaces.Library.Outcome

def posixChars : PathChars Char := ⟨'/', '.', by decide⟩

/-- The components of a path, without the empty ones and the single dots. -/
abbrev comps (path : Text) : List (Component posixChars) := components posixChars path

/-! ## Mappings -/

/-- `st_mode & S_IFMT`. -/
inductive FileType where
  | fifo
  | character
  | directory
  | block
  | regular
  | link
  | socket
  deriving DecidableEq

/-- The fields of `struct stat` that are read. -/
structure Metadata where
  device : Nat
  inode : Nat
  type : FileType
  deriving DecidableEq

def validGuestPath (path : Text) : Bool :=
  path.head? == some '/' && (path.splitOn '/').all (· ≠ ['.', '.'])

/-- A mapping of the broker's table; `add_mapping` puts in no other. -/
structure Mapping where
  guest : Text
  descriptor : Nat
  metadata : Metadata
  valid : validGuestPath guest = true
  deriving DecidableEq

def mappingMatches (mapping : Mapping) (path : Text) : Bool :=
  mapping.guest.isPrefixOf path &&
    (mapping.guest.length == 1 || path[mapping.guest.length]? == none ||
      path[mapping.guest.length]? == some '/')

def findMapping (mappings : List Mapping) (path : Text) : Option Mapping :=
  mappings.foldl (fun best mapping =>
    if mappingMatches mapping path = true then
      match best with
      | none => some mapping
      | some best' =>
        if best'.guest.length < mapping.guest.length then some mapping else best
    else best) none

/-! ## The host -/

inductive Errno where
  | EXDEV
  | other (value : Nat)
  deriving DecidableEq

/-- The flags of an open call, without `O_CLOEXEC`. -/
inductive Access where
  | path
  | readOnly
  | readWrite
  deriving DecidableEq

/-- `F_GETFL & O_ACCMODE`. -/
inductive AccessMode where
  | readOnly
  | writeOnly
  | readWrite
  deriving DecidableEq

def Access.mode : Access → AccessMode
  | .path | .readOnly => .readOnly
  | .readWrite => .readWrite

inductive ErrorCode where
  | permissionDenied
  | invalidArgument
  | invalidFilename
  | failed
  | fromErrno (errno : Errno)
  | other (value : Nat)
  deriving DecidableEq

structure GError where
  code : ErrorCode
  message : String
  deriving DecidableEq

/-- The kernel and GLib. A file is opened with the access that was asked for. -/
structure Host (F : Type) where
  /-- `openat2` beneath a directory, with `RESOLVE_BENEATH`, `RESOLVE_NO_MAGICLINKS`
  and `RESOLVE_NO_XDEV`. -/
  openat2 : Nat → Text → Access → Except Errno F
  /-- `open` of `/proc/self/fd/N`. -/
  reopen : Nat → Access → Except Errno F
  fstat : F → Except Errno Metadata
  accessMode : F → Except Errno AccessMode
  /-- `g_file_read_link` of `/proc/self/fd/N`. -/
  readLink : F → Except GError Text
  filenameToUri : Text → Except GError String
  strerror : Errno → String
  openat2_mode {descriptor : Nat} {relative : Text} {access : Access} {file : F} :
    openat2 descriptor relative access = .ok file → accessMode file = .ok access.mode
  reopen_mode {descriptor : Nat} {access : Access} {file : F} :
    reopen descriptor access = .ok file → accessMode file = .ok access.mode

variable {F : Type}

/-! ## Opening beneath a mapping -/

/-- What is left of the path after the guest and the slashes that follow it. -/
def relativePath (mapping : Mapping) (guestPath : Text) : Text :=
  (guestPath.drop mapping.guest.length).dropWhile (· = '/')

def secureOpen (host : Host F) (mapping : Mapping) (guestPath : Text) (access : Access) :
    Except Errno F :=
  let relative := relativePath mapping guestPath
  if mapping.metadata.type ≠ .directory then
    if relative ≠ [] then .error .EXDEV else host.reopen mapping.descriptor access
  else if relative = [] then host.openat2 mapping.descriptor ['.'] access
  else host.openat2 mapping.descriptor relative access

def sameMetadata (left right : Metadata) : Bool :=
  left.device == right.device && left.inode == right.inode && left.type == right.type

def sameObject (host : Host F) (left right : F) : Bool :=
  match host.fstat left, host.fstat right with
  | .ok leftMetadata, .ok rightMetadata => sameMetadata leftMetadata rightMetadata
  | _, _ => false

/-! ## The methods -/

/-- `OpenFile` also has a flag that asks for a writable object. -/
inductive OpenMethod where
  | openFile (writable : Bool)
  | openDirectory
  deriving DecidableEq

/-- A call of the Space: the descriptors that came with it, when any did, are looked
up with `g_unix_fd_list_get`. -/
structure Request (F : Type) where
  guestPath : Text
  handle : Int
  fdList : Option (Int → Except GError F)

structure OpenRequest (F : Type) extends Request F where
  method : OpenMethod
  activationToken : Text

inductive OpenOutcome (F : Type) where
  | refused (error : GError)
  /-- The host's portal was called with the object, and so answered. -/
  | called (mapped : F) (writable : Bool) (answer : Except GError Nat)

def noMapping : GError :=
  ⟨.permissionDenied, "The guest path has no active host mapping"⟩

def activeMapping (mappings : List Mapping) (path : Text) : Except GError Mapping :=
  if !validGuestPath path then .error noMapping
  else
    match findMapping mappings path with
    | none => .error noMapping
    | some mapping => .ok mapping

def invocationFd (request : Request F) : Except GError F :=
  match request.fdList with
  | none => .error ⟨.invalidArgument, "The proof descriptor is missing"⟩
  | some fdList => fdList request.handle

/-- An error with the text of its `errno`. -/
def Host.failure (host : Host F) (text : String) (errno : Errno) : GError :=
  ⟨.fromErrno errno, text ++ host.strerror errno⟩

def OpenRequest.guestWritable (host : Host F) (request : OpenRequest F) (proof : F) : Bool :=
  match request.method, host.accessMode proof with
  | .openFile true, .ok mode => mode == .readWrite
  | _, _ => false

/-- The two attempts: with `O_RDWR` where the guest may write, and with `O_RDONLY`. -/
def openMapped (host : Host F) (mapping : Mapping) (path : Text) (guestWritable : Bool) :
    Except Errno (F × Bool) :=
  let readOnly := (secureOpen host mapping path .readOnly).map fun file => (file, false)
  if guestWritable then
    match secureOpen host mapping path .readWrite with
    | .ok file => .ok (file, true)
    | .error _ => readOnly
  else readOnly

/-- The object that `open_method` hands to the portal, and whether as writable. -/
def openedObject (host : Host F) (mappings : List Mapping) (request : OpenRequest F) :
    Except GError (F × Bool) := do
  let mapping ← activeMapping mappings request.guestPath
  let proof ← invocationFd request.toRequest
  let proofMetadata ← (host.fstat proof).mapError
    (host.failure "Could not inspect the guest proof descriptor: ")
  let (mapped, writable) ←
    (openMapped host mapping request.guestPath (request.guestWritable host proof)).mapError
      (host.failure "Could not securely reopen the mapped path: ")
  let mappedMetadata ← (host.fstat mapped).mapError
    (host.failure "Could not inspect the mapped descriptor: ")
  if !sameMetadata proofMetadata mappedMetadata then
    throw ⟨.permissionDenied, "The guest proof does not identify the mapped object"⟩
  return (mapped, writable)

/-- `open_method` for `OpenFile` and `OpenDirectory`; `portal` is `call_host_portal`. -/
def openMethod (host : Host F)
    (portal : OpenMethod → F → Bool → Text → Except GError Nat) (mappings : List Mapping)
    (request : OpenRequest F) : OpenOutcome F :=
  match openedObject host mappings request with
  | .error error => .refused error
  | .ok (mapped, writable) =>
    .called mapped writable (portal request.method mapped writable request.activationToken)

inductive ResolveOutcome (F : Type) where
  | refused (error : GError)
  | resolved (mapped : F) (uri : String)

def deleted : Text := " (deleted)".toList

def noObject : GError :=
  ⟨.permissionDenied, "The proof does not identify the mapped host path"⟩

/-- The object that `resolve_path_method` resolves. -/
def resolvedObject (host : Host F) (mappings : List Mapping) (request : Request F) :
    Except GError F := do
  let mapping ← activeMapping mappings request.guestPath
  let proof ← invocationFd request
  let mapped ← (secureOpen host mapping request.guestPath .path).mapError fun _ => noObject
  if !sameObject host proof mapped then throw noObject
  return mapped

def hostUri (host : Host F) (mapped : F) : Except GError String := do
  let hostPath ← host.readLink mapped
  if hostPath.head? ≠ some '/' ∨ deleted <:+ hostPath then
    throw ⟨.invalidFilename, "The mapped descriptor has no stable host path"⟩
  host.filenameToUri hostPath

def resolvePathMethod (host : Host F) (mappings : List Mapping) (request : Request F) :
    ResolveOutcome F :=
  match resolvedObject host mappings request with
  | .error error => .refused error
  | .ok mapped =>
    match hostUri host mapped with
    | .error error => .refused error
    | .ok uri => .resolved mapped uri

/-! ## The mapping that is found -/

/-- `found` is the largest of the mappings that cover something, if any does. -/
def IsLongest (covers : Mapping → Prop) (size : Mapping → Nat) (mappings : List Mapping) :
    Option Mapping → Prop
  | some found => found ∈ mappings ∧ covers found ∧
      ∀ mapping ∈ mappings, covers mapping → size mapping ≤ size found
  | none => ∀ mapping ∈ mappings, ¬ covers mapping

/-- The path is the guest and what follows it, from a slash on. -/
def CoversText (path : Text) (mapping : Mapping) : Prop :=
  ∃ rest, path = mapping.guest ++ rest ∧
    (mapping.guest = ['/'] ∨ rest = [] ∨ rest.head? = some '/')

def CoversComponents (path : Text) (mapping : Mapping) : Prop :=
  comps mapping.guest <+: comps path

/-- One slash before each component, and nothing else. -/
def Plain (path : Text) : Prop := path = '/' :: PurePath.joined (comps path)

theorem Mapping.guest_head (mapping : Mapping) : mapping.guest.head? = some '/' := by
  have hvalid := mapping.valid
  simp only [validGuestPath, Bool.and_eq_true, beq_iff_eq] at hvalid
  exact hvalid.1

theorem Mapping.guest_length_eq_one (mapping : Mapping) :
    mapping.guest.length = 1 ↔ mapping.guest = ['/'] := by
  constructor
  · intro hone
    obtain ⟨c, hc⟩ := List.length_eq_one_iff.mp hone
    have hhead := mapping.guest_head
    rw [hc] at hhead ⊢
    cases hhead
    rfl
  · intro hguest
    rw [hguest]
    rfl

theorem mappingMatches_iff {mapping : Mapping} {path : Text} :
    mappingMatches mapping path = true ↔ CoversText path mapping := by
  simp only [mappingMatches, Bool.and_eq_true, Bool.or_eq_true, beq_iff_eq,
    mapping.guest_length_eq_one, List.isPrefixOf_iff_prefix, or_assoc]
  constructor
  · rintro ⟨⟨rest, rfl⟩, hend⟩
    refine ⟨rest, rfl, hend.imp_right ?_⟩
    rw [List.getElem?_append_right (Nat.le_refl _), Nat.sub_self, ← List.head?_eq_getElem?,
      List.head?_eq_none_iff]
    exact id
  · rintro ⟨rest, rfl, hend⟩
    refine ⟨⟨rest, rfl⟩, hend.imp_right ?_⟩
    rw [List.getElem?_append_right (Nat.le_refl _), Nat.sub_self, ← List.head?_eq_getElem?,
      List.head?_eq_none_iff]
    exact id

theorem findMapping_eq_argmax (mappings : List Mapping) (path : Text) :
    findMapping mappings path =
      (mappings.filter (mappingMatches · path)).argmax fun mapping => mapping.guest.length := by
  rw [findMapping, List.argmax, List.foldl_filter]
  congr 1
  funext best mapping
  split
  · cases best <;> rfl
  · rfl

theorem findMapping_longest (mappings : List Mapping) (path : Text) :
    IsLongest (CoversText path) (fun mapping => mapping.guest.length) mappings
      (findMapping mappings path) := by
  rw [findMapping_eq_argmax]
  cases hfound : (mappings.filter (mappingMatches · path)).argmax
      fun mapping => mapping.guest.length with
  | none =>
      intro mapping hmem hcovers
      rw [List.argmax_eq_none, List.filter_eq_nil_iff] at hfound
      exact hfound mapping hmem (mappingMatches_iff.mpr hcovers)
  | some found =>
      have hmem := List.mem_filter.mp (List.argmax_mem hfound)
      refine ⟨hmem.1, mappingMatches_iff.mp hmem.2, fun mapping hmapping hcovers => ?_⟩
      have hfilter : mapping ∈ mappings.filter (mappingMatches · path) :=
        List.mem_filter.mpr ⟨hmapping, mappingMatches_iff.mpr hcovers⟩
      exact List.le_of_mem_argmax (f := fun mapping : Mapping => mapping.guest.length)
        hfilter hfound

/-! ## Texts and components -/

theorem CoversText.comps_eq {path : Text} {mapping : Mapping} (h : CoversText path mapping) :
    comps path = comps mapping.guest ++ comps (relativePath mapping path) := by
  obtain ⟨rest, rfl, hend⟩ := h
  rw [relativePath, List.drop_left]
  rw [show comps (rest.dropWhile (· = '/')) = comps rest from
    components_dropWhile_slash rest]
  rcases hend with hguest | rfl | hslash
  · rw [hguest]
    exact components_slash rest
  · simp
  · cases rest with
    | nil => cases hslash
    | cons c rest =>
        cases hslash
        rw [show comps (mapping.guest ++ '/' :: rest) = comps mapping.guest ++ comps rest from
          components_append_slash mapping.guest rest]
        rw [show comps ('/' :: rest) = comps rest from
          components_slash rest]

theorem Plain.isPrefix {a b : Text} (ha : Plain a) (hb : Plain b) (h : comps a <+: comps b) :
    ∃ rest, b = a ++ rest ∧ (a = ['/'] ∨ rest = [] ∨ rest.head? = some '/') := by
  obtain ⟨rest, hrest⟩ := h
  rw [Plain, ← hrest] at hb
  rw [Plain] at ha
  by_cases hroot : comps a = []
  · rw [hroot] at ha
    exact ⟨PurePath.joined rest, by rw [hb, hroot, ha]; rfl, .inl ha⟩
  by_cases hempty : rest = []
  · refine ⟨[], ?_, .inr (.inl rfl)⟩
    rw [hb, hempty, List.append_nil, List.append_nil, ← ha]
  · refine ⟨'/' :: PurePath.joined rest, ?_, .inr (.inr rfl)⟩
    rw [hb, PurePath.joined_append hroot hempty, ← List.cons_append, ← ha]
    rfl

theorem CoversText.components {path : Text} {mapping : Mapping} (h : CoversText path mapping) :
    CoversComponents path mapping :=
  ⟨_, h.comps_eq.symm⟩

theorem findMapping_plain {mappings : List Mapping} {path : Text} (hpath : Plain path)
    (hguests : ∀ mapping ∈ mappings, Plain mapping.guest) :
    IsLongest (CoversComponents path) (fun mapping => (comps mapping.guest).length) mappings
      (findMapping mappings path) := by
  have hlongest := findMapping_longest mappings path
  have htext : ∀ mapping ∈ mappings, CoversComponents path mapping → CoversText path mapping :=
    fun mapping hmem hcovers => (hguests mapping hmem).isPrefix hpath hcovers
  cases hfound : findMapping mappings path with
  | none =>
      rw [hfound] at hlongest
      exact fun mapping hmem hcovers => hlongest mapping hmem (htext mapping hmem hcovers)
  | some found =>
      rw [hfound] at hlongest
      obtain ⟨hmem, hcovers, hmax⟩ := hlongest
      refine ⟨hmem, hcovers.components, fun mapping hmapping hother => ?_⟩
      by_contra hmore
      have hlt : (comps found.guest).length < (comps mapping.guest).length := not_le.mp hmore
      -- A mapping with more components would have a longer text, since it begins with this one.
      obtain ⟨rest, hrest, -⟩ := (hguests found hmem).isPrefix (hguests mapping hmapping)
        (List.prefix_of_prefix_length_le hcovers.components hother hlt.le)
      have hshort : mapping.guest.length ≤ found.guest.length :=
        hmax mapping hmapping (htext mapping hmapping hother)
      have hnil : rest = [] := by
        rw [hrest, List.length_append] at hshort
        exact List.eq_nil_of_length_eq_zero (by omega)
      rw [hrest, hnil, List.append_nil] at hlt
      exact Nat.lt_irrefl _ hlt

/-! ## What is opened -/

/-- What `secure_open` opens is what the path has after the mapping's components: it is
named beneath the mapped directory, or it is the mapped file and nothing is left. -/
def OpensRest (host : Host F) (path : Text) (mapping : Mapping) : Prop :=
  ∃ relative : Text, relative ≠ [] ∧ relative.head? ≠ some '/' ∧
    comps path = comps mapping.guest ++ comps relative ∧
    ∀ access,
      (mapping.metadata.type = .directory ∧
        secureOpen host mapping path access =
          host.openat2 mapping.descriptor relative access) ∨
      (mapping.metadata.type ≠ .directory ∧ comps relative = [] ∧
        secureOpen host mapping path access = host.reopen mapping.descriptor access) ∨
      (mapping.metadata.type ≠ .directory ∧ secureOpen host mapping path access = .error .EXDEV)

theorem relativePath_head (mapping : Mapping) (path : Text) :
    (relativePath mapping path).head? ≠ some '/' := by
  intro hhead
  have hnot := List.head?_dropWhile_not (· = '/') (path.drop mapping.guest.length)
  rw [show (path.drop mapping.guest.length).dropWhile (· = '/') = relativePath mapping path
    from rfl, hhead] at hnot
  cases hnot

theorem CoversText.opensRest (host : Host F) {path : Text} {mapping : Mapping}
    (h : CoversText path mapping) : OpensRest host path mapping := by
  have hcomps := h.comps_eq
  by_cases hempty : relativePath mapping path = []
  · refine ⟨['.'], by decide, by decide, ?_, fun access => ?_⟩
    · rw [hcomps, hempty]
      rfl
    · by_cases htype : mapping.metadata.type = .directory
      · exact .inl ⟨htype, by simp [secureOpen, htype, hempty]⟩
      · exact .inr (.inl ⟨htype, by decide, by simp [secureOpen, htype, hempty]⟩)
  · refine ⟨relativePath mapping path, hempty, relativePath_head mapping path, hcomps,
      fun access => ?_⟩
    by_cases htype : mapping.metadata.type = .directory
    · exact .inl ⟨htype, by simp [secureOpen, htype, hempty]⟩
    · exact .inr (.inr ⟨htype, by simp [secureOpen, htype, hempty]⟩)

theorem secureOpen_mode {host : Host F} {mapping : Mapping} {path : Text} {access : Access}
    {file : F} (h : secureOpen host mapping path access = .ok file) :
    host.accessMode file = .ok access.mode := by
  unfold secureOpen at h
  simp only at h
  split at h
  · split at h
    · cases h
    · exact host.reopen_mode h
  · split at h
    · exact host.openat2_mode h
    · exact host.openat2_mode h

/-! ## What is acted on -/

theorem activeMapping_eq_ok {mappings : List Mapping} {path : Text} {mapping : Mapping}
    (h : activeMapping mappings path = .ok mapping) :
    validGuestPath path = true ∧ findMapping mappings path = some mapping := by
  unfold activeMapping at h
  split at h
  · cases h
  · next hvalid =>
      split at h
      · cases h
      · next found hfound =>
          cases h
          exact ⟨by simpa using hvalid, hfound⟩

theorem activeMapping_invalid (mappings : List Mapping) {path : Text}
    (h : validGuestPath path = false) : activeMapping mappings path = .error noMapping := by
  rw [activeMapping, h]
  rfl

/-- Empty, relative, or with two dots for a component. -/
def Escapes (path : Text) : Prop :=
  path = [] ∨ path.head? ≠ some '/' ∨ Component.up posixChars ∈ comps path

theorem validGuestPath_eq_false {path : Text} : validGuestPath path = false ↔ Escapes path := by
  have hup : Component.up posixChars ∈ comps path ↔ ['.', '.'] ∈ path.splitOn '/' := by
    constructor
    · intro hmem
      obtain ⟨name, hname, hsome⟩ := List.mem_filterMap.mp hmem
      unfold Component.ofName at hsome
      split at hsome
      · cases hsome
        exact hname
      · cases hsome
    · exact fun hmem => List.mem_filterMap.mpr ⟨_, hmem, Component.ofName_name (.up posixChars)⟩
  rw [Escapes, hup, ← Bool.not_eq_true, validGuestPath, Bool.and_eq_true, not_and_or]
  rw [beq_iff_eq, List.all_eq_true]
  constructor
  · rintro (hhead | hall)
    · exact .inr (.inl hhead)
    · refine .inr (.inr ?_)
      by_contra hnot
      refine hall fun name hname => ?_
      simp only [decide_eq_true_eq]
      rintro rfl
      exact hnot hname
  · rintro (rfl | hhead | hmem)
    · exact .inl (by simp)
    · exact .inl hhead
    · refine .inr fun hall => ?_
      simpa using hall _ hmem

theorem sameMetadata_iff {left right : Metadata} : sameMetadata left right = true ↔
    left.device = right.device ∧ left.inode = right.inode ∧ left.type = right.type := by
  simp [sameMetadata, and_assoc]

/-- `mapped` was opened through the mapping that was found, and it has the device, the
inode and the type of the descriptor `proof` that came with the request. -/
structure Proven (host : Host F) (mappings : List Mapping) (request : Request F)
    (proof mapped : F) : Prop where
  valid : ¬ Escapes request.guestPath
  opened : ∃ mapping access, findMapping mappings request.guestPath = some mapping ∧
    secureOpen host mapping request.guestPath access = .ok mapped
  supplied : invocationFd request = .ok proof
  same : ∃ proofMetadata mappedMetadata, host.fstat proof = .ok proofMetadata ∧
    host.fstat mapped = .ok mappedMetadata ∧
    proofMetadata.device = mappedMetadata.device ∧
    proofMetadata.inode = mappedMetadata.inode ∧
    proofMetadata.type = mappedMetadata.type

theorem openMapped_eq_ok {host : Host F} {mapping : Mapping} {path : Text}
    {guestWritable writable : Bool} {mapped : F}
    (h : openMapped host mapping path guestWritable = .ok (mapped, writable)) :
    (writable = true → guestWritable = true) ∧ ∃ access,
      secureOpen host mapping path access = .ok mapped ∧
      (writable = true ↔ access.mode = .readWrite) := by
  have hreadOnly : (secureOpen host mapping path .readOnly).map (fun file => (file, false)) =
      .ok (mapped, writable) → writable = false ∧
        secureOpen host mapping path .readOnly = .ok mapped := by
    intro hok
    cases hopen : secureOpen host mapping path .readOnly with
    | error errno => rw [hopen] at hok; cases hok
    | ok file => rw [hopen] at hok; cases hok; exact ⟨rfl, rfl⟩
  unfold openMapped at h
  simp only at h
  split at h
  · next hguest =>
      split at h
      · next file hfile =>
          cases h
          exact ⟨fun _ => hguest, .readWrite, hfile, by simp [Access.mode]⟩
      · obtain ⟨rfl, hopen⟩ := hreadOnly h
        exact ⟨by simp, .readOnly, hopen, by simp [Access.mode]⟩
  · obtain ⟨rfl, hopen⟩ := hreadOnly h
    exact ⟨by simp, .readOnly, hopen, by simp [Access.mode]⟩

theorem guestWritable_iff {host : Host F} {request : OpenRequest F} {proof : F} :
    request.guestWritable host proof = true ↔
      request.method = .openFile true ∧ host.accessMode proof = .ok .readWrite := by
  unfold OpenRequest.guestWritable
  split
  · next mode hmethod hmode => simp [hmethod, hmode]
  · next hnone =>
      constructor
      · intro h
        cases h
      · rintro ⟨hmethod, hmode⟩
        exact absurd hmode (hnone _ hmethod)

theorem openedObject_eq_ok {host : Host F} {mappings : List Mapping} {request : OpenRequest F}
    {mapped : F} {writable : Bool}
    (h : openedObject host mappings request = .ok (mapped, writable)) :
    ∃ proof, Proven host mappings request.toRequest proof mapped ∧
      (writable = true ↔ host.accessMode mapped = .ok .readWrite) ∧
      (writable = true →
        request.method = .openFile true ∧ host.accessMode proof = .ok .readWrite) := by
  simp only [openedObject, bind_eq_ok, mapError_eq_ok] at h
  obtain ⟨mapping, hmapping, proof, hproof, proofMetadata, hproofMetadata, ⟨mapped', writable'⟩,
    hopened, mappedMetadata, hmappedMetadata, h⟩ := h
  dsimp only at hmappedMetadata h
  split at h
  · cases h
  · next hsame =>
      cases h
      obtain ⟨hvalid, hfound⟩ := activeMapping_eq_ok hmapping
      obtain ⟨hguest, access, hopen, hwritable⟩ := openMapped_eq_ok hopened
      refine ⟨proof, ⟨?_, ⟨mapping, access, hfound, hopen⟩, hproof,
        ⟨_, _, hproofMetadata, hmappedMetadata, sameMetadata_iff.mp (by simpa using hsame)⟩⟩,
        ?_, fun htrue => guestWritable_iff.mp (hguest htrue)⟩
      · rw [← validGuestPath_eq_false, hvalid]
        simp
      · rw [hwritable, secureOpen_mode hopen, Except.ok.injEq]

theorem resolvedObject_eq_ok {host : Host F} {mappings : List Mapping} {request : Request F}
    {mapped : F} (h : resolvedObject host mappings request = .ok mapped) :
    ∃ proof, Proven host mappings request proof mapped ∧
      host.accessMode mapped = .ok .readOnly := by
  simp only [resolvedObject, bind_eq_ok, mapError_eq_ok] at h
  obtain ⟨mapping, hmapping, proof, hproof, mapped', hopen, h⟩ := h
  split at h
  · cases h
  · next hsame =>
      cases h
      obtain ⟨hvalid, hfound⟩ := activeMapping_eq_ok hmapping
      have hobject : sameObject host proof mapped = true := by simpa using hsame
      unfold sameObject at hobject
      split at hobject
      · next proofMetadata mappedMetadata hproofMetadata hmappedMetadata =>
          refine ⟨proof, ⟨?_, ⟨mapping, .path, hfound, hopen⟩, hproof,
            ⟨_, _, hproofMetadata, hmappedMetadata, sameMetadata_iff.mp hobject⟩⟩,
            secureOpen_mode hopen⟩
          rw [← validGuestPath_eq_false, hvalid]
          simp
      · cases hobject

theorem methods_invalid {host : Host F} {portal : OpenMethod → F → Bool → Text → Except GError Nat}
    {mappings : List Mapping} {path : Text} (h : Escapes path) :
    (∀ request : OpenRequest F, request.guestPath = path →
      openMethod host portal mappings request = .refused noMapping) ∧
    (∀ request : Request F, request.guestPath = path →
      resolvePathMethod host mappings request = .refused noMapping) := by
  have hactive := activeMapping_invalid mappings (validGuestPath_eq_false.mpr h)
  constructor
  · rintro request rfl
    rw [openMethod, openedObject, hactive]
    rfl
  · rintro request rfl
    rw [resolvePathMethod, resolvedObject, hactive]
    rfl

/-- The found mapping is the one with the longest guest that the text of the path repeats
up to a slash or the end, and by components where all is written plainly; what is opened
beneath it is the rest of the path; and whatever the host's portal or the Space is given
is the object of the proof, writable only if that was asked for and the proof is. -/
theorem mappedObject_proven (host : Host F)
    (portal : OpenMethod → F → Bool → Text → Except GError Nat) (mappings : List Mapping)
    (path : Text) :
    IsLongest (CoversText path) (fun mapping => mapping.guest.length) mappings
      (findMapping mappings path) ∧
    (Plain path → (∀ mapping ∈ mappings, Plain mapping.guest) →
      IsLongest (CoversComponents path) (fun mapping => (comps mapping.guest).length) mappings
        (findMapping mappings path)) ∧
    (∀ mapping, findMapping mappings path = some mapping → OpensRest host path mapping) ∧
    (Escapes path →
      (∀ request : OpenRequest F, request.guestPath = path →
        openMethod host portal mappings request = .refused noMapping) ∧
      (∀ request : Request F, request.guestPath = path →
        resolvePathMethod host mappings request = .refused noMapping)) ∧
    (∀ (request : OpenRequest F) (mapped : F) (writable : Bool) (answer : Except GError Nat),
      request.guestPath = path →
      openMethod host portal mappings request = .called mapped writable answer →
      ∃ proof, Proven host mappings request.toRequest proof mapped ∧
        (writable = true ↔ host.accessMode mapped = .ok .readWrite) ∧
        (writable = true →
          request.method = .openFile true ∧ host.accessMode proof = .ok .readWrite)) ∧
    (∀ (request : Request F) (mapped : F) (uri : String), request.guestPath = path →
      resolvePathMethod host mappings request = .resolved mapped uri →
      ∃ proof, Proven host mappings request proof mapped ∧
        host.accessMode mapped = .ok .readOnly) := by
  refine ⟨findMapping_longest mappings path, findMapping_plain, ?_, methods_invalid, ?_, ?_⟩
  · intro mapping hfound
    have hlongest := findMapping_longest mappings path
    rw [hfound] at hlongest
    exact hlongest.2.1.opensRest host
  · rintro request mapped writable answer - hcalled
    unfold openMethod at hcalled
    split at hcalled
    · cases hcalled
    · next hopened =>
        cases hcalled
        exact openedObject_eq_ok hopened
  · rintro request mapped uri - hresolved
    unfold resolvePathMethod at hresolved
    split at hresolved
    · cases hresolved
    · next hobject =>
        split at hresolved
        · cases hresolved
        · cases hresolved
          exact resolvedObject_eq_ok hobject

/-- A directory of the host at a mount point of the guest. -/
def mounted (guest : String) (descriptor : Nat)
    (valid : validGuestPath guest.toList = true) : Mapping :=
  ⟨guest.toList, descriptor, ⟨1, descriptor, .directory⟩, valid⟩

def mountPoints : List Mapping := [mounted "/" 3 (by decide), mounted "/home" 4 (by decide)]

/-- A host on which each mapped directory has one regular file, which anybody may write. A
file is its directory's descriptor and what it was opened for. -/
def oneFileHost : Host (Nat × Access) where
  openat2 descriptor _ access := .ok (descriptor, access)
  reopen descriptor access := .ok (descriptor, access)
  fstat file := .ok ⟨1, file.1, .regular⟩
  accessMode file := .ok file.2.mode
  readLink _ := .ok "/srv/a".toList
  filenameToUri _ := .ok "file:///srv/a"
  strerror _ := ""
  openat2_mode := by
    rintro descriptor relative access file h
    cases h
    rfl
  reopen_mode := by
    rintro descriptor access file h
    cases h
    rfl

def writeHomeFile : OpenRequest (Nat × Access) where
  guestPath := "/home/a".toList
  handle := 0
  fdList := some fun _ => .ok (4, .readWrite)
  method := .openFile true
  activationToken := []

theorem homeFile_proven :
    openMethod oneFileHost (fun _ _ _ _ => .ok 0) mountPoints writeHomeFile =
      .called (4, .readWrite) true (.ok 0) ∧
    ∃ proof, Proven oneFileHost mountPoints writeHomeFile.toRequest proof (4, .readWrite) ∧
      ((true : Bool) = true ↔ oneFileHost.accessMode (4, .readWrite) = .ok .readWrite) ∧
      ((true : Bool) = true → writeHomeFile.method = .openFile true ∧
        oneFileHost.accessMode proof = .ok .readWrite) := by
  have hcalled : openMethod oneFileHost (fun _ _ _ _ => .ok 0) mountPoints writeHomeFile =
      .called (4, .readWrite) true (.ok 0) := by rfl
  exact ⟨hcalled, (mappedObject_proven oneFileHost (fun _ _ _ _ => .ok 0) mountPoints
    "/home/a".toList).2.2.2.2.1 writeHomeFile (4, .readWrite) true (.ok 0) rfl hcalled⟩

/-- With a second slash before it, `/home` is no longer found: the root is. -/
theorem doubledSlash_taken : ¬ ∀ (mappings : List Mapping) (path : Text),
    validGuestPath path = true →
    IsLongest (CoversComponents path) (fun mapping => (comps mapping.guest).length) mappings
      (findMapping mappings path) := by
  intro h
  have hfound : findMapping mountPoints "//home/a".toList = some (mounted "/" 3 (by decide)) := by
    decide
  have hlongest := h mountPoints "//home/a".toList (by decide)
  rw [hfound] at hlongest
  have hcovers : CoversComponents "//home/a".toList (mounted "/home" 4 (by decide)) := by
    unfold CoversComponents
    decide
  have hlength := hlongest.2.2 (mounted "/home" 4 (by decide))
    (by simp [mountPoints]) hcovers
  revert hlength
  decide

end Spaces.HostBroker
