import Spaces.Shortcuts.Names
import Spaces.Workers.DeviceBinds

/-!
# Which devices a level discovers

`discover` goes through the files below `/dev` and decides about each by its own name, by
its number and by what udev knows of the number. What a device is known for by its number
holds of every file with that number. What only a name says holds of that file alone: a
watchdog that udev does not know by its subsystem goes by another name into the guest.

Whether a file is found depends on the level in one direction only. A higher level leaves
tests out, and follows links besides.
-/

namespace Spaces.Workers

open Spaces.Library

def NSPAWN_MANAGED_DIRECTORIES : List String := ["mqueue", "pts", "shm"]

/-- Without the `/dev` they all begin with. -/
def NSPAWN_MANAGED_DEVICES : List (List String) :=
  [["console"], ["full"], ["kmsg"], ["null"], ["ptmx"], ["random"], ["tty"], ["urandom"], ["zero"]]

def HOST_TERMINAL_CHARACTER_MAJORS : List Nat := [4, 5, 7]

def VIDEO_SUBSYSTEMS : List String := ["cec", "drm", "dvb", "graphics", "media", "video4linux"]

def SECURITY_SUBSYSTEMS : List String := ["tee", "tpm", "tpmrm", "vtpm", "vtpm_proxy"]

def SECURITY_PROPERTIES : List String :=
  ["ID_HARDWARE_WALLET", "ID_SECURITY_TOKEN", "ID_SMARTCARD_READER"]

def CAPTURE_PROPERTIES : List String :=
  ["ID_INPUT_KEYBOARD", "ID_INPUT_MOUSE", "ID_INPUT_POINTINGSTICK", "ID_INPUT_TABLET",
    "ID_INPUT_TABLET_PAD", "ID_INPUT_TOUCHPAD", "ID_INPUT_TOUCHSCREEN"]

def CONTROLLER_PROPERTIES : List String := ["ID_INPUT_GAMEPAD", "ID_INPUT_JOYSTICK"]

structure DeviceMetadata where
  tags : List String := []
  properties : List String := []
  subsystems : List String := []

/-- What `lstat` says of a device. -/
structure Device where
  kind : Kind
  major : Nat
  minor : Nat
  gid : Nat

inductive Stat
  | link
  | device (d : Device)
  | other

/-- What the system answers about the files below `/dev`, which are named without it. -/
structure DeviceTree where
  /-- The files that `os.walk` lists when no directory is taken out of its way. -/
  walk : Walk
  lstat : List String → Option Stat
  /-- Where a link leads in the end, by however many others, if that is below `/dev`. -/
  resolve : List String → Option (List String)

structure DeviceHost where
  tree : DeviceTree
  metadata : Kind → Nat → Nat → DeviceMetadata
  /-- The group `video`, if there is one. -/
  videoGid : Option Nat
  /-- What `\\d` matches is what `int` reads as a digit. -/
  unicode : Text.Unicode

/-! ## Names -/

/-- `PurePosixPath.name` -/
def fileName (path : List String) : Text := (path.getLastD "").toList

/-- `re.fullmatch(start + r"\d*", name)` -/
def numbered (u : Text.Unicode) (start name : Text) : Bool :=
  start.isPrefixOf name && (name.drop start.length).all fun c => (u.decimal c).isSome

def watchdogName (u : Text.Unicode) (name : Text) : Bool := numbered u "watchdog".toList name

/-- `vtpmx`, or `(?:tee|teepriv|tpm|tpmrm)\d+`. -/
def securityName (u : Text.Unicode) (name : Text) : Bool :=
  name = "vtpmx".toList ||
    ["tee".toList, "teepriv".toList, "tpm".toList, "tpmrm".toList].any fun start =>
      numbered u start name && start.length < name.length

/-! ## What udev knows -/

def meets (a b : List String) : Bool := a.any fun x => b.contains x

def securityMetadata (metadata : DeviceMetadata) : Bool :=
  metadata.tags.contains "security-device" || meets metadata.properties SECURITY_PROPERTIES ||
    meets metadata.subsystems SECURITY_SUBSYSTEMS

def isSecurityDevice (u : Text.Unicode) (path : List String) (metadata : DeviceMetadata) : Bool :=
  securityMetadata metadata || securityName u (fileName path)

def isCaptureDevice (metadata : DeviceMetadata) : Bool :=
  if meets metadata.properties CONTROLLER_PROPERTIES then false
  else meets metadata.properties CAPTURE_PROPERTIES || metadata.subsystems.contains "input"

/-! ## The loop over the files -/

/-- What `directories[:]` leaves out: all that is below a managed directory. -/
def managedBelow : List String → Bool
  | name :: _ :: _ => NSPAWN_MANAGED_DIRECTORIES.contains name
  | _ => false

def DeviceTree.listed (tree : DeviceTree) : Walk where
  paths := tree.walk.paths.filter fun path => !managedBelow path
  nodup := tree.walk.nodup.filter _
  files p hp q hq := tree.walk.files p (List.mem_of_mem_filter hp) q (List.mem_of_mem_filter hq)

/-- The device that a file is or, at the highest level, leads to, and where it is. -/
def DeviceTree.examine (tree : DeviceTree) (level : DeviceLevel) (path : List String) :
    Option (List String × Device) :=
  match tree.lstat path with
  | some (.device d) => some (path, d)
  | some .link =>
      if level ≠ .full then none
      else
        match tree.resolve path with
        | some source =>
            match tree.lstat source with
            | some (.device d) => some (source, d)
            | _ => none
        | none => none
  | _ => none

/-- How a turn of the loop ends. -/
inductive Verdict
  | terminal
  | managed
  | watchdog
  | security
  | notPermitted
  | found
  deriving DecidableEq

section

variable (host : DeviceHost)

def Device.isTerminal (d : Device) : Bool :=
  d.kind = .char && HOST_TERMINAL_CHARACTER_MAJORS.contains d.major

/-- A watchdog by its subsystem or its number. -/
def knownWatchdog (d : Device) : Bool :=
  (host.metadata d.kind d.major d.minor).subsystems.contains "watchdog" ||
    (d.major = 10 && d.minor = 130)

def namedWatchdog (path source : List String) : Bool :=
  watchdogName host.unicode (fileName path) || watchdogName host.unicode (fileName source)

/-- What the lowest level asks for. -/
def permitted (d : Device) : Bool :=
  let metadata := host.metadata d.kind d.major d.minor
  !isCaptureDevice metadata &&
    (metadata.tags.contains "uaccess" || host.videoGid = some d.gid ||
      meets metadata.subsystems VIDEO_SUBSYSTEMS)

def verdict (level : DeviceLevel) (path source : List String) (d : Device) : Verdict :=
  if d.isTerminal then .terminal
  else if NSPAWN_MANAGED_DEVICES.contains path then .managed
  else if d.kind = .char && (knownWatchdog host d || namedWatchdog host path source) then .watchdog
  else if level ≠ .full &&
      isSecurityDevice host.unicode path (host.metadata d.kind d.major d.minor) then .security
  else if level = .basic && !permitted host d then .notPermitted
  else .found

def classifyFile (level : DeviceLevel) (path : List String) : Option Classified :=
  match host.tree.examine level path with
  | some (source, d) =>
      if verdict host level path source d = .found then
        some ⟨"dev" :: source, d.kind, d.major, d.minor⟩
      else none
  | none => none

def discovery (level : DeviceLevel) : Discovery := ⟨host.tree.listed, classifyFile host level⟩

def discover (level : DeviceLevel) : List DeviceNode := (discovery host level).discover

/-! ## Exclusion -/

/-- A file is withheld for what it is, and not for what it lacks. -/
def Verdict.excludes : Verdict → Bool
  | .terminal | .watchdog | .security => true
  | .managed | .notPermitted | .found => false

/-- The numbers of a device and of a node agree. -/
def Device.Is (d : Device) (node : DeviceNode) : Prop :=
  node.kind = d.kind ∧ node.major = d.major ∧ node.minor = d.minor

structure Exclusive : Prop where
  closed : ∀ level, ∀ path ∈ host.tree.listed.paths, ∀ source d,
    host.tree.examine level path = some (source, d) →
      (verdict host level path source d).excludes = true →
        ∀ node ∈ discover host level, ¬ d.Is node
  basic : discover host .basic ⊆ discover host .admin
  admin : discover host .admin ⊆ discover host .full

/-- The number says that the device is withheld. -/
def knownOut (level : DeviceLevel) (d : Device) : Bool :=
  d.isTerminal || (d.kind = .char && knownWatchdog host d) ||
    (level ≠ .full && securityMetadata (host.metadata d.kind d.major d.minor))

/-- The name says so. -/
def namedOut (level : DeviceLevel) (path source : List String) (d : Device) : Bool :=
  (d.kind = .char && namedWatchdog host path source) ||
    (level ≠ .full && securityName host.unicode (fileName path))

/-- A device that is withheld for the name of one file only is not found by any other
name: that is the container manager's, or withheld too, or closed to the level. -/
def NamesAgree : Prop :=
  ∀ level, ∀ path ∈ host.tree.listed.paths, ∀ other ∈ host.tree.listed.paths,
    ∀ source d source' d', host.tree.examine level path = some (source, d) →
      host.tree.examine level other = some (source', d') →
        d'.kind = d.kind → d'.major = d.major → d'.minor = d.minor →
          knownOut host level d = false → NSPAWN_MANAGED_DEVICES.contains path = false →
            namedOut host level path source d = true →
              NSPAWN_MANAGED_DEVICES.contains other = true ∨
                namedOut host level other source' d' = true ∨
                  (level = .basic ∧ permitted host d' = false)

end

variable {host : DeviceHost} {level : DeviceLevel} {path source : List String} {d d' : Device}
  {node : DeviceNode}

theorem excludes_iff : (verdict host level path source d).excludes = true ↔
    d.isTerminal = true ∨ (NSPAWN_MANAGED_DEVICES.contains path = false ∧
      (knownOut host level d = true ∨ namedOut host level path source d = true)) := by
  unfold verdict knownOut namedOut isSecurityDevice
  generalize NSPAWN_MANAGED_DEVICES.contains path = managed
  repeat' split
  all_goals
    simp only [Verdict.excludes]
    grind

theorem found_iff : verdict host level path source d = .found ↔
    NSPAWN_MANAGED_DEVICES.contains path = false ∧ knownOut host level d = false ∧
      namedOut host level path source d = false ∧
        (level = .basic → permitted host d = true) := by
  unfold verdict knownOut namedOut isSecurityDevice
  generalize NSPAWN_MANAGED_DEVICES.contains path = managed
  repeat' split
  all_goals grind

theorem mem_discover_iff : node ∈ discover host level ↔
    ∃ path ∈ host.tree.listed.paths, ∃ source d,
      host.tree.examine level path = some (source, d) ∧ verdict host level path source d = .found ∧
        node = ⟨"dev" :: path, "dev" :: source, d.kind, d.major, d.minor⟩ := by
  rw [discover, Discovery.discover, mem_sortedNodes, List.mem_filterMap]
  refine exists_congr fun path => and_congr_right fun _ => ?_
  rw [Discovery.nodeAt, Option.map_eq_some_iff]
  show (∃ a, classifyFile host level path = some a ∧ _) ↔ _
  unfold classifyFile
  cases host.tree.examine level path with
  | none => simp
  | some found =>
      obtain ⟨source, d⟩ := found
      by_cases hfound : verdict host level path source d = .found
      · simp [hfound, eq_comm]
      · simp [hfound]

/-! ## The levels -/

/-- What a lower level looks at is the same file at a higher one. -/
theorem examine_admin (h : host.tree.examine .basic path = some (source, d)) :
    host.tree.examine .admin path = some (source, d) := h

theorem examine_full (h : host.tree.examine .admin path = some (source, d)) :
    host.tree.examine .full path = some (source, d) := by
  unfold DeviceTree.examine at h ⊢
  cases hstat : host.tree.lstat path with
  | none => simp [hstat] at h
  | some stat =>
      cases stat with
      | link => simp [hstat] at h
      | device d => simpa [hstat] using h
      | other => simp [hstat] at h

theorem found_admin (h : verdict host .basic path source d = .found) :
    verdict host .admin path source d = .found := by
  rw [found_iff] at h ⊢
  exact ⟨h.1, h.2.1, h.2.2.1, fun hlevel => by cases hlevel⟩

/-- The highest level leaves the tests for security devices out. -/
theorem found_full (h : verdict host .admin path source d = .found) :
    verdict host .full path source d = .found := by
  rw [found_iff] at h ⊢
  obtain ⟨hmanaged, hknown, hnamed, -⟩ := h
  refine ⟨hmanaged, ?_, ?_, fun hlevel => by cases hlevel⟩
  · unfold knownOut at hknown ⊢
    simp only [Bool.or_eq_false_iff] at hknown ⊢
    exact ⟨hknown.1, rfl⟩
  · unfold namedOut at hnamed ⊢
    simp only [Bool.or_eq_false_iff] at hnamed ⊢
    exact ⟨hnamed.1, rfl⟩

theorem discover_basic_subset (host : DeviceHost) :
    discover host .basic ⊆ discover host .admin := by
  intro node hnode
  obtain ⟨path, hpath, source, d, hexamine, hfound, heq⟩ := mem_discover_iff.mp hnode
  exact mem_discover_iff.mpr
    ⟨path, hpath, source, d, examine_admin hexamine, found_admin hfound, heq⟩

theorem discover_admin_subset (host : DeviceHost) :
    discover host .admin ⊆ discover host .full := by
  intro node hnode
  obtain ⟨path, hpath, source, d, hexamine, hfound, heq⟩ := mem_discover_iff.mp hnode
  exact mem_discover_iff.mpr
    ⟨path, hpath, source, d, examine_full hexamine, found_full hfound, heq⟩

/-! ## The names of one device -/

/-- What the number says it says of every file with the number. -/
theorem knownOut_congr (hkind : d'.kind = d.kind) (hmajor : d'.major = d.major)
    (hminor : d'.minor = d.minor) : knownOut host level d' = knownOut host level d := by
  unfold knownOut Device.isTerminal knownWatchdog
  rw [hkind, hmajor, hminor]

theorem Exclusive.namesAgree (h : Exclusive host) : NamesAgree host := by
  intro level path hpath other hother source d source' d' hexamine hexamine' hkind hmajor hminor
    hknown hmanaged hnamed
  by_contra hopen
  simp only [not_or, Bool.not_eq_true, not_and, Bool.not_eq_false] at hopen
  have hexcluded := excludes_iff.mpr (.inr ⟨hmanaged, .inr hnamed⟩)
  have hfound : verdict host level other source' d' = .found := by
    refine found_iff.mpr ⟨hopen.1, ?_, hopen.2.1, hopen.2.2⟩
    rw [knownOut_congr hkind hmajor hminor, hknown]
  have hnode := mem_discover_iff.mpr ⟨other, hother, source', d', hexamine', hfound, rfl⟩
  exact h.closed level path hpath source d hexamine hexcluded _ hnode ⟨hkind, hmajor, hminor⟩

theorem NamesAgree.exclusive (h : NamesAgree host) : Exclusive host where
  basic := discover_basic_subset host
  admin := discover_admin_subset host
  closed := by
    intro level path hpath source d hexamine hexcluded node hnode hsame
    obtain ⟨other, hother, source', d', hexamine', hfound, rfl⟩ := mem_discover_iff.mp hnode
    obtain ⟨hkind, hmajor, hminor⟩ := hsame
    obtain ⟨hmanaged', hknown', hnamed', hpermitted⟩ := found_iff.mp hfound
    rw [knownOut_congr hkind hmajor hminor] at hknown'
    rcases excludes_iff.mp hexcluded with hterminal | ⟨hmanaged, hout⟩
    · simp [knownOut, hterminal] at hknown'
    · have hnamed := hout.resolve_left (by rw [hknown']; exact Bool.false_ne_true)
      rcases h level path hpath other hother source d source' d' hexamine hexamine' hkind hmajor
        hminor hknown' hmanaged hnamed with hmanaged | hnamed | ⟨hbasic, hclosed⟩
      · rw [hmanaged'] at hmanaged
        cases hmanaged
      · rw [hnamed'] at hnamed
        cases hnamed
      · rw [hpermitted hbasic] at hclosed
        cases hclosed

/-- Exclusion follows a device to all of its names if its names agree about it. That a
higher level finds more holds in any case. -/
theorem exclusive_iff_namesAgree (host : DeviceHost) : Exclusive host ↔ NamesAgree host :=
  ⟨Exclusive.namesAgree, NamesAgree.exclusive⟩

def watchdogPaths : List (List String) := [["watchdog0"], ["wd"]]

theorem watchdogPaths_nodup : watchdogPaths.Nodup := by decide

theorem watchdogPaths_flat : ∀ p ∈ watchdogPaths, ∀ q ∈ watchdogPaths, p <+: q → p = q := by
  decide

/-- A watchdog with two names, of which udev knows nothing. -/
def twoNames : DeviceHost where
  tree :=
    { walk := ⟨watchdogPaths, watchdogPaths_nodup, watchdogPaths_flat⟩
      lstat := fun _ => some (.device ⟨.char, 248, 0, 0⟩)
      resolve := fun _ => none }
  metadata := fun _ _ _ => {}
  videoGid := none
  unicode := Shortcuts.asciiUnicode

theorem twoNames_not_exclusive : ¬ Exclusive twoNames := by
  intro h
  have hnode : (⟨["dev", "wd"], ["dev", "wd"], .char, 248, 0⟩ : DeviceNode) ∈
      discover twoNames .full :=
    mem_discover_iff.mpr
      ⟨["wd"], by decide, ["wd"], ⟨.char, 248, 0, 0⟩, rfl, by decide +kernel, rfl⟩
  exact h.closed .full ["watchdog0"] (by decide) ["watchdog0"] ⟨.char, 248, 0, 0⟩ rfl
    (by decide +kernel) _ hnode ⟨rfl, rfl, rfl⟩

end Spaces.Workers
