import Spaces.Library.Json
import Spaces.Library.Outcome

/-!
# What a Space's record may say

The record of a Space is a JSON object: who it is for, and what its system and each
of its users are permitted. The checks come in the order of the source, each with
its error, and a field that may be missing is read with its default, which passes
its own check.

An object is its members, without a repeated key. What the driver of a distribution
accepts is an input, and so is which characters are decimal beyond ASCII.
-/

namespace Spaces.Permissions

open Spaces.Library

abbrev Members := List (String × Json)

structure Host where
  validDistribution : Option Json → Bool
  isdecimal : Char → Bool
  isdecimal_digit : ∀ c, c.isDigit = true → isdecimal c = true

inductive SpacesError where
  | notMapping (label : String)
  | unknownPreset (label : String) (preset : Json)
  | unknownNetwork (network : Json)
  | unknownKernelCapabilities (kernelCapabilities : Json)
  | unknownDevices (devices : Json)
  | notBoolean (permission : String)
  | userNotBoolean (uid permission : String)
  | invalidGid (uid : String)
  | homeNotList (uid : String)
  | invalidHomeName (name : Json)
  | homeDuplicates (uid : String)
  | invalidDesktop (value : Json)
  | schemaVersion
  | spaceName
  | distribution
  | noUsers
  | invalidUserKey (uid : String)
  | unknownSections
  | invalidUid
  | enableNotBoolean
  | nameMismatch
  | unsafeInformation
  | unreadable
  | notWritten

def check (ok : Bool) (error : SpacesError) : Except SpacesError Unit :=
  if ok then .ok () else .error error

@[simp] theorem check_eq_ok {ok : Bool} {error : SpacesError} {u : Unit} :
    check ok error = .ok u ↔ ok = true := by
  cases ok <;> simp [check]

/-! ## Fields -/

/-- `dict.get` with a default. -/
def field (mapping : Members) (key : String) (default : Json) : Json :=
  (mapping.lookup key).getD default

/-- `dict.update`. -/
def update (mapping patch : Members) : Members :=
  patch ++ mapping.filter fun m => (patch.lookup m.1).isNone

theorem lookup_update (mapping patch : Members) (key : String) :
    (update mapping patch).lookup key = (patch.lookup key).or (mapping.lookup key) := by
  unfold update
  rw [List.lookup_append]
  cases hpatch : patch.lookup key with
  | some value => rfl
  | none =>
      simp only [Option.none_or]
      induction mapping with
      | nil => rfl
      | cons m rest ih =>
          obtain ⟨k, v⟩ := m
          by_cases hk : key = k
          · subst hk
            simp [hpatch]
          · have hne : (key == k) = false := by simpa using hk
            rw [List.filter_cons]
            split
            · simpa [List.lookup_cons, hne] using ih
            · simpa [List.lookup_cons, hne] using ih

/-- What holds of a field of both objects holds of the field of the update. -/
theorem field_update {P : Json → Prop} {mapping patch : Members} {key : String} {default : Json}
    (hmapping : P (field mapping key default)) (hpatch : P (field patch key default)) :
    P (field (update mapping patch) key default) := by
  unfold field at *
  rw [lookup_update]
  cases h : patch.lookup key with
  | some value => simpa [h] using hpatch
  | none => simpa using hmapping

def requireMapping (value : Option Json) (label : String) : Except SpacesError Members :=
  match value with
  | some (.obj mapping) => .ok mapping
  | _ => .error (.notMapping label)

@[simp] theorem requireMapping_eq_ok {value : Option Json} {label : String} {mapping : Members} :
    requireMapping value label = .ok mapping ↔ value = some (.obj mapping) := by
  unfold requireMapping
  split
  · simp
  · next hne =>
      constructor
      · intro h
        cases h
      · intro h
        exact absurd h (hne mapping)

def requireList (value : Option Json) (error : SpacesError) : Except SpacesError (List Json) :=
  match value with
  | some (.arr elements) => .ok elements
  | _ => .error error

@[simp] theorem requireList_eq_ok {value : Option Json} {error : SpacesError}
    {elements : List Json} :
    requireList value error = .ok elements ↔ value = some (.arr elements) := by
  unfold requireList
  split
  · simp
  · next hne =>
      constructor
      · intro h
        cases h
      · intro h
        exact absurd h (hne elements)

/-- One of a list of words. -/
def isLevel (levels : List String) : Json → Bool
  | .str level => levels.contains level
  | _ => false

def networkLevels : List String := ["basic", "advanced", "admin"]
def kernelCapabilityLevels : List String := ["basic", "development", "admin"]
def deviceLevels : List String := ["disabled", "basic", "admin", "full"]
def desktopLevels : List String := ["disabled", "basic", "accessibility"]
def presetNames : List String := ["basic", "develop", "custom"]

/-- Legacy grants are normalized, and no other truthy value is taken. -/
def desktopLevel : Json → Except SpacesError String
  | .bool value => .ok (if value then "basic" else "disabled")
  | .str level =>
      if level ∈ desktopLevels then .ok level else .error (.invalidDesktop (.str level))
  | value => .error (.invalidDesktop value)

def validatePreset (value : Members) (label : String) : Except SpacesError String :=
  match field value "preset" (.str "custom") with
  | .str preset =>
      if preset ∈ presetNames then .ok preset
      else .error (.unknownPreset label (.str preset))
  | preset => .error (.unknownPreset label preset)

theorem validatePreset_eq_ok {value : Members} {label preset : String} :
    validatePreset value label = .ok preset ↔
      field value "preset" (.str "custom") = .str preset ∧ preset ∈ presetNames := by
  unfold validatePreset
  split
  · next found hfound =>
      split
      · next hmem => simp [hfound]; rintro rfl; exact hmem
      · next hnot => simp [hfound]; rintro rfl; exact hnot
  · next hne =>
      constructor
      · intro h
        cases h
      · rintro ⟨h, -⟩
        exact absurd h (hne preset)

/-! ## Names -/

def isNameHead (c : Char) : Bool := ('a' ≤ c && c ≤ 'z') || ('0' ≤ c && c ≤ '9')

/-- The pattern of a Space's name. -/
def isSpaceName : Json → Bool
  | .str name =>
      match name.toList with
      | [] => false
      | c :: rest =>
          isNameHead c && rest.all (fun c => isNameHead c || c == '_' || c == '-')
            && decide (rest.length ≤ 62)
  | _ => false

def isHomeName (name : String) : Bool :=
  !name.isEmpty && name != "." && name != ".." && !name.toList.contains '\x00'
    && !(name.toList.contains '/' && name != ".ssh/config")

def validateHomeName : Json → Except SpacesError String
  | .str name => if isHomeName name then .ok name else .error (.invalidHomeName (.str name))
  | name => .error (.invalidHomeName name)

/-! ## The sections -/

def validateSystemPermissions (value : Option Json) : Except SpacesError Members := do
  let system ← requireMapping value "system permissions"
  let _ ← validatePreset system "system permission"
  let network := field system "network" .null
  check (isLevel networkLevels network) (.unknownNetwork network)
  let kernelCapabilities := field system "kernel_capabilities" (.str "basic")
  check (isLevel kernelCapabilityLevels kernelCapabilities)
    (.unknownKernelCapabilities kernelCapabilities)
  let devices := field system "devices" (.str "basic")
  check (isLevel deviceLevels devices) (.unknownDevices devices)
  check (field system "host_authentication" (.bool true)).isBool (.notBoolean "host_authentication")
  check (field system "shortcuts" (.bool true)).isBool (.notBoolean "shortcuts")
  pure system

def isGid : Option Json → Bool
  | some (.uint _) => true
  | _ => false

def validateUserRecord (value : Option Json) (uidKey : String) : Except SpacesError Members := do
  let record ← requireMapping value ("user " ++ uidKey)
  check (isGid (record.lookup "gid")) (.invalidGid uidKey)
  let permissions ← requireMapping (record.lookup "permissions")
    ("user " ++ uidKey ++ " permissions")
  let _ ← validatePreset permissions ("user " ++ uidKey ++ " permission")
  let home ← requireList (permissions.lookup "home") (.homeNotList uidKey)
  let validated ← home.mapM validateHomeName
  check (decide validated.Nodup) (.homeDuplicates uidKey)
  check (field permissions "administrator" (.bool true)).isBool
    (.userNotBoolean uidKey "administrator")
  let _ ← desktopLevel (field permissions "desktop" (.str "basic"))
  check (field permissions "mounted_drives" (.bool true)).isBool
    (.userNotBoolean uidKey "mounted_drives")
  check (field permissions "credential_agents" (.bool true)).isBool
    (.userNotBoolean uidKey "credential_agents")
  pure record

/-- `str.isdecimal`. -/
def Host.isDecimal (host : Host) (text : String) : Bool :=
  !text.toList.isEmpty && text.toList.all host.isdecimal

def validateUsers (host : Host) : Members → Except SpacesError Unit
  | [] => .ok ()
  | (uidKey, record) :: rest => do
      check (host.isDecimal uidKey) (.invalidUserKey uidKey)
      let _ ← validateUserRecord (some record) uidKey
      validateUsers host rest

def isSchemaVersion : Option Json → Bool
  | some (.uint version) => version == 1
  | _ => false

def validateInfo (host : Host) (value : Json) : Except SpacesError Members := do
  let info ← requireMapping (some value) "space information"
  check (isSchemaVersion (info.lookup "schema_version")) .schemaVersion
  check (isSpaceName (field info "name" .null)) .spaceName
  check (host.validDistribution (info.lookup "distribution")) .distribution
  let permissions ← requireMapping (info.lookup "permissions") "permissions"
  let _ ← validateSystemPermissions (permissions.lookup "system")
  let users ← requireMapping (permissions.lookup "users") "users"
  check (!users.isEmpty) .noUsers
  validateUsers host users
  pure info

/-- The record that the user section of a patch stands for. -/
def patchRecord (user : Members) : Json :=
  .obj [("gid", field user "gid" .null), ("permissions", field user "permissions" .null)]

/-- A patch may be without a system section. -/
def validateSystemSection : Option Json → Except SpacesError Unit
  | some system => (validateSystemPermissions (some system)).map fun _ => ()
  | none => .ok ()

def validateConfigurePatch (value : Json) : Except SpacesError Members := do
  let patch ← requireMapping (some value) "configure payload"
  check (isSchemaVersion (patch.lookup "schema_version")) .schemaVersion
  check (isSpaceName (field patch "name" .null)) .spaceName
  let permissions ← requireMapping (patch.lookup "permissions") "permissions"
  check (permissions.all fun entry => ["system", "user"].contains entry.1) .unknownSections
  validateSystemSection (permissions.lookup "system")
  let user ← requireMapping (permissions.lookup "user") "user update"
  match user.lookup "uid" with
  | some (.uint uid) =>
      let _ ← validateUserRecord (some (patchRecord user)) (toString uid)
      pure patch
  | _ => .error .invalidUid

/-! ## What a valid section says -/

def PresetOk (value : Members) : Prop :=
  ∃ preset ∈ presetNames, field value "preset" (.str "custom") = .str preset

structure SystemOk (system : Members) : Prop where
  preset : PresetOk system
  network : isLevel networkLevels (field system "network" .null) = true
  kernelCapabilities :
    isLevel kernelCapabilityLevels (field system "kernel_capabilities" (.str "basic")) = true
  devices : isLevel deviceLevels (field system "devices" (.str "basic")) = true
  hostAuthentication : (field system "host_authentication" (.bool true)).isBool = true
  shortcuts : (field system "shortcuts" (.bool true)).isBool = true

/-- All but the list of home mounts, which has no default. -/
structure UserFieldsOk (permissions : Members) : Prop where
  preset : PresetOk permissions
  administrator : (field permissions "administrator" (.bool true)).isBool = true
  desktop : ∃ level, desktopLevel (field permissions "desktop" (.str "basic")) = .ok level
  mountedDrives : (field permissions "mounted_drives" (.bool true)).isBool = true
  credentialAgents : (field permissions "credential_agents" (.bool true)).isBool = true

structure HomeOk (permissions : Members) : Prop where
  home : ∃ home validated, permissions.lookup "home" = some (.arr home) ∧
    home.mapM validateHomeName = .ok validated ∧ validated.Nodup

theorem presetOk_iff {value : Members} {label : String} :
    (∃ preset, validatePreset value label = .ok preset) ↔ PresetOk value := by
  simp only [validatePreset_eq_ok, PresetOk]
  constructor
  · rintro ⟨preset, hfield, hmem⟩
    exact ⟨preset, hmem, hfield⟩
  · rintro ⟨preset, hmem, hfield⟩
    exact ⟨preset, hfield, hmem⟩

theorem validateSystemPermissions_eq_ok {value : Option Json} {system : Members} :
    validateSystemPermissions value = .ok system ↔
      value = some (.obj system) ∧ SystemOk system := by
  unfold validateSystemPermissions
  simp only [Outcome.bind_eq_ok, requireMapping_eq_ok, check_eq_ok]
  constructor
  · rintro ⟨found, rfl, preset, hpreset, -, hnetwork, -, hkernel, -, hdevices, -, hauth, -,
      hshortcuts, hfound⟩
    obtain rfl : found = system := by simpa [pure, Except.pure] using hfound
    exact ⟨rfl, presetOk_iff.mp ⟨preset, hpreset⟩, hnetwork, hkernel, hdevices, hauth, hshortcuts⟩
  · rintro ⟨rfl, hok⟩
    obtain ⟨preset, hpreset⟩ := presetOk_iff.mpr hok.preset
    exact ⟨system, rfl, preset, hpreset, (), hok.network, (), hok.kernelCapabilities, (),
      hok.devices, (), hok.hostAuthentication, (), hok.shortcuts, rfl⟩

theorem validateUserRecord_eq_ok {value : Option Json} {uidKey : String} {record : Members} :
    validateUserRecord value uidKey = .ok record ↔
      value = some (.obj record) ∧ isGid (record.lookup "gid") = true ∧
        ∃ permissions, record.lookup "permissions" = some (.obj permissions) ∧
          UserFieldsOk permissions ∧ HomeOk permissions := by
  unfold validateUserRecord
  simp only [Outcome.bind_eq_ok, requireMapping_eq_ok, requireList_eq_ok, check_eq_ok]
  constructor
  · rintro ⟨found, rfl, -, hgid, permissions, hpermissions, preset, hpreset, home, hhome,
      validated, hvalidated, -, hnodup, -, hadministrator, level, hdesktop, -, hdrives, -, hagents,
      hfound⟩
    obtain rfl : found = record := by simpa [pure, Except.pure] using hfound
    exact ⟨rfl, hgid, permissions, hpermissions,
      ⟨presetOk_iff.mp ⟨preset, hpreset⟩, hadministrator, ⟨level, hdesktop⟩, hdrives, hagents⟩,
      ⟨home, validated, hhome, hvalidated, of_decide_eq_true hnodup⟩⟩
  · rintro ⟨rfl, hgid, permissions, hpermissions, hok, ⟨home, validated, hhome, hvalidated, hnodup⟩⟩
    obtain ⟨preset, hpreset⟩ := presetOk_iff.mpr hok.preset
    obtain ⟨level, hdesktop⟩ := hok.desktop
    exact ⟨record, rfl, (), hgid, permissions, hpermissions, preset, hpreset, home, hhome,
      validated, hvalidated, (), decide_eq_true hnodup, (), hok.administrator, level, hdesktop, (),
      hok.mountedDrives, (), hok.credentialAgents, rfl⟩

theorem validateUsers_eq_ok {host : Host} {users : Members} :
    validateUsers host users = .ok () ↔
      ∀ entry ∈ users, host.isDecimal entry.1 = true ∧
        ∃ record, validateUserRecord (some entry.2) entry.1 = .ok record := by
  induction users with
  | nil => simp [validateUsers]
  | cons entry users ih =>
      obtain ⟨uidKey, record⟩ := entry
      rw [validateUsers]
      simp only [Outcome.bind_eq_ok, check_eq_ok, ih, List.forall_mem_cons]
      constructor
      · rintro ⟨-, hkey, found, hfound, hrest⟩
        exact ⟨⟨hkey, found, hfound⟩, hrest⟩
      · rintro ⟨⟨hkey, found, hfound⟩, hrest⟩
        exact ⟨(), hkey, found, hfound, hrest⟩

/-- The parts of a valid record. -/
structure InfoOk (host : Host) (info permissions system users : Members) : Prop where
  schema : isSchemaVersion (info.lookup "schema_version") = true
  name : isSpaceName (field info "name" .null) = true
  distribution : host.validDistribution (info.lookup "distribution") = true
  permissionsAt : info.lookup "permissions" = some (.obj permissions)
  systemAt : permissions.lookup "system" = some (.obj system)
  systemOk : SystemOk system
  usersAt : permissions.lookup "users" = some (.obj users)
  nonempty : users ≠ []
  usersOk : ∀ entry ∈ users, host.isDecimal entry.1 = true ∧
    ∃ record, validateUserRecord (some entry.2) entry.1 = .ok record

theorem validateInfo_eq_ok {host : Host} {value : Json} {info : Members} :
    validateInfo host value = .ok info ↔
      value = .obj info ∧
        ∃ permissions system users, InfoOk host info permissions system users := by
  unfold validateInfo
  simp only [Outcome.bind_eq_ok, requireMapping_eq_ok, check_eq_ok,
    validateSystemPermissions_eq_ok, Option.some.injEq]
  constructor
  · rintro ⟨found, rfl, -, hschema, -, hname, -, hdistribution, permissions, hpermissions, system,
      ⟨hsystem, hsystemOk⟩, users, husers, -, hnonempty, u, husersOk, hfound⟩
    obtain rfl : found = info := by simpa [pure, Except.pure] using hfound
    exact ⟨rfl, permissions, system, users, hschema, hname, hdistribution, hpermissions, hsystem,
      hsystemOk, husers, by simpa using hnonempty, validateUsers_eq_ok.mp husersOk⟩
  · rintro ⟨rfl, permissions, system, users, h⟩
    exact ⟨info, rfl, (), h.schema, (), h.name, (), h.distribution, permissions, h.permissionsAt,
      system, ⟨h.systemAt, h.systemOk⟩, users, h.usersAt, (), by simpa using h.nonempty, (),
      validateUsers_eq_ok.mpr h.usersOk, rfl⟩

/-- The parts of a patch that is accepted. -/
structure PatchOk (patch permissions user : Members) (uid : Nat) : Prop where
  permissionsAt : patch.lookup "permissions" = some (.obj permissions)
  systemAt : ∀ value, permissions.lookup "system" = some value →
    ∃ system, value = .obj system ∧ SystemOk system
  userAt : permissions.lookup "user" = some (.obj user)
  uidAt : user.lookup "uid" = some (.uint uid)
  record : validateUserRecord (some (patchRecord user)) (toString uid) =
    .ok [("gid", field user "gid" .null), ("permissions", field user "permissions" .null)]

theorem PatchOk.of_validate {value : Json} {patch : Members}
    (h : validateConfigurePatch value = .ok patch) :
    value = .obj patch ∧ ∃ permissions user uid, PatchOk patch permissions user uid := by
  unfold validateConfigurePatch at h
  simp only [Outcome.bind_eq_ok, requireMapping_eq_ok, check_eq_ok] at h
  obtain ⟨found, hvalue, -, -, -, -, permissions, hpermissions, -, -, u, hsystem, user, huser,
    hrest⟩ := h
  split at hrest
  · next uid huid =>
      simp only [Outcome.bind_eq_ok, validateUserRecord_eq_ok] at hrest
      obtain ⟨record, hrecord, hfound⟩ := hrest
      obtain rfl : found = patch := by simpa [pure, Except.pure] using hfound
      have heq : record =
          [("gid", field user "gid" .null), ("permissions", field user "permissions" .null)] := by
        have := hrecord.1
        rw [patchRecord, Option.some.injEq, Json.obj.injEq] at this
        exact this.symm
      refine ⟨by simpa using hvalue, permissions, user, uid, hpermissions, ?_, huser, huid,
        validateUserRecord_eq_ok.mpr (heq ▸ hrecord)⟩
      intro value hlookup
      rw [hlookup, validateSystemSection] at hsystem
      simp only [Outcome.map_eq_ok, validateSystemPermissions_eq_ok] at hsystem
      obtain ⟨system, ⟨hobj, hok⟩, -⟩ := hsystem
      exact ⟨system, by simpa using hobj, hok⟩
  · cases hrest

/-! ## Updates of valid sections -/

/-- Every default passes its own check. -/
theorem userFieldsOk_nil : UserFieldsOk [] where
  preset := ⟨"custom", by decide, rfl⟩
  administrator := rfl
  desktop := ⟨"basic", rfl⟩
  mountedDrives := rfl
  credentialAgents := rfl

theorem SystemOk.update {system patch : Members} (h : SystemOk system) (hpatch : SystemOk patch) :
    SystemOk (update system patch) where
  preset := field_update (P := fun value => ∃ preset ∈ presetNames, value = .str preset)
    h.preset hpatch.preset
  network := field_update (P := fun value => isLevel networkLevels value = true)
    h.network hpatch.network
  kernelCapabilities :=
    field_update (P := fun value => isLevel kernelCapabilityLevels value = true)
      h.kernelCapabilities hpatch.kernelCapabilities
  devices := field_update (P := fun value => isLevel deviceLevels value = true)
    h.devices hpatch.devices
  hostAuthentication := field_update (P := fun value => value.isBool = true)
    h.hostAuthentication hpatch.hostAuthentication
  shortcuts := field_update (P := fun value => value.isBool = true)
    h.shortcuts hpatch.shortcuts

theorem UserFieldsOk.update {permissions patch : Members} (h : UserFieldsOk permissions)
    (hpatch : UserFieldsOk patch) : UserFieldsOk (update permissions patch) where
  preset := field_update (P := fun value => ∃ preset ∈ presetNames, value = .str preset)
    h.preset hpatch.preset
  administrator := field_update (P := fun value => value.isBool = true)
    h.administrator hpatch.administrator
  desktop := field_update (P := fun value => ∃ level, desktopLevel value = .ok level)
    h.desktop hpatch.desktop
  mountedDrives := field_update (P := fun value => value.isBool = true)
    h.mountedDrives hpatch.mountedDrives
  credentialAgents := field_update (P := fun value => value.isBool = true)
    h.credentialAgents hpatch.credentialAgents

theorem HomeOk.update {patch : Members} (h : HomeOk patch) (permissions : Members) :
    HomeOk (update permissions patch) := by
  obtain ⟨home, validated, hhome, hrest⟩ := h
  refine ⟨home, validated, ?_, hrest⟩
  rw [lookup_update, hhome, Option.some_or]

end Spaces.Permissions
