import Spaces.Library.Decimal
import Spaces.Library.JsonText
import Spaces.Library.Records
import Spaces.Library.Utf8
import Spaces.Permissions.Effect
import Spaces.Shortcuts.Names

/-!
# Loading a Space's record

Whatever bytes the file holds, `load_info` is to answer `None` or a record, and a record
that it answers is to be good for everything that reads it. The reader catches three kinds
of errors. It does not catch bytes that are not UTF-8, numbers and nestings beyond the
interpreter's limits, and an option of a distribution that cannot be looked up because it
is a list or an object. A record that comes out is sound in all but one respect: the keys
of its users are distinct as texts, and `int` reads "1000" and "01000" alike.

Python keeps in a float more than is modelled here, but nothing reads a float of the
record. What `download_folder` answers for a user is an input, as for the other readers.
-/

namespace Spaces.Permissions

open Spaces.Library Json JsonText

/-- What is raised when something is wrong with the file. -/
inductive Raised where
  | osError
  | unicodeDecodeError
  | jsonDecodeError
  | valueError
  | recursionError
  | typeError
  | attributeError
  | spacesError (error : SpacesError)

def raising {α : Type} (x : Except SpacesError α) : Except Raised α := x.mapError .spacesError

/-- The interpreter, and the machine that it runs on. -/
structure Platform where
  reader : Reader
  /-- How deep containers may be nested before the stack is used up. -/
  depth : Nat
  machine : String
  unicode : Text.Unicode
  decimal_lt : ∀ c n, unicode.decimal c = some n → n < 10
  decimal_plain : ∀ c, (unicode.decimal c).isSome = true →
    Text.isSpace c = false ∧ c ≠ '_' ∧ c ≠ '+' ∧ c ≠ '-'

/-! ## Distributions -/

structure Distribution where
  id : String
  optionKey : Option String
  configurationOptions : List String
  multipleOptions : Bool

/-- `_DRIVERS` -/
def drivers : List Distribution :=
  [⟨"arch", some "options", ["rankmirrors", "yay"], true⟩,
    ⟨"fedora", some "version", ["44", "45"], false⟩,
    ⟨"ubuntu", some "version", ["noble", "resolute"], false⟩,
    ⟨"kali", none, [], false⟩,
    ⟨"custom", none, [], false⟩]

def supportedByArchitecture : List (String × List String) :=
  [("aarch64", ["fedora", "ubuntu", "kali", "custom"])]

/-- `supported_ids`, with the drivers for the ids. -/
def supportedDrivers (machine : String) : List Distribution :=
  let supported := (supportedByArchitecture.lookup machine).getD (drivers.map (·.id))
  drivers.filter fun driver => supported.contains driver.id

def getDriver (machine distributionId : String) : Option Distribution :=
  (supportedDrivers machine).find? (·.id == distributionId)

/-- Lists and dictionaries are not. -/
def isHashable : Json → Bool
  | .arr _ => false
  | .obj _ => false
  | _ => true

def Distribution.validOptions (driver : Distribution) (options : List Json) : Bool :=
  match options.mapM fun option => getStr (some option) with
  | none => false
  | some selected =>
      decide selected.Nodup && selected.all fun option =>
        driver.configurationOptions.contains option

def Distribution.validate (driver : Distribution) (metadata : Members) : Except Raised Unit :=
  if isLevel [driver.id] (field metadata "id" .null) = false then
    .error (.spacesError .distribution)
  else
    match driver.optionKey with
    | none => .ok ()
    | some optionKey =>
        let selected := field metadata optionKey .null
        if driver.multipleOptions then
          match selected with
          | .arr options => raising (check (driver.validOptions options) .distribution)
          | _ => .error (.spacesError .distribution)
        else if isHashable selected = false then .error .typeError
        else raising (check (isLevel driver.configurationOptions selected) .distribution)

def validateByDriver (driver : Option Distribution) (distribution : Members) :
    Except Raised Unit :=
  match driver with
  | none => .ok ()
  | some driver => driver.validate distribution

variable (p : Platform)

def Platform.validateDistribution (value : Option Json) : Except Raised Members := do
  let distribution ← raising (requireMapping value "distribution")
  let distroId := field distribution "id" .null
  let known := (supportedDrivers p.machine).map (·.id)
  raising (check (isLevel known distroId) .distribution)
  let driver := (getStr (some distroId)).bind (getDriver p.machine)
  validateByDriver driver distribution
  pure distribution

/-! ## The record -/

theorem Platform.isSome_decimal (c : Char) (h : c.isDigit = true) :
    (p.unicode.decimal c).isSome = true := by
  rw [p.unicode.decimal_ascii c h]
  rfl

/-- The checks of a record, with what the drivers accept. -/
def Platform.host : Host where
  validDistribution value := (p.validateDistribution value).isOk
  isdecimal c := (p.unicode.decimal c).isSome
  isdecimal_digit := p.isSome_decimal

def Platform.validateInfo (value : Json) : Except Raised Members := do
  let info ← raising (requireMapping (some value) "space information")
  raising (check (isSchemaVersion (info.lookup "schema_version")) .schemaVersion)
  raising (check (isSpaceName (field info "name" .null)) .spaceName)
  let _ ← p.validateDistribution (info.lookup "distribution")
  let permissions ← raising (requireMapping (info.lookup "permissions") "permissions")
  let _ ← raising (validateSystemPermissions (permissions.lookup "system"))
  let users ← raising (requireMapping (permissions.lookup "users") "users")
  raising (check (!users.isEmpty) .noUsers)
  raising (validateUsers p.host users)
  pure info

/-! ## The file -/

/-- `path.read_text(encoding="utf-8")`, of a file that may not be there. -/
def readText (file : Option (List UInt8)) : Except Raised Text :=
  match file with
  | none => .error .osError
  | some content =>
      match Text.decodeUtf8 content with
      | none => .error .unicodeDecodeError
      | some text => .ok (Text.universalNewlines text)

def failed : Failure → Raised
  | .malformed => .jsonDecodeError
  | .tooManyDigits => .valueError
  | .tooDeep => .recursionError

def Platform.readInfo (file : Option (List UInt8)) : Except Raised Members := do
  let text ← readText file
  let value ← (loads p.reader p.depth text).mapError failed
  p.validateInfo value

/-- What the `except` clause names. -/
def isCaught : Raised → Bool
  | .osError => true
  | .jsonDecodeError => true
  | .spacesError _ => true
  | _ => false

def Platform.loadInfo (file : Option (List UInt8)) : Except Raised (Option Members) :=
  match p.readInfo file with
  | .ok info => .ok (some info)
  | .error raised => if isCaught raised then .ok none else .error raised

/-! ## The readers of a record -/

/-- What the form for a Space's permissions begins with. -/
structure Defaults where
  network : String
  kernelCapabilities : String
  devices : String
  hostAuthentication : Bool
  shortcuts : Bool
  selectedHome : List String
  administrator : Bool
  desktop : String
  credentialAgents : Bool
  mountedDrives : Bool

def defaultsWithHome (selectedHome : List String) : Defaults where
  network := "basic"
  kernelCapabilities := "basic"
  devices := "basic"
  hostAuthentication := true
  shortcuts := true
  selectedHome := selectedHome
  administrator := true
  desktop := "basic"
  credentialAgents := false
  mountedDrives := true

/-- What has methods of a dictionary. -/
def asDict : Json → Except Raised Members
  | .obj mapping => .ok mapping
  | _ => .error .attributeError

def levelOr (default : String) (levels : List String) : Json → String
  | .str level => if level ∈ levels then level else default
  | _ => default

def boolOr (default : Bool) : Json → Bool
  | .bool value => value
  | _ => default

/-- The names that pass, of a list. -/
def homeOr (default : List String) : Json → List String
  | .arr home => home.filterMap fun name => (validateHomeName name).toOption
  | _ => default

def userPermissions (download : Option String) (user : Json) : Except SpacesError Members :=
  if user.isObj then effectiveUserPermissions download user
  else .ok (presetUserPermissions download "basic")

def defaultsFromInfo (download : Option String) (uid : Nat) (info : Option Members) :
    Except Raised Defaults :=
  let standard := defaultsWithHome (presetHome download (presetNamed "basic").home)
  match info with
  | none => .ok standard
  | some [] => .ok standard
  | some info => do
      let permissions ← asDict (field info "permissions" (.obj []))
      let system ← asDict (field permissions "system" (.obj []))
      let system ← raising (effectiveSystemPermissions system)
      let users ← asDict (field permissions "users" (.obj []))
      let user := field users (toString uid) .null
      let permissions ← raising (userPermissions download user)
      let desktop ← raising (desktopLevel (field permissions "desktop" (.str "basic")))
      pure
        { network := levelOr standard.network networkLevels (field system "network" .null)
          kernelCapabilities := levelOr standard.kernelCapabilities kernelCapabilityLevels
            (field system "kernel_capabilities" .null)
          devices := levelOr standard.devices deviceLevels (field system "devices" .null)
          hostAuthentication :=
            boolOr standard.hostAuthentication (field system "host_authentication" .null)
          shortcuts := boolOr standard.shortcuts (field system "shortcuts" .null)
          selectedHome := homeOr standard.selectedHome (field permissions "home" .null)
          administrator :=
            boolOr standard.administrator (field permissions "administrator" .null)
          desktop
          credentialAgents := boolOr user.isObj (field permissions "credential_agents" .null)
          mountedDrives :=
            boolOr standard.mountedDrives (field permissions "mounted_drives" .null) }

/-- `int` of a key. -/
def Platform.uid (key : String) : Option Int := Text.int p.unicode key.toList

/-! ## What is promised, and when it is kept -/

/-- The levels that the readers find in a system section. -/
structure LevelsKnown (system : Members) : Prop where
  network : isLevel networkLevels (field system "network" .null) = true
  kernelCapabilities :
    isLevel kernelCapabilityLevels (field system "kernel_capabilities" (.str "basic")) = true
  devices : isLevel deviceLevels (field system "devices" (.str "basic")) = true

/-- The home mounts are distinct valid names, and the desktop level is known. -/
structure UserKnown (permissions : Members) : Prop where
  home : HomeOk permissions
  desktop : ∃ level ∈ desktopLevels,
    desktopLevel (field permissions "desktop" (.str "basic")) = .ok level

/-- What `download_folder` may answer. -/
def IsDownload (download : Option String) : Prop := ∀ name ∈ download, isHomeName name = true

structure Sound (info : Members) : Prop where
  system : ∃ effective,
    effectiveSystemPermissions (systemSection (.obj info)) = .ok effective ∧
      LevelsKnown effective
  users : ∀ entry ∈ userRecords (.obj info), ∀ download, IsDownload download →
    ∃ effective, effectiveUserPermissions download entry.2 = .ok effective ∧ UserKnown effective
  defaults : ∀ uid download, ∃ defaults, defaultsFromInfo download uid (some info) = .ok defaults
  uids : ∃ uids : List Nat, uids.Nodup ∧
    (userRecords (.obj info)).map (fun entry => p.uid entry.1) =
      uids.map fun n : Nat => some (n : Int)

structure Contained (content : List UInt8) : Prop where
  returns : ∃ info, p.loadInfo (some content) = .ok info
  sound : ∀ info, p.loadInfo (some content) = .ok (some info) → Sound p info

/-- The document that the bytes are. -/
def Reads (content : List UInt8) (value : Json) : Prop :=
  ∃ text, Text.decodeUtf8 content = some text ∧
    loads p.reader p.depth (Text.universalNewlines text) = .ok value

/-- A record of a known distribution whose one option is a list or an object. -/
def AsksUnhashable (value : Json) : Prop :=
  ∃ info distribution distroId driver optionKey, value = .obj info ∧
    isSchemaVersion (info.lookup "schema_version") = true ∧
    isSpaceName (field info "name" .null) = true ∧
    info.lookup "distribution" = some (.obj distribution) ∧
    field distribution "id" .null = .str distroId ∧
    getDriver p.machine distroId = some driver ∧
    driver.multipleOptions = false ∧ driver.optionKey = some optionKey ∧
    isHashable (field distribution optionKey .null) = false

/-- The values of the digits of a key, from the first that is not zero. -/
def Platform.significant (key : String) : Option (List Nat) :=
  (key.toList.mapM p.unicode.decimal).map (·.dropWhile (· == 0))

structure Regular (content : List UInt8) : Prop where
  utf8 : (Text.decodeUtf8 content).isSome = true
  limits : ∀ text failure, Text.decodeUtf8 content = some text →
    loads p.reader p.depth (Text.universalNewlines text) = .error failure → failure = .malformed
  hashable : ∀ value, Reads p content value → ¬ AsksUnhashable p value
  keys : ∀ info permissions system users, Reads p content (.obj info) →
    InfoOk p.host info permissions system users →
    ∀ a ∈ users, ∀ b ∈ users, a.1 ≠ b.1 → p.significant a.1 ≠ p.significant b.1

variable {p : Platform} {content : List UInt8} {value : Json}
  {info permissions system users : Members}

/-! ## What is raised -/

/-- An error that `load_info` does not catch. -/
def Escapes {α : Type} (x : Except Raised α) : Prop :=
  Outcome.Fails (fun raised => isCaught raised = false) x

theorem not_escapes_raising {α : Type} (x : Except SpacesError α) : ¬ Escapes (raising x) := by
  unfold Escapes raising
  rw [Outcome.fails_mapError]
  rintro ⟨error, -, hcaught⟩
  cases hcaught

theorem escapes_bind {α β : Type} {x : Except Raised α} {f : α → Except Raised β} :
    Escapes (x >>= f) ↔ Escapes x ∨ ∃ a, x = .ok a ∧ Escapes (f a) :=
  Outcome.fails_bind

theorem raising_eq_ok {α : Type} {x : Except SpacesError α} {a : α} :
    raising x = .ok a ↔ x = .ok a :=
  Outcome.mapError_eq_ok

theorem not_escapes_pure {α : Type} {a : α} : ¬ Escapes (pure a) := Outcome.not_fails_ok

theorem not_escapes_spacesError {α : Type} {error : SpacesError} :
    ¬ Escapes (.error (.spacesError error) : Except Raised α) :=
  not_escapes_raising (.error error)

theorem validate_escapes {driver : Distribution} {metadata : Members} :
    Escapes (driver.validate metadata) ↔
      isLevel [driver.id] (field metadata "id" .null) = true ∧ driver.multipleOptions = false ∧
        ∃ optionKey, driver.optionKey = some optionKey ∧
          isHashable (field metadata optionKey .null) = false := by
  unfold Distribution.validate
  split
  · next hid => exact iff_of_false not_escapes_spacesError (by simp [hid])
  · next hid =>
      have hid : isLevel [driver.id] (field metadata "id" .null) = true := by simpa using hid
      cases hkey : driver.optionKey with
      | none => exact iff_of_false Outcome.not_fails_ok (by simp)
      | some optionKey =>
          cases hmultiple : driver.multipleOptions with
          | true =>
              refine iff_of_false ?_ (by simp)
              dsimp only
              rw [if_pos rfl]
              split
              · exact not_escapes_raising _
              · exact not_escapes_spacesError
          | false =>
              dsimp only
              rw [if_neg Bool.false_ne_true]
              split
              · next hhash =>
                  exact iff_of_true ⟨_, rfl, rfl⟩ ⟨hid, rfl, optionKey, rfl, hhash⟩
              · next hhash =>
                  exact iff_of_false (not_escapes_raising _) (by simpa using fun _ => hhash)

theorem isLevel_eq_true {levels : List String} :
    isLevel levels value = true ↔ ∃ level ∈ levels, value = .str level := by
  cases value <;> simp [isLevel]

theorem getDriver_eq_some {machine distroId : String} {driver : Distribution}
    (h : getDriver machine distroId = some driver) :
    driver.id = distroId ∧ distroId ∈ (supportedDrivers machine).map (·.id) := by
  have hid : driver.id = distroId := by simpa using List.find?_some h
  exact ⟨hid, List.mem_map.mpr ⟨driver, List.mem_of_find?_eq_some h, hid⟩⟩

theorem validateDistribution_escapes {value : Option Json} :
    Escapes (p.validateDistribution value) ↔
      ∃ distribution distroId driver optionKey, value = some (.obj distribution) ∧
        field distribution "id" .null = .str distroId ∧
        getDriver p.machine distroId = some driver ∧
        driver.multipleOptions = false ∧ driver.optionKey = some optionKey ∧
        isHashable (field distribution optionKey .null) = false := by
  unfold Platform.validateDistribution
  simp only [escapes_bind, not_escapes_raising, not_escapes_pure, raising_eq_ok,
    requireMapping_eq_ok, check_eq_ok, false_or, and_false, exists_false, or_false]
  constructor
  · rintro ⟨distribution, hvalue, -, hknown, hdriver⟩
    obtain ⟨distroId, -, hid⟩ := isLevel_eq_true.mp hknown
    rw [hid] at hdriver
    cases hget : getDriver p.machine distroId with
    | none =>
        rw [getStr, Option.bind_some, hget] at hdriver
        exact absurd hdriver Outcome.not_fails_ok
    | some driver =>
        rw [getStr, Option.bind_some, hget] at hdriver
        obtain ⟨-, hone, optionKey, hkey, hhash⟩ := validate_escapes.mp hdriver
        exact ⟨distribution, distroId, driver, optionKey, hvalue, hid, hget, hone, hkey, hhash⟩
  · rintro ⟨distribution, distroId, driver, optionKey, hvalue, hid, hget, hone, hkey, hhash⟩
    obtain ⟨hdriver, hknown⟩ := getDriver_eq_some hget
    refine ⟨distribution, hvalue, (), isLevel_eq_true.mpr ⟨distroId, hknown, hid⟩, ?_⟩
    rw [hid, getStr, Option.bind_some, hget]
    have hsame : isLevel [driver.id] (field distribution "id" .null) = true :=
      isLevel_eq_true.mpr ⟨distroId, hdriver ▸ List.mem_singleton_self _, hid⟩
    exact validate_escapes.mpr ⟨hsame, hone, optionKey, hkey, hhash⟩

theorem validateInfo_escapes : Escapes (p.validateInfo value) ↔ AsksUnhashable p value := by
  unfold Platform.validateInfo AsksUnhashable
  simp only [escapes_bind, not_escapes_raising, not_escapes_pure, raising_eq_ok,
    requireMapping_eq_ok, check_eq_ok, validateDistribution_escapes, Option.some.injEq, false_or,
    and_false, exists_false, or_false]
  constructor
  · rintro ⟨info, hvalue, -, hschema, -, hname, distribution, distroId, driver, optionKey, hrest⟩
    exact ⟨info, distribution, distroId, driver, optionKey, hvalue, hschema, hname, hrest⟩
  · rintro ⟨info, distribution, distroId, driver, optionKey, hvalue, hschema, hname, hrest⟩
    exact ⟨info, hvalue, (), hschema, (), hname, distribution, distroId, driver, optionKey, hrest⟩

theorem loadInfo_eq_ok {file : Option (List UInt8)} :
    (∃ result, p.loadInfo file = .ok result) ↔ ¬ Escapes (p.readInfo file) := by
  unfold Platform.loadInfo
  cases hread : p.readInfo file with
  | ok info => exact iff_of_true ⟨_, rfl⟩ Outcome.not_fails_ok
  | error raised =>
      rw [Escapes, Outcome.fails_error]
      cases hcaught : isCaught raised with
      | true => exact iff_of_true ⟨none, by simp [hcaught]⟩ Bool.true_eq_false.mp
      | false => exact iff_of_false (by simp [hcaught]) (not_not_intro rfl)

theorem loadInfo_eq_some {file : Option (List UInt8)} :
    p.loadInfo file = .ok (some info) ↔ p.readInfo file = .ok info := by
  unfold Platform.loadInfo
  cases hread : p.readInfo file with
  | ok found => simp
  | error raised =>
      refine iff_of_false ?_ (by simp)
      dsimp only
      split
      · simp
      · simp

theorem host_validDistribution {value : Option Json} :
    p.host.validDistribution value = true ↔ ∃ found, p.validateDistribution value = .ok found := by
  show (p.validateDistribution value).isOk = true ↔ _
  cases p.validateDistribution value with
  | ok found => exact iff_of_true rfl ⟨found, rfl⟩
  | error raised => exact iff_of_false Bool.false_ne_true (by simp)

/-- The checks are those of the other readers. -/
theorem validateInfo_eq : p.validateInfo value = .ok info ↔
    Permissions.validateInfo p.host value = .ok info := by
  unfold Platform.validateInfo Permissions.validateInfo
  simp only [Outcome.bind_eq_ok, raising_eq_ok, check_eq_ok, host_validDistribution, pure,
    Except.pure, Except.ok.injEq]
  constructor
  · rintro ⟨found, hfound, -, hschema, -, hname, distribution, hdistribution, hrest⟩
    exact ⟨found, hfound, (), hschema, (), hname, (), ⟨distribution, hdistribution⟩, hrest⟩
  · rintro ⟨found, hfound, -, hschema, -, hname, -, ⟨distribution, hdistribution⟩, hrest⟩
    exact ⟨found, hfound, (), hschema, (), hname, distribution, hdistribution, hrest⟩

theorem readText_eq_ok {text : Text} : readText (some content) = .ok text ↔
    ∃ decoded, Text.decodeUtf8 content = some decoded ∧ Text.universalNewlines decoded = text := by
  cases hdecode : Text.decodeUtf8 content with
  | none => simp [readText, hdecode]
  | some decoded => simp [readText, hdecode]

theorem readInfo_eq_ok : p.readInfo (some content) = .ok info ↔
    Reads p content (.obj info) ∧ ∃ permissions system users,
      InfoOk p.host info permissions system users := by
  unfold Platform.readInfo Reads
  simp only [Outcome.bind_eq_ok, Outcome.mapError_eq_ok, validateInfo_eq, validateInfo_eq_ok,
    readText_eq_ok]
  constructor
  · rintro ⟨-, ⟨decoded, hdecoded, rfl⟩, value, hvalue, rfl, hok⟩
    exact ⟨⟨decoded, hdecoded, hvalue⟩, hok⟩
  · rintro ⟨⟨decoded, hdecoded, hvalue⟩, hok⟩
    exact ⟨_, ⟨decoded, hdecoded, rfl⟩, .obj info, hvalue, rfl, hok⟩

theorem isCaught_failed {failure : Failure} :
    isCaught (failed failure) = false ↔ failure ≠ .malformed := by
  cases failure <;> simp [failed, isCaught]

theorem readText_escapes :
    Escapes (readText (some content)) ↔ Text.decodeUtf8 content = none := by
  cases hdecode : Text.decodeUtf8 content with
  | none => exact iff_of_true ⟨.unicodeDecodeError, by simp [readText, hdecode], rfl⟩ rfl
  | some decoded =>
      have hok : readText (some content) = .ok (Text.universalNewlines decoded) :=
        readText_eq_ok.mpr ⟨decoded, hdecode, rfl⟩
      rw [hok]
      exact iff_of_false Outcome.not_fails_ok (by simp)

theorem readInfo_escapes : Escapes (p.readInfo (some content)) ↔
    Text.decodeUtf8 content = none ∨
      (∃ text failure, Text.decodeUtf8 content = some text ∧
        loads p.reader p.depth (Text.universalNewlines text) = .error failure ∧
          failure ≠ .malformed) ∨
      ∃ value, Reads p content value ∧ AsksUnhashable p value := by
  have hloads : ∀ text, Escapes ((loads p.reader p.depth text).mapError failed) ↔
      ∃ failure, loads p.reader p.depth text = .error failure ∧ failure ≠ .malformed := by
    intro text
    rw [Escapes, Outcome.fails_mapError]
    simp only [isCaught_failed, Outcome.Fails]
  unfold Platform.readInfo Reads
  simp only [escapes_bind, readText_escapes, readText_eq_ok, hloads, Outcome.mapError_eq_ok,
    validateInfo_escapes]
  constructor
  · rintro (hnone | ⟨-, ⟨text, htext, rfl⟩, ⟨failure, hfailure⟩ | ⟨value, hvalue, hasks⟩⟩)
    · exact .inl hnone
    · exact .inr (.inl ⟨text, failure, htext, hfailure⟩)
    · exact .inr (.inr ⟨value, ⟨text, htext, hvalue⟩, hasks⟩)
  · rintro (hnone | ⟨text, failure, htext, hfailure⟩ | ⟨value, ⟨text, htext, hvalue⟩, hasks⟩)
    · exact .inl hnone
    · exact .inr ⟨_, ⟨text, htext, rfl⟩, .inl ⟨failure, hfailure⟩⟩
    · exact .inr ⟨_, ⟨text, htext, rfl⟩, .inr ⟨value, hvalue, hasks⟩⟩

/-! ## What a record grants -/

variable {table : String → Members} {label : String} {download : Option String}

/-- A section whose preset is known grants what it has or what the preset has. -/
theorem effective_ok (h : PresetOk permissions) :
    ∃ granted, effective table label permissions = .ok granted ∧
      (granted = permissions ∨ granted = table "basic" ∨ granted = table "develop") := by
  obtain ⟨preset, hmem, hfield⟩ := h
  rw [effective_of_preset hfield hmem]
  simp only [presetNames, List.mem_cons, List.not_mem_nil, or_false] at hmem
  rcases hmem with rfl | rfl | rfl
  · exact ⟨_, rfl, .inr (.inl rfl)⟩
  · exact ⟨_, rfl, .inr (.inr rfl)⟩
  · exact ⟨_, rfl, .inl rfl⟩

theorem SystemOk.levelsKnown (h : SystemOk system) : LevelsKnown system :=
  ⟨h.network, h.kernelCapabilities, h.devices⟩

theorem effectiveSystem_known (h : SystemOk system) :
    ∃ granted, effectiveSystemPermissions system = .ok granted ∧ LevelsKnown granted := by
  obtain ⟨granted, hgranted, hsystem | hbasic | hdevelop⟩ := effective_ok h.preset
  · exact ⟨granted, hgranted, hsystem ▸ h.levelsKnown⟩
  · exact ⟨granted, hgranted, hbasic ▸ ⟨rfl, rfl, rfl⟩⟩
  · exact ⟨granted, hgranted, hdevelop ▸ ⟨rfl, rfl, rfl⟩⟩

theorem mapM_validateHomeName {names : List String} (h : ∀ name ∈ names, isHomeName name = true) :
    (names.map Json.str).mapM validateHomeName = .ok names := by
  induction names with
  | nil => rfl
  | cons name names ih =>
      obtain ⟨hname, hnames⟩ := List.forall_mem_cons.mp h
      rw [List.map_cons, List.mapM_cons, ih hnames, validateHomeName, if_pos hname]
      rfl

/-- A preset's home mounts are valid for every folder that may be its downloads. -/
theorem presetHome_valid (hdownload : IsDownload download) {names : List String}
    (h : ∀ name ∈ names, isHomeName name = true) :
    ∀ name ∈ presetHome download names, isHomeName name = true := by
  intro name hname
  obtain ⟨listed, hlisted, hfound⟩ := List.mem_filterMap.mp (List.mem_eraseDups.mp hname)
  split at hfound
  · exact hdownload name hfound
  · cases hfound
    exact h name hlisted

theorem presetUser_known (hdownload : IsDownload download) {preset : String}
    (h : ∀ name ∈ (presetNamed preset).home, isHomeName name = true)
    (hdesktop : field (presetNamed preset).user "desktop" (.str "basic") = .str "basic") :
    UserKnown (presetUserPermissions download preset) where
  home := ⟨_, _, rfl, mapM_validateHomeName (presetHome_valid hdownload h),
    Records.nodup_eraseDups _⟩
  desktop := by
    have hfield : field (presetUserPermissions download preset) "desktop" (.str "basic") =
        .str "basic" := hdesktop
    rw [hfield]
    exact ⟨"basic", by decide, rfl⟩

theorem desktopLevel_mem {level : String} (h : desktopLevel value = .ok level) :
    level ∈ desktopLevels := by
  have hlevel := desktopLevel_level h
  rw [desktopLevel] at hlevel
  split at hlevel
  · assumption
  · cases hlevel

theorem RecordOk.userKnown {record : Json} {members : Members}
    (h : RecordOk record members permissions) : UserKnown permissions where
  home := h.home
  desktop := by
    obtain ⟨level, hlevel⟩ := h.fields.desktop
    exact ⟨level, desktopLevel_mem hlevel, hlevel⟩

theorem effectiveUser_known {record : Json} {members : Members}
    (h : RecordOk record members permissions) (hdownload : IsDownload download) :
    ∃ granted, effectiveUserPermissions download record = .ok granted ∧ UserKnown granted := by
  have hbasic : ∀ name ∈ (presetNamed "basic").home, isHomeName name = true := by decide +kernel
  have hdevelop : ∀ name ∈ (presetNamed "develop").home, isHomeName name = true := by
    decide +kernel
  rw [h.effective_eq]
  obtain ⟨granted, hgranted, hcustom | hpreset | hpreset⟩ := effective_ok h.fields.preset
  · exact ⟨granted, hgranted, hcustom ▸ h.userKnown⟩
  · exact ⟨granted, hgranted, hpreset ▸ presetUser_known hdownload hbasic rfl⟩
  · exact ⟨granted, hgranted, hpreset ▸ presetUser_known hdownload hdevelop rfl⟩

theorem preset_desktop (download : Option String) :
    field (presetUserPermissions download "basic") "desktop" (.str "basic") = .str "basic" := rfl

/-- What is granted to any user has a desktop level. -/
theorem userPermissions_ok (h : ∀ entry ∈ users, ∃ members permissions,
      RecordOk entry.2 members permissions) (download : Option String) (key : String) :
    ∃ granted level, userPermissions download (field users key .null) = .ok granted ∧
      desktopLevel (field granted "desktop" (.str "basic")) = .ok level := by
  cases hlookup : users.lookup key with
  | none =>
      refine ⟨_, "basic", by rw [field, hlookup]; rfl, ?_⟩
      rw [preset_desktop]
      rfl
  | some record =>
      obtain ⟨members, permissions, hok⟩ := h _ (mem_of_lookup hlookup)
      have hfield : field users key .null = .obj members := by
        rw [field, hlookup, Option.getD_some]
        exact hok.record_eq
      have hgranted : ∃ granted level, effectiveUserPermissions download (.obj members) =
          .ok granted ∧ desktopLevel (field granted "desktop" (.str "basic")) = .ok level := by
        have heffective := hok.effective_eq download
        rw [hok.record_eq] at heffective
        rw [heffective]
        obtain ⟨granted, heq, hcustom | hpreset | hpreset⟩ := effective_ok hok.fields.preset
        · obtain ⟨level, hlevel⟩ := hok.fields.desktop
          exact ⟨granted, level, heq, hcustom ▸ hlevel⟩
        · exact ⟨granted, "basic", heq, hpreset ▸ rfl⟩
        · exact ⟨granted, "basic", heq, hpreset ▸ rfl⟩
      obtain ⟨granted, level, heq, hlevel⟩ := hgranted
      refine ⟨granted, level, ?_, hlevel⟩
      rw [hfield, userPermissions, if_pos (by rfl), heq]

theorem InfoOk.defaults_ok (h : InfoOk p.host info permissions system users) (uid : Nat)
    (download : Option String) :
    ∃ defaults, defaultsFromInfo download uid (some info) = .ok defaults := by
  have hpermissions : field info "permissions" (.obj []) = .obj permissions := by
    rw [field, h.permissionsAt, Option.getD_some]
  have hsystem : field permissions "system" (.obj []) = .obj system := by
    rw [field, h.systemAt, Option.getD_some]
  have husers : field permissions "users" (.obj []) = .obj users := by
    rw [field, h.usersAt, Option.getD_some]
  obtain ⟨granted, hgranted, -⟩ := effectiveSystem_known h.systemOk
  obtain ⟨user, level, huser, hlevel⟩ :=
    userPermissions_ok (fun _ => h.recordOk) download (toString uid)
  unfold defaultsFromInfo
  dsimp only
  split
  · exact ⟨_, rfl⟩
  · exact ⟨_, rfl⟩
  · next found _ heq =>
      cases heq
      simp only [hpermissions, hsystem, husers, asDict, hgranted, huser, hlevel, raising,
        Except.mapError, bind, Except.bind, pure, Except.pure]
      exact ⟨_, rfl⟩

/-! ## Users -/

theorem exists_digits {text : Text} (h : ∀ c ∈ text, (p.unicode.decimal c).isSome = true) :
    ∃ digits, text.mapM p.unicode.decimal = some digits ∧ ∀ d ∈ digits, d < 10 := by
  induction text with
  | nil => exact ⟨[], rfl, List.forall_mem_nil _⟩
  | cons c text ih =>
      obtain ⟨hc, htext⟩ := List.forall_mem_cons.mp h
      obtain ⟨digit, hdigit⟩ := Option.isSome_iff_exists.mp hc
      obtain ⟨digits, hdigits, hlt⟩ := ih htext
      refine ⟨digit :: digits, ?_, List.forall_mem_cons.mpr ⟨p.decimal_lt c digit hdigit, hlt⟩⟩
      rw [List.mapM_cons, hdigit, hdigits]
      rfl

/-- A key of decimal digits is read as their number. -/
theorem uid_of_isDecimal {key : String} (h : p.host.isDecimal key = true) :
    ∃ digits, (∀ d ∈ digits, d < 10) ∧ p.uid key = some (Text.positional digits : Int) ∧
      p.significant key = some (digits.dropWhile (· == 0)) := by
  simp only [Host.isDecimal, Bool.and_eq_true, Bool.not_eq_true', List.isEmpty_eq_false_iff,
    List.all_eq_true] at h
  obtain ⟨hne, hall⟩ := h
  obtain ⟨digits, hdigits, hlt⟩ := exists_digits (p := p) hall
  refine ⟨digits, hlt, ?_, by rw [Platform.significant, hdigits, Option.map_some]⟩
  exact Text.int_of_decimal p.unicode hne (fun c hc => p.decimal_plain c (hall c hc)) hdigits

theorem uid_eq_iff {a b : String} (ha : p.host.isDecimal a = true)
    (hb : p.host.isDecimal b = true) :
    p.uid a = p.uid b ↔ p.significant a = p.significant b := by
  obtain ⟨as, has, hauid, hasig⟩ := uid_of_isDecimal ha
  obtain ⟨bs, hbs, hbuid, hbsig⟩ := uid_of_isDecimal hb
  rw [hauid, hbuid, hasig, hbsig, Option.some_inj, Option.some_inj, Int.natCast_inj,
    Text.positional_eq_iff has hbs]

/-- Numbers for all of a list. -/
theorem exists_uids_iff {keys : List String} (h : ∀ key ∈ keys, p.host.isDecimal key = true) :
    (∃ uids : List Nat, uids.Nodup ∧ keys.map p.uid = uids.map fun n : Nat => some (n : Int)) ↔
      (keys.map p.uid).Nodup := by
  have hinj : Function.Injective fun n : Nat => some (n : Int) :=
    (Option.some_injective Int).comp Int.ofNat_injective
  have hexists : ∃ uids : List Nat, keys.map p.uid = uids.map fun n : Nat => some (n : Int) := by
    induction keys with
    | nil => exact ⟨[], rfl⟩
    | cons key keys ih =>
        obtain ⟨hkey, hkeys⟩ := List.forall_mem_cons.mp h
        obtain ⟨uids, huids⟩ := ih hkeys
        obtain ⟨digits, -, huid, -⟩ := uid_of_isDecimal hkey
        exact ⟨Text.positional digits :: uids, by rw [List.map_cons, List.map_cons, huid, huids]⟩
  constructor
  · rintro ⟨uids, hnodup, huids⟩
    rw [huids]
    exact hnodup.map hinj
  · intro hnodup
    obtain ⟨uids, huids⟩ := hexists
    exact ⟨uids, (huids ▸ hnodup).of_map _, huids⟩

/-! ## The whole -/

theorem lookup_distinct {members found : Members} {key : String} (h : Distinct (.obj members))
    (hlookup : members.lookup key = some (.obj found)) : Distinct (.obj found) :=
  h.members.2 _ (mem_of_lookup hlookup)

theorem InfoOk.sound_iff (h : InfoOk p.host info permissions system users)
    (hdistinct : Distinct (.obj info)) :
    Sound p info ↔
      ∀ a ∈ users, ∀ b ∈ users, a.1 ≠ b.1 → p.significant a.1 ≠ p.significant b.1 := by
  have hkeys : (users.map Prod.fst).Nodup :=
    (lookup_distinct (lookup_distinct hdistinct h.permissionsAt) h.usersAt).members.1
  have hdecimal : ∀ key ∈ users.map Prod.fst, p.host.isDecimal key = true := by
    intro key hkey
    obtain ⟨entry, hentry, rfl⟩ := List.mem_map.mp hkey
    exact (h.usersOk entry hentry).1
  have huids : (∃ uids : List Nat, uids.Nodup ∧
      users.map (fun entry => p.uid entry.1) = uids.map fun n : Nat => some (n : Int)) ↔
      ∀ a ∈ users, ∀ b ∈ users, a.1 ≠ b.1 → p.significant a.1 ≠ p.significant b.1 := by
    have hmap : users.map (fun entry => p.uid entry.1) = (users.map Prod.fst).map p.uid := by
      rw [List.map_map]
      rfl
    rw [hmap, exists_uids_iff hdecimal, List.nodup_map_iff_inj_on hkeys]
    simp only [List.forall_mem_map]
    refine forall₄_congr fun a ha b hb => ?_
    rw [uid_eq_iff (h.usersOk a ha).1 (h.usersOk b hb).1]
    exact not_imp_not.symm
  rw [← huids]
  constructor
  · intro hsound
    have huids := hsound.uids
    rw [h.userRecords_eq] at huids
    exact huids
  · intro huids
    refine ⟨?_, ?_, fun uid download => h.defaults_ok uid download, ?_⟩
    · rw [h.systemSection_eq]
      exact effectiveSystem_known h.systemOk
    · rw [h.userRecords_eq]
      intro entry hentry download hdownload
      obtain ⟨members, permissions, hrecord⟩ := h.recordOk hentry
      exact effectiveUser_known hrecord hdownload
    · rw [h.userRecords_eq]
      exact huids

theorem Reads.distinct (h : Reads p content value) : Distinct value := by
  obtain ⟨text, -, hloads⟩ := h
  exact loads_distinct hloads

/-- Nothing is raised, and what is answered is sound, for the regular contents. -/
theorem loadInfo_contained_iff (p : Platform) (content : List UInt8) :
    Contained p content ↔ Regular p content := by
  have hreturns : (∃ result, p.loadInfo (some content) = .ok result) ↔
      (Text.decodeUtf8 content).isSome = true ∧
        (∀ text failure, Text.decodeUtf8 content = some text →
          loads p.reader p.depth (Text.universalNewlines text) = .error failure →
            failure = .malformed) ∧
        ∀ value, Reads p content value → ¬ AsksUnhashable p value := by
    rw [loadInfo_eq_ok, readInfo_escapes, not_or, not_or, ← ne_eq, Option.ne_none_iff_isSome]
    simp only [not_exists, not_and, not_not, ne_eq]
  constructor
  · intro h
    obtain ⟨hutf8, hlimits, hhashable⟩ := hreturns.mp h.returns
    refine ⟨hutf8, hlimits, hhashable, fun info permissions system users hreads hok => ?_⟩
    have hread := readInfo_eq_ok.mpr ⟨hreads, permissions, system, users, hok⟩
    exact (hok.sound_iff hreads.distinct).mp (h.sound info (loadInfo_eq_some.mpr hread))
  · intro h
    refine ⟨hreturns.mpr ⟨h.utf8, h.limits, h.hashable⟩, fun info hinfo => ?_⟩
    obtain ⟨hreads, permissions, system, users, hok⟩ :=
      readInfo_eq_ok.mp (loadInfo_eq_some.mp hinfo)
    exact (hok.sound_iff hreads.distinct).mpr (h.keys info permissions system users hreads hok)

/-! ## Bytes that are no text -/

theorem isDigit_of_ascii {c : Char} (h : (Shortcuts.asciiUnicode.decimal c).isSome = true) :
    c.isDigit = true := by
  by_contra hdigit
  rw [Shortcuts.asciiUnicode] at h
  dsimp only at h
  rw [if_neg hdigit] at h
  cases h

theorem ascii_decimal_lt (c : Char) (n : Nat) (h : Shortcuts.asciiUnicode.decimal c = some n) :
    n < 10 := by
  have hdigit := isDigit_of_ascii (Option.isSome_of_eq_some h)
  rw [Shortcuts.asciiUnicode.decimal_ascii c hdigit, Option.some_inj] at h
  have hnine : c.toNat ≤ 57 := (Char.isDigit_iff_toNat.mp hdigit).2
  omega

theorem ascii_decimal_plain (c : Char) (h : (Shortcuts.asciiUnicode.decimal c).isSome = true) :
    Text.isSpace c = false ∧ c ≠ '_' ∧ c ≠ '+' ∧ c ≠ '-' :=
  Text.plain_of_isDigit (isDigit_of_ascii h)

def asciiPlatform : Platform where
  reader := ⟨fun _ => 0, fun _ => 0, 4300⟩
  depth := 1000
  machine := "x86_64"
  unicode := Shortcuts.asciiUnicode
  decimal_lt := ascii_decimal_lt
  decimal_plain := ascii_decimal_plain

theorem badBytes_not_contained : ¬ Contained asciiPlatform [0xff] := by
  intro h
  have hnone : Text.decodeUtf8 [0xff] = none := by decide +kernel
  exact loadInfo_eq_ok.mp h.returns (readInfo_escapes.mpr (.inl hnone))

/-! ## A patch without a preset -/

def storedBasic : Members :=
  [("schema_version", .uint 1), ("name", .str "box"),
    ("distribution", .obj [("id", .str "fedora"), ("version", .str "44")]),
    ("permissions", .obj [("system", .obj [("network", .str "basic")]),
      ("users", .obj [("1000", .obj [("gid", .uint 1000), ("permissions", .obj
        [("preset", .str "basic"), ("home", .arr [])])])])])]

/-- A patch that is to take the administrator's rights from the user. -/
def revoked : Members :=
  [("schema_version", .uint 1), ("name", .str "box"), ("permissions", .obj
    [("user", .obj [("uid", .uint 1000), ("gid", .uint 1000), ("permissions", .obj
      [("home", .arr []), ("administrator", .bool false)])])])]

theorem configure_reconfigures_iff_sample :
    ((∃ after, configure asciiPlatform.host revoked (.document (.obj storedBasic)) true (.ok ()) =
          (.ok (), .document after) ∧
        Reconfigured asciiPlatform.host (some "Downloads") revoked (.obj storedBasic) after) ↔
        Applies (some "Downloads") revoked (.obj storedBasic)) ∧
      ∀ request file writable, Rejected asciiPlatform.host request file →
        (configure asciiPlatform.host request file writable (.ok ())).2 = file :=
  @configure_reconfigures_iff asciiPlatform.host (some "Downloads") revoked revoked storedBasic
    false rfl rfl rfl rfl (.ok ())

/-- The preset that is stored goes on to grant them. -/
theorem revoked_without_effect :
    ¬∃ after, configure asciiPlatform.host revoked (.document (.obj storedBasic)) true (.ok ()) =
        (.ok (), .document after) ∧
      Reconfigured asciiPlatform.host (some "Downloads") revoked (.obj storedBasic) after := by
  rintro ⟨after, hafter, hreconfigured⟩
  have hcomputed : configure asciiPlatform.host revoked (.document (.obj storedBasic)) true
      (.ok ()) = (.ok (), .document (.obj
        [("schema_version", .uint 1), ("name", .str "box"),
          ("distribution", .obj [("id", .str "fedora"), ("version", .str "44")]),
          ("permissions", .obj [("system", .obj [("network", .str "basic")]),
            ("users", .obj [("1000", .obj [("gid", .uint 1000), ("permissions", .obj
              [("home", .arr []), ("administrator", .bool false), ("preset", .str "basic"),
                ("desktop", .str "basic")])])])])])) := rfl
  rw [hcomputed] at hafter
  cases hafter
  obtain ⟨record, hlookup, x, y, hx, hy, hsame⟩ := hreconfigured.user
  cases (show some _ = some record from hlookup)
  cases (show Except.ok (presetUserPermissions (some "Downloads") "basic") = .ok x from hx)
  cases (show Except.ok [("home", Json.arr []), ("administrator", .bool false)] = .ok y from hy)
  have hgranted := hsame "administrator" rfl
  cases (show some (Json.bool true) = some (.bool false) from hgranted)

end Spaces.Permissions
