import Spaces.Permissions.Configure

/-!
# When a patch takes effect

The merge of two valid records is valid, the write normalizes legacy grants and
changes no other, and the other users are left as they were. What the patched
sections grant afterwards is decided by the preset of the merged section: this is
the patch's own, unless it has none.
-/

namespace Spaces.Permissions

open Spaces.Library Json

/-! ## What is granted -/

/-- A user section grants a desktop level, however it is spelled. -/
def granted (permissions : Members) (key : String) : Option Json :=
  if key = "desktop" then
    match desktopLevel (field permissions "desktop" (.str "basic")) with
    | .ok level => some (.str level)
    | .error _ => none
  else permissions.lookup key

def carries (patch : Members) (key : String) : Prop := (patch.lookup key).isSome = true

/-- Two sections grant the same for these keys. -/
def SameGrants (read : Members → String → Option Json) (keys : String → Prop)
    (one other : Except SpacesError Members) : Prop :=
  ∃ x y, one = .ok x ∧ other = .ok y ∧ ∀ key, keys key → read x key = read y key

/-- The patch names a preset, or what is stored names none, or its preset grants what
the patch does. -/
def TakesEffect (read : Members → String → Option Json) (table : String → Members)
    (stored patch : Members) : Prop :=
  carries patch "preset" ∨ field stored "preset" (.str "custom") = .str "custom" ∨
    ∀ preset, field stored "preset" (.str "custom") = .str preset →
      ∀ key, carries patch key → read (table preset) key = read patch key

theorem effective_of_preset {table : String → Members} {label preset : String}
    {permissions : Members}
    (hfield : field permissions "preset" (.str "custom") = .str preset)
    (hmem : preset ∈ presetNames) :
    effective table label permissions =
      .ok (if preset = "custom" then permissions else table preset) := by
  rw [effective, validatePreset_eq_ok.mpr ⟨hfield, hmem⟩]
  rfl

theorem field_update_of_carries {stored patch : Members} {key : String} {default : Json}
    (h : carries patch key) :
    field (update stored patch) key default = field patch key default := by
  obtain ⟨value, hvalue⟩ := Option.isSome_iff_exists.mp h
  simp [field, lookup_update, hvalue]

theorem field_update_of_not_carries {stored patch : Members} {key : String} {default : Json}
    (h : ¬carries patch key) :
    field (update stored patch) key default = field stored key default := by
  have hnone : patch.lookup key = none := Option.not_isSome_iff_eq_none.mp h
  simp [field, lookup_update, hnone]

theorem granted_update {stored patch : Members} {key : String} (h : carries patch key) :
    granted (update stored patch) key = granted patch key := by
  unfold granted
  split
  · next heq =>
      subst heq
      rw [field_update_of_carries h]
  · obtain ⟨value, hvalue⟩ := Option.isSome_iff_exists.mp h
    simp [lookup_update, hvalue]

/-- A merged section grants what the patch grants exactly when the patch takes
effect. -/
theorem sameGrants_update_iff {read : Members → String → Option Json}
    {table : String → Members} (label : String) {stored patch : Members}
    (hread : ∀ key, carries patch key → read (update stored patch) key = read patch key)
    (hstored : PresetOk stored) (hpatch : PresetOk patch) :
    SameGrants read (carries patch) (effective table label (update stored patch))
        (effective table label patch) ↔ TakesEffect read table stored patch := by
  obtain ⟨storedPreset, hsmem, hsfield⟩ := hstored
  obtain ⟨patchPreset, hpmem, hpfield⟩ := hpatch
  by_cases hcarries : carries patch "preset"
  · refine iff_of_true ?_ (.inl hcarries)
    rw [effective_of_preset ((field_update_of_carries hcarries).trans hpfield) hpmem,
      effective_of_preset hpfield hpmem]
    refine ⟨_, _, rfl, rfl, fun key hkey => ?_⟩
    split
    · exact hread key hkey
    · rfl
  · have hcustom : field patch "preset" (.str "custom") = .str "custom" := by
      have hnone : patch.lookup "preset" = none := Option.not_isSome_iff_eq_none.mp hcarries
      simp [field, hnone]
    rw [effective_of_preset ((field_update_of_not_carries hcarries).trans hsfield) hsmem,
      effective_of_preset hcustom (by decide), if_pos rfl]
    by_cases heq : storedPreset = "custom"
    · subst heq
      refine iff_of_true ⟨_, _, rfl, rfl, fun key hkey => ?_⟩ (.inr (.inl hsfield))
      rw [if_pos rfl]
      exact hread key hkey
    · rw [if_neg heq]
      constructor
      · rintro ⟨x, y, hx, hy, hsame⟩
        cases hx
        cases hy
        refine .inr (.inr fun preset hpreset key hkey => ?_)
        obtain rfl : storedPreset = preset := by
          rw [hsfield] at hpreset
          injection hpreset
        exact hsame key hkey
      · rintro (hcarry | hstored | hsame)
        · exact absurd hcarry hcarries
        · rw [hsfield] at hstored
          injection hstored with hstored
          exact absurd hstored heq
        · exact ⟨_, _, rfl, rfl, hsame storedPreset hsfield⟩

/-! ## Normalization -/

theorem desktopLevel_level {value : Json} {level : String} (h : desktopLevel value = .ok level) :
    desktopLevel (.str level) = .ok level := by
  unfold desktopLevel at h
  split at h
  · next b =>
      cases h
      cases b <;> rfl
  · split at h
    · next hmem =>
        cases h
        rw [desktopLevel, if_pos hmem]
    · cases h
  · cases h

/-- The parts of a valid user record. -/
structure RecordOk (record : Json) (members permissions : Members) : Prop where
  record_eq : record = .obj members
  gid : isGid (members.lookup "gid") = true
  permissionsAt : members.lookup "permissions" = some (.obj permissions)
  fields : UserFieldsOk permissions
  home : HomeOk permissions

theorem RecordOk.iff {record : Json} {key : String} :
    (∃ members, validateUserRecord (some record) key = .ok members) ↔
      ∃ members permissions, RecordOk record members permissions := by
  simp only [validateUserRecord_eq_ok, Option.some.injEq]
  constructor
  · rintro ⟨members, hrecord, hgid, permissions, hpermissions, hfields, hhome⟩
    exact ⟨members, permissions, hrecord, hgid, hpermissions, hfields, hhome⟩
  · rintro ⟨members, permissions, h⟩
    exact ⟨members, h.record_eq, h.gid, permissions, h.permissionsAt, h.fields, h.home⟩

theorem field_putMember_ne {key other : String} (h : other ≠ key) (value default : Json)
    (members : Members) : field (putMember key value members) other default =
      field members other default := by
  rw [field, lookup_putMember_ne h, field]

theorem field_putMember_self (key : String) (value default : Json) (members : Members) :
    field (putMember key value members) key default = value := by
  rw [field, lookup_putMember_self, Option.getD_some]

/-- A valid record is written with its desktop level as a word, and is valid then. -/
theorem RecordOk.normalized {record : Json} {members permissions : Members}
    (h : RecordOk record members permissions) :
    ∃ level, desktopLevel (field permissions "desktop" (.str "basic")) = .ok level ∧
      ∃ written, normalizedRecord record = .ok written ∧
        RecordOk written
          (putMember "permissions" (.obj (putMember "desktop" (.str level) permissions)) members)
          (putMember "desktop" (.str level) permissions) := by
  obtain ⟨level, hlevel⟩ := h.fields.desktop
  refine ⟨level, hlevel, _, ?_, rfl, ?_, lookup_putMember_self .., ?_, ?_⟩
  · rw [normalizedRecord, h.record_eq]
    simp only [Json.get, h.permissionsAt, object, hlevel]
    rfl
  · rw [lookup_putMember_ne (by decide)]
    exact h.gid
  · constructor
    · obtain ⟨preset, hmem, hfield⟩ := h.fields.preset
      exact ⟨preset, hmem, by rw [field_putMember_ne (by decide), hfield]⟩
    · rw [field_putMember_ne (by decide)]
      exact h.fields.administrator
    · rw [field_putMember_self]
      exact ⟨level, desktopLevel_level hlevel⟩
    · rw [field_putMember_ne (by decide)]
      exact h.fields.mountedDrives
    · rw [field_putMember_ne (by decide)]
      exact h.fields.credentialAgents
  · obtain ⟨home, validated, hhome, hrest⟩ := h.home
    exact ⟨home, validated, by rw [lookup_putMember_ne (by decide), hhome], hrest⟩

theorem granted_putMember {permissions : Members} {level : String}
    (h : desktopLevel (field permissions "desktop" (.str "basic")) = .ok level) (key : String) :
    granted (putMember "desktop" (.str level) permissions) key = granted permissions key := by
  unfold granted
  split
  · rw [field_putMember_self, desktopLevel_level h, h]
  · next hne => rw [lookup_putMember_ne hne]

theorem RecordOk.effective_eq {record : Json} {members permissions : Members}
    (h : RecordOk record members permissions) (download : Option String) :
    effectiveUserPermissions download record =
      effective (presetUserPermissions download) "user permission" permissions := by
  rw [effectiveUserPermissions, h.record_eq]
  simp only [Json.get, h.permissionsAt, Option.getD_some]

/-- What is written of a record grants what the record does. -/
theorem effective_normalized (table : String → Members) (label : String) {level : String}
    {permissions : Members} (hpreset : PresetOk permissions)
    (hlevel : desktopLevel (field permissions "desktop" (.str "basic")) = .ok level) :
    ∃ x y, effective table label (putMember "desktop" (.str level) permissions) = .ok x ∧
      effective table label permissions = .ok y ∧ ∀ key, granted x key = granted y key := by
  obtain ⟨preset, hmem, hfield⟩ := hpreset
  have hfield' : field (putMember "desktop" (.str level) permissions) "preset" (.str "custom") =
      .str preset := by rw [field_putMember_ne (by decide), hfield]
  refine ⟨_, _, effective_of_preset hfield' hmem, effective_of_preset hfield hmem, fun key => ?_⟩
  split
  · exact granted_putMember hlevel key
  · rfl

theorem normalizedUsers_ok {users : Members}
    (h : ∀ entry ∈ users, ∃ members permissions, RecordOk entry.2 members permissions) :
    ∃ written, normalizedUsers users = .ok written ∧
      (∀ entry ∈ written, ∃ record, (entry.1, record) ∈ users ∧
        normalizedRecord record = .ok entry.2) ∧
      (written = [] → users = []) ∧
      ∀ key, match users.lookup key with
        | none => written.lookup key = none
        | some record =>
            ∃ new, normalizedRecord record = .ok new ∧ written.lookup key = some new := by
  induction users with
  | nil => exact ⟨[], rfl, by simp, by simp, by simp⟩
  | cons entry users ih =>
      obtain ⟨key, record⟩ := entry
      obtain ⟨written, hwritten, hmem, -, hlookup⟩ := ih fun e he => h e (List.mem_cons_of_mem _ he)
      obtain ⟨members, permissions, hok⟩ := h (key, record) List.mem_cons_self
      obtain ⟨-, -, new, hnew, -⟩ := hok.normalized
      refine ⟨(key, new) :: written, ?_, ?_, by simp, ?_⟩
      · simp only [normalizedUsers, hnew, hwritten]
        rfl
      · intro e he
        rcases List.mem_cons.mp he with rfl | he
        · exact ⟨record, List.mem_cons_self, hnew⟩
        · obtain ⟨r, hr, hr'⟩ := hmem e he
          exact ⟨r, List.mem_cons_of_mem _ hr, hr'⟩
      · intro other
        by_cases hother : other = key
        · subst hother
          simp [hnew]
        · have hne : (other == key) = false := by simpa using hother
          simpa [List.lookup_cons, hne] using hlookup other

/-! ## The document -/

def systemSection (info : Json) : Members :=
  object (((info.get "permissions").getD (.obj [])).get "system")

def userRecords (info : Json) : Members :=
  object (((info.get "permissions").getD (.obj [])).get "users")

def patchUser (patch : Members) : Members :=
  object ((object (patch.lookup "permissions")).lookup "user")

def patchSystem (patch : Members) : Option Json :=
  (object (patch.lookup "permissions")).lookup "system"

/-- The permissions that are stored for the user of a patch. -/
def storedUser (users user : Members) : Members :=
  object (((users.lookup (uidKey user)).getD (.obj [])).get "permissions")

section

variable {host : Host} {info permissions system users : Members}

theorem InfoOk.withPermissions (h : InfoOk host info permissions system users)
    {system' users' : Members} (hsystem : SystemOk system') (hne : users' ≠ [])
    (husers : ∀ entry ∈ users', host.isDecimal entry.1 = true ∧
      ∃ record, validateUserRecord (some entry.2) entry.1 = .ok record) :
    InfoOk host (withPermissions info permissions system' users')
      (putMember "users" (.obj users') (putMember "system" (.obj system') permissions))
      system' users' where
  schema := by
    rw [Permissions.withPermissions, lookup_putMember_ne (by decide)]
    exact h.schema
  name := by
    rw [Permissions.withPermissions, field_putMember_ne (by decide)]
    exact h.name
  distribution := by
    rw [Permissions.withPermissions, lookup_putMember_ne (by decide)]
    exact h.distribution
  permissionsAt := lookup_putMember_self ..
  systemAt := by rw [lookup_putMember_ne (by decide), lookup_putMember_self]
  systemOk := hsystem
  usersAt := lookup_putMember_self ..
  nonempty := hne
  usersOk := husers

theorem InfoOk.systemSection_eq (h : InfoOk host info permissions system users) :
    systemSection (.obj info) = system := by
  simp only [systemSection, Json.get, h.permissionsAt, Option.getD_some, h.systemAt, object]

theorem InfoOk.userRecords_eq (h : InfoOk host info permissions system users) :
    userRecords (.obj info) = users := by
  simp only [userRecords, Json.get, h.permissionsAt, Option.getD_some, h.usersAt, object]

theorem InfoOk.recordOk (h : InfoOk host info permissions system users) {entry : String × Json}
    (hentry : entry ∈ users) : ∃ members permissions, RecordOk entry.2 members permissions :=
  RecordOk.iff.mp (h.usersOk entry hentry).2

/-- What is stored for a user has valid fields, also when nothing is. -/
theorem InfoOk.storedUser_ok (h : InfoOk host info permissions system users) (user : Members) :
    UserFieldsOk (storedUser users user) := by
  unfold storedUser
  cases hlookup : users.lookup (uidKey user) with
  | none => exact userFieldsOk_nil
  | some record =>
      obtain ⟨members, found, hok⟩ := h.recordOk (mem_of_lookup hlookup)
      have hrecord : record = .obj members := hok.record_eq
      simp only [Option.getD_some, hrecord, Json.get, hok.permissionsAt, object]
      exact hok.fields

/-- What a valid record is written as: its users are normalized, and it is valid again. -/
theorem InfoOk.written (h : InfoOk host info permissions system users) :
    ∃ written, writtenInfo info = .ok (.obj (Permissions.withPermissions info permissions system
        written)) ∧
      InfoOk host (Permissions.withPermissions info permissions system written)
        (putMember "users" (.obj written) (putMember "system" (.obj system) permissions))
        system written ∧
      ∀ key, match users.lookup key with
        | none => written.lookup key = none
        | some record =>
            ∃ new, normalizedRecord record = .ok new ∧ written.lookup key = some new := by
  obtain ⟨written, hwritten, hmem, hnil, hlookup⟩ := normalizedUsers_ok
    fun entry hentry => h.recordOk hentry
  have hwrittenUsers : ∀ entry ∈ written, host.isDecimal entry.1 = true ∧
      ∃ record, validateUserRecord (some entry.2) entry.1 = .ok record := by
    intro entry hentry
    obtain ⟨record, hrecord, hnormalized⟩ := hmem entry hentry
    obtain ⟨members, found, hok⟩ := h.recordOk hrecord
    obtain ⟨level, -, new, hnew, hnewOk⟩ := hok.normalized
    have heq : new = entry.2 := by
      rw [hnew] at hnormalized
      injection hnormalized
    exact ⟨(h.usersOk _ hrecord).1, RecordOk.iff.mpr ⟨_, _, heq ▸ hnewOk⟩⟩
  refine ⟨written, ?_, h.withPermissions h.systemOk (fun hnone => h.nonempty (hnil hnone))
    hwrittenUsers, hlookup⟩
  rw [writtenInfo]
  simp only [h.permissionsAt, object, h.systemAt, h.usersAt, hwritten]
  rfl

theorem Host.isDecimal_toString (host : Host) (n : Nat) : host.isDecimal (toString n) = true := by
  have hlist : (toString n).toList = Nat.toDigits 10 n := by
    rw [Nat.toString_eq_ofList_toDigits, String.toList_ofList]
  unfold Host.isDecimal
  rw [hlist, Bool.and_eq_true, List.all_eq_true]
  refine ⟨?_, fun c hc => host.isdecimal_digit c ?_⟩
  · simp
  · exact Nat.isDigit_of_mem_toDigits (by omega) (by omega) hc

end

/-- The permissions of the user section of a patch that is accepted. -/
theorem PatchOk.recordOk {patch permissions user : Members} {uid : Nat}
    (h : PatchOk patch permissions user uid) :
    RecordOk (patchRecord user)
        [("gid", field user "gid" .null), ("permissions", field user "permissions" .null)]
        (object (user.lookup "permissions")) := by
  obtain ⟨members, found, hok⟩ := RecordOk.iff.mp ⟨_, h.record⟩
  have heq := hok.record_eq
  rw [patchRecord, Json.obj.injEq] at heq
  subst heq
  have hpermissions := hok.permissionsAt
  simp only [List.lookup_cons, List.lookup_nil, field] at hpermissions
  cases hlookup : user.lookup "permissions" with
  | none => simp [hlookup] at hpermissions
  | some value =>
      obtain rfl : value = .obj found := by simpa [hlookup] using hpermissions
      exact hok

theorem PatchOk.uidKey_eq {patch permissions user : Members} {uid : Nat}
    (h : PatchOk patch permissions user uid) : uidKey user = toString uid := by
  rw [uidKey, h.uidAt]

theorem mergedSystem_ok {patch permissions user system : Members} {uid : Nat}
    (h : PatchOk patch permissions user uid) (hsystem : SystemOk system) :
    SystemOk (mergedSystem system permissions) := by
  unfold mergedSystem
  split
  · next changes hchanges =>
      obtain ⟨found, heq, hok⟩ := h.systemAt _ hchanges
      obtain rfl : changes = found := by simpa using heq
      exact hsystem.update hok
  · exact hsystem

theorem mergedUser_ok {host : Host} {info infoPermissions system users : Members}
    {patch permissions user : Members} {uid : Nat}
    (hinfo : InfoOk host info infoPermissions system users)
    (h : PatchOk patch permissions user uid) :
    RecordOk (mergedUser users user)
      [("gid", field user "gid" .null),
        ("permissions", .obj (update (storedUser users user)
          (object (user.lookup "permissions"))))]
      (update (storedUser users user) (object (user.lookup "permissions"))) where
  record_eq := rfl
  gid := h.recordOk.gid
  permissionsAt := rfl
  fields := (hinfo.storedUser_ok user).update h.recordOk.fields
  home := h.recordOk.home.update _

/-! ## The whole of a request -/

/-- What a patch is to bring about, and what it is to leave. -/
structure Reconfigured (host : Host) (download : Option String) (patch : Members)
    (stored after : Json) : Prop where
  valid : ∃ info, validateInfo host after = .ok info
  user : ∃ record, (userRecords after).lookup (uidKey (patchUser patch)) = some record ∧
    SameGrants granted (carries (object ((patchUser patch).lookup "permissions")))
      (effectiveUserPermissions download record)
      (effectiveUserPermissions download (patchRecord (patchUser patch)))
  system : ∀ changes, patchSystem patch = some (.obj changes) →
    SameGrants (fun system key => system.lookup key) (carries changes)
      (effectiveSystemPermissions (systemSection after)) (effectiveSystemPermissions changes)
  otherSystem : patchSystem patch = none → systemSection after = systemSection stored
  otherUsers : ∀ key, key ≠ uidKey (patchUser patch) →
    match (userRecords stored).lookup key with
    | none => (userRecords after).lookup key = none
    | some record => ∃ new, (userRecords after).lookup key = some new ∧
        SameGrants granted (fun _ => True) (effectiveUserPermissions download new)
          (effectiveUserPermissions download record)

/-- Each section of the patch names a preset, or what is stored for it names none, or
its preset grants what the patch does. -/
structure Applies (download : Option String) (patch : Members) (stored : Json) : Prop where
  user : TakesEffect granted (presetUserPermissions download)
    (storedUser (userRecords stored) (patchUser patch))
    (object ((patchUser patch).lookup "permissions"))
  system : ∀ changes, patchSystem patch = some (.obj changes) →
    TakesEffect (fun system key => system.lookup key) (fun preset => (presetNamed preset).system)
      (systemSection stored) changes

/-- A validation of the request fails. -/
def Rejected (host : Host) (request : Members) (file : InfoFile) : Prop :=
  ∀ enable patch accepted value info, requestedEnable request = .ok (enable, patch) →
    validateConfigurePatch (.obj patch) = .ok accepted → readInfo file = .ok value →
      validateInfo host value = .ok info → ∀ new,
        validateInfo host (.obj (merged (object (accepted.lookup "permissions")) info)) ≠ .ok new

/-- The document that is made of a valid one by a patch that is accepted. -/
theorem newDocument_eq {host : Host} {request patch permissions user : Members} {enable : Bool}
    {uid : Nat} {info infoPermissions system users : Members}
    (hrequest : requestedEnable request = .ok (enable, patch))
    (haccepted : validateConfigurePatch (.obj patch) = .ok patch)
    (hpatch : PatchOk patch permissions user uid)
    (hvalid : validateInfo host (.obj info) = .ok info)
    (hinfo : InfoOk host info infoPermissions system users)
    (hname : sameName (field info "name" .null) (field patch "name" .null) = true) :
    ∃ after afterPermissions written,
      newDocument host request (.document (.obj info)) = .ok (.obj after) ∧
        InfoOk host after afterPermissions (mergedSystem system permissions) written ∧
        (∃ record, normalizedRecord (mergedUser users user) = .ok record ∧
          written.lookup (uidKey user) = some record) ∧
        ∀ key, key ≠ uidKey user →
          match users.lookup key with
          | none => written.lookup key = none
          | some record =>
              ∃ new, normalizedRecord record = .ok new ∧ written.lookup key = some new := by
  have hmergedOk := mergedUser_ok hinfo hpatch
  have hmergedUsers : ∀ entry ∈ putMember (uidKey user) (mergedUser users user) users,
      host.isDecimal entry.1 = true ∧
        ∃ record, validateUserRecord (some entry.2) entry.1 = .ok record := by
    intro entry hentry
    rcases mem_putMember hentry with rfl | ⟨hold, -⟩
    · refine ⟨?_, RecordOk.iff.mpr ⟨_, _, hmergedOk⟩⟩
      rw [hpatch.uidKey_eq]
      exact host.isDecimal_toString uid
    · exact hinfo.usersOk entry hold
  have hne : putMember (uidKey user) (mergedUser users user) users ≠ [] := by
    intro hnil
    have := lookup_putMember_self (uidKey user) (mergedUser users user) users
    rw [hnil] at this
    cases this
  have hmerged := hinfo.withPermissions (mergedSystem_ok hpatch hinfo.systemOk) hne hmergedUsers
  obtain ⟨written, hwritten, hafter, hlookup⟩ := hmerged.written
  have hmergedEq : merged permissions info = withPermissions info infoPermissions
      (mergedSystem system permissions)
      (putMember (uidKey user) (mergedUser users user) users) := by
    simp only [merged, hinfo.permissionsAt, object, hinfo.systemAt, hinfo.usersAt, hpatch.userAt]
  refine ⟨_, _, written, ?_, hafter, ?_, ?_⟩
  · have hmergedValid : validateInfo host (.obj (merged permissions info)) =
        .ok (merged permissions info) :=
      validateInfo_eq_ok.mpr ⟨rfl, _, _, _, hmergedEq ▸ hmerged⟩
    have hpermissions : object (patch.lookup "permissions") = permissions := by
      rw [hpatch.permissionsAt, object]
    unfold newDocument
    rw [hrequest]
    simp only [Outcome.bind_eq_ok]
    refine ⟨_, rfl, patch, haccepted, _, rfl, info, hvalid, (), check_eq_ok.mpr hname,
      merged permissions info, by rw [hpermissions]; exact hmergedValid, ?_⟩
    rw [hmergedEq]
    exact hwritten
  · have := hlookup (uidKey user)
    rw [lookup_putMember_self] at this
    exact this
  · intro key hkey
    have := hlookup key
    rw [lookup_putMember_ne hkey] at this
    exact this

/-- A rejected request leaves the file as it is, and so does a write that fails. -/
theorem configure_of_rejected {host : Host} {request : Members} {file : InfoFile}
    (h : Rejected host request file) (writable : Bool) (later : Except SpacesError Unit) :
    (configure host request file writable later).2 = file := by
  unfold configure
  cases hnew : newDocument host request file with
  | error error => rfl
  | ok document =>
      unfold newDocument at hnew
      simp only [Outcome.bind_eq_ok] at hnew
      obtain ⟨⟨enable, patch⟩, hrequest, accepted, haccepted, value, hvalue, info, hinfo, -, -,
        new, hvalid, -⟩ := hnew
      exact absurd hvalid (h enable patch accepted value info hrequest haccepted hvalue hinfo new)

/-- Normalizing a record changes nothing that it grants. -/
theorem RecordOk.effective_normalized {record new : Json} {members permissions : Members}
    (h : RecordOk record members permissions) (download : Option String)
    (hnew : normalizedRecord record = .ok new) :
    ∃ x y, effectiveUserPermissions download new = .ok x ∧
      effectiveUserPermissions download record = .ok y ∧ ∀ key, granted x key = granted y key := by
  obtain ⟨level, hlevel, new', hnew', hnewOk⟩ := h.normalized
  obtain rfl : new' = new := by
    rw [hnew'] at hnew
    injection hnew
  obtain ⟨x, y, hx, hy, hsame⟩ := Permissions.effective_normalized
    (presetUserPermissions download) "user permission" h.fields.preset hlevel
  exact ⟨x, y, (hnewOk.effective_eq download).trans hx, (h.effective_eq download).trans hy, hsame⟩

section

variable {host : Host} {info infoPermissions system users patch permissions user : Members}
  {uid : Nat}

/-- What the user's record grants once the patch is stored. -/
theorem userSection_iff (hinfo : InfoOk host info infoPermissions system users)
    (hpatch : PatchOk patch permissions user uid) (download : Option String) {record : Json}
    (hrecord : normalizedRecord (mergedUser users user) = .ok record) :
    SameGrants granted (carries (object (user.lookup "permissions")))
        (effectiveUserPermissions download record)
        (effectiveUserPermissions download (patchRecord user)) ↔
      TakesEffect granted (presetUserPermissions download) (storedUser users user)
        (object (user.lookup "permissions")) := by
  have hmergedOk := mergedUser_ok hinfo hpatch
  obtain ⟨x, y, hx, hy, hsame⟩ := hmergedOk.effective_normalized download hrecord
  rw [← sameGrants_update_iff "user permission" (fun key => granted_update)
    (hinfo.storedUser_ok user).preset hpatch.recordOk.fields.preset,
    ← hmergedOk.effective_eq, hpatch.recordOk.effective_eq, hx, hy]
  constructor
  · rintro ⟨a, b, ha, hb, hgrants⟩
    cases ha
    exact ⟨y, b, rfl, hb, fun key hkey => (hsame key).symm.trans (hgrants key hkey)⟩
  · rintro ⟨a, b, ha, hb, hgrants⟩
    cases ha
    exact ⟨x, b, rfl, hb, fun key hkey => (hsame key).trans (hgrants key hkey)⟩

/-- What the system section grants once the patch is stored. -/
theorem systemSection_iff (hinfo : InfoOk host info infoPermissions system users)
    (hpatch : PatchOk patch permissions user uid) {changes : Members}
    (hchanges : permissions.lookup "system" = some (.obj changes)) :
    SameGrants (fun system key => system.lookup key) (carries changes)
        (effectiveSystemPermissions (mergedSystem system permissions))
        (effectiveSystemPermissions changes) ↔
      TakesEffect (fun system key => system.lookup key)
        (fun preset => (presetNamed preset).system) system changes := by
  obtain ⟨found, heq, hok⟩ := hpatch.systemAt _ hchanges
  obtain rfl : changes = found := by simpa using heq
  have hmerged : mergedSystem system permissions = update system changes := by
    simp only [mergedSystem, hchanges]
  rw [hmerged]
  refine sameGrants_update_iff _ (fun key hkey => ?_) hinfo.systemOk.preset hok.preset
  obtain ⟨value, hvalue⟩ := Option.isSome_iff_exists.mp hkey
  simp [lookup_update, hvalue]

end

/-- An accepted patch of a valid record does what it says exactly when it applies. A
request that fails a validation leaves the file unchanged. -/
theorem configure_reconfigures_iff {host : Host} (download : Option String)
    {request patch info : Members} {enable : Bool}
    (hrequest : requestedEnable request = .ok (enable, patch))
    (haccepted : validateConfigurePatch (.obj patch) = .ok patch)
    (hvalid : validateInfo host (.obj info) = .ok info)
    (hname : sameName (field info "name" .null) (field patch "name" .null) = true)
    (later : Except SpacesError Unit) :
    ((∃ after, configure host request (.document (.obj info)) true later =
          (later, .document after) ∧ Reconfigured host download patch (.obj info) after) ↔
        Applies download patch (.obj info)) ∧
      ∀ request file writable, Rejected host request file →
        (configure host request file writable later).2 = file := by
  refine ⟨?_, fun request file writable hrejected => configure_of_rejected hrejected writable later⟩
  obtain ⟨-, permissions, user, uid, hpatch⟩ := PatchOk.of_validate haccepted
  obtain ⟨-, infoPermissions, system, users, hinfo⟩ := validateInfo_eq_ok.mp hvalid
  obtain ⟨after, afterPermissions, written, hnew, hafter, ⟨record, hrecord, hlookup⟩, hothers⟩ :=
    newDocument_eq hrequest haccepted hpatch hvalid hinfo hname
  have hconfigure : configure host request (.document (.obj info)) true later =
      (later, .document (.obj after)) := by
    rw [configure, hnew]
    rfl
  have huser : patchUser patch = user := by
    simp only [patchUser, hpatch.permissionsAt, object, hpatch.userAt]
  have hsystem : patchSystem patch = permissions.lookup "system" := by
    simp only [patchSystem, hpatch.permissionsAt, object]
  -- What the two sections grant afterwards.
  have huserIff := userSection_iff hinfo hpatch download hrecord
  constructor
  · rintro ⟨found, hfound, hreconfigured⟩
    rw [hconfigure] at hfound
    cases hfound
    constructor
    · obtain ⟨other, hother, hgrants⟩ := hreconfigured.user
      rw [hafter.userRecords_eq, huser, hlookup] at hother
      cases hother
      rw [huser] at hgrants
      rw [hinfo.userRecords_eq, huser]
      exact huserIff.mp hgrants
    · intro changes hchanges
      have hgrants := hreconfigured.system changes hchanges
      rw [hafter.systemSection_eq] at hgrants
      rw [hinfo.systemSection_eq]
      exact (systemSection_iff hinfo hpatch (hsystem ▸ hchanges)).mp hgrants
  · intro happlies
    refine ⟨.obj after, hconfigure, ?_⟩
    constructor
    · exact ⟨after, validateInfo_eq_ok.mpr ⟨rfl, _, _, _, hafter⟩⟩
    · refine ⟨record, ?_, ?_⟩
      · rw [hafter.userRecords_eq, huser, hlookup]
      · have huserApplies := happlies.user
        rw [hinfo.userRecords_eq, huser] at huserApplies
        rw [huser]
        exact huserIff.mpr huserApplies
    · intro changes hchanges
      have hsystemApplies := happlies.system changes hchanges
      rw [hinfo.systemSection_eq] at hsystemApplies
      rw [hafter.systemSection_eq]
      exact (systemSection_iff hinfo hpatch (hsystem ▸ hchanges)).mpr hsystemApplies
    · intro hnone
      rw [hafter.systemSection_eq, hinfo.systemSection_eq]
      simp only [mergedSystem, hsystem ▸ hnone]
    · intro key hkey
      rw [hafter.userRecords_eq, hinfo.userRecords_eq]
      rw [huser] at hkey
      have hother := hothers key hkey
      cases hold : users.lookup key with
      | none => simpa [hold] using hother
      | some old =>
          rw [hold] at hother
          obtain ⟨new, hnormalized, hnewLookup⟩ := hother
          obtain ⟨members, found, hok⟩ := hinfo.recordOk (mem_of_lookup hold)
          obtain ⟨x, y, hx, hy, hsame⟩ := hok.effective_normalized download hnormalized
          exact ⟨new, hnewLookup, x, y, hx, hy, fun key _ => hsame key⟩

end Spaces.Permissions
