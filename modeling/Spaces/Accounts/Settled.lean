import Spaces.Accounts.Readable

/-!
# Settled accounts

A user is settled when a turn would find everything as it leaves it. A turn settles its
user, and it leaves the other users settled but for two things. It may give its user's
GID to the group of the user's name, although another user's GID is that group's. And a
name with commas in it, put in the place of an old member's name, brings in whoever the
pieces name.
-/

namespace Spaces.Accounts

open Spaces.Library Records

variable {settings : Settings}

/-- The administrator group's members in the two tables that list them. -/
inductive AdministratorField (settings : Settings) (tables : Tables) : Text → Prop where
  | group {field : Text}
      (h : membersOf groupMembers tables.group settings.administratorGroup = some field) :
      AdministratorField settings tables field
  | gshadow {records : List GshadowRecord} {field : Text}
      (hrecords : tables.gshadow = some records)
      (h : membersOf gshadowMembers records settings.administratorGroup = some field) :
      AdministratorField settings tables field

/-- A user's account, shadow record and memberships are as a turn leaves them. -/
structure Settled (settings : Settings) (tables : Tables) (user : User) : Prop where
  account : ∃ gecos, account settings tables.shadow.isSome user gecos ∈ tables.passwd
  member : ∀ field, AdministratorField settings tables field →
    (user.name.text ∈ members field ↔ user.administrator = true)
  shadow : ∀ records ∈ tables.shadow, ∃ r ∈ records, r.name = user.name.text ∧
    (settings.hostAuthentication = true → r.password = ['!'])

def HasGroup (settings : Settings) (tables : Tables) (user : User) : Prop :=
  some (user.gid : Int) ∈ tables.group.map (gidOf settings)

/-- An administrator's name is not cut at a comma. -/
def Uncut (user : User) : Prop := user.administrator = true → ',' ∉ user.name.text

/-- A renaming brings no earlier user back among the administrators. -/
def Spared (settings : Settings) (earlier : List User) (tables : Tables) (user : User) : Prop :=
  ∀ r ∈ tables.passwd, uidOf settings r = some (user.uid : Int) → r.name ≠ user.name.text →
    ∀ other ∈ earlier, other.administrator = false →
      other.name.text ∈ user.name.text.splitOn ',' →
        ∀ field, AdministratorField settings tables field → r.name ∉ members field

/-- Where the user's GID goes to the group of the user's name, no earlier user has that
group's GID, or a later one has it too. -/
def Unrobbed (settings : Settings) (earlier : List User) (tables : Tables) (user : User)
    (later : List User) : Prop :=
  (∀ r ∈ tables.group, gidOf settings r ≠ some (user.gid : Int)) →
  ∀ r ∈ tables.group, r.name = user.name.text →
    ∀ other ∈ earlier, gidOf settings r = some (other.gid : Int) →
      ∃ user' ∈ later, user'.gid = other.gid

/-! ## The administrator group is there -/

structure Administered (settings : Settings) (tables : Tables) : Prop where
  group : settings.administratorGroup ∈ tables.group.map (·.name)
  gshadow : ∀ records ∈ tables.gshadow, settings.administratorGroup ∈ records.map (·.name)

theorem GroupStep.names {user : User} {group group' : List GroupRecord}
    {gshadow gshadow' : Option (List GshadowRecord)}
    (h : GroupStep settings user group gshadow group' gshadow') :
    group.map (·.name) ⊆ group'.map (·.name) := by
  cases h with
  | present r hr hgid => exact List.Subset.refl _
  | append habsent hname =>
      rw [List.map_append]
      exact List.subset_append_left _ _
  | take before r after habsent hsplit hname hbefore =>
      rw [hsplit, List.map_append, List.map_append, List.map_cons, List.map_cons]
      exact List.Subset.refl _

theorem TurnStep.administered {tables tables' : Tables} {user : User} {oldName : Text}
    (h : TurnStep settings tables user tables' oldName)
    (hadministered : Administered settings tables) : Administered settings tables' := by
  obtain ⟨group, gshadow, hgroup, hgroup', -⟩ := h.group
  constructor
  · rw [hgroup', names_setGroup]
    exact hgroup.names hadministered.group
  · cases hgshadow : tables.gshadow with
    | none =>
        rw [h.gshadow_none hgshadow]
        rintro records ⟨⟩
    | some records =>
        obtain ⟨records', hrecords', hnames⟩ := h.gshadowNames hgshadow
        rw [hrecords']
        rintro records'' ⟨⟩
        have hin := hadministered.gshadow records hgshadow
        rcases hnames with ⟨hnames, -⟩ | ⟨hnames, -⟩
        · exact hnames ▸ hin
        · exact hnames ▸ List.mem_append_left _ hin

/-! ## The members after a turn -/

theorem membersOf_append {R : Type} (column : MemberColumn R) (records records' : List R)
    (groupName : Text) :
    membersOf column (records ++ records') groupName
      = (membersOf column records groupName).or (membersOf column records' groupName) := by
  unfold membersOf
  rw [List.find?_append, Option.map_or]

theorem membersOf_cons {R : Type} (column : MemberColumn R) (r : R) (records : List R)
    (groupName : Text) :
    membersOf column (r :: records) groupName
      = if column.name r = groupName then some (column.members r)
        else membersOf column records groupName := by
  unfold membersOf
  by_cases h : column.name r = groupName <;> simp [h]

/-- The fields that the renaming of a turn finds: those that were there, or an empty one
in a new group that has the administrator group's name. -/
theorem GroupStep.field {user : User} {tables : Tables} {group : List GroupRecord}
    {gshadow : Option (List GshadowRecord)}
    (h : GroupStep settings user tables.group tables.gshadow group gshadow) {field : Text}
    (hfield : AdministratorField settings
      ⟨tables.passwd, group, tables.shadow, gshadow⟩ field) :
    AdministratorField settings tables field ∨
      field = [] ∧ ¬ Administered settings tables := by
  cases h with
  | present r hr hgid => exact .inl (by cases hfield with
      | group h => exact .group h
      | gshadow hrecords h => exact .gshadow hrecords h)
  | append habsent hname =>
      cases hfield with
      | group h =>
          rw [membersOf_append, membersOf_cons] at h
          rcases Option.or_eq_some_iff.mp h with h | ⟨hnone, h⟩
          · exact .inl (.group h)
          · split at h
            · next hadmin =>
                cases h
                refine .inr ⟨rfl, fun hadministered => ?_⟩
                obtain ⟨r, hr, hr'⟩ := List.mem_map.mp hadministered.group
                exact hname r hr (hr'.trans hadmin.symm)
            · cases h
      | @gshadow records field hrecords h =>
          obtain ⟨records, hsome, rfl⟩ := Option.map_eq_some_iff.mp hrecords
          rw [membersOf_append, membersOf_cons] at h
          rcases Option.or_eq_some_iff.mp h with h | ⟨hnone, h⟩
          · exact .inl (.gshadow hsome h)
          · split at h
            · next hadmin =>
                cases h
                refine .inr ⟨rfl, fun hadministered => ?_⟩
                obtain ⟨r, hr, hr'⟩ := List.mem_map.mp hadministered.group
                exact hname r hr (hr'.trans hadmin.symm)
            · cases h
  | take before r after habsent hsplit hname hbefore =>
      cases hfield with
      | group h =>
          refine .inl (.group (Eq.trans ?_ h))
          rw [hsplit, membersOf_append, membersOf_append, membersOf_cons, membersOf_cons]
          rfl
      | gshadow hrecords h => exact .inl (.gshadow hrecords h)

/-- A field after a turn comes from one before it. -/
theorem TurnStep.field {tables tables' : Tables} {user : User} {oldName : Text}
    (h : TurnStep settings tables user tables' oldName) {field' : Text}
    (hfield : AdministratorField settings tables' field') :
    ∃ field, field' = setMember user.name.text user.administrator
        (renameMember oldName user.name.text field) ∧
      (AdministratorField settings tables field ∨
        field = [] ∧ ¬ Administered settings tables) := by
  obtain ⟨group, gshadow, hgroup, hgroup', hgshadow'⟩ := h.group
  cases hfield with
  | group h =>
      rw [hgroup', membersOf_setGroup] at h
      obtain ⟨field, hsome, rfl⟩ := Option.map_eq_some_iff.mp h
      exact ⟨field, rfl, hgroup.field (.group hsome)⟩
  | gshadow hrecords h =>
      rw [hgshadow'] at hrecords
      obtain ⟨records, hsome, rfl⟩ := Option.map_eq_some_iff.mp hrecords
      rw [membersOf_setGshadow] at h
      obtain ⟨field, hsome', rfl⟩ := Option.map_eq_some_iff.mp h
      exact ⟨field, rfl, hgroup.field (.gshadow hsome hsome')⟩

theorem GroupStep.field_kept {user : User} {tables : Tables} {group : List GroupRecord}
    {gshadow : Option (List GshadowRecord)}
    (h : GroupStep settings user tables.group tables.gshadow group gshadow) {field : Text}
    (hfield : AdministratorField settings tables field) :
    AdministratorField settings ⟨tables.passwd, group, tables.shadow, gshadow⟩ field := by
  cases h with
  | present r hr hgid => cases hfield with
      | group h => exact .group h
      | gshadow hrecords h => exact .gshadow hrecords h
  | append habsent hname =>
      cases hfield with
      | group h =>
          refine .group ?_
          rw [membersOf_append, h]
          rfl
      | gshadow hrecords h =>
          refine .gshadow (Option.map_eq_some_iff.mpr ⟨_, hrecords, rfl⟩) ?_
          rw [membersOf_append, h]
          rfl
  | take before r after habsent hsplit hname hbefore =>
      cases hfield with
      | group h =>
          refine .group (Eq.trans ?_ h)
          rw [hsplit, membersOf_append, membersOf_append, membersOf_cons, membersOf_cons]
          rfl
      | gshadow hrecords h => exact .gshadow hrecords h

/-- A field before a turn becomes one after it. -/
theorem TurnStep.field_kept {tables tables' : Tables} {user : User} {oldName : Text}
    (h : TurnStep settings tables user tables' oldName) {field : Text}
    (hfield : AdministratorField settings tables field) :
    AdministratorField settings tables' (setMember user.name.text user.administrator
      (renameMember oldName user.name.text field)) := by
  obtain ⟨group, gshadow, hgroup, hgroup', hgshadow'⟩ := h.group
  cases hgroup.field_kept hfield with
  | group h =>
      refine .group ?_
      rw [hgroup', membersOf_setGroup, h]
      rfl
  | @gshadow records _ hrecords h =>
      dsimp only at hrecords
      rw [hrecords] at hgshadow'
      refine .gshadow hgshadow' ?_
      rw [membersOf_setGshadow, h]
      rfl

theorem splitOn_uncut {user : User} (huncut : Uncut user) (h : user.administrator = true) :
    user.name.text.splitOn ',' = [user.name.text] :=
  List.splitOn_eq_singleton (huncut h)

/-- Who else is a member after a turn. -/
theorem mem_turnField {user : User} (huncut : Uncut user) {oldName field name : Text}
    (hne : name ≠ []) (hname : name ≠ user.name.text) (hold : name ≠ oldName) :
    name ∈ members (setMember user.name.text user.administrator
        (renameMember oldName user.name.text field)) ↔
      name ∈ members field ∨ oldName ≠ user.name.text ∧ oldName ∈ members field ∧
        name ∈ user.name.text.splitOn ',' := by
  rw [← mem_renameMember hne hold]
  cases hadministrator : user.administrator with
  | true =>
      rw [mem_setMember_enabled hne, splitOn_uncut huncut hadministrator, List.mem_singleton]
      exact or_iff_left fun h => hname h.2
  | false =>
      rw [mem_setMember_disabled hne]
      exact and_iff_left hname

/-- And the user is one exactly if it is an administrator. -/
theorem mem_setMember_self {user : User} (huncut : Uncut user) (field : Text) :
    user.name.text ∈ members (setMember user.name.text user.administrator field) ↔
      user.administrator = true := by
  cases hadministrator : user.administrator with
  | true =>
      rw [mem_setMember_enabled user.name.ne_nil, splitOn_uncut huncut hadministrator]
      simp only [List.mem_singleton, and_true, iff_true]
      exact Classical.em _
  | false =>
      rw [mem_setMember_disabled user.name.ne_nil]
      simp

/-! ## A turn settles its user -/

theorem TurnStep.account_mem {tables tables' : Tables} {user : User} {oldName : Text}
    (h : TurnStep settings tables user tables' oldName) :
    ∃ gecos, Accounts.account settings tables'.shadow.isSome user gecos ∈ tables'.passwd := by
  obtain ⟨old, before, after, haccount⟩ := h.account
  rw [h.shadowed]
  exact ⟨_, haccount.put.mem_target.mpr (.inl rfl)⟩

theorem TurnStep.shadow_some {tables tables' : Tables} {user : User} {oldName : Text}
    (h : TurnStep settings tables user tables' oldName) {records' : List ShadowRecord}
    (hrecords' : tables'.shadow = some records') :
    ∃ records, tables.shadow = some records := by
  have hsome := h.shadowed
  rw [hrecords', Option.isSome_some] at hsome
  exact Option.isSome_iff_exists.mp hsome.symm

theorem TurnStep.settles {tables tables' : Tables} {user : User} {oldName : Text}
    (h : TurnStep settings tables user tables' oldName) (huncut : Uncut user) :
    Settled settings tables' user := by
  refine ⟨h.account_mem, fun field' hfield => ?_, fun records' hrecords' => ?_⟩
  · obtain ⟨field, rfl, -⟩ := h.field hfield
    exact mem_setMember_self huncut _
  · obtain ⟨records, hrecords⟩ := h.shadow_some hrecords'
    obtain ⟨old, new, before, after, hput⟩ := h.shadow records hrecords records' hrecords'
    exact ⟨new, hput.put.mem_target.mpr (.inl rfl), hput.new_name,
      fun hauth => hput.new_password (.inl hauth)⟩

/-! ## And leaves the others settled -/

/-- The name that a user's record had is no other settled user's. -/
theorem TurnStep.oldName_ne {tables tables' : Tables} {user other : User} {oldName : Text}
    (h : TurnStep settings tables user tables' oldName) (hdistinct : Distinct settings tables)
    (hname : other.name.text ≠ user.name.text) (huid : other.uid ≠ user.uid)
    (haccount : ∃ gecos, Accounts.account settings tables.shadow.isSome other gecos
      ∈ tables.passwd) : other.name.text ≠ oldName := by
  obtain ⟨gecos, hmem⟩ := haccount
  obtain ⟨old, before, after, hput⟩ := h.account
  rintro heq
  rcases hput.oldName_cases with hold | ⟨r, hr, hrname, hruid⟩
  · exact hname (heq.trans hold)
  · have hsame : r = Accounts.account settings tables.shadow.isSome other gecos :=
      List.inj_on_of_nodup_map hdistinct.names hr hmem (hrname.trans heq.symm)
    rw [hsame, uidOf_account, Option.some.injEq, Int.natCast_inj] at hruid
    exact huid hruid

theorem TurnStep.keeps_account {tables tables' : Tables} {user other : User} {oldName : Text}
    (h : TurnStep settings tables user tables' oldName)
    (hname : other.name.text ≠ user.name.text) (huid : other.uid ≠ user.uid)
    (haccount : ∃ gecos, Accounts.account settings tables.shadow.isSome other gecos
      ∈ tables.passwd) :
    ∃ gecos, Accounts.account settings tables'.shadow.isSome other gecos ∈ tables'.passwd := by
  obtain ⟨gecos, hmem⟩ := haccount
  obtain ⟨old, before, after, hput⟩ := h.account
  refine ⟨gecos, ?_⟩
  rw [h.shadowed]
  rcases hput.put.mem_source.mp hmem with hold | hmem
  · rcases hput.matched _ hold with hmatched | hmatched
    · rw [uidOf_account, Option.some.injEq, Int.natCast_inj] at hmatched
      exact absurd hmatched huid
    · exact absurd hmatched hname
  · exact hput.put.mem_target.mpr (.inr hmem)

theorem TurnStep.keeps {tables tables' : Tables} {user other : User} {oldName : Text}
    (h : TurnStep settings tables user tables' oldName) (hdistinct : Distinct settings tables)
    (hname : other.name.text ≠ user.name.text) (huid : other.uid ≠ user.uid)
    (huncut : Uncut user)
    (hadministered : other.administrator = true ∨ user.administrator = true →
      Administered settings tables)
    (hspared : Spared settings [other] tables user) (hsettled : Settled settings tables other) :
    Settled settings tables' other := by
  have hold := h.oldName_ne hdistinct hname huid hsettled.account
  refine ⟨h.keeps_account hname huid hsettled.account, fun field' hfield => ?_,
    fun records' hrecords' => ?_⟩
  · obtain ⟨field, rfl, horigin⟩ := h.field hfield
    rw [mem_turnField huncut other.name.ne_nil hname hold]
    rcases horigin with horigin | ⟨rfl, hnot⟩
    · rw [hsettled.member field horigin]
      refine or_iff_left_of_imp ?_
      rintro ⟨hrenamed, hmember, hpiece⟩
      by_contra hadministrator
      obtain ⟨old, before, after, hput⟩ := h.account
      rcases hput.oldName_cases with heq | ⟨r, hr, hrname, hruid⟩
      · exact hrenamed heq
      · refine hspared r hr hruid (hrname ▸ hrenamed) other (List.mem_singleton_self _)
          (Bool.eq_false_iff.mpr hadministrator) hpiece field horigin ?_
        rwa [hrname]
    · have hnone : other.administrator = false := by
        rw [Bool.eq_false_iff]
        exact fun hother => hnot (hadministered (.inl hother))
      simp [members, hnone]
  · obtain ⟨records, hrecords⟩ := h.shadow_some hrecords'
    obtain ⟨s, hs, hsname, hpassword⟩ := hsettled.shadow records hrecords
    obtain ⟨old, new, before, after, hput⟩ := h.shadow records hrecords records' hrecords'
    refine ⟨s, ?_, hsname, hpassword⟩
    rcases hput.put.mem_source.mp hs with holdRecord | hs
    · rcases hput.matched s holdRecord with hmatched | hmatched
      · exact absurd (hsname.symm.trans hmatched) hold
      · exact absurd (hsname.symm.trans hmatched) hname
    · exact hput.put.mem_target.mpr (.inr hs)

/-! ## GIDs -/

theorem TurnStep.hasGroup {tables tables' : Tables} {user : User} {oldName : Text}
    (h : TurnStep settings tables user tables' oldName) : HasGroup settings tables' user := by
  obtain ⟨group, gshadow, hgroup, hgroup', -⟩ := h.group
  rw [HasGroup, hgroup', gids_setGroup, List.mem_map]
  cases hgroup with
  | present r hr hgid => exact ⟨r, hr, hgid⟩
  | append habsent hname =>
      exact ⟨⟨user.name.text, ['x'], digits user.gid, []⟩, by simp, gidOf_digits _ _ _ _⟩
  | take before r after habsent hsplit hname hbefore =>
      exact ⟨{ r with gid := digits user.gid }, by simp, gidOf_digits _ _ _ _⟩

/-- A GID's group keeps it, unless it is the one that the user takes. -/
theorem TurnStep.keeps_gid {tables tables' : Tables} {user : User} {oldName : Text}
    (h : TurnStep settings tables user tables' oldName) {gid : Int}
    (hgid : some gid ∈ tables.group.map (gidOf settings)) :
    some gid ∈ tables'.group.map (gidOf settings) ∨
      (∀ r ∈ tables.group, gidOf settings r ≠ some (user.gid : Int)) ∧
        ∃ r ∈ tables.group, r.name = user.name.text ∧ gidOf settings r = some gid := by
  obtain ⟨group, gshadow, hgroup, hgroup', -⟩ := h.group
  rw [hgroup', gids_setGroup]
  cases hgroup with
  | present r hr hgid' => exact .inl hgid
  | append habsent hname =>
      rw [List.map_append]
      exact .inl (List.mem_append_left _ hgid)
  | take before r after habsent hsplit hname hbefore =>
      obtain ⟨r', hr', hgid'⟩ := List.mem_map.mp hgid
      have hput : Put tables.group (before ++ { r with gid := digits user.gid } :: after) (some r)
          { r with gid := digits user.gid } before after := ⟨hsplit, rfl⟩
      rcases hput.mem_source.mp hr' with hold | hother
      · cases hold
        exact .inr ⟨habsent, r, hr', hname, hgid'⟩
      · exact .inl (List.mem_map.mpr ⟨r', hput.mem_target.mpr (.inr hother), hgid'⟩)

/-- No other GID comes in than the user's. -/
theorem TurnStep.gid_new {tables tables' : Tables} {user : User} {oldName : Text}
    (h : TurnStep settings tables user tables' oldName) {gid : Option Int}
    (hgid : gid ∈ tables'.group.map (gidOf settings)) :
    gid ∈ tables.group.map (gidOf settings) ∨ gid = some (user.gid : Int) := by
  obtain ⟨group, gshadow, hgroup, hgroup', -⟩ := h.group
  rw [hgroup', gids_setGroup] at hgid
  cases hgroup with
  | present r hr hgid' => exact .inl hgid
  | append habsent hname =>
      rw [List.map_append, List.mem_append] at hgid
      refine hgid.imp_right fun hnew => ?_
      rw [List.mem_singleton.mp hnew, gidOf_digits]
  | take before r after habsent hsplit hname hbefore =>
      obtain ⟨r', hr', rfl⟩ := List.mem_map.mp hgid
      have hput : Put tables.group (before ++ { r with gid := digits user.gid } :: after) (some r)
          { r with gid := digits user.gid } before after := ⟨hsplit, rfl⟩
      rcases hput.mem_target.mp hr' with rfl | hother
      · exact .inr (gidOf_digits _ _ _ _)
      · exact .inl (List.mem_map_of_mem (hput.others hother))

/-- The GID of the group that the user takes is gone. -/
theorem TurnStep.robbed {tables tables' : Tables} {user : User} {oldName : Text}
    (h : TurnStep settings tables user tables' oldName) (hdistinct : Distinct settings tables)
    (habsent : ∀ r ∈ tables.group, gidOf settings r ≠ some (user.gid : Int))
    {r : GroupRecord} (hr : r ∈ tables.group) (hname : r.name = user.name.text) :
    gidOf settings r ∉ tables'.group.map (gidOf settings) := by
  obtain ⟨group, gshadow, hgroup, hgroup', -⟩ := h.group
  rw [hgroup', gids_setGroup]
  cases hgroup with
  | present r' hr' hgid => exact absurd hgid (habsent r' hr')
  | append _ hnone => exact absurd hname (hnone r hr)
  | take before r' after _ hsplit hname' _ =>
      have hsame : r = r' := List.inj_on_of_nodup_map hdistinct.groupNames hr
        (by rw [hsplit]; simp) (hname.trans hname'.symm)
      subst hsame
      have hput : Put tables.group (before ++ { r with gid := digits user.gid } :: after) (some r)
          { r with gid := digits user.gid } before after := ⟨hsplit, rfl⟩
      intro hmem
      obtain ⟨other, hother, hgid⟩ := List.mem_map.mp hmem
      rcases hput.mem_target.mp hother with rfl | hother
      · rw [gidOf_digits] at hgid
        exact habsent r hr hgid.symm
      · exact hput.others_ne hdistinct.gids rfl hother hgid

/-! ## All turns -/

theorem turns_administered {tables tables' : Tables} {users : List User}
    (hdistinct : Distinct settings tables) (hadministered : Administered settings tables)
    (h : users.foldlM (turn settings) tables = .ok tables') :
    Administered settings tables' := by
  refine (Outcome.foldlM_ok (P := fun t => Distinct settings t ∧ Administered settings t) ?_
    ⟨hdistinct, hadministered⟩ h).2
  rintro user - mid mid' ⟨hmid, hmidAdministered⟩ hturn
  obtain ⟨oldName, hstep⟩ := turn_step hmid hturn
  exact ⟨hstep.distinct hmid, hstep.administered hmidAdministered⟩

theorem turns_settled (done : List User) {users : List User} {tables tables' : Tables}
    (hnames : ((done ++ users).map (·.name)).Nodup) (huids : ((done ++ users).map (·.uid)).Nodup)
    (hdistinct : Distinct settings tables) (huncut : ∀ user ∈ users, Uncut user)
    (hadministered : (∃ user ∈ done ++ users, user.administrator = true) →
      Administered settings tables)
    (hdone : ∀ user ∈ done, Settled settings tables user)
    (hspared : EveryTurn settings
      (fun earlier mid user _ => Spared settings (done ++ earlier) mid user) tables users)
    (h : users.foldlM (turn settings) tables = .ok tables') :
    ∀ user ∈ done ++ users, Settled settings tables' user := by
  induction users generalizing done tables with
  | nil =>
      cases h
      simpa using hdone
  | cons user users ih =>
      rw [List.foldlM_cons] at h
      obtain ⟨mid, hturn, h⟩ := Outcome.bind_eq_ok.mp h
      obtain ⟨oldName, hstep⟩ := turn_step hdistinct hturn
      obtain ⟨hsparedNow, hsparedLater⟩ := (everyTurn_cons hturn).mp hspared
      have hassoc : done ++ [user] ++ users = done ++ user :: users := by simp
      rw [← hassoc]
      refine ih _ (by rwa [hassoc]) (by rwa [hassoc]) (hstep.distinct hdistinct)
        (fun u hu => huncut u (List.mem_cons_of_mem user hu)) ?_ ?_ ?_ h
      · rw [hassoc]
        exact fun hany => hstep.administered (hadministered hany)
      · rw [List.forall_mem_append, List.forall_mem_singleton]
        refine ⟨fun other hother => ?_, hstep.settles (huncut user List.mem_cons_self)⟩
        obtain ⟨hname, huid⟩ := users_differ hnames huids hother List.mem_cons_self
        refine hstep.keeps hdistinct hname huid (huncut user List.mem_cons_self) ?_ ?_
          (hdone other hother)
        · rintro (hadmin | hadmin)
          · exact hadministered ⟨other, List.mem_append_left _ hother, hadmin⟩
          · exact hadministered ⟨user, by simp, hadmin⟩
        · intro r hr hruid hrname other' hother'
          rw [List.mem_singleton.mp hother']
          rw [List.append_nil] at hsparedNow
          exact hsparedNow r hr hruid hrname other hother
      · simpa only [List.append_assoc, List.singleton_append] using hsparedLater

theorem turns_hasGroup (done : List User) {users : List User} {tables tables' : Tables}
    (hdistinct : Distinct settings tables)
    (hdone : ∀ user ∈ done, HasGroup settings tables user ∨
      ∃ later ∈ users, later.gid = user.gid)
    (hunrobbed : EveryTurn settings
      (fun earlier mid user later => Unrobbed settings (done ++ earlier) mid user later)
      tables users)
    (h : users.foldlM (turn settings) tables = .ok tables') :
    ∀ user ∈ done ++ users, HasGroup settings tables' user := by
  induction users generalizing done tables with
  | nil =>
      cases h
      simpa using hdone
  | cons user users ih =>
      rw [List.foldlM_cons] at h
      obtain ⟨mid, hturn, h⟩ := Outcome.bind_eq_ok.mp h
      obtain ⟨oldName, hstep⟩ := turn_step hdistinct hturn
      obtain ⟨hnow, hlater⟩ := (everyTurn_cons hturn).mp hunrobbed
      rw [List.append_nil] at hnow
      have hassoc : done ++ [user] ++ users = done ++ user :: users := by simp
      rw [← hassoc]
      refine ih _ (hstep.distinct hdistinct) ?_ ?_ h
      · rw [List.forall_mem_append, List.forall_mem_singleton]
        refine ⟨fun other hother => ?_, .inl hstep.hasGroup⟩
        rcases hdone other hother with hgid | ⟨later, hlater, hgid⟩
        · rcases hstep.keeps_gid hgid with hkept | ⟨habsent, r, hr, hname, hrgid⟩
          · exact .inl hkept
          · exact .inr (hnow habsent r hr hname other hother hrgid)
        · rcases List.mem_cons.mp hlater with rfl | hlater
          · left
            rw [HasGroup, ← hgid]
            exact hstep.hasGroup
          · exact .inr ⟨later, hlater, hgid⟩
      · simpa only [List.append_assoc, List.singleton_append] using hlater

/-- A GID that is no group's and no later user's stays away. -/
theorem turns_gid_absent {users : List User} {tables tables' : Tables} {gid : Option Int}
    (hdistinct : Distinct settings tables) (habsent : gid ∉ tables.group.map (gidOf settings))
    (hlater : ∀ user ∈ users, gid ≠ some (user.gid : Int))
    (h : users.foldlM (turn settings) tables = .ok tables') :
    gid ∉ tables'.group.map (gidOf settings) := by
  refine (Outcome.foldlM_ok (P := fun t => Distinct settings t ∧
    gid ∉ t.group.map (gidOf settings)) ?_ ⟨hdistinct, habsent⟩ h).2
  rintro user huser mid mid' ⟨hmid, hmidAbsent⟩ hturn
  obtain ⟨oldName, hstep⟩ := turn_step hmid hturn
  refine ⟨hstep.distinct hmid, fun hmem => ?_⟩
  exact (hstep.gid_new hmem).elim hmidAbsent (hlater user huser)

end Spaces.Accounts
