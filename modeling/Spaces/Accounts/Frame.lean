import Spaces.Accounts.Turns

/-!
# What the turns leave alone

The records of the four tables that belong to no configured user and not to the
administrator group are the same after all turns and in the same order, but for the
names of members that are configured users now. A new name takes the place of the one
that the record with the user's UID had in the passwd table, before the first turn: what
an earlier turn has put there has another UID.

The names of the gshadow table are the exception to the uniqueness of the columns. They
stay unique exactly if no group is appended for a user who has a gshadow record already.
-/

namespace Spaces.Accounts

open Spaces.Library Records

variable {settings : Settings}

/-! ## Records of nobody configured -/

section Foreign

variable (settings) (users : List User)

def foreignAccount (r : PasswdRecord) : Bool :=
  users.all fun user =>
    r.name ≠ user.name.text && uidOf settings r ≠ some (user.uid : Int)

def foreignGroup (name : Text) : Bool :=
  name ≠ settings.administratorGroup && users.all fun user => name ≠ user.name.text

/-- A shadow record under the name that a user's account has or had. -/
def foreignShadow (passwd : List PasswdRecord) (r : ShadowRecord) : Bool :=
  users.all fun user => r.name ≠ user.name.text
    && passwd.all fun a => uidOf settings a ≠ some (user.uid : Int) || r.name ≠ a.name

end Foreign

def GroupRecord.renameAll (pairs : List (Text × Text)) (r : GroupRecord) : GroupRecord :=
  pairs.foldl (fun r pair => r.rename pair.1 pair.2) r

def GshadowRecord.renameAll (pairs : List (Text × Text)) (r : GshadowRecord) : GshadowRecord :=
  pairs.foldl (fun r pair => r.rename pair.1 pair.2) r

/-- Each new name is a user's, and the old one is of the record with the user's UID. -/
def Renames (settings : Settings) (users : List User) (passwd : List PasswdRecord)
    (pairs : List (Text × Text)) : Prop :=
  ∀ pair ∈ pairs, ∃ user ∈ users, pair.2 = user.name.text ∧
    (pair.1 = user.name.text ∨
      ∃ r ∈ passwd, r.name = pair.1 ∧ uidOf settings r = some (user.uid : Int))

/-- The records of nobody configured, with new names among their members. -/
structure FramedBy (settings : Settings) (users : List User) (origin : List PasswdRecord)
    (pairs : List (Text × Text)) (tables tables' : Tables) : Prop where
  account : tables'.passwd.filter (foreignAccount settings users)
    = tables.passwd.filter (foreignAccount settings users)
  group : tables'.group.filter (foreignGroup settings users ·.name)
    = (tables.group.filter (foreignGroup settings users ·.name)).map (.renameAll pairs)
  shadow : tables'.shadow.map (·.filter (foreignShadow settings users origin))
    = tables.shadow.map (·.filter (foreignShadow settings users origin))
  gshadow : tables'.gshadow.map (·.filter (foreignGroup settings users ·.name))
    = (tables.gshadow.map (·.filter (foreignGroup settings users ·.name))).map
        (·.map (.renameAll pairs))

theorem FramedBy.refl (settings : Settings) (users : List User) (origin : List PasswdRecord)
    (tables : Tables) : FramedBy settings users origin [] tables tables where
  account := rfl
  group := (List.map_id _).symm
  shadow := rfl
  gshadow := by
    have hid : (fun records : List GshadowRecord => records.map (.renameAll [])) = id :=
      funext List.map_id
    rw [hid, Option.map_id]
    rfl

theorem FramedBy.trans {users : List User} {origin : List PasswdRecord}
    {pairs pairs' : List (Text × Text)} {t₁ t₂ t₃ : Tables}
    (h : FramedBy settings users origin pairs t₁ t₂)
    (h' : FramedBy settings users origin pairs' t₂ t₃) :
    FramedBy settings users origin (pairs ++ pairs') t₁ t₃ where
  account := h'.account.trans h.account
  group := by
    rw [h'.group, h.group, List.map_map]
    exact congrArg (List.map · _) (funext fun r => List.foldl_append.symm)
  shadow := h'.shadow.trans h.shadow
  gshadow := by
    rw [h'.gshadow, h.gshadow, Option.map_map]
    refine congrArg (Option.map · _) (funext fun records => ?_)
    dsimp only [Function.comp_apply]
    rw [List.map_map]
    exact congrArg (List.map · records) (funext fun r => List.foldl_append.symm)

/-! ## A turn -/

theorem not_foreignAccount {users : List User} {user : User} (huser : user ∈ users)
    {r : PasswdRecord}
    (h : r.name = user.name.text ∨ uidOf settings r = some (user.uid : Int)) :
    foreignAccount settings users r = false := by
  rw [Bool.eq_false_iff]
  intro hforeign
  have hall := List.all_eq_true.mp hforeign user huser
  simp only [Bool.and_eq_true, decide_eq_true_iff] at hall
  exact h.elim hall.1 hall.2

theorem not_foreignGroup {users : List User} {user : User} (huser : user ∈ users) :
    foreignGroup settings users user.name.text = false := by
  rw [Bool.eq_false_iff]
  intro hforeign
  have hall := List.all_eq_true.mp (Bool.and_eq_true_iff.mp hforeign).2 user huser
  simp at hall

theorem not_foreignGroup_administrator {users : List User} :
    foreignGroup settings users settings.administratorGroup = false := by
  rw [Bool.eq_false_iff]
  intro hforeign
  simpa using (Bool.and_eq_true_iff.mp hforeign).1

theorem not_foreignShadow {users : List User} {passwd : List PasswdRecord} {user : User}
    (huser : user ∈ users) {r : ShadowRecord}
    (h : r.name = user.name.text ∨
      ∃ a ∈ passwd, a.name = r.name ∧ uidOf settings a = some (user.uid : Int)) :
    foreignShadow settings users passwd r = false := by
  rw [Bool.eq_false_iff]
  intro hforeign
  obtain ⟨hname, hall⟩ := Bool.and_eq_true_iff.mp (List.all_eq_true.mp hforeign user huser)
  rcases h with heq | ⟨a, ha, hname', huid⟩
  · simp [heq] at hname
  · have hnot := List.all_eq_true.mp hall a ha
    simp [hname', huid] at hnot

theorem filter_setGroupMember {R : Type} (column : MemberColumn R) (settings : Settings)
    (users : List User) (records : List R) (userName : Text) (enabled : Bool) :
    (setGroupMember column records settings.administratorGroup userName enabled).filter
        (fun r => foreignGroup settings users (column.name r))
      = records.filter fun r => foreignGroup settings users (column.name r) := by
  rcases setGroupMember_split column records settings.administratorGroup userName enabled with
    ⟨heq, -⟩ | ⟨before, r, after, hsplit, hr, -, heq⟩
  · rw [heq]
  · rw [heq]
    have hput : Put records _ (some r) (column.alter (setMember userName enabled) r)
        before after := ⟨hsplit, rfl⟩
    refine hput.filter ?_ ?_
    · rw [column.name_alter, hr]
      exact not_foreignGroup_administrator
    · rintro r' hr'
      cases hr'
      rw [hr]
      exact not_foreignGroup_administrator

theorem filter_setGroup (settings : Settings) (users : List User) (group : List GroupRecord)
    (oldName : Text) (user : User) :
    (setGroup settings group oldName user).filter (fun r => foreignGroup settings users r.name)
      = (group.filter fun r => foreignGroup settings users r.name).map
          (.rename oldName user.name.text) :=
  (filter_setGroupMember groupMembers settings users _ _ _).trans List.filter_map

theorem filter_setGshadow (settings : Settings) (users : List User)
    (gshadow : List GshadowRecord) (oldName : Text) (user : User) :
    (setGshadow settings gshadow oldName user).filter
        (fun r => foreignGroup settings users r.name)
      = (gshadow.filter fun r => foreignGroup settings users r.name).map
          (.rename oldName user.name.text) :=
  (filter_setGroupMember gshadowMembers settings users _ _ _).trans List.filter_map

theorem GroupStep.filter {users : List User} {user : User} (huser : user ∈ users)
    {group group' : List GroupRecord} {gshadow gshadow' : Option (List GshadowRecord)}
    (h : GroupStep settings user group gshadow group' gshadow') :
    group'.filter (fun r => foreignGroup settings users r.name)
        = group.filter (fun r => foreignGroup settings users r.name) ∧
      gshadow'.map (·.filter fun r => foreignGroup settings users r.name)
        = gshadow.map (·.filter fun r => foreignGroup settings users r.name) := by
  have hforeign : foreignGroup settings users user.name.text = false := not_foreignGroup huser
  cases h with
  | present r hr hgid => exact ⟨rfl, rfl⟩
  | append habsent hname =>
      refine ⟨(Put.at_end group _).filter hforeign (by simp), ?_⟩
      rw [Option.map_map]
      refine congrArg (Option.map · gshadow) (funext fun records => ?_)
      exact (Put.at_end records _).filter hforeign (by simp)
  | take before r after habsent hsplit hname hbefore =>
      have hput : Put group (before ++ { r with gid := digits user.gid } :: after) (some r)
          { r with gid := digits user.gid } before after := ⟨hsplit, rfl⟩
      refine ⟨hput.filter (hname ▸ hforeign) ?_, rfl⟩
      rintro r' hr'
      cases hr'
      exact hname ▸ hforeign

theorem TurnStep.framedBy {users : List User} {origin : List PasswdRecord}
    {tables tables' : Tables} {user : User} {oldName : Text} (huser : user ∈ users)
    (horigin : ∀ r ∈ tables.passwd, uidOf settings r = some (user.uid : Int) → r ∈ origin)
    (h : TurnStep settings tables user tables' oldName) :
    Renames settings users origin [(oldName, user.name.text)] ∧
      FramedBy settings users origin [(oldName, user.name.text)] tables tables' := by
  obtain ⟨old, before, after, haccount⟩ := h.account
  obtain ⟨group, gshadow, hgroup, hgroup', hgshadow'⟩ := h.group
  have hold : oldName = user.name.text ∨
      ∃ r ∈ origin, r.name = oldName ∧ uidOf settings r = some (user.uid : Int) := by
    refine haccount.oldName_cases.imp_right ?_
    rintro ⟨r, hr, hname, huid⟩
    exact ⟨r, horigin r hr huid, hname, huid⟩
  refine ⟨?_, ?_⟩
  · intro pair hpair
    rw [List.mem_singleton.mp hpair]
    exact ⟨user, huser, rfl, hold⟩
  constructor
  · refine haccount.put.filter (not_foreignAccount huser (.inl rfl)) fun r hr => ?_
    exact not_foreignAccount huser (haccount.matched r hr).symm
  · rw [hgroup', filter_setGroup, (hgroup.filter huser).1]
    rfl
  · have hshadowed := h.shadowed
    cases hshadow : tables.shadow with
    | none =>
        rw [hshadow, Option.isSome_none, Option.isSome_eq_false_iff,
          Option.isNone_iff_eq_none] at hshadowed
        rw [hshadowed]
    | some records =>
        rw [hshadow, Option.isSome_some] at hshadowed
        obtain ⟨records', hshadow'⟩ := Option.isSome_iff_exists.mp hshadowed
        obtain ⟨old, new, before, after, hput⟩ := h.shadow records hshadow records' hshadow'
        rw [hshadow', Option.map_some, Option.map_some]
        refine congrArg some (hput.put.filter ?_ fun r hr => ?_)
        · exact not_foreignShadow huser (.inl hput.new_name)
        · rcases hput.matched r hr with hname | hname
          · rcases hold with heq | ⟨a, ha, hname', huid⟩
            · exact not_foreignShadow huser (.inl (hname.trans heq))
            · exact not_foreignShadow huser (.inr ⟨a, ha, hname'.trans hname.symm, huid⟩)
          · exact not_foreignShadow huser (.inl hname)
  · rw [hgshadow', Option.map_map, ← (hgroup.filter huser).2, Option.map_map]
    refine congrArg (Option.map · gshadow) (funext fun records => ?_)
    exact filter_setGshadow settings users records oldName user

/-! ## All turns -/

/-- After a turn the other users' UIDs belong to records that were there before. -/
theorem TurnStep.origin {origin : List PasswdRecord} {tables tables' : Tables} {user : User}
    {oldName : Text} (h : TurnStep settings tables user tables' oldName) {other : User}
    (hne : other.uid ≠ user.uid)
    (horigin : ∀ r ∈ tables.passwd, uidOf settings r = some (other.uid : Int) → r ∈ origin) :
    ∀ r ∈ tables'.passwd, uidOf settings r = some (other.uid : Int) → r ∈ origin := by
  obtain ⟨old, before, after, haccount⟩ := h.account
  intro r hr huid
  rcases haccount.put.mem_target.mp hr with rfl | hr
  · rw [uidOf_account, Option.some.injEq] at huid
    exact absurd (Int.ofNat_inj.mp huid).symm hne
  · exact horigin r (haccount.put.others hr) huid

theorem turns_framed {users : List User} {origin : List PasswdRecord} {turnUsers : List User}
    {tables tables' : Tables} (husers : ∀ user ∈ turnUsers, user ∈ users)
    (huids : (turnUsers.map (·.uid)).Nodup) (hdistinct : Distinct settings tables)
    (horigin : ∀ user ∈ turnUsers, ∀ r ∈ tables.passwd,
      uidOf settings r = some (user.uid : Int) → r ∈ origin)
    (h : turnUsers.foldlM (turn settings) tables = .ok tables') :
    ∃ pairs, Renames settings users origin pairs ∧
      FramedBy settings users origin pairs tables tables' := by
  induction turnUsers generalizing tables with
  | nil =>
      cases h
      exact ⟨[], by simp [Renames], FramedBy.refl settings users origin _⟩
  | cons user turnUsers ih =>
      rw [List.foldlM_cons] at h
      obtain ⟨mid, hturn, h⟩ := Outcome.bind_eq_ok.mp h
      obtain ⟨oldName, hstep⟩ := turn_step hdistinct hturn
      rw [List.map_cons, List.nodup_cons] at huids
      obtain ⟨hrenames, hframed⟩ := hstep.framedBy (husers user List.mem_cons_self)
        (horigin user List.mem_cons_self)
      obtain ⟨pairs, hrenames', hframed'⟩ := ih
        (fun u hu => husers u (List.mem_cons_of_mem user hu)) huids.2 (hstep.distinct hdistinct)
        (fun u hu => hstep.origin
          (fun heq => huids.1 (heq ▸ List.mem_map_of_mem hu))
          (horigin u (List.mem_cons_of_mem user hu))) h
      refine ⟨[(oldName, user.name.text)] ++ pairs, ?_, hframed.trans hframed'⟩
      exact List.forall_mem_append.mpr ⟨hrenames, hrenames'⟩

theorem Prepared.framedBy {users : List User} {tables tables' : Tables}
    (h : Prepared settings users tables tables') (origin : List PasswdRecord) :
    FramedBy settings users origin [] tables tables' where
  account := by rw [h.passwd]
  group := by
    refine Eq.trans ?_ (List.map_id _).symm
    rcases h.group with heq | ⟨-, gid, -, heq⟩
    · rw [heq]
    · rw [heq]
      exact (Put.at_end tables.group _).filter not_foreignGroup_administrator (by simp)
  shadow := by rw [h.shadow]
  gshadow := by
    refine Eq.trans ?_ (FramedBy.refl settings users origin tables).gshadow
    rcases h.gshadow with heq | ⟨records, hrecords, -, heq⟩
    · rw [heq]
    · rw [heq, hrecords, Option.map_some, Option.map_some]
      exact congrArg some
        ((Put.at_end records _).filter not_foreignGroup_administrator (by simp))

/-! ## The names of the gshadow table -/

/-- No group is appended for a user who has a gshadow record. -/
def Unshadowed (settings : Settings) (tables : Tables) (user : User) : Prop :=
  (∀ r ∈ tables.group, gidOf settings r ≠ some (user.gid : Int)) →
  (∀ r ∈ tables.group, r.name ≠ user.name.text) →
  ∀ records ∈ tables.gshadow, ∀ r ∈ records, r.name ≠ user.name.text

/-- The names of the gshadow table after a turn: those before, and one more where a group
is appended. -/
theorem TurnStep.gshadowNames {tables tables' : Tables} {user : User} {oldName : Text}
    (h : TurnStep settings tables user tables' oldName) {records : List GshadowRecord}
    (hrecords : tables.gshadow = some records) :
    ∃ records', tables'.gshadow = some records' ∧
      ((records'.map (·.name) = records.map (·.name) ∧
        ((∃ r ∈ tables.group, gidOf settings r = some (user.gid : Int)) ∨
          ∃ r ∈ tables.group, r.name = user.name.text)) ∨
      records'.map (·.name) = records.map (·.name) ++ [user.name.text] ∧
        (∀ r ∈ tables.group, gidOf settings r ≠ some (user.gid : Int)) ∧
        ∀ r ∈ tables.group, r.name ≠ user.name.text) := by
  obtain ⟨group, gshadow, hgroup, -, hgshadow'⟩ := h.group
  cases hgroup with
  | present r hr hgid =>
      rw [hrecords] at hgshadow'
      exact ⟨_, hgshadow', .inl ⟨names_setGshadow _ _ _ _, .inl ⟨r, hr, hgid⟩⟩⟩
  | append habsent hname =>
      rw [hrecords] at hgshadow'
      refine ⟨_, hgshadow', .inr ⟨?_, habsent, hname⟩⟩
      rw [names_setGshadow, List.map_append]
      rfl
  | take before r after habsent hsplit hname hbefore =>
      rw [hrecords] at hgshadow'
      refine ⟨_, hgshadow', .inl ⟨names_setGshadow _ _ _ _, .inr ⟨r, ?_, hname⟩⟩⟩
      rw [hsplit]
      simp

theorem TurnStep.gshadow_none {tables tables' : Tables} {user : User} {oldName : Text}
    (h : TurnStep settings tables user tables' oldName) (hnone : tables.gshadow = none) :
    tables'.gshadow = none := by
  obtain ⟨group, gshadow, hgroup, -, hgshadow'⟩ := h.group
  cases hgroup <;> rw [hgshadow', hnone] <;> rfl

def GshadowNames (tables : Tables) : Prop :=
  ∀ records ∈ tables.gshadow, (records.map (·.name)).Nodup

theorem TurnStep.gshadowNames_iff {tables tables' : Tables} {user : User} {oldName : Text}
    (h : TurnStep settings tables user tables' oldName) :
    GshadowNames tables' ↔ GshadowNames tables ∧ Unshadowed settings tables user := by
  unfold GshadowNames Unshadowed
  cases hgshadow : tables.gshadow with
  | none =>
      rw [h.gshadow_none hgshadow]
      simp
  | some records =>
      obtain ⟨records', hrecords', hnames⟩ := h.gshadowNames hgshadow
      rw [hrecords']
      simp only [Option.mem_def, Option.some.injEq, forall_eq']
      rcases hnames with ⟨hnames, hthere⟩ | ⟨hnames, habsent, hname⟩
      · rw [hnames]
        refine ⟨fun hnodup => ⟨hnodup, fun habsent hname => ?_⟩, And.left⟩
        rcases hthere with ⟨r, hr, hgid⟩ | ⟨r, hr, hname'⟩
        · exact absurd hgid (habsent r hr)
        · exact absurd hname' (hname r hr)
      · rw [hnames, List.nodup_append]
        constructor
        · rintro ⟨hnodup, -, hne⟩
          refine ⟨hnodup, fun _ _ r hr => ?_⟩
          exact hne r.name (List.mem_map_of_mem hr) user.name.text (List.mem_singleton_self _)
        · rintro ⟨hnodup, hfree⟩
          refine ⟨hnodup, List.nodup_singleton _, ?_⟩
          rintro name hname' name' hname''
          obtain ⟨r, hr, rfl⟩ := List.mem_map.mp hname'
          rw [List.mem_singleton.mp hname'']
          exact hfree habsent hname r hr

theorem turns_gshadowNames_iff {tables tables' : Tables} {users : List User}
    (hdistinct : Distinct settings tables)
    (h : users.foldlM (turn settings) tables = .ok tables') :
    GshadowNames tables' ↔ GshadowNames tables ∧
      EveryTurn settings (fun _ mid user _ => Unshadowed settings mid user) tables users := by
  induction users generalizing tables with
  | nil =>
      cases h
      exact (and_iff_left everyTurn_nil).symm
  | cons user users ih =>
      rw [List.foldlM_cons] at h
      obtain ⟨mid, hturn, h⟩ := Outcome.bind_eq_ok.mp h
      obtain ⟨oldName, hstep⟩ := turn_step hdistinct hturn
      rw [ih (hstep.distinct hdistinct) h, hstep.gshadowNames_iff, everyTurn_cons hturn, and_assoc]

end Spaces.Accounts
