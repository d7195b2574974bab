import Spaces.Accounts.Settled

/-!
# Reconciled once and for all

Where every user is settled and has a group, a second run finds nothing to do and writes
the files as they are. Conversely what a second run leaves alone was settled. So the
users are reconciled exactly if their names are fit for the files and no turn undoes
what an earlier one has done.
-/

namespace Spaces.Accounts

open Spaces.Library Records

variable {settings : Settings}

/-! ## Numeric ids -/

structure Numeric (settings : Settings) (tables : Tables) : Prop where
  uids : ∀ r ∈ tables.passwd, (uidOf settings r).isSome = true
  gids : ∀ r ∈ tables.group, (gidOf settings r).isSome = true

theorem TurnStep.numeric {tables tables' : Tables} {user : User} {oldName : Text}
    (h : TurnStep settings tables user tables' oldName) : Numeric settings tables' := by
  obtain ⟨old, before, after, haccount⟩ := h.account
  constructor
  · intro r hr
    rcases haccount.put.mem_target.mp hr with rfl | hr
    · rw [uidOf_account]
      rfl
    · exact haccount.numeric r (haccount.put.others hr)
  · intro r hr
    rcases h.gid_new (List.mem_map_of_mem hr) with hgid | hgid
    · obtain ⟨r', hr', heq⟩ := List.mem_map.mp hgid
      rw [← heq]
      exact h.groupNumeric r' hr'
    · rw [hgid]
      rfl

theorem turns_numeric {users : List User} {tables tables' : Tables} (hne : users ≠ [])
    (hdistinct : Distinct settings tables)
    (h : users.foldlM (turn settings) tables = .ok tables') : Numeric settings tables' := by
  cases users with
  | nil => exact absurd rfl hne
  | cons user users =>
      rw [List.foldlM_cons] at h
      obtain ⟨mid, hturn, h⟩ := Outcome.bind_eq_ok.mp h
      obtain ⟨oldName, hstep⟩ := turn_step hdistinct hturn
      refine (Outcome.foldlM_ok (P := fun t => Distinct settings t ∧ Numeric settings t) ?_
        ⟨hstep.distinct hdistinct, hstep.numeric⟩ h).2
      rintro u - t t' ⟨ht, -⟩ hturn'
      obtain ⟨oldName', hstep'⟩ := turn_step ht hturn'
      exact ⟨hstep'.distinct ht, hstep'.numeric⟩

/-! ## The turn of a settled user -/

theorem accountIndex_eq {passwd : List PasswdRecord} {user : User} {r : PasswdRecord}
    (hnames : (passwd.map (·.name)).Nodup) (huids : (passwd.map (uidOf settings)).Nodup)
    (hnumeric : ∀ r ∈ passwd, (uidOf settings r).isSome = true) (hr : r ∈ passwd)
    (hname : r.name = user.name.text) (huid : uidOf settings r = some (user.uid : Int)) :
    ∃ before after, passwd = before ++ r :: after ∧
      accountIndex settings passwd user = .ok (some before.length) := by
  obtain ⟨before, after, hsplit⟩ := List.append_of_mem hr
  have hput : Put passwd passwd (some r) r before after := ⟨hsplit, hsplit⟩
  have hnone : passwd.any (nonNumeric settings ·.uid) = false := any_nonNumeric.mpr hnumeric
  have hnameIndex : lastIdx? (·.name = user.name.text) passwd = some before.length := by
    rw [hsplit]
    refine lastIdx?_split (by simpa using hname) fun b hb => ?_
    simpa [hname] using hput.others_ne hnames rfl (List.mem_append_right before hb)
  have huidIndex : lastIdx? (fun r => Text.int settings.unicode r.uid = some (user.uid : Int))
      passwd = some before.length := by
    rw [hsplit]
    refine lastIdx?_split (by simpa [uidOf] using huid) fun b hb => ?_
    have hne := hput.others_ne huids rfl (List.mem_append_right before hb)
    rw [huid] at hne
    simpa [uidOf] using hne
  refine ⟨before, after, hsplit, ?_⟩
  unfold accountIndex
  rw [hnone, if_neg Bool.false_ne_true, hnameIndex, huidIndex]
  dsimp only
  rw [if_pos rfl]

theorem setAccount_settled {shadowed : Bool} {passwd : List PasswdRecord} {user : User}
    {gecos : Text} (hnames : (passwd.map (·.name)).Nodup)
    (huids : (passwd.map (uidOf settings)).Nodup)
    (hnumeric : ∀ r ∈ passwd, (uidOf settings r).isSome = true)
    (hmem : account settings shadowed user gecos ∈ passwd) :
    setAccount settings shadowed passwd user = .ok (user.name.text, passwd) := by
  obtain ⟨before, after, hsplit, hindex⟩ :=
    accountIndex_eq hnames huids hnumeric hmem rfl (uidOf_account shadowed user gecos)
  have hat : passwd[before.length]? = some (account settings shadowed user gecos) := by
    rw [hsplit, List.getElem?_append_right (Nat.le_refl _), Nat.sub_self]
    rfl
  have hmodify : passwd.modify before.length
      (fun r => account settings shadowed user r.gecos) = passwd := by
    refine modify_self fun r hr => ?_
    rw [hat] at hr
    cases hr
    rfl
  unfold setAccount
  rw [hindex]
  dsimp only [bind, Except.bind]
  rw [hmodify, hat]
  rfl

theorem ensureUserGroup_settled {group : List GroupRecord}
    {gshadow : Option (List GshadowRecord)} {user : User}
    (hnumeric : ∀ r ∈ group, (gidOf settings r).isSome = true)
    (hgid : some (user.gid : Int) ∈ group.map (gidOf settings)) :
    ensureUserGroup settings group gshadow user = .ok (group, gshadow) := by
  have hnone : group.any (nonNumeric settings ·.gid) = false := any_nonNumeric.mpr hnumeric
  have hpresent : group.any (fun r => Text.int settings.unicode r.gid = some (user.gid : Int))
      = true := by
    obtain ⟨r, hr, heq⟩ := List.mem_map.mp hgid
    exact List.any_eq_true.mpr ⟨r, hr, decide_eq_true heq⟩
  unfold ensureUserGroup
  rw [hnone, if_neg Bool.false_ne_true, if_pos hpresent]

theorem map_rename_self (name : Text) :
    GroupRecord.rename name name = id ∧ GshadowRecord.rename name name = id := by
  constructor
  · funext r
    simp [GroupRecord.rename]
  · funext r
    simp [GshadowRecord.rename]

theorem setShadow_settled {shadow : List ShadowRecord} {user : User} {r : ShadowRecord}
    (hr : r ∈ shadow) (hname : r.name = user.name.text)
    (hnames : (shadow.map (·.name)).Nodup)
    (hpassword : settings.hostAuthentication = true → r.password = ['!']) :
    setShadow settings shadow user.name.text user = .ok shadow := by
  obtain ⟨before, after, hsplit⟩ := List.append_of_mem hr
  have hput : Put shadow shadow (some r) r before after := ⟨hsplit, hsplit⟩
  have hindex : lastIdx? (·.name = user.name.text) shadow = some before.length := by
    rw [hsplit]
    refine lastIdx?_split (by simpa using hname) fun b hb => ?_
    simpa [hname] using hput.others_ne hnames rfl (List.mem_append_right before hb)
  have hassign : r.assign settings user = r := by
    unfold ShadowRecord.assign
    rw [← hname]
    split
    · next hauth => rw [← hpassword hauth]
    · rfl
  unfold setShadow
  rw [hindex]
  dsimp only
  rw [if_neg (by simp)]
  refine congrArg Except.ok (modify_self fun r' hr' => ?_)
  rw [hsplit, List.getElem?_append_right (Nat.le_refl _), Nat.sub_self] at hr'
  cases hr'
  exact hassign

theorem turn_settled {tables : Tables} {user : User} (hdistinct : Distinct settings tables)
    (hnumeric : Numeric settings tables) (hsettled : Settled settings tables user)
    (hgroup : HasGroup settings tables user) : turn settings tables user = .ok tables := by
  obtain ⟨gecos, haccount⟩ := hsettled.account
  have hshadow : setShadowTable settings tables.shadow user.name.text user
      = .ok tables.shadow := by
    unfold setShadowTable
    cases hrecords : tables.shadow with
    | none => rfl
    | some records =>
        obtain ⟨r, hr, hname, hpassword⟩ := hsettled.shadow records hrecords
        dsimp only
        rw [setShadow_settled hr hname (hdistinct.shadowNames records hrecords) hpassword]
        rfl
  have hgroupSet : setGroup settings tables.group user.name.text user = tables.group := by
    rw [setGroup, (map_rename_self user.name.text).1, List.map_id]
    exact setGroupMember_eq_self groupMembers fun field hfield =>
      hsettled.member field (.group hfield)
  have hgshadowSet : (tables.gshadow.map fun records =>
      setGshadow settings records user.name.text user) = tables.gshadow := by
    cases hrecords : tables.gshadow with
    | none => rfl
    | some records =>
        rw [Option.map_some, setGshadow, (map_rename_self user.name.text).2, List.map_id]
        exact congrArg some (setGroupMember_eq_self gshadowMembers fun field hfield =>
          hsettled.member field (.gshadow hrecords hfield))
  unfold turn
  rw [setAccount_settled hdistinct.names hdistinct.uids hnumeric.uids haccount]
  dsimp only [bind, Except.bind]
  rw [ensureUserGroup_settled hnumeric.gids hgroup]
  dsimp only
  rw [hshadow, hgroupSet, hgshadowSet]
  rfl

theorem prepare_settled {tables : Tables} {users : List User}
    (h : (∃ user ∈ users, user.administrator = true) → Administered settings tables) :
    prepare settings tables users = .ok tables := by
  unfold prepare ensureAdministratorGroup
  by_cases hall : users.all (!·.administrator) = true
  · rw [if_pos hall]
    rfl
  · have hany : ∃ user ∈ users, user.administrator = true := by
      by_contra hnone
      refine hall (List.all_eq_true.mpr fun user huser => ?_)
      rw [Bool.not_eq_true', Bool.eq_false_iff]
      exact fun hadministrator => hnone ⟨user, huser, hadministrator⟩
    have hadministered := h hany
    have hgroup : withAdministratorGroup settings tables.group users = .ok tables.group := by
      unfold withAdministratorGroup
      rw [if_pos (any_name.mpr (List.mem_map.mp hadministered.group))]
    have hgshadow : (tables.gshadow.map fun records =>
        if records.any (·.name = settings.administratorGroup) then records
        else records ++ [⟨settings.administratorGroup, ['!'], [], []⟩]) = tables.gshadow := by
      cases hrecords : tables.gshadow with
      | none => rfl
      | some records =>
          rw [Option.map_some,
            if_pos (any_name.mpr (List.mem_map.mp (hadministered.gshadow records hrecords)))]
    rw [if_neg hall, hgroup]
    dsimp only [bind, Except.bind]
    rw [hgshadow]
    rfl

/-! ## What is to be reached -/

/-- A user's records, as they are to be found in the tables. -/
structure Accounted (settings : Settings) (tables : Tables) (user : User) : Prop where
  passwd : ∃ r, tables.passwd.filter (·.name = user.name.text) = [r] ∧
    uidOf settings r = some (user.uid : Int) ∧
    Text.int settings.unicode r.gid = some (user.gid : Int) ∧ r.home = user.guestHome
  group : ∃ r ∈ tables.group, gidOf settings r = some (user.gid : Int)
  member : ∀ r, tables.group.find? (·.name = settings.administratorGroup) = some r →
    (user.name.text ∈ members r.members ↔ user.administrator = true)
  shadow : ∀ records ∈ tables.shadow, ∃ r, records.filter (·.name = user.name.text) = [r] ∧
    (settings.hostAuthentication = true → r.password = ['!'])

/-- The users have their records in the files, and a second run changes nothing. -/
structure Reconciled (settings : Settings) (users : List User) (etc : Etc) : Prop where
  accounted : ∀ user ∈ nonRoot users,
    ∃ tables, readTables etc = .ok tables ∧ Accounted settings tables user
  again : reconcileAccounts settings users etc = (.ok (), etc)

/-- No name is unfit for the files, and no turn undoes an earlier one. -/
structure Fair (settings : Settings) (users : List User) (etc : Etc) : Prop where
  unbroken : ∀ user ∈ nonRoot users, Unbroken user
  uncut : ∀ user ∈ nonRoot users, Uncut user
  turns : ∀ tables start, readTables etc = .ok tables →
    prepare settings tables (nonRoot users) = .ok start →
    EveryTurn settings (fun earlier mid user later =>
      Unrobbed settings earlier mid user later ∧ Spared settings earlier mid user) start
      (nonRoot users)

theorem accounted_of_settled {tables : Tables} {user : User}
    (hdistinct : Distinct settings tables) (hsettled : Settled settings tables user)
    (hgroup : HasGroup settings tables user) : Accounted settings tables user where
  passwd := by
    obtain ⟨gecos, hmem⟩ := hsettled.account
    exact ⟨_, filter_eq_singleton hdistinct.names hmem, uidOf_account _ _ _,
      int_digits settings user.gid, rfl⟩
  group := List.mem_map.mp hgroup
  member r hr := hsettled.member r.members (.group (congrArg (Option.map GroupRecord.members) hr))
  shadow records hrecords := by
    obtain ⟨r, hr, hname, hpassword⟩ := hsettled.shadow records hrecords
    refine ⟨r, ?_, hpassword⟩
    rw [← hname]
    exact filter_eq_singleton (hdistinct.shadowNames records hrecords) hr

/-! ## A run and the run after it -/

theorem EveryTurn.imp {P Q : List User → Tables → User → List User → Prop} {tables : Tables}
    {users : List User} (h : EveryTurn settings P tables users)
    (himp : ∀ earlier mid user later, P earlier mid user later → Q earlier mid user later) :
    EveryTurn settings Q tables users :=
  fun before user after mid heq hmid => himp _ _ _ _ (h before user after mid heq hmid)

theorem Run.administered {users : List User} {etc : Etc} {tables start tables' : Tables}
    (h : Run settings users etc tables start tables')
    (hany : ∃ user ∈ nonRoot users, user.administrator = true) :
    Administered settings start := by
  obtain ⟨hgroup, hgshadow⟩ := (prepare_spec h.prepared).present hany
  exact ⟨List.mem_map.mpr hgroup, fun records hrecords =>
    List.mem_map.mpr (hgshadow records hrecords)⟩

theorem nonRoot_nodup {α : Type} {f : User → α} {users : List User}
    (h : (users.map f).Nodup) : ((nonRoot users).map f).Nodup :=
  h.sublist (List.filter_sublist.map f)

theorem Run.settled {users : List User} {etc : Etc} {tables start tables' : Tables}
    (h : Run settings users etc tables start tables')
    (hnames : (users.map (·.name)).Nodup) (huids : (users.map (·.uid)).Nodup)
    (hdistinct : Distinct settings tables) (huncut : ∀ user ∈ nonRoot users, Uncut user)
    (hspared : EveryTurn settings (fun earlier mid user _ => Spared settings earlier mid user)
      start (nonRoot users)) :
    ∀ user ∈ nonRoot users, Settled settings tables' user :=
  turns_settled [] (nonRoot_nodup hnames) (nonRoot_nodup huids)
    ((prepare_spec h.prepared).distinct hdistinct) huncut h.administered (by simp) hspared h.turns

theorem Run.distinct {users : List User} {etc : Etc} {tables start tables' : Tables}
    (h : Run settings users etc tables start tables') (hdistinct : Distinct settings tables) :
    Distinct settings tables' :=
  turns_distinct ((prepare_spec h.prepared).distinct hdistinct) h.turns

theorem foldlM_turn_settled {users : List User} {tables : Tables}
    (h : ∀ user ∈ users, turn settings tables user = .ok tables) :
    users.foldlM (turn settings) tables = .ok tables := by
  induction users with
  | nil => rfl
  | cons user users ih =>
      rw [List.foldlM_cons, h user List.mem_cons_self]
      exact ih fun u hu => h u (List.mem_cons_of_mem user hu)

theorem reconciled_of_fair {users : List User} {etc etc' : Etc}
    (hnames : (users.map (·.name)).Nodup) (huids : (users.map (·.uid)).Nodup)
    (hdistinct : ∀ tables, readTables etc = .ok tables → Distinct settings tables)
    (h : reconcileAccounts settings users etc = (.ok (), etc'))
    (hfair : Fair settings users etc) : Reconciled settings users etc' := by
  rcases eq_or_ne (nonRoot users) [] with hnil | hne
  · exact ⟨by simp [hnil], reconcileAccounts_nil etc' hnil⟩
  · obtain ⟨tables, start, tables', hrun, rfl, hfails⟩ := reconcileAccounts_ok hne h
    have hdistinct' := hdistinct tables hrun.read
    have hstart := (prepare_spec hrun.prepared).distinct hdistinct'
    have hfinal := hrun.distinct hdistinct'
    have hread := hrun.read_back hdistinct' hfair.unbroken
    have hturns := hfair.turns tables start hrun.read hrun.prepared
    have hsettled := hrun.settled hnames huids hdistinct' hfair.uncut
      (hturns.imp fun _ _ _ _ hboth => hboth.2)
    have hgroups : ∀ user ∈ nonRoot users, HasGroup settings tables' user :=
      turns_hasGroup [] hstart (by simp)
        (hturns.imp fun _ _ _ _ hboth => hboth.1) hrun.turns
    have hnumeric := turns_numeric hne hstart hrun.turns
    refine ⟨fun user huser => ⟨tables', hread, ?_⟩, ?_⟩
    · exact accounted_of_settled hfinal (hsettled user huser) (hgroups user huser)
    · have hagain : Run settings users (etc.writeAll tables'.texts) tables' tables' tables' := by
        refine ⟨hread, prepare_settled fun hany => ?_, foldlM_turn_settled fun user huser => ?_⟩
        · exact turns_administered hstart (hrun.administered hany) hrun.turns
        · exact turn_settled hfinal hnumeric (hsettled user huser) (hgroups user huser)
      rw [reconcileAccounts_of_run hne hagain hfails, writeAll_again]

/-! ## What a second run finds was settled -/

theorem turns_account (done : List User) {users : List User} {tables tables' : Tables}
    (hnames : ((done ++ users).map (·.name)).Nodup)
    (huids : ((done ++ users).map (·.uid)).Nodup)
    (hdistinct : Distinct settings tables)
    (hdone : ∀ user ∈ done, ∃ gecos,
      account settings tables.shadow.isSome user gecos ∈ tables.passwd)
    (h : users.foldlM (turn settings) tables = .ok tables') :
    ∀ user ∈ done ++ users, ∃ gecos,
      account settings tables'.shadow.isSome user gecos ∈ tables'.passwd := by
  induction users generalizing done tables with
  | nil =>
      cases h
      simpa using hdone
  | cons user users ih =>
      rw [List.foldlM_cons] at h
      obtain ⟨mid, hturn, h⟩ := Outcome.bind_eq_ok.mp h
      obtain ⟨oldName, hstep⟩ := turn_step hdistinct hturn
      have hassoc : done ++ [user] ++ users = done ++ user :: users := by simp
      rw [← hassoc]
      refine ih _ (by rwa [hassoc]) (by rwa [hassoc]) (hstep.distinct hdistinct) ?_ h
      rw [List.forall_mem_append, List.forall_mem_singleton]
      refine ⟨fun other hother => ?_, hstep.account_mem⟩
      obtain ⟨hname, huid⟩ := users_differ hnames huids hother List.mem_cons_self
      exact hstep.keeps_account hname huid (hdone other hother)

/-- Where no record of a user's UID has another name, nothing is renamed. -/
theorem everyTurn_spared {users : List User} {tables : Tables}
    (huids : (users.map (·.uid)).Nodup) (hdistinct : Distinct settings tables)
    (hnamed : ∀ user ∈ users, ∀ r ∈ tables.passwd,
      uidOf settings r = some (user.uid : Int) → r.name = user.name.text) :
    EveryTurn settings (fun earlier mid user _ => Spared settings earlier mid user) tables
      users := by
  intro before user after mid heq hmid r hr hruid hrname
  refine absurd ?_ hrname
  have huser : user ∈ users := by
    rw [heq]
    simp
  refine (Outcome.foldlM_ok (P := fun t => Distinct settings t ∧ ∀ r ∈ t.passwd,
    uidOf settings r = some (user.uid : Int) → r.name = user.name.text) ?_
    ⟨hdistinct, hnamed user huser⟩ hmid).2 r hr hruid
  rintro other hother t t' ⟨ht, htnamed⟩ hturn
  obtain ⟨oldName, hstep⟩ := turn_step ht hturn
  refine ⟨hstep.distinct ht, fun r hr hruid => ?_⟩
  obtain ⟨old, before', after', hput⟩ := hstep.account
  rcases hput.put.mem_target.mp hr with rfl | hr
  · rw [uidOf_account, Option.some.injEq, Int.natCast_inj] at hruid
    rw [heq, List.map_append, List.map_cons, List.nodup_append] at huids
    exact absurd hruid (huids.2.2 _ (List.mem_map_of_mem hother) _ List.mem_cons_self)
  · exact htnamed r (hput.put.others hr) hruid

theorem Accounted.named {tables : Tables} {user : User} (h : Accounted settings tables user)
    (hdistinct : Distinct settings tables) :
    ∀ r ∈ tables.passwd, uidOf settings r = some (user.uid : Int) → r.name = user.name.text := by
  intro r hr hruid
  obtain ⟨s, hs, hsuid, -, -⟩ := h.passwd
  have hmem : s ∈ tables.passwd.filter (·.name = user.name.text) := by
    rw [hs]
    exact List.mem_singleton_self s
  obtain ⟨hmem, hname⟩ := List.mem_filter.mp hmem
  have hsame : r = s :=
    List.inj_on_of_nodup_map hdistinct.uids hr hmem (hruid.trans hsuid.symm)
  rw [hsame]
  exact of_decide_eq_true hname

theorem return_not_mem_plain {field : Text} (h : Plain field) : '\r' ∉ field :=
  fun hmem => Bool.false_ne_true (h.2 '\r' hmem).symm

/-- A turn puts no carriage return into the passwd file: what it writes of itself has
none, and names cannot. -/
theorem TurnStep.noReturn {tables tables' : Tables} {user : User} {oldName : Text}
    (h : TurnStep settings tables user tables' oldName)
    (hreturn : ∀ r ∈ tables.passwd, ∀ field ∈ Record.fields r, '\r' ∉ field) :
    ∀ r ∈ tables'.passwd, ∀ field ∈ Record.fields r, '\r' ∉ field := by
  intro r hr
  obtain ⟨old, before, after, hput⟩ := h.account
  rcases hput.put.mem_target.mp hr with rfl | hr
  · have hname : '\r' ∉ user.name.text := user.name.not_mem (by simp)
    have hgecos : '\r' ∉ (old.map (·.gecos)).getD [] := by
      cases hold : old with
      | none => exact List.not_mem_nil
      | some r =>
          exact hreturn r (hput.put.mem_source.mpr (.inl hold)) r.gecos (by simp [Record.fields])
    intro field hfield
    simp only [Record.fields, Accounts.account, List.mem_cons, List.not_mem_nil,
      or_false] at hfield
    rcases hfield with rfl | rfl | rfl | rfl | rfl | rfl | rfl
    · exact hname
    · split <;> decide
    · exact return_not_mem_plain (plain_of_digits user.uid)
    · exact return_not_mem_plain (plain_of_digits user.gid)
    · exact hgecos
    · unfold User.guestHome
      split
      · decide
      · rw [List.mem_append, not_or]
        exact ⟨by decide, hname⟩
    · exact return_not_mem_plain (plain_accountShell settings)
  · exact hreturn r (hput.put.others hr)

theorem Run.noReturn {users : List User} {etc : Etc} {tables start tables' : Tables}
    (h : Run settings users etc tables start tables') (hdistinct : Distinct settings tables) :
    ∀ r ∈ tables'.passwd, ∀ field ∈ Record.fields r, '\r' ∉ field := by
  have hprepared := prepare_spec h.prepared
  refine (Outcome.foldlM_ok (P := fun t => Distinct settings t ∧
    ∀ r ∈ t.passwd, ∀ field ∈ Record.fields r, '\r' ∉ field) ?_
    ⟨hprepared.distinct hdistinct, ?_⟩ h.turns).2
  · rintro other - mid mid' ⟨hmid, hreturn⟩ hturn
    obtain ⟨oldName, hstep⟩ := turn_step hmid hturn
    exact ⟨hstep.distinct hmid, hstep.noReturn hreturn⟩
  · intro r hr field hfield
    rw [hprepared.passwd] at hr
    exact return_not_mem_plain ((plainTables_of_read h.read).passwd r hr field hfield)

/-- A name in the passwd file that cannot be read. -/
theorem Run.unbroken {users : List User} {etc : Etc} {tables start tables' : Tables}
    (h : Run settings users etc tables start tables')
    (hnames : (users.map (·.name)).Nodup) (huids : (users.map (·.uid)).Nodup)
    (hdistinct : Distinct settings tables) {t : Tables}
    (hread : readTables (etc.writeAll tables'.texts) = .ok t) :
    ∀ user ∈ nonRoot users, Unbroken user := by
  have hstart := (prepare_spec h.prepared).distinct hdistinct
  intro user huser c hc
  by_contra hbreak
  rw [Bool.not_eq_false] at hbreak
  obtain ⟨gecos, hmem⟩ := turns_account [] (nonRoot_nodup hnames)
    (nonRoot_nodup huids) hstart (by simp) h.turns user huser
  obtain ⟨text, hnode, hpasswd⟩ := readRequired_ok (readTables_iff.mp hread).passwd
  rw [(node_writeAll etc tables'.texts_keys).1 (.passwd, databaseText tables'.passwd)
    (by simp [Tables.texts])] at hnode
  cases hnode
  exact unreadable_of_break (h.noReturn hdistinct) hmem rfl (user.name.not_mem (by simp))
    ⟨c, hc, hbreak⟩ _ hpasswd

/-- What was reconciled is settled, as the second run leaves it so. -/
theorem settled_of_reconciled {users : List User} {etc : Etc} {tables : Tables}
    (hnames : (users.map (·.name)).Nodup) (huids : (users.map (·.uid)).Nodup)
    (hne : nonRoot users ≠ []) (hread : readTables etc = .ok tables)
    (hdistinct : Distinct settings tables) (hunbroken : ∀ user ∈ nonRoot users, Unbroken user)
    (huncut : ∀ user ∈ nonRoot users, Uncut user)
    (hrec : Reconciled settings users etc) :
    ∀ user ∈ nonRoot users, Settled settings tables user := by
  obtain ⟨t, start, t', hrun, hetc, -⟩ := reconcileAccounts_ok hne hrec.again
  obtain rfl : tables = t := Except.ok.inj (hread.symm.trans hrun.read)
  have hread' := hrun.read_back hdistinct hunbroken
  rw [← hetc] at hread'
  obtain rfl : tables = t' := Except.ok.inj (hread.symm.trans hread')
  have hprepared := prepare_spec hrun.prepared
  refine hrun.settled hnames huids hdistinct huncut
    (everyTurn_spared (nonRoot_nodup huids) (hprepared.distinct hdistinct) fun user huser => ?_)
  obtain ⟨t, ht, haccounted⟩ := hrec.accounted user huser
  obtain rfl : tables = t := Except.ok.inj (hread.symm.trans ht)
  rw [hprepared.passwd]
  exact haccounted.named hdistinct

/-- Whoever is a member stays one through the turns of others. -/
theorem turns_member {users : List User} {tables tables' : Tables} {other : User}
    (hdistinct : Distinct settings tables) (huncut : ∀ user ∈ users, Uncut user)
    (hnames : ∀ user ∈ users, other.name.text ≠ user.name.text)
    (huids : ∀ user ∈ users, other.uid ≠ user.uid)
    (haccount : ∃ gecos, account settings tables.shadow.isSome other gecos ∈ tables.passwd)
    (hmember : ∃ field, AdministratorField settings tables field ∧
      other.name.text ∈ members field)
    (h : users.foldlM (turn settings) tables = .ok tables') :
    ∃ field, AdministratorField settings tables' field ∧ other.name.text ∈ members field := by
  refine (Outcome.foldlM_ok (P := fun t => (Distinct settings t ∧
    ∃ gecos, account settings t.shadow.isSome other gecos ∈ t.passwd) ∧
    ∃ field, AdministratorField settings t field ∧ other.name.text ∈ members field) ?_
    ⟨⟨hdistinct, haccount⟩, hmember⟩ h).2
  rintro user huser mid mid' ⟨⟨hmid, hmidAccount⟩, field, hfield, hmem⟩ hturn
  obtain ⟨oldName, hstep⟩ := turn_step hmid hturn
  have hold := hstep.oldName_ne hmid (hnames user huser) (huids user huser) hmidAccount
  refine ⟨⟨hstep.distinct hmid,
    hstep.keeps_account (hnames user huser) (huids user huser) hmidAccount⟩, _,
    hstep.field_kept hfield, ?_⟩
  exact (mem_turnField (huncut user huser) other.name.ne_nil (hnames user huser) hold).mpr
    (.inl hmem)

/-- An administrator that is a member of a group has no comma in the name. -/
theorem Run.uncut {users : List User} {etc : Etc} {tables start tables' : Tables}
    (h : Run settings users etc tables start tables') (hstart : Distinct settings start)
    (haccounted : ∀ user ∈ nonRoot users, Accounted settings tables' user) :
    ∀ user ∈ nonRoot users, Uncut user := by
  intro user huser hadministrator
  have hadministered := turns_administered hstart
    (h.administered ⟨user, huser, hadministrator⟩) h.turns
  obtain ⟨r, hr, hrname⟩ := List.mem_map.mp hadministered.group
  cases hfind : tables'.group.find? (·.name = settings.administratorGroup) with
  | none => exact absurd hrname (by simpa using List.find?_eq_none.mp hfind r hr)
  | some g => exact comma_not_mem (((haccounted user huser).member g hfind).mpr hadministrator)

section

variable {before after : List User} {user : User} {mid next tables' : Tables} {oldName : Text}

/-- A group that a turn takes another user's GID from is not there in the end. -/
theorem TurnStep.unrobbed (h : TurnStep settings mid user next oldName)
    (hmid : Distinct settings mid) (hrest : after.foldlM (turn settings) next = .ok tables')
    (haccounted : ∀ other ∈ before, Accounted settings tables' other) :
    Unrobbed settings before mid user after := by
  intro habsent r hr hname other hother hrgid
  by_contra hnone
  have hgone := h.robbed hmid habsent hr hname
  rw [hrgid] at hgone
  refine turns_gid_absent (h.distinct hmid) hgone (fun later hmem hgid => ?_) hrest
    (List.mem_map.mpr (haccounted other hother).group)
  rw [Option.some.injEq, Int.natCast_inj] at hgid
  exact hnone ⟨later, hmem, hgid.symm⟩

/-- A user that a renaming makes a member is one in the end. -/
theorem TurnStep.spared (h : TurnStep settings mid user next oldName)
    (hmid : Distinct settings mid) (hrest : after.foldlM (turn settings) next = .ok tables')
    (hnames : ((before ++ user :: after).map (·.name)).Nodup)
    (huids : ((before ++ user :: after).map (·.uid)).Nodup)
    (huncut : ∀ later ∈ user :: after, Uncut later)
    (haccount : ∀ other ∈ before, ∃ gecos,
      Accounts.account settings mid.shadow.isSome other gecos ∈ mid.passwd)
    (hsettled : ∀ other ∈ before, Settled settings tables' other) :
    Spared settings before mid user := by
  intro r hr hruid hrname other hother hnotAdministrator hpiece field hfield hmember
  obtain ⟨old, before', after', hput⟩ := h.account
  have hold : r.name = oldName := hput.oldName_of_uid hr hruid
  have hdiffer : ∀ later ∈ user :: after, other.name.text ≠ later.name.text ∧
      other.uid ≠ later.uid := fun later => users_differ hnames huids hother
  obtain ⟨hotherName, hotherUid⟩ := hdiffer user List.mem_cons_self
  have hotherOld := h.oldName_ne hmid hotherName hotherUid (haccount other hother)
  have hnow : ∃ field, AdministratorField settings next field ∧
      other.name.text ∈ members field := by
    refine ⟨_, h.field_kept hfield, ?_⟩
    rw [mem_turnField (huncut user List.mem_cons_self) other.name.ne_nil hotherName hotherOld]
    exact .inr ⟨hold ▸ hrname, hold ▸ hmember, hpiece⟩
  obtain ⟨field', hfield', hmember'⟩ := turns_member (h.distinct hmid)
    (fun later hmem => huncut later (List.mem_cons_of_mem user hmem))
    (fun later hmem => (hdiffer later (List.mem_cons_of_mem user hmem)).1)
    (fun later hmem => (hdiffer later (List.mem_cons_of_mem user hmem)).2)
    (h.keeps_account hotherName hotherUid (haccount other hother)) hnow hrest
  have hadministrator := ((hsettled other hother).member field' hfield').mp hmember'
  rw [hnotAdministrator] at hadministrator
  cases hadministrator

end

theorem fair_of_reconciled {users : List User} {etc etc' : Etc}
    (hnames : (users.map (·.name)).Nodup) (huids : (users.map (·.uid)).Nodup)
    (hdistinct : ∀ tables, readTables etc = .ok tables → Distinct settings tables)
    (h : reconcileAccounts settings users etc = (.ok (), etc'))
    (hrec : Reconciled settings users etc') : Fair settings users etc := by
  rcases eq_or_ne (nonRoot users) [] with hnil | hne
  · refine ⟨by simp [hnil], by simp [hnil], fun tables start _ _ => ?_⟩
    rw [hnil]
    exact everyTurn_nil
  · obtain ⟨tables, start, tables', hrun, rfl, hfails⟩ := reconcileAccounts_ok hne h
    have hdistinct' := hdistinct tables hrun.read
    have hstart := (prepare_spec hrun.prepared).distinct hdistinct'
    have hfinal := hrun.distinct hdistinct'
    have hunbroken : ∀ user ∈ nonRoot users, Unbroken user := by
      obtain ⟨first, hfirst⟩ := List.exists_mem_of_ne_nil _ hne
      obtain ⟨t, ht, -⟩ := hrec.accounted first hfirst
      exact hrun.unbroken hnames huids hdistinct' ht
    have hread := hrun.read_back hdistinct' hunbroken
    have haccounted : ∀ user ∈ nonRoot users, Accounted settings tables' user := by
      intro user huser
      obtain ⟨t, ht, haccounted⟩ := hrec.accounted user huser
      obtain rfl : tables' = t := Except.ok.inj (hread.symm.trans ht)
      exact haccounted
    have huncut := hrun.uncut hstart haccounted
    have hsettled := settled_of_reconciled hnames huids hne hread hfinal hunbroken huncut hrec
    refine ⟨hunbroken, huncut, fun t s ht hs => ?_⟩
    obtain rfl : tables = t := Except.ok.inj (hrun.read.symm.trans ht)
    obtain rfl : start = s := Except.ok.inj (hrun.prepared.symm.trans hs)
    intro before user after mid heq hmid
    have hrest := hrun.turns
    rw [heq, List.foldlM_append, hmid] at hrest
    obtain ⟨next, hturn, hrest⟩ := Outcome.bind_eq_ok.mp
      ((List.foldlM_cons (f := turn settings) (l := after)).symm.trans hrest)
    have hmidDistinct := turns_distinct hstart hmid
    obtain ⟨oldName, hstep⟩ := turn_step hmidDistinct hturn
    have hearlier : ∀ other ∈ before, other ∈ nonRoot users := by
      intro other hother
      rw [heq]
      exact List.mem_append_left _ hother
    have hlater : ∀ later ∈ user :: after, later ∈ nonRoot users := by
      intro later hmem
      rw [heq]
      exact List.mem_append_right _ hmem
    have hn := nonRoot_nodup (f := (·.name)) hnames
    have hu := nonRoot_nodup (f := (·.uid)) huids
    rw [heq] at hn hu
    have hbefore := turns_account [] (hn.sublist ((List.sublist_append_left _ _).map _))
      (hu.sublist ((List.sublist_append_left _ _).map _)) hstart (by simp) hmid
    exact ⟨hstep.unrobbed hmidDistinct hrest fun other hother =>
        haccounted other (hearlier other hother),
      hstep.spared hmidDistinct hrest hn hu (fun later hmem => huncut later (hlater later hmem))
        hbefore fun other hother => hsettled other (hearlier other hother)⟩

/-- A normal return has reconciled the users exactly if they are fair to each other. -/
theorem reconcileAccounts_reconciled_iff {users : List User} {etc etc' : Etc}
    (hnames : (users.map (·.name)).Nodup) (huids : (users.map (·.uid)).Nodup)
    (hunique : ∀ tables, readTables etc = .ok tables → Unique settings tables)
    (h : reconcileAccounts settings users etc = (.ok (), etc')) :
    Reconciled settings users etc' ↔ Fair settings users etc :=
  ⟨fair_of_reconciled hnames huids (fun tables ht => (hunique tables ht).toDistinct) h,
    reconciled_of_fair hnames huids (fun tables ht => (hunique tables ht).toDistinct) h⟩

/-! ## Two users and one group -/

def bob : User := ⟨1001, 1001, ⟨"bob".toList, by decide +kernel⟩, false⟩

/-- The group bob has alice's GID, and bob's has no group. -/
def sharedEtc : Etc := sampleEtc "root:x:0:\nbob:x:1000:\n" "root:!::\nbob:!::\n"

def sharedTables : Tables :=
  sampleTables [memberless "root" "0", memberless "bob" "1000"] [bare "root", bare "bob"]

/-- Bob's turn takes the group from alice. -/
theorem takenGroup_notReconciled :
    ([alice, bob].map (·.name)).Nodup ∧ ([alice, bob].map (·.uid)).Nodup ∧
    (∀ tables, readTables sharedEtc = .ok tables → Unique sampleSettings tables) ∧
    (reconcileAccounts sampleSettings [alice, bob] sharedEtc).1 = .ok () ∧
    ¬ Reconciled sampleSettings [alice, bob]
      (reconcileAccounts sampleSettings [alice, bob] sharedEtc).2 := by
  have hread : readTables sharedEtc = .ok sharedTables := by decide +kernel
  refine ⟨by decide +kernel, by decide +kernel, fun tables htables => ?_, by decide +kernel,
    fun hrec => ?_⟩
  · obtain rfl := Except.ok.inj (hread.symm.trans htables)
    exact sampleTables_unique (by decide +kernel) (by decide +kernel) (by decide +kernel)
  · obtain ⟨tables, htables, haccounted⟩ := hrec.accounted alice (by decide +kernel)
    have hgids : (readTables (reconcileAccounts sampleSettings [alice, bob] sharedEtc).2).map
        (fun t => t.group.map (gidOf sampleSettings)) = .ok [some 0, some 1001] := by
      decide +kernel
    obtain ⟨r, hr, hgid⟩ := haccounted.group
    have hmem := List.mem_map_of_mem (f := gidOf sampleSettings) hr
    rw [htables] at hgids
    have htable : tables.group.map (gidOf sampleSettings) = [some 0, some 1001] :=
      Except.ok.inj hgids
    rw [hgid, htable] at hmem
    revert hmem
    decide +kernel

/-- Two users who come into the same tables are reconciled. -/
theorem aliceBob_reconciled : Reconciled sampleSettings [alice, bob]
    (reconcileAccounts sampleSettings [alice, bob] freshEtc).2 := by
  have hreturned : (reconcileAccounts sampleSettings [alice, bob] freshEtc).1 = .ok () := by
    decide +kernel
  have hboth : nonRoot [alice, bob] = [alice, bob] := rfl
  refine (reconcileAccounts_reconciled_iff (by decide +kernel) (by decide +kernel) fresh_unique
    (Prod.ext hreturned rfl)).mpr ⟨?_, ?_, fun tables start hread hprepare => ?_⟩
  · have hall : ((nonRoot [alice, bob]).all fun user =>
        user.name.text.all fun c => !Text.isLineBreak c) = true := by decide +kernel
    intro user huser c hc
    simpa using List.all_eq_true.mp (List.all_eq_true.mp hall user huser) c hc
  · intro user huser hadministrator
    have hnone : ((nonRoot [alice, bob]).all fun user => !user.administrator) = true := by decide
    have huser := List.all_eq_true.mp hnone user huser
    rw [hadministrator] at huser
    cases huser
  · obtain rfl := Except.ok.inj (readTables_fresh.symm.trans hread)
    obtain rfl : freshTables = start := Except.ok.inj hprepare
    -- what alice's turn leaves for bob's
    have hafter : (turn sampleSettings freshTables alice).map (fun tables =>
        (tables.group.map (·.name), tables.passwd.map (uidOf sampleSettings))) =
          .ok (["root".toList, "alice".toList], [some 0, some 1000]) := by decide +kernel
    cases hturn : turn sampleSettings freshTables alice with
    | error refusal =>
        rw [hturn] at hafter
        cases hafter
    | ok mid =>
        rw [hturn] at hafter
        obtain ⟨hgroups, huids⟩ := Prod.mk.inj (Except.ok.inj hafter)
        rw [hboth, everyTurn_cons hturn]
        refine ⟨⟨by simp [Unrobbed], by simp [Spared]⟩, fun before user after mid' heq hmid' => ?_⟩
        cases before with
        | cons first before => simp at heq
        | nil =>
            cases heq
            cases hmid'
            refine ⟨fun _ r hr hname => ?_, fun r hr huid => ?_⟩
            · have hmem := List.mem_map_of_mem (f := (·.name)) hr
              rw [hgroups, hname] at hmem
              exact absurd hmem (by decide +kernel)
            · have hmem := List.mem_map_of_mem (f := uidOf sampleSettings) hr
              rw [huids, huid] at hmem
              exact absurd hmem (by decide +kernel)

end Spaces.Accounts
