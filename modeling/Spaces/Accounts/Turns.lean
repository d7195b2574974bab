import Spaces.Accounts.Steps

/-!
# One turn after the other

Names and ids stay unique, column by column, with one exception: the group that is
appended for a user brings a gshadow record of the same name with it, and nobody asks
whether there is one already.
-/

namespace Spaces.Accounts

open Spaces.Library Records

variable {settings : Settings}

/-- The columns that stay unique in any case. -/
structure Distinct (settings : Settings) (tables : Tables) : Prop where
  names : (tables.passwd.map (·.name)).Nodup
  uids : (tables.passwd.map (uidOf settings)).Nodup
  groupNames : (tables.group.map (·.name)).Nodup
  gids : (tables.group.map (gidOf settings)).Nodup
  shadowNames : ∀ records ∈ tables.shadow, (records.map (·.name)).Nodup

/-- All six columns. -/
structure Unique (settings : Settings) (tables : Tables) : Prop
    extends Distinct settings tables where
  gshadowNames : ∀ records ∈ tables.gshadow, (records.map (·.name)).Nodup

/-! ## The administrator group -/

structure Prepared (settings : Settings) (users : List User) (tables tables' : Tables) :
    Prop where
  passwd : tables'.passwd = tables.passwd
  shadow : tables'.shadow = tables.shadow
  group : tables'.group = tables.group ∨
    (∀ r ∈ tables.group, r.name ≠ settings.administratorGroup) ∧
      ∃ gid : Nat, (∀ r ∈ tables.group, gidOf settings r ≠ some (gid : Int)) ∧
        tables'.group
          = tables.group ++ [⟨settings.administratorGroup, ['x'], digits gid, []⟩]
  gshadow : tables'.gshadow = tables.gshadow ∨
    ∃ records, tables.gshadow = some records ∧
      (∀ r ∈ records, r.name ≠ settings.administratorGroup) ∧
      tables'.gshadow = some (records ++ [⟨settings.administratorGroup, ['!'], [], []⟩])
  present : (∃ user ∈ users, user.administrator = true) →
    (∃ r ∈ tables'.group, r.name = settings.administratorGroup) ∧
      ∀ records ∈ tables'.gshadow, ∃ r ∈ records, r.name = settings.administratorGroup

theorem any_name {α : Type} {name : α → Text} {records : List α} {n : Text} :
    records.any (name · = n) = true ↔ ∃ r ∈ records, name r = n := by
  simp [List.any_eq_true]

theorem prepare_spec {tables tables' : Tables} {users : List User}
    (h : prepare settings tables users = .ok tables') :
    Prepared settings users tables tables' := by
  obtain ⟨⟨group, gshadow⟩, hensure, h⟩ := Outcome.bind_eq_ok.mp h
  cases h
  unfold ensureAdministratorGroup at hensure
  split at hensure
  · next hnone =>
      cases hensure
      refine ⟨rfl, rfl, .inl rfl, .inl rfl, ?_⟩
      rintro ⟨user, huser, hadministrator⟩
      have := List.all_eq_true.mp hnone user huser
      rw [hadministrator] at this
      cases this
  · obtain ⟨group', hgroup, hensure⟩ := Outcome.bind_eq_ok.mp hensure
    cases hensure
    have hgroup' : (group = tables.group ∧
        ∃ r ∈ tables.group, r.name = settings.administratorGroup) ∨
        (∀ r ∈ tables.group, r.name ≠ settings.administratorGroup) ∧
        ∃ gid : Nat, (∀ r ∈ tables.group, gidOf settings r ≠ some (gid : Int)) ∧
          group = tables.group ++ [⟨settings.administratorGroup, ['x'], digits gid, []⟩] := by
      unfold withAdministratorGroup at hgroup
      split at hgroup
      · next hany =>
          cases hgroup
          exact .inl ⟨rfl, any_name.mp hany⟩
      · next hany =>
          split at hgroup
          · cases hgroup
          · split at hgroup
            · cases hgroup
            · next gid hfind =>
                cases hgroup
                have hfree := List.find?_some hfind
                rw [Bool.and_eq_true, Bool.not_eq_true', List.any_eq_false] at hfree
                refine .inr ⟨fun r hr heq => hany (any_name.mpr ⟨r, hr, heq⟩), gid, ?_, rfl⟩
                intro r hr heq
                exact hfree.1 r hr (decide_eq_true heq)
    refine ⟨rfl, rfl, hgroup'.imp_left And.left, ?_, fun _ => ⟨?_, ?_⟩⟩
    · cases hgshadow : tables.gshadow with
      | none => exact .inl rfl
      | some records =>
          by_cases hany : records.any (·.name = settings.administratorGroup) = true
          · left
            dsimp only [Option.map_some]
            rw [if_pos hany]
          · right
            refine ⟨records, rfl, fun r hr heq => hany (any_name.mpr ⟨r, hr, heq⟩), ?_⟩
            dsimp only [Option.map_some]
            rw [if_neg hany]
    · rcases hgroup' with ⟨rfl, hr⟩ | ⟨-, gid, -, rfl⟩
      · exact hr
      · exact ⟨⟨settings.administratorGroup, ['x'], digits gid, []⟩, by simp, rfl⟩
    · intro records hrecords
      obtain ⟨records, -, rfl⟩ := Option.map_eq_some_iff.mp hrecords
      split
      · next hany => exact any_name.mp hany
      · exact ⟨⟨settings.administratorGroup, ['!'], [], []⟩, by simp, rfl⟩

theorem nodup_concat {α κ : Type} {key : α → κ} {records : List α} {r : α}
    (h : (records.map key).Nodup) (hr : ∀ r' ∈ records, key r' ≠ key r) :
    ((records ++ [r]).map key).Nodup :=
  (Put.at_end records r).nodup h (by simpa using hr)

theorem Prepared.distinct {users : List User} {tables tables' : Tables}
    (h : Prepared settings users tables tables') (hdistinct : Distinct settings tables) :
    Distinct settings tables' where
  names := h.passwd ▸ hdistinct.names
  uids := h.passwd ▸ hdistinct.uids
  groupNames := by
    rcases h.group with heq | ⟨hname, gid, -, heq⟩
    · exact heq ▸ hdistinct.groupNames
    · exact heq ▸ nodup_concat hdistinct.groupNames hname
  gids := by
    rcases h.group with heq | ⟨-, gid, hgid, heq⟩
    · exact heq ▸ hdistinct.gids
    · rw [heq]
      refine nodup_concat hdistinct.gids fun r hr => ?_
      rw [gidOf_digits]
      exact hgid r hr
  shadowNames := h.shadow ▸ hdistinct.shadowNames

theorem Prepared.gshadowNames {users : List User} {tables tables' : Tables}
    (h : Prepared settings users tables tables') (hunique : Unique settings tables) :
    ∀ records ∈ tables'.gshadow, (records.map (·.name)).Nodup := by
  rcases h.gshadow with heq | ⟨records, hrecords, hname, heq⟩
  · exact heq ▸ hunique.gshadowNames
  · rw [heq]
    rintro records' hrecords'
    cases hrecords'
    exact nodup_concat (hunique.gshadowNames records hrecords) hname

/-! ## A turn -/

structure TurnStep (settings : Settings) (tables : Tables) (user : User) (tables' : Tables)
    (oldName : Text) : Prop where
  account : ∃ old before after, AccountPut settings tables.shadow.isSome user tables.passwd
    tables'.passwd oldName old before after
  group : ∃ group gshadow, GroupStep settings user tables.group tables.gshadow group gshadow ∧
    tables'.group = setGroup settings group oldName user ∧
    tables'.gshadow = gshadow.map fun records => setGshadow settings records oldName user
  groupNumeric : ∀ r ∈ tables.group, (gidOf settings r).isSome = true
  shadowed : tables'.shadow.isSome = tables.shadow.isSome
  shadow : ∀ records ∈ tables.shadow, ∀ records' ∈ tables'.shadow,
    ∃ old new before after, ShadowPut settings user oldName records records' old new before after

theorem turn_step {tables tables' : Tables} {user : User} (hdistinct : Distinct settings tables)
    (h : turn settings tables user = .ok tables') :
    ∃ oldName, TurnStep settings tables user tables' oldName := by
  obtain ⟨⟨oldName, passwd⟩, hpasswd, h⟩ := Outcome.bind_eq_ok.mp h
  obtain ⟨⟨group, gshadow⟩, hgroup, h⟩ := Outcome.bind_eq_ok.mp h
  obtain ⟨shadow, hshadow, h⟩ := Outcome.bind_eq_ok.mp h
  cases h
  obtain ⟨hstep, hnumeric⟩ := ensureUserGroup_step hgroup
  refine ⟨oldName, setAccount_put hdistinct.names hdistinct.uids hpasswd,
    ⟨group, gshadow, hstep, rfl, rfl⟩, hnumeric, ?_, ?_⟩
  · unfold setShadowTable at hshadow
    split at hshadow
    · next heq =>
        cases hshadow
        rw [heq]
    · next records heq =>
        obtain ⟨records', -, rfl⟩ := Outcome.map_eq_ok.mp hshadow
        rw [heq]
        rfl
  · intro records hrecords records' hrecords'
    rw [Option.mem_def] at hrecords
    rw [hrecords] at hshadow
    unfold setShadowTable at hshadow
    obtain ⟨records'', hput, hsome⟩ := Outcome.map_eq_ok.mp hshadow
    rw [← hsome] at hrecords'
    cases hrecords'
    exact setShadow_put (hdistinct.shadowNames records hrecords) hput

theorem GroupStep.groupNames {user : User} {group group' : List GroupRecord}
    {gshadow gshadow' : Option (List GshadowRecord)}
    (h : GroupStep settings user group gshadow group' gshadow')
    (hnames : (group.map (·.name)).Nodup) : (group'.map (·.name)).Nodup := by
  cases h with
  | present r hr hgid => exact hnames
  | append habsent hname => exact nodup_concat hnames hname
  | take before r after habsent hsplit hname hbefore =>
      rw [hsplit, List.map_append, List.map_cons] at hnames
      rwa [List.map_append, List.map_cons]

theorem GroupStep.gids {user : User} {group group' : List GroupRecord}
    {gshadow gshadow' : Option (List GshadowRecord)}
    (h : GroupStep settings user group gshadow group' gshadow')
    (hgids : (group.map (gidOf settings)).Nodup) : (group'.map (gidOf settings)).Nodup := by
  cases h with
  | present r hr hgid => exact hgids
  | append habsent hname =>
      refine nodup_concat hgids fun r hr => ?_
      rw [gidOf_digits]
      exact habsent r hr
  | take before r after habsent hsplit hname hbefore =>
      have hput : Put group (before ++ { r with gid := digits user.gid } :: after) (some r)
          { r with gid := digits user.gid } before after := ⟨hsplit, rfl⟩
      refine hput.nodup hgids fun a ha => ?_
      rw [gidOf_digits]
      exact habsent a (hput.others ha)

theorem TurnStep.distinct {tables tables' : Tables} {user : User} {oldName : Text}
    (h : TurnStep settings tables user tables' oldName) (hdistinct : Distinct settings tables) :
    Distinct settings tables' := by
  obtain ⟨old, before, after, haccount⟩ := h.account
  obtain ⟨group, gshadow, hgroup, hgroup', -⟩ := h.group
  constructor
  · exact haccount.put.nodup hdistinct.names fun r hr => (haccount.others r hr).1
  · refine haccount.put.nodup hdistinct.uids fun r hr => ?_
    rw [uidOf_account]
    exact (haccount.others r hr).2
  · rw [hgroup', names_setGroup]
    exact hgroup.groupNames hdistinct.groupNames
  · rw [hgroup', gids_setGroup]
    exact hgroup.gids hdistinct.gids
  · intro records' hrecords'
    have hsome := h.shadowed
    rw [Option.mem_def.mp hrecords', Option.isSome_some] at hsome
    obtain ⟨records, hrecords⟩ := Option.isSome_iff_exists.mp hsome.symm
    obtain ⟨old, new, before, after, hput⟩ := h.shadow records hrecords records' hrecords'
    refine hput.put.nodup (hdistinct.shadowNames records hrecords) fun r hr => ?_
    rw [hput.new_name]
    exact hput.others r hr

/-! ## All turns -/

/-- Users at two places of a list without repetitions differ in their names and UIDs. -/
theorem users_differ {front back : List User}
    (hnames : ((front ++ back).map (·.name)).Nodup) (huids : ((front ++ back).map (·.uid)).Nodup)
    {user other : User} (huser : user ∈ front) (hother : other ∈ back) :
    user.name.text ≠ other.name.text ∧ user.uid ≠ other.uid := by
  rw [List.map_append, List.nodup_append] at hnames huids
  constructor
  · intro heq
    exact hnames.2.2 _ (List.mem_map_of_mem huser) _ (List.mem_map_of_mem hother)
      (UserName.ext heq)
  · exact huids.2.2 _ (List.mem_map_of_mem huser) _ (List.mem_map_of_mem hother)

/-- What holds at every turn, of the users before it, the tables it finds, the user and
the users after it. -/
def EveryTurn (settings : Settings) (P : List User → Tables → User → List User → Prop)
    (tables : Tables) (users : List User) : Prop :=
  ∀ before user after tables', users = before ++ user :: after →
    before.foldlM (turn settings) tables = .ok tables' → P before tables' user after

theorem everyTurn_nil {P : List User → Tables → User → List User → Prop} {tables : Tables} :
    EveryTurn settings P tables [] := by
  intro before user after tables' h
  simp at h

theorem everyTurn_cons {P : List User → Tables → User → List User → Prop}
    {tables tables' : Tables} {user : User} {users : List User}
    (h : turn settings tables user = .ok tables') :
    EveryTurn settings P tables (user :: users) ↔
      P [] tables user users ∧
        EveryTurn settings (fun before => P (user :: before)) tables' users := by
  constructor
  · intro hall
    refine ⟨hall [] user users tables rfl rfl, fun before u after mid heq hmid => ?_⟩
    refine hall (user :: before) u after mid (by rw [heq]; rfl) ?_
    rw [List.foldlM_cons, h]
    exact hmid
  · rintro ⟨hhead, htail⟩ before u after mid heq hmid
    cases before with
    | nil =>
        cases heq
        cases hmid
        exact hhead
    | cons first before =>
        obtain ⟨rfl, rfl⟩ := List.cons_eq_cons.mp heq
        rw [List.foldlM_cons, h] at hmid
        exact htail before u after mid rfl hmid

theorem turns_distinct {tables tables' : Tables} {users : List User}
    (hdistinct : Distinct settings tables)
    (h : users.foldlM (turn settings) tables = .ok tables') : Distinct settings tables' := by
  refine Outcome.foldlM_ok (P := Distinct settings) ?_ hdistinct h
  intro user _ mid mid' hmid hturn
  obtain ⟨oldName, hstep⟩ := turn_step hmid hturn
  exact hstep.distinct hmid

end Spaces.Accounts
