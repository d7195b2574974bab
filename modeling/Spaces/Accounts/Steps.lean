import Spaces.Accounts.Reconcile

/-!
# What the parts of a turn change

Each part of a turn changes one record of its table or appends one. Where names and ids
are unique, no other record has the user's name or UID, so what a turn has set for one
user is never found again for another.
-/

namespace Spaces.Accounts

open Spaces.Library Records

variable {settings : Settings}

def uidOf (settings : Settings) (r : PasswdRecord) : Option Int :=
  Text.int settings.unicode r.uid

def gidOf (settings : Settings) (r : GroupRecord) : Option Int :=
  Text.int settings.unicode r.gid

theorem int_digits (settings : Settings) (n : Nat) :
    Text.int settings.unicode (digits n) = some (n : Int) :=
  Text.int_toDigits settings.unicode n

@[simp]
theorem uidOf_account (shadowed : Bool) (user : User) (gecos : Text) :
    uidOf settings (account settings shadowed user gecos) = some (user.uid : Int) :=
  int_digits settings user.uid

@[simp]
theorem gidOf_digits (name password memberField : Text) (gid : Nat) :
    gidOf settings ⟨name, password, digits gid, memberField⟩ = some (gid : Int) :=
  int_digits settings gid

theorem any_nonNumeric {α : Type} {text : α → Text} {records : List α} :
    records.any (nonNumeric settings <| text ·) = false ↔
      ∀ r ∈ records, (Text.int settings.unicode (text r)).isSome = true := by
  rw [List.any_eq_false]
  refine forall₂_congr fun r _ => ?_
  unfold nonNumeric
  cases Text.int settings.unicode (text r) <;> simp

/-! ## The account -/

/-- A user's account takes the place of the record that was found, or is appended. -/
structure AccountPut (settings : Settings) (shadowed : Bool) (user : User)
    (passwd passwd' : List PasswdRecord) (oldName : Text) (old : Option PasswdRecord)
    (before after : List PasswdRecord) : Prop where
  put : Put passwd passwd' old
    (account settings shadowed user ((old.map (·.gecos)).getD [])) before after
  oldName_eq : oldName = (old.map (·.name)).getD user.name.text
  others : ∀ r ∈ before ++ after,
    r.name ≠ user.name.text ∧ uidOf settings r ≠ some (user.uid : Int)
  matched : ∀ r ∈ old,
    uidOf settings r = some (user.uid : Int) ∨ r.name = user.name.text
  numeric : ∀ r ∈ passwd, (uidOf settings r).isSome = true

/-- The index that is found: of a record with the user's name or none, and with the
user's UID or none, and there is none beside it. -/
theorem accountIndex_some {passwd : List PasswdRecord} {user : User} {i : Nat}
    (hnames : (passwd.map (·.name)).Nodup) (huids : (passwd.map (uidOf settings)).Nodup)
    (h : accountIndex settings passwd user = .ok (some i)) :
    ∃ before r after, passwd = before ++ r :: after ∧ before.length = i ∧
      (uidOf settings r = some (user.uid : Int) ∨ r.name = user.name.text) ∧
      ∀ b ∈ before ++ after,
        b.name ≠ user.name.text ∧ uidOf settings b ≠ some (user.uid : Int) := by
  unfold accountIndex at h
  split at h
  · cases h
  · have hsplit : ∀ before r after, passwd = before ++ r :: after →
        Put passwd passwd (some r) r before after :=
      fun before r after heq => ⟨heq, heq⟩
    dsimp only at h
    split at h
    · next i j hname huid =>
        split at h
        · next hij =>
            subst hij
            obtain rfl : i = _ := by simpa using h
            obtain ⟨before, r, after, heq, hlength, hr, -⟩ := lastIdx?_eq_some hname
            obtain ⟨before', r', after', heq', hlength', hr', -⟩ := lastIdx?_eq_some huid
            have hsame := List.append_inj (heq.symm.trans heq') (hlength.trans hlength'.symm)
            obtain ⟨rfl, hsame⟩ := hsame
            obtain ⟨rfl, rfl⟩ := List.cons_eq_cons.mp hsame
            rw [decide_eq_true_iff] at hr hr'
            refine ⟨before, r, after, heq, hlength, .inr hr, fun b hb => ?_⟩
            have hput := hsplit before r after heq
            exact ⟨hr ▸ hput.others_ne hnames rfl hb,
              fun hb' => hput.others_ne huids rfl hb (hb'.trans hr'.symm)⟩
        · cases h
    · next j hname huid =>
        obtain rfl : j = i := by simpa using h
        obtain ⟨before, r, after, heq, hlength, hr, -⟩ := lastIdx?_eq_some huid
        rw [decide_eq_true_iff] at hr
        refine ⟨before, r, after, heq, hlength, .inl hr, fun b hb => ?_⟩
        have hput := hsplit before r after heq
        refine ⟨?_, fun hb' => hput.others_ne huids rfl hb (hb'.trans hr.symm)⟩
        simpa using lastIdx?_eq_none.mp hname b (hput.others hb)
    · next hname huid =>
        have hname : lastIdx? (·.name = user.name.text) passwd = some i := by simpa using h
        obtain ⟨before, r, after, heq, hlength, hr, -⟩ := lastIdx?_eq_some hname
        rw [decide_eq_true_iff] at hr
        refine ⟨before, r, after, heq, hlength, .inr hr, fun b hb => ?_⟩
        have hput := hsplit before r after heq
        refine ⟨hr ▸ hput.others_ne hnames rfl hb, ?_⟩
        simpa [uidOf] using lastIdx?_eq_none.mp huid b (hput.others hb)

theorem accountIndex_none {passwd : List PasswdRecord} {user : User}
    (h : accountIndex settings passwd user = .ok none) :
    ∀ r ∈ passwd, r.name ≠ user.name.text ∧ uidOf settings r ≠ some (user.uid : Int) := by
  unfold accountIndex at h
  split at h
  · cases h
  · dsimp only at h
    split at h
    · split at h <;> cases h
    · cases h
    · next huid =>
        have hname : lastIdx? (·.name = user.name.text) passwd = none := by simpa using h
        intro r hr
        exact ⟨by simpa using lastIdx?_eq_none.mp hname r hr,
          by simpa [uidOf] using lastIdx?_eq_none.mp huid r hr⟩

theorem accountIndex_numeric {passwd : List PasswdRecord} {user : User} {i : Option Nat}
    (h : accountIndex settings passwd user = .ok i) :
    ∀ r ∈ passwd, (uidOf settings r).isSome = true := by
  unfold accountIndex at h
  split at h
  · cases h
  · next hnumeric =>
      rw [Bool.not_eq_true] at hnumeric
      exact any_nonNumeric.mp hnumeric

theorem setAccount_put {shadowed : Bool} {passwd passwd' : List PasswdRecord} {user : User}
    {oldName : Text} (hnames : (passwd.map (·.name)).Nodup)
    (huids : (passwd.map (uidOf settings)).Nodup)
    (h : setAccount settings shadowed passwd user = .ok (oldName, passwd')) :
    ∃ old before after,
      AccountPut settings shadowed user passwd passwd' oldName old before after := by
  obtain ⟨index, hindex, h⟩ := Outcome.bind_eq_ok.mp h
  have hnumeric := accountIndex_numeric hindex
  cases index with
  | none =>
      cases h
      have hothers := accountIndex_none hindex
      exact ⟨none, passwd, [], Put.at_end passwd _, rfl, by simpa using hothers, by simp,
        hnumeric⟩
  | some i =>
      cases h
      obtain ⟨before, r, after, heq, hlength, hmatched, hothers⟩ :=
        accountIndex_some hnames huids hindex
      have hat : passwd[i]? = some r := by
        rw [heq, ← hlength, List.getElem?_append_right (Nat.le_refl _), Nat.sub_self]
        rfl
      refine ⟨some r, before, after, ⟨heq, ?_⟩, ?_, hothers, ?_, hnumeric⟩
      · rw [heq, ← hlength, modify_length_append]
        rfl
      · rw [hat]
      · rintro r' hr'
        cases hr'
        exact hmatched

/-- The old name is the user's own, unless a record had the user's UID. -/
theorem AccountPut.oldName_cases {shadowed : Bool} {user : User}
    {passwd passwd' before after : List PasswdRecord} {oldName : Text}
    {old : Option PasswdRecord}
    (h : AccountPut settings shadowed user passwd passwd' oldName old before after) :
    oldName = user.name.text ∨
      ∃ r ∈ passwd, r.name = oldName ∧ uidOf settings r = some (user.uid : Int) := by
  cases hold : old with
  | none =>
      left
      rw [h.oldName_eq, hold]
      rfl
  | some r =>
      have hname : oldName = r.name := by
        rw [h.oldName_eq, hold]
        rfl
      rcases h.matched r hold with huid | hmatched
      · exact .inr ⟨r, h.put.mem_source.mpr (.inl hold), hname.symm, huid⟩
      · exact .inl (hname.trans hmatched)

/-- And what had the user's UID gave its name. -/
theorem AccountPut.oldName_of_uid {shadowed : Bool} {user : User}
    {passwd passwd' before after : List PasswdRecord} {oldName : Text}
    {old : Option PasswdRecord}
    (h : AccountPut settings shadowed user passwd passwd' oldName old before after)
    {r : PasswdRecord} (hr : r ∈ passwd) (huid : uidOf settings r = some (user.uid : Int)) :
    r.name = oldName := by
  rcases h.put.mem_source.mp hr with hold | hother
  · rw [h.oldName_eq, hold]
    rfl
  · exact absurd huid (h.others r hother).2

/-! ## The group of the GID -/

/-- What is done for the user's GID. -/
inductive GroupStep (settings : Settings) (user : User) (group : List GroupRecord)
    (gshadow : Option (List GshadowRecord)) :
    List GroupRecord → Option (List GshadowRecord) → Prop where
  | present (r : GroupRecord) (hr : r ∈ group)
      (hgid : gidOf settings r = some (user.gid : Int)) :
      GroupStep settings user group gshadow group gshadow
  | append (habsent : ∀ r ∈ group, gidOf settings r ≠ some (user.gid : Int))
      (hname : ∀ r ∈ group, r.name ≠ user.name.text) :
      GroupStep settings user group gshadow
        (group ++ [⟨user.name.text, ['x'], digits user.gid, []⟩])
        (gshadow.map (· ++ [⟨user.name.text, ['!'], [], []⟩]))
  | take (before : List GroupRecord) (r : GroupRecord) (after : List GroupRecord)
      (habsent : ∀ r ∈ group, gidOf settings r ≠ some (user.gid : Int))
      (hsplit : group = before ++ r :: after) (hname : r.name = user.name.text)
      (hbefore : ∀ b ∈ before, b.name ≠ user.name.text) :
      GroupStep settings user group gshadow
        (before ++ { r with gid := digits user.gid } :: after) gshadow

theorem ensureUserGroup_step {group group' : List GroupRecord}
    {gshadow gshadow' : Option (List GshadowRecord)} {user : User}
    (h : ensureUserGroup settings group gshadow user = .ok (group', gshadow')) :
    GroupStep settings user group gshadow group' gshadow' ∧
      ∀ r ∈ group, (gidOf settings r).isSome = true := by
  unfold ensureUserGroup at h
  split at h
  · cases h
  · next hnumeric =>
      rw [Bool.not_eq_true] at hnumeric
      refine ⟨?_, any_nonNumeric.mp hnumeric⟩
      split at h
      · next hpresent =>
          cases h
          obtain ⟨r, hr, hgid⟩ := List.any_eq_true.mp hpresent
          exact .present r hr (of_decide_eq_true hgid)
      · next habsent =>
          have habsent : ∀ r ∈ group, gidOf settings r ≠ some (user.gid : Int) := by
            intro r hr heq
            exact habsent (List.any_eq_true.mpr ⟨r, hr, decide_eq_true heq⟩)
          split at h
          · next hindex =>
              cases h
              refine .append habsent fun r hr => ?_
              simpa using List.findIdx?_eq_none_iff.mp hindex r hr
          · next i hindex =>
              cases h
              obtain ⟨before, r, after, hsplit, hlength, hr, hbefore⟩ := findIdx?_split hindex
              rw [hsplit, ← hlength, modify_length_append, ← hsplit]
              exact .take before r after habsent hsplit (of_decide_eq_true hr)
                fun b hb => by simpa using hbefore b hb

/-! ## The members -/

section Members

variable {R : Type} (column : MemberColumn R)

/-- The members of the first group with a name. -/
def membersOf (records : List R) (groupName : Text) : Option Text :=
  (records.find? (column.name · = groupName)).map column.members

/-- One record, with the group's name, has its members altered. -/
theorem setGroupMember_split (records : List R) (groupName userName : Text) (enabled : Bool) :
    (setGroupMember column records groupName userName enabled = records ∧
      ∀ r ∈ records, column.name r ≠ groupName) ∨
    ∃ before r after, records = before ++ r :: after ∧ column.name r = groupName ∧
      (∀ b ∈ before, column.name b ≠ groupName) ∧
      setGroupMember column records groupName userName enabled
        = before ++ column.alter (setMember userName enabled) r :: after := by
  unfold setGroupMember
  cases hindex : records.findIdx? (column.name · = groupName) with
  | none =>
      refine .inl ⟨rfl, fun r hr => ?_⟩
      simpa using List.findIdx?_eq_none_iff.mp hindex r hr
  | some i =>
      obtain ⟨before, r, after, rfl, rfl, hr, hbefore⟩ := findIdx?_split hindex
      refine .inr ⟨before, r, after, rfl, of_decide_eq_true hr,
        fun b hb => by simpa using hbefore b hb, ?_⟩
      exact modify_length_append before after r _

theorem forall_setGroupMember {P : R → Prop} {records : List R} {groupName userName : Text}
    {enabled : Bool} (h : ∀ r ∈ records, P r)
    (halter : ∀ r, P r → P (column.alter (setMember userName enabled) r)) :
    ∀ r ∈ setGroupMember column records groupName userName enabled, P r := by
  rcases setGroupMember_split column records groupName userName enabled with
    ⟨heq, -⟩ | ⟨before, r, after, hsplit, -, -, heq⟩
  · rwa [heq]
  · rw [hsplit, List.forall_mem_append, List.forall_mem_cons] at h
    rw [heq, List.forall_mem_append, List.forall_mem_cons]
    exact ⟨h.1, halter r h.2.1, h.2.2⟩

theorem map_setGroupMember {β : Type} (f : R → β) (hf : ∀ g r, f (column.alter g r) = f r)
    (records : List R) (groupName userName : Text) (enabled : Bool) :
    (setGroupMember column records groupName userName enabled).map f = records.map f := by
  rcases setGroupMember_split column records groupName userName enabled with
    ⟨heq, -⟩ | ⟨before, r, after, hsplit, -, -, heq⟩
  · rw [heq]
  · rw [heq, hsplit, List.map_append, List.map_append, List.map_cons, List.map_cons, hf]

theorem membersOf_setGroupMember (records : List R) (groupName userName : Text)
    (enabled : Bool) :
    membersOf column (setGroupMember column records groupName userName enabled) groupName
      = (membersOf column records groupName).map (setMember userName enabled) := by
  unfold membersOf
  rcases setGroupMember_split column records groupName userName enabled with
    ⟨heq, hnone⟩ | ⟨before, r, after, hsplit, hr, hbefore, heq⟩
  · have hfind : records.find? (column.name · = groupName) = none := by
      rw [List.find?_eq_none]
      intro r hr
      simpa using hnone r hr
    rw [heq, hfind]
    rfl
  · have hskip : before.find? (column.name · = groupName) = none := by
      rw [List.find?_eq_none]
      intro b hb
      simpa using hbefore b hb
    rw [heq, hsplit, List.find?_append, List.find?_append, hskip, Option.none_or,
      Option.none_or, List.find?_cons_of_pos (by simp [column.name_alter, hr]),
      List.find?_cons_of_pos (by simp [hr])]
    simp [column.members_alter]

theorem membersOf_map {f : R → R} {g : Text → Text} (hname : ∀ r, column.name (f r) = column.name r)
    (hmembers : ∀ r, column.members (f r) = g (column.members r)) (records : List R)
    (groupName : Text) :
    membersOf column (records.map f) groupName = (membersOf column records groupName).map g := by
  unfold membersOf
  rw [List.find?_map]
  have hcomp : ((fun r => decide (column.name r = groupName)) ∘ f)
      = fun r => decide (column.name r = groupName) := by
    funext r
    simp [hname]
  rw [hcomp]
  cases records.find? (fun r => decide (column.name r = groupName)) with
  | none => rfl
  | some r => exact congrArg some (hmembers r)

/-- A group whose members are as they should be stays as it is. -/
theorem setGroupMember_eq_self {records : List R} {groupName userName : Text} {enabled : Bool}
    (h : ∀ field ∈ membersOf column records groupName,
      (userName ∈ members field ↔ enabled = true)) :
    setGroupMember column records groupName userName enabled = records := by
  rcases setGroupMember_split column records groupName userName enabled with
    ⟨heq, -⟩ | ⟨before, r, after, hsplit, hr, hbefore, heq⟩
  · exact heq
  · have hfield : membersOf column records groupName = some (column.members r) := by
      have hskip : before.find? (column.name · = groupName) = none := by
        rw [List.find?_eq_none]
        intro b hb
        simpa using hbefore b hb
      rw [membersOf, hsplit, List.find?_append, hskip, Option.none_or,
        List.find?_cons_of_pos (by simp [hr])]
      rfl
    rw [heq, hsplit, column.alter_self _ _ (setMember_eq_self (h _ hfield))]

end Members

theorem membersOf_setGroup (settings : Settings) (group : List GroupRecord) (oldName : Text)
    (user : User) :
    membersOf groupMembers (setGroup settings group oldName user) settings.administratorGroup
      = (membersOf groupMembers group settings.administratorGroup).map fun field =>
          setMember user.name.text user.administrator
            (renameMember oldName user.name.text field) := by
  rw [setGroup, membersOf_setGroupMember,
    membersOf_map groupMembers (f := .rename oldName user.name.text)
      (g := renameMember oldName user.name.text) (fun _ => rfl)
      (fun _ => rfl), Option.map_map]
  rfl

theorem membersOf_setGshadow (settings : Settings) (gshadow : List GshadowRecord)
    (oldName : Text) (user : User) :
    membersOf gshadowMembers (setGshadow settings gshadow oldName user)
        settings.administratorGroup
      = (membersOf gshadowMembers gshadow settings.administratorGroup).map fun field =>
          setMember user.name.text user.administrator
            (renameMember oldName user.name.text field) := by
  rw [setGshadow, membersOf_setGroupMember,
    membersOf_map gshadowMembers (f := .rename oldName user.name.text)
      (g := renameMember oldName user.name.text) (fun _ => rfl)
      (fun _ => rfl), Option.map_map]
  rfl

theorem names_setGroup (settings : Settings) (group : List GroupRecord) (oldName : Text)
    (user : User) : (setGroup settings group oldName user).map (·.name) = group.map (·.name) := by
  rw [setGroup, map_setGroupMember groupMembers _ (fun _ _ => rfl), List.map_map]
  rfl

theorem gids_setGroup (settings : Settings) (group : List GroupRecord) (oldName : Text)
    (user : User) :
    (setGroup settings group oldName user).map (gidOf settings) = group.map (gidOf settings) := by
  rw [setGroup, map_setGroupMember groupMembers _ (fun _ _ => rfl), List.map_map]
  rfl

theorem names_setGshadow (settings : Settings) (gshadow : List GshadowRecord) (oldName : Text)
    (user : User) :
    (setGshadow settings gshadow oldName user).map (·.name) = gshadow.map (·.name) := by
  rw [setGshadow, map_setGroupMember gshadowMembers _ (fun _ _ => rfl), List.map_map]
  rfl

/-! ## The shadow record -/

structure ShadowPut (settings : Settings) (user : User) (oldName : Text)
    (shadow shadow' : List ShadowRecord) (old : Option ShadowRecord) (new : ShadowRecord)
    (before after : List ShadowRecord) : Prop where
  put : Put shadow shadow' old new before after
  new_name : new.name = user.name.text
  new_password : (settings.hostAuthentication = true ∨ old = none) → new.password = ['!']
  others : ∀ r ∈ before ++ after, r.name ≠ user.name.text
  matched : ∀ r ∈ old, r.name = oldName ∨ r.name = user.name.text
  assigned : ∀ r ∈ old, new = r.assign settings user
  fresh : old = none → new = ⟨user.name.text, ['!'], [], [], [], [], [], [], []⟩

theorem setShadow_put {shadow shadow' : List ShadowRecord} {oldName : Text} {user : User}
    (hnames : (shadow.map (·.name)).Nodup)
    (h : setShadow settings shadow oldName user = .ok shadow') :
    ∃ old new before after,
      ShadowPut settings user oldName shadow shadow' old new before after := by
  unfold setShadow at h
  dsimp only at h
  split at h
  · cases h
  · next hagree =>
      -- the record that is changed, when no other one bears the user's name
      have hchange : ∀ before r after, shadow = before ++ r :: after →
          (r.name = oldName ∨ r.name = user.name.text) →
          (∀ b ∈ before ++ after, b.name ≠ user.name.text) →
          ∃ old new before' after', ShadowPut settings user oldName shadow
            (shadow.modify before.length (.assign settings user)) old new before' after' := by
        intro before r after hsplit hmatched hothers
        refine ⟨some r, .assign settings user r, before, after, ⟨hsplit, ?_⟩, rfl, ?_, hothers,
          ?_, ?_, fun hnone => by cases hnone⟩
        · rw [hsplit, modify_length_append]
        · rintro (hauth | hnone)
          · exact if_pos hauth
          · cases hnone
        · rintro r' hr'
          cases hr'
          exact hmatched
        · rintro r' hr'
          cases hr'
          rfl
      cases hold : lastIdx? (·.name = oldName) shadow with
      | some i =>
          rw [hold] at h hagree
          cases h
          obtain ⟨before, r, after, hsplit, rfl, hr, -⟩ := lastIdx?_eq_some hold
          rw [decide_eq_true_iff] at hr
          refine hchange before r after hsplit (.inl hr) fun b hb hname => ?_
          have hput : Put shadow shadow (some r) r before after := ⟨hsplit, hsplit⟩
          by_cases hsame : oldName = user.name.text
          · exact hput.others_ne hnames rfl hb (hname.trans (hr.trans hsame).symm)
          · -- the other record would have been found, at another index
            cases hnew : lastIdx? (·.name = user.name.text) shadow with
            | none =>
                have := lastIdx?_eq_none.mp hnew b (hput.others hb)
                simp [hname] at this
            | some j =>
                rw [hnew] at hagree
                obtain ⟨before', r', after', hsplit', rfl, hr', -⟩ := lastIdx?_eq_some hnew
                rw [decide_eq_true_iff] at hr'
                refine hagree ⟨hsame, rfl, rfl, fun heq => hsame ?_⟩
                have hlength := Option.some.inj heq
                have hinj := List.append_inj (hsplit.symm.trans hsplit') hlength
                rw [← hr, (List.cons_eq_cons.mp hinj.2).1, hr']
      | none =>
          rw [hold] at h hagree
          cases hnew : lastIdx? (·.name = user.name.text) shadow with
          | some j =>
              rw [hnew] at h
              cases h
              obtain ⟨before, r, after, hsplit, rfl, hr, -⟩ := lastIdx?_eq_some hnew
              rw [decide_eq_true_iff] at hr
              have hput : Put shadow shadow (some r) r before after := ⟨hsplit, hsplit⟩
              exact hchange before r after hsplit (.inr hr) fun b hb =>
                hr ▸ hput.others_ne hnames rfl hb
          | none =>
              rw [hnew] at h
              cases h
              refine ⟨none, _, shadow, [], Put.at_end shadow _, rfl, fun _ => rfl, ?_, by simp,
                by simp, fun _ => rfl⟩
              intro r hr
              rw [List.append_nil] at hr
              simpa using lastIdx?_eq_none.mp hnew r hr

end Spaces.Accounts
