import Spaces.Accounts.Written

/-!
# The written files can be read again

If no user's name holds a line boundary of `splitlines`, every field stays plain through
all turns, and the tables are read back as they were written. One name with such a
character is enough to make the passwd file unreadable: the character cuts the record
before its first colon.
-/

namespace Spaces.Accounts

open Spaces.Library Records

variable {settings : Settings}

structure PlainTables (tables : Tables) : Prop where
  passwd : ∀ r ∈ tables.passwd, PlainRecord r
  group : ∀ r ∈ tables.group, PlainRecord r
  shadow : ∀ records ∈ tables.shadow, ∀ r ∈ records, PlainRecord r
  gshadow : ∀ records ∈ tables.gshadow, ∀ r ∈ records, PlainRecord r

/-! ## Reading -/

theorem readRequired_ok {R : Type} [Record R] {etc : Etc} {database : Database}
    {records : List R} (h : readRequired etc database = .ok records) :
    ∃ text, etc.node database = .file text ∧ readDatabase database text = .ok records := by
  unfold readRequired at h
  split at h
  · next text heq => exact ⟨text, heq, h⟩
  · cases h

theorem readOptional_ok {R : Type} [Record R] {etc : Etc} {database : Database}
    {records : Option (List R)} (h : readOptional etc database = .ok records) :
    (etc.node database = .missing ∧ records = none) ∨
      ∃ text records', etc.node database = .file text ∧ records = some records' ∧
        readDatabase database text = .ok records' := by
  unfold readOptional at h
  split at h
  · next heq =>
      cases h
      exact .inl ⟨heq, rfl⟩
  · cases h
  · cases h
  · cases h
  · next text heq =>
      obtain ⟨records', hread, rfl⟩ := Outcome.map_eq_ok.mp h
      exact .inr ⟨text, records', heq, rfl, hread⟩

structure ReadFrom (etc : Etc) (tables : Tables) : Prop where
  directory : etc.directory = true
  passwd : readRequired etc .passwd = .ok tables.passwd
  group : readRequired etc .group = .ok tables.group
  shadow : readOptional etc .shadow = .ok tables.shadow
  gshadow : readOptional etc .gshadow = .ok tables.gshadow

theorem isFile_of_readRequired {R : Type} [Record R] {etc : Etc} {database : Database}
    {records : List R} (h : readRequired etc database = .ok records) :
    isFile (etc.node database) = true := by
  obtain ⟨text, heq, -⟩ := readRequired_ok h
  rw [heq]
  rfl

theorem readTables_iff {etc : Etc} {tables : Tables} :
    readTables etc = .ok tables ↔ ReadFrom etc tables := by
  unfold readTables
  constructor
  · intro h
    split at h
    · cases h
    · next hdirectory =>
        split at h
        · cases h
        · split at h
          · cases h
          · obtain ⟨passwd, hpasswd, h⟩ := Outcome.bind_eq_ok.mp h
            obtain ⟨group, hgroup, h⟩ := Outcome.bind_eq_ok.mp h
            obtain ⟨shadow, hshadow, h⟩ := Outcome.bind_eq_ok.mp h
            obtain ⟨gshadow, hgshadow, h⟩ := Outcome.bind_eq_ok.mp h
            cases h
            exact ⟨by simpa using hdirectory, hpasswd, hgroup, hshadow, hgshadow⟩
  · intro h
    rw [h.directory, isFile_of_readRequired h.passwd, isFile_of_readRequired h.group, h.passwd,
      h.group, h.shadow, h.gshadow]
    rfl

theorem plainTables_of_read {etc : Etc} {tables : Tables}
    (h : readTables etc = .ok tables) : PlainTables tables := by
  have hread := readTables_iff.mp h
  have hoptional : ∀ {R : Type} [Record R] {database : Database} {t : Option (List R)},
      readOptional etc database = .ok t → ∀ records ∈ t, ∀ r ∈ records, PlainRecord r := by
    intro R _ database t ht records hrecords
    rcases readOptional_ok ht with ⟨-, rfl⟩ | ⟨text, records', -, rfl, hread⟩
    · cases hrecords
    · cases hrecords
      exact plain_of_readDatabase hread
  obtain ⟨_, -, hpasswd⟩ := readRequired_ok hread.passwd
  obtain ⟨_, -, hgroup⟩ := readRequired_ok hread.group
  exact ⟨plain_of_readDatabase hpasswd, plain_of_readDatabase hgroup,
    hoptional hread.shadow, hoptional hread.gshadow⟩

/-! ## What is written is read back -/

theorem node_writeAll {texts : List (Database × Text)} (etc : Etc)
    (hkeys : (texts.map Prod.fst).Nodup) :
    (∀ entry ∈ texts, (etc.writeAll texts).node entry.1 = .file entry.2) ∧
      ∀ database ∉ texts.map Prod.fst, (etc.writeAll texts).node database = etc.node database := by
  induction texts generalizing etc with
  | nil => exact ⟨by simp, fun _ _ => rfl⟩
  | cons entry texts ih =>
      rw [List.map_cons, List.nodup_cons] at hkeys
      obtain ⟨hin, hout⟩ := ih (etc.write entry.1 entry.2) hkeys.2
      refine ⟨List.forall_mem_cons.mpr ⟨?_, hin⟩, fun database hdatabase => ?_⟩
      · refine (hout entry.1 hkeys.1).trans ?_
        exact Function.update_self _ _ _
      · rw [List.map_cons, List.mem_cons, not_or] at hdatabase
        refine (hout database hdatabase.2).trans ?_
        exact Function.update_of_ne hdatabase.1 _ _

/-- Writing what is there already. -/
theorem writeAll_eq_self {texts : List (Database × Text)} {etc : Etc}
    (h : ∀ entry ∈ texts, etc.node entry.1 = .file entry.2) : etc.writeAll texts = etc := by
  induction texts with
  | nil => rfl
  | cons entry texts ih =>
      obtain ⟨hhead, htail⟩ := List.forall_mem_cons.mp h
      have hwrite : etc.write entry.1 entry.2 = etc := by
        unfold Etc.write
        rw [← hhead, Function.update_eq_self]
      rw [Etc.writeAll, List.foldl_cons, hwrite]
      exact ih htail

theorem Tables.texts_keys (tables : Tables) : (tables.texts.map Prod.fst).Nodup := by
  obtain ⟨passwd, group, shadow, gshadow⟩ := tables
  cases shadow <;> cases gshadow <;> simp [Tables.texts]

theorem directory_writeAll (etc : Etc) (texts : List (Database × Text)) :
    (etc.writeAll texts).directory = etc.directory := by
  induction texts generalizing etc with
  | nil => rfl
  | cons entry texts ih => exact ih _

theorem writeAll_again (etc : Etc) (tables : Tables) :
    (etc.writeAll tables.texts).writeAll tables.texts = etc.writeAll tables.texts :=
  writeAll_eq_self (node_writeAll etc tables.texts_keys).1

/-- Plain tables, over files that had the same two shadows. -/
theorem readTables_writeAll {etc : Etc} {tables tables' : Tables}
    (hread : readTables etc = .ok tables) (hplain : PlainTables tables')
    (hshadow : tables'.shadow.isSome = tables.shadow.isSome)
    (hgshadow : tables'.gshadow.isSome = tables.gshadow.isSome) :
    readTables (etc.writeAll tables'.texts) = .ok tables' := by
  have hfrom := readTables_iff.mp hread
  obtain ⟨hin, hout⟩ := node_writeAll etc tables'.texts_keys
  have hoptional : ∀ {R : Type} [Record R] (database : Database) (t t' : Option (List R)),
      readOptional etc database = .ok t → t'.isSome = t.isSome →
      (∀ records, t' = some records → (∀ r ∈ records, PlainRecord r) ∧
        (etc.writeAll tables'.texts).node database = .file (databaseText records)) →
      (t' = none → (etc.writeAll tables'.texts).node database = etc.node database) →
      readOptional (etc.writeAll tables'.texts) database = .ok t' := by
    intro R _ database t t' hread hsome hwritten hkept
    unfold readOptional
    cases t' with
    | some records =>
        obtain ⟨hrecords, hnode⟩ := hwritten records rfl
        rw [hnode]
        dsimp only
        rw [readDatabase_databaseText database hrecords]
        rfl
    | none =>
        rw [hkept rfl]
        rcases readOptional_ok hread with ⟨hnode, rfl⟩ | ⟨text, records, -, rfl, -⟩
        · rw [hnode]
        · cases hsome
  refine readTables_iff.mpr ⟨?_, ?_, ?_, ?_, ?_⟩
  · rw [directory_writeAll, hfrom.directory]
  · unfold readRequired
    rw [hin (.passwd, databaseText tables'.passwd) (by simp [Tables.texts])]
    exact readDatabase_databaseText .passwd hplain.passwd
  · unfold readRequired
    rw [hin (.group, databaseText tables'.group) (by simp [Tables.texts])]
    exact readDatabase_databaseText .group hplain.group
  · refine hoptional .shadow tables.shadow _ hfrom.shadow hshadow ?_ ?_
    · intro records hrecords
      refine ⟨hplain.shadow records hrecords, ?_⟩
      exact hin (.shadow, databaseText records) (by simp [Tables.texts, hrecords])
    · intro hnone
      refine hout .shadow ?_
      simp [Tables.texts, hnone]
  · refine hoptional .gshadow tables.gshadow _ hfrom.gshadow hgshadow ?_ ?_
    · intro records hrecords
      refine ⟨hplain.gshadow records hrecords, ?_⟩
      exact hin (.gshadow, databaseText records) (by simp [Tables.texts, hrecords])
    · intro hnone
      refine hout .gshadow ?_
      simp [Tables.texts, hnone]

/-! ## Plain through all turns -/

theorem UserName.not_mem (name : UserName) {c : Char}
    (hc : c ∈ ['/', ':', '\x00', '\n', '\r']) : c ∉ name.text := by
  intro hmem
  have hsafe := name.safe
  unfold safeUserName at hsafe
  rw [Bool.and_eq_true, Bool.not_eq_true', List.any_eq_false] at hsafe
  exact hsafe.2 c hmem (decide_eq_true hc)

theorem UserName.ne_nil (name : UserName) : name.text ≠ [] := by
  intro heq
  have hsafe := name.safe
  rw [heq] at hsafe
  cases hsafe

/-- No line boundary in the name. -/
def Unbroken (user : User) : Prop := ∀ c ∈ user.name.text, Text.isLineBreak c = false

theorem Unbroken.plain {user : User} (h : Unbroken user) : Plain user.name.text :=
  ⟨user.name.not_mem (by simp), h⟩

theorem plain_of_all {field : Text}
    (h : (field.all fun c => c ≠ ':' && !Text.isLineBreak c) = true) : Plain field := by
  refine plain_of_chars fun c hc => ?_
  simpa using List.all_eq_true.mp h c hc

theorem plain_accountShell (settings : Settings) : Plain (accountShell settings) := by
  unfold accountShell
  dsimp only
  split
  · exact plain_of_all (by decide)
  · split <;> exact plain_of_all (by decide)

theorem Unbroken.guestHome {user : User} (h : Unbroken user) : Plain user.guestHome := by
  unfold User.guestHome
  split
  · exact plain_of_all (by decide)
  · have hslash : Plain homeSlash := plain_of_all (by decide)
    refine plain_of_chars fun c hc => ?_
    rcases List.mem_append.mp hc with hc | hc
    · exact hslash.char hc
    · exact h.plain.char hc

theorem plainRecord_passwd {r : PasswdRecord} : PlainRecord r ↔
    Plain r.name ∧ Plain r.password ∧ Plain r.uid ∧ Plain r.gid ∧ Plain r.gecos ∧
      Plain r.home ∧ Plain r.shell := by
  simp [PlainRecord, Record.fields]

theorem plainRecord_group {r : GroupRecord} : PlainRecord r ↔
    Plain r.name ∧ Plain r.password ∧ Plain r.gid ∧ Plain r.members := by
  simp [PlainRecord, Record.fields]

theorem plainRecord_shadow {r : ShadowRecord} : PlainRecord r ↔
    Plain r.name ∧ Plain r.password ∧ Plain r.lastChange ∧ Plain r.minimum ∧
      Plain r.maximum ∧ Plain r.warning ∧ Plain r.inactive ∧ Plain r.expire ∧
      Plain r.reserved := by
  simp [PlainRecord, Record.fields]

theorem plainRecord_gshadow {r : GshadowRecord} : PlainRecord r ↔
    Plain r.name ∧ Plain r.password ∧ Plain r.administrators ∧ Plain r.members := by
  simp [PlainRecord, Record.fields]

theorem plain_bang : Plain ['!'] := plain_of_all (by decide)
theorem plain_x : Plain ['x'] := plain_of_all (by decide)

theorem plain_setGroup {group : List GroupRecord} {oldName : Text} {user : User}
    (hname : Plain user.name.text) (h : ∀ r ∈ group, PlainRecord r) :
    ∀ r ∈ setGroup settings group oldName user, PlainRecord r := by
  refine forall_setGroupMember groupMembers (List.forall_mem_map.mpr fun r hr => ?_) ?_
  · obtain ⟨h₁, h₂, h₃, h₄⟩ := plainRecord_group.mp (h r hr)
    exact plainRecord_group.mpr ⟨h₁, h₂, h₃, plain_renameMember hname h₄⟩
  · intro r hr
    obtain ⟨h₁, h₂, h₃, h₄⟩ := plainRecord_group.mp hr
    exact plainRecord_group.mpr ⟨h₁, h₂, h₃, plain_setMember _ hname h₄⟩

theorem plain_setGshadow {gshadow : List GshadowRecord} {oldName : Text} {user : User}
    (hname : Plain user.name.text) (h : ∀ r ∈ gshadow, PlainRecord r) :
    ∀ r ∈ setGshadow settings gshadow oldName user, PlainRecord r := by
  refine forall_setGroupMember gshadowMembers (List.forall_mem_map.mpr fun r hr => ?_) ?_
  · obtain ⟨h₁, h₂, h₃, h₄⟩ := plainRecord_gshadow.mp (h r hr)
    exact plainRecord_gshadow.mpr
      ⟨h₁, h₂, plain_renameMember hname h₃, plain_renameMember hname h₄⟩
  · intro r hr
    obtain ⟨h₁, h₂, h₃, h₄⟩ := plainRecord_gshadow.mp hr
    exact plainRecord_gshadow.mpr ⟨h₁, h₂, h₃, plain_setMember _ hname h₄⟩

theorem Prepared.plain {users : List User} {tables tables' : Tables}
    (h : Prepared settings users tables tables') (hplain : PlainTables tables) :
    PlainTables tables' where
  passwd := h.passwd ▸ hplain.passwd
  group := by
    rcases h.group with heq | ⟨-, gid, -, heq⟩
    · exact heq ▸ hplain.group
    · rw [heq, List.forall_mem_append, List.forall_mem_singleton]
      exact ⟨hplain.group, plainRecord_group.mpr ⟨settings.administratorGroup_plain, plain_x,
        plain_of_digits gid, plain_nil⟩⟩
  shadow := h.shadow ▸ hplain.shadow
  gshadow := by
    rcases h.gshadow with heq | ⟨records, hrecords, -, heq⟩
    · exact heq ▸ hplain.gshadow
    · rw [heq]
      rintro records' ⟨⟩
      rw [List.forall_mem_append, List.forall_mem_singleton]
      exact ⟨hplain.gshadow records hrecords, plainRecord_gshadow.mpr
        ⟨settings.administratorGroup_plain, plain_bang, plain_nil, plain_nil⟩⟩

theorem TurnStep.plain {tables tables' : Tables} {user : User} {oldName : Text}
    (h : TurnStep settings tables user tables' oldName) (hunbroken : Unbroken user)
    (hplain : PlainTables tables) : PlainTables tables' := by
  have hname := hunbroken.plain
  obtain ⟨old, before, after, haccount⟩ := h.account
  obtain ⟨group, gshadow, hgroup, hgroup', hgshadow'⟩ := h.group
  have hstep : (∀ r ∈ group, PlainRecord r) ∧
      ∀ records ∈ gshadow, ∀ r ∈ records, PlainRecord r := by
    cases hgroup with
    | present r hr hgid => exact ⟨hplain.group, hplain.gshadow⟩
    | append habsent hnone =>
        constructor
        · rw [List.forall_mem_append, List.forall_mem_singleton]
          exact ⟨hplain.group, plainRecord_group.mpr
            ⟨hname, plain_x, plain_of_digits user.gid, plain_nil⟩⟩
        · intro records hrecords
          obtain ⟨records, hsome, rfl⟩ := Option.map_eq_some_iff.mp hrecords
          rw [List.forall_mem_append, List.forall_mem_singleton]
          exact ⟨hplain.gshadow records hsome,
            plainRecord_gshadow.mpr ⟨hname, plain_bang, plain_nil, plain_nil⟩⟩
    | take before r after habsent hsplit hrname hbefore =>
        refine ⟨?_, hplain.gshadow⟩
        have hall := hplain.group
        rw [hsplit, List.forall_mem_append, List.forall_mem_cons] at hall
        rw [List.forall_mem_append, List.forall_mem_cons]
        obtain ⟨h₁, h₂, -, h₄⟩ := plainRecord_group.mp hall.2.1
        exact ⟨hall.1, plainRecord_group.mpr ⟨h₁, h₂, plain_of_digits user.gid, h₄⟩, hall.2.2⟩
  refine ⟨?_, ?_, ?_, ?_⟩
  · intro r hr
    rcases haccount.put.mem_target.mp hr with rfl | hr
    · have hgecos : Plain ((old.map (·.gecos)).getD []) := by
        cases hold : old with
        | none => exact plain_nil
        | some r =>
            have hr := hplain.passwd r (haccount.put.mem_source.mpr (.inl hold))
            exact (plainRecord_passwd.mp hr).2.2.2.2.1
      have hpassword : Plain (if tables.shadow.isSome then ['x'] else ['!']) := by
        split
        · exact plain_x
        · exact plain_bang
      exact plainRecord_passwd.mpr ⟨hname, hpassword, plain_of_digits user.uid,
        plain_of_digits user.gid, hgecos, hunbroken.guestHome, plain_accountShell settings⟩
    · exact hplain.passwd r (haccount.put.others hr)
  · rw [hgroup']
    exact plain_setGroup hname hstep.1
  · intro records' hrecords' r hr
    have hsome := h.shadowed
    rw [Option.mem_def.mp hrecords', Option.isSome_some] at hsome
    obtain ⟨records, hrecords⟩ := Option.isSome_iff_exists.mp hsome.symm
    obtain ⟨old, new, before, after, hput⟩ := h.shadow records hrecords records' hrecords'
    rcases hput.put.mem_target.mp hr with rfl | hr
    · cases hold : old with
      | none =>
          rw [hput.fresh hold]
          exact plainRecord_shadow.mpr ⟨hname, plain_bang, plain_nil, plain_nil, plain_nil,
            plain_nil, plain_nil, plain_nil, plain_nil⟩
      | some s =>
          have hs := plainRecord_shadow.mp
            (hplain.shadow records hrecords s (hput.put.mem_source.mpr (.inl hold)))
          have hpassword : Plain (if settings.hostAuthentication then ['!'] else s.password) := by
            split
            · exact plain_bang
            · exact hs.2.1
          rw [hput.assigned s hold]
          exact plainRecord_shadow.mpr ⟨hname, hpassword, hs.2.2⟩
    · exact hplain.shadow records hrecords r (hput.put.others hr)
  · intro records' hrecords'
    rw [hgshadow'] at hrecords'
    obtain ⟨records, hrecords, rfl⟩ := Option.map_eq_some_iff.mp hrecords'
    exact plain_setGshadow hname (hstep.2 records hrecords)

theorem turns_plain {tables tables' : Tables} {users : List User}
    (hunbroken : ∀ user ∈ users, Unbroken user) (hdistinct : Distinct settings tables)
    (hplain : PlainTables tables) (h : users.foldlM (turn settings) tables = .ok tables') :
    PlainTables tables' := by
  refine (Outcome.foldlM_ok (P := fun t => Distinct settings t ∧ PlainTables t) ?_
    ⟨hdistinct, hplain⟩ h).2
  rintro user huser mid mid' ⟨hmid, hmidPlain⟩ hturn
  obtain ⟨oldName, hstep⟩ := turn_step hmid hturn
  exact ⟨hstep.distinct hmid, hstep.plain (hunbroken user huser) hmidPlain⟩

/-! ## Which tables there are -/

theorem TurnStep.gshadow_isSome {tables tables' : Tables} {user : User} {oldName : Text}
    (h : TurnStep settings tables user tables' oldName) :
    tables'.gshadow.isSome = tables.gshadow.isSome := by
  cases hgshadow : tables.gshadow with
  | none => rw [h.gshadow_none hgshadow]
  | some records =>
      obtain ⟨records', hrecords', -⟩ := h.gshadowNames hgshadow
      rw [hrecords']
      rfl

theorem turns_isSome {tables tables' : Tables} {users : List User}
    (hdistinct : Distinct settings tables)
    (h : users.foldlM (turn settings) tables = .ok tables') :
    tables'.shadow.isSome = tables.shadow.isSome ∧
      tables'.gshadow.isSome = tables.gshadow.isSome := by
  refine (Outcome.foldlM_ok (P := fun t => Distinct settings t ∧
    t.shadow.isSome = tables.shadow.isSome ∧ t.gshadow.isSome = tables.gshadow.isSome) ?_
    ⟨hdistinct, rfl, rfl⟩ h).2
  rintro user huser mid mid' ⟨hmid, hshadow, hgshadow⟩ hturn
  obtain ⟨oldName, hstep⟩ := turn_step hmid hturn
  exact ⟨hstep.distinct hmid, hstep.shadowed.trans hshadow, hstep.gshadow_isSome.trans hgshadow⟩

theorem Prepared.isSome {users : List User} {tables tables' : Tables}
    (h : Prepared settings users tables tables') :
    tables'.shadow.isSome = tables.shadow.isSome ∧
      tables'.gshadow.isSome = tables.gshadow.isSome := by
  refine ⟨by rw [h.shadow], ?_⟩
  rcases h.gshadow with heq | ⟨records, hrecords, -, heq⟩
  · rw [heq]
  · rw [heq, hrecords]
    rfl

/-- The files that a run with unbroken names has written are read back. -/
theorem Run.read_back {users : List User} {etc : Etc} {tables start tables' : Tables}
    (h : Run settings users etc tables start tables') (hdistinct : Distinct settings tables)
    (hunbroken : ∀ user ∈ nonRoot users, Unbroken user) :
    readTables (etc.writeAll tables'.texts) = .ok tables' := by
  have hprepared := prepare_spec h.prepared
  have hstart := hprepared.distinct hdistinct
  obtain ⟨hshadow, hgshadow⟩ := turns_isSome hstart h.turns
  obtain ⟨hshadow', hgshadow'⟩ := hprepared.isSome
  exact readTables_writeAll h.read
    (turns_plain hunbroken hstart (hprepared.plain (plainTables_of_read h.read)) h.turns)
    (hshadow.trans hshadow') (hgshadow.trans hgshadow')

/-! ## A name that cannot be read back -/

theorem exists_first {p : Char → Bool} {text : Text} (h : ∃ c ∈ text, p c = true) :
    ∃ before c after, text = before ++ c :: after ∧ (∀ b ∈ before, p b = false) ∧
      p c = true := by
  induction text with
  | nil => simp at h
  | cons d text ih =>
      cases hd : p d with
      | true => exact ⟨[], d, text, rfl, by simp, hd⟩
      | false =>
          obtain ⟨c, hc, hp⟩ := h
          have hrest : ∃ c ∈ text, p c = true := by
            rcases List.mem_cons.mp hc with rfl | hc
            · rw [hd] at hp
              cases hp
            · exact ⟨c, hc, hp⟩
          obtain ⟨before, e, after, rfl, hbefore, he⟩ := ih hrest
          exact ⟨d :: before, e, after, rfl, List.forall_mem_cons.mpr ⟨hd, hbefore⟩, he⟩

theorem not_mem_databaseText {R : Type} [Record R] {records : List R} {c : Char}
    (hcolon : c ≠ ':') (hnewline : c ≠ '\n')
    (h : ∀ r ∈ records, ∀ field ∈ Record.fields r, c ∉ field) : c ∉ databaseText records := by
  intro hmem
  obtain ⟨line, hline, hc⟩ := List.mem_flatMap.mp hmem
  obtain ⟨r, hr, rfl⟩ := List.mem_map.mp hline
  rcases List.mem_append.mp hc with hc | hc
  · rcases Text.mem_of_mem_intercalate hc with hc | ⟨field, hfield, hc⟩
    · exact hcolon (List.mem_singleton.mp hc)
    · exact h r hr field hfield hc
  · exact hnewline (List.mem_singleton.mp hc)

theorem splitlines_databaseText_subset {R : Type} [Record R] {before : List R}
    (h : ∀ r ∈ before, ∀ field ∈ Record.fields r, '\r' ∉ field) (rest : Text) :
    Text.splitlines rest ⊆ Text.splitlines (databaseText before ++ rest) := by
  induction before with
  | nil => exact List.Subset.refl _
  | cons r before ih =>
      have hline : '\r' ∉ recordLine r := by
        intro hmem
        rcases Text.mem_of_mem_intercalate hmem with hmem | ⟨field, hfield, hmem⟩
        · cases List.mem_singleton.mp hmem
        · exact h r List.mem_cons_self field hfield hmem
      rw [databaseText, List.map_cons, List.flatMap_cons, List.append_assoc, List.append_assoc,
        List.singleton_append]
      exact List.Subset.trans (ih fun r' hr' => h r' (List.mem_cons_of_mem r hr'))
        (Text.splitlines_subset_append hline _)

/-- A line boundary in the first field makes the text unreadable. -/
theorem unreadable_of_break {R : Type} [Record R] {database : Database} {records : List R}
    (hreturn : ∀ r ∈ records, ∀ field ∈ Record.fields r, '\r' ∉ field) {r : R}
    (hr : r ∈ records) {name : Text} {rest : List Text} (hfields : Record.fields r = name :: rest)
    (hcolon : ':' ∉ name) (hbreak : ∃ c ∈ name, Text.isLineBreak c = true)
    (records' : List R) : readDatabase database (databaseText records) ≠ .ok records' := by
  intro hread
  obtain ⟨first, c, last, rfl, hfirst, hc⟩ := exists_first hbreak
  obtain ⟨before, after, rfl⟩ := List.append_of_mem hr
  have hc' : c ≠ '\r' := by
    rintro rfl
    exact hreturn r hr (first ++ '\r' :: last) (by rw [hfields]; exact List.mem_cons_self)
      (by simp)
  -- the text from the record on begins with the piece before the line boundary
  have htext : ∃ tail, databaseText (before ++ r :: after)
      = databaseText before ++ (first ++ c :: tail) := by
    rw [databaseText, List.map_append, List.flatMap_append, List.map_cons, List.flatMap_cons,
      recordLine, hfields]
    rcases eq_or_ne rest [] with rfl | hne
    · exact ⟨_, by rw [List.intercalate_singleton, List.append_assoc, List.append_assoc,
        List.cons_append]; rfl⟩
    · exact ⟨_, by rw [List.intercalate_cons_of_ne_nil hne, List.append_assoc, List.append_assoc,
        List.append_assoc, List.append_assoc, List.cons_append]; rfl⟩
  obtain ⟨tail, htext⟩ := htext
  have hpiece : first ∈ Text.splitlines (databaseText (before ++ r :: after)) := by
    rw [htext]
    refine splitlines_databaseText_subset (fun r' hr' => hreturn r' (by simp [hr'])) _ ?_
    rw [Text.splitlines, Text.splitlinesFrom_line hfirst hc hc']
    exact List.mem_cons_self
  have htextReturn := not_mem_databaseText (by decide) (by decide) hreturn
  rw [readDatabase, Text.universalNewlines_eq htextReturn] at hread
  obtain ⟨r', -, hr'⟩ := (Outcome.mapM_mem hread).1 first hpiece
  split at hr'
  · next s hs =>
      have hone : first.splitOn ':' = [first] :=
        List.splitOn_eq_singleton fun hmem => hcolon (List.mem_append_left _ hmem)
      have hlength := Record.fields_length s
      rw [Record.fields_ofFields hs, hone] at hlength
      simp at hlength
  · cases hr'

end Spaces.Accounts
