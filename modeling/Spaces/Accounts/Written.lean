import Spaces.Accounts.Frame
import Spaces.Shortcuts.Names

/-!
# What the files hold in the end

Nothing is written before all turns are over. So a refusal of a turn leaves all files as
they were, and so does a failure of the first write.
-/

namespace Spaces.Accounts

open Spaces.Library

variable {settings : Settings}

/-! ## Writing -/

def Etc.writeAll (etc : Etc) (texts : List (Database × Text)) : Etc :=
  texts.foldl (fun etc entry => etc.write entry.1 entry.2) etc

theorem writeDatabases_ok {texts : List (Database × Text)} {etc etc' : Etc}
    (h : writeDatabases settings texts etc = (.ok (), etc')) :
    etc' = etc.writeAll texts ∧ ∀ entry ∈ texts, settings.fails entry.1 = false := by
  induction texts generalizing etc with
  | nil =>
      cases h
      exact ⟨rfl, by simp⟩
  | cons entry texts ih =>
      rw [writeDatabases] at h
      split at h
      · cases h
      · next hfails =>
          obtain ⟨heq, hall⟩ := ih h
          exact ⟨heq, List.forall_mem_cons.mpr ⟨Bool.eq_false_iff.mpr hfails, hall⟩⟩

theorem writeDatabases_of_fails {texts : List (Database × Text)} (etc : Etc)
    (h : ∀ entry ∈ texts, settings.fails entry.1 = false) :
    writeDatabases settings texts etc = (.ok (), etc.writeAll texts) := by
  induction texts generalizing etc with
  | nil => rfl
  | cons entry texts ih =>
      obtain ⟨hhead, htail⟩ := List.forall_mem_cons.mp h
      rw [writeDatabases, hhead, if_neg Bool.false_ne_true, ih _ htail]
      rfl

theorem writeDatabases_error {texts : List (Database × Text)} {etc etc' : Etc}
    {refusal : Refusal} (h : writeDatabases settings texts etc = (.error refusal, etc')) :
    ∃ entry ∈ texts, refusal = .notWritten entry.1 := by
  induction texts generalizing etc with
  | nil => cases h
  | cons entry texts ih =>
      rw [writeDatabases] at h
      split at h
      · cases h
        exact ⟨entry, List.mem_cons_self, rfl⟩
      · obtain ⟨other, hother, heq⟩ := ih h
        exact ⟨other, List.mem_cons_of_mem entry hother, heq⟩

/-- The first write that fails has changed nothing. -/
theorem writeDatabases_first {database : Database} {text : Text}
    {texts : List (Database × Text)} {etc etc' : Etc}
    (hfirst : ∀ entry ∈ texts, entry.1 ≠ database)
    (h : writeDatabases settings ((database, text) :: texts) etc
      = (.error (.notWritten database), etc')) : etc' = etc := by
  rw [writeDatabases] at h
  split at h
  · cases h
    rfl
  · obtain ⟨entry, hentry, heq⟩ := writeDatabases_error h
    cases heq
    exact absurd rfl (hfirst entry hentry)

theorem Tables.texts_eq (tables : Tables) :
    ∃ texts, tables.texts = (.passwd, databaseText tables.passwd) :: texts ∧
      ∀ entry ∈ texts, entry.1 ≠ .passwd := by
  refine ⟨[(.group, databaseText tables.group)]
    ++ (tables.shadow.map fun records => (.shadow, databaseText records)).toList
    ++ (tables.gshadow.map fun records => (.gshadow, databaseText records)).toList, rfl, ?_⟩
  simp only [List.mem_append, List.mem_singleton, Option.mem_toList, Option.map_eq_some_iff]
  rintro entry ((rfl | ⟨records, -, rfl⟩) | ⟨records, -, rfl⟩) <;> simp

/-! ## The reconciliation -/

/-- The users whose accounts are kept. -/
abbrev nonRoot (users : List User) : List User := users.filter (·.uid ≠ 0)

/-- What a normal return has done. -/
structure Run (settings : Settings) (users : List User) (etc : Etc)
    (tables start tables' : Tables) : Prop where
  read : readTables etc = .ok tables
  prepared : prepare settings tables (nonRoot users) = .ok start
  turns : (nonRoot users).foldlM (turn settings) start = .ok tables'

theorem Run.settle {users : List User} {etc : Etc} {tables start tables' : Tables}
    (h : Run settings users etc tables start tables') :
    settle settings tables (nonRoot users) = .ok tables' := by
  rw [Accounts.settle, h.prepared]
  exact h.turns

theorem reconcileAccounts_ok {users : List User} {etc etc' : Etc} (hne : nonRoot users ≠ [])
    (h : reconcileAccounts settings users etc = (.ok (), etc')) :
    ∃ tables start tables', Run settings users etc tables start tables' ∧
      etc' = etc.writeAll tables'.texts ∧
      ∀ entry ∈ tables'.texts, settings.fails entry.1 = false := by
  unfold reconcileAccounts at h
  rw [if_neg hne] at h
  split at h
  · cases h
  · next tables' hsettle =>
      obtain ⟨tables, hread, hsettle⟩ := Outcome.bind_eq_ok.mp hsettle
      obtain ⟨start, hprepared, hturns⟩ := Outcome.bind_eq_ok.mp hsettle
      exact ⟨tables, start, tables', ⟨hread, hprepared, hturns⟩, writeDatabases_ok h⟩

theorem reconcileAccounts_of_run {users : List User} {etc : Etc}
    {tables start tables' : Tables} (hne : nonRoot users ≠ [])
    (hrun : Run settings users etc tables start tables')
    (hfails : ∀ entry ∈ tables'.texts, settings.fails entry.1 = false) :
    reconcileAccounts settings users etc = (.ok (), etc.writeAll tables'.texts) := by
  have hsettle : (do Accounts.settle settings (← readTables etc) (nonRoot users))
      = .ok tables' := by
    rw [hrun.read]
    exact hrun.settle
  unfold reconcileAccounts
  rw [if_neg hne, hsettle]
  exact writeDatabases_of_fails etc hfails

theorem reconcileAccounts_nil {users : List User} (etc : Etc) (h : nonRoot users = []) :
    reconcileAccounts settings users etc = (.ok (), etc) := by
  unfold reconcileAccounts
  rw [if_pos h]

/-- What is raised before something was written leaves the files as they were. -/
theorem reconcileAccounts_error {users : List User} {etc etc' : Etc} {refusal : Refusal}
    (h : reconcileAccounts settings users etc = (.error refusal, etc'))
    (hfirst : ∀ database, refusal = .notWritten database → database = .passwd) :
    etc' = etc := by
  unfold reconcileAccounts at h
  dsimp only at h
  split at h
  · cases h
  · split at h
    · cases h
      rfl
    · next tables' _ =>
        obtain ⟨texts, htexts, hrest⟩ := tables'.texts_eq
        rw [htexts] at h
        obtain ⟨entry, -, hrefusal⟩ := writeDatabases_error h
        obtain hpasswd := hfirst entry.1 hrefusal
        rw [hrefusal, hpasswd] at h
        exact writeDatabases_first hrest h

/-! ## The frame -/

/-- What the tables that are written owe to those that were read. -/
structure Kept (settings : Settings) (users : List User) (tables tables' : Tables) : Prop
    extends Unique settings tables' where
  framed : ∃ pairs, Renames settings users tables.passwd pairs ∧
    FramedBy settings users tables.passwd pairs tables tables'

/-- A normal return keeps the columns unique and everything foreign in its place, and
what is raised before the first write changes no file. -/
structure FrameHolds (settings : Settings) (users : List User) (etc : Etc) : Prop where
  returned : ∀ etc', reconcileAccounts settings users etc = (.ok (), etc') →
    (nonRoot users = [] ∧ etc' = etc) ∨
    ∃ tables tables', readTables etc = .ok tables ∧
      settle settings tables (nonRoot users) = .ok tables' ∧
      etc' = etc.writeAll tables'.texts ∧ Kept settings (nonRoot users) tables tables'
  raised : ∀ refusal etc', reconcileAccounts settings users etc = (.error refusal, etc') →
    (∀ database, refusal = .notWritten database → database = .passwd) → etc' = etc

theorem Run.framed {users : List User} {etc : Etc} {tables start tables' : Tables}
    (huids : (users.map (·.uid)).Nodup) (hdistinct : Distinct settings tables)
    (h : Run settings users etc tables start tables') :
    ∃ pairs, Renames settings (nonRoot users) tables.passwd pairs ∧
      FramedBy settings (nonRoot users) tables.passwd pairs tables tables' := by
  have hprepared := prepare_spec h.prepared
  have huids' : ((nonRoot users).map (·.uid)).Nodup :=
    huids.sublist (List.filter_sublist.map _)
  obtain ⟨pairs, hrenames, hframed⟩ := turns_framed (fun _ hu => hu) huids'
    (hprepared.distinct hdistinct)
    (fun user _ r hr _ => by rwa [hprepared.passwd] at hr) h.turns
  exact ⟨[] ++ pairs, hrenames, (hprepared.framedBy tables.passwd).trans hframed⟩

/-- The frame holds exactly if no run that returns normally appends a group for a user
who has a gshadow record already. The columns have to be unique only where the run
returns, which it does on numeric ids alone. -/
theorem reconcileAccounts_frame_iff {users : List User} {etc : Etc}
    (huids : (users.map (·.uid)).Nodup)
    (hunique : ∀ etc', reconcileAccounts settings users etc = (.ok (), etc') →
      ∀ tables, readTables etc = .ok tables → Unique settings tables) :
    FrameHolds settings users etc ↔
      ∀ etc', reconcileAccounts settings users etc = (.ok (), etc') →
        ∀ tables start, readTables etc = .ok tables →
          prepare settings tables (nonRoot users) = .ok start →
          EveryTurn settings (fun _ mid user _ => Unshadowed settings mid user) start
            (nonRoot users) := by
  constructor
  · intro hframe etc' hreturned tables start hread hprepare
    rcases eq_or_ne (nonRoot users) [] with hnil | hne
    · rw [hnil]
      exact everyTurn_nil
    · obtain ⟨tables₀, start₀, tables', hrun, -, -⟩ := reconcileAccounts_ok hne hreturned
      obtain rfl : tables₀ = tables := Except.ok.inj (hrun.read.symm.trans hread)
      obtain rfl : start₀ = start := Except.ok.inj (hrun.prepared.symm.trans hprepare)
      have hdistinct := (prepare_spec hprepare).distinct
        (hunique etc' hreturned tables₀ hread).toDistinct
      rcases hframe.returned etc' hreturned with ⟨hnil, -⟩ | ⟨t, t', hread', hsettle, -, hkept⟩
      · exact absurd hnil hne
      · obtain rfl : tables₀ = t := Except.ok.inj (hread.symm.trans hread')
        obtain rfl : tables' = t' := Except.ok.inj (hrun.settle.symm.trans hsettle)
        exact ((turns_gshadowNames_iff hdistinct hrun.turns).mp hkept.gshadowNames).2
  · intro hcondition
    refine ⟨fun etc' hreturned => ?_, fun refusal etc' => reconcileAccounts_error⟩
    rcases eq_or_ne (nonRoot users) [] with hnil | hne
    · rw [reconcileAccounts_nil etc hnil] at hreturned
      cases hreturned
      exact .inl ⟨hnil, rfl⟩
    · obtain ⟨tables, start, tables', hrun, hetc', -⟩ := reconcileAccounts_ok hne hreturned
      have hun := hunique etc' hreturned tables hrun.read
      have hprepared := prepare_spec hrun.prepared
      have hdistinct := hprepared.distinct hun.toDistinct
      have hevery := hcondition etc' hreturned tables start hrun.read hrun.prepared
      have hgshadow := (turns_gshadowNames_iff hdistinct hrun.turns).mpr
        ⟨hprepared.gshadowNames hun, hevery⟩
      refine .inr ⟨tables, tables', hrun.read, hrun.settle, hetc', ?_⟩
      exact ⟨⟨turns_distinct hdistinct hrun.turns, hgshadow⟩, hrun.framed huids hun.toDistinct⟩

/-! ## A guest with and without a stray gshadow record -/

def sampleSettings : Settings where
  unicode := Shortcuts.asciiUnicode
  administratorGroup := "wheel".toList
  administratorGroup_plain := by
    have hall : ("wheel".toList.all fun c => !Text.isLineBreak c) = true := by decide +kernel
    exact ⟨by decide +kernel, fun c hc => by simpa using List.all_eq_true.mp hall c hc⟩
  hostAuthentication := true
  usable _ := false
  fails _ := false

def alice : User := ⟨1000, 1000, ⟨"alice".toList, by decide +kernel⟩, false⟩

def sampleEtc (group gshadow : String) : Etc where
  directory := true
  node
    | .passwd => .file "root:x:0:0::/root:/bin/sh\n".toList
    | .group => .file group.toList
    | .shadow => .missing
    | .gshadow => .file gshadow.toList

def sampleTables (group : List GroupRecord) (gshadow : List GshadowRecord) : Tables where
  passwd := [⟨"root".toList, ['x'], ['0'], ['0'], [], "/root".toList, "/bin/sh".toList⟩]
  group := group
  shadow := none
  gshadow := some gshadow

def bare (name : String) : GshadowRecord := ⟨name.toList, ['!'], [], []⟩

def memberless (name gid : String) : GroupRecord := ⟨name.toList, ['x'], gid.toList, []⟩

theorem sampleTables_unique {group : List GroupRecord} {gshadow : List GshadowRecord}
    (hnames : (group.map (·.name)).Nodup) (hgids : (group.map (gidOf sampleSettings)).Nodup)
    (h : (gshadow.map (·.name)).Nodup) : Unique sampleSettings (sampleTables group gshadow) where
  names := List.nodup_singleton _
  uids := List.nodup_singleton _
  groupNames := hnames
  gids := hgids
  shadowNames := by
    rintro records ⟨⟩
  gshadowNames := by
    rintro records ⟨⟩
    exact h

theorem alice_uids : ([alice].map (·.uid)).Nodup := List.nodup_singleton _

def strayEtc : Etc := sampleEtc "root:x:0:\n" "root:!::\nalice:!::\n"

def strayTables : Tables := sampleTables [memberless "root" "0"] [bare "root", bare "alice"]

/-- No group alice, but a gshadow record of that name. -/
theorem stray_gshadow :
    (∀ tables, readTables strayEtc = .ok tables → Unique sampleSettings tables) ∧
    ¬ FrameHolds sampleSettings [alice] strayEtc := by
  have hread : readTables strayEtc = .ok strayTables := by decide +kernel
  have hunique : ∀ tables, readTables strayEtc = .ok tables → Unique sampleSettings tables := by
    intro tables htables
    obtain rfl := Except.ok.inj (hread.symm.trans htables)
    exact sampleTables_unique (by decide +kernel) (by decide +kernel) (by decide +kernel)
  have hreturned : (reconcileAccounts sampleSettings [alice] strayEtc).1 = .ok () := by
    decide +kernel
  refine ⟨hunique, fun hframe => ?_⟩
  have hevery := (reconcileAccounts_frame_iff alice_uids fun _ _ => hunique).mp hframe _
    (Prod.ext hreturned rfl) _ strayTables hread rfl
  have hfree : Unshadowed sampleSettings strayTables alice := hevery [] alice [] _ rfl rfl
  refine hfree ?_ ?_ _ rfl (bare "alice") (by simp) rfl
  · decide +kernel
  · decide +kernel

def freshEtc : Etc := sampleEtc "root:x:0:\n" "root:!::\n"

def freshTables : Tables := sampleTables [memberless "root" "0"] [bare "root"]

theorem readTables_fresh : readTables freshEtc = .ok freshTables := by decide +kernel

theorem fresh_unique :
    ∀ tables, readTables freshEtc = .ok tables → Unique sampleSettings tables := by
  intro tables htables
  obtain rfl := Except.ok.inj (readTables_fresh.symm.trans htables)
  exact sampleTables_unique (by decide +kernel) (by decide +kernel) (by decide +kernel)

/-- Without the stray record the group comes in with its shadow. -/
theorem appended_gshadow : FrameHolds sampleSettings [alice] freshEtc := by
  refine (reconcileAccounts_frame_iff alice_uids fun _ _ => fresh_unique).mpr ?_
  intro etc' _ tables start hread hprepare
  obtain rfl := Except.ok.inj (readTables_fresh.symm.trans hread)
  obtain rfl : freshTables = start := Except.ok.inj hprepare
  intro before user after mid heq hmid
  cases before with
  | nil =>
      cases heq
      cases hmid
      exact fun _ _ => by decide +kernel
  | cons first before =>
      have hone : nonRoot [alice] = [alice] := rfl
      simp [hone] at heq

end Spaces.Accounts
