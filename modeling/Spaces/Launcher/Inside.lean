import Spaces.Launcher.Install
import Spaces.Library.PlainParser

/-!
# Which launchers stay inside

The broker wraps the command it looks up in each group, and a lookup finds the
last `Exec` of a group, if it can be read at all. Every other pair is written
back as it came. So a launcher is inside exactly if no command escapes the
lookup: that of an earlier pair, or one that cannot be read, would have to enter
the space by itself. `TryExec` and `Path` are removed once by each program.
-/

namespace Spaces.Launcher

open Spaces.Library Spaces.Library.Text Spaces.Library.KeyTable
open Spaces.Library.KeyFile (Group)
open Spaces.Shortcuts (SpaceName sampleSpace)

/-- The identifiers of a space: every one of them is of that space only. -/
def launcherNamespace (spaceName : SpaceName) : Text := portalAppId spaceName ++ ['.']

structure Inside (spaceName : SpaceName) (key : Table) : Prop where
  exec : ∀ group, isLauncherGroup group = true →
    ∀ value ∈ values group "Exec".toList key, execPrefix spaceName <+: value
  tryExec : values desktopGroup "TryExec".toList key = []
  path : values desktopGroup "Path".toList key = []
  activatable : lookup desktopGroup "DBusActivatable".toList key = some "false".toList

/-- Nothing in an entry is passed over by programs that take away `removed` pairs
of a key. -/
structure Wrappable (p : Parser) (spaceName : SpaceName) (removed : Nat) (key : Table) :
    Prop where
  earlier : ∀ group, isLauncherGroup group = true →
    ∀ value ∈ (values group "Exec".toList key).dropLast, execPrefix spaceName <+: value
  last : ∀ group, isLauncherGroup group = true →
    ∀ value, lookup group "Exec".toList key = some value →
      (p.unescape value).isSome = true ∨ execPrefix spaceName <+: value
  tryExec : (values desktopGroup "TryExec".toList key).length ≤ removed
  path : (values desktopGroup "Path".toList key).length ≤ removed

/-! ## One program -/

section Rewrite

variable {p : Parser} {wrap : Text → Option Text}

/-- What becomes of the commands of a group. -/
def wrapLast (p : Parser) (wrap : Text → Option Text) (commands : List Text) : List Text :=
  match (commands.getLast?.bind p.unescape).bind wrap with
  | some wrapped => commands.dropLast ++ [p.escape wrapped]
  | none => commands

theorem wrapGroup_cases (wrap : Text → Option Text) (key : Table) (group : Text) :
    wrapGroup p wrap key group = key
        ∧ (isLauncherGroup group = true →
          wrapLast p wrap (values group "Exec".toList key) = values group "Exec".toList key)
      ∨ ∃ command wrapped, isLauncherGroup group = true
        ∧ p.getString group "Exec".toList key = some command ∧ wrap command = some wrapped
        ∧ wrapGroup p wrap key group = set group "Exec".toList (p.escape wrapped) key
        ∧ wrapLast p wrap (values group "Exec".toList key)
            = (values group "Exec".toList key).dropLast ++ [p.escape wrapped] := by
  unfold wrapGroup wrapLast
  split
  · next hgroup =>
      have hlast : ((values group "Exec".toList key).getLast?.bind p.unescape)
          = p.getString group "Exec".toList key := rfl
      rw [hlast]
      cases hcommand : p.getString group "Exec".toList key with
      | none => exact .inl ⟨rfl, fun _ => rfl⟩
      | some command =>
          rw [Option.bind_some]
          dsimp only
          cases hwrapped : wrap command with
          | none => exact .inl ⟨rfl, fun _ => rfl⟩
          | some wrapped => exact .inr ⟨command, wrapped, hgroup, rfl, hwrapped, rfl, rfl⟩
  · next hgroup => exact .inl ⟨rfl, fun h => absurd h hgroup⟩

theorem wrapGroup_distinct {key : Table} (h : Distinct key) (group : Text) :
    Distinct (wrapGroup p wrap key group) := by
  rcases wrapGroup_cases (p := p) wrap key group with ⟨heq, -⟩ | ⟨_, wrapped, -, -, -, heq, -⟩
  · rw [heq]
    exact h
  · rw [heq]
    exact h.set _ _ _

theorem values_wrapGroup {key : Table} (h : Distinct key) {group : Text}
    (hgroup : isLauncherGroup group = true) :
    values group "Exec".toList (wrapGroup p wrap key group)
      = wrapLast p wrap (values group "Exec".toList key) := by
  rcases wrapGroup_cases (p := p) wrap key group with ⟨heq, hsame⟩ | ⟨_, wrapped, -, -, -,
    heq, hlast⟩
  · rw [heq, hsame hgroup]
  · rw [heq, hlast, values_set h]

theorem values_wrapGroup_ne {key : Table} {group other k : Text}
    (h : other ≠ group ∨ k ≠ "Exec".toList ∨ isLauncherGroup group = false) :
    values other k (wrapGroup p wrap key group) = values other k key := by
  rcases wrapGroup_cases (p := p) wrap key group with ⟨heq, -⟩ | ⟨_, wrapped, hgroup, -, -, heq, -⟩
  · rw [heq]
  · rw [heq]
    refine values_set_ne ?_ _ _
    rcases h with h | h | h
    · exact .inl h
    · exact .inr h
    · rw [hgroup] at h
      cases h

/-- The loop over the groups, each of which comes once. -/
theorem values_wrapGroups {names : List Text} :
    ∀ {key : Table}, Distinct key → names.Nodup → ∀ group,
      values group "Exec".toList (names.foldl (wrapGroup p wrap) key)
        = if isLauncherGroup group = true ∧ group ∈ names then
            wrapLast p wrap (values group "Exec".toList key)
          else values group "Exec".toList key := by
  induction names with
  | nil =>
      intro key _ _ group
      rw [if_neg (fun h => List.not_mem_nil h.2)]
      rfl
  | cons name names ih =>
      intro key hkey hnames group
      rw [List.nodup_cons] at hnames
      rw [List.foldl_cons, ih (wrapGroup_distinct hkey name) hnames.2]
      by_cases hname : group = name
      · subst hname
        rw [if_neg fun h => hnames.1 h.2]
        by_cases hgroup : isLauncherGroup group = true
        · rw [if_pos ⟨hgroup, List.mem_cons_self⟩, values_wrapGroup hkey hgroup]
        · rw [if_neg fun h => hgroup h.1]
          exact values_wrapGroup_ne (.inr (.inr (by simpa using hgroup)))
      · rw [values_wrapGroup_ne (.inl hname)]
        by_cases hin : isLauncherGroup group = true ∧ group ∈ names
        · rw [if_pos hin, if_pos ⟨hin.1, List.mem_cons_of_mem name hin.2⟩]
        · rw [if_neg hin, if_neg fun h => hin ⟨h.1, (List.mem_cons.mp h.2).resolve_left hname⟩]

theorem values_wrapGroups_ne {k : Text} (h : k ≠ "Exec".toList) {names : List Text} :
    ∀ {key : Table} (group : Text),
      values group k (names.foldl (wrapGroup p wrap) key) = values group k key := by
  induction names with
  | nil =>
      intro key group
      rfl
  | cons name names ih =>
      intro key group
      rw [List.foldl_cons, ih, values_wrapGroup_ne (.inr (.inl h))]

theorem wrapGroups_distinct {names : List Text} :
    ∀ {key : Table}, Distinct key → Distinct (names.foldl (wrapGroup p wrap) key) := by
  induction names with
  | nil => exact fun h => h
  | cons name names ih => exact fun h => ih (wrapGroup_distinct h name)

/-- What one program leaves of the lists it reads or changes. -/
structure Rewritten (p : Parser) (wrap : Text → Option Text) (key key' : Table) : Prop where
  exec : ∀ group, values group "Exec".toList key'
    = if isLauncherGroup group = true then wrapLast p wrap (values group "Exec".toList key)
      else values group "Exec".toList key
  tryExec : values desktopGroup "TryExec".toList key'
    = (values desktopGroup "TryExec".toList key).dropLast
  path : values desktopGroup "Path".toList key'
    = (values desktopGroup "Path".toList key).dropLast
  activatable : lookup desktopGroup "DBusActivatable".toList key' = some "false".toList

theorem rewrite_rewritten {key : Table} (h : Distinct key) :
    Rewritten p wrap key (rewrite p wrap key) := by
  have hnames : (key.map Group.name).Nodup := h
  have hloop : Distinct ((key.map Group.name).foldl (wrapGroup p wrap) key) :=
    wrapGroups_distinct h
  unfold rewrite
  refine ⟨fun group => ?_, ?_, ?_, ?_⟩
  · rw [values_set_ne (.inr (by decide)), values_remove_ne (.inr (by decide)),
      values_remove_ne (.inr (by decide)), values_wrapGroups h hnames]
    by_cases hgroup : isLauncherGroup group = true
    · rw [if_pos hgroup]
      by_cases hin : group ∈ key.map Group.name
      · rw [if_pos ⟨hgroup, hin⟩]
      · rw [if_neg fun h => hin h.2, values_of_missing fun h => hin (List.contains_iff_mem.mp h)]
        rfl
    · rw [if_neg hgroup, if_neg fun h => hgroup h.1]
  · rw [values_set_ne (.inr (by decide)), values_remove_ne (.inr (by decide)),
      values_remove hloop, values_wrapGroups_ne (by decide)]
  · rw [values_set_ne (.inr (by decide)), values_remove (hloop.remove _ _),
      values_remove_ne (.inr (by decide)), values_wrapGroups_ne (by decide)]
  · unfold lookup
    rw [values_set ((hloop.remove _ _).remove _ _), List.getLast?_concat]

/-- Every wrapped command begins with text that needs no escapes. -/
def Opens (wrap : Text → Option Text) : Prop :=
  ∀ command wrapped, wrap command = some wrapped → ∃ start, Plain start ∧ start <+: wrapped

theorem edited_wrapGroup (hwrap : Opens wrap) {key current : Table} (h : Edited key current)
    (group : Text) : Edited key (wrapGroup p wrap current group) := by
  rcases wrapGroup_cases (p := p) wrap current group with
    ⟨heq, -⟩ | ⟨command, wrapped, -, hcommand, hwrapped, heq, -⟩
  · rw [heq]
    exact h
  · rw [heq]
    obtain ⟨start, hplain, hstart⟩ := hwrap command wrapped hwrapped
    refine .set _ _ _ (.inl ?_) ?_ (p.escape_plain hplain hstart).2 h
    · by_contra hmissing
      unfold Parser.getString lookup at hcommand
      rw [values_of_missing hmissing] at hcommand
      cases hcommand
    · exact ⟨⟨by decide, ⟨'E', _, rfl, by decide, by decide, by decide⟩, by decide⟩, by decide⟩

theorem edited_rewrite (hwrap : Opens wrap) (key : Table) :
    Edited key (rewrite p wrap key) := by
  have hloop : ∀ (names : List Text) (current : Table), Edited key current →
      Edited key (names.foldl (wrapGroup p wrap) current) := by
    intro names
    induction names with
    | nil => exact fun current h => h
    | cons name names ih => exact fun current h => ih _ (edited_wrapGroup hwrap h name)
  unfold rewrite
  refine .set _ _ _ (.inr ⟨by decide, by decide⟩) ?_ ⟨by decide, by decide⟩
    (.remove _ _ (.remove _ _ (hloop _ key .refl)))
  exact ⟨⟨by decide, ⟨'D', _, rfl, by decide, by decide, by decide⟩, by decide⟩, by decide⟩

end Rewrite

/-! ## The two wrappers -/

variable {p : Parser} {wrap : Text → Option Text} {broker : Broker} {portal : Portal}

theorem plain_spaceName (spaceName : SpaceName) :
    '\\' ∉ spaceName.text ∧ '\n' ∉ spaceName.text ∧ '\r' ∉ spaceName.text
      ∧ '\t' ∉ spaceName.text := by
  refine ⟨?_, ?_, ?_, ?_⟩
  all_goals
    intro hmem
    exact absurd (spaceName.safe _ hmem) (by decide)

theorem plain_execPrefix (spaceName : SpaceName) : Plain (execPrefix spaceName) := by
  refine ⟨⟨'/', _, rfl, by decide⟩, ?_⟩
  obtain ⟨hslash, hnewline, hreturn, htab⟩ := plain_spaceName spaceName
  unfold execPrefix
  simp only [List.mem_append, not_or]
  exact ⟨⟨⟨by decide, hslash⟩, by decide⟩, ⟨⟨by decide, hnewline⟩, by decide⟩,
    ⟨⟨by decide, hreturn⟩, by decide⟩, ⟨by decide, htab⟩, by decide⟩

def brokerWrap (broker : Broker) (command : Text) : Option Text :=
  some (execPrefix broker.spaceName ++ command)

theorem opens_brokerWrap : Opens (brokerWrap broker) := by
  intro command wrapped h
  cases h
  exact ⟨_, plain_execPrefix broker.spaceName, List.prefix_append _ _⟩

theorem opens_wrappedExec : Opens (wrappedExec portal) := by
  intro command wrapped h
  unfold wrappedExec at h
  split at h
  · cases h
  · cases h
    refine ⟨"/usr/bin/spaces enter --graphical ".toList,
      ⟨⟨'/', _, rfl, by decide⟩, by decide⟩, ?_⟩
    rw [List.append_assoc, List.append_assoc]
    exact List.prefix_append _ _

theorem eq_dropLast_append {values : List Text} {value : Text}
    (h : values.getLast? = some value) : values = values.dropLast ++ [value] :=
  (List.dropLast_append_getLast? value h).symm

/-- The commands the broker writes, and the commands it was given. -/
theorem wrapLast_broker (values : List Text) :
    (∀ value ∈ wrapLast p (brokerWrap broker) values, execPrefix broker.spaceName <+: value)
      ↔ (∀ value ∈ values.dropLast, execPrefix broker.spaceName <+: value)
        ∧ ∀ value, values.getLast? = some value →
          (p.unescape value).isSome = true ∨ execPrefix broker.spaceName <+: value := by
  unfold wrapLast
  cases hlast : values.getLast? with
  | none =>
      rw [List.getLast?_eq_none_iff] at hlast
      rw [hlast]
      simp
  | some value =>
      have hvalues := eq_dropLast_append hlast
      rw [Option.bind_some]
      cases hread : p.unescape value with
      | none =>
          rw [Option.bind_none]
          dsimp only
          constructor
          · intro h
            refine ⟨fun v hv => h v (List.dropLast_subset values hv), fun v hv => .inr ?_⟩
            cases hv
            exact h value (List.mem_of_getLast? hlast)
          · rintro ⟨hearlier, hvalue⟩ v hv
            rw [hvalues, List.mem_append, List.mem_singleton] at hv
            rcases hv with hv | rfl
            · exact hearlier v hv
            · refine (hvalue v rfl).resolve_left ?_
              rw [hread]
              decide
      | some command =>
          rw [Option.bind_some]
          show (∀ v ∈ values.dropLast ++ [p.escape (execPrefix broker.spaceName ++ command)],
            _) ↔ _
          have hnew := (p.escape_plain (plain_execPrefix broker.spaceName)
            (List.prefix_append _ command)).1
          constructor
          · intro h
            refine ⟨fun v hv => h v (List.mem_append_left _ hv), fun v hv => .inl ?_⟩
            cases hv
            rw [hread]
            rfl
          · rintro ⟨hearlier, -⟩ v hv
            rcases List.mem_append.mp hv with hv | hv
            · exact hearlier v hv
            · rw [List.mem_singleton.mp hv]
              exact hnew

/-- The router changes neither the earlier commands nor whether the last one can be
read. -/
theorem dropLast_wrapLast (values : List Text) :
    (wrapLast p wrap values).dropLast = values.dropLast := by
  unfold wrapLast
  split
  · exact List.dropLast_concat
  · rfl

theorem readable_wrapLast (values : List Text) (holds : Text → Prop) :
    (∀ value, (wrapLast p wrap values).getLast? = some value →
        (p.unescape value).isSome = true ∨ holds value)
      ↔ ∀ value, values.getLast? = some value →
        (p.unescape value).isSome = true ∨ holds value := by
  unfold wrapLast
  split
  · next wrapped hwrapped =>
      obtain ⟨command, hcommand, -⟩ := Option.bind_eq_some_iff.mp hwrapped
      obtain ⟨value, hlast, hread⟩ := Option.bind_eq_some_iff.mp hcommand
      refine ⟨fun _ v hv => .inl ?_, fun _ v hv => .inl ?_⟩
      · rw [hlast] at hv
        cases hv
        rw [hread]
        rfl
      · rw [List.getLast?_concat] at hv
        cases hv
        rw [p.unescape_escape]
        rfl
  · exact Iff.rfl

theorem inside_iff {key key' : Table} (h : Rewritten p (brokerWrap broker) key key') :
    Inside broker.spaceName key' ↔ Wrappable p broker.spaceName 1 key := by
  have hlength : ∀ values : List Text, values.dropLast = [] ↔ values.length ≤ 1 := by
    intro values
    rw [← List.length_eq_zero_iff, List.length_dropLast]
    omega
  constructor
  · intro hinside
    have hgroup : ∀ group, isLauncherGroup group = true →
        ∀ value ∈ wrapLast p (brokerWrap broker) (values group "Exec".toList key),
          execPrefix broker.spaceName <+: value := by
      intro group hgroup value hvalue
      refine hinside.exec group hgroup value ?_
      rw [h.exec, if_pos hgroup]
      exact hvalue
    refine ⟨fun group hg => ((wrapLast_broker _).mp (hgroup group hg)).1,
      fun group hg => ((wrapLast_broker _).mp (hgroup group hg)).2, ?_, ?_⟩
    · rw [← hlength, ← h.tryExec]
      exact hinside.tryExec
    · rw [← hlength, ← h.path]
      exact hinside.path
  · intro hwrappable
    refine ⟨fun group hgroup => ?_, ?_, ?_, h.activatable⟩
    · rw [h.exec, if_pos hgroup]
      exact (wrapLast_broker _).mpr
        ⟨hwrappable.earlier group hgroup, hwrappable.last group hgroup⟩
    · rw [h.tryExec, hlength]
      exact hwrappable.tryExec
    · rw [h.path, hlength]
      exact hwrappable.path

theorem wrappable_routed {key key' : Table} (h : Rewritten p (wrappedExec portal) key key') :
    Wrappable p broker.spaceName 1 key' ↔ Wrappable p broker.spaceName 2 key := by
  have hexec : ∀ group, isLauncherGroup group = true →
      values group "Exec".toList key'
        = wrapLast p (wrappedExec portal) (values group "Exec".toList key) := by
    intro group hgroup
    rw [h.exec, if_pos hgroup]
  have hlength : ∀ values : List Text, values.dropLast.length ≤ 1 ↔ values.length ≤ 2 := by
    intro values
    rw [List.length_dropLast]
    omega
  constructor
  · intro hkey'
    refine ⟨fun group hgroup => ?_, fun group hgroup => ?_, ?_, ?_⟩
    · have := hkey'.earlier group hgroup
      rwa [hexec group hgroup, dropLast_wrapLast] at this
    · have := hkey'.last group hgroup
      unfold lookup at this
      rw [hexec group hgroup] at this
      exact (readable_wrapLast _ _).mp this
    · rw [← hlength, ← h.tryExec]
      exact hkey'.tryExec
    · rw [← hlength, ← h.path]
      exact hkey'.path
  · intro hkey
    refine ⟨fun group hgroup => ?_, fun group hgroup => ?_, ?_, ?_⟩
    · rw [hexec group hgroup, dropLast_wrapLast]
      exact hkey.earlier group hgroup
    · unfold lookup
      rw [hexec group hgroup]
      exact (readable_wrapLast _ _).mpr (hkey.last group hgroup)
    · rw [h.tryExec, hlength]
      exact hkey.tryExec
    · rw [h.path, hlength]
      exact hkey.path

/-! ## Installed launchers -/

theorem namespace_of_launcherId {appId desktopId id : Text}
    (h : launcherId appId desktopId = some id) : appId ++ ['.'] <+: id := by
  unfold launcherId at h
  split at h
  · cases h
  · split at h
    · next happ =>
        cases h
        obtain ⟨rest, hrest⟩ := happ.1
        have hdot := happ.2
        rw [← hrest, List.drop_left] at hdot
        obtain ⟨tail, htail⟩ := List.head?_eq_some_iff.mp hdot
        refine ⟨tail, ?_⟩
        rw [← hrest, htail, List.append_assoc]
        rfl
    · cases h
      refine ⟨desktopId, ?_⟩
      rw [List.append_assoc]
      rfl

/-- No identifier is in the namespaces of two spaces. -/
theorem namespace_unique {a b : SpaceName} {id : Text} (ha : launcherNamespace a <+: id)
    (hb : launcherNamespace b <+: id) : a = b := by
  have hdot : ∀ spaceName : SpaceName, '.' ∉ spaceName.text := by
    intro spaceName hmem
    exact absurd (spaceName.isSpaceNameChar _ hmem) (by decide)
  obtain ⟨restA, rfl⟩ := ha
  obtain ⟨restB, hb⟩ := hb
  unfold launcherNamespace portalAppId at hb
  simp only [List.append_assoc, List.singleton_append] at hb
  have hcut := congrArg (cut '.') (List.append_cancel_left hb)
  rw [cut_append_cons (hdot b), cut_append_cons (hdot a)] at hcut
  cases a
  cases b
  cases hcut
  rfl

/-- How an `Install` call comes to the broker: through a router, or without one. -/
def passedOn (p : Parser) : Option Portal → Text → Text → Text × Text
  | none, desktopId, entry => (desktopId, entry)
  | some portal, desktopId, entry => prepareInstall p portal desktopId entry

/-- How many programs rewrite the entry. -/
def programs : Option Portal → Nat
  | none => 1
  | some _ => 2

/-- The key file of an entry that is not rejected on its way. -/
def Taken (p : Parser) (router : Option Portal) (entry : Text) (key : Table) : Prop :=
  p.load entry = some key
    ∧ (router.isSome → encodedLength entry ≤ 1024 * 1024 ∧ hasGroup desktopGroup key = true)

theorem install_ok {desktopId entry id text : Text}
    (h : install p broker desktopId entry = some (id, text)) :
    launcherId broker.appId desktopId = some id
      ∧ ∃ key, p.load entry = some key ∧ p.load text = some (rewrite p (brokerWrap broker) key)
        ∧ Distinct key := by
  unfold install at h
  split at h
  · next hostId hostEntry hid hentry =>
      cases h
      unfold brokerDesktopEntry at hentry
      split at hentry
      · cases hentry
      · obtain ⟨key, hload, rfl⟩ := Option.map_eq_some_iff.mp hentry
        exact ⟨hid, key, hload, p.load_toData hload (edited_rewrite opens_brokerWrap key),
          p.load_distinct hload⟩
  · cases h

/-- What the router passes on: an empty entry for one it rejects. -/
theorem rewriteDesktopEntry_load (portal : Portal) (entry : Text) :
    (∃ key, Taken p (some portal) entry key
        ∧ p.load ((rewriteDesktopEntry p portal entry).getD [])
          = some (rewrite p (wrappedExec portal) key))
      ∨ (∀ key, ¬ Taken p (some portal) entry key)
        ∧ p.load ((rewriteDesktopEntry p portal entry).getD []) = some [] := by
  unfold rewriteDesktopEntry
  split
  · next hlength =>
      refine .inr ⟨fun key hkey => ?_, p.load_nil⟩
      have := (hkey.2 rfl).1
      omega
  · next hlength =>
      split
      · next hload =>
          refine .inr ⟨fun key hkey => ?_, p.load_nil⟩
          rw [hkey.1] at hload
          cases hload
      · next key hload =>
          split
          · next hgroup =>
              exact .inl ⟨key, ⟨hload, fun _ => ⟨by omega, hgroup⟩⟩,
                p.load_toData hload (edited_rewrite opens_wrappedExec key)⟩
          · next hgroup =>
              refine .inr ⟨fun key' hkey' => ?_, p.load_nil⟩
              have hsame := hkey'.1
              rw [hload] at hsame
              cases hsame
              exact hgroup (hkey'.2 rfl).2

/-- What the broker hands to the host portal: an identifier of its own space, and an
entry that is inside exactly if nothing in the guest's entry is passed over. -/
theorem install_inside {router : Option Portal} {desktopId entry id text : Text}
    (h : install p broker (passedOn p router desktopId entry).1
      (passedOn p router desktopId entry).2 = some (id, text)) :
    (∀ other, launcherNamespace other <+: id ↔ other = broker.spaceName)
      ∧ ∃ key', p.load text = some key'
        ∧ (Inside broker.spaceName key'
          ↔ ∀ key, Taken p router entry key →
              Wrappable p broker.spaceName (programs router) key) := by
  obtain ⟨hid, passed, hpassed, htext, hdistinct⟩ := install_ok h
  constructor
  · intro other
    have hown := namespace_of_launcherId hid
    rw [broker.identity] at hown
    constructor
    · exact fun hother => namespace_unique hother hown
    · rintro rfl
      exact hown
  · refine ⟨_, htext, (inside_iff (rewrite_rewritten hdistinct)).trans ?_⟩
    cases router with
    | none =>
        constructor
        · intro hwrappable key hkey
          have hsame := hkey.1
          rw [show p.load entry = some passed from hpassed] at hsame
          cases hsame
          exact hwrappable
        · intro hall
          refine hall passed ⟨hpassed, fun h => ?_⟩
          cases h
    | some portal =>
        rcases rewriteDesktopEntry_load (p := p) portal entry with
          ⟨key, hkey, hload⟩ | ⟨hnone, hload⟩
        · have hsame := hload.symm.trans hpassed
          cases hsame
          refine (wrappable_routed (rewrite_rewritten (p.load_distinct hkey.1))).trans ?_
          constructor
          · intro hwrappable key' hkey'
            have heq := hkey.1.symm.trans hkey'.1
            cases heq
            exact hwrappable
          · exact fun hall => hall key hkey
        · have hsame := hload.symm.trans hpassed
          cases hsame
          constructor
          · exact fun _ key hkey => absurd hkey (hnone key)
          · intro _
            refine ⟨fun _ _ v hv => absurd hv List.not_mem_nil, fun _ _ v hv => ?_,
              Nat.zero_le 1, Nat.zero_le 1⟩
            cases hv

/-! ## A command that cannot be read -/

def sampleBroker : Broker := ⟨sampleSpace, portalAppId sampleSpace, rfl⟩
def samplePortal : Portal := ⟨sampleSpace, portalAppId sampleSpace, rfl⟩

def unreadableEntry : Text :=
  joinLines (["[Desktop Entry]", "Type=Application", "Name=x", "Exec=xcalc \\q"].map
    String.toList)

/-- The entry that reaches the host portal. -/
def unreadableLauncher : Text × Text :=
  ("org.anatase.Spaces.box.x.desktop".toList,
    joinLines (["[Desktop Entry]", "Type=Application", "Name=x", "Exec=xcalc \\q",
      "DBusActivatable=false"].map String.toList))

theorem install_unreadable (router : Option Portal)
    (h : router = none ∨ router = some samplePortal) :
    install PlainParser.parser sampleBroker
        (passedOn PlainParser.parser router "x.desktop".toList unreadableEntry).1
        (passedOn PlainParser.parser router "x.desktop".toList unreadableEntry).2
      = some unreadableLauncher := by
  rcases h with rfl | rfl
  · decide +kernel
  · decide +kernel

theorem install_inside_sample :
    (∀ other, launcherNamespace other <+: unreadableLauncher.1 ↔ other = sampleSpace)
      ∧ ∃ key', PlainParser.parser.load unreadableLauncher.2 = some key'
        ∧ (Inside sampleSpace key'
          ↔ ∀ key, Taken PlainParser.parser (some samplePortal) unreadableEntry key →
              Wrappable PlainParser.parser sampleSpace 2 key) :=
  install_inside (install_unreadable (some samplePortal) (.inr rfl))

theorem unreadable_escapes :
    ¬ ∀ (p : Parser) (broker : Broker) (router : Option Portal) (desktopId entry id text : Text),
      install p broker (passedOn p router desktopId entry).1 (passedOn p router desktopId entry).2
          = some (id, text) →
        ∀ key', p.load text = some key' → Inside broker.spaceName key' := by
  intro h
  have hload : (PlainParser.parser.load unreadableLauncher.2).isSome = true := by
    decide +kernel
  obtain ⟨key', hkey'⟩ := Option.isSome_iff_exists.mp hload
  have hinside := h _ _ _ _ _ _ _ (install_unreadable none (.inl rfl)) key' hkey'
  have hvalues : (PlainParser.parser.load unreadableLauncher.2).map
      (values desktopGroup "Exec".toList) = some ["xcalc \\q".toList] := by
    decide +kernel
  rw [hkey', Option.map_some, Option.some_inj] at hvalues
  have hvalue := hinside.exec desktopGroup (by decide) "xcalc \\q".toList
    (hvalues ▸ List.mem_cons_self)
  exact absurd hvalue (by decide)

end Spaces.Launcher
