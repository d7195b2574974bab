import Mathlib.Data.List.Nodup
import Spaces.Library.Outcome
import Spaces.Shortcuts.Generate

/-!
# No line of a shortcut leaves the space

A host reads a shortcut line by line, so what the guest wrote stays harmless as
long as it cannot end a line. Keys and values of the guest file cannot: they
come out of `splitlines`. The window class can, where it is the stem of the file
name. `generate_contained` says when it does no harm: every later line of the
stem has to be nothing to a host, or a pair the main group may hold anyway.
-/

namespace Spaces.Shortcuts

open Spaces.Library Spaces.Library.Text
open Spaces.Library.KeyFile (classify)

/-! ## What is read of a guest file -/

theorem isKeyChar_toNat {c : Char} (h : isKeyChar c = true) : 45 ≤ c.toNat := by
  have hrange : ∀ low : Char, 45 ≤ low.val.toNat → low.val ≤ c.val → 45 ≤ c.toNat :=
    fun low hlow h => Nat.le_trans hlow (UInt32.le_iff_toNat_le.mp h)
  change (c.isUpper || c.isLower || c.isDigit || c == '-') = true at h
  rw [Bool.or_eq_true, Bool.or_eq_true, Bool.or_eq_true] at h
  rcases h with ((h | h) | h) | h
  · exact hrange 'A' (by decide) (of_decide_eq_true h).1
  · exact hrange 'a' (by decide) (of_decide_eq_true ((Bool.and_eq_true _ _).mp h).1)
  · exact hrange '0' (by decide) (of_decide_eq_true ((Bool.and_eq_true _ _).mp h).1)
  · rw [eq_of_beq h]
    decide

theorem isKeyChar_plain {c : Char} (h : isKeyChar c = true) :
    KeyFile.isAsciiSpace c = false ∧ c ≠ '#' ∧ c ≠ '[' ∧ c ≠ ']' ∧ c ≠ '\n' ∧ c ≠ '\r'
      ∧ c ≠ ';' := by
  have hspace : KeyFile.isAsciiSpace c = false := by
    have hlow := isKeyChar_toNat h
    rw [KeyFile.isAsciiSpace, Bool.or_eq_false_iff, Bool.and_eq_false_iff]
    refine ⟨?_, .inr (decide_eq_false (by omega))⟩
    rw [beq_eq_false_iff_ne]
    rintro rfl
    exact absurd hlow (by decide)
  refine ⟨hspace, ?_, ?_, ?_, ?_, ?_, ?_⟩
  all_goals
    rintro rfl
    exact absurd h (by decide)

/-- A key is a name, or a name with a locale. -/
theorem isKey_cases {key : Text} (h : isKey key = true) :
    ∃ c base, (∀ d ∈ c :: base, isKeyChar d = true) ∧
      (key = c :: base ∨ ∃ locale, '\n' ∉ locale ∧ key = c :: base ++ '[' :: locale ++ [']']) := by
  have hsplit := List.takeWhile_append_dropWhile (p := isKeyChar) (l := key)
  have hbase : ∀ d ∈ key.takeWhile isKeyChar, isKeyChar d = true :=
    fun d hd => List.mem_takeWhile_imp hd
  simp only [isKey, Bool.and_eq_true, decide_eq_true_eq] at h
  obtain ⟨hne, hrest⟩ := h
  generalize key.takeWhile isKeyChar = base at hsplit hbase hne
  generalize key.dropWhile isKeyChar = rest at hsplit hrest
  cases base with
  | nil => exact absurd rfl hne
  | cons c base =>
      refine ⟨c, base, hbase, ?_⟩
      split at hrest
      · exact .inl (by rw [← hsplit, List.append_nil])
      · next locale =>
          simp only [Bool.and_eq_true, decide_eq_true_eq, List.all_eq_true, bne_iff_ne] at hrest
          obtain ⟨⟨hlast, -⟩, hall⟩ := hrest
          refine .inr ⟨locale.dropLast, fun hmem => (hall _ hmem).2 rfl, ?_⟩
          calc key
              = c :: base ++ '[' :: locale := hsplit.symm
            _ = c :: base ++ '[' :: (locale.dropLast ++ [']']) := by
                rw [List.dropLast_append_getLast? _ hlast]
            _ = c :: base ++ '[' :: locale.dropLast ++ [']'] := by
                rw [List.append_assoc]
                rfl
      · cases hrest

theorem isKey_writable {key : Text} (h : isKey key = true) (hassign : '=' ∉ key) :
    KeyFile.IsKey key ∧ '\n' ∉ key := by
  obtain ⟨c, base, hbase, hkey⟩ := isKey_cases h
  have hfirst := isKeyChar_plain (hbase c List.mem_cons_self)
  have hnobreak : '\n' ∉ c :: base := fun hmem => (isKeyChar_plain (hbase _ hmem)).2.2.2.2.1 rfl
  obtain rfl | ⟨locale, hlocale, rfl⟩ := hkey
  · refine ⟨⟨hassign, ⟨c, base, rfl, hfirst.1, hfirst.2.1, hfirst.2.2.1⟩, ?_⟩, hnobreak⟩
    rw [List.rdropWhile_eq_self_iff]
    intro hl
    rw [(isKeyChar_plain (hbase _ (List.getLast_mem hl))).1]
    decide
  · refine ⟨⟨hassign, ⟨c, base ++ '[' :: locale ++ [']'], rfl, hfirst.1, hfirst.2.1,
      hfirst.2.2.1⟩, ?_⟩, ?_⟩
    · rw [List.rdropWhile_concat_neg _ _ _ (by decide)]
    · simp only [List.mem_append, List.mem_cons, not_or] at hnobreak ⊢
      exact ⟨⟨hnobreak, by decide, hlocale⟩, by decide, List.not_mem_nil⟩

/-- What `readGroups` finds out about every group it returns. -/
structure Section.Clean (group : Section) : Prop where
  nodup : (group.values.map Prod.fst).Nodup
  keys : ∀ p ∈ group.values, KeyFile.IsKey p.1 ∧ '\n' ∉ p.1
  values : ∀ p ∈ group.values, '\n' ∉ p.2

theorem mem_set {values : Dict} {key value : Text} {p : Text × Text}
    (h : p ∈ values.set key value) : p = (key, value) ∨ p ∈ values := by
  unfold Dict.set at h
  split at h
  · obtain ⟨q, hq, rfl⟩ := List.mem_map.mp h
    split
    · exact .inl rfl
    · exact .inr hq
  · rcases List.mem_append.mp h with h | h
    · exact .inr h
    · exact .inl (List.mem_singleton.mp h)

theorem nodup_set {values : Dict} (h : (values.map Prod.fst).Nodup) (key value : Text) :
    ((values.set key value).map Prod.fst).Nodup := by
  unfold Dict.set
  split
  · have hkeys : (values.map fun p => if p.1 = key then (key, value) else p).map Prod.fst
        = values.map Prod.fst := by
      rw [List.map_map]
      refine List.map_congr_left fun p _ => ?_
      show (if p.1 = key then (key, value) else p).1 = p.1
      split
      · next heq => exact heq.symm
      · rfl
    rwa [hkeys]
  · next hnew =>
      rw [List.map_append, List.map_singleton]
      refine List.nodup_append.mpr ⟨h, by simp, fun k hk k' hk' heq => ?_⟩
      rw [List.mem_singleton.mp hk'] at heq
      rw [heq] at hk
      exact hnew (List.contains_iff_mem.mpr hk)

theorem readLine_clean {groups groups' : List Section} {rawLine : Text}
    (hline : '\n' ∉ rawLine) (hgroups : ∀ g ∈ groups, g.Clean)
    (h : readLine groups rawLine = some groups') : ∀ g ∈ groups', g.Clean := by
  unfold readLine at h
  simp only at h
  split at h
  · cases h; exact hgroups
  · split at h
    · split at h
      · cases h
      · cases h
        intro g hg
        rcases List.mem_cons.mp hg with rfl | hg
        · exact ⟨List.nodup_nil, by simp, by simp⟩
        · exact hgroups g hg
    · split at h
      · next current earlier key value hcut =>
          obtain ⟨hraw, hkey⟩ := cut_eq_some hcut
          split at h
          · cases h; exact hgroups
          · next hvalid =>
              cases h
              simp only [Bool.or_eq_true, Bool.not_eq_true', decide_eq_true_eq, not_or,
                Bool.not_eq_false] at hvalid
              have hcurrent := hgroups current List.mem_cons_self
              have hnew : KeyFile.IsKey (strip key) ∧ '\n' ∉ strip key :=
                isKey_writable hvalid.1 fun hmem => hkey (mem_strip hmem)
              have hvalue : '\n' ∉ value := by
                rw [hraw, List.mem_append, List.mem_cons, not_or, not_or] at hline
                exact hline.2.2
              intro g hg
              rcases List.mem_cons.mp hg with rfl | hg
              · refine ⟨nodup_set hcurrent.nodup _ _, fun p hp => ?_, fun p hp => ?_⟩
                · rcases mem_set hp with rfl | hp
                  · exact hnew
                  · exact hcurrent.keys p hp
                · rcases mem_set hp with rfl | hp
                  · exact hvalue
                  · exact hcurrent.values p hp
              · exact hgroups g (List.mem_cons_of_mem _ hg)
      · cases h; exact hgroups

theorem readLines_clean {lines : List Text} (hlines : ∀ line ∈ lines, '\n' ∉ line) :
    ∀ {groups groups' : List Section}, (∀ g ∈ groups, g.Clean) →
      lines.foldlM readLine groups = some groups' → ∀ g ∈ groups', g.Clean := by
  induction lines with
  | nil =>
      intro groups groups' hgroups h
      cases h
      exact hgroups
  | cons line lines ih =>
      intro groups groups' hgroups h
      rw [List.foldlM_cons] at h
      obtain ⟨next, hnext, h⟩ := Option.bind_eq_some_iff.mp h
      exact ih (fun l hl => hlines l (List.mem_cons_of_mem line hl))
        (readLine_clean (hlines line List.mem_cons_self) hgroups hnext) h

theorem readGroups_clean {file : GuestFile} {groups : List Section}
    (h : readGroups file = some groups) : ∀ g ∈ groups, g.Clean := by
  unfold readGroups at h
  split at h
  · cases h
  · obtain ⟨text, -, h⟩ := Option.bind_eq_some_iff.mp h
    obtain ⟨read, hread, h⟩ := Option.bind_eq_some_iff.mp h
    cases h
    have := readLines_clean (fun line hline => splitlines_unbroken hline) (by simp) hread
    intro g hg
    exact this g (List.mem_reverse.mp hg)

/-! ## What is written -/

variable {spaceName : SpaceName} {iconPath : Option Text} {startupWmClass : Text}
  {groups : List Section} {main : Dict}

/-- What every rendered group is, of either kind. -/
structure Rendered (spaceName : SpaceName) (allowed : List Text) (g : KeyFile.Group) :
    Prop where
  writable : g.Writable
  nodup : (g.entries.map Prod.fst).Nodup
  exec : "Exec".toList ∈ g.entries.map Prod.fst
  wrapped : ∀ p ∈ g.entries, p.1 = "Exec".toList → ∃ command, p.2 = wrapExec spaceName command
  keys : ∀ p ∈ g.entries,
    p.1 = "DBusActivatable".toList ∨ isAllowedKey p.1 allowed = true

theorem isKey_fixed {key : Text} (h : isKey key = true ∧ '=' ∉ key) :
    KeyFile.IsKey key ∧ '\n' ∉ key :=
  isKey_writable h.1 h.2

theorem keys_filterMap {f : Text × Text → Option (Text × Text)}
    (hf : ∀ p q, f p = some q → q.1 = p.1) (values : Dict) :
    ((values.filterMap f).map Prod.fst).Sublist (values.map Prod.fst) := by
  induction values with
  | nil => exact List.Sublist.refl []
  | cons p values ih =>
      cases hp : f p with
      | none =>
          rw [List.filterMap_cons_none hp]
          exact ih.cons p.1
      | some q =>
          rw [List.filterMap_cons_some hp, List.map_cons, hf p q hp, List.map_cons]
          exact ih.cons_cons p.1

theorem mem_of_lookup {values : Dict} {key value : Text} (h : values.lookup key = some value) :
    (key, value) ∈ values := by
  induction values with
  | nil => cases h
  | cons p values ih =>
      rw [List.lookup_cons] at h
      split at h
      · next heq =>
          cases h
          rw [eq_of_beq heq]
          exact List.mem_cons_self
      · exact List.mem_cons_of_mem p (ih h)

theorem getD_mem {values : Dict} {key : Text} (h : values.getD key ≠ []) :
    (key, values.getD key) ∈ values := by
  unfold Dict.getD at h ⊢
  cases hlookup : values.lookup key with
  | none =>
      rw [hlookup] at h
      exact absurd rfl h
  | some value => exact mem_of_lookup hlookup

theorem strip_nil : strip [] = [] := rfl

theorem strip_getD {values : Dict} {key : Text} (h : strip (values.getD key) ≠ []) :
    (key, values.getD key) ∈ values :=
  getD_mem fun hnil => h (by rw [hnil, strip_nil])

/-- The pair a key of the main group is written as. -/
theorem mainEntry_cases {p q : Text × Text}
    (h : mainEntry groups main spaceName iconPath startupWmClass p = some q) :
    q.1 = p.1 ∧ isAllowedKey p.1 MAIN_KEYS = true ∧
      (p.1 = "Exec".toList ∧ q.2 = wrapExec spaceName p.2
        ∨ p.1 = "StartupWMClass".toList ∧ q.2 = startupWmClass
        ∨ p.1 = "Actions".toList ∧ q.2 = keptActions groups main ∧ q.2 ≠ []
        ∨ p.1 = "Icon".toList ∧ iconPath = some q.2
        ∨ (p.1 ≠ "Exec".toList ∧ p.1 ≠ "StartupWMClass".toList ∧ p.1 ≠ "Actions".toList)
          ∧ (q.2 = p.2 ∨ q.2 = p.2 ++ " (".toList ++ spaceName.text ++ [')'])) := by
  obtain ⟨key, value⟩ := p
  rw [mainEntry] at h
  split at h
  · cases h
  · next hallowed =>
      simp only [Bool.not_eq_true', Bool.not_eq_false] at hallowed
      split at h
      · next hname =>
          cases h
          have hother : key ≠ "Exec".toList ∧ key ≠ "StartupWMClass".toList
              ∧ key ≠ "Actions".toList := by
            refine ⟨?_, ?_, ?_⟩
            all_goals
              rintro rfl
              exact absurd hname (by decide)
          exact ⟨rfl, hallowed, .inr (.inr (.inr (.inr ⟨hother, .inr rfl⟩)))⟩
      · split at h
        · next hexec =>
            cases h
            exact ⟨rfl, hallowed, .inl ⟨hexec, rfl⟩⟩
        · next hexec =>
            split at h
            · next hicon =>
                obtain ⟨path, hpath, rfl⟩ := Option.map_eq_some_iff.mp h
                exact ⟨rfl, hallowed, .inr (.inr (.inr (.inl ⟨hicon, hpath⟩)))⟩
            · split at h
              · next hclass =>
                  cases h
                  exact ⟨rfl, hallowed, .inr (.inl ⟨hclass, rfl⟩)⟩
              · next hclass =>
                  split at h
                  · next hactions =>
                      split at h
                      · cases h
                      · next hkept =>
                          cases h
                          exact ⟨rfl, hallowed, .inr (.inr (.inl ⟨hactions, rfl, hkept⟩))⟩
                  · next hactions =>
                      cases h
                      exact ⟨rfl, hallowed,
                        .inr (.inr (.inr (.inr ⟨⟨hexec, hclass, hactions⟩, .inl rfl⟩)))⟩

theorem actionEntry_cases {p q : Text × Text}
    (h : actionEntry spaceName iconPath p = some q) :
    q.1 = p.1 ∧ isAllowedKey p.1 ACTION_KEYS = true ∧
      (p.1 = "Exec".toList ∧ q.2 = wrapExec spaceName p.2
        ∨ p.1 ≠ "Exec".toList ∧ (iconPath = some q.2 ∨ q.2 = p.2)) := by
  obtain ⟨key, value⟩ := p
  rw [actionEntry] at h
  split at h
  · cases h
  · next hallowed =>
      simp only [Bool.not_eq_true', Bool.not_eq_false] at hallowed
      split at h
      · next hexec =>
          cases h
          exact ⟨rfl, hallowed, .inl ⟨hexec, rfl⟩⟩
      · next hexec =>
          split at h
          · obtain ⟨path, hpath, rfl⟩ := Option.map_eq_some_iff.mp h
            exact ⟨rfl, hallowed, .inr ⟨hexec, .inl hpath⟩⟩
          · cases h
            exact ⟨rfl, hallowed, .inr ⟨hexec, .inr rfl⟩⟩

theorem addedIcon_cases (main : Dict) (iconPath : Option Text) :
    addedIcon main iconPath = []
      ∨ "Icon".toList ∉ main.map Prod.fst
        ∧ ∃ path, iconPath = some path ∧ addedIcon main iconPath = [("Icon".toList, path)] := by
  unfold addedIcon
  split
  · exact .inl rfl
  · next hnew =>
      cases iconPath with
      | none => exact .inl rfl
      | some path => exact .inr ⟨fun h => hnew (List.contains_iff_mem.mpr h), path, rfl, rfl⟩

theorem addedClass_cases (main : Dict) (startupWmClass : Text) :
    addedClass main startupWmClass = []
      ∨ "StartupWMClass".toList ∉ main.map Prod.fst
        ∧ addedClass main startupWmClass = [("StartupWMClass".toList, startupWmClass)] := by
  unfold addedClass
  split
  · exact .inl rfl
  · next hnew => exact .inr ⟨fun h => hnew (List.contains_iff_mem.mpr h), rfl⟩

/-- The pairs of the main group: the ones that were read, and those that are
added. -/
theorem mem_renderMain {q : Text × Text}
    (h : q ∈ (renderMain groups main spaceName iconPath startupWmClass).entries) :
    (∃ p ∈ main, mainEntry groups main spaceName iconPath startupWmClass p = some q)
      ∨ q.1 = "Icon".toList ∧ iconPath = some q.2
      ∨ q = ("StartupWMClass".toList, startupWmClass)
      ∨ q = ("DBusActivatable".toList, "false".toList) := by
  simp only [renderMain, List.mem_append, List.mem_filterMap, List.mem_singleton] at h
  rcases h with ((h | h) | h) | h
  · exact .inl h
  · rcases addedIcon_cases main iconPath with hicon | ⟨-, path, hpath, hicon⟩
    · rw [hicon] at h
      cases h
    · rw [hicon, List.mem_singleton] at h
      rw [h]
      exact .inr (.inl ⟨rfl, hpath⟩)
  · rcases addedClass_cases main startupWmClass with hclass | ⟨-, hclass⟩
    · rw [hclass] at h
      cases h
    · rw [hclass, List.mem_singleton] at h
      exact .inr (.inr (.inl h))
  · exact .inr (.inr (.inr h))

/-- The window class is always written. -/
theorem startupWmClass_mem :
    ("StartupWMClass".toList, startupWmClass)
      ∈ (renderMain groups main spaceName iconPath startupWmClass).entries := by
  simp only [renderMain, List.mem_append]
  by_cases hkey : "StartupWMClass".toList ∈ main.map Prod.fst
  · obtain ⟨⟨key, value⟩, hp, hfst⟩ := List.mem_map.mp hkey
    simp only at hfst
    subst hfst
    refine .inl (.inl (.inl (List.mem_filterMap.mpr ⟨_, hp, ?_⟩)))
    rw [mainEntry, if_neg (by decide), if_neg (by decide), if_neg (by decide),
      if_neg (by decide), if_pos rfl]
  · unfold addedClass
    rw [if_neg (fun h => hkey (List.contains_iff_mem.mp h))]
    exact .inl (.inr List.mem_cons_self)

theorem nodup_concat {keys : List Text} (h : keys.Nodup) {key : Text} (hnew : key ∉ keys) :
    (keys ++ [key]).Nodup := by
  refine List.nodup_append.mpr ⟨h, by simp, fun k hk k' hk' heq => hnew ?_⟩
  rwa [← List.mem_singleton.mp hk', ← heq]

theorem nodup_renderMain (h : (main.map Prod.fst).Nodup) :
    ((renderMain groups main spaceName iconPath startupWmClass).entries.map
      Prod.fst).Nodup := by
  have hkept := keys_filterMap
    (fun p q (hq : mainEntry groups main spaceName iconPath startupWmClass p = some q) =>
      (mainEntry_cases hq).1) main
  have hallowed : "DBusActivatable".toList ∉ (main.filterMap
      (mainEntry groups main spaceName iconPath startupWmClass)).map Prod.fst := by
    intro hkey
    obtain ⟨q, hq, hfst⟩ := List.mem_map.mp hkey
    obtain ⟨p, -, hp⟩ := List.mem_filterMap.mp hq
    have := (mainEntry_cases hp).2.1
    rw [← (mainEntry_cases hp).1, hfst] at this
    exact absurd this (by decide)
  simp only [renderMain, List.map_append, List.map_singleton]
  generalize (main.filterMap (mainEntry groups main spaceName iconPath
    startupWmClass)).map Prod.fst = base at hkept hallowed ⊢
  have hbase := hkept.nodup h
  rcases addedIcon_cases main iconPath with hicon | ⟨hnewIcon, path, -, hicon⟩ <;>
    rcases addedClass_cases main startupWmClass with hclass | ⟨hnewClass, hclass⟩ <;>
    rw [hicon, hclass]
  · rw [List.map_nil, List.append_nil, List.append_nil]
    exact nodup_concat hbase hallowed
  · rw [List.map_nil, List.append_nil]
    refine nodup_concat (nodup_concat hbase fun hmem => hnewClass (hkept.mem hmem)) ?_
    rw [List.mem_append, not_or]
    exact ⟨hallowed, by show _ ∉ ["StartupWMClass".toList]; decide⟩
  · rw [List.map_nil, List.append_nil]
    refine nodup_concat (nodup_concat hbase fun hmem => hnewIcon (hkept.mem hmem)) ?_
    rw [List.mem_append, not_or]
    exact ⟨hallowed, by show _ ∉ ["Icon".toList]; decide⟩
  · refine nodup_concat (nodup_concat (nodup_concat hbase
      fun hmem => hnewIcon (hkept.mem hmem)) ?_) ?_
    · rw [List.mem_append, not_or]
      exact ⟨fun hmem => hnewClass (hkept.mem hmem),
        by show "StartupWMClass".toList ∉ ["Icon".toList]; decide⟩
    · rw [List.mem_append, List.mem_append, not_or, not_or]
      exact ⟨⟨hallowed, by show _ ∉ ["Icon".toList]; decide⟩,
        by show _ ∉ ["StartupWMClass".toList]; decide⟩

/-- A group with a command, which `renderGroups` and `isValidAction` ask for. -/
theorem exec_mem {values : Dict} (h : strip (values.getD "Exec".toList) ≠ [])
    {f : Text × Text → Option (Text × Text)}
    (hf : ∀ value, f ("Exec".toList, value) = some ("Exec".toList, wrapExec spaceName value)) :
    "Exec".toList ∈ (values.filterMap f).map Prod.fst :=
  List.mem_map.mpr ⟨_, List.mem_filterMap.mpr ⟨_, strip_getD h, hf _⟩, rfl⟩

theorem mainEntry_exec (value : Text) :
    mainEntry groups main spaceName iconPath startupWmClass ("Exec".toList, value)
      = some ("Exec".toList, wrapExec spaceName value) := by
  rw [mainEntry, if_neg (by decide), if_neg (by decide), if_pos rfl]

theorem actionEntry_exec (value : Text) :
    actionEntry spaceName iconPath ("Exec".toList, value)
      = some ("Exec".toList, wrapExec spaceName value) := by
  rw [actionEntry, if_neg (by decide), if_pos rfl]

theorem renderMain_rendered (hclean : Section.Clean ⟨desktopEntry, main⟩)
    (hexec : strip (main.getD "Exec".toList) ≠ []) :
    Rendered spaceName MAIN_KEYS
      (renderMain groups main spaceName iconPath startupWmClass) where
  writable := by
    have hname : ']' ∉ desktopEntry ∧ '\n' ∉ desktopEntry := by decide
    refine ⟨hname, fun q hq => ?_⟩
    rcases mem_renderMain hq with ⟨p, hp, hpq⟩ | ⟨hicon, -⟩ | rfl | rfl
    · rw [(mainEntry_cases hpq).1]
      exact hclean.keys p hp
    · rw [hicon]
      exact isKey_fixed (by decide)
    · exact isKey_fixed (show isKey "StartupWMClass".toList = true
        ∧ '=' ∉ "StartupWMClass".toList by decide)
    · exact isKey_fixed (by decide)
  nodup := nodup_renderMain hclean.nodup
  exec := by
    simp only [renderMain, List.map_append, List.mem_append]
    exact .inl (.inl (.inl (exec_mem hexec mainEntry_exec)))
  wrapped := by
    intro q hq hkey
    rcases mem_renderMain hq with ⟨p, hp, hpq⟩ | ⟨hicon, -⟩ | rfl | rfl
    · obtain ⟨hfst, -, hcases⟩ := mainEntry_cases hpq
      rw [hfst] at hkey
      rcases hcases with ⟨-, hvalue⟩ | ⟨hother, -⟩ | ⟨hother, -⟩ | ⟨hother, -⟩ | ⟨hother, -⟩
      · exact ⟨p.2, hvalue⟩
      · exact absurd (hkey.symm.trans hother) (by decide)
      · exact absurd (hkey.symm.trans hother) (by decide)
      · exact absurd (hkey.symm.trans hother) (by decide)
      · exact absurd hkey hother.1
    · exact absurd (hkey.symm.trans hicon) (by decide)
    · exact absurd (show "StartupWMClass".toList = "Exec".toList from hkey) (by decide)
    · exact absurd hkey (by decide)
  keys := by
    intro q hq
    rcases mem_renderMain hq with ⟨p, hp, hpq⟩ | ⟨hicon, -⟩ | rfl | rfl
    · rw [(mainEntry_cases hpq).1]
      exact .inr (mainEntry_cases hpq).2.1
    · rw [hicon]
      exact .inr (by decide)
    · exact .inr (show isAllowedKey "StartupWMClass".toList MAIN_KEYS = true by decide)
    · exact .inl rfl

/-- The name of a valid action's group. -/
theorem isValidAction_cases {group : Section} (h : isValidAction main group = true) :
    ∃ id, group.name = desktopAction ++ id ∧ removePrefix desktopAction group.name = id
      ∧ id ≠ [] ∧ (∀ c ∈ id, isKeyChar c = true) ∧ id ∈ actionNames main
      ∧ strip (group.values.getD "Exec".toList) ≠ [] := by
  simp only [isValidAction, isActionId, Bool.and_eq_true, decide_eq_true_eq,
    List.all_eq_true, List.contains_iff_mem] at h
  obtain ⟨⟨⟨hname, hid⟩, hlisted⟩, hexec⟩ := h
  obtain ⟨id, hid'⟩ := hname
  have hremove : removePrefix desktopAction group.name = id := by
    unfold removePrefix
    rw [← hid', if_pos (List.prefix_append _ _), List.drop_left]
  rw [hremove] at hid hlisted
  exact ⟨id, hid'.symm, hremove, hid.1, hid.2, hlisted, hexec⟩

theorem renderAction_rendered {group : Section} (hclean : group.Clean)
    (hvalid : isValidAction main group = true) :
    Rendered spaceName ACTION_KEYS (renderAction spaceName iconPath group) := by
  obtain ⟨id, hname, -, -, hid, -, hexec⟩ := isValidAction_cases hvalid
  refine ⟨⟨?_, fun q hq => ?_⟩, ?_, exec_mem hexec actionEntry_exec, fun q hq hkey => ?_,
    fun q hq => ?_⟩
  · show ']' ∉ group.name ∧ '\n' ∉ group.name
    rw [hname, List.mem_append, List.mem_append, not_or, not_or]
    exact ⟨⟨by decide, fun h => (isKeyChar_plain (hid _ h)).2.2.2.1 rfl⟩,
      ⟨by decide, fun h => (isKeyChar_plain (hid _ h)).2.2.2.2.1 rfl⟩⟩
  · obtain ⟨p, hp, hpq⟩ := List.mem_filterMap.mp hq
    rw [(actionEntry_cases hpq).1]
    exact hclean.keys p hp
  · exact (keys_filterMap (fun p q hq => (actionEntry_cases hq).1) _).nodup hclean.nodup
  · obtain ⟨p, hp, hpq⟩ := List.mem_filterMap.mp hq
    obtain ⟨hfst, -, hcases⟩ := actionEntry_cases hpq
    rw [hfst] at hkey
    rcases hcases with ⟨-, hvalue⟩ | ⟨hother, -⟩
    · exact ⟨p.2, hvalue⟩
    · exact absurd hkey hother
  · obtain ⟨p, hp, hpq⟩ := List.mem_filterMap.mp hq
    rw [(actionEntry_cases hpq).1]
    exact .inr (actionEntry_cases hpq).2.1

/-! ## The action list -/

theorem validActionNames_cases {id : Text} (h : id ∈ validActionNames groups main) :
    id ≠ [] ∧ ∀ c ∈ id, isKeyChar c = true := by
  obtain ⟨group, hgroup, rfl⟩ := List.mem_map.mp h
  obtain ⟨id, -, hremove, hne, hchars, -⟩ :=
    isValidAction_cases (List.mem_filter.mp hgroup).2
  rw [hremove]
  exact ⟨hne, hchars⟩

theorem keptActions_names {id : Text}
    (h : id ∈ (actionNames main).filter (validActionNames groups main).contains) :
    id ≠ [] ∧ ∀ c ∈ id, isKeyChar c = true :=
  validActionNames_cases (List.contains_iff_mem.mp (List.mem_filter.mp h).2)

theorem mem_keptActions {c : Char} (h : c ∈ keptActions groups main) :
    isKeyChar c = true ∨ c = ';' := by
  obtain ⟨id, hid, hc⟩ := List.mem_flatMap.mp h
  rcases List.mem_append.mp hc with hc | hc
  · exact .inl ((keptActions_names hid).2 c hc)
  · exact .inr (List.mem_singleton.mp hc)

theorem keptActions_plain : '\n' ∉ keptActions groups main ∧ '\r' ∉ keptActions groups main := by
  constructor
  all_goals
    intro h
    rcases mem_keptActions h with h | h
    · exact absurd h (by decide)
    · exact absurd h (by decide)

theorem trim_keptActions : KeyFile.trim (keptActions groups main) = keptActions groups main := by
  have hplain : '\n' ∉ keptActions groups main ∧ '\r' ∉ keptActions groups main :=
    keptActions_plain
  cases hkept : keptActions groups main with
  | nil => rfl
  | cons c rest =>
      rw [hkept] at hplain
      refine KeyFile.trim_eq ?_ hplain.2
      have hc : c ∈ keptActions groups main := hkept ▸ List.mem_cons_self
      rcases mem_keptActions hc with hc | rfl
      · exact (isKeyChar_plain hc).1
      · rfl

/-- The new list names every action whose group is written. -/
theorem listed_keptActions {group : Section} (hgroup : group ∈ groups)
    (hvalid : isValidAction main group = true) :
    removePrefix desktopAction group.name ∈ (keptActions groups main).splitOn ';' := by
  have hsplit : (keptActions groups main).splitOn ';'
      = (actionNames main).filter (validActionNames groups main).contains ++ [[]] :=
    splitOn_terminated fun id hid hmem =>
      (isKeyChar_plain ((keptActions_names hid).2 _ hmem)).2.2.2.2.2.2 rfl
  obtain ⟨id, -, hremove, -, -, hlisted, -⟩ := isValidAction_cases hvalid
  rw [hsplit, hremove]
  refine List.mem_append_left _ (List.mem_filter.mpr ⟨hlisted, ?_⟩)
  exact List.contains_iff_mem.mpr
    (List.mem_map.mpr ⟨group, List.mem_filter.mpr ⟨hgroup, hvalid⟩, hremove⟩)

theorem keptActions_mem {group : Section} (hgroup : group ∈ groups)
    (hvalid : isValidAction main group = true) :
    ("Actions".toList, keptActions groups main)
      ∈ (renderMain groups main spaceName iconPath startupWmClass).entries := by
  obtain ⟨id, -, hremove, hne, -, hlisted, -⟩ := isValidAction_cases hvalid
  have hkept : keptActions groups main ≠ [] := by
    intro hnil
    have := listed_keptActions hgroup hvalid
    rw [hnil, hremove] at this
    exact hne (List.mem_singleton.mp this)
  have hactions : main.getD "Actions".toList ≠ [] := by
    intro hnil
    unfold actionNames at hlisted
    rw [hnil] at hlisted
    exact hne (List.mem_singleton.mp hlisted)
  simp only [renderMain, List.mem_append]
  refine .inl (.inl (.inl (List.mem_filterMap.mpr ⟨_, getD_mem hactions, ?_⟩)))
  rw [mainEntry, if_neg (by decide), if_neg (by decide), if_neg (by decide),
    if_neg (by decide), if_neg (by decide), if_pos rfl, if_neg hkept]

theorem actions_renderMain {q : Text × Text}
    (h : q ∈ (renderMain groups main spaceName iconPath startupWmClass).entries)
    (hkey : q.1 = "Actions".toList) : q.2 = keptActions groups main := by
  rcases mem_renderMain h with ⟨p, -, hpq⟩ | ⟨hicon, -⟩ | rfl | rfl
  · obtain ⟨hfst, -, hcases⟩ := mainEntry_cases hpq
    rw [hfst] at hkey
    rcases hcases with ⟨hother, -⟩ | ⟨hother, -⟩ | ⟨-, hvalue, -⟩ | ⟨hother, -⟩ | ⟨hother, -⟩
    · exact absurd (hkey.symm.trans hother) (by decide)
    · exact absurd (hkey.symm.trans hother) (by decide)
    · exact hvalue
    · exact absurd (hkey.symm.trans hother) (by decide)
    · exact absurd hkey hother.2.2
  · exact absurd (hkey.symm.trans hicon) (by decide)
  · exact absurd (show "StartupWMClass".toList = "Actions".toList from hkey) (by decide)
  · exact absurd hkey (by decide)

/-! ## What can end a line -/

theorem wrapExec_plain {command : Text} (h : '\n' ∉ command) :
    '\n' ∉ wrapExec spaceName command := by
  have hspace : '\n' ∉ spaceName.text := fun hmem =>
    absurd (spaceName.safe _ hmem) (by decide)
  have hbefore : '\n' ∉ "/usr/bin/spaces enter --graphical ".toList := by decide
  have hafter : '\n' ∉ " -- ".toList := by decide
  unfold wrapExec execPrefix
  rw [List.mem_append, List.mem_append, List.mem_append, not_or, not_or, not_or]
  exact ⟨⟨⟨hbefore, hspace⟩, hafter⟩, h⟩

theorem displayName_plain {name : Text} (h : '\n' ∉ name) :
    '\n' ∉ name ++ " (".toList ++ spaceName.text ++ [')'] := by
  have hspace : '\n' ∉ spaceName.text := fun hmem =>
    absurd (spaceName.safe _ hmem) (by decide)
  have hbefore : '\n' ∉ " (".toList := by decide
  rw [List.mem_append, List.mem_append, List.mem_append, not_or, not_or, not_or]
  exact ⟨⟨⟨h, hbefore⟩, hspace⟩, by decide⟩

theorem renderMain_values (hclean : Section.Clean ⟨desktopEntry, main⟩)
    (hicon : ∀ path, iconPath = some path → '\n' ∉ path) {q : Text × Text}
    (h : q ∈ (renderMain groups main spaceName iconPath startupWmClass).entries) :
    q = ("StartupWMClass".toList, startupWmClass) ∨ '\n' ∉ q.2 := by
  rcases mem_renderMain h with ⟨p, hp, hpq⟩ | ⟨-, hpath⟩ | rfl | rfl
  · have hvalue := hclean.values p hp
    obtain ⟨hfst, -, hcases⟩ := mainEntry_cases hpq
    rcases hcases with ⟨-, hq⟩ | ⟨hclass, hq⟩ | ⟨-, hq, -⟩ | ⟨-, hq⟩ | ⟨-, hq | hq⟩
    · rw [hq]
      exact .inr (wrapExec_plain hvalue)
    · exact .inl (Prod.ext (hfst.trans hclass) hq)
    · rw [hq]
      exact .inr keptActions_plain.1
    · exact .inr (hicon q.2 hq)
    · rw [hq]
      exact .inr hvalue
    · rw [hq]
      exact .inr (displayName_plain hvalue)
  · exact .inr (hicon q.2 hpath)
  · exact .inl rfl
  · exact .inr (by decide)

theorem renderAction_values {group : Section} (hclean : group.Clean)
    (hicon : ∀ path, iconPath = some path → '\n' ∉ path) {q : Text × Text}
    (h : q ∈ (renderAction spaceName iconPath group).entries) : '\n' ∉ q.2 := by
  obtain ⟨p, hp, hpq⟩ := List.mem_filterMap.mp h
  have hvalue := hclean.values p hp
  rcases (actionEntry_cases hpq).2.2 with ⟨-, hq⟩ | ⟨-, hq | hq⟩
  · rw [hq]
    exact wrapExec_plain hvalue
  · exact hicon q.2 hq
  · rw [hq]
    exact hvalue

/-- All stray lines come from the window class. -/
theorem mem_strays_renderMain (hclean : Section.Clean ⟨desktopEntry, main⟩)
    (hicon : ∀ path, iconPath = some path → '\n' ∉ path) {l : KeyFile.Line} :
    l ∈ KeyFile.strays (renderMain groups main spaceName iconPath startupWmClass).entries
      ↔ ∃ line ∈ laterLines startupWmClass, classify line = l := by
  constructor
  · intro h
    obtain ⟨q, hq, hl⟩ := List.mem_flatMap.mp h
    rcases renderMain_values hclean hicon hq with rfl | hplain
    · exact List.mem_map.mp hl
    · rw [laterLines_eq hplain] at hl
      cases hl
  · intro h
    exact List.mem_flatMap.mpr ⟨_, startupWmClass_mem, List.mem_map.mpr h⟩

theorem strays_renderAction {group : Section} (hclean : group.Clean)
    (hicon : ∀ path, iconPath = some path → '\n' ∉ path) :
    KeyFile.strays (renderAction spaceName iconPath group).entries = [] := by
  refine List.flatMap_eq_nil_iff.mpr fun q hq => ?_
  rw [laterLines_eq (renderAction_values hclean hicon hq)]
  rfl

/-! ## What a host reads -/

/-- Nothing a host reads in a shortcut leads out of the space. -/
structure Contained (spaceName : SpaceName) (read : List KeyFile.Group) : Prop where
  main : (read.map KeyFile.Group.name).count desktopEntry = 1
  /-- Every other group is an action, and in every list of actions the main group
  has. -/
  actions : ∀ g ∈ read, g.name ≠ desktopEntry →
    ∃ id, g.name = desktopAction ++ id ∧ ∀ m ∈ read, m.name = desktopEntry →
      "Actions".toList ∈ m.entries.map Prod.fst
        ∧ ∀ p ∈ m.entries, p.1 = "Actions".toList → id ∈ p.2.splitOn ';'
  keys : ∀ g ∈ read, ∀ p ∈ g.entries, p.1 = "DBusActivatable".toList
    ∨ isAllowedKey p.1 (if g.name = desktopEntry then MAIN_KEYS else ACTION_KEYS) = true
  exec : ∀ g ∈ read, (g.entries.map Prod.fst).count "Exec".toList = 1
  wrapped : ∀ g ∈ read, ∀ p ∈ g.entries, p.1 = "Exec".toList → execPrefix spaceName <+: p.2

/-- A line that does no harm in the main group. -/
def Harmless (groups : List Section) (main : Dict) : KeyFile.Line → Prop
  | .ignored => True
  | .header _ => False
  | .entry key value =>
      key ≠ "Exec".toList
        ∧ (key = "DBusActivatable".toList ∨ isAllowedKey key MAIN_KEYS = true)
        ∧ (key = "Actions".toList → ∀ group ∈ groups, isValidAction main group = true →
            removePrefix desktopAction group.name ∈ value.splitOn ';')

theorem Harmless.isHeader {l : KeyFile.Line} (h : Harmless groups main l) :
    l.isHeader = false := by
  cases l with
  | ignored => rfl
  | header name => exact h.elim
  | entry key value => rfl

theorem wrapExec_read {command : Text} (h : '\n' ∉ command) :
    execPrefix spaceName <+: KeyFile.trim (firstLine (wrapExec spaceName command)) := by
  rw [firstLine_eq (wrapExec_plain h)]
  have hreturn : '\r' ∉ execPrefix spaceName := by
    have hspace : '\r' ∉ spaceName.text := fun hmem =>
      absurd (spaceName.safe _ hmem) (by decide)
    have hbefore : '\r' ∉ "/usr/bin/spaces enter --graphical ".toList := by decide
    have hafter : '\r' ∉ " -- ".toList := by decide
    unfold execPrefix
    rw [List.mem_append, List.mem_append, not_or, not_or]
    exact ⟨⟨hbefore, hspace⟩, hafter⟩
  have hfirst : ∃ rest, execPrefix spaceName = '/' :: rest := ⟨_, rfl⟩
  obtain ⟨rest, hrest⟩ := hfirst
  rw [hrest] at hreturn ⊢
  refine KeyFile.prefix_trim (by decide) hreturn ?_
  rw [← hrest]
  exact List.prefix_append _ _

/-- What is known of an entry that is exported. -/
structure Exportable (groups : List Section) (main : Dict) (iconPath : Option Text) : Prop where
  cleanMain : Section.Clean ⟨desktopEntry, main⟩
  cleanGroups : ∀ g ∈ groups, g.Clean
  exec : strip (main.getD "Exec".toList) ≠ []
  icon : ∀ path, iconPath = some path → '\n' ∉ path

namespace Exportable

variable (h : Exportable groups main iconPath)

include h

theorem rendersMain : Rendered spaceName MAIN_KEYS
    (renderMain groups main spaceName iconPath startupWmClass) :=
  renderMain_rendered h.cleanMain h.exec

theorem validAction {group : Section} (hgroup : group ∈ validActions groups main) :
    group ∈ groups ∧ group.Clean ∧ isValidAction main group = true :=
  have hmem := List.mem_filter.mp hgroup
  ⟨hmem.1, h.cleanGroups group hmem.1, hmem.2⟩

theorem rendersActions {g : KeyFile.Group}
    (hg : g ∈ (validActions groups main).map (renderAction spaceName iconPath)) :
    Rendered spaceName ACTION_KEYS g := by
  obtain ⟨group, hgroup, rfl⟩ := List.mem_map.mp hg
  obtain ⟨-, hclean, hvalid⟩ := h.validAction hgroup
  exact renderAction_rendered hclean hvalid

theorem mem_strays {l : KeyFile.Line}
    (hl : l ∈ (renderMain groups main spaceName iconPath startupWmClass
      :: (validActions groups main).map (renderAction spaceName iconPath)).flatMap
        fun g => KeyFile.strays g.entries) :
    ∃ line ∈ laterLines startupWmClass, classify line = l := by
  obtain ⟨g, hg, hl⟩ := List.mem_flatMap.mp hl
  rcases List.mem_cons.mp hg with rfl | hg
  · exact (mem_strays_renderMain h.cleanMain h.icon).mp hl
  · obtain ⟨group, hgroup, rfl⟩ := List.mem_map.mp hg
    rw [strays_renderAction (h.validAction hgroup).2.1 h.icon] at hl
    cases hl

/-- Unless a stray line is a header, the groups that were written are read. -/
theorem read (hheader : ∀ line ∈ laterLines startupWmClass,
      (classify line).isHeader = false) :
    KeyFile.read (KeyFile.write (renderMain groups main spaceName iconPath startupWmClass)
        ((validActions groups main).map (renderAction spaceName iconPath)))
      = (renderMain groups main spaceName iconPath startupWmClass
          :: (validActions groups main).map (renderAction spaceName iconPath)).map
        KeyFile.Group.readBack := by
  refine KeyFile.read_write h.rendersMain.writable
    (fun g hg => (h.rendersActions hg).writable) fun g hg l hl => ?_
  obtain ⟨line, hline, rfl⟩ := h.mem_strays (List.mem_flatMap.mpr ⟨g, hg, hl⟩)
  exact hheader line hline

theorem readBack_main {p : Text × Text}
    (hp : p ∈ (renderMain groups main spaceName iconPath
      startupWmClass).readBack.entries) :
    (∃ q ∈ (renderMain groups main spaceName iconPath startupWmClass).entries,
        p = (q.1, KeyFile.trim (firstLine q.2)))
      ∨ ∃ line ∈ laterLines startupWmClass, classify line = .entry p.1 p.2 := by
  rcases KeyFile.mem_readBack.mp hp with hp | ⟨l, hl, hlp⟩
  · exact .inl hp
  · obtain ⟨line, hline, rfl⟩ := (mem_strays_renderMain h.cleanMain h.icon).mp hl
    refine .inr ⟨line, hline, ?_⟩
    cases hc : classify line with
    | entry key value =>
        rw [hc] at hlp
        cases hlp
        rfl
    | ignored =>
        rw [hc] at hlp
        cases hlp
    | header name =>
        rw [hc] at hlp
        cases hlp

theorem readBack_action {group : Section} (hgroup : group ∈ validActions groups main)
    {p : Text × Text} (hp : p ∈ (renderAction spaceName iconPath group).readBack.entries) :
    ∃ q ∈ (renderAction spaceName iconPath group).entries,
      p = (q.1, KeyFile.trim (firstLine q.2)) := by
  rcases KeyFile.mem_readBack.mp hp with hp | ⟨l, hl, -⟩
  · exact hp
  · rw [strays_renderAction (h.validAction hgroup).2.1 h.icon] at hl
    cases hl

/-- Without stray commands, every group is read with the one it was written with. -/
theorem count_exec (hstray : ∀ line ∈ laterLines startupWmClass, ∀ value,
      classify line ≠ .entry "Exec".toList value) {g : KeyFile.Group}
    (hg : g ∈ renderMain groups main spaceName iconPath startupWmClass
      :: (validActions groups main).map (renderAction spaceName iconPath)) :
    (g.readBack.entries.map Prod.fst).count "Exec".toList = 1 := by
  have hwritten : (g.entries.map Prod.fst).count "Exec".toList = 1 := by
    rcases List.mem_cons.mp hg with rfl | hg
    · exact List.count_eq_one_of_mem h.rendersMain.nodup h.rendersMain.exec
    · exact List.count_eq_one_of_mem (h.rendersActions hg).nodup (h.rendersActions hg).exec
  have hnone : "Exec".toList
      ∉ ((KeyFile.strays g.entries).filterMap KeyFile.Line.entry?).map Prod.fst := by
    intro hmem
    obtain ⟨⟨key, value⟩, hp, rfl⟩ := List.mem_map.mp hmem
    obtain ⟨l, hl, hlp⟩ := List.mem_filterMap.mp hp
    obtain ⟨line, hline, rfl⟩ := h.mem_strays (List.mem_flatMap.mpr ⟨g, hg, hl⟩)
    cases hc : classify line with
    | entry key' value' =>
        rw [hc] at hlp
        cases hlp
        exact hstray line hline value hc
    | ignored =>
        rw [hc] at hlp
        cases hlp
    | header name =>
        rw [hc] at hlp
        cases hlp
  unfold KeyFile.Group.readBack
  rw [KeyFile.count_readBack, hwritten, List.count_eq_zero_of_not_mem hnone]

theorem exec_main {q : Text × Text}
    (hq : q ∈ (renderMain groups main spaceName iconPath startupWmClass).entries)
    (hkey : q.1 = "Exec".toList) :
    execPrefix spaceName <+: KeyFile.trim (firstLine q.2) := by
  obtain ⟨command, hcommand⟩ := h.rendersMain.wrapped q hq hkey
  rcases renderMain_values h.cleanMain h.icon hq with rfl | hvalue
  · exact absurd (show "StartupWMClass".toList = "Exec".toList from hkey) (by decide)
  · rw [hcommand] at hvalue ⊢
    exact wrapExec_read fun hmem => hvalue (List.mem_append_right _ hmem)

theorem exec_action {group : Section} (hgroup : group ∈ validActions groups main)
    {q : Text × Text} (hq : q ∈ (renderAction spaceName iconPath group).entries)
    (hkey : q.1 = "Exec".toList) :
    execPrefix spaceName <+: KeyFile.trim (firstLine q.2) := by
  obtain ⟨command, hcommand⟩ :=
    (h.rendersActions (List.mem_map.mpr ⟨group, hgroup, rfl⟩)).wrapped q hq hkey
  have hvalue := renderAction_values (h.validAction hgroup).2.1 h.icon hq
  rw [hcommand] at hvalue ⊢
  exact wrapExec_read fun hmem => hvalue (List.mem_append_right _ hmem)

end Exportable

theorem actionName_ne {group : Section} (hvalid : isValidAction main group = true) :
    group.name ≠ desktopEntry := by
  obtain ⟨id, hname, -⟩ := isValidAction_cases hvalid
  intro heq
  have hstart : desktopAction <+: desktopEntry := ⟨id, by rw [← heq, hname]⟩
  exact absurd hstart (by decide)

/-- A shortcut whose window class has only harmless later lines is contained. -/
theorem contained_of_harmless (h : Exportable groups main iconPath)
    (hlines : ∀ line ∈ laterLines startupWmClass, Harmless groups main (classify line)) :
    Contained spaceName (KeyFile.read (KeyFile.write
      (renderMain groups main spaceName iconPath startupWmClass)
      ((validActions groups main).map (renderAction spaceName iconPath)))) := by
  have hentry : ∀ {line key value}, line ∈ laterLines startupWmClass →
      classify line = .entry key value → Harmless groups main (.entry key value) := by
    intro line key value hline hc
    rw [← hc]
    exact hlines line hline
  rw [h.read fun line hline => (hlines line hline).isHeader]
  have hmem : ∀ g ∈ (renderMain groups main spaceName iconPath startupWmClass
        :: (validActions groups main).map (renderAction spaceName iconPath)).map
          KeyFile.Group.readBack,
      g = (renderMain groups main spaceName iconPath startupWmClass).readBack
        ∨ ∃ group ∈ validActions groups main,
            g = (renderAction spaceName iconPath group).readBack := by
    intro g hg
    rcases List.mem_cons.mp hg with rfl | hg
    · exact .inl rfl
    · rw [List.map_map] at hg
      obtain ⟨group, hgroup, rfl⟩ := List.mem_map.mp hg
      exact .inr ⟨group, hgroup, rfl⟩
  constructor
  · show (desktopEntry :: _).count desktopEntry = 1
    rw [List.count_cons_self, List.count_eq_zero_of_not_mem]
    intro hname
    obtain ⟨g, hg, hname⟩ := List.mem_map.mp hname
    rw [List.map_map] at hg
    obtain ⟨group, hgroup, rfl⟩ := List.mem_map.mp hg
    exact actionName_ne (h.validAction hgroup).2.2 hname
  · intro g hg hne
    rcases hmem g hg with rfl | ⟨group, hgroup, rfl⟩
    · exact absurd rfl hne
    · obtain ⟨hin, -, hvalid⟩ := h.validAction hgroup
      obtain ⟨id, hname, hremove, -⟩ := isValidAction_cases hvalid
      refine ⟨id, hname, fun m hm hmname => ?_⟩
      rcases hmem m hm with rfl | ⟨other, hother, rfl⟩
      · constructor
        · refine List.mem_map.mpr ⟨("Actions".toList,
            KeyFile.trim (firstLine (keptActions groups main))), ?_, rfl⟩
          exact KeyFile.mem_readBack.mpr (.inl ⟨_, keptActions_mem hin hvalid, rfl⟩)
        · intro p hp hkey
          rcases h.readBack_main hp with ⟨q, hq, rfl⟩ | ⟨line, hline, hc⟩
          · rw [actions_renderMain hq hkey, firstLine_eq keptActions_plain.1,
              trim_keptActions, ← hremove]
            exact listed_keptActions hin hvalid
          · rw [← hremove]
            exact (hentry hline hc).2.2 hkey group hin hvalid
      · exact absurd hmname (actionName_ne (h.validAction hother).2.2)
  · intro g hg p hp
    rcases hmem g hg with rfl | ⟨group, hgroup, rfl⟩
    · rw [if_pos (show (renderMain groups main spaceName iconPath
        startupWmClass).readBack.name = desktopEntry from rfl)]
      rcases h.readBack_main hp with ⟨q, hq, rfl⟩ | ⟨line, hline, hc⟩
      · exact h.rendersMain.keys q hq
      · exact (hentry hline hc).2.1
    · rw [if_neg (show (renderAction spaceName iconPath group).readBack.name ≠ desktopEntry
        from actionName_ne (h.validAction hgroup).2.2)]
      obtain ⟨q, hq, rfl⟩ := h.readBack_action hgroup hp
      exact (h.rendersActions (List.mem_map.mpr ⟨group, hgroup, rfl⟩)).keys q hq
  · intro g hg
    obtain ⟨g', hg', rfl⟩ := List.mem_map.mp hg
    exact h.count_exec (fun line hline value hc => (hentry hline hc).1 rfl) hg'
  · intro g hg p hp hkey
    rcases hmem g hg with rfl | ⟨group, hgroup, rfl⟩
    · rcases h.readBack_main hp with ⟨q, hq, rfl⟩ | ⟨line, hline, hc⟩
      · exact h.exec_main hq hkey
      · exact absurd hkey (hentry hline hc).1
    · obtain ⟨q, hq, rfl⟩ := h.readBack_action hgroup hp
      exact h.exec_action hgroup hq hkey

/-- If a shortcut is contained although lines of its window class are read on their
own, then none of them is a command, since a command needs a `/`, and none is a
header, since a header needs a command. -/
theorem no_stray_group (h : Exportable groups main iconPath)
    (hslash : ∀ line ∈ laterLines startupWmClass, '/' ∉ line)
    (hread : Contained spaceName (KeyFile.read (KeyFile.write
      (renderMain groups main spaceName iconPath startupWmClass)
      ((validActions groups main).map (renderAction spaceName iconPath))))) :
    (∀ line ∈ laterLines startupWmClass, ∀ value, classify line ≠ .entry "Exec".toList value)
      ∧ ∀ line ∈ laterLines startupWmClass, (classify line).isHeader = false := by
  have hmain : Rendered spaceName MAIN_KEYS
      (renderMain groups main spaceName iconPath startupWmClass) := h.rendersMain
  have hactions : ∀ g ∈ (validActions groups main).map (renderAction spaceName iconPath),
      g.Writable := fun g hg => (h.rendersActions hg).writable
  have hentries := KeyFile.entries_read_write hmain.writable hactions
  have hlength := KeyFile.length_read_write hmain.writable hactions
  have hnone : ∀ line ∈ laterLines startupWmClass, ∀ value,
      classify line ≠ .entry "Exec".toList value := by
    intro line hline value hc
    have hstray : ("Exec".toList, value) ∈
        (renderMain groups main spaceName iconPath startupWmClass).readBack.entries := by
      refine KeyFile.mem_readBack.mpr (.inr ⟨classify line, ?_, by rw [hc]; rfl⟩)
      exact (mem_strays_renderMain h.cleanMain h.icon).mpr ⟨line, hline, rfl⟩
    have hall : ("Exec".toList, value) ∈ (renderMain groups main spaceName iconPath
        startupWmClass :: (validActions groups main).map
          (renderAction spaceName iconPath)).flatMap fun g => g.readBack.entries :=
      List.mem_flatMap.mpr ⟨_, List.mem_cons_self, hstray⟩
    rw [← hentries] at hall
    obtain ⟨g, hg, hp⟩ := List.mem_flatMap.mp hall
    have hvalue : execPrefix spaceName <+: value := hread.wrapped g hg _ hp rfl
    have hfirst : '/' ∈ execPrefix spaceName := List.mem_cons_self
    exact hslash line hline (KeyFile.mem_of_classify hc (hvalue.sublist.mem hfirst))
  refine ⟨hnone, ?_⟩
  generalize KeyFile.read _ = read at hread hentries hlength
  have hcount : read.length
      = ((validActions groups main).map (renderAction spaceName iconPath)).length + 1 := by
    calc read.length
        = ((read.flatMap KeyFile.Group.entries).map Prod.fst).count "Exec".toList :=
          (KeyFile.count_flatMap_eq_length hread.exec).symm
      _ = ((((renderMain groups main spaceName iconPath startupWmClass
            :: (validActions groups main).map (renderAction spaceName iconPath)).map
              KeyFile.Group.readBack).flatMap KeyFile.Group.entries).map Prod.fst).count
            "Exec".toList := by
          rw [hentries, List.flatMap_map]
      _ = ((renderMain groups main spaceName iconPath startupWmClass
            :: (validActions groups main).map (renderAction spaceName iconPath)).map
              KeyFile.Group.readBack).length := by
          refine KeyFile.count_flatMap_eq_length fun g hg => ?_
          obtain ⟨g', hg', rfl⟩ := List.mem_map.mp hg
          exact h.count_exec hnone hg'
      _ = _ := by rw [List.length_map, List.length_cons]
  have hheaders := List.countP_eq_zero.mp (Nat.left_eq_add.mp (hcount.symm.trans hlength))
  intro line hline
  have hstray := hheaders (classify line) (List.mem_flatMap.mpr
    ⟨_, List.mem_cons_self, (mem_strays_renderMain h.cleanMain h.icon).mpr ⟨line, hline, rfl⟩⟩)
  simpa using hstray

theorem harmless_of_contained (h : Exportable groups main iconPath)
    (hslash : ∀ line ∈ laterLines startupWmClass, '/' ∉ line)
    (hread : Contained spaceName (KeyFile.read (KeyFile.write
      (renderMain groups main spaceName iconPath startupWmClass)
      ((validActions groups main).map (renderAction spaceName iconPath))))) :
    ∀ line ∈ laterLines startupWmClass, Harmless groups main (classify line) := by
  obtain ⟨hnone, hheader⟩ := no_stray_group h hslash hread
  rw [h.read hheader] at hread
  intro line hline
  cases hc : classify line with
  | ignored => trivial
  | header name =>
      have := hheader line hline
      rw [hc] at this
      cases this
  | entry key value =>
      have hstray : (key, value) ∈
          (renderMain groups main spaceName iconPath startupWmClass).readBack.entries := by
        refine KeyFile.mem_readBack.mpr (.inr ⟨classify line, ?_, by rw [hc]; rfl⟩)
        exact (mem_strays_renderMain h.cleanMain h.icon).mpr ⟨line, hline, rfl⟩
      refine ⟨fun hkey => hnone line hline value (by rw [hc, hkey]), ?_, ?_⟩
      · have := hread.keys _ List.mem_cons_self _ hstray
        rwa [if_pos (show (renderMain groups main spaceName iconPath
          startupWmClass).readBack.name = desktopEntry from rfl)] at this
      · intro hkey group hgroup hvalid
        obtain ⟨id, hname, hremove, -⟩ := isValidAction_cases hvalid
        have hmem : (renderAction spaceName iconPath group).readBack
            ∈ (renderMain groups main spaceName iconPath startupWmClass
              :: (validActions groups main).map (renderAction spaceName iconPath)).map
                KeyFile.Group.readBack :=
          List.mem_map.mpr ⟨_, List.mem_cons_of_mem _ (List.mem_map.mpr
            ⟨group, List.mem_filter.mpr ⟨hgroup, hvalid⟩, rfl⟩), rfl⟩
        obtain ⟨id', hname', hlisted⟩ := hread.actions _ hmem (actionName_ne hvalid)
        have hid : id = id' :=
          List.append_cancel_left (hname.symm.trans hname')
        rw [hremove, hid]
        exact (hlisted _ List.mem_cons_self rfl).2 _ hstray hkey

/-! ## The names of the sources -/

theorem addSource_safe {rt : Runtime} {origin : Origin}
    {found found' : List (Text × FsName) × List DesktopSource} {file : GuestFile}
    (hsafe : ∀ source ∈ found.2, IdSafe source.outputName)
    (h : addSource rt origin found file = .ok found') :
    ∀ source ∈ found'.2, IdSafe source.outputName := by
  obtain ⟨usedNames, candidates⟩ := found
  have hid := outputId_safe rt file.relative origin.idPrefix
  have hadd : ∀ outputName : Text, IdSafe outputName →
      ∀ source ∈ candidates ++ [⟨origin, file, outputName⟩], IdSafe source.outputName := by
    intro outputName hnew source hsource
    rcases List.mem_append.mp hsource with hsource | hsource
    · exact hsafe source hsource
    · rw [List.mem_singleton.mp hsource]
      exact hnew
  unfold addSource at h
  simp only at h
  split at h
  · cases h; exact hsafe
  · split at h
    · cases h; exact hadd _ hid
    · split at h
      · cases h; exact hadd _ hid
      · split at h
        · cases h
        · cases h
          exact hadd _ (digested_safe (hid.of_isPrefix (removeSuffix_isPrefix _ _)) rt _)

theorem desktopSources_safe {rt : Runtime} {guest : Guest} {sources : List DesktopSource}
    (h : desktopSources rt guest = .ok sources) :
    ∀ source ∈ sources, IdSafe source.outputName := by
  unfold desktopSources at h
  obtain ⟨found, hfound, rfl⟩ := Outcome.map_eq_ok.mp h
  refine Outcome.foldlM_ok (P := fun found => ∀ source ∈ found.2, IdSafe source.outputName)
    (fun file _ found found' hfound h => addSource_safe hfound h) ?_ hfound
  exact fun source hsource => absurd hsource List.not_mem_nil

/-! ## Exported shortcuts -/

/-- The window class does no harm: it is the guest's own, or the lines of the stem
after the first are nothing to a host but pairs the main group may hold. -/
def NameHarmless (parsed : Parsed) : Prop :=
  strip (parsed.main.getD "StartupWMClass".toList) ≠ [] ∨
    ∀ stem, encode parsed.source.file.relative.stem = some stem →
      ∀ line ∈ laterLines stem, Harmless parsed.groups parsed.main (classify line)

theorem renderGroups_ok {startupWmClass : FsName} {desktop : Text}
    (h : renderGroups groups spaceName iconPath startupWmClass = .ok (some desktop)) :
    ∃ main text, mainSection groups = some main ∧ strip (main.getD "Exec".toList) ≠ []
      ∧ encode startupWmClass = some text
      ∧ desktop = KeyFile.write (renderMain groups main spaceName iconPath text)
          ((validActions groups main).map (renderAction spaceName iconPath)) := by
  unfold renderGroups at h
  split at h
  · cases h
  · next main hmain =>
      split at h
      · cases h
      · next hvalid =>
          simp only [not_or] at hvalid
          split at h
          · cases h
          · next text htext =>
              cases h
              exact ⟨main, text, hmain, hvalid.2.2, htext, rfl⟩

theorem iconPath_plain {rt : Runtime} {source : DesktopSource} (h : IdSafe source.outputName)
    {icon : Option (List UInt8)} {path : Text}
    (hpath : (icon.map fun _ => iconName (shortcutName rt spaceName source.outputName)).map
      (iconDirectory ++ ·) = some path) : '\n' ∉ path := by
  rw [Option.map_map] at hpath
  obtain ⟨bytes, -, rfl⟩ := Option.map_eq_some_iff.mp hpath
  have hdirectory : '\n' ∉ iconDirectory := by decide
  have hsuffix : '\n' ∉ pngSuffix := by decide
  have hname : IdSafe (removeSuffix desktopSuffix
      (shortcutName rt spaceName source.outputName)) :=
    (shortcutName_safe rt spaceName h).of_isPrefix (removeSuffix_isPrefix _ _)
  show '\n' ∉ iconDirectory ++ (removeSuffix desktopSuffix
    (shortcutName rt spaceName source.outputName) ++ pngSuffix)
  rw [List.mem_append, List.mem_append, not_or, not_or]
  exact ⟨hdirectory, fun hmem => absurd (hname _ hmem) (by decide), hsuffix⟩

theorem stem_noSlash {relative : Relative} {stem : Text} (h : encode relative.stem = some stem) :
    '/' ∉ stem := by
  intro hmem
  refine relative.name.noSlash ((relative.stem_isPrefix).sublist.mem ?_)
  rw [← fsText_of_encode h]
  exact List.mem_map.mpr ⟨'/', hmem, rfl⟩

theorem strip_unbroken {values : Dict} (h : ∀ p ∈ values, '\n' ∉ p.2) (key : Text) :
    '\n' ∉ strip (values.getD key) := by
  intro hmem
  have hmem := mem_strip hmem
  by_cases hnil : values.getD key = []
  · rw [hnil] at hmem
    cases hmem
  · exact h _ (getD_mem hnil) hmem

theorem parse_some {rt : Runtime} {source : DesktopSource} {parsed : Parsed}
    (h : parse rt source = some parsed) :
    parsed.source = source ∧ readGroups source.file = some parsed.groups
      ∧ parsed.main = (mainSection parsed.groups).getD [] := by
  unfold parse at h
  split at h
  · cases h
  · next groups hgroups =>
      simp only at h
      split at h
      · cases h
      · split at h
        · cases h
        · cases h
          exact ⟨rfl, hgroups, rfl⟩

theorem exportShortcut_contained {rt : Runtime} {guest : Guest} {parsed : Parsed}
    (hsafe : IdSafe parsed.source.outputName)
    (hparsed : parse rt parsed.source = some parsed) {shortcut : GeneratedShortcut}
    (h : exportShortcut rt spaceName guest parsed = .ok (some shortcut)) :
    Contained spaceName (KeyFile.read shortcut.desktop) ↔ NameHarmless parsed := by
  obtain ⟨-, hgroups, hmainEq⟩ := parse_some hparsed
  have hclean := readGroups_clean hgroups
  unfold exportShortcut at h
  obtain ⟨rendered, hrendered, hshortcut⟩ := Outcome.map_eq_ok.mp h
  obtain ⟨desktop, rfl, rfl⟩ := Option.map_eq_some_iff.mp hshortcut
  obtain ⟨main, text, hmain, hexec, hencode, rfl⟩ := renderGroups_ok hrendered
  rw [hmain, Option.getD_some] at hmainEq
  subst hmainEq
  obtain ⟨group, hfind, hvalues⟩ := Option.map_eq_some_iff.mp hmain
  have hgroup := hclean group (List.mem_of_find?_eq_some hfind)
  have hcleanMain : Section.Clean ⟨desktopEntry, parsed.main⟩ := by
    rw [← hvalues]
    exact ⟨hgroup.nodup, hgroup.keys, hgroup.values⟩
  have hexport : Exportable parsed.groups parsed.main
      (((guest.icon (parsed.main.getD "Icon".toList)).map
        fun _ => iconName (shortcutName rt spaceName parsed.source.outputName)).map
          (iconDirectory ++ ·)) :=
    ⟨hcleanMain, hclean, hexec, fun path hpath => iconPath_plain hsafe hpath⟩
  by_cases hclass : strip (parsed.main.getD "StartupWMClass".toList) = []
  · rw [if_pos hclass] at hencode
    have hslash : ∀ line ∈ laterLines text, '/' ∉ line := fun line hline hmem =>
      stem_noSlash hencode (mem_of_mem_lines (List.mem_of_mem_tail hline) hmem)
    constructor
    · intro hcontained
      refine .inr fun stem hstem => ?_
      rw [hencode] at hstem
      cases hstem
      exact harmless_of_contained hexport hslash hcontained
    · rintro (hne | hharmless)
      · exact absurd hclass hne
      · exact contained_of_harmless hexport (hharmless text hencode)
  · rw [if_neg hclass, encode_fsText] at hencode
    cases hencode
    refine ⟨fun _ => .inl hclass, fun _ => contained_of_harmless hexport ?_⟩
    rw [laterLines_eq (strip_unbroken hcleanMain.values _)]
    exact fun line hline => absurd hline List.not_mem_nil

/-- Every shortcut comes from a desktop file, and it is contained exactly if the
name of that file does no harm. -/
theorem generate_contained {rt : Runtime} {guest : Guest} {shortcuts : List GeneratedShortcut}
    (h : generate rt spaceName guest = .ok shortcuts) :
    ∃ sources, parsedSources rt guest = .ok sources
      ∧ ∃ exported : List (Parsed × GeneratedShortcut), exported.map Prod.snd = shortcuts
        ∧ ∀ p ∈ exported, p.1 ∈ sources
          ∧ exportShortcut rt spaceName guest p.1 = .ok (some p.2)
          ∧ (Contained spaceName (KeyFile.read p.2.desktop) ↔ NameHarmless p.1) := by
  unfold generate at h
  obtain ⟨sources, hsources, hrest⟩ := Outcome.bind_eq_ok.mp h
  obtain ⟨generated, hgenerated, hresult⟩ := Outcome.bind_eq_ok.mp hrest
  cases hresult
  refine ⟨sources, hsources, ?_⟩
  have hsound : ∀ parsed ∈ sources, IdSafe parsed.source.outputName
      ∧ parse rt parsed.source = some parsed := by
    unfold parsedSources at hsources
    obtain ⟨found, hfound, rfl⟩ := Outcome.map_eq_ok.mp hsources
    intro parsed hparsed
    obtain ⟨source, hsource, hparse⟩ := List.mem_filterMap.mp hparsed
    rw [(parse_some hparse).1]
    exact ⟨desktopSources_safe hfound source hsource, hparse⟩
  have hpairs := Outcome.mapM_ok hgenerated
  clear hsources hgenerated hrest h
  induction hpairs with
  | nil => exact ⟨[], rfl, by simp⟩
  | @cons parsed result sources generated hexport _ ih =>
      obtain ⟨exported, hexported, hall⟩ :=
        ih fun p hp => hsound p (List.mem_cons_of_mem parsed hp)
      have hall' : ∀ p ∈ exported, p.1 ∈ parsed :: sources
          ∧ exportShortcut rt spaceName guest p.1 = .ok (some p.2)
          ∧ (Contained spaceName (KeyFile.read p.2.desktop) ↔ NameHarmless p.1) :=
        fun p hp => ⟨List.mem_cons_of_mem parsed (hall p hp).1, (hall p hp).2⟩
      cases result with
      | none => exact ⟨exported, hexported, hall'⟩
      | some shortcut =>
          obtain ⟨hsafe, hparsed⟩ := hsound parsed List.mem_cons_self
          refine ⟨(parsed, shortcut) :: exported, congrArg (shortcut :: ·) hexported, ?_⟩
          intro p hp
          rcases List.mem_cons.mp hp with rfl | hp
          · exact ⟨List.mem_cons_self, hexport, exportShortcut_contained hsafe hparsed hexport⟩
          · exact hall' p hp

/-! ## A command in a file name -/

def sampleRuntime : Runtime :=
  asciiRuntime "b31d29126499a11496100291cc0d6c1fe37ef25267d664b1ef62ccf46645a589".toList
    (by decide) (by decide)

def commandInName : Guest where
  applications
    | .system =>
        some [⟨⟨[], fsText "a\nExec=xcalc.desktop".toList, by decide, by decide⟩, true, 51,
          some (joinLines (["[Desktop Entry]", "Type=Application", "Name=A", "Exec=a"].map
            String.toList))⟩]
    | .localOrigin => none
  icon _ := none

def commandShortcut : GeneratedShortcut where
  name := "spaces-box-v1-a_Exec_xcalc-b31d291264.desktop".toList
  desktop := joinLines (["[Desktop Entry]", "Type=Application", "Name=A (box)",
    "Exec=/usr/bin/spaces enter --graphical box -- a", "StartupWMClass=a", "Exec=xcalc",
    "DBusActivatable=false"].map String.toList)
  iconName := none
  icon := none

theorem generate_commandInName :
    generate sampleRuntime sampleSpace commandInName = .ok [commandShortcut] := by
  decide +kernel

theorem generate_contained_sample :
    ∃ sources, parsedSources sampleRuntime commandInName = .ok sources
      ∧ ∃ exported : List (Parsed × GeneratedShortcut),
        exported.map Prod.snd = [commandShortcut]
        ∧ ∀ p ∈ exported, p.1 ∈ sources
          ∧ exportShortcut sampleRuntime sampleSpace commandInName p.1 = .ok (some p.2)
          ∧ (Contained sampleSpace (KeyFile.read p.2.desktop) ↔ NameHarmless p.1) :=
  generate_contained generate_commandInName

theorem command_escapes :
    ¬ ∀ (rt : Runtime) (spaceName : SpaceName) (guest : Guest)
      (shortcuts : List GeneratedShortcut), generate rt spaceName guest = .ok shortcuts →
      ∀ shortcut ∈ shortcuts, Contained spaceName (KeyFile.read shortcut.desktop) := by
  intro h
  have hcontained := h _ _ _ _ generate_commandInName commandShortcut List.mem_cons_self
  have htwice : ∀ g ∈ KeyFile.read commandShortcut.desktop,
      (g.entries.map Prod.fst).count "Exec".toList = 2 := by decide +kernel
  have hgroup : KeyFile.read commandShortcut.desktop ≠ [] := by decide +kernel
  obtain ⟨g, hg⟩ := List.exists_mem_of_ne_nil _ hgroup
  have hone := hcontained.exec g hg
  rw [htwice g hg] at hone
  cases hone

end Spaces.Shortcuts
