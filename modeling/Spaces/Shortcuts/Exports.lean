import Spaces.Shortcuts.Clearing

/-!
# What all spaces have exported

The spaces of a host export into one directory, each whenever it starts, is configured or
has new applications, and each removes what it no longer has. A call may fail at any point,
or never come to its end, and leaves the directory as it is then.

Whatever the calls do, a file that can be seen is whole, and is that of the space that its
name is claimed for. A space whose name is not that of another with a version keeps what it
has exported while the other comes and goes.
-/

namespace Spaces.Shortcuts

open Spaces.Library Spaces.Library.Text Spaces.Library.Routine

variable {e : Exporter} {spaceName other : SpaceName} {folder : Folder} {name : FsName}
  {root root' : Root} {always : Root → Prop} {raised : PyError → Root → Prop}
  {shortcuts : List GeneratedShortcut}

/-! ## What one call may do -/

/-- The file is one of a shortcut. -/
def FileOf (shortcuts : List GeneratedShortcut) (folder : Folder) (name : FsName) (entry : Entry) :
    Prop :=
  ∃ shortcut ∈ shortcuts, ∃ content, folder.file shortcut = some (name, content) ∧
    entry = wholeFile content

/-- Of what can be seen, only files of the space are changed: they are gone or made anew. -/
def Touched (e : Exporter) (spaceName : SpaceName) (shortcuts : List GeneratedShortcut)
    (root root' : Root) : Prop :=
  ∀ folder name, ¬Hidden name → root'.find folder name = root.find folder name ∨
    (Claimed e.rt.unicode spaceName folder name ∧
      ∀ entry ∈ root'.find folder name, FileOf shortcuts folder name entry)

namespace Touched

theorem refl (root : Root) : Touched e spaceName shortcuts root root := fun _ _ _ => .inl rfl

theorem trans {middle : Root} (h : Touched e spaceName shortcuts root middle)
    (h' : Touched e spaceName shortcuts middle root') :
    Touched e spaceName shortcuts root root' := by
  intro folder name hseen
  rcases h' folder name hseen with hsame | hmade
  · rw [hsame]
    exact h folder name hseen
  · exact .inr hmade

theorem of_sweeping {doomed : Folder → FsName → Prop} (h : Sweeping doomed root root')
    (hclaimed : ∀ folder name, doomed folder name → Claimed e.rt.unicode spaceName folder name) :
    Touched e spaceName shortcuts root root' := by
  intro folder name _
  refine (h folder name).imp id fun ⟨hdoomed, hgone⟩ => ⟨hclaimed folder name hdoomed, ?_⟩
  intro entry hentry
  cases hgone.symm.trans hentry

theorem of_near {but : Folder → FsName → Prop} {content : List UInt8}
    (h : Near but folder name content root root') (hbut : ∀ other otherName, but other otherName →
      Hidden otherName) (hclaimed : Claimed e.rt.unicode spaceName folder name)
    (hmade : FileOf shortcuts folder name (wholeFile content)) :
    Touched e spaceName shortcuts root root' := by
  intro other otherName hseen
  rcases h other otherName fun h => hseen (hbut _ _ h) with hsame | ⟨rfl, rfl, hwhole⟩
  · exact .inl hsame
  · refine .inr ⟨hclaimed, fun entry hentry => ?_⟩
    cases hwhole.symm.trans hentry
    exact hmade

end Touched

theorem Outdated.claimed {keepCurrent : Bool} (h : Outdated e spaceName keepCurrent folder name) :
    Claimed e.rt.unicode spaceName folder name := by
  obtain ⟨version, hversion, -⟩ := h
  intro hnone
  cases hversion.symm.trans hnone

/-! ## Making the directory of the icons -/

theorem mkdir_find (h : e.mkdir root = some root') (folder : Folder) (name : FsName) :
    root'.find folder name = root.find folder name := by
  unfold Exporter.mkdir at h
  split at h
  · cases h
    cases folder <;> rfl
  · cases h

theorem chmodIcons_find (h : Exporter.chmodIcons root = some root') (folder : Folder)
    (name : FsName) : root'.find folder name = root.find folder name := by
  unfold Exporter.chmodIcons at h
  split at h
  · cases h
    cases folder <;> rfl
  · cases h

/-- No entry is changed. -/
def Alike (root root' : Root) : Prop :=
  ∀ folder name, root'.find folder name = root.find folder name

theorem alike_meets {effect : Root → Option Root}
    (heffect : ∀ s s', effect s = some s' → Alike s s')
    (halways : ∀ s, Alike root s → always s) (hraised : ∀ s, Alike root s → raised .osError s) :
    Meets always (Alike root) (perform PyError.osError effect) (fun _ => Alike root) raised := by
  refine Meets.perform (fun s s' hs hchange => ?_) hraised
  have hnext : Alike root s' := fun folder name =>
    (heffect s s' hchange folder name).trans (hs folder name)
  exact ⟨halways s' hnext, hnext, hraised s' hnext⟩

theorem makeDirectory_meets (halways : ∀ s, Alike root s → always s)
    (hraised : ∀ s, Alike root s → raised .osError s) :
    Meets always (· = root) e.makeDirectory (fun _ => Alike root) raised := by
  refine Meets.looked (Meets.bind (Q := fun _ => Alike root) ?_ fun _ => ?_)
  · refine Meets.whenever (fun hnone => ?_) fun _ s hs => hs ▸ fun _ _ => rfl
    have hroot : root = none := Option.isNone_iff_eq_none.mp hnone
    subst hroot
    refine Meets.perform (fun s s' hs hmade => ?_) fun s hs => hs ▸ hraised none fun _ _ => rfl
    cases hmade
    have hnext : Alike none (some (⟨∅, .absent⟩ : Applications)) := fun folder name => by
      cases folder <;> rfl
    exact ⟨halways _ hnext, hnext, hraised _ hnext⟩
  · refine Meets.each fun s hs => Meets.looked ?_
    split
    · exact (alike_meets (fun _ _ => mkdir_find) halways hraised).start hs
    · exact Meets.throw fun t ht => ht ▸ hraised s hs
    · exact Meets.throw fun t ht => ht ▸ hraised s hs
    · exact Meets.pure fun t ht => ht ▸ hs

theorem ensureDirectory_meets (halways : ∀ s, Alike root s → always s)
    (hraised : ∀ s, Alike root s → raised .osError s) :
    Meets always (· = root) e.ensureDirectory (fun _ => Alike root) raised := by
  refine Meets.bind (makeDirectory_meets halways hraised) fun _ => Meets.each fun s hs => ?_
  refine Meets.looked ?_
  split
  · exact Meets.whenever
      (fun _ => (alike_meets (fun _ _ => chmodIcons_find) halways hraised).start hs)
      fun _ t ht => ht ▸ hs
  · exact Meets.throw fun t ht => ht ▸ hraised s hs

/-! ## Writing all shortcuts -/

/-- What is last written to a name. -/
def lastWritten (shortcuts : List GeneratedShortcut) (folder : Folder) (name : FsName) :
    Option (List UInt8) :=
  (shortcuts.filterMap folder.file).reverse.lookup name

/-- Every name that was written to stands for what was written last. -/
def WrittenTo (done : List GeneratedShortcut) (root root' : Root) : Prop :=
  ∀ folder name, root'.find folder name =
    ((lastWritten done folder name).map wholeFile).or (root.find folder name)

theorem lastWritten_concat_of_file {shortcut : GeneratedShortcut} {content : List UInt8}
    (h : folder.file shortcut = some (name, content)) (done : List GeneratedShortcut) :
    lastWritten (done ++ [shortcut]) folder name = some content := by
  simp [lastWritten, h]

theorem lastWritten_concat_of_ne {shortcut : GeneratedShortcut}
    (h : ∀ content, folder.file shortcut ≠ some (name, content)) (done : List GeneratedShortcut) :
    lastWritten (done ++ [shortcut]) folder name = lastWritten done folder name := by
  unfold lastWritten
  rw [List.filterMap_append, List.reverse_append]
  cases hfile : folder.file shortcut with
  | none => simp [hfile]
  | some file =>
      obtain ⟨other, content⟩ := file
      have hne : (name == other) = false := beq_eq_false_iff_ne.mpr fun heq =>
        h content (heq ▸ hfile)
      simp [hfile, List.lookup_cons, hne]

/-- The names of the files of the shortcuts are the space's own. -/
def Own (e : Exporter) (spaceName : SpaceName) (shortcuts : List GeneratedShortcut) : Prop :=
  ∀ shortcut ∈ shortcuts, ∀ (folder : Folder) name content,
    folder.file shortcut = some (name, content) →
      ¬Hidden name ∧ Claimed e.rt.unicode spaceName folder name

/-- What has become of the one file, and of all others. -/
structure FileWritten (folder : Folder) (shortcut : GeneratedShortcut) (root root' : Root) :
    Prop where
  here : ∀ name content, folder.file shortcut = some (name, content) →
    root'.find folder name = some (wholeFile content)
  elsewhere : ∀ other name,
    (other = folder → ∀ content, folder.file shortcut ≠ some (name, content)) →
    root'.find other name = root.find other name

theorem writeFile_meets (root : Root) {shortcut : GeneratedShortcut}
    (hown : Own e spaceName shortcuts)
    (hmem : shortcut ∈ shortcuts) (halways : ∀ s, Touched e spaceName shortcuts root s → always s)
    (hraised : ∀ s, Touched e spaceName shortcuts root s → raised .osError s) :
    Meets always (· = root) (e.writeFile folder shortcut)
      (fun _ s => Touched e spaceName shortcuts root s ∧ FileWritten folder shortcut root s)
      raised := by
  unfold Exporter.writeFile
  split
  · next name content hfile =>
      obtain ⟨hseen, hclaimed⟩ := hown shortcut hmem folder name content hfile
      have hmade : FileOf shortcuts folder name (wholeFile content) :=
        ⟨shortcut, hmem, content, hfile, rfl⟩
      have htouched : ∀ s, Near hidden folder name content root s →
          Touched e spaceName shortcuts root s :=
        fun s hs => Touched.of_near hs (fun _ _ h => h) hclaimed hmade
      refine (atomicWrite_meets e hseen (fun s hs => halways s (htouched s hs))
        fun s hs => hraised s (htouched s hs)).weaken (fun _ h => h) ?_ fun _ _ h => h
      rintro _ s ⟨hnear, hwhole⟩
      refine ⟨htouched s (hnear.weaken fun _ _ h => h.elim), fun name' content' hfile' => ?_,
        fun other otherName hne => ?_⟩
      · cases hfile.symm.trans hfile'
        exact hwhole
      · rcases hnear other otherName id with hsame | ⟨rfl, rfl, -⟩
        · exact hsame
        · exact absurd hfile (hne rfl content)
  · next hnone =>
      refine Meets.pure fun s hs => ?_
      subst hs
      refine ⟨Touched.refl s, fun name content hfile => ?_, fun _ _ _ => rfl⟩
      cases hnone.symm.trans hfile

/-- The invariant is about the shortcuts that have been written. -/
theorem writeShortcuts_meets (root : Root) (hown : Own e spaceName shortcuts)
    (halways : ∀ s, Touched e spaceName shortcuts root s → always s)
    (hraised : ∀ s, Touched e spaceName shortcuts root s → raised .osError s) :
    Meets always (· = root) (forEach e.writeShortcut shortcuts)
      (fun _ s => Touched e spaceName shortcuts root s ∧ WrittenTo shortcuts root s) raised := by
  refine (@Meets.forEach _ _ _ _ _ _ (fun rest s => ∃ done, done ++ rest = shortcuts ∧
    Touched e spaceName shortcuts root s ∧ WrittenTo done root s) _ fun shortcut rest => ?_).weaken
    ?_ ?_ fun _ _ h => h
  · refine Meets.each fun s ⟨done, hdone, htouched, hwritten⟩ => ?_
    have hmem : shortcut ∈ shortcuts := hdone ▸ (by simp)
    refine Meets.bind (writeFile_meets s hown hmem
      (fun t ht => halways t (htouched.trans ht)) fun t ht => hraised t (htouched.trans ht))
      fun _ => Meets.each fun t ⟨ht, hfiles⟩ => ?_
    refine (writeFile_meets t hown hmem
      (fun u hu => halways u ((htouched.trans ht).trans hu))
      fun u hu => hraised u ((htouched.trans ht).trans hu)).weaken (fun _ h => h) ?_ fun _ _ h => h
    rintro _ u ⟨hu, hicons⟩
    refine ⟨done ++ [shortcut], by rw [List.append_assoc]; exact hdone,
      (htouched.trans ht).trans hu, fun folder name => ?_⟩
    have hstep : (∃ content, folder.file shortcut = some (name, content) ∧
          u.find folder name = some (wholeFile content)) ∨
        ((∀ content, folder.file shortcut ≠ some (name, content)) ∧
          u.find folder name = s.find folder name) := by
      by_cases hfile : ∃ content, folder.file shortcut = some (name, content)
      · obtain ⟨content, hfile⟩ := hfile
        refine .inl ⟨content, hfile, ?_⟩
        cases folder with
        | applications =>
            rw [hicons.elsewhere _ _ fun h => by cases h]
            exact hfiles.here name content hfile
        | icons => exact hicons.here name content hfile
      · have hno : ∀ content, folder.file shortcut ≠ some (name, content) :=
          fun content h => hfile ⟨content, h⟩
        refine .inr ⟨hno, ?_⟩
        rw [hicons.elsewhere folder name fun h => h ▸ hno,
          hfiles.elsewhere folder name fun h => h ▸ hno]
    rcases hstep with ⟨content, hfile, hwhole⟩ | ⟨hno, hsame⟩
    · rw [hwhole, lastWritten_concat_of_file hfile]
      rfl
    · rw [hsame, lastWritten_concat_of_ne hno]
      exact hwritten folder name
  · rintro s rfl
    exact ⟨[], rfl, Touched.refl s, fun folder name => rfl⟩
  · rintro _ s ⟨done, hdone, htouched, hwritten⟩
    rw [List.append_nil] at hdone
    exact ⟨htouched, hdone ▸ hwritten⟩

/-- Hidden names start with another character. -/
theorem seen_of_letter (rest : FsName) : ¬Hidden (fsText "spaces-".toList ++ rest) := by
  have hdot : (fsText hiddenPrefix).head? = some (.char '.') := by decide
  have hletter : (fsText "spaces-".toList).head? = some (.char 's') := by decide
  rintro ⟨rest', heq⟩
  have hheads := congrArg List.head? heq
  rw [List.head?_append, List.head?_append, hdot, hletter] at hheads
  cases hheads

theorem seen_of_start (h : fsText (shortcutPrefix spaceName SHORTCUT_VERSION) <+: name) :
    ¬Hidden name := by
  obtain ⟨rest, rfl⟩ := h
  rw [shortcutPrefix_parts, fsText_concat, List.append_assoc]
  exact seen_of_letter _

theorem generate_own {guest : Guest} (h : generate e.rt spaceName guest = .ok shortcuts) :
    Own e spaceName shortcuts := by
  intro shortcut hmem folder name content hfile
  obtain ⟨body, hbody⟩ := generate_named h hmem hfile
  refine ⟨seen_of_start ⟨_, hbody.symm⟩, fun hnone => ?_⟩
  cases (named_version hbody).symm.trans hnone

/-! ## `reconcile` -/

/-- A file of this version that was not written. -/
def Stale (e : Exporter) (spaceName : SpaceName) (shortcuts : List GeneratedShortcut)
    (folder : Folder) (name : FsName) : Prop :=
  shortcutVersion e.rt.unicode name spaceName folder.suffix = .ok (some SHORTCUT_VERSION) ∧
    name ∉ Exporter.expected folder shortcuts

theorem Stale.claimed (h : Stale e spaceName shortcuts folder name) :
    Claimed e.rt.unicode spaceName folder name := by
  intro hnone
  cases h.1.symm.trans hnone

theorem removeStale_meets (root : Root)
    (halways : ∀ s, Sweeping (Stale e spaceName shortcuts) root s → always s)
    (hraised : ∀ error s, Sweeping (Stale e spaceName shortcuts) root s → raised error s) :
    Meets always (· = root) (e.removeStale spaceName shortcuts folder)
      (fun _ s => Sweeping (Stale e spaceName shortcuts) root s ∧
        Swept e spaceName (Stale e spaceName shortcuts) folder root s) raised := by
  refine sweep_meets (fun name version hversion => ?_) halways hraised
  have hmem : (Exporter.expected folder shortcuts).contains name = false ↔
      name ∉ Exporter.expected folder shortcuts := by
    rw [← Bool.not_eq_true, List.contains_iff_mem]
  by_cases hstale : version = some SHORTCUT_VERSION ∧
      (Exporter.expected folder shortcuts).contains name = false
  · exact .inl ⟨⟨hversion.trans (congrArg _ hstale.1), hmem.mp hstale.2⟩, if_pos hstale⟩
  · refine .inr ⟨fun h => hstale ⟨?_, hmem.mpr h.2⟩, if_neg hstale⟩
    cases hversion.symm.trans h.1
    rfl

theorem lastWritten_made {content : List UInt8}
    (h : lastWritten shortcuts folder name = some content) :
    ∃ shortcut ∈ shortcuts, folder.file shortcut = some (name, content) := by
  obtain ⟨before, after, hsplit, -⟩ := List.lookup_eq_some_iff.mp h
  have hmem : (name, content) ∈ (shortcuts.filterMap folder.file).reverse := by
    rw [hsplit]
    simp
  exact List.mem_filterMap.mp (List.mem_reverse.mp hmem)

theorem lastWritten_eq_none : lastWritten shortcuts folder name = none ↔
    name ∉ Exporter.expected folder shortcuts := by
  unfold lastWritten Exporter.expected
  rw [List.lookup_eq_none_iff, List.mem_map]
  constructor
  · rintro h ⟨file, hfile, rfl⟩
    exact bne_iff_ne.mp (h file (List.mem_reverse.mpr hfile)) rfl
  · intro h file hfile
    exact bne_iff_ne.mpr fun heq => h ⟨file, List.mem_reverse.mp hfile, heq.symm⟩

/-- The files of the space are those of the shortcuts. -/
def Exact (e : Exporter) (spaceName : SpaceName) (shortcuts : List GeneratedShortcut)
    (root : Root) : Prop :=
  ∀ folder name, Claimed e.rt.unicode spaceName folder name →
    root.find folder name = (lastWritten shortcuts folder name).map wholeFile

/-- The files of all others are what they were. -/
def OthersKept (e : Exporter) (spaceName : SpaceName) (root root' : Root) : Prop :=
  ∀ folder name, ¬Claimed e.rt.unicode spaceName folder name →
    root'.find folder name = root.find folder name

/-- What is left when older versions are gone, the shortcuts are written, and what was not
written is gone as well. -/
theorem exact_of_steps {cleaned made written swept : Root}
    (hcurrent : ∀ folder name content, lastWritten shortcuts folder name = some content →
      shortcutVersion e.rt.unicode name spaceName folder.suffix = .ok (some SHORTCUT_VERSION))
    (hclean : Sweeping (Outdated e spaceName true) root cleaned)
    (hcleaned : ∀ folder, Swept e spaceName (Outdated e spaceName true) folder root cleaned)
    (hmade : Alike cleaned made) (hwritten : WrittenTo shortcuts made written)
    (hsweep : Sweeping (Stale e spaceName shortcuts) written swept)
    (hswept : ∀ folder name, Stale e spaceName shortcuts folder name →
      swept.find folder name = none) :
    Exact e spaceName shortcuts swept ∧ OthersKept e spaceName root swept := by
  constructor
  · intro folder name hclaimed
    cases hlast : lastWritten shortcuts folder name with
    | some content =>
        have hhere : written.find folder name = some (wholeFile content) := by
          rw [hwritten folder name, hlast]
          rfl
        rcases hsweep folder name with hsame | ⟨hstale, -⟩
        · exact hsame.trans hhere
        · rw [lastWritten_eq_none.mpr hstale.2] at hlast
          cases hlast
    | none =>
        have hunwritten : written.find folder name = cleaned.find folder name := by
          rw [hwritten folder name, hlast]
          exact hmade folder name
        -- of another version, of this one, or none that could be read
        match hversion : shortcutVersion e.rt.unicode name spaceName folder.suffix with
        | .ok none => exact absurd hversion hclaimed
        | .ok (some version) =>
            by_cases hcurrent : version = SHORTCUT_VERSION
            · exact hswept folder name ⟨hversion.trans (by rw [hcurrent]),
                lastWritten_eq_none.mp hlast⟩
            · refine hsweep.none_of_none (hunwritten.trans ((hcleaned folder).gone name ?_))
              exact ⟨version, hversion, by simp [hcurrent]⟩
        | .error error =>
            refine hsweep.none_of_none (hunwritten.trans (hclean.none_of_none ?_))
            by_contra hfind
            obtain ⟨version, hread⟩ := (hcleaned folder).readable name hfind
            cases hversion.symm.trans hread
  · intro folder name hother
    have hnone : lastWritten shortcuts folder name = none := by
      cases hlast : lastWritten shortcuts folder name with
      | none => rfl
      | some content =>
          exact absurd (fun hnone => by cases (hcurrent _ _ _ hlast).symm.trans hnone) hother
    have hcleanSame : cleaned.find folder name = root.find folder name :=
      (hclean folder name).resolve_right fun h => hother h.1.claimed
    have hsweepSame : swept.find folder name = written.find folder name :=
      (hsweep folder name).resolve_right fun h => hother h.1.claimed
    rw [hsweepSame, hwritten folder name, hnone]
    exact (hmade folder name).trans hcleanSame

theorem reconcile_meets {guest : Guest}
    (halways : ∀ s, Touched e spaceName ((generate e.rt spaceName guest).toOption.getD []) root s →
      always s)
    (hraised : ∀ error s,
      Touched e spaceName ((generate e.rt spaceName guest).toOption.getD []) root s →
      raised error s) :
    Meets always (· = root) (e.reconcile spaceName guest)
      (fun _ s => Touched e spaceName ((generate e.rt spaceName guest).toOption.getD []) root s ∧
        ∃ shortcuts, generate e.rt spaceName guest = .ok shortcuts ∧
          Exact e spaceName shortcuts s ∧ OthersKept e spaceName root s) raised := by
  have hsweep : ∀ {doomed : Folder → FsName → Prop} {s t : Root}, (∀ folder name,
      doomed folder name → Claimed e.rt.unicode spaceName folder name) →
      Touched e spaceName ((generate e.rt spaceName guest).toOption.getD []) root s →
      Sweeping doomed s t →
      Touched e spaceName ((generate e.rt spaceName guest).toOption.getD []) root t :=
    fun hclaimed hs ht => hs.trans (.of_sweeping ht hclaimed)
  have hclean : ∀ s, Sweeping (Outdated e spaceName true) root s →
      Touched e spaceName ((generate e.rt spaceName guest).toOption.getD []) root s :=
    fun s hs => hsweep (fun _ _ => Outdated.claimed) (.refl root) hs
  refine Meets.bind (cleanupVersions_meets (fun s hs => halways s (hclean s hs))
    fun error s hs => hraised error s (hclean s hs)) fun _ => Meets.each fun s ⟨hs, hcleaned⟩ => ?_
  have halike : ∀ t, Alike s t →
      Touched e spaceName ((generate e.rt spaceName guest).toOption.getD []) root t :=
    fun t ht => (hclean s hs).trans fun folder name _ => .inl (ht folder name)
  refine Meets.bind (ensureDirectory_meets (fun t ht => halways t (halike t ht))
    fun t ht => hraised _ t (halike t ht)) fun _ => Meets.each fun t ht => ?_
  cases hgenerate : generate e.rt spaceName guest with
  | error error => exact Meets.throw fun u hu => hu ▸ hraised error t (halike t ht)
  | ok shortcuts =>
      rw [hgenerate] at halways hraised hsweep halike
      change ∀ s, Touched e spaceName shortcuts root s → always s at halways
      change ∀ error s, Touched e spaceName shortcuts root s → raised error s at hraised
      have hown := generate_own hgenerate
      refine Meets.bind (writeShortcuts_meets t hown
        (fun u hu => halways u ((halike t ht).trans hu))
        fun u hu => hraised _ u ((halike t ht).trans hu)) fun _ =>
          Meets.each fun u ⟨hu, hwritten⟩ => ?_
      have hu := (halike t ht).trans hu
      refine Meets.bind (removeStale_meets u
        (fun v hv => halways v (hsweep (fun _ _ => Stale.claimed) hu hv))
        fun error v hv => hraised error v (hsweep (fun _ _ => Stale.claimed) hu hv))
        fun _ => Meets.each fun v ⟨hv, hfiles⟩ => ?_
      have hv' := hsweep (fun _ _ => Stale.claimed) hu hv
      refine (removeStale_meets v
        (fun w hw => halways w (hsweep (fun _ _ => Stale.claimed) hv' hw))
        fun error w hw => hraised error w (hsweep (fun _ _ => Stale.claimed) hv' hw)).weaken
        (fun _ h => h) ?_ fun _ _ h => h
      rintro _ w ⟨hw, hicons⟩
      refine ⟨hsweep (fun _ _ => Stale.claimed) hv' hw, shortcuts, rfl,
        exact_of_steps ?_ hs hcleaned ht hwritten (hv.trans hw) ?_⟩
      · intro folder name content hlast
        obtain ⟨shortcut, hmem, hfile⟩ := lastWritten_made hlast
        obtain ⟨body, hbody⟩ := generate_named hgenerate hmem hfile
        exact named_version hbody
      · intro folder name hstale
        cases folder with
        | applications => exact hw.none_of_none (hfiles.gone name hstale)
        | icons => exact hicons.gone name hstale

/-! ## All calls -/

inductive Call where
  | reconcile (spaceName : SpaceName) (guest : Guest)
  | remove (spaceName : SpaceName)
  | cleanupVersions (spaceName : SpaceName) (keepCurrent : Bool)

namespace Call

def space : Call → SpaceName
  | reconcile spaceName _ => spaceName
  | remove spaceName => spaceName
  | cleanupVersions spaceName _ => spaceName

def perform (e : Exporter) : Call → Export Unit
  | reconcile spaceName guest => e.reconcile spaceName guest
  | remove spaceName => e.remove spaceName
  | cleanupVersions spaceName keepCurrent => e.cleanupVersions spaceName keepCurrent

/-- The shortcuts that the call writes. -/
def makes (e : Exporter) : Call → List GeneratedShortcut
  | reconcile spaceName guest => (generate e.rt spaceName guest).toOption.getD []
  | remove _ => []
  | cleanupVersions _ _ => []

end Call

/-- A call, and what becomes of it. -/
structure Turn where
  call : Call
  faults : List Fault := []
  /-- The process that made the call is killed, so many changes before its end. -/
  killed : Option Nat := none

namespace Exporter

variable (e : Exporter)

def take (turn : Turn) (root : Root) : Except PyError Unit × Trial Root :=
  turn.call.perform e { state := root, faults := turn.faults }

def next (turn : Turn) (root : Root) : Root :=
  match turn.killed with
  | none => (e.take turn root).2.state
  | some n => ((e.take turn root).2.passed[n]?).getD root

/-- All states of the directory, from the one that is there. -/
def points : List Turn → Root → List Root
  | [], root => [root]
  | turn :: rest, root => root :: (e.take turn root).2.passed ++ points rest (e.next turn root)

end Exporter

theorem call_meets (e : Exporter) (call : Call) (root : Root) :
    Meets (Touched e call.space (call.makes e) root) (· = root) (call.perform e)
      (fun _ => Touched e call.space (call.makes e) root)
      fun _ => Touched e call.space (call.makes e) root := by
  have hclean : ∀ keepCurrent s, Sweeping (Outdated e call.space keepCurrent) root s →
      Touched e call.space (call.makes e) root s :=
    fun keepCurrent s hs => .of_sweeping hs fun _ _ => Outdated.claimed
  cases call with
  | reconcile spaceName guest =>
      exact (reconcile_meets (fun _ h => h) fun _ _ h => h).weaken (fun _ h => h)
        (fun _ _ h => h.1) fun _ _ h => h
  | remove spaceName =>
      exact (remove_meets (hclean false) fun _ => hclean false).weaken (fun _ h => h)
        (fun _ s hs => hclean false s hs.1) fun _ _ h => h
  | cleanupVersions spaceName keepCurrent =>
      exact (cleanupVersions_meets (hclean keepCurrent) fun _ => hclean keepCurrent).weaken
        (fun _ h => h) (fun _ s hs => hclean keepCurrent s hs.1) fun _ _ h => h

section

variable {turn : Turn} {turns : List Turn} {point : Root}

theorem take_passed (h : point ∈ (e.take turn root).2.passed) :
    Touched e turn.call.space (turn.call.makes e) root point :=
  (call_meets e turn.call root { state := root, faults := turn.faults }
    (fun _ hs => absurd hs List.not_mem_nil) rfl).points point h

theorem next_touched : Touched e turn.call.space (turn.call.makes e) root (e.next turn root) := by
  have hholds := call_meets e turn.call root { state := root, faults := turn.faults }
    (fun _ hs => absurd hs List.not_mem_nil) rfl
  unfold Exporter.next
  split
  · unfold Exporter.take
    match turn.call.perform e { state := root, faults := turn.faults }, hholds with
    | (.ok _, t), hholds => exact hholds.2
    | (.error _, t), hholds => exact hholds.2
  · next n _ =>
      cases hpoint : (e.take turn root).2.passed[n]? with
      | none => exact Touched.refl root
      | some s => exact take_passed (List.mem_of_getElem? hpoint)

/-- What every turn keeps holds at every point of a run. -/
theorem points_induction {P : Root → Prop}
    (hstep : ∀ turn ∈ turns, ∀ root root', P root →
      Touched e turn.call.space (turn.call.makes e) root root' → P root')
    (hroot : P root) (hpoint : point ∈ e.points turns root) : P point := by
  induction turns generalizing root with
  | nil => exact List.mem_singleton.mp hpoint ▸ hroot
  | cons turn rest ih =>
      rcases List.mem_append.mp hpoint with hpoint | hpoint
      · rcases List.mem_cons.mp hpoint with rfl | hpoint
        · exact hroot
        · exact hstep turn List.mem_cons_self root point hroot (take_passed hpoint)
      · exact ih (fun turn' hturn => hstep turn' (List.mem_cons_of_mem turn hturn))
          (hstep turn List.mem_cons_self root _ hroot next_touched) hpoint

/-! ## What lasts -/

/-- What a call writes is called like a shortcut of its space. -/
theorem start_of_made {call : Call} {entry : Entry} (h : FileOf (call.makes e) folder name entry) :
    fsText (shortcutPrefix call.space SHORTCUT_VERSION) <+: name := by
  obtain ⟨shortcut, hmem, content, hfile, -⟩ := h
  cases call with
  | reconcile spaceName guest =>
      change shortcut ∈ (generate e.rt spaceName guest).toOption.getD [] at hmem
      cases hgenerate : generate e.rt spaceName guest with
      | error error =>
          rw [hgenerate] at hmem
          cases hmem
      | ok shortcuts =>
          rw [hgenerate] at hmem
          obtain ⟨body, hbody⟩ := generate_named hgenerate hmem hfile
          exact ⟨_, hbody.symm⟩
  | remove spaceName => cases hmem
  | cleanupVersions spaceName keepCurrent => cases hmem

theorem Apart.symm (h : Apart spaceName other) : Apart other spaceName :=
  ⟨h.ne.symm, h.there, h.here⟩

theorem seen_of_claimed (h : Claimed e.rt.unicode spaceName folder name) : ¬Hidden name := by
  obtain ⟨-, version, rest, rfl, -, -⟩ := claimed_iff.mp h
  rw [versionStart_eq, fsText_concat, List.append_assoc]
  exact seen_of_letter _

/-- A call for a space apart leaves the files of this one as they are, and adds none. -/
theorem Exact.touched {call : Call} (h : Exact e spaceName shortcuts root)
    (hnamed : ∀ folder name content, lastWritten shortcuts folder name = some content →
      fsText (shortcutPrefix spaceName SHORTCUT_VERSION) <+: name)
    (htouched : Touched e call.space (call.makes e) root root')
    (hapart : Apart spaceName call.space) :
    Exact e spaceName shortcuts root' := by
  intro folder name hclaimed
  rcases htouched folder name (seen_of_claimed hclaimed) with hsame | ⟨hother, hmade⟩
  · exact hsame.trans (h folder name hclaimed)
  · have hgone : root'.find folder name = none := by
      by_contra hfind
      obtain ⟨entry, hentry⟩ := Option.ne_none_iff_exists'.mp hfind
      exact hapart.symm.unclaimed (start_of_made (hmade entry hentry)) hclaimed
    have hnone : lastWritten shortcuts folder name = none := by
      by_contra hlast
      obtain ⟨content, hlast⟩ := Option.ne_none_iff_exists'.mp hlast
      exact hapart.unclaimed (hnamed folder name content hlast) hother
    rw [hgone, hnone]
    rfl

theorem named_of_generate {guest : Guest} (h : generate e.rt spaceName guest = .ok shortcuts)
    (folder : Folder) (name : FsName) (content : List UInt8)
    (hlast : lastWritten shortcuts folder name = some content) :
    fsText (shortcutPrefix spaceName SHORTCUT_VERSION) <+: name := by
  obtain ⟨shortcut, hmem, hfile⟩ := lastWritten_made hlast
  obtain ⟨body, hbody⟩ := generate_named h hmem hfile
  exact ⟨_, hbody.symm⟩

/-- A call that has returned did what it does. -/
theorem next_of_ok {call : Call} {faults : List Fault} {post : Unit → Root → Prop}
    (hmeets : Meets (fun _ => True) (· = root) (call.perform e) post fun _ _ => True)
    (hok : (e.take { call, faults } root).1 = .ok ()) : post () (e.next { call, faults } root) := by
  have hholds := hmeets { state := root, faults } (fun _ _ => trivial) rfl
  unfold Exporter.take at hok
  unfold Exporter.next Exporter.take
  dsimp only at hok ⊢
  match call.perform e { state := root, faults }, hholds, hok with
  | (.ok _, t), hholds, _ => exact hholds.2

/-! ## Over all runs -/

/-- What a space has exported is as it was at every point, whatever is done meanwhile for
spaces apart from it. -/
theorem kept_apart (hapart : ∀ turn ∈ turns, Apart spaceName turn.call.space)
    (hpoint : point ∈ e.points turns root)
    (hname : fsText (shortcutPrefix spaceName SHORTCUT_VERSION) <+: name) :
    point.find folder name = root.find folder name := by
  refine points_induction (P := fun s => s.find folder name = root.find folder name) ?_ rfl hpoint
  intro turn hturn s s' hs htouched
  rcases htouched folder name (seen_of_start hname) with hsame | ⟨hclaimed, -⟩
  · exact hsame.trans hs
  · exact absurd hclaimed ((hapart turn hturn).unclaimed hname)

/-- What can be seen at any point was there before, or is a whole file that one of the calls
has written for its own space. -/
theorem seen_whole (hpoint : point ∈ e.points turns root) (hseen : ¬Hidden name) {entry : Entry}
    (hfind : point.find folder name = some entry) :
    root.find folder name = some entry ∨
      ∃ turn ∈ turns, Claimed e.rt.unicode turn.call.space folder name ∧
        FileOf (turn.call.makes e) folder name entry := by
  refine points_induction (P := fun s => ∀ entry, s.find folder name = some entry →
    root.find folder name = some entry ∨
      ∃ turn ∈ turns, Claimed e.rt.unicode turn.call.space folder name ∧
        FileOf (turn.call.makes e) folder name entry) ?_ (fun _ h => .inl h) hpoint entry hfind
  intro turn hturn s s' hs htouched entry hentry
  rcases htouched folder name hseen with hsame | ⟨hclaimed, hmade⟩
  · exact hs entry (hsame ▸ hentry)
  · exact .inr ⟨turn, hturn, hclaimed, hmade entry hentry⟩

/-- When `reconcile` returns, the files of the space are its shortcuts and no other file has
been changed, and so it stays while other spaces are served. -/
theorem reconcile_lasts {guest : Guest} {faults : List Fault}
    (hok : (e.take { call := .reconcile spaceName guest, faults } root).1 = .ok ()) :
    OthersKept e spaceName root (e.next { call := .reconcile spaceName guest, faults } root) ∧
      ∃ shortcuts, generate e.rt spaceName guest = .ok shortcuts ∧
        ∀ turns : List Turn, (∀ turn ∈ turns, Apart spaceName turn.call.space) →
          ∀ point ∈ e.points turns (e.next { call := .reconcile spaceName guest, faults } root),
            Exact e spaceName shortcuts point := by
  obtain ⟨-, shortcuts, hgenerate, hexact, hkept⟩ :=
    next_of_ok (reconcile_meets (fun _ _ => trivial) fun _ _ _ => trivial) hok
  refine ⟨hkept, shortcuts, hgenerate, fun turns hapart point hpoint => ?_⟩
  exact points_induction (fun turn hturn s s' hs htouched =>
    hs.touched (named_of_generate hgenerate) htouched (hapart turn hturn)) hexact hpoint

/-- When `remove` returns, the space has no files left and no other file has been changed,
and it gets none while other spaces are served. -/
theorem remove_lasts {faults : List Fault}
    (hok : (e.take { call := .remove spaceName, faults } root).1 = .ok ()) :
    OthersKept e spaceName root (e.next { call := .remove spaceName, faults } root) ∧
      ∀ turns : List Turn, (∀ turn ∈ turns, Apart spaceName turn.call.space) →
        ∀ point ∈ e.points turns (e.next { call := .remove spaceName, faults } root),
          ∀ folder name, Claimed e.rt.unicode spaceName folder name →
            point.find folder name = none := by
  obtain ⟨hsweeping, hswept⟩ :=
    next_of_ok (remove_meets (fun _ _ => trivial) fun _ _ _ => trivial) hok
  generalize e.next { call := .remove spaceName, faults } root = next at hsweeping hswept
  have hexact : Exact e spaceName [] next := by
    intro folder name hclaimed
    match hversion : shortcutVersion e.rt.unicode name spaceName folder.suffix with
    | .ok none => exact absurd hversion hclaimed
    | .ok (some version) => exact (hswept folder).gone name ⟨version, hversion, rfl⟩
    | .error error =>
        refine hsweeping.none_of_none ?_
        by_contra hfind
        obtain ⟨version, hread⟩ := (hswept folder).readable name hfind
        cases hversion.symm.trans hread
  refine ⟨fun folder name hother => ?_, fun turns hapart point hpoint => ?_⟩
  · exact (hsweeping folder name).resolve_right fun h => hother h.1.claimed
  · exact points_induction (fun turn hturn s s' hs htouched =>
      hs.touched (fun _ _ _ hlast => by cases hlast) htouched (hapart turn hturn)) hexact hpoint

end

/-! ## Two spaces -/

/-- Longer than each of the names that are there. -/
def sampleTemporary (names : List FsName) : FsName := fsText hiddenPrefix ++ names.flatten

def sampleExporter : Exporter where
  rt := sampleRuntime
  listdir names := names
  listdir_perm _ := List.Perm.refl _
  temporary := sampleTemporary
  temporary_new names := by
    intro hmem
    have hlength := (List.sublist_flatten_of_mem hmem).length_le
    have hprefix : (fsText hiddenPrefix).length = 8 := by decide
    rw [sampleTemporary, List.length_append, hprefix] at hlength
    omega
  temporary_hidden _ := List.prefix_append _ _
  made := 0o755

def mailSpace : SpaceName := ⟨"mail".toList, rfl⟩

def boxShortcut : GeneratedShortcut where
  name := "spaces-box-v1-a.desktop".toList
  desktop := joinLines (["[Desktop Entry]", "Type=Application", "Name=A (box)",
    "Exec=/usr/bin/spaces enter --graphical box -- a", "StartupWMClass=a",
    "DBusActivatable=false"].map String.toList)
  iconName := none
  icon := none

/-- The directory when `box` has exported what it has, and the next call, of another space. -/
def boxRoot : Root :=
  sampleExporter.next { call := .reconcile sampleSpace (guestOf [plainFile]) } none

def mailTurn : Turn where
  call := .reconcile mailSpace (guestOf [plainFile])

def mailRoot : Root := sampleExporter.next mailTurn boxRoot

theorem sample_run :
    (sampleExporter.take { call := .reconcile sampleSpace (guestOf [plainFile]) } none).1 = .ok () ∧
      (sampleExporter.take { call := .remove sampleSpace } mailRoot).1 = .ok () ∧
      mailRoot.find .applications (fsText boxShortcut.name) =
        some (wholeFile (utf8 boxShortcut.desktop)) := by
  decide +kernel

theorem mailRoot_mem : mailRoot ∈ sampleExporter.points [mailTurn] boxRoot :=
  List.mem_append_right _ (List.mem_singleton.mpr rfl)

theorem apart_mail : ∀ turn ∈ [mailTurn], Apart sampleSpace turn.call.space := by
  intro turn hturn
  rw [List.mem_singleton.mp hturn]
  exact ⟨by decide, by decide, by decide⟩

theorem kept_apart_mail :
    mailRoot.find .applications (fsText boxShortcut.name) =
      boxRoot.find .applications (fsText boxShortcut.name) :=
  kept_apart apart_mail mailRoot_mem (by decide +kernel)

theorem seen_whole_mail :
    boxRoot.find .applications (fsText boxShortcut.name) =
        some (wholeFile (utf8 boxShortcut.desktop)) ∨
      ∃ turn ∈ [mailTurn],
        Claimed sampleExporter.rt.unicode turn.call.space .applications (fsText boxShortcut.name) ∧
          FileOf (turn.call.makes sampleExporter) .applications (fsText boxShortcut.name)
            (wholeFile (utf8 boxShortcut.desktop)) :=
  seen_whole mailRoot_mem (seen_of_letter _) sample_run.2.2

theorem reconcile_lasts_box :
    OthersKept sampleExporter sampleSpace none boxRoot ∧
      ∃ shortcuts, generate sampleExporter.rt sampleSpace (guestOf [plainFile]) = .ok shortcuts ∧
        ∀ turns : List Turn, (∀ turn ∈ turns, Apart sampleSpace turn.call.space) →
          ∀ point ∈ sampleExporter.points turns boxRoot,
            Exact sampleExporter sampleSpace shortcuts point :=
  reconcile_lasts sample_run.1

theorem remove_lasts_box :
    OthersKept sampleExporter sampleSpace mailRoot
        (sampleExporter.next { call := .remove sampleSpace } mailRoot) ∧
      ∀ turns : List Turn, (∀ turn ∈ turns, Apart sampleSpace turn.call.space) →
        ∀ point ∈ sampleExporter.points turns
            (sampleExporter.next { call := .remove sampleSpace } mailRoot),
          ∀ folder name, Claimed sampleExporter.rt.unicode sampleSpace folder name →
            point.find folder name = none :=
  remove_lasts sample_run.2.1

end Spaces.Shortcuts
