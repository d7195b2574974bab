import Spaces.Shortcuts.Writing

/-!
# What is taken away

`cleanup_versions` and the end of `reconcile` go through a directory and remove the files
of the space that are doomed: those of another version, or those that were not written.
Both are one sweep, which comes to its end only if no name there has a version that cannot
be read.
-/

namespace Spaces.Shortcuts

open Spaces.Library Spaces.Library.Text Spaces.Library.Routine

variable {e : Exporter} {spaceName : SpaceName} {folder : Folder} {name : FsName}
    {root root' : Root}
  {always : Root → Prop} {raised : PyError → Root → Prop} {doomed : Folder → FsName → Prop}

/-- The name is none that `_shortcut_version` raises over. -/
def Readable (e : Exporter) (spaceName : SpaceName) (folder : Folder) (name : FsName) : Prop :=
  ∃ version, shortcutVersion e.rt.unicode name spaceName folder.suffix = .ok version

/-- Nothing has happened but that doomed files are gone. -/
def Sweeping (doomed : Folder → FsName → Prop) (root root' : Root) : Prop :=
  ∀ folder name, root'.find folder name = root.find folder name ∨
    (doomed folder name ∧ root'.find folder name = none)

/-- No doomed file is left in the directory. -/
structure Swept (e : Exporter) (spaceName : SpaceName) (doomed : Folder → FsName → Prop)
    (folder : Folder) (root root' : Root) : Prop where
  gone : ∀ name, doomed folder name → root'.find folder name = none
  readable : ∀ name, root.find folder name ≠ none → Readable e spaceName folder name

namespace Sweeping

theorem refl (root : Root) : Sweeping doomed root root := fun _ _ => .inl rfl

theorem trans {middle : Root} (h : Sweeping doomed root middle)
    (h' : Sweeping doomed middle root') :
    Sweeping doomed root root' := by
  intro folder name
  rcases h' folder name with hsame | hgone
  · rw [hsame]
    exact h folder name
  · exact .inr hgone

theorem none_of_none (h : Sweeping doomed root root') (hnone : root.find folder name = none) :
    root'.find folder name = none := by
  rcases h folder name with hsame | ⟨-, hgone⟩
  · rw [hsame, hnone]
  · exact hgone

theorem removed {middle : Root} (h : Sweeping doomed root middle) (hdoomed : doomed folder name)
    (hgone : root'.find folder name = none) (helsewhere : Elsewhere folder name middle root') :
    Sweeping doomed root root' := by
  intro other otherName
  by_cases hplace : other = folder ∧ otherName = name
  · obtain ⟨rfl, rfl⟩ := hplace
    exact .inr ⟨hdoomed, hgone⟩
  · rw [helsewhere other otherName hplace]
    exact h other otherName

end Sweeping

theorem Swept.after {middle : Root} (h : Swept e spaceName doomed folder root middle)
    (h' : Sweeping doomed middle root') : Swept e spaceName doomed folder root root' :=
  ⟨fun name hdoomed => h'.none_of_none (h.gone name hdoomed), h.readable⟩

/-! ## One sweep -/

theorem removePath_meets (root : Root) (hdoomed : doomed folder name)
    (halways : ∀ s, Sweeping doomed root s → always s)
    (hraised : ∀ s, Sweeping doomed root s → raised .osError s) :
    Meets always (· = root) (removePath folder name)
      (fun _ s => Sweeping doomed root s ∧ s.find folder name = none) raised := by
  refine Meets.looked ?_
  split
  · next hnone =>
      rw [Option.isNone_iff_eq_none] at hnone
      refine Meets.pure fun s hs => ?_
      subst hs
      exact ⟨Sweeping.refl s, hnone⟩
  · refine Meets.perform (fun s s' hs hchange => ?_) fun s hs => hs ▸ hraised root (.refl root)
    subst hs
    obtain ⟨hgone, helsewhere⟩ := unlink_find hchange
    have hnext := (Sweeping.refl s).removed hdoomed hgone helsewhere
    exact ⟨halways s' hnext, ⟨hnext, hgone⟩, hraised s' hnext⟩

/-- What is made of every name that is there, one after another. -/
theorem eachVersion_meets {f : FsName → Option Nat → Export Unit}
    (inv : List FsName → Root → Prop) {pre : Root → Prop} (halways : ∀ s, pre s → always s)
    (hraised : ∀ s, pre s → raised .osError s)
    (hstart : ∀ s names, pre s → (∀ name, s.find folder name ≠ none → name ∈ names) → inv names s)
    (hstep : ∀ name rest version,
      shortcutVersion e.rt.unicode name spaceName folder.suffix = .ok version →
      Meets always (inv (name :: rest)) (f name version) (fun _ => inv rest) raised)
    (herror : ∀ name rest error,
      shortcutVersion e.rt.unicode name spaceName folder.suffix = .error error →
      ∀ s, inv (name :: rest) s → raised error s) :
    Meets always pre (e.eachVersion spaceName folder f) (fun _ => inv []) raised := by
  refine Meets.bind (Q := inv) ?_ fun names => Meets.forEach fun name rest => ?_
  · refine Meets.bind (reads_meets halways hraised) fun _ => Meets.each fun s hs => ?_
    refine Meets.looked (Meets.pure ?_)
    rintro t rfl
    refine hstart t _ hs fun name hfind => ?_
    refine (e.listdir_perm _).mem_iff.mpr ?_
    by_contra hmem
    exact hfind (find_eq_none.mpr hmem)
  · split
    · next version hversion => exact hstep name rest version hversion
    · next error herr => exact Meets.throw (herror name rest error herr)

/-- A sweep for what is doomed by the version that is read of its name. -/
theorem sweep_meets {f : FsName → Option Nat → Export Unit}
    (hdoom : ∀ name version,
      shortcutVersion e.rt.unicode name spaceName folder.suffix = .ok version →
      (doomed folder name ∧ f name version = removePath folder name) ∨
        (¬doomed folder name ∧ f name version = pure ()))
    (halways : ∀ s, Sweeping doomed root s → always s)
    (hraised : ∀ error s, Sweeping doomed root s → raised error s) :
    Meets always (· = root) (e.eachVersion spaceName folder f)
      (fun _ s => Sweeping doomed root s ∧ Swept e spaceName doomed folder root s) raised := by
  have hstart : ∀ s, s = root → Sweeping doomed root s := by
    rintro s rfl
    exact Sweeping.refl s
  -- what is doomed or cannot be read is among the names to come
  refine (eachVersion_meets (fun rest s => Sweeping doomed root s ∧
      (∀ name, doomed folder name → name ∉ rest → s.find folder name = none) ∧
      ∀ name, root.find folder name ≠ none → name ∉ rest → Readable e spaceName folder name)
    (fun s hs => halways s (hstart s hs)) (fun s hs => hraised _ s (hstart s hs)) ?_ ?_ ?_).weaken
    (fun _ h => h) ?_ fun _ _ h => h
  · rintro s names rfl hnames
    refine ⟨Sweeping.refl s, fun name _ hout => ?_, fun name hfind hout => ?_⟩
    · by_contra hfind
      exact hout (hnames name hfind)
    · exact absurd (hnames name hfind) hout
  · intro name rest version hversion
    have hreadable : Readable e spaceName folder name := ⟨version, hversion⟩
    rcases hdoom name version hversion with ⟨hdoomed, heq⟩ | ⟨hkept, heq⟩
    · rw [heq]
      refine Meets.each fun s ⟨hsweeping, hgone, hread⟩ => ?_
      refine (removePath_meets s hdoomed (fun t ht => halways t (hsweeping.trans ht))
        fun t ht => hraised _ t (hsweeping.trans ht)).weaken (fun _ h => h) ?_ fun _ _ h => h
      rintro _ t ⟨ht, hnone⟩
      refine ⟨hsweeping.trans ht, fun other hdoomed hout => ?_, fun other hfind hout => ?_⟩
      · by_cases hsame : other = name
        · exact hsame ▸ hnone
        · exact ht.none_of_none (hgone other hdoomed (by simp [hsame, hout]))
      · by_cases hsame : other = name
        · exact hsame ▸ hreadable
        · exact hread other hfind (by simp [hsame, hout])
    · rw [heq]
      refine Meets.pure fun s ⟨hsweeping, hgone, hread⟩ => ⟨hsweeping, ?_, ?_⟩
      · intro other hdoomed hout
        by_cases hsame : other = name
        · exact absurd (hsame ▸ hdoomed) hkept
        · exact hgone other hdoomed (by simp [hsame, hout])
      · intro other hfind hout
        by_cases hsame : other = name
        · exact hsame ▸ hreadable
        · exact hread other hfind (by simp [hsame, hout])
  · exact fun name rest error _ s hs => hraised error s hs.1
  · rintro _ s ⟨hsweeping, hgone, hread⟩
    exact ⟨hsweeping, fun name h => hgone name h List.not_mem_nil,
      fun name h => hread name h List.not_mem_nil⟩

/-! ## `cleanup_versions` and `remove` -/

/-- The version is not the one to be kept. -/
def Outdated (e : Exporter) (spaceName : SpaceName) (keepCurrent : Bool) (folder : Folder)
    (name : FsName) : Prop :=
  ∃ version, shortcutVersion e.rt.unicode name spaceName folder.suffix = .ok (some version) ∧
    (keepCurrent && version == SHORTCUT_VERSION) = false

variable {keepCurrent : Bool}

theorem cleanupFolder_meets (root : Root)
    (halways : ∀ s, Sweeping (Outdated e spaceName keepCurrent) root s → always s)
    (hraised : ∀ error s, Sweeping (Outdated e spaceName keepCurrent) root s → raised error s) :
    Meets always (· = root) (e.cleanupFolder spaceName keepCurrent folder)
      (fun _ s => Sweeping (Outdated e spaceName keepCurrent) root s ∧
        Swept e spaceName (Outdated e spaceName keepCurrent) folder root s) raised := by
  refine sweep_meets (fun name version hversion => ?_) halways hraised
  cases version with
  | none =>
      refine .inr ⟨?_, rfl⟩
      rintro ⟨other, hother, -⟩
      cases hversion.symm.trans hother
  | some version =>
      cases hkeep : keepCurrent && version == SHORTCUT_VERSION with
      | false => exact .inl ⟨⟨version, hversion, hkeep⟩, if_neg (by simp [hkeep])⟩
      | true =>
          refine .inr ⟨?_, if_pos hkeep⟩
          rintro ⟨other, hother, hne⟩
          cases hversion.symm.trans hother
          cases hkeep.symm.trans hne

/-- There are no files where there is no directory. -/
theorem swept_of_missing {middle : Root} (h : Sweeping doomed root middle)
    (hall : ∀ name, root.find folder name = none) :
    Swept e spaceName doomed folder root middle :=
  ⟨fun name _ => h.none_of_none (hall name), fun name hfind => absurd (hall name) hfind⟩

theorem find_icons_none (h : ∀ mode listing, root.icons ≠ .directory mode listing)
    (name : FsName) : root.find .icons name = none := by
  cases root with
  | none => rfl
  | some applications =>
      obtain ⟨files, icons⟩ := applications
      cases icons with
      | directory mode listing => exact absurd rfl (h mode listing)
      | absent => rfl
      | dangling => rfl
      | unsafeRoot => rfl

/-- The sweep of the other directory, after that of the one. -/
theorem Swept.before {middle : Root} {other : Folder} (h : Sweeping doomed root middle)
    (hdoomed : ∀ name, doomed other name → Readable e spaceName other name)
    (h' : Swept e spaceName doomed other middle root') :
    Swept e spaceName doomed other root root' := by
  refine ⟨h'.gone, fun name hfind => ?_⟩
  rcases h other name with hsame | ⟨hgone, -⟩
  · exact h'.readable name (hsame ▸ hfind)
  · exact hdoomed name hgone

theorem Outdated.readable (h : Outdated e spaceName keepCurrent folder name) :
    Readable e spaceName folder name := by
  obtain ⟨version, hversion, -⟩ := h
  exact ⟨_, hversion⟩

theorem cleanupVersions_meets
    (halways : ∀ s, Sweeping (Outdated e spaceName keepCurrent) root s → always s)
    (hraised : ∀ error s, Sweeping (Outdated e spaceName keepCurrent) root s → raised error s) :
    Meets always (· = root) (e.cleanupVersions spaceName keepCurrent)
      (fun _ s => Sweeping (Outdated e spaceName keepCurrent) root s ∧
        ∀ folder, Swept e spaceName (Outdated e spaceName keepCurrent) folder root s) raised := by
  refine Meets.looked ?_
  refine Meets.bind (Q := fun _ s => Sweeping (Outdated e spaceName keepCurrent) root s ∧
    Swept e spaceName (Outdated e spaceName keepCurrent) .applications root s) ?_ fun _ => ?_
  · refine Meets.whenever (fun _ => cleanupFolder_meets root halways hraised) fun hnone s hs => ?_
    subst hs
    have hroot : s = none := by simpa using hnone
    subst hroot
    exact ⟨Sweeping.refl _, swept_of_missing (Sweeping.refl _) fun _ => rfl⟩
  · refine Meets.each fun s ⟨hs, hfiles⟩ => Meets.looked ?_
    -- without a directory of icons there is nothing more to do
    have hmissing : (∀ mode listing, s.icons ≠ .directory mode listing) → ∀ t, t = s →
        Sweeping (Outdated e spaceName keepCurrent) root t ∧
          ∀ folder, Swept e spaceName (Outdated e spaceName keepCurrent) folder root t := by
      rintro hicons t rfl
      refine ⟨hs, fun folder => ?_⟩
      cases folder with
      | applications => exact hfiles
      | icons =>
          exact Swept.before hs (fun _ => Outdated.readable)
            (swept_of_missing (.refl t) (find_icons_none hicons))
    split
    · next hicons => exact Meets.pure (hmissing fun mode listing => by rw [hicons]; simp)
    · next hicons => exact Meets.pure (hmissing fun mode listing => by rw [hicons]; simp)
    · exact Meets.throw fun t ht => ht ▸ hraised _ s hs
    · refine (cleanupFolder_meets s (fun t ht => halways t (hs.trans ht))
        fun error t ht => hraised error t (hs.trans ht)).weaken (fun _ h => h) ?_ fun _ _ h => h
      rintro _ t ⟨ht, hswept⟩
      refine ⟨hs.trans ht, fun folder => ?_⟩
      cases folder with
      | applications => exact hfiles.after ht
      | icons => exact Swept.before hs (fun _ => Outdated.readable) hswept

/-- A directory that is removed was empty. -/
theorem rmdir_find (h : Exporter.rmdir root = some root') (folder : Folder) (name : FsName) :
    root'.find folder name = root.find folder name := by
  unfold Exporter.rmdir at h
  split at h
  · next files mode icons =>
      split at h
      · next hempty =>
          cases h
          cases folder with
          | applications => rfl
          | icons =>
              have hnone : icons.lookup name = none := by
                rw [AList.lookup_eq_none, AList.mem_keys, hempty]
                exact List.not_mem_nil
              exact hnone.symm
      · cases h
  · cases h

theorem remove_meets
    (halways : ∀ s, Sweeping (Outdated e spaceName false) root s → always s)
    (hraised : ∀ error s, Sweeping (Outdated e spaceName false) root s → raised error s) :
    Meets always (· = root) (e.remove spaceName)
      (fun _ s => Sweeping (Outdated e spaceName false) root s ∧
        ∀ folder, Swept e spaceName (Outdated e spaceName false) folder root s) raised := by
  refine Meets.bind (cleanupVersions_meets halways hraised) fun _ => Meets.each fun s hs => ?_
  have hrmdir : ∀ t, Exporter.rmdir s = some t →
      Sweeping (Outdated e spaceName false) s t := fun t ht folder name =>
    .inl (rmdir_find ht folder name)
  refine Meets.looked ?_
  split
  · refine Meets.ignoring (Meets.perform (fun t t' ht hrm => ?_) fun t ht => ht ▸ hs)
    subst ht
    have hnext := hrmdir t' hrm
    have hpost : Sweeping (Outdated e spaceName false) root t' ∧
        ∀ folder, Swept e spaceName (Outdated e spaceName false) folder root t' :=
      ⟨hs.1.trans hnext, fun folder => (hs.2 folder).after hnext⟩
    exact ⟨halways t' hpost.1, hpost, hpost⟩
  · exact Meets.pure fun t ht => ht ▸ hs

end Spaces.Shortcuts
