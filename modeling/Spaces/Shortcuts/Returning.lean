import Spaces.Shortcuts.Exports

/-!
# Where nothing fails, `reconcile` returns

There are two more things in the directory that stop it: a name whose version `int` does
not read, though all its characters are digits, and a directory where a file is to be
written. Links at the place of the icons stop it as well.
-/

namespace Spaces.Shortcuts

open Spaces.Library Spaces.Library.Text Spaces.Library.Routine

variable {e : Exporter} {spaceName : SpaceName} {folder : Folder} {name temporary : FsName}
  {content : List UInt8} {root root' : Root} {shortcuts : List GeneratedShortcut}

/-- Nothing that is there stops the exporter. -/
structure Fit (e : Exporter) (spaceName : SpaceName) (shortcuts : List GeneratedShortcut)
    (root : Root) : Prop where
  readable : ∀ folder name, root.find folder name ≠ none → Readable e spaceName folder name
  free : ∀ shortcut ∈ shortcuts, ∀ (folder : Folder) name content,
    folder.file shortcut = some (name, content) → root.find folder name ≠ some .directory

/-- There is no link where the icons are. -/
def Sound (root : Root) : Prop :=
  root.icons = .absent ∨ ∃ mode listing, root.icons = .directory mode listing

/-- Both directories are there. -/
def Listed (root : Root) : Prop := ∀ folder, ∃ listing, root.listing folder = some listing

/-- Entries are gone, or have become files whose names can be read. -/
theorem Fit.next (h : Fit e spaceName shortcuts root)
    (hfind : ∀ folder name, root'.find folder name = root.find folder name ∨
      root'.find folder name = none ∨ (Readable e spaceName folder name ∧
        root'.find folder name ≠ some .directory)) : Fit e spaceName shortcuts root' := by
  constructor
  · intro folder name hne
    rcases hfind folder name with hsame | hgone | ⟨hread, -⟩
    · exact h.readable folder name (hsame ▸ hne)
    · exact absurd hgone hne
    · exact hread
  · intro shortcut hmem folder name content hfile hdirectory
    rcases hfind folder name with hsame | hgone | ⟨-, hfree⟩
    · exact h.free shortcut hmem folder name content hfile (hsame ▸ hdirectory)
    · cases hgone.symm.trans hdirectory
    · exact hfree hdirectory

/-- One entry has become a file. -/
theorem Fit.filed (h : Fit e spaceName shortcuts root) {written : List UInt8} {mode : Nat}
    (hread : Readable e spaceName folder name)
    (hhere : root'.find folder name = some (.file written mode))
    (helsewhere : Elsewhere folder name root root') : Fit e spaceName shortcuts root' := by
  refine h.next fun other otherName => ?_
  by_cases hplace : other = folder ∧ otherName = name
  · obtain ⟨rfl, rfl⟩ := hplace
    exact .inr (.inr ⟨hread, by rw [hhere]; simp⟩)
  · exact .inl (helsewhere other otherName hplace)

theorem Fit.unlinked (h : Fit e spaceName shortcuts root)
    (hchange : root.change folder (unlink name) = some root') :
    Fit e spaceName shortcuts root' := by
  obtain ⟨hgone, helsewhere⟩ := unlink_find hchange
  refine h.next fun other otherName => ?_
  by_cases hplace : other = folder ∧ otherName = name
  · obtain ⟨rfl, rfl⟩ := hplace
    exact .inr (.inl hgone)
  · exact .inl (helsewhere other otherName hplace)

theorem Listed.changed {f : Listing → Option Listing} (h : Listed root)
    (hchange : root.change folder f = some root') : Listed root' := by
  obtain ⟨listing, listing', -, -, hlisting', hother⟩ := change_some hchange
  intro other
  by_cases hsame : other = folder
  · exact ⟨listing', hsame ▸ hlisting'⟩
  · rw [hother other hsame]
    exact h other

theorem Sound.changed {f : Listing → Option Listing} (h : Sound root)
    (hchange : root.change folder f = some root') : Sound root' := by
  obtain ⟨applications, rfl, hbound⟩ := Option.bind_eq_some_iff.mp hchange
  obtain ⟨listing, hlisting, hmap⟩ := Option.bind_eq_some_iff.mp hbound
  obtain ⟨listing', -, rfl⟩ := Option.map_eq_some_iff.mp hmap
  cases folder with
  | applications => exact h
  | icons =>
      refine .inr ?_
      unfold Folder.set
      unfold Folder.listing at hlisting
      dsimp only at hlisting ⊢
      split at hlisting
      · next mode _ hicons => exact ⟨mode, listing', rfl⟩
      · cases hlisting

theorem hidden_readable (h : Hidden name) : Readable e spaceName folder name := by
  by_contra hread
  have hclaimed : Claimed e.rt.unicode spaceName folder name := fun hnone => hread ⟨none, hnone⟩
  exact seen_of_claimed hclaimed h

/-- A call on a directory that is there can be made. -/
theorem Listed.change (h : Listed root) (folder : Folder) (f : Listing → Option Listing)
    (hf : ∀ listing, root.listing folder = some listing → ∃ listing', f listing = some listing') :
    ∃ root', root.change folder f = some root' := by
  obtain ⟨listing, hlisting⟩ := h folder
  obtain ⟨listing', hf⟩ := hf listing hlisting
  exact change_isSome hlisting hf

/-! ## The routines -/

theorem reads_completes {pre : Root → Prop} : Completes pre reads fun _ => pre :=
  Completes.performClean fun s hs => ⟨s, rfl, hs⟩

theorem eachVersion_completes {pre : Root → Prop} {f : FsName → Option Nat → Export Unit}
    (hread : ∀ s, pre s → ∀ name, s.find folder name ≠ none → Readable e spaceName folder name)
    (hf : ∀ name version, Completes pre (f name version) fun _ => pre) :
    Completes pre (e.eachVersion spaceName folder f) fun _ => pre := by
  refine Completes.bind (Q := fun names s => pre s ∧
    ∀ name ∈ names, Readable e spaceName folder name) ?_ fun names => ?_
  · refine Completes.bind reads_completes fun _ => Completes.each fun s hs => ?_
    refine Completes.looked (Completes.pure ?_)
    rintro t rfl
    refine ⟨hs, fun name hmem => hread t hs name fun hnone => ?_⟩
    exact find_eq_none.mp hnone ((e.listdir_perm _).mem_iff.mp hmem)
  · refine (@Completes.forEach _ _ _ _ (fun rest s => pre s ∧
      ∀ name ∈ rest, Readable e spaceName folder name) _ fun name rest => ?_).weaken
        (fun _ h => h) fun _ _ h => h.1
    refine Completes.each fun s ⟨hs, hall⟩ => ?_
    obtain ⟨version, hversion⟩ := hall name List.mem_cons_self
    rw [hversion]
    exact ((hf name version).start hs).weaken (fun _ h => h) fun _ _ h =>
      ⟨h, fun other hmem => hall other (List.mem_cons_of_mem name hmem)⟩

theorem removePath_completes {pre : Root → Prop}
    (hpre : ∀ s s', pre s → s.change folder (unlink name) = some s' → pre s') :
    Completes pre (removePath folder name) fun _ => pre := by
  refine Completes.each fun s hs => Completes.looked ?_
  split
  · exact Completes.pure fun t ht => ht ▸ hs
  · next hfind =>
      refine Completes.perform ?_
      rintro t rfl
      rw [Option.isNone_iff_eq_none] at hfind
      obtain ⟨entry, hentry⟩ := Option.ne_none_iff_exists'.mp hfind
      obtain ⟨listing, hlisting, -⟩ := Option.bind_eq_some_iff.mp hentry
      obtain ⟨t', hchange⟩ := change_isSome (f := unlink name) hlisting rfl
      exact ⟨t', hchange, hpre t t' hs hchange⟩

/-- Before the directories are there. -/
def Before (e : Exporter) (spaceName : SpaceName) (shortcuts : List GeneratedShortcut)
    (root : Root) : Prop := Fit e spaceName shortcuts root ∧ Sound root

/-- While the files are written. -/
def While (e : Exporter) (spaceName : SpaceName) (shortcuts : List GeneratedShortcut)
    (root : Root) : Prop := Fit e spaceName shortcuts root ∧ Listed root

theorem cleanupFolder_completes {keepCurrent : Bool} :
    Completes (Before e spaceName shortcuts) (e.cleanupFolder spaceName keepCurrent folder)
      fun _ => Before e spaceName shortcuts := by
  refine eachVersion_completes (fun s hs => hs.1.readable folder) fun name version => ?_
  have hremove : Completes (Before e spaceName shortcuts) (removePath folder name)
      fun _ => Before e spaceName shortcuts :=
    removePath_completes fun s s' hs hchange => ⟨hs.1.unlinked hchange, hs.2.changed hchange⟩
  cases version with
  | none => exact Completes.pure fun _ h => h
  | some version =>
      dsimp only
      split
      · exact Completes.pure fun _ h => h
      · exact hremove

theorem cleanupVersions_completes {keepCurrent : Bool} :
    Completes (Before e spaceName shortcuts) (e.cleanupVersions spaceName keepCurrent)
      fun _ => Before e spaceName shortcuts := by
  refine Completes.each fun s hs => Completes.looked ?_
  refine Completes.bind (Q := fun _ => Before e spaceName shortcuts) ?_ fun _ => ?_
  · exact Completes.whenever (fun _ => cleanupFolder_completes.start hs) fun _ t ht => ht ▸ hs
  · refine Completes.each fun t ht => Completes.looked ?_
    rcases ht.2 with hicons | ⟨mode, listing, hicons⟩
    · rw [hicons]
      exact Completes.pure fun u hu => hu ▸ ht
    · rw [hicons]
      exact cleanupFolder_completes.start ht

theorem Listed.of_icons {applications : Applications} {mode : Nat} {listing : Listing}
    (h : applications.icons = .directory mode listing) : Listed (some applications) := by
  intro folder
  cases folder with
  | applications => exact ⟨applications.files, rfl⟩
  | icons =>
      refine ⟨listing, ?_⟩
      show Folder.icons.listing applications = some listing
      rw [Folder.listing, h]

theorem makeDirectory_completes :
    Completes (Before e spaceName shortcuts) e.makeDirectory fun _ s =>
      Fit e spaceName shortcuts s ∧ ∃ mode listing, s.icons = .directory mode listing := by
  refine Completes.each fun s ⟨hfit, hsound⟩ => Completes.looked ?_
  refine Completes.bind (Q := fun _ t => Before e spaceName shortcuts t ∧ t ≠ none) ?_ fun _ => ?_
  · refine Completes.whenever (fun hnone => ?_) fun hsome t ht => ?_
    · rw [Option.isNone_iff_eq_none] at hnone
      subst hnone
      refine Completes.perform fun t ht => ⟨_, rfl, ⟨hfit.next fun folder name => .inl ?_,
        .inl rfl⟩,
        by simp⟩
      cases folder <;> rfl
    · subst ht
      refine ⟨⟨hfit, hsound⟩, ?_⟩
      rintro rfl
      cases hsome
  · refine Completes.each fun t ⟨ht, hne⟩ => Completes.looked ?_
    obtain ⟨applications, rfl⟩ := Option.ne_none_iff_exists'.mp hne
    rcases ht.2 with hicons | ⟨mode, listing, hicons⟩
    · rw [hicons]
      refine Completes.perform ?_
      rintro u rfl
      obtain ⟨files, icons⟩ := applications
      cases hicons
      refine ⟨_, rfl, ht.1.next fun folder name => .inl ?_, _, _, rfl⟩
      cases folder <;> rfl
    · rw [hicons]
      exact Completes.pure fun u hu => hu ▸ ⟨ht.1, mode, listing, hicons⟩

theorem ensureDirectory_completes :
    Completes (Before e spaceName shortcuts) e.ensureDirectory
      fun _ => While e spaceName shortcuts := by
  refine Completes.bind makeDirectory_completes fun _ => Completes.each fun s hs => ?_
  obtain ⟨hfit, mode, listing, hicons⟩ := hs
  refine Completes.looked ?_
  rw [hicons]
  cases s with
  | none => cases hicons
  | some applications =>
      refine Completes.whenever (fun _ => Completes.perform ?_) fun _ t ht =>
        ht ▸ ⟨hfit, Listed.of_icons hicons⟩
      rintro t rfl
      obtain ⟨files, icons⟩ := applications
      cases hicons
      refine ⟨_, rfl, hfit.next fun folder name => .inl ?_, Listed.of_icons rfl⟩
      cases folder <;> rfl

/-! ## Writing -/

theorem While.filed {written : List UInt8} {mode : Nat} {f : Listing → Option Listing}
    (h : While e spaceName shortcuts root) (hread : Readable e spaceName folder name)
    (hchange : root.change folder f = some root')
    (hhere : root'.find folder name = some (.file written mode))
    (helsewhere : Elsewhere folder name root root') : While e spaceName shortcuts root' :=
  ⟨h.1.filed hread hhere helsewhere, h.2.changed hchange⟩

theorem chmod_completes (e : Exporter) (spaceName : SpaceName) (shortcuts : List GeneratedShortcut)
    {pre : Root → Prop} {post : Unit → Root → Prop} {mode : Nat}
    (h : ∀ s, pre s → While e spaceName shortcuts s ∧ Readable e spaceName folder name ∧
      ∃ written old, s.find folder name = some (.file written old) ∧
        ∀ s', While e spaceName shortcuts s' → s'.find folder name = some (.file written mode) →
          post () s') :
    Completes pre (changes folder (chmod name mode)) post := by
  refine Completes.perform fun s hs => ?_
  obtain ⟨hwhile, hread, written, old, hfind, hpost⟩ := h s hs
  obtain ⟨s', hchange⟩ := hwhile.2.change folder (chmod name mode)
    fun listing hlisting => by
      rw [find_of_listing hlisting] at hfind
      exact ⟨_, by rw [chmod, hfind]⟩
  obtain ⟨written', old', hold, hnew, helsewhere⟩ := chmod_find hchange
  cases hfind.symm.trans hold
  exact ⟨s', hchange, hpost s' (hwhile.filed hread hchange hnew helsewhere) hnew⟩

theorem isWritten_completes (hread : Readable e spaceName folder name) :
    Completes (While e spaceName shortcuts) (isWritten folder name content)
      fun _ => While e spaceName shortcuts := by
  refine Completes.tryCatch (Completes.bind reads_completes fun _ => Completes.each fun s hs => ?_)
  refine Completes.looked ?_
  split
  · next written mode hfind =>
      split
      · refine Completes.bind (Q := fun _ => While e spaceName shortcuts) ?_
          fun _ => Completes.pure fun _ h => h
        refine Completes.whenever (fun _ => chmod_completes e spaceName shortcuts ?_)
          fun _ t ht => ht ▸ hs
        rintro t rfl
        exact ⟨hs, hread, written, mode, hfind, fun _ h _ => h⟩
      · exact Completes.pure fun t ht => ht ▸ hs
  · exact Completes.pure fun t ht => ht ▸ hs

/-- While a hidden file is filled. -/
def Hiding (e : Exporter) (spaceName : SpaceName) (shortcuts : List GeneratedShortcut)
    (folder : Folder) (temporary : FsName) (root : Root) : Prop :=
  While e spaceName shortcuts root ∧
    ∃ written mode, root.find folder temporary = some (.file written mode)

theorem fill_completes (hhidden : Hidden temporary) :
    Completes (Hiding e spaceName shortcuts folder temporary) (fill folder temporary content)
      fun _ => Hiding e spaceName shortcuts folder temporary := by
  refine @Completes.forEach _ _ _ _ (fun _ => Hiding e spaceName shortcuts folder temporary) _
    fun byte rest => Completes.perform ?_
  rintro s ⟨hs, written, mode, hfind⟩
  obtain ⟨s', hchange⟩ := hs.2.change folder (append temporary byte)
    fun listing hlisting => by
      rw [find_of_listing hlisting] at hfind
      exact ⟨_, by rw [append, hfind]⟩
  obtain ⟨written', mode', -, hnew, helsewhere⟩ := append_find hchange
  exact ⟨s', hchange, hs.filed (hidden_readable hhidden) hchange hnew helsewhere, _, _, hnew⟩

theorem atomicWrite_completes {shortcut : GeneratedShortcut} (hmem : shortcut ∈ shortcuts)
    (hfile : folder.file shortcut = some (name, content)) (hread : Readable e spaceName folder name)
    (hseen : ¬Hidden name) :
    Completes (While e spaceName shortcuts) (e.atomicWrite folder name content)
      fun _ => While e spaceName shortcuts := by
  refine Completes.bind (isWritten_completes hread) fun written => ?_
  split
  · exact Completes.pure fun _ h => h
  · refine Completes.each fun s hs => Completes.looked ?_
    dsimp only
    have hhidden := e.temporary_hidden (s.names folder)
    generalize e.temporary (s.names folder) = temporary at hhidden
    have hne : temporary ≠ name := fun heq => hseen (heq ▸ hhidden)
    refine Completes.bind (Q := fun _ => Hiding e spaceName shortcuts folder temporary) ?_
      fun _ => ?_
    · refine Completes.performClean ?_
      rintro t rfl
      obtain ⟨t', hchange⟩ := hs.2.change folder
        (fun listing => some (listing.insert temporary (.file [] 0o600)))
        fun listing _ => ⟨_, rfl⟩
      obtain ⟨hhere, helsewhere⟩ := insert_find hchange
      exact ⟨t', hchange, hs.filed (hidden_readable hhidden) hchange hhere helsewhere, _, _, hhere⟩
    · refine Completes.bind (Q := fun _ => While e spaceName shortcuts) (Completes.tryCatch ?_)
        fun _ => Completes.perform fun t ht => ?_
      · refine Completes.bind (fill_completes hhidden) fun _ => ?_
        refine Completes.bind (Q := fun _ => Hiding e spaceName shortcuts folder temporary)
          (chmod_completes e spaceName shortcuts ?_) fun _ => Completes.bind reads_completes
          fun _ => ?_
        · rintro t ⟨ht, written, mode, hfind⟩
          exact ⟨ht, hidden_readable hhidden, written, mode, hfind, fun _ h hnew => ⟨h, _, _, hnew⟩⟩
        · refine Completes.perform ?_
          rintro t ⟨ht, written, mode, hfind⟩
          have hfree := ht.1.free shortcut hmem folder name content hfile
          obtain ⟨t', hchange⟩ := ht.2.change folder (replace temporary name)
            fun listing hlisting => by
              rw [find_of_listing hlisting] at hfind hfree
              unfold replace
              rw [hfind]
              cases htarget : listing.lookup name with
              | none => exact ⟨_, rfl⟩
              | some entry =>
                  cases entry with
                  | file written mode => exact ⟨_, rfl⟩
                  | directory => exact absurd htarget hfree
                  | other => exact ⟨_, rfl⟩
          obtain ⟨entry, hold, hhere, hgone, helsewhere⟩ := replace_find hne hchange
          cases hfind.symm.trans hold
          refine ⟨t', hchange, ht.1.next fun other otherName => ?_, ht.2.changed hchange⟩
          by_cases hplace : other = folder ∧ (otherName = temporary ∨ otherName = name)
          · obtain ⟨rfl, rfl | rfl⟩ := hplace
            · exact .inr (.inl hgone)
            · exact .inr (.inr ⟨hread, by rw [hhere]; simp⟩)
          · exact .inl (helsewhere other otherName hplace)
      · obtain ⟨t', hchange⟩ := ht.2.change folder (unlink temporary)
          fun listing _ => ⟨_, rfl⟩
        exact ⟨t', hchange, ht.1.unlinked hchange, ht.2.changed hchange⟩

theorem writeFile_completes {shortcut : GeneratedShortcut} (hmem : shortcut ∈ shortcuts)
    (hread : ∀ shortcut ∈ shortcuts, ∀ (folder : Folder) name content,
      folder.file shortcut = some (name, content) → Readable e spaceName folder name ∧
      ¬Hidden name) :
    Completes (While e spaceName shortcuts) (e.writeFile folder shortcut)
      fun _ => While e spaceName shortcuts := by
  unfold Exporter.writeFile
  split
  · next name content hfile =>
      obtain ⟨hname, hseen⟩ := hread shortcut hmem folder name content hfile
      exact atomicWrite_completes hmem hfile hname hseen
  · exact Completes.pure fun _ h => h

theorem removeStale_completes :
    Completes (While e spaceName shortcuts) (e.removeStale spaceName shortcuts folder)
      fun _ => While e spaceName shortcuts := by
  refine eachVersion_completes (fun s hs => hs.1.readable folder) fun name version => ?_
  split
  · exact removePath_completes fun s s' hs hchange =>
      ⟨hs.1.unlinked hchange, hs.2.changed hchange⟩
  · exact Completes.pure fun _ h => h

/-- In a directory that does not stop it `reconcile` returns when no system call fails. -/
theorem reconcile_returns {guest : Guest}
    (hgenerate : generate e.rt spaceName guest = .ok shortcuts)
    (hfit : Fit e spaceName shortcuts root) (hsound : Sound root) :
    (e.take { call := .reconcile spaceName guest } root).1 = .ok () := by
  have hread : ∀ shortcut ∈ shortcuts, ∀ (folder : Folder) name content,
      folder.file shortcut = some (name, content) →
        Readable e spaceName folder name ∧ ¬Hidden name := by
    intro shortcut hmem folder name content hfile
    obtain ⟨body, hbody⟩ := generate_named hgenerate hmem hfile
    exact ⟨⟨_, named_version hbody⟩, seen_of_start ⟨_, hbody.symm⟩⟩
  have hcompletes : Completes (Before e spaceName shortcuts) (e.reconcile spaceName guest)
      fun _ => While e spaceName shortcuts := by
    refine Completes.bind cleanupVersions_completes fun _ => ?_
    refine Completes.bind ensureDirectory_completes fun _ => ?_
    rw [hgenerate]
    refine Completes.bind (Q := fun _ => While e spaceName shortcuts) ?_ fun _ =>
      Completes.bind removeStale_completes fun _ => removeStale_completes
    -- the shortcuts that are still to be written are some of all
    refine (@Completes.forEach _ _ _ _ (fun rest s => While e spaceName shortcuts s ∧
      ∀ shortcut ∈ rest, shortcut ∈ shortcuts) _ fun shortcut rest => ?_).weaken
        (fun _ h => ⟨h, fun _ hmem => hmem⟩) fun _ _ h => h.1
    refine Completes.each fun s ⟨hs, hall⟩ => ?_
    have hmem := hall shortcut List.mem_cons_self
    refine (Completes.bind (writeFile_completes hmem hread) fun _ =>
      writeFile_completes hmem hread).weaken (fun _ h => h ▸ hs) fun _ t ht =>
        ⟨ht, fun other hother => hall other (List.mem_cons_of_mem shortcut hother)⟩
  obtain ⟨_, _, hrun, -, -⟩ := hcompletes { state := root, faults := [] } rfl ⟨hfit, hsound⟩
  exact congrArg Prod.fst hrun

def oldName : FsName := fsText "spaces-box-v0-b.desktop".toList

/-- A directory with a shortcut of an older version. -/
def oldFiles : Listing := AList.singleton oldName (.file [] 0o644)

def oldRoot : Root := some ⟨oldFiles, .absent⟩

theorem find_oldRoot {folder : Folder} {name : FsName} {entry : Entry}
    (h : Root.find oldRoot folder name = some entry) :
    name = oldName ∧ entry = .file [] 0o644 := by
  cases folder with
  | icons => cases h
  | applications =>
      have hmem : (⟨name, entry⟩ : Sigma fun _ : FsName => Entry) ∈ oldFiles.entries :=
        AList.mem_lookup_iff.mp h
      have hpair := List.mem_singleton.mp hmem
      exact ⟨congrArg Sigma.fst hpair, eq_of_heq (Sigma.mk.inj hpair).2⟩

/-- An export where an older shortcut is left. -/
theorem reconcile_returns_old :
    (sampleExporter.take { call := .reconcile sampleSpace (guestOf [plainFile]) } oldRoot).1 =
      .ok () := by
  have hgenerate : generate sampleExporter.rt sampleSpace (guestOf [plainFile]) =
      .ok [boxShortcut] := by decide +kernel
  refine reconcile_returns hgenerate ⟨fun folder name hfind => ?_, ?_⟩ (.inl rfl)
  · obtain ⟨entry, hentry⟩ := Option.ne_none_iff_exists'.mp hfind
    obtain ⟨rfl, -⟩ := find_oldRoot hentry
    cases folder with
    | icons => cases hentry
    | applications => exact ⟨some 0, by decide +kernel⟩
  · intro shortcut _ folder name content _ hdirectory
    cases (find_oldRoot hdirectory).2

end Spaces.Shortcuts
