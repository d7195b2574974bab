import Spaces.Shortcuts.Exporting

/-!
# A file is there whole or not at all

What each system call makes of the directory, by what is found there, and from this what
`_atomic_write` comes to. At every point the name that is written to stands for what it
stood for before, or for the whole file, and no other name is touched but a hidden one.
When nothing is raised the hidden one is gone.
-/

namespace Spaces.Shortcuts

open Spaces.Library Spaces.Library.Text Spaces.Library.Routine

variable {folder : Folder} {name target : FsName} {root root' : Root}

/-- Nothing is changed but at one place. -/
def Elsewhere (folder : Folder) (name : FsName) (root root' : Root) : Prop :=
  ∀ other otherName, ¬(other = folder ∧ otherName = name) →
    root'.find other otherName = root.find other otherName

theorem Elsewhere.trans {middle : Root} (h : Elsewhere folder name root middle)
    (h' : Elsewhere folder name middle root') : Elsewhere folder name root root' :=
  fun other otherName hne => (h' other otherName hne).trans (h other otherName hne)

/-! ## System calls -/

theorem listing_set {applications : Applications} {listing : Listing}
    (h : folder.listing applications ≠ none) :
    folder.listing (folder.set listing applications) = some listing := by
  cases folder with
  | applications => rfl
  | icons =>
      unfold Folder.listing Folder.set at *
      dsimp only at h ⊢
      split at h
      · rfl
      · exact absurd rfl h

theorem listing_set_ne {applications : Applications} {listing : Listing} {other : Folder}
    (h : other ≠ folder) :
    other.listing (folder.set listing applications) = other.listing applications := by
  cases folder with
  | applications =>
      cases other with
      | applications => exact absurd rfl h
      | icons => rfl
  | icons =>
      cases other with
      | applications =>
          unfold Folder.set
          dsimp only
          split <;> rfl
      | icons => exact absurd rfl h

/-- A call that succeeds has changed the one directory. -/
theorem change_some {f : Listing → Option Listing} (h : root.change folder f = some root') :
    ∃ listing listing', root.listing folder = some listing ∧ f listing = some listing' ∧
      root'.listing folder = some listing' ∧
      ∀ other ≠ folder, root'.listing other = root.listing other := by
  obtain ⟨applications, rfl, hchange⟩ := Option.bind_eq_some_iff.mp h
  obtain ⟨listing, hlisting, hmap⟩ := Option.bind_eq_some_iff.mp hchange
  obtain ⟨listing', hf, rfl⟩ := Option.map_eq_some_iff.mp hmap
  refine ⟨listing, listing', hlisting, hf, listing_set ?_, fun other hne => listing_set_ne hne⟩
  rw [hlisting]
  exact Option.some_ne_none _

theorem change_isSome {f : Listing → Option Listing} {listing listing' : Listing}
    (h : root.listing folder = some listing) (hf : f listing = some listing') :
    ∃ root', root.change folder f = some root' := by
  obtain ⟨applications, rfl, hlisting⟩ := Option.bind_eq_some_iff.mp h
  refine ⟨some (folder.set listing' applications), ?_⟩
  show (folder.listing applications).bind _ = _
  rw [hlisting, Option.bind_some, hf]
  rfl

theorem find_of_listing {listing : Listing} (h : root.listing folder = some listing)
    (name : FsName) : root.find folder name = listing.lookup name := by
  rw [Root.find, h, Option.bind_some]

/-- What a call does to the entries it does to what is found. -/
theorem change_find {f : Listing → Option Listing} (h : root.change folder f = some root') :
    ∃ listing listing', f listing = some listing' ∧
      (∀ name, root.find folder name = listing.lookup name) ∧
      (∀ name, root'.find folder name = listing'.lookup name) ∧
      ∀ other ≠ folder, ∀ name, root'.find other name = root.find other name := by
  obtain ⟨listing, listing', hlisting, hf, hlisting', hother⟩ := change_some h
  refine ⟨listing, listing', hf, find_of_listing hlisting, find_of_listing hlisting',
    fun other hne name => ?_⟩
  rw [Root.find, Root.find, hother other hne]

theorem find_eq_none : root.find folder name = none ↔ name ∉ root.names folder := by
  unfold Root.find Root.names
  cases root.listing folder with
  | none => simp
  | some listing =>
      rw [Option.bind_some, AList.lookup_eq_none, AList.mem_keys, Option.map_some, Option.getD_some]

theorem elsewhere_of {listing listing' : Listing}
    (hfind : ∀ name, root.find folder name = listing.lookup name)
    (hfind' : ∀ name, root'.find folder name = listing'.lookup name)
    (hother : ∀ other ≠ folder, ∀ name, root'.find other name = root.find other name)
    (h : ∀ other ≠ name, listing'.lookup other = listing.lookup other) :
    Elsewhere folder name root root' := by
  intro other otherName hne
  by_cases hfolder : other = folder
  · subst hfolder
    rw [hfind, hfind', h otherName fun heq => hne ⟨rfl, heq⟩]
  · exact hother other hfolder otherName

theorem unlink_find (h : root.change folder (unlink name) = some root') :
    root'.find folder name = none ∧ Elsewhere folder name root root' := by
  obtain ⟨listing, listing', hf, hfind, hfind', hother⟩ := change_find h
  cases hf
  refine ⟨(hfind' name).trans (AList.lookup_erase _ _), elsewhere_of hfind hfind' hother ?_⟩
  exact fun other hne => AList.lookup_erase_ne hne

theorem insert_find {entry : Entry}
    (h : root.change folder (fun listing => some (listing.insert name entry)) = some root') :
    root'.find folder name = some entry ∧ Elsewhere folder name root root' := by
  obtain ⟨listing, listing', hf, hfind, hfind', hother⟩ := change_find h
  cases hf
  refine ⟨(hfind' name).trans (AList.lookup_insert _), elsewhere_of hfind hfind' hother ?_⟩
  exact fun other hne => AList.lookup_insert_ne hne

theorem chmod_find {mode : Nat} (h : root.change folder (chmod name mode) = some root') :
    ∃ content old, root.find folder name = some (.file content old) ∧
      root'.find folder name = some (.file content mode) ∧ Elsewhere folder name root root' := by
  obtain ⟨listing, listing', hf, hfind, hfind', hother⟩ := change_find h
  unfold chmod at hf
  split at hf
  · next content old hfile =>
      cases hf
      refine ⟨content, old, (hfind name).trans hfile, (hfind' name).trans (AList.lookup_insert _),
        elsewhere_of hfind hfind' hother fun other hne => AList.lookup_insert_ne hne⟩
  · cases hf

theorem append_find {byte : UInt8} (h : root.change folder (append name byte) = some root') :
    ∃ content mode, root.find folder name = some (.file content mode) ∧
      root'.find folder name = some (.file (content ++ [byte]) mode) ∧
      Elsewhere folder name root root' := by
  obtain ⟨listing, listing', hf, hfind, hfind', hother⟩ := change_find h
  unfold append at hf
  split at hf
  · next content mode hfile =>
      cases hf
      refine ⟨content, mode, (hfind name).trans hfile, (hfind' name).trans (AList.lookup_insert _),
        elsewhere_of hfind hfind' hother fun other hne => AList.lookup_insert_ne hne⟩
  · cases hf

theorem replace_find (hne : name ≠ target)
    (h : root.change folder (replace name target) = some root') :
    ∃ entry, root.find folder name = some entry ∧ root'.find folder target = some entry ∧
      root'.find folder name = none ∧
      ∀ other otherName, ¬(other = folder ∧ (otherName = name ∨ otherName = target)) →
        root'.find other otherName = root.find other otherName := by
  obtain ⟨listing, listing', hf, hfind, hfind', hother⟩ := change_find h
  unfold replace at hf
  split at hf
  · cases hf
  · cases hf
  · next _ _ entry hsource _ =>
      cases hf
      refine ⟨entry, (hfind name).trans hsource, (hfind' target).trans (AList.lookup_insert _),
        (hfind' name).trans ?_, fun other otherName hout => ?_⟩
      · rw [AList.lookup_insert_ne hne, AList.lookup_erase]
      · by_cases hfolder : other = folder
        · subst hfolder
          rw [hfind, hfind', AList.lookup_insert_ne fun heq => hout ⟨rfl, .inr heq⟩,
            AList.lookup_erase_ne fun heq => hout ⟨rfl, .inl heq⟩]
        · exact hother other hfolder otherName

/-! ## One file -/

/-- What `_atomic_write` makes. -/
def wholeFile (content : List UInt8) : Entry := .file content 0o644

/-- But for some names, all is as it was or the one file has been written. -/
def Near (but : Folder → FsName → Prop) (folder : Folder) (name : FsName) (content : List UInt8)
    (root root' : Root) : Prop :=
  ∀ other otherName, ¬but other otherName →
    root'.find other otherName = root.find other otherName ∨
      (other = folder ∧ otherName = name ∧ root'.find other otherName = some (wholeFile content))

def Hidden (name : FsName) : Prop := fsText hiddenPrefix <+: name

abbrev nowhere : Folder → FsName → Prop := fun _ _ => False

abbrev hidden : Folder → FsName → Prop := fun _ name => Hidden name

abbrev exactly (folder : Folder) (name : FsName) : Folder → FsName → Prop :=
  fun other otherName => other = folder ∧ otherName = name

variable {content : List UInt8} {but : Folder → FsName → Prop} {temporary : FsName}

namespace Near

theorem refl (root : Root) : Near but folder name content root root := fun _ _ _ => .inl rfl

theorem weaken {but' : Folder → FsName → Prop} (h : Near but folder name content root root')
    (himp : ∀ other otherName, but other otherName → but' other otherName) :
    Near but' folder name content root root' :=
  fun other otherName hne => h other otherName fun hbut => hne (himp other otherName hbut)

theorem elsewhere {middle : Root} (h : Near but folder name content root middle)
    (helsewhere : Elsewhere folder temporary middle root') (hbut : but folder temporary) :
    Near but folder name content root root' := by
  intro other otherName hne
  rw [helsewhere other otherName fun heq => hne (heq.1 ▸ heq.2 ▸ hbut)]
  exact h other otherName hne

/-- The file itself is written, or may have been. -/
theorem written {middle : Root} (h : Near but folder name content root middle)
    (helsewhere : Elsewhere folder name middle root')
    (hwhole : root'.find folder name = some (wholeFile content)) :
    Near but folder name content root root' := by
  intro other otherName hne
  by_cases hplace : other = folder ∧ otherName = name
  · obtain ⟨rfl, rfl⟩ := hplace
    exact .inr ⟨rfl, rfl, hwhole⟩
  · rw [helsewhere other otherName hplace]
    exact h other otherName hne

/-- A name that stood for nothing does so again. -/
theorem cleared (h : Near (exactly folder temporary) folder name content root root')
    (hbefore : root.find folder temporary = none) (hafter : root'.find folder temporary = none) :
    Near nowhere folder name content root root' := by
  intro other otherName _
  by_cases hplace : other = folder ∧ otherName = temporary
  · obtain ⟨rfl, rfl⟩ := hplace
    exact .inl (hafter.trans hbefore.symm)
  · exact h other otherName hplace

end Near

variable {always : Root → Prop} {raised : PyError → Root → Prop}

theorem reads_meets {pre : Root → Prop} (halways : ∀ s, pre s → always s)
    (hraised : ∀ s, pre s → raised .osError s) :
    Meets always pre reads (fun _ => pre) raised := by
  refine Meets.performClean (fun s s' hpre hsome => ?_) hraised
  cases hsome
  exact ⟨halways s hpre, hpre⟩

theorem isWritten_meets (halways : ∀ s, Near hidden folder name content root s → always s) :
    Meets always (· = root) (isWritten folder name content)
      (fun written s => Near nowhere folder name content root s ∧
        (written = true → s.find folder name = some (wholeFile content))) raised := by
  have hstart : ∀ s, s = root → Near nowhere folder name content root s := by
    rintro s rfl
    exact Near.refl s
  have hpoint : ∀ s, Near nowhere folder name content root s → always s :=
    fun s hs => halways s (hs.weaken fun _ _ h => h.elim)
  refine @Meets.tryCatch _ _ _ _ _ _ _ (fun _ => Near nowhere folder name content root) _ _ ?_
    fun _ => Meets.pure fun s hs => ⟨hs, fun h => by cases h⟩
  refine Meets.bind (reads_meets (fun s hs => hpoint s (hstart s hs)) hstart) fun _ => ?_
  refine Meets.looked ?_
  split
  · next written mode hfind =>
      split
      · next hsame =>
          subst hsame
          refine Meets.bind (Q := fun _ s => Near nowhere folder name written root s ∧
            s.find folder name = some (wholeFile written)) ?_ fun _ => Meets.pure fun s hs =>
              ⟨hs.1, fun _ => hs.2⟩
          refine Meets.whenever (fun _ => ?_) fun hmode s hs => ?_
          · refine Meets.perform (fun s s' hs hchange => ?_) hstart
            subst hs
            obtain ⟨content, old, hold, hnew, helsewhere⟩ := chmod_find hchange
            cases hfind.symm.trans hold
            have hnear : Near nowhere folder name written s s' :=
              (Near.refl s).written helsewhere hnew
            exact ⟨hpoint s' hnear, ⟨hnear, hnew⟩, hnear⟩
          · have hmode : mode = 0o644 := by simpa using hmode
            subst hs
            subst hmode
            exact ⟨Near.refl s, hfind⟩
      · exact Meets.pure fun s hs => ⟨hstart s hs, fun h => by cases h⟩
  · exact Meets.pure fun s hs => ⟨hstart s hs, fun h => by cases h⟩

/-- Under the hidden name is what has been written so far. -/
structure Filling (folder : Folder) (name temporary : FsName) (content written : List UInt8)
    (mode : Nat) (root root' : Root) : Prop where
  here : root'.find folder temporary = some (.file written mode)
  near : Near (exactly folder temporary) folder name content root root'

theorem Filling.next {middle : Root} {written written' : List UInt8} {mode mode' : Nat}
    (h : Filling folder name temporary content written mode root middle)
    (hhere : root'.find folder temporary = some (.file written' mode'))
    (helsewhere : Elsewhere folder temporary middle root') :
    Filling folder name temporary content written' mode' root root' :=
  ⟨hhere, h.near.elsewhere helsewhere ⟨rfl, rfl⟩⟩

theorem fill_meets {mode : Nat}
    (halways : ∀ s, Near (exactly folder temporary) folder name content root s → always s)
    (hraised : ∀ s, Near (exactly folder temporary) folder name content root s →
      raised .osError s) :
    Meets always (Filling folder name temporary content [] mode root)
      (fill folder temporary content)
      (fun _ => Filling folder name temporary content content mode root) raised := by
  refine (@Meets.forEach _ _ _ _ _ _ (fun rest s => ∃ written,
    Filling folder name temporary content written mode root s ∧ written ++ rest = content) _
    fun byte rest => ?_).weaken (fun s hs => ⟨[], hs, rfl⟩) ?_ fun _ _ h => h
  · refine Meets.perform ?_ fun s ⟨_, hs, _⟩ => hraised s hs.near
    rintro s s' ⟨written, hs, hrest⟩ hchange
    obtain ⟨written', mode', hold, hnew, helsewhere⟩ := append_find hchange
    cases hs.here.symm.trans hold
    have hnext := hs.next hnew helsewhere
    exact ⟨halways s' hnext.near, ⟨_, hnext, by rw [List.append_assoc]; exact hrest⟩,
      hraised s' hnext.near⟩
  · rintro _ s ⟨written, hs, hrest⟩
    rw [List.append_nil] at hrest
    exact hrest ▸ hs

/-- Whatever happens, the name that is written to stands for what it stood for or for the
whole file, and nothing else is changed but hidden names. If nothing is raised, the file is
written and nothing else is changed. -/
theorem atomicWrite_meets (e : Exporter) (hname : ¬Hidden name)
    (halways : ∀ s, Near hidden folder name content root s → always s)
    (hraised : ∀ s, Near hidden folder name content root s → raised .osError s) :
    Meets always (· = root) (e.atomicWrite folder name content)
      (fun _ s => Near nowhere folder name content root s ∧
        s.find folder name = some (wholeFile content)) raised := by
  refine Meets.bind (isWritten_meets halways) fun written => Meets.each fun s₁ hs₁ => ?_
  obtain ⟨hnear₁, hwritten⟩ := hs₁
  split
  · next htrue => exact Meets.pure fun s hs => hs ▸ ⟨hnear₁, hwritten htrue⟩
  · refine Meets.looked ?_
    dsimp only
    have hhidden := e.temporary_hidden (s₁.names folder)
    have hnew := e.temporary_new (s₁.names folder)
    generalize e.temporary (s₁.names folder) = temporary at hhidden hnew
    have hne : temporary ≠ name := fun heq => hname (heq ▸ hhidden)
    have hnone₁ : s₁.find folder temporary = none := find_eq_none.mpr hnew
    have hnone : root.find folder temporary = none := by
      rcases hnear₁ folder temporary id with hsame | ⟨-, heq, -⟩
      · exact hsame.symm.trans hnone₁
      · exact absurd heq hne
    have hloose : ∀ s, Near (exactly folder temporary) folder name content root s →
        Near hidden folder name content root s :=
      fun s hs => hs.weaken fun _ _ h => h.2 ▸ hhidden
    have hnear₁' : Near (exactly folder temporary) folder name content root s₁ :=
      hnear₁.weaken fun _ _ h => h.elim
    -- the hidden name is taken away, whatever stands for the file by now
    have hunlink : ∀ s s', Near (exactly folder temporary) folder name content root s →
        s.change folder (unlink temporary) = some s' →
        Near nowhere folder name content root s' ∧
          s'.find folder name = s.find folder name := by
      intro s s' hs hchange
      obtain ⟨hgone, helsewhere⟩ := unlink_find hchange
      exact ⟨(hs.elsewhere helsewhere ⟨rfl, rfl⟩).cleared hnone hgone,
        helsewhere folder name fun heq => hne heq.2.symm⟩
    refine Meets.bind (Q := fun _ => Filling folder name temporary content [] 0o600 root) ?_
      fun _ => ?_
    · refine Meets.performClean ?_ fun s hs => hs ▸ hraised s₁ (hloose s₁ hnear₁')
      rintro s s' rfl hchange
      obtain ⟨hhere, helsewhere⟩ := insert_find hchange
      have hnext := hnear₁'.elsewhere helsewhere ⟨rfl, rfl⟩
      exact ⟨halways s' (hloose s' hnext), hhere, hnext⟩
    refine Meets.bind (Q := fun _ s => Near (exactly folder temporary) folder name content root s ∧
      s.find folder name = some (wholeFile content)) ?_ fun _ => ?_
    · refine @Meets.tryCatch _ _ _ _ _ _ _ (fun error s => error = .osError ∧
        Near (exactly folder temporary) folder name content root s) _ _ ?_ fun error => ?_
      · refine Meets.bind (fill_meets (fun s hs => halways s (hloose s hs)) fun s hs => ⟨rfl, hs⟩)
          fun _ => ?_
        refine Meets.bind (Q := fun _ => Filling folder name temporary content content 0o644 root)
          ?_ fun _ => ?_
        · refine Meets.perform (fun s s' hs hchange => ?_) fun s hs => ⟨rfl, hs.near⟩
          obtain ⟨content', mode', hold, hhere, helsewhere⟩ := chmod_find hchange
          cases hs.here.symm.trans hold
          have hnext := hs.next hhere helsewhere
          exact ⟨halways s' (hloose s' hnext.near), hnext, rfl, hnext.near⟩
        · refine Meets.bind (reads_meets (fun s hs => halways s (hloose s hs.near))
            fun s hs => ⟨rfl, hs.near⟩) fun _ => ?_
          refine Meets.perform (fun s s' hs hchange => ?_) fun s hs => ⟨rfl, hs.near⟩
          obtain ⟨entry, hold, hhere, -, helsewhere⟩ := replace_find hne hchange
          cases hs.here.symm.trans hold
          have hnext : Near (exactly folder temporary) folder name content root s' := by
            intro other otherName hother
            by_cases hplace : other = folder ∧ otherName = name
            · obtain ⟨rfl, rfl⟩ := hplace
              exact .inr ⟨rfl, rfl, hhere⟩
            · rw [helsewhere other otherName fun h => h.2.elim (fun heq => hother ⟨h.1, heq⟩)
                fun heq => hplace ⟨h.1, heq⟩]
              exact hs.near other otherName hother
          exact ⟨halways s' (hloose s' hnext), ⟨hnext, hhere⟩, rfl, hnext⟩
      · refine Meets.bind (Q := fun _ s => error = .osError ∧
          Near nowhere folder name content root s) ?_ fun _ => Meets.throw ?_
        · refine Meets.perform (fun s s' hs hchange => ?_) fun s hs => hraised s (hloose s hs.2)
          have hnext := (hunlink s s' hs.2 hchange).1
          have hpoint : Near hidden folder name content root s' :=
            hnext.weaken fun _ _ h => h.elim
          exact ⟨halways s' hpoint, ⟨hs.1, hnext⟩, hraised s' hpoint⟩
        · rintro s ⟨rfl, hs⟩
          exact hraised s (hs.weaken fun _ _ h => h.elim)
    · refine Meets.perform (fun s s' hs hchange => ?_) fun s hs => hraised s (hloose s hs.1)
      obtain ⟨hnext, hsame⟩ := hunlink s s' hs.1 hchange
      have hpoint : Near hidden folder name content root s' :=
        hnext.weaken fun _ _ h => h.elim
      exact ⟨halways s' hpoint, ⟨hnext, hsame.trans hs.2⟩, hraised s' hpoint⟩

end Spaces.Shortcuts
