import Spaces.Library.Runs
import Spaces.Shortcuts.Containment
import Mathlib.Data.List.ReduceOption

/-!
# Every desktop file is exported

`generate` gives each source file a name and renders it. The name is taken from the path
of the file; when an earlier file has it, a digest of the path is added, and the result
is not looked up again. Both the digest of a path that is taken, and a window class that
has to be taken from the name of the file, need that name to have an encoding; where it
has none nothing is exported at all.

The names that have been given, file by file, are all that decides about the next name.
-/

namespace Spaces.Shortcuts

open Spaces.Library Spaces.Library.Text

abbrev SourceFile := Origin × GuestFile

def sourceFiles (guest : Guest) : List SourceFile :=
  ((guest.applications .system).getD []).map (.system, ·)
    ++ ((guest.applications .localOrigin).getD []).map (.localOrigin, ·)

/-! ## What is to hold -/

def alone (guest : Guest) (f : SourceFile) : Guest where
  applications origin := if origin = f.1 then some [f.2] else none
  icon := guest.icon

/-- Without other files, a file is exported. -/
def Yields (rt : Runtime) (spaceName : SpaceName) (guest : Guest) (f : SourceFile) : Prop :=
  ∃ shortcut, generate rt spaceName (alone guest f) = .ok [shortcut]

/-- One of the shortcuts is that of the file. -/
def Exported (rt : Runtime) (spaceName : SpaceName) (guest : Guest) (f : SourceFile) : Prop :=
  ∃ shortcuts sources, generate rt spaceName guest = .ok shortcuts ∧
    desktopSources rt guest = .ok sources ∧
    ∃ source ∈ sources, source.origin = f.1 ∧ source.file = f.2 ∧
      ∃ parsed, parse rt source = some parsed ∧
        ∃ shortcut ∈ shortcuts, exportShortcut rt spaceName guest parsed = .ok (some shortcut)

structure Complete (rt : Runtime) (spaceName : SpaceName) (guest : Guest) : Prop where
  returns : ∃ shortcuts, generate rt spaceName guest = .ok shortcuts
  distinct : ∀ sources, desktopSources rt guest = .ok sources →
    (sources.map DesktopSource.outputName).Nodup
  exported : ∀ f ∈ sourceFiles guest, Yields rt spaceName guest f →
    Exported rt spaceName guest f

/-! ## The condition -/

section

variable (rt : Runtime)

/-- What `_desktop_sources` does not pass over. -/
def isSource (file : GuestFile) : Bool :=
  decide (fsText desktopSuffix <:+ file.relative.name.name) && file.regular
    && !isBlacklisted rt.unicode file.relative

def identity (f : SourceFile) : FsName :=
  fsText f.1.name ++ .char '/' :: f.2.relative.str

def plainName (f : SourceFile) : Text := outputId rt f.2.relative f.1.idPrefix

def digestName (f : SourceFile) : Text :=
  removeSuffix desktopSuffix (plainName rt f) ++ '-' :: (rt.hexdigest (identity f)).take 10
    ++ desktopSuffix

/-- The names that are taken, after one more file. -/
def takeName (names : List Text) (f : SourceFile) : List Text :=
  if isSource rt f.2 then
    (if plainName rt f ∈ names then digestName rt f else plainName rt f) :: names
  else names

/-- A file whose name is taken has an encoding, and the other name is free. -/
def Distinguishable (names : List Text) (f : SourceFile) : Prop :=
  isSource rt f.2 = true → plainName rt f ∈ names →
    (encode (identity f)).isSome = true ∧ digestName rt f ∉ names

/-- The group of an entry that is rendered. -/
def Application (groups : List Section) : Prop :=
  ∃ main, mainSection groups = some main ∧ main.lookup "Type".toList = some "Application".toList ∧
    strip (main.getD "Name".toList) ≠ [] ∧ strip (main.getD "Exec".toList) ≠ []

/-- An application that is shown, and names no window class, has a stem with an
encoding. -/
def Classed (f : SourceFile) : Prop :=
  ∀ parsed, parse rt ⟨f.1, f.2, plainName rt f⟩ = some parsed → Application parsed.groups →
    strip (parsed.main.getD "StartupWMClass".toList) = [] →
      (encode f.2.relative.stem).isSome = true

end

/-! ## Paths and identities -/

theorem relative_str_injective {a b : Relative} (h : a.str = b.str) : a = b := by
  obtain ⟨parents, name⟩ := a
  obtain ⟨parents', name'⟩ := b
  unfold Relative.str at h
  simp only at h
  -- Each name ends at the first slash, so the paths are taken apart from the front.
  induction parents generalizing parents' with
  | nil =>
      cases parents' with
      | nil =>
          cases name
          cases name'
          simp only [List.flatMap_nil, List.nil_append] at h
          subst h
          rfl
      | cons parent' parents' =>
          refine absurd ?_ name.noSlash
          rw [List.flatMap_nil, List.nil_append] at h
          rw [h]
          simp
  | cons parent parents ih =>
      cases parents' with
      | nil =>
          refine absurd ?_ name'.noSlash
          rw [List.flatMap_nil, List.nil_append] at h
          rw [← h]
          simp
      | cons parent' parents' =>
          simp only [List.flatMap_cons, List.append_assoc, List.cons_append, List.nil_append] at h
          have hcut := congrArg (cut (.char '/')) h
          rw [cut_append_cons parent.noSlash, cut_append_cons parent'.noSlash] at hcut
          obtain ⟨hname, hrest⟩ := Prod.mk.inj (Option.some.inj hcut)
          have hparent : parent = parent' := by
            cases parent
            cases parent'
            cases hname
            rfl
          have htail := ih parents' hrest
          cases htail
          rw [hparent]

theorem identity_injective {f g : SourceFile} (h : identity f = identity g) :
    (f.1, f.2.relative) = (g.1, g.2.relative) := by
  unfold identity at h
  have hslash : ∀ origin : Origin, .char '/' ∉ fsText origin.name := by
    intro origin
    cases origin <;> decide
  have hcut := congrArg (cut (.char '/')) h
  rw [cut_append_cons (hslash f.1), cut_append_cons (hslash g.1)] at hcut
  obtain ⟨horigin, hrelative⟩ := Prod.mk.inj (Option.some.inj hcut)
  have heq : f.1 = g.1 := by
    revert horigin
    cases f.1 <;> cases g.1 <;> simp <;> decide
  rw [heq, relative_str_injective hrelative]

/-! ## Naming the sources -/

section

variable {rt : Runtime} {f : SourceFile}
  {used : List (Text × FsName)} {candidates : List DesktopSource}

theorem addSource_of_passed (h : isSource rt f.2 = false) :
    addSource rt f.1 (used, candidates) f.2 = .ok (used, candidates) := by
  unfold addSource
  simp only
  refine if_pos ?_
  simp only [isSource, Bool.and_eq_false_iff, decide_eq_false_iff_not,
    Bool.not_eq_false'] at h
  tauto

/-- A file that is not passed over. -/
theorem addSource_of_source (h : isSource rt f.2 = true) (hnew : identity f ∉ used.map Prod.snd) :
    addSource rt f.1 (used, candidates) f.2 =
      if plainName rt f ∈ used.map Prod.fst then
        if (encode (identity f)).isSome then
          .ok ((digestName rt f, identity f) :: used,
            candidates ++ [⟨f.1, f.2, digestName rt f⟩])
        else .error .unicodeEncodeError
      else .ok ((plainName rt f, identity f) :: used,
        candidates ++ [⟨f.1, f.2, plainName rt f⟩]) := by
  have hpassed : ¬(¬fsText desktopSuffix <:+ f.2.relative.name.name ∨ f.2.regular = false ∨
      isBlacklisted rt.unicode f.2.relative = true) := by
    simp only [isSource, Bool.and_eq_true, decide_eq_true_eq, Bool.not_eq_true'] at h
    simp only [not_or, Bool.not_eq_false, Bool.not_eq_true, not_not]
    exact ⟨h.1.1, h.1.2, h.2⟩
  unfold addSource
  simp only
  rw [if_neg hpassed]
  split
  · next hlookup =>
      rw [if_neg]
      · rfl
      · intro hmem
        obtain ⟨p, hp, hfst⟩ := List.mem_map.mp hmem
        rw [List.lookup_eq_none_iff] at hlookup
        have hne := hlookup p hp
        rw [hfst] at hne
        simp [plainName] at hne
  · next previous hlookup =>
      have hmem : (plainName rt f, previous) ∈ used := by
        obtain ⟨before, after, hused, -⟩ := List.lookup_eq_some_iff.mp hlookup
        rw [hused]
        simp [plainName]
      have hne : previous ≠ identity f := fun heq =>
        hnew (List.mem_map.mpr ⟨_, hmem, heq⟩)
      rw [if_pos (List.mem_map.mpr ⟨_, hmem, rfl⟩)]
      rw [if_neg (show ¬previous = fsText f.1.name ++ .char '/' :: f.2.relative.str from hne)]
      change _ = if (encode (fsText f.1.name ++ .char '/' :: f.2.relative.str)).isSome then _ else _
      cases encode (fsText f.1.name ++ .char '/' :: f.2.relative.str) <;> rfl

/-- A file is passed over, or it is one more candidate under some name. -/
theorem addSource_cases {found found' : List (Text × FsName) × List DesktopSource}
    (h : addSource rt f.1 found f.2 = .ok found') :
    (isSource rt f.2 = false ∧ found' = found) ∨
      (isSource rt f.2 = true ∧ ∃ name, found'.2 = found.2 ++ [⟨f.1, f.2, name⟩]) := by
  obtain ⟨used, candidates⟩ := found
  cases hsource : isSource rt f.2 with
  | false =>
      rw [addSource_of_passed hsource] at h
      cases h
      exact .inl ⟨rfl, rfl⟩
  | true =>
      refine .inr ⟨rfl, ?_⟩
      simp only [isSource, Bool.and_eq_true, decide_eq_true_eq, Bool.not_eq_true'] at hsource
      unfold addSource at h
      simp only at h
      rw [if_neg (by simp [hsource])] at h
      split at h
      · cases h
        exact ⟨_, rfl⟩
      · split at h
        · cases h
          exact ⟨_, rfl⟩
        · split at h
          · cases h
          · cases h
            exact ⟨_, rfl⟩

def addFile (rt : Runtime) (found : List (Text × FsName) × List DesktopSource) (f : SourceFile) :
    Except PyError (List (Text × FsName) × List DesktopSource) :=
  addSource rt f.1 found f.2

theorem desktopSources_eq (rt : Runtime) (guest : Guest) :
    desktopSources rt guest =
      ((sourceFiles guest).foldlM (addFile rt) ([], [])).map Prod.snd := rfl

theorem addFiles_isPrefix {fs : List SourceFile}
    {found found' : List (Text × FsName) × List DesktopSource}
    (h : fs.foldlM (addFile rt) found = .ok found') : found.2 <+: found'.2 := by
  refine Outcome.foldlM_ok (P := fun other => found.2 <+: other.2) ?_ (List.prefix_refl _) h
  intro f _ before after hbefore hafter
  rcases addSource_cases hafter with ⟨-, rfl⟩ | ⟨-, name, hname⟩
  · exact hbefore
  · rw [hname]
    exact hbefore.trans (List.prefix_append _ _)

/-- The candidates are the files that are not passed over. -/
theorem addFiles_mem {fs : List SourceFile}
    {found found' : List (Text × FsName) × List DesktopSource}
    (h : fs.foldlM (addFile rt) found = .ok found') :
    (∀ f ∈ fs, isSource rt f.2 = true →
      ∃ source ∈ found'.2, source.origin = f.1 ∧ source.file = f.2) ∧
    ∀ source ∈ found'.2, source ∈ found.2 ∨
      ((source.origin, source.file) ∈ fs ∧ isSource rt source.file = true) := by
  induction fs generalizing found with
  | nil =>
      cases h
      exact ⟨fun f hf => absurd hf List.not_mem_nil, fun source hsource => .inl hsource⟩
  | cons f fs ih =>
      rw [List.foldlM_cons] at h
      obtain ⟨next, hnext, hrest⟩ := Outcome.bind_eq_ok.mp h
      obtain ⟨hfiles, hsources⟩ := ih hrest
      refine ⟨fun g hg hsource => ?_, fun source hsource => ?_⟩
      · rcases List.mem_cons.mp hg with rfl | hg
        · rcases addSource_cases hnext with ⟨hpassed, -⟩ | ⟨-, name, hname⟩
          · rw [hsource] at hpassed
            cases hpassed
          · refine ⟨⟨g.1, g.2, name⟩, (addFiles_isPrefix hrest).subset ?_, rfl, rfl⟩
            rw [hname]
            simp
        · exact hfiles g hg hsource
      · rcases hsources source hsource with hold | ⟨hmem, hkept⟩
        · rcases addSource_cases hnext with ⟨-, rfl⟩ | ⟨hkept, name, hname⟩
          · exact .inl hold
          · rw [hname] at hold
            rcases List.mem_append.mp hold with hold | hold
            · exact .inl hold
            · cases List.mem_singleton.mp hold
              exact .inr ⟨List.mem_cons_self .., hkept⟩
        · exact .inr ⟨List.mem_cons_of_mem _ hmem, hkept⟩

/-- What is not distinct stays so. -/
theorem not_nodup_addFiles {fs : List SourceFile}
    {found found' : List (Text × FsName) × List DesktopSource}
    (h : fs.foldlM (addFile rt) found = .ok found')
    (hdouble : ¬(found.2.map DesktopSource.outputName).Nodup) :
    ¬(found'.2.map DesktopSource.outputName).Nodup := fun hnodup =>
  hdouble (hnodup.sublist ((addFiles_isPrefix h).map _).sublist)

/-- The files get distinct names exactly if each can be told from those before it. -/
theorem addFiles_distinct_iff (rt : Runtime) (used : List (Text × FsName))
    (candidates : List DesktopSource) {fs : List SourceFile} (hfiles : (fs.map identity).Nodup)
    (hnew : ∀ f ∈ fs, identity f ∉ used.map Prod.snd)
    (hnames : candidates.map DesktopSource.outputName = (used.map Prod.fst).reverse)
    (hnodup : (used.map Prod.fst).Nodup) :
    (∃ found, fs.foldlM (addFile rt) (used, candidates) = .ok found ∧
        (found.2.map DesktopSource.outputName).Nodup) ↔
      Allowed (takeName rt) (Distinguishable rt) (used.map Prod.fst) fs := by
  induction fs generalizing used candidates with
  | nil =>
      refine ⟨fun _ => trivial, fun _ => ⟨_, rfl, ?_⟩⟩
      rw [hnames, List.nodup_reverse]
      exact hnodup
  | cons f fs ih =>
      rw [List.map_cons, List.nodup_cons] at hfiles
      rw [List.foldlM_cons, Allowed]
      have hlater : ∀ g ∈ fs, identity g ∉ used.map Prod.snd := fun g hg =>
        hnew g (List.mem_cons_of_mem _ hg)
      -- One more candidate, under a name that is free.
      have hadd : ∀ name, name ∉ used.map Prod.fst →
          ((∃ found, fs.foldlM (addFile rt)
              ((name, identity f) :: used, candidates ++ [⟨f.1, f.2, name⟩]) = .ok found ∧
            (found.2.map DesktopSource.outputName).Nodup) ↔
          Allowed (takeName rt) (Distinguishable rt) (name :: used.map Prod.fst) fs) := by
        intro name hfree
        refine ih ((name, identity f) :: used) _ hfiles.2 (fun g hg hmem => ?_) ?_ ?_
        · rcases List.mem_cons.mp hmem with heq | hmem
          · exact hfiles.1 (List.mem_map.mpr ⟨g, hg, heq⟩)
          · exact hlater g hg hmem
        · rw [List.map_append, hnames]
          simp
        · exact List.nodup_cons.mpr ⟨hfree, hnodup⟩
      cases hsource : isSource rt f.2 with
      | false =>
          have hstep : addFile rt (used, candidates) f = .ok (used, candidates) :=
            addSource_of_passed hsource
          have hnothing : Distinguishable rt (used.map Prod.fst) f := by
            intro hkept
            rw [hsource] at hkept
            cases hkept
          rw [hstep, takeName, hsource]
          simp only [Bool.false_eq_true, if_false, hnothing, true_and]
          exact ih _ _ hfiles.2 hlater hnames hnodup
      | true =>
          have hstep : addFile rt (used, candidates) f = _ :=
            addSource_of_source hsource (hnew f (List.mem_cons_self ..))
          rw [hstep, takeName, if_pos hsource]
          by_cases htaken : plainName rt f ∈ used.map Prod.fst
          · rw [if_pos htaken, if_pos htaken]
            by_cases hencode : (encode (identity f)).isSome = true
            · rw [if_pos hencode]
              by_cases hfree : digestName rt f ∈ used.map Prod.fst
              · refine ⟨fun ⟨found, hfound, hdistinct⟩ => ?_, fun hallowed => ?_⟩
                · refine absurd hdistinct (not_nodup_addFiles hfound ?_)
                  rw [List.map_append, hnames]
                  intro hdouble
                  exact (List.disjoint_of_nodup_append hdouble)
                    (List.mem_reverse.mpr hfree) (by simp)
                · exact absurd hfree (hallowed.1 hsource htaken).2
              · refine (hadd _ hfree).trans ⟨fun hallowed => ⟨fun _ _ => ⟨hencode, hfree⟩,
                  hallowed⟩, fun hallowed => hallowed.2⟩
            · rw [if_neg hencode]
              refine ⟨fun ⟨found, hfound, _⟩ => (by cases hfound), fun hallowed => ?_⟩
              exact absurd (hallowed.1 hsource htaken).1 hencode
          · rw [if_neg htaken, if_neg htaken]
            exact (hadd _ htaken).trans ⟨fun hallowed => ⟨fun _ hmem => absurd hmem htaken,
              hallowed⟩, fun hallowed => hallowed.2⟩

end

/-! ## Rendering -/

section

variable {rt : Runtime} {spaceName : SpaceName} {guest : Guest}

theorem renderGroups_of_not_application {groups : List Section} (h : ¬Application groups)
    (iconPath : Option Text) (startupWmClass : FsName) :
    renderGroups groups spaceName iconPath startupWmClass = .ok none := by
  unfold renderGroups
  split
  · rfl
  · next main hmain =>
      refine if_pos ?_
      by_contra hvalid
      simp only [not_or, not_not] at hvalid
      exact h ⟨main, hmain, hvalid.1, hvalid.2.1, hvalid.2.2⟩

theorem renderGroups_of_application {groups : List Section} (h : Application groups)
    (iconPath : Option Text) (startupWmClass : FsName) :
    (∃ desktop, renderGroups groups spaceName iconPath startupWmClass = .ok (some desktop)) ∨
      (encode startupWmClass = none ∧
        renderGroups groups spaceName iconPath startupWmClass = .error .unicodeEncodeError) := by
  obtain ⟨main, hmain, htype, hname, hexec⟩ := h
  unfold renderGroups
  rw [hmain]
  simp only
  rw [if_neg (by simp only [not_or, not_not]; exact ⟨htype, hname, hexec⟩)]
  split
  · next hencode => exact .inr ⟨hencode, rfl⟩
  · exact .inl ⟨_, rfl⟩

/-- The window class that is written. -/
def windowClass (parsed : Parsed) : FsName :=
  let startupWmClass := strip (parsed.main.getD "StartupWMClass".toList)
  if startupWmClass = [] then parsed.source.file.relative.stem else fsText startupWmClass

theorem windowClass_isSome (parsed : Parsed) :
    (encode (windowClass parsed)).isSome = true ↔
      (strip (parsed.main.getD "StartupWMClass".toList) = [] →
        (encode parsed.source.file.relative.stem).isSome = true) := by
  unfold windowClass
  simp only
  split
  · next hclass => exact ⟨fun h _ => h, fun h => h hclass⟩
  · next hclass =>
      rw [encode_fsText]
      exact ⟨fun _ h => absurd h hclass, fun _ => rfl⟩

theorem exportShortcut_eq (rt : Runtime) (spaceName : SpaceName) (guest : Guest) (parsed : Parsed) :
    ∃ iconPath finish, exportShortcut rt spaceName guest parsed =
      (renderGroups parsed.groups spaceName iconPath (windowClass parsed)).map
        (Option.map finish) :=
  ⟨_, _, rfl⟩

theorem exportShortcut_isOk {parsed : Parsed} :
    (∃ shortcut, exportShortcut rt spaceName guest parsed = .ok shortcut) ↔
      (Application parsed.groups → (encode (windowClass parsed)).isSome = true) := by
  obtain ⟨iconPath, finish, heq⟩ := exportShortcut_eq rt spaceName guest parsed
  rw [heq, Outcome.map_isOk]
  by_cases happ : Application parsed.groups
  · rcases renderGroups_of_application happ iconPath (windowClass parsed) with
      ⟨desktop, hdesktop⟩ | ⟨hencode, herror⟩
    · refine ⟨fun _ _ => ?_, fun _ => ⟨_, hdesktop⟩⟩
      obtain ⟨_, text, -, -, htext, -⟩ := renderGroups_ok hdesktop
      rw [htext]
      rfl
    · rw [herror, hencode]
      exact ⟨fun ⟨_, h⟩ => (by cases h), fun h => by cases h happ⟩
  · rw [renderGroups_of_not_application happ]
    exact ⟨fun _ h => absurd h happ, fun _ => ⟨_, rfl⟩⟩

theorem application_of_export {parsed : Parsed} {shortcut : GeneratedShortcut}
    (h : exportShortcut rt spaceName guest parsed = .ok (some shortcut)) :
    Application parsed.groups := by
  by_contra happ
  obtain ⟨iconPath, finish, heq⟩ := exportShortcut_eq rt spaceName guest parsed
  rw [heq, renderGroups_of_not_application happ] at h
  cases h

theorem export_of_application {parsed : Parsed} (happ : Application parsed.groups)
    {result : Option GeneratedShortcut}
    (h : exportShortcut rt spaceName guest parsed = .ok result) :
    ∃ shortcut, result = some shortcut := by
  obtain ⟨iconPath, finish, heq⟩ := exportShortcut_eq rt spaceName guest parsed
  rw [heq] at h
  obtain ⟨rendered, hrendered, rfl⟩ := Outcome.map_eq_ok.mp h
  rcases renderGroups_of_application happ iconPath (windowClass parsed) with
    ⟨desktop, hdesktop⟩ | ⟨-, herror⟩
  · cases hdesktop.symm.trans hrendered
    exact ⟨_, rfl⟩
  · cases herror.symm.trans hrendered

/-! ## `generate` -/

/-- What a file is read as does not depend on its output name. -/
theorem parse_renamed {source : DesktopSource} {parsed : Parsed} (h : parse rt source = some parsed)
    (name : Text) :
    parse rt { source with outputName := name } =
      some { parsed with source := { source with outputName := name } } := by
  unfold parse at h ⊢
  simp only at h ⊢
  split at h
  · cases h
  · next groups hgroups =>
      split at h
      · cases h
      · next hshown =>
          rw [if_neg hshown]
          split at h
          · cases h
          · next hterminal =>
              rw [if_neg hterminal]
              cases h
              rfl

theorem generate_isOk : (∃ shortcuts, generate rt spaceName guest = .ok shortcuts) ↔
    ∃ sources, desktopSources rt guest = .ok sources ∧
      ∀ source ∈ sources, ∀ parsed, parse rt source = some parsed →
        ∃ shortcut, exportShortcut rt spaceName guest parsed = .ok shortcut := by
  have hgenerate : generate rt spaceName guest =
      parsedSources rt guest >>= fun parsed =>
        parsed.mapM (exportShortcut rt spaceName guest) >>= fun generated =>
          pure generated.reduceOption := rfl
  have hall : ∀ sources : List DesktopSource,
      (∀ parsed ∈ sources.filterMap (parse rt),
        ∃ shortcut, exportShortcut rt spaceName guest parsed = .ok shortcut) ↔
      ∀ source ∈ sources, ∀ parsed, parse rt source = some parsed →
        ∃ shortcut, exportShortcut rt spaceName guest parsed = .ok shortcut := by
    intro sources
    simp only [List.mem_filterMap, forall_exists_index, and_imp]
    exact ⟨fun h source hsource parsed hparsed => h parsed source hsource hparsed,
      fun h parsed source hsource hparsed => h source hsource parsed hparsed⟩
  rw [hgenerate]
  constructor
  · rintro ⟨shortcuts, h⟩
    obtain ⟨parsed, hparsed, h⟩ := Outcome.bind_eq_ok.mp h
    obtain ⟨sources, hsources, rfl⟩ := Outcome.map_eq_ok.mp hparsed
    obtain ⟨generated, hgenerated, -⟩ := Outcome.bind_eq_ok.mp h
    exact ⟨sources, hsources, (hall sources).mp (Outcome.mapM_isOk.mp ⟨_, hgenerated⟩)⟩
  · rintro ⟨sources, hsources, hok⟩
    obtain ⟨generated, hgenerated⟩ := Outcome.mapM_isOk.mpr ((hall sources).mpr hok)
    refine ⟨generated.reduceOption, ?_⟩
    rw [parsedSources, hsources]
    exact Outcome.bind_eq_ok.mpr ⟨_, rfl, Outcome.bind_eq_ok.mpr ⟨_, hgenerated, rfl⟩⟩

/-- The shortcut of a source is one of those that are returned, and every one is that of a
source. -/
theorem generate_mem {shortcuts : List GeneratedShortcut}
    (h : generate rt spaceName guest = .ok shortcuts) {sources : List DesktopSource}
    (hsources : desktopSources rt guest = .ok sources) {shortcut : GeneratedShortcut} :
    shortcut ∈ shortcuts ↔ ∃ source ∈ sources, ∃ parsed, parse rt source = some parsed ∧
      exportShortcut rt spaceName guest parsed = .ok (some shortcut) := by
  unfold generate at h
  obtain ⟨parsed, hparsed, h⟩ := Outcome.bind_eq_ok.mp h
  obtain ⟨sources', hsources', rfl⟩ := Outcome.map_eq_ok.mp hparsed
  rw [hsources] at hsources'
  cases hsources'
  obtain ⟨generated, hgenerated, hresult⟩ := Outcome.bind_eq_ok.mp h
  cases hresult
  have hpairs := Outcome.mapM_mem hgenerated
  rw [List.reduceOption_mem_iff]
  constructor
  · intro hmem
    obtain ⟨parsed, hmem', hexport⟩ := hpairs.2 _ hmem
    obtain ⟨source, hsource, hparse⟩ := List.mem_filterMap.mp hmem'
    exact ⟨source, hsource, parsed, hparse, hexport⟩
  · rintro ⟨source, hsource, parsed, hparse, hexport⟩
    obtain ⟨result, hmem, hresult⟩ := hpairs.1 _
      (List.mem_filterMap.mpr ⟨source, hsource, hparse⟩)
    rw [hexport] at hresult
    cases hresult
    exact hmem

theorem sourceFiles_alone (guest : Guest) (f : SourceFile) : sourceFiles (alone guest f) = [f] := by
  obtain ⟨origin, file⟩ := f
  cases origin <;> rfl

/-- A file that is exported alone is a source, and an application. -/
theorem application_of_yields {f : SourceFile} (h : Yields rt spaceName guest f) :
    isSource rt f.2 = true ∧ ∃ parsed, parse rt ⟨f.1, f.2, plainName rt f⟩ = some parsed ∧
      Application parsed.groups := by
  obtain ⟨shortcut, hshortcut⟩ := h
  obtain ⟨sources, hsources, -⟩ := generate_isOk.mp ⟨_, hshortcut⟩
  obtain ⟨source, hsource, parsed, hparse, hexport⟩ :=
    (generate_mem hshortcut hsources).mp (List.mem_singleton_self _)
  rw [desktopSources_eq, sourceFiles_alone] at hsources
  obtain ⟨found, hfound, rfl⟩ := Outcome.map_eq_ok.mp hsources
  rcases (addFiles_mem hfound).2 source hsource with hnone | ⟨hmem, hkept⟩
  · cases hnone
  · have heq := List.mem_singleton.mp hmem
    subst heq
    have happ := application_of_export hexport
    exact ⟨hkept, _, parse_renamed hparse _, happ⟩

/-- What decides whether a source can be rendered. -/
theorem exports_iff_classed {source : DesktopSource} :
    (∀ parsed, parse rt source = some parsed →
      ∃ shortcut, exportShortcut rt spaceName guest parsed = .ok shortcut) ↔
        Classed rt (source.origin, source.file) := by
  constructor
  · intro h parsed hparse happ hclass
    have hexport := exportShortcut_isOk.mp (h _ (parse_renamed hparse source.outputName))
    have hstem := (windowClass_isSome _).mp (hexport happ)
    exact hstem hclass
  · intro h parsed hparse
    refine exportShortcut_isOk.mpr fun happ => (windowClass_isSome _).mpr fun hclass => ?_
    rw [(parse_some hparse).1]
    exact h _ (parse_renamed hparse _) happ hclass

/-- The export is complete exactly if every file can be told from those before it, and
each that needs its own name as a window class has one that can be written. -/
theorem generate_complete_iff
    (hfiles : ((sourceFiles guest).map fun f => (f.1, f.2.relative)).Nodup) :
    Complete rt spaceName guest ↔
      Allowed (takeName rt) (Distinguishable rt) [] (sourceFiles guest) ∧
        ∀ f ∈ sourceFiles guest, isSource rt f.2 = true → Classed rt f := by
  have hidentities : ((sourceFiles guest).map identity).Nodup := by
    refine List.Nodup.of_map (fun name => name) ?_
    rw [List.map_id']
    exact (List.pairwise_map.mpr ((List.pairwise_map.mp hfiles).imp fun hne heq =>
      hne (identity_injective heq)))
  have hdistinct := addFiles_distinct_iff rt [] []
    hidentities (fun _ _ => List.not_mem_nil) rfl List.nodup_nil
  -- The files whose sources are rendered are those that are not passed over.
  have hclassed : ∀ sources, desktopSources rt guest = .ok sources →
      ((∀ source ∈ sources, ∀ parsed, parse rt source = some parsed →
        ∃ shortcut, exportShortcut rt spaceName guest parsed = .ok shortcut) ↔
      ∀ f ∈ sourceFiles guest, isSource rt f.2 = true → Classed rt f) := by
    intro sources hsources
    rw [desktopSources_eq] at hsources
    obtain ⟨found, hfound, rfl⟩ := Outcome.map_eq_ok.mp hsources
    obtain ⟨hfrom, hback⟩ := addFiles_mem hfound
    constructor
    · intro h f hf hkept
      obtain ⟨source, hsource, horigin, hfile⟩ := hfrom f hf hkept
      have hsourceClassed := exports_iff_classed.mp (h source hsource)
      rw [horigin, hfile] at hsourceClassed
      exact hsourceClassed
    · intro h source hsource
      rcases hback source hsource with hnone | ⟨hmem, hkept⟩
      · cases hnone
      · exact exports_iff_classed.mpr (h _ hmem hkept)
  constructor
  · rintro ⟨hreturns, hnames, -⟩
    obtain ⟨sources, hsources, hexports⟩ := generate_isOk.mp hreturns
    refine ⟨?_, (hclassed sources hsources).mp hexports⟩
    have hnodup := hnames sources hsources
    rw [desktopSources_eq] at hsources
    obtain ⟨found, hfound, rfl⟩ := Outcome.map_eq_ok.mp hsources
    exact hdistinct.mp ⟨found, hfound, hnodup⟩
  · rintro ⟨hallowed, hall⟩
    obtain ⟨found, hfound, hnodup⟩ := hdistinct.mpr hallowed
    have hsources : desktopSources rt guest = .ok found.2 := by
      rw [desktopSources_eq, hfound]
      rfl
    have hexports := (hclassed found.2 hsources).mpr hall
    obtain ⟨shortcuts, hshortcuts⟩ := generate_isOk.mpr ⟨found.2, hsources, hexports⟩
    refine ⟨⟨shortcuts, hshortcuts⟩, fun sources h => ?_, fun f hf hyields => ?_⟩
    · rw [hsources] at h
      cases h
      exact hnodup
    · obtain ⟨hkept, parsed, hparse, happ⟩ := application_of_yields hyields
      obtain ⟨source, hsource, horigin, hfile⟩ := (addFiles_mem hfound).1 f hf hkept
      have hsame : (⟨f.1, f.2, source.outputName⟩ : DesktopSource) = source := by
        cases source
        cases horigin
        cases hfile
        rfl
      have hparsed := parse_renamed hparse source.outputName
      simp only at hparsed
      rw [hsame] at hparsed
      obtain ⟨result, hresult⟩ := hexports source hsource _ hparsed
      have hrenamed : Application ({ parsed with source := source } : Parsed).groups := happ
      obtain ⟨shortcut, rfl⟩ := export_of_application hrenamed hresult
      exact ⟨shortcuts, found.2, hshortcuts, hsources, source, hsource, horigin, hfile, _, hparsed,
        shortcut, (generate_mem hshortcuts hsources).mpr ⟨source, hsource, _, hparsed, hresult⟩,
        hresult⟩

end

/-! ## A name without an encoding -/

def plainEntry : Option Text :=
  some (joinLines (["[Desktop Entry]", "Type=Application", "Name=A", "Exec=a"].map String.toList))

def plainFile : GuestFile :=
  ⟨⟨[], fsText "a.desktop".toList, by decide, by decide⟩, true, 51, plainEntry⟩

/-- Its name is one byte that is not UTF-8, and the suffix. -/
def latinFile : GuestFile :=
  ⟨⟨[], .surrogate 255 :: fsText ".desktop".toList, by decide, by decide⟩, true, 51, plainEntry⟩

def guestOf (files : List GuestFile) : Guest where
  applications
    | .system => some files
    | .localOrigin => none
  icon _ := none

def nestedFile : GuestFile where
  relative := ⟨[⟨fsText "x".toList, by decide, by decide⟩],
    ⟨fsText "a.desktop".toList, by decide, by decide⟩⟩
  regular := true
  size := 51
  text := plainEntry

def hyphenFile : GuestFile :=
  ⟨⟨[], fsText "x-a.desktop".toList, by decide, by decide⟩, true, 51, plainEntry⟩

/-- Two files with one plain name. -/
theorem generate_complete_plain :
    plainName sampleRuntime (.system, nestedFile) = plainName sampleRuntime (.system, hyphenFile) ∧
    (Complete sampleRuntime sampleSpace (guestOf [nestedFile, hyphenFile]) ↔
      Allowed (takeName sampleRuntime) (Distinguishable sampleRuntime) []
          (sourceFiles (guestOf [nestedFile, hyphenFile])) ∧
        ∀ f ∈ sourceFiles (guestOf [nestedFile, hyphenFile]), isSource sampleRuntime f.2 = true →
          Classed sampleRuntime f) := by
  have hne : nestedFile.relative ≠ hyphenFile.relative := fun heq =>
    absurd (congrArg (·.parents.length) heq) (by decide)
  refine ⟨by decide +kernel, generate_complete_iff ?_⟩
  refine List.nodup_cons.mpr ⟨fun hmem => hne ?_, List.nodup_singleton _⟩
  exact congrArg Prod.snd (List.mem_singleton.mp hmem)

/-- A file that is exported alone is not exported beside one without an encoding. -/
theorem latinFile_hides :
    Yields sampleRuntime sampleSpace (guestOf [plainFile, latinFile]) (.system, plainFile) ∧
      ¬Complete sampleRuntime sampleSpace (guestOf [plainFile, latinFile]) := by
  refine ⟨⟨⟨"spaces-box-v1-a.desktop".toList, joinLines (["[Desktop Entry]", "Type=Application",
    "Name=A (box)", "Exec=/usr/bin/spaces enter --graphical box -- a", "StartupWMClass=a",
    "DBusActivatable=false"].map String.toList), none, none⟩, by decide +kernel⟩, fun h => ?_⟩
  obtain ⟨shortcuts, hshortcuts⟩ := h.returns
  have herror : generate sampleRuntime sampleSpace (guestOf [plainFile, latinFile]) =
      .error .unicodeEncodeError := by decide +kernel
  rw [herror] at hshortcuts
  cases hshortcuts

end Spaces.Shortcuts
