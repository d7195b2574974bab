import Spaces.Library.Utf8
import Spaces.Shortcuts.Completeness

/-!
# Whose file it is

All spaces export into one directory, and whose file a file is has to be told from its
name. The name of a space, the version and what the guest chose are joined by dashes, and
the name of a space may have dashes of its own: `box-v2` is a space, and what it exports
looks like what an older exporter has made of `v1-..` for `box`.

`versioned` says of two names that the one is the other with a version. Where neither is,
no file of the one space is taken for one of the other; where one is, every file of it is.
-/

namespace Spaces.Shortcuts

open Spaces.Library Spaces.Library.Text

variable {u : Unicode} {rt : Runtime} {spaceName other : SpaceName}

/-- The two directories that shortcuts are written to. -/
inductive Folder where
  | applications
  | icons
  deriving DecidableEq

namespace Folder

def suffix : Folder → Text
  | applications => desktopSuffix
  | icons => pngSuffix

/-- The file a shortcut has in the directory, if it has one there. -/
def file (shortcut : GeneratedShortcut) : Folder → Option (FsName × List UInt8)
  | applications => some (fsText shortcut.name, utf8 shortcut.desktop)
  | icons =>
      match shortcut.iconName, shortcut.icon with
      | some name, some icon => some (fsText name, icon)
      | _, _ => none

end Folder

/-- `_shortcut_version` takes the file for one of the space, or raises over it. -/
def Claimed (u : Unicode) (spaceName : SpaceName) (folder : Folder) (name : FsName) : Prop :=
  shortcutVersion u name spaceName folder.suffix ≠ .ok none

instance (name : FsName) (folder : Folder) : Decidable (Claimed u spaceName folder name) :=
  match h : shortcutVersion u name spaceName folder.suffix with
  | .ok none => .isFalse fun hne => hne h
  | .ok (some _) => .isTrue fun heq => by cases h.symm.trans heq
  | .error _ => .isTrue fun heq => by cases h.symm.trans heq

/-- The name of a space is that of another with a version after it. -/
def versioned (long short : Text) : Bool :=
  let start := short ++ "-v".toList
  decide (start <+: long) &&
    match cut '-' (long.drop start.length ++ ['-']) with
    | some (version, _) => version ≠ [] && version.all Char.isDigit
    | none => false

def versionStart (spaceName : SpaceName) : Text :=
  "spaces-".toList ++ spaceName.text ++ "-v".toList

/-! ## Names that are claimed -/

theorem fsText_concat (s t : Text) : fsText (s ++ t) = fsText s ++ fsText t := List.map_append

theorem fsText_injective : Function.Injective fsText :=
  List.map_injective_iff.mpr fun _ _ h => by cases h; rfl

theorem isDigit_dash (u : Unicode) : u.isdigit '-' = false := u.isdigit_ascii '-' (by decide)

theorem dash_notMem_version {version : FsName} (h : isdigit u version = true) :
    .char '-' ∉ version := by
  intro hmem
  rw [isdigit, Bool.and_eq_true, List.all_eq_true] at h
  have hdash : u.isdigit '-' = true := h.2 _ hmem
  rw [isDigit_dash] at hdash
  cases hdash

/-- What a version is read from. -/
theorem shortcutVersion_read {suffix : Text} {version rest : FsName}
    (hsuffix : fsText suffix <:+ rest) (hversion : isdigit u version = true) (hrest : rest ≠ []) :
    shortcutVersion u (fsText (versionStart spaceName) ++ (version ++ .char '-' :: rest)) spaceName
      suffix = (int u version).map some := by
  have hwhole := hsuffix.trans ((List.suffix_cons (.char '-') rest).trans
    ((List.suffix_append version _).trans
      (List.suffix_append (fsText (versionStart spaceName)) _)))
  unfold versionStart at hwhole ⊢
  unfold shortcutVersion
  dsimp only
  rw [if_neg (by rw [not_or, not_not, not_not]; exact ⟨List.prefix_append _ _, hwhole⟩),
    List.drop_left, cut_append_cons (dash_notMem_version hversion)]
  dsimp only
  rw [hversion, if_neg (by simpa using hrest)]

theorem claimed_iff {folder : Folder} {name : FsName} :
    Claimed u spaceName folder name ↔ fsText folder.suffix <:+ name ∧
      ∃ version rest, name = fsText (versionStart spaceName) ++ (version ++ .char '-' :: rest) ∧
        isdigit u version = true ∧ rest ≠ [] := by
  unfold Claimed shortcutVersion versionStart
  dsimp only
  constructor
  · intro h
    split at h
    · exact absurd rfl h
    · next hparts =>
        rw [not_or, not_not, not_not] at hparts
        obtain ⟨⟨rest, rfl⟩, hsuffix⟩ := hparts
        rw [List.drop_left] at h
        split at h
        · exact absurd rfl h
        · next version rest' hcut =>
            split at h
            · exact absurd rfl h
            · next hversion =>
                rw [Bool.not_eq_true, Bool.or_eq_false_iff, Bool.not_eq_false',
                  decide_eq_false_iff_not] at hversion
                refine ⟨hsuffix, version, rest', ?_, hversion.1, hversion.2⟩
                rw [(cut_eq_some hcut).1]
  · rintro ⟨hsuffix, version, rest, rfl, hversion, hrest⟩ heq
    rw [if_neg (by rw [not_or, not_not, not_not]; exact ⟨List.prefix_append _ _, hsuffix⟩),
      List.drop_left, cut_append_cons (dash_notMem_version hversion)] at heq
    dsimp only at heq
    rw [hversion, if_neg (by simpa using hrest)] at heq
    cases hint : int u version <;> rw [hint] at heq <;> cases heq

theorem versioned_iff {long short : Text} : versioned long short = true ↔
    ∃ version tail, long ++ ['-'] = short ++ ("-v".toList ++ (version ++ '-' :: tail)) ∧
      version ≠ [] ∧ version.all Char.isDigit = true := by
  have hdash : ∀ version : Text, version.all Char.isDigit = true → '-' ∉ version :=
    fun version hall hmem => absurd (List.all_eq_true.mp hall _ hmem) (by decide)
  unfold versioned
  dsimp only
  rw [Bool.and_eq_true, decide_eq_true_eq]
  constructor
  · rintro ⟨⟨rest, rfl⟩, hcut⟩
    rw [List.drop_left] at hcut
    split at hcut
    · next version tail heq =>
        rw [Bool.and_eq_true, decide_eq_true_eq] at hcut
        refine ⟨version, tail, ?_, hcut⟩
        rw [← (cut_eq_some heq).1, List.append_assoc, List.append_assoc]
    · cases hcut
  · rintro ⟨version, tail, heq, hne, hall⟩
    -- the dash that was added is not part of the start, for a version follows it
    have hstart : short ++ "-v".toList <+: long := by
      have hboth : short ++ "-v".toList <+: long ++ ['-'] :=
        ⟨version ++ '-' :: tail, by rw [heq, List.append_assoc]⟩
      refine List.prefix_of_prefix_length_le hboth (List.prefix_append long ['-']) ?_
      have hlength := congrArg List.length heq
      simp only [List.length_append, List.length_cons, List.length_nil] at hlength ⊢
      omega
    obtain ⟨rest, rfl⟩ := hstart
    rw [List.append_assoc, List.append_assoc, List.append_cancel_left_eq,
      List.append_cancel_left_eq] at heq
    refine ⟨List.prefix_append _ _, ?_⟩
    rw [List.drop_left, heq, cut_append_cons (hdash version hall)]
    simpa using ⟨hne, List.all_eq_true.mp hall⟩

/-! ## What is claimed of another space -/

/-- The version that is written, and the dashes around it. -/
theorem shortcutPrefix_parts (spaceName : SpaceName) :
    shortcutPrefix spaceName SHORTCUT_VERSION =
      "spaces-".toList ++ (spaceName.text ++ ['-', 'v', '1', '-']) := by
  have hversion : "-v".toList ++ Nat.toDigits 10 SHORTCUT_VERSION ++ ['-']
      = ['-', 'v', '1', '-'] := by decide
  have hassoc : ∀ a b c d e : Text, a ++ b ++ c ++ d ++ e = a ++ (b ++ (c ++ d ++ e)) := by simp
  exact (hassoc _ _ _ _ _).trans (congrArg (fun dashes => "spaces-".toList ++ (spaceName.text
    ++ dashes)) hversion)

theorem versionStart_eq (spaceName : SpaceName) :
    versionStart spaceName = "spaces-".toList ++ (spaceName.text ++ ['-', 'v']) :=
  (List.append_assoc _ _ _).trans (congrArg (fun dashes => "spaces-".toList ++ (spaceName.text
    ++ dashes)) (by decide : "-v".toList = ['-', 'v']))

/-- Two ways to read a name: the first version after the one start, some version after the
other. The starts are the same, or the longer is the shorter with the version that is read
after it. -/
theorem read_twice {a b version rest rest' : FsName} (hdash : .char '-' ∉ version)
    (h : a ++ (fsText ['-', 'v', '1', '-'] ++ rest) =
      b ++ (fsText ['-', 'v'] ++ (version ++ .char '-' :: rest'))) :
    a = b ∨ (∃ tail, a ++ [.char '-'] = b ++ (fsText ['-', 'v'] ++ (version ++ .char '-' :: tail)))
      ∨ ∃ tail, b ++ [.char '-'] = a ++ (fsText ['-', 'v', '1', '-'] ++ tail) := by
  simp only [fsText, List.map_cons, List.map_nil, List.cons_append, List.nil_append] at h ⊢
  rcases List.append_eq_append_iff.mp h with ⟨more, rfl, hmore⟩ | ⟨more, rfl, hmore⟩
  · -- the other start is longer, and begins where the first version is
    rcases more with _ | ⟨dash, _ | ⟨v, _ | ⟨one, _ | ⟨dash', more⟩⟩⟩⟩
    · exact .inl (by simp)
    · simp at hmore
    · simp at hmore
    · simp only [List.cons_append, List.nil_append, List.cons.injEq] at hmore
      obtain ⟨rfl, rfl, rfl, -⟩ := hmore
      exact .inr (.inr ⟨[], by simp⟩)
    · simp only [List.cons_append, List.cons.injEq] at hmore
      obtain ⟨rfl, rfl, rfl, rfl, -⟩ := hmore
      exact .inr (.inr ⟨more ++ [.char '-'], by simp⟩)
  · rcases more with _ | ⟨dash, _ | ⟨v, more⟩⟩
    · exact .inl (by simp)
    · simp at hmore
    · simp only [List.cons_append, List.cons.injEq] at hmore
      obtain ⟨rfl, rfl, hmore⟩ := hmore
      refine .inr (.inl ?_)
      rcases List.append_eq_append_iff.mp hmore with ⟨tail, rfl, hends⟩ | ⟨tail, rfl, hends⟩
      · -- the version ends in the longer start
        cases tail with
        | nil => exact ⟨[], by simp⟩
        | cons c tail =>
            obtain ⟨rfl, -⟩ := List.cons.inj hends
            exact ⟨tail ++ [.char '-'], by simp⟩
      · cases tail with
        | nil => exact ⟨[], by simp⟩
        | cons c tail =>
            obtain ⟨rfl, -⟩ := List.cons.inj hends
            exact absurd (by simp) hdash

theorem isdigit_of_isDigit (u : Unicode) {c : Char} (h : c.isDigit = true) :
    u.isdigit c = true := by
  have hle : c.val ≤ '9'.val := of_decide_eq_true ((Bool.and_eq_true _ _).mp h).2
  rw [u.isdigit_ascii c ((UInt32.le_iff_toNat_le.mp hle).trans_lt (by decide)), h]

theorem isdigit_one (u : Unicode) : isdigit u [.char '1'] = true := by
  simp only [isdigit, List.all_cons, List.all_nil, Bool.and_true,
    isdigit_of_isDigit u (by decide : '1'.isDigit = true)]
  rfl

/-- A digit of a space name is a digit of ASCII. -/
theorem isDigit_of_isdigit {c : Char} (h : isSpaceNameChar c = true) (hdigit : u.isdigit c = true) :
    c.isDigit = true := by
  rw [← hdigit, u.isdigit_ascii]
  have hrange : ∀ high : Char, c.val ≤ high.val → high.toNat < 128 → c.toNat < 128 :=
    fun high hle hhigh => (UInt32.le_iff_toNat_le.mp hle).trans_lt hhigh
  rw [isSpaceNameChar, Bool.or_eq_true, Bool.or_eq_true, Bool.or_eq_true] at h
  rcases h with ((h | h) | h) | h
  · exact hrange 'z' (of_decide_eq_true ((Bool.and_eq_true _ _).mp h).2) (by decide)
  · exact hrange '9' (of_decide_eq_true ((Bool.and_eq_true _ _).mp h).2) (by decide)
  · rw [eq_of_beq h]
    decide
  · rw [eq_of_beq h]
    decide

/-- A version in what is written after a space name is one of the name. -/
theorem versioned_of_read {long : SpaceName} {short : Text} {version tail : FsName}
    (hversion : isdigit u version = true)
    (h : fsText long.text ++ [.char '-'] =
      fsText short ++ (fsText ['-', 'v'] ++ (version ++ .char '-' :: tail))) :
    versioned long.text short = true := by
  have htext : fsText (long.text ++ ['-']) =
      fsText short ++ (fsText ['-', 'v'] ++ (version ++ .char '-' :: tail)) := by
    rw [fsText_concat]
    exact h
  obtain ⟨start, more, hlong, hstart, htext⟩ := List.map_eq_append_iff.mp htext
  obtain ⟨dashes, more, rfl, hdashes, htext⟩ := List.map_eq_append_iff.mp htext
  obtain ⟨digits, more, rfl, hdigits, htext⟩ := List.map_eq_append_iff.mp htext
  obtain ⟨dash, tail, rfl, hdash, -⟩ := List.map_eq_cons_iff.mp htext
  cases fsText_injective hstart
  cases fsText_injective hdashes
  cases hdash
  subst hdigits
  simp only [isdigit, Bool.and_eq_true, decide_eq_true_eq, List.all_eq_true, List.mem_map,
    forall_exists_index, and_imp, forall_apply_eq_imp_iff₂] at hversion
  refine versioned_iff.mpr ⟨digits, tail, hlong, by simpa using hversion.1,
    List.all_eq_true.mpr fun c hc => ?_⟩
  have hmem : c ∈ long.text ++ ['-'] := by
    rw [hlong]
    simp [hc]
  rcases List.mem_append.mp hmem with hmem | hmem
  · exact isDigit_of_isdigit (long.isSpaceNameChar c hmem) (hversion.2 c hc)
  · have hdigit := hversion.2 c hc
    rw [List.mem_singleton.mp hmem, isDigit_dash] at hdigit
    cases hdigit

/-- What begins like a shortcut of the one space and is claimed for the other. -/
theorem claimed_cases {folder : Folder} {name : FsName}
    (hname : fsText (shortcutPrefix spaceName SHORTCUT_VERSION) <+: name)
    (h : Claimed u other folder name) :
    spaceName = other ∨ versioned spaceName.text other.text = true ∨
      versioned other.text spaceName.text = true := by
  obtain ⟨rest, rfl⟩ := hname
  obtain ⟨-, version, rest', heq, hversion, -⟩ := claimed_iff.mp h
  rw [shortcutPrefix_parts, versionStart_eq, fsText_concat, fsText_concat, fsText_concat,
    fsText_concat] at heq
  simp only [List.append_assoc, List.append_cancel_left_eq] at heq
  rcases read_twice (dash_notMem_version hversion) heq with hsame | ⟨tail, htail⟩ | ⟨tail, htail⟩
  · left
    cases spaceName
    cases other
    cases fsText_injective hsame
    rfl
  · exact .inr (.inl (versioned_of_read hversion htail))
  · exact .inr (.inr (versioned_of_read (isdigit_one u) htail))

/-- Where the one name has a version after the other, all its shortcuts are claimed. -/
theorem claimed_of_versioned {folder : Folder} {name : FsName}
    (hname : fsText (shortcutPrefix spaceName SHORTCUT_VERSION) <+: name)
    (hsuffix : fsText folder.suffix <:+ name)
    (h : versioned spaceName.text other.text = true) : Claimed u other folder name := by
  obtain ⟨rest, rfl⟩ := hname
  obtain ⟨version, tail, htext, hne, hall⟩ := versioned_iff.mp h
  refine claimed_iff.mpr ⟨hsuffix, fsText version,
    fsText tail ++ (fsText ['v', '1', '-'] ++ rest), ?_, ?_, by simp [fsText]⟩
  · have hdash : (['-', 'v', '1', '-'] : Text) = ['-'] ++ ['v', '1', '-'] := rfl
    rw [shortcutPrefix_parts, hdash, ← List.append_assoc spaceName.text, htext, versionStart_eq]
    simp only [fsText_concat, List.append_assoc]
    rfl
  · simp only [isdigit, Bool.and_eq_true, decide_eq_true_eq, List.all_eq_true] at hall ⊢
    refine ⟨by simpa [fsText] using hne, fun c hc => ?_⟩
    obtain ⟨d, hd, rfl⟩ := List.mem_map.mp hc
    exact isdigit_of_isDigit u (hall d hd)

/-- A shortcut that is written now is of this version, to its own space. -/
theorem shortcutVersion_current {suffix : Text} {rest : FsName} (hrest : rest ≠ [])
    (hsuffix : fsText suffix <:+ rest) :
    shortcutVersion u (fsText (shortcutPrefix spaceName SHORTCUT_VERSION) ++ rest) spaceName suffix
      = .ok (some SHORTCUT_VERSION) := by
  have hname : fsText (shortcutPrefix spaceName SHORTCUT_VERSION) ++ rest =
      fsText (versionStart spaceName) ++ ([.char '1'] ++ .char '-' :: rest) := by
    have hdashes : (['-', 'v', '1', '-'] : Text) = ['-', 'v'] ++ ['1', '-'] := rfl
    rw [shortcutPrefix_parts, versionStart_eq, hdashes]
    simp only [fsText_concat, List.append_assoc]
    rfl
  have hint : int u [.char '1'] = .ok 1 := by
    simp only [int, List.mapM_cons, List.mapM_nil,
      u.decimal_ascii '1' (by decide : '1'.isDigit = true)]
    rfl
  rw [hname, shortcutVersion_read hsuffix (isdigit_one u) hrest, hint]
  rfl

/-! ## What `generate` calls its shortcuts -/

theorem suffix_of_fsText {suffix text : Text} (h : fsText suffix <:+ fsText text) :
    suffix <:+ text := by
  obtain ⟨start, hstart⟩ := h
  obtain ⟨stem, ending, rfl, -, hending⟩ := List.map_eq_append_iff.mp hstart.symm
  cases fsText_injective hending
  exact List.suffix_append _ _

/-- A source keeps the suffix of its file. -/
theorem outputId_suffix (rt : Runtime) {relative : Relative}
    (h : fsText desktopSuffix <:+ relative.name.name)
    (idPrefix : Text) : desktopSuffix <:+ outputId rt relative idPrefix := by
  unfold outputId
  dsimp only
  split
  · exact List.suffix_append _ _
  · next hplain =>
      rw [not_or, ne_eq, not_not] at hplain
      refine suffix_of_fsText ?_
      rw [hplain.1]
      refine List.IsSuffix.trans ?_ (List.suffix_append _ _)
      have hdashed : (fsText desktopSuffix).map
          (fun c => if c = .char '/' then .char '-' else c) = fsText desktopSuffix := by decide
      rw [← hdashed]
      exact (h.trans (List.suffix_append _ _)).map _

theorem addSource_suffix {origin : Origin}
    {found found' : List (Text × FsName) × List DesktopSource}
    {file : GuestFile} (hfound : ∀ source ∈ found.2, desktopSuffix <:+ source.outputName)
    (h : addSource rt origin found file = .ok found') :
    ∀ source ∈ found'.2, desktopSuffix <:+ source.outputName := by
  obtain ⟨usedNames, candidates⟩ := found
  have hadd : ∀ outputName : Text, desktopSuffix <:+ outputName →
      ∀ source ∈ candidates ++ [⟨origin, file, outputName⟩],
        desktopSuffix <:+ source.outputName := by
    intro outputName hnew source hsource
    rcases List.mem_append.mp hsource with hsource | hsource
    · exact hfound source hsource
    · rw [List.mem_singleton.mp hsource]
      exact hnew
  unfold addSource at h
  dsimp only at h
  split at h
  · cases h
    exact hfound
  · next hkept =>
      rw [not_or, not_not] at hkept
      have hid := outputId_suffix rt hkept.1 origin.idPrefix
      split at h
      · cases h
        exact hadd _ hid
      · split at h
        · cases h
          exact hadd _ hid
        · split at h
          · cases h
          · cases h
            exact hadd _ (List.suffix_append _ _)

theorem desktopSources_suffix {guest : Guest} {sources : List DesktopSource}
    (h : desktopSources rt guest = .ok sources) :
    ∀ source ∈ sources, desktopSuffix <:+ source.outputName := by
  unfold desktopSources at h
  obtain ⟨found, hfound, rfl⟩ := Outcome.map_eq_ok.mp h
  exact Outcome.foldlM_ok
    (P := fun found => ∀ source ∈ found.2, desktopSuffix <:+ source.outputName)
    (fun _ _ _ _ hbefore hafter => addSource_suffix hbefore hafter)
    (fun _ hsource => absurd hsource List.not_mem_nil) hfound

theorem shortcutName_form (rt : Runtime) (spaceName : SpaceName) {source : Text}
    (h : desktopSuffix <:+ source) :
    ∃ body, shortcutName rt spaceName source =
      shortcutPrefix spaceName SHORTCUT_VERSION ++ (body ++ desktopSuffix) := by
  obtain ⟨body, rfl⟩ := h
  unfold shortcutName
  dsimp only
  split
  · exact ⟨body, rfl⟩
  · have hassoc : ∀ a b c d : Text, a ++ b ++ (c ++ d) = a ++ (b ++ c ++ d) := by simp
    exact ⟨_, hassoc _ _ _ _⟩

theorem iconName_append (start body : Text) :
    iconName (start ++ (body ++ desktopSuffix)) = start ++ (body ++ pngSuffix) := by
  have hstem := removeSuffix_append desktopSuffix (start ++ body)
  rw [List.append_assoc] at hstem
  unfold iconName
  rw [hstem, List.append_assoc]

theorem fsText_parts (start body suffix : Text) :
    fsText (start ++ (body ++ suffix)) = fsText start ++ (fsText body ++ fsText suffix) := by
  rw [fsText_concat, fsText_concat]

theorem file_applications {shortcut : GeneratedShortcut} {file : FsName × List UInt8}
    (h : Folder.applications.file shortcut = some file) : file.1 = fsText shortcut.name :=
  congrArg Prod.fst (Option.some.inj h).symm

/-- What the files of a shortcut of a space are called. -/
theorem generate_named {guest : Guest} {shortcuts : List GeneratedShortcut}
    (h : generate rt spaceName guest = .ok shortcuts) {shortcut : GeneratedShortcut}
    (hmem : shortcut ∈ shortcuts) {folder : Folder} {file : FsName × List UInt8}
    (hfile : folder.file shortcut = some file) :
    ∃ body, file.1 = fsText (shortcutPrefix spaceName SHORTCUT_VERSION) ++
      (fsText body ++ fsText folder.suffix) := by
  obtain ⟨sources, hsources, -⟩ := generate_isOk.mp ⟨_, h⟩
  obtain ⟨source, hsource, parsed, hparse, hexport⟩ := (generate_mem h hsources).mp hmem
  have hsuffix := desktopSources_suffix hsources source hsource
  rw [← (parse_some hparse).1] at hsuffix
  obtain ⟨body, hbody⟩ := shortcutName_form rt spaceName hsuffix
  unfold exportShortcut at hexport
  obtain ⟨rendered, -, hshortcut⟩ := Outcome.map_eq_ok.mp hexport
  obtain ⟨desktop, rfl, rfl⟩ := Option.map_eq_some_iff.mp hshortcut
  refine ⟨body, ?_⟩
  cases folder with
  | applications =>
      have hname := file_applications hfile
      dsimp only at hname
      rw [hname, Folder.suffix, hbody, fsText_parts]
  | icons =>
      unfold Folder.file at hfile
      dsimp only at hfile
      split at hfile
      · next hicon _ =>
          cases hfile
          obtain ⟨_, -, rfl⟩ := Option.map_eq_some_iff.mp hicon
          rw [Folder.suffix, hbody, iconName_append, fsText_parts]
      · cases hfile

theorem Folder.suffix_ne_nil (folder : Folder) : folder.suffix ≠ [] := by
  cases folder <;> decide

/-- Such a file is of this version to its own space. -/
theorem named_version {folder : Folder} {body : Text} {name : FsName}
    (h : name = fsText (shortcutPrefix spaceName SHORTCUT_VERSION) ++
      (fsText body ++ fsText folder.suffix)) :
    shortcutVersion u name spaceName folder.suffix = .ok (some SHORTCUT_VERSION) := by
  subst h
  refine shortcutVersion_current (fun hnil => folder.suffix_ne_nil ?_) (List.suffix_append _ _)
  exact List.map_eq_nil_iff.mp (List.append_eq_nil_iff.mp hnil).2

/-- Neither name is the other with a version. -/
structure Apart (spaceName other : SpaceName) : Prop where
  ne : spaceName ≠ other
  here : versioned spaceName.text other.text = false
  there : versioned other.text spaceName.text = false

theorem Apart.unclaimed (h : Apart spaceName other) {folder : Folder} {name : FsName}
    (hname : fsText (shortcutPrefix spaceName SHORTCUT_VERSION) <+: name) :
    ¬Claimed u other folder name := by
  intro hclaimed
  rcases claimed_cases hname hclaimed with hsame | hversion | hversion
  · exact h.ne hsame
  · rw [h.here] at hversion
    cases hversion
  · rw [h.there] at hversion
    cases hversion

/-- Of two spaces, where the name of the other is not this one's with a version, this
one's is the other's with a version, or no file of it is claimed for the other. -/
theorem claimed_generated_iff {guest : Guest} {shortcuts : List GeneratedShortcut}
    (h : generate rt spaceName guest = .ok shortcuts) {shortcut : GeneratedShortcut}
    (hmem : shortcut ∈ shortcuts) {folder : Folder} {file : FsName × List UInt8}
    (hfile : folder.file shortcut = some file) (hne : spaceName ≠ other)
    (hthere : versioned other.text spaceName.text = false) :
    Claimed rt.unicode other folder file.1 ↔ versioned spaceName.text other.text = true := by
  obtain ⟨body, hbody⟩ := generate_named h hmem hfile
  have hstart : fsText (shortcutPrefix spaceName SHORTCUT_VERSION) <+: file.1 := ⟨_, hbody.symm⟩
  constructor
  · intro hclaimed
    rcases claimed_cases hstart hclaimed with hsame | hhere | hversion
    · exact absurd hsame hne
    · exact hhere
    · rw [hthere] at hversion
      cases hversion
  · refine claimed_of_versioned hstart ?_
    rw [hbody]
    exact (List.suffix_append _ _).trans (List.suffix_append _ _)

def secondSpace : SpaceName := ⟨"box-v2".toList, rfl⟩

def secondShortcut : GeneratedShortcut where
  name := "spaces-box-v2-v1-a.desktop".toList
  desktop := joinLines (["[Desktop Entry]", "Type=Application", "Name=A (box-v2)",
    "Exec=/usr/bin/spaces enter --graphical box-v2 -- a", "StartupWMClass=a",
    "DBusActivatable=false"].map String.toList)
  iconName := none
  icon := none

/-- `box` takes what `box-v2` exports for its own. -/
theorem claimed_generated_second :
    generate sampleRuntime secondSpace (guestOf [plainFile]) = .ok [secondShortcut] ∧
      Claimed sampleRuntime.unicode sampleSpace .applications (fsText secondShortcut.name) := by
  have hgenerate : generate sampleRuntime secondSpace (guestOf [plainFile]) =
      .ok [secondShortcut] := by decide +kernel
  have hfile : Folder.applications.file secondShortcut =
      some (fsText secondShortcut.name, utf8 secondShortcut.desktop) := rfl
  exact ⟨hgenerate, (claimed_generated_iff hgenerate List.mem_cons_self hfile (by decide)
    (by decide)).mpr (by decide)⟩

end Spaces.Shortcuts
