import Spaces.Library.Utf8
import Spaces.Naming.Brokers
import Spaces.Shortcuts.Completeness

/-!
# The desktop id of a file that inhibits the screen saver

The portal is given the path of a desktop file in the guest and makes of it the id that
the host knows the application by. It keeps the last component of the path, and puts an
underscore for each byte that is not safe. The exporter makes the same id of the whole
path below the source directory, puts one underscore for each character, and a digest
behind what it has changed or cut.

The two can agree only where the exporter had nothing to change. An underscore is in no
digest, so what ends in one was not made of unsafe bytes, and taking the digest off the
end leaves an equation of the same form about a shorter file name.
-/

namespace Spaces.Shortcuts

open Spaces.Library Spaces.Library.Text

/-! ## The portal -/

def slash : UInt8 := 47

/-- `os.fsencode`. A byte that could not be decoded is not ASCII. -/
def fsencode (name : FsName) : List UInt8 :=
  name.flatMap fun
    | .char c => String.utf8EncodeChar c
    | .surrogate byte => [byte ||| 128]

/-- `g_path_get_basename`. -/
def pathGetBasename (fileName : List UInt8) : List UInt8 :=
  if fileName = [] then utf8 ['.']
  else
    match fileName.rdropWhile (· == slash) with
    | [] => [slash]
    | rest => rest.rtakeWhile (· != slash)

/-- `g_ascii_isalnum`, or one of the three marks. -/
def isSafeByte (byte : UInt8) : Bool := isIdSafe (Char.ofNat byte.toNat)

def safeByte (byte : UInt8) : UInt8 := if isSafeByte byte then byte else 95

def screenSaverApplication (spaceName : SpaceName) (application : List UInt8) : List UInt8 :=
  if application.head? ≠ some slash then application
  else
    let basename := removeSuffix (utf8 desktopSuffix) (pathGetBasename application)
    let basename := basename.map safeByte
    if basename = [] then application
    else utf8 ("spaces-".toList ++ spaceName.text ++ "-v1-".toList) ++ basename

/-! ## The exporter -/

/-- `SOURCE_DIRECTORIES`. -/
def Origin.directory : Origin → Text
  | .system => "/usr/share/applications/".toList
  | .localOrigin => "/usr/local/share/applications/".toList

def applicationPath (f : SourceFile) : List UInt8 :=
  utf8 f.1.directory ++ fsencode f.2.relative.str

/-- The shortcut of one of the files, with those before it and behind it. -/
structure ExportedAs (rt : Runtime) (spaceName : SpaceName) (guest : Guest)
    (before : List SourceFile) (f : SourceFile) (shortcut : GeneratedShortcut) : Prop where
  files : ∃ after, sourceFiles guest = before ++ f :: after
  generated : ∃ shortcuts, generate rt spaceName guest = .ok shortcuts ∧ shortcut ∈ shortcuts
  source : ∃ sources, desktopSources rt guest = .ok sources ∧
    ∃ source ∈ sources, source.origin = f.1 ∧ source.file = f.2 ∧
      ∃ parsed, parse rt source = some parsed ∧
        exportShortcut rt spaceName guest parsed = .ok (some shortcut)

/-- The portal's id is the name of the shortcut without its suffix. -/
def Agrees (spaceName : SpaceName) (f : SourceFile) (shortcut : GeneratedShortcut) : Prop :=
  screenSaverApplication spaceName (applicationPath f) =
    utf8 (removeSuffix desktopSuffix shortcut.name)

/-! ## The condition -/

/-- The name of a file without the suffix of desktop files. -/
def base (f : SourceFile) : FsName := removeSuffix (fsText desktopSuffix) f.2.relative.name.name

section

variable (rt : Runtime) (spaceName : SpaceName) (before : List SourceFile) (f : SourceFile)

/-- The names that the files before have taken. -/
def namesBefore : List Text := before.foldl (takeName rt) []

/-- The name that a file gets among the others. -/
def givenName : Text :=
  if (namesBefore rt before).contains (plainName rt f) then digestName rt f else plainName rt f

def Fits (name : Text) : Prop :=
  encodedLength (shortcutPrefix spaceName SHORTCUT_VERSION ++ name) ≤ 240

/-- A file at the top of the system's directory, of safe characters and more than the
suffix, that is the first to ask for its name and needs no shorter one. -/
structure Plain : Prop where
  system : f.1 = .system
  top : f.2.relative.parents = []
  safe : fsText (sanitize f.2.relative.name.name) = f.2.relative.name.name
  more : base f ≠ []
  first : plainName rt f ∉ namesBefore rt before
  short : Fits spaceName (plainName rt f)

/-- What the portal makes of a name. -/
def portalName (name : FsName) : Text :=
  name.flatMap fun
    | .char c => if isIdSafe c then [c] else List.replicate c.utf8Size '_'
    | .surrogate _ => ['_']

/-- The digest that a shortcut's name ends in if it is too long. -/
def shortcutDigest (name : Text) : Text :=
  '-' :: (rt.hexdigest (fsText (shortcutPrefix spaceName SHORTCUT_VERSION ++ name))).take 10

/-- The name of the file ends in the digest that its shortcut gets, behind what the
shortcut keeps. -/
def SelfDigested : Prop :=
  ¬ Fits spaceName (givenName rt before f) ∧
    ∃ kept, base f = kept ++ fsText (shortcutDigest rt spaceName (givenName rt before f)) ∧
      portalName kept = (removeSuffix desktopSuffix (givenName rt before f)).take
        (240 - (shortcutPrefix spaceName SHORTCUT_VERSION).length - 19)

end

/-! ## The portal's id -/

theorem isIdSafe_ascii {c : Char} (h : isIdSafe c = true) : c.toNat < 128 := by
  unfold isIdSafe at h
  simp only [Bool.or_eq_true, beq_iff_eq] at h
  rcases h with ((h | rfl) | rfl) | rfl
  · exact Naming.toNat_of_alphanum h
  · decide
  · decide
  · decide

theorem IdSafe.ascii {text : Text} (h : IdSafe text) : Ascii text := by
  intro c hc
  rw [Char.utf8Size_eq_one_iff, UInt32.le_iff_toNat_le]
  exact Nat.le_of_lt_succ (isIdSafe_ascii (h c hc))

theorem safeByte_high {b : UInt8} (h : 128 ≤ b.toNat) : safeByte b = 95 := by
  unfold safeByte isSafeByte
  refine if_neg (fun hsafe => ?_)
  have hlt := isIdSafe_ascii hsafe
  rw [Naming.toNat_ofByte] at hlt
  omega

theorem utf8_underscores (n : Nat) : utf8 (List.replicate n '_') = List.replicate n 95 := by
  induction n with
  | zero => rfl
  | succ n ih =>
      rw [List.replicate_succ, List.replicate_succ, ← ih]
      rfl

/-- A safe character is one safe byte, and the bytes of another are not safe. -/
theorem map_safeByte_char (c : Char) : (String.utf8EncodeChar c).map safeByte =
    utf8 (if isIdSafe c then [c] else List.replicate c.utf8Size '_') := by
  rcases Nat.lt_or_ge c.toNat 128 with hascii | hhigh
  · have hone : c.utf8Size = 1 := by
      rw [Char.utf8Size_eq_one_iff, UInt32.le_iff_toNat_le]
      exact Nat.le_of_lt_succ hascii
    rw [Naming.utf8EncodeChar_ascii hascii, List.map_singleton, safeByte, isSafeByte,
      Naming.ofByte_ascii hascii, hone]
    split
    · rw [utf8, List.flatMap_singleton, Naming.utf8EncodeChar_ascii hascii]
    · rfl
  · have hother : isIdSafe c = false := by
      rw [Bool.eq_false_iff]
      intro hsafe
      exact absurd (isIdSafe_ascii hsafe) (Nat.not_lt.mpr hhigh)
    rw [hother, if_neg Bool.false_ne_true, utf8_underscores, List.eq_replicate_iff]
    refine ⟨by rw [List.length_map, String.length_utf8EncodeChar], fun b hb => ?_⟩
    obtain ⟨byte, hbyte, rfl⟩ := List.mem_map.mp hb
    exact safeByte_high (high_of_mem_utf8EncodeChar hhigh hbyte)

theorem fsencode_append (a b : FsName) : fsencode (a ++ b) = fsencode a ++ fsencode b :=
  List.flatMap_append

theorem fsencode_fsText (text : Text) : fsencode (fsText text) = utf8 text := by
  induction text with
  | nil => rfl
  | cons c rest ih =>
      rw [fsText, List.map_cons, fsencode, List.flatMap_cons]
      exact congrArg (String.utf8EncodeChar c ++ ·) ih

theorem portalName_append (a b : FsName) : portalName (a ++ b) = portalName a ++ portalName b :=
  List.flatMap_append

theorem map_safeByte (name : FsName) : (fsencode name).map safeByte = utf8 (portalName name) := by
  induction name with
  | nil => rfl
  | cons c rest ih =>
      have hcons : ∀ d, fsencode (d :: rest) = fsencode [d] ++ fsencode rest := fun d =>
        fsencode_append [d] rest
      have hportal : ∀ d, portalName (d :: rest) = portalName [d] ++ portalName rest := fun d =>
        portalName_append [d] rest
      rw [hcons, hportal, List.map_append, utf8_append, ih]
      congr 1
      cases c with
      | char c =>
          rw [fsencode, List.flatMap_singleton, portalName, List.flatMap_singleton]
          exact map_safeByte_char c
      | surrogate byte =>
          show [safeByte (byte ||| 128)] = utf8 ['_']
          rw [safeByte_high (le_or_right byte 128 (by decide))]
          rfl

theorem slash_not_mem_fsencode {name : FsName} (h : .char '/' ∉ name) : slash ∉ fsencode name := by
  intro hmem
  obtain ⟨d, hd, hbyte⟩ := List.mem_flatMap.mp hmem
  cases d with
  | surrogate byte =>
      have hhigh := le_or_right byte 128 (by decide : 128 ≤ (128 : UInt8).toNat)
      rw [← List.mem_singleton.mp hbyte] at hhigh
      exact absurd hhigh (by decide)
  | char c =>
      replace hbyte : slash ∈ String.utf8EncodeChar c := hbyte
      rcases Nat.lt_or_ge c.toNat 128 with hascii | hhigh
      · rw [Naming.utf8EncodeChar_ascii hascii, List.mem_singleton] at hbyte
        have hchar := Naming.ofByte_ascii hascii
        rw [← hbyte] at hchar
        exact h (hchar ▸ hd)
      · exact absurd (high_of_mem_utf8EncodeChar hhigh hbyte) (by decide)

/-- What is behind the last slash. -/
theorem pathGetBasename_append {directory name : List UInt8} (hne : name ≠ [])
    (h : slash ∉ name) : pathGetBasename (directory ++ slash :: name) = name := by
  have hlast : (directory ++ slash :: name).rdropWhile (· == slash) =
      directory ++ slash :: name := by
    rw [List.rdropWhile_eq_self_iff]
    intro hall
    rw [List.getLast_append_of_ne_nil _ (List.cons_ne_nil slash name), List.getLast_cons hne]
    intro heq
    exact h (beq_iff_eq.mp heq ▸ List.getLast_mem hne)
  have hnonempty : directory ++ slash :: name ≠ [] := by simp
  have htake : (directory ++ slash :: name).rtakeWhile (· != slash) = name := by
    rw [List.rtakeWhile, List.reverse_append, List.reverse_cons, List.append_assoc,
      List.takeWhile_append_of_pos, List.singleton_append, List.takeWhile_cons_of_neg,
      List.append_nil, List.reverse_reverse]
    · simp
    · intro b hb
      rw [bne_iff_ne]
      rintro rfl
      exact h (List.mem_reverse.mp hb)
  unfold pathGetBasename
  rw [if_neg hnonempty, hlast]
  split
  · next heq => exact absurd heq hnonempty
  · exact htake

variable {rt : Runtime} {spaceName : SpaceName} {guest : Guest} {before : List SourceFile}
  {f : SourceFile} {shortcut : GeneratedShortcut} {name outputName : Text}

theorem givenName_eq : givenName rt before f =
    if plainName rt f ∈ namesBefore rt before then digestName rt f else plainName rt f := by
  unfold givenName
  by_cases htaken : plainName rt f ∈ namesBefore rt before
  · rw [if_pos (List.contains_iff_mem.mpr htaken), if_pos htaken]
  · rw [if_neg (fun h => htaken (List.contains_iff_mem.mp h)), if_neg htaken]

/-- What is before the name in a guest path. -/
theorem applicationPath_eq (f : SourceFile) :
    ∃ directory, applicationPath f =
      slash :: directory ++ slash :: fsencode f.2.relative.name.name := by
  have hdirectory : ∃ top, utf8 f.1.directory = slash :: (top ++ [slash]) := by
    cases f.1 with
    | system => exact ⟨utf8 "usr/share/applications".toList, by decide +kernel⟩
    | localOrigin => exact ⟨utf8 "usr/local/share/applications".toList, by decide +kernel⟩
  obtain ⟨top, htop⟩ := hdirectory
  rw [applicationPath, htop, Relative.str, fsencode_append]
  rcases List.eq_nil_or_concat f.2.relative.parents with hnone | ⟨parents, last, hparents⟩
  · rw [hnone]
    exact ⟨top, by simp [fsencode]⟩
  · have hslash : fsencode [.char '/'] = [slash] := by decide +kernel
    rw [hparents, List.concat_eq_append, List.flatMap_append, List.flatMap_singleton,
      fsencode_append, fsencode_append, hslash]
    exact ⟨top ++ slash ::
      (fsencode (parents.flatMap fun parent => parent.name ++ [.char '/']) ++
        fsencode last.name), by simp⟩

theorem base_eq (h : isSource rt f.2 = true) :
    f.2.relative.name.name = base f ++ fsText desktopSuffix := by
  simp only [isSource, Bool.and_eq_true, decide_eq_true_eq] at h
  obtain ⟨start, hstart⟩ := h.1.1
  rw [base, ← hstart, removeSuffix_append]

theorem basename_applicationPath (h : isSource rt f.2 = true) :
    removeSuffix (utf8 desktopSuffix) (pathGetBasename (applicationPath f)) =
      fsencode (base f) := by
  obtain ⟨directory, hpath⟩ := applicationPath_eq f
  have hname : fsencode f.2.relative.name.name = fsencode (base f) ++ utf8 desktopSuffix := by
    rw [← fsencode_fsText, ← fsencode_append, ← base_eq h]
  have hne : fsencode f.2.relative.name.name ≠ [] := by
    rw [hname]
    intro hnil
    exact absurd (List.append_eq_nil_iff.mp hnil).2 (by decide +kernel)
  rw [hpath, pathGetBasename_append hne (slash_not_mem_fsencode f.2.relative.name.noSlash), hname,
    removeSuffix_append]

theorem append_version {start version digits whole : Text}
    (h : version ++ digits ++ ['-'] = whole) :
    start ++ version ++ digits ++ ['-'] = start ++ whole := by
  rw [← h, List.append_assoc, List.append_assoc, List.append_assoc]

theorem shortcutPrefix_eq (spaceName : SpaceName) : shortcutPrefix spaceName SHORTCUT_VERSION =
    "spaces-".toList ++ spaceName.text ++ "-v1-".toList :=
  append_version (by decide +kernel)

theorem portalName_nil : portalName [] = [] := rfl

theorem portalName_cons (c : Char) (rest : FsName) : portalName (.char c :: rest) =
    (if isIdSafe c then [c] else List.replicate c.utf8Size '_') ++ portalName rest := rfl

theorem portalName_surrogate (byte : UInt8) (rest : FsName) :
    portalName (.surrogate byte :: rest) = '_' :: portalName rest := rfl

theorem portalName_eq_nil_iff {x : FsName} : portalName x = [] ↔ x = [] := by
  cases x with
  | nil => exact iff_of_true rfl rfl
  | cons c rest =>
      refine iff_of_false (fun h => ?_) (List.cons_ne_nil c rest)
      cases c with
      | surrogate byte => cases h
      | char c =>
          have hhead := (List.append_eq_nil_iff.mp (portalName_cons c rest ▸ h)).1
          split at hhead
          · cases hhead
          · rw [List.replicate_eq_nil_iff] at hhead
            exact absurd hhead c.utf8Size_pos.ne'

/-- The portal's id, if the file has more of a name than the suffix. -/
theorem screenSaver_applicationPath (h : isSource rt f.2 = true) (hmore : base f ≠ []) :
    screenSaverApplication spaceName (applicationPath f) =
      utf8 (shortcutPrefix spaceName SHORTCUT_VERSION ++ portalName (base f)) := by
  have hhead : (applicationPath f).head? = some slash := by
    obtain ⟨directory, hpath⟩ := applicationPath_eq f
    rw [hpath]
    rfl
  have hne : (fsencode (base f)).map safeByte ≠ [] := by
    rw [map_safeByte]
    intro hnil
    have hutf8 : utf8 (portalName (base f)) = utf8 [] := hnil
    exact hmore (portalName_eq_nil_iff.mp (Naming.utf8_injective hutf8))
  unfold screenSaverApplication
  simp only [hhead, ne_eq, not_true_eq_false, if_false, basename_applicationPath h]
  rw [if_neg hne, map_safeByte, ← utf8_append, shortcutPrefix_eq]

theorem screenSaver_suffix (h : isSource rt f.2 = true) (hnone : base f = []) :
    (screenSaverApplication spaceName (applicationPath f)).head? = some slash := by
  have hhead : (applicationPath f).head? = some slash := by
    obtain ⟨directory, hpath⟩ := applicationPath_eq f
    rw [hpath]
    rfl
  unfold screenSaverApplication
  simp only [hhead, ne_eq, not_true_eq_false, if_false, basename_applicationPath h, hnone]
  rw [if_pos (by rfl), hhead]

/-! ## An underscore is in no digest -/

theorem sanitize_append (a b : FsName) : sanitize (a ++ b) = sanitize a ++ sanitize b :=
  List.map_append

theorem length_sanitize (x : FsName) : (sanitize x).length = x.length := List.length_map _

theorem fsText_append (a b : Text) : fsText (a ++ b) = fsText a ++ fsText b := List.map_append

theorem sanitize_fsText (h : IdSafe name) : sanitize (fsText name) = name := by
  rw [sanitize, fsText, List.map_map]
  refine (List.map_congr_left fun c hc => ?_).trans (List.map_id name)
  exact if_pos (h c hc)

theorem portalName_fsText (h : IdSafe name) : portalName (fsText name) = name := by
  induction name with
  | nil => rfl
  | cons c rest ih =>
      have hrest := ih (fun d hd => h d (List.mem_cons_of_mem c hd))
      rw [fsText, List.map_cons, portalName_cons, if_pos (h c List.mem_cons_self)]
      exact congrArg (c :: ·) hrest

/-- The one character of a name that the portal's name ends in, if that is no
underscore. -/
theorem of_portalName_concat {x : FsName} {front : Text} {c : Char} (hmark : c ≠ '_')
    (h : portalName x = front ++ [c]) :
    ∃ kept, x = kept ++ [.char c] ∧ portalName kept = front ∧ isIdSafe c = true := by
  rcases List.eq_nil_or_concat x with rfl | ⟨kept, d, rfl⟩
  · simp [portalName] at h
  · rw [List.concat_eq_append, portalName_append] at h
    cases d with
    | surrogate byte =>
        rw [portalName_surrogate] at h
        exact absurd (List.append_inj_right' h rfl) (by simpa [portalName] using hmark.symm)
    | char d =>
        rw [portalName_cons] at h
        by_cases hsafe : isIdSafe d = true
        · rw [if_pos hsafe] at h
          obtain ⟨hkept, hlast⟩ := List.append_inj' h rfl
          cases hlast
          exact ⟨kept, List.concat_eq_append .., hkept, hsafe⟩
        · -- the last of the underscores
          obtain ⟨n, hn⟩ := Nat.exists_eq_succ_of_ne_zero d.utf8Size_pos.ne'
          rw [if_neg hsafe, hn, List.replicate_succ', portalName_nil, List.append_nil,
            ← List.append_assoc] at h
          exact absurd (List.cons.inj (List.append_inj_right' h rfl)).1.symm hmark

/-- What the portal's name ends in without an underscore, the file's name ends in. -/
theorem of_portalName_append {x : FsName} {front tail : Text} (hmark : '_' ∉ tail)
    (h : portalName x = front ++ tail) :
    ∃ kept, x = kept ++ fsText tail ∧ portalName kept = front ∧ IdSafe tail := by
  induction tail using List.reverseRecOn generalizing x with
  | nil => exact ⟨x, by simp [fsText], by rw [h, List.append_nil], fun c hc => by cases hc⟩
  | append_singleton tail c ih =>
      rw [List.mem_append, not_or, List.mem_singleton] at hmark
      rw [← List.append_assoc] at h
      obtain ⟨kept, rfl, hkept, hsafe⟩ := of_portalName_concat (fun heq => hmark.2 heq.symm) h
      obtain ⟨kept, rfl, hfront, htail⟩ := ih hmark.1 hkept
      refine ⟨kept, by simp [fsText], hfront, fun d hd => ?_⟩
      rcases List.mem_append.mp hd with hd | hd
      · exact htail d hd
      · rw [List.mem_singleton.mp hd]
        exact hsafe

/-- No name is turned into itself with something before it and a digest behind it. -/
theorem portalName_ne_digested {front tail : Text} (hne : tail ≠ []) (hmark : '_' ∉ tail)
    (x : FsName) : portalName x ≠ front ++ sanitize x ++ tail := by
  intro h
  -- the digest is the end of the name, and without it the same holds of a shorter one
  obtain ⟨kept, hx, hkept, hsafe⟩ := of_portalName_append hmark h
  have hshorter : kept.length < x.length := by
    rw [hx, List.length_append, fsText, List.length_map]
    have := List.length_pos_of_ne_nil hne
    omega
  rw [hx, sanitize_append, sanitize_fsText hsafe, ← List.append_assoc] at hkept
  exact portalName_ne_digested hne hmark kept hkept
termination_by x.length

theorem portalName_of_safe {x : FsName} (h : fsText (sanitize x) = x) :
    portalName x = sanitize x := by
  have hsafe := portalName_fsText (sanitize_safe x)
  rwa [h] at hsafe

/-! ## The name a file gets -/

theorem exported_name {parsed : Parsed}
    (h : exportShortcut rt spaceName guest parsed = .ok (some shortcut)) :
    shortcut.name = shortcutName rt spaceName parsed.source.outputName := by
  unfold exportShortcut at h
  obtain ⟨rendered, -, hfinish⟩ := Outcome.map_eq_ok.mp h
  obtain ⟨desktop, -, rfl⟩ := Option.map_eq_some_iff.mp hfinish
  rfl

variable {used : List (Text × FsName)} {candidates : List DesktopSource} {fs : List SourceFile}
  {found : List (Text × FsName) × List DesktopSource}

/-- A new file that is a source gets its plain name, or the one with a digest where that is
taken. -/
theorem addFile_source (hsource : isSource rt f.2 = true)
    (hnew : identity f ∉ used.map Prod.snd) (h : addFile rt (used, candidates) f = .ok found) :
    ∃ name, name = (if plainName rt f ∈ used.map Prod.fst then digestName rt f
        else plainName rt f) ∧
      found = ((name, identity f) :: used, candidates ++ [⟨f.1, f.2, name⟩]) := by
  refine ⟨_, rfl, ?_⟩
  rw [addFile, addSource_of_source hsource hnew] at h
  by_cases htaken : plainName rt f ∈ used.map Prod.fst
  · rw [if_pos htaken] at h ⊢
    split at h
    · cases h
      rfl
    · cases h
  · rw [if_neg htaken] at h ⊢
    cases h
    rfl

/-- One step: the names that are taken, and whose they are. -/
theorem addFile_used (hnew : identity f ∉ used.map Prod.snd)
    (h : addFile rt (used, candidates) f = .ok found) :
    found.1.map Prod.fst = takeName rt (used.map Prod.fst) f ∧
      ∀ i ∈ found.1.map Prod.snd, i ∈ used.map Prod.snd ∨ i = identity f := by
  cases hsource : isSource rt f.2 with
  | false =>
      rw [addFile, addSource_of_passed hsource] at h
      cases h
      rw [takeName, hsource]
      exact ⟨rfl, fun i hi => .inl hi⟩
  | true =>
      obtain ⟨name, hname, rfl⟩ := addFile_source hsource hnew h
      rw [takeName, if_pos hsource, hname]
      refine ⟨?_, fun i hi => (List.mem_cons.mp hi).symm⟩
      split <;> rfl

theorem addFiles_used (hfiles : (fs.map identity).Nodup)
    (hnew : ∀ g ∈ fs, identity g ∉ used.map Prod.snd)
    (h : fs.foldlM (addFile rt) (used, candidates) = .ok found) :
    found.1.map Prod.fst = fs.foldl (takeName rt) (used.map Prod.fst) ∧
      ∀ i ∈ found.1.map Prod.snd, i ∈ used.map Prod.snd ∨ i ∈ fs.map identity := by
  induction fs generalizing used candidates with
  | nil =>
      cases h
      exact ⟨rfl, fun i hi => .inl hi⟩
  | cons g fs ih =>
      rw [List.map_cons, List.nodup_cons] at hfiles
      rw [List.foldlM_cons] at h
      obtain ⟨⟨used', candidates'⟩, hstep, hrest⟩ := Outcome.bind_eq_ok.mp h
      obtain ⟨hnames, howners⟩ := addFile_used (hnew g List.mem_cons_self) hstep
      have hlater : ∀ k ∈ fs, identity k ∉ used'.map Prod.snd := by
        intro k hk hmem
        rcases howners _ hmem with hold | heq
        · exact hnew k (List.mem_cons_of_mem g hk) hold
        · exact hfiles.1 (heq ▸ List.mem_map_of_mem hk)
      obtain ⟨hall, hwhose⟩ := ih hfiles.2 hlater hrest
      refine ⟨by rw [hall, List.foldl_cons, ← hnames], fun i hi => ?_⟩
      rcases hwhose i hi with hold | hin
      · rcases howners i hold with hold | rfl
        · exact .inl hold
        · exact .inr (List.mem_cons_self ..)
      · exact .inr (List.mem_cons_of_mem _ hin)

/-- The source of a file has the name that those before have left to it. -/
theorem outputName_eq {after : List SourceFile} {sources : List DesktopSource}
    {source : DesktopSource} (hfiles : ((before ++ f :: after).map identity).Nodup)
    (h : (before ++ f :: after).foldlM (addFile rt) ([], []) = .ok found)
    (hsources : found.2 = sources) (hsource : source ∈ sources) (horigin : source.origin = f.1)
    (hfile : source.file = f.2) :
    isSource rt f.2 = true ∧ source.outputName = givenName rt before f := by
  rw [List.map_append, List.map_cons] at hfiles
  have hkept : isSource rt f.2 = true := by
    rcases (addFiles_mem h).2 source (hsources ▸ hsource) with hnone | ⟨-, hkept⟩
    · cases hnone
    · rwa [hfile] at hkept
  refine ⟨hkept, ?_⟩
  rw [List.foldlM_append] at h
  obtain ⟨⟨used, candidates⟩, hbefore, h⟩ := Outcome.bind_eq_ok.mp h
  rw [List.foldlM_cons] at h
  obtain ⟨next, hstep, hafter⟩ := Outcome.bind_eq_ok.mp h
  obtain ⟨hnames, howners⟩ := addFiles_used (List.nodup_append.mp hfiles).1
    (fun _ _ => List.not_mem_nil) hbefore
  have hnodup := List.nodup_append.mp hfiles
  have hnew : identity f ∉ used.map Prod.snd := by
    intro hmem
    rcases howners _ hmem with hnone | hin
    · cases hnone
    · exact hnodup.2.2 _ hin _ List.mem_cons_self rfl
  have hnext : next.2 = candidates ++ [⟨f.1, f.2, givenName rt before f⟩] := by
    obtain ⟨name, hname, rfl⟩ := addFile_source hkept hnew hstep
    have hgiven : name = givenName rt before f := by
      rw [hname, hnames, givenName_eq]
      rfl
    rw [hgiven]
  -- the source is that of the file, for no other file is the same
  have hself : identity (source.origin, source.file) = identity f := by rw [horigin, hfile]
  rcases (addFiles_mem hafter).2 source (hsources ▸ hsource) with hmem | ⟨hmem, -⟩
  · rw [hnext] at hmem
    rcases List.mem_append.mp hmem with hmem | hmem
    · rcases (addFiles_mem hbefore).2 source hmem with hnone | ⟨hin, -⟩
      · cases hnone
      · exact absurd hself
          (hnodup.2.2 _ (List.mem_map_of_mem hin) _ List.mem_cons_self)
    · rw [List.mem_singleton.mp hmem]
  · exact absurd (hself ▸ List.mem_map_of_mem hmem) (List.nodup_cons.mp hnodup.2.1).1

/-! ## What a name is made of -/

def dash (c : FsChar) : FsChar := if c = .char '/' then .char '-' else c

/-- What the exporter puts before the name of a file. -/
def lead (f : SourceFile) : FsName :=
  fsText f.1.idPrefix ++
    (f.2.relative.parents.flatMap fun parent => parent.name ++ [.char '/']).map dash

theorem rawId_eq (h : isSource rt f.2 = true) :
    fsText f.1.idPrefix ++ f.2.relative.dashed = lead f ++ base f ++ fsText desktopSuffix := by
  have hname : f.2.relative.name.name.map dash = f.2.relative.name.name := by
    refine (List.map_congr_left fun c hc => ?_).trans (List.map_id _)
    refine if_neg ?_
    rintro rfl
    exact f.2.relative.name.noSlash hc
  have hdashed : f.2.relative.dashed = f.2.relative.str.map dash := rfl
  rw [hdashed, Relative.str, List.map_append, hname, base_eq h, lead, List.append_assoc,
    List.append_assoc]

theorem lead_eq_nil_iff : lead f = [] ↔ f.1 = .system ∧ f.2.relative.parents = [] := by
  have hsystem : fsText f.1.idPrefix = [] ↔ f.1 = .system := by
    cases f.1 with
    | system => exact iff_of_true rfl rfl
    | localOrigin => exact iff_of_false (by decide +kernel) (fun h => by cases h)
  rw [lead, List.append_eq_nil_iff, hsystem, List.map_eq_nil_iff]
  refine and_congr_right fun _ => ?_
  cases f.2.relative.parents with
  | nil => exact iff_of_true rfl rfl
  | cons parent rest => exact iff_of_false (by simp) (List.cons_ne_nil parent rest)

/-- All characters of the path, made safe. -/
def whole (f : SourceFile) : Text := sanitize (lead f ++ base f)

theorem sanitize_rawId (f : SourceFile) :
    sanitize (lead f ++ base f ++ fsText desktopSuffix) = whole f ++ desktopSuffix := by
  rw [sanitize_append, sanitize_fsText desktopSuffix_safe, whole]

theorem underscore_not_mem_digest (rt : Runtime) (n : FsName) :
    '_' ∉ '-' :: (rt.hexdigest n).take 10 := by
  rw [List.mem_cons, not_or]
  refine ⟨by decide, fun hmem => ?_⟩
  have hhex := List.all_eq_true.mp (rt.hexdigest_hex n) '_' (List.mem_of_mem_take hmem)
  exact absurd hhex (by decide +kernel)

/-- The exporter has to change the name. -/
def Changed (f : SourceFile) : Prop :=
  fsText (whole f) ≠ lead f ++ base f ∨ 240 < (whole f ++ desktopSuffix).length

/-- Nothing was changed, or a digest is behind what was kept. -/
inductive Made (f : SourceFile) (name : Text) : Prop
  | unchanged (h : fsText (whole f) = lead f ++ base f) (hname : name = whole f ++ desktopSuffix)
  | digested (h : Changed f) (kept tail : Text) (hkept : kept = whole f ∨ kept = (whole f).take 220)
      (hne : tail ≠ []) (hmark : '_' ∉ tail) (hname : name = kept ++ tail ++ desktopSuffix)

theorem made_plainName (h : isSource rt f.2 = true) : Made f (plainName rt f) := by
  have hsafe : IdSafe (whole f) := sanitize_safe _
  have hall := (hsafe.append desktopSuffix_safe).ascii
  have hsame : fsText (whole f ++ desktopSuffix) = lead f ++ base f ++ fsText desktopSuffix ↔
      fsText (whole f) = lead f ++ base f := by
    rw [fsText_append]
    exact List.append_left_inj _
  unfold plainName outputId
  simp only [rawId_eq h, sanitize_rawId, ne_eq, hsame, hall.encodedLength_eq]
  split
  · next hchanged =>
      rw [removeSuffix_append, hsafe.ascii.encodedTake_eq]
      exact .digested hchanged _ _ (.inr rfl) (List.cons_ne_nil _ _)
        (underscore_not_mem_digest rt _) rfl
  · next hchanged =>
      rw [not_or, not_not] at hchanged
      exact .unchanged hchanged.1 rfl

theorem made_digestName (h : isSource rt f.2 = true) : ∃ kept tail,
    (kept = whole f ∨ kept = (whole f).take 220) ∧ tail ≠ [] ∧ '_' ∉ tail ∧
      digestName rt f = kept ++ tail ++ desktopSuffix := by
  unfold digestName
  have hdigest := underscore_not_mem_digest rt (identity f)
  cases made_plainName h with
  | unchanged _ hname =>
      rw [hname, removeSuffix_append]
      exact ⟨_, _, .inl rfl, List.cons_ne_nil _ _, hdigest, rfl⟩
  | digested _ kept tail hkept hne hmark hname =>
      rw [hname, removeSuffix_append, List.append_assoc kept]
      refine ⟨kept, _, hkept, ?_, ?_, rfl⟩
      · simp
      · rw [List.mem_append, not_or]
        exact ⟨hmark, hdigest⟩

/-- A name that is not changed is that of a file that asks for it first. -/
theorem made_givenName (h : isSource rt f.2 = true) :
    (plainName rt f ∉ namesBefore rt before ∧ givenName rt before f = plainName rt f ∧
      fsText (whole f) = lead f ++ base f ∧
        givenName rt before f = whole f ++ desktopSuffix) ∨
    ((plainName rt f ∈ namesBefore rt before ∨ Changed f) ∧
      ∃ kept tail, (kept = whole f ∨ kept = (whole f).take 220) ∧ tail ≠ [] ∧ '_' ∉ tail ∧
        givenName rt before f = kept ++ tail ++ desktopSuffix) := by
  rw [givenName_eq]
  split
  · next htaken => exact .inr ⟨.inl htaken, made_digestName h⟩
  · next hfirst =>
      cases made_plainName h with
      | unchanged hsafe hname => exact .inl ⟨hfirst, rfl, hsafe, hname⟩
      | digested hchanged kept tail hkept hne hmark hname =>
          exact .inr ⟨.inr hchanged, kept, tail, hkept, hne, hmark, hname⟩

theorem suffix_givenName (h : isSource rt f.2 = true) :
    ∃ outputName, givenName rt before f = outputName ++ desktopSuffix := by
  rcases made_givenName h with ⟨-, -, -, hwhole⟩ | ⟨-, kept, tail, -, -, -, hmade⟩
  · exact ⟨_, hwhole⟩
  · exact ⟨_, hmade⟩

theorem givenName_safe : IdSafe (givenName rt before f) := by
  have hplain : IdSafe (plainName rt f) := outputId_safe rt _ _
  rw [givenName_eq]
  split
  · exact digested_safe (hplain.of_isPrefix (removeSuffix_isPrefix _ _)) rt _
  · exact hplain

/-! ## The two ids -/

theorem twelve_le_shortcutPrefix (spaceName : SpaceName) :
    12 ≤ (shortcutPrefix spaceName SHORTCUT_VERSION).length := by
  have hname : spaceName.text ≠ [] := by
    intro hnil
    have hvalid := spaceName.valid
    rw [hnil] at hvalid
    cases hvalid
  have hpos := List.length_pos_of_ne_nil hname
  have hfirst : "spaces-".toList.length = 7 := by decide +kernel
  have hlast : "-v1-".toList.length = 4 := by decide +kernel
  rw [shortcutPrefix_eq, List.length_append, List.length_append, hfirst, hlast]
  omega

theorem fits_iff (h : IdSafe name) : Fits spaceName name ↔
    (shortcutPrefix spaceName SHORTCUT_VERSION).length + name.length ≤ 240 := by
  have hall := ((shortcutPrefix_safe spaceName).append h).ascii
  rw [Fits, hall.encodedLength_eq, List.length_append]

/-- The shortcut's name without the prefix and the suffix. -/
theorem shortcutName_eq (h : IdSafe name) (hsuffix : name = outputName ++ desktopSuffix) :
    ∃ tail, shortcutName rt spaceName name =
        shortcutPrefix spaceName SHORTCUT_VERSION ++ tail ++ desktopSuffix ∧
      (Fits spaceName name → tail = outputName) ∧
        (¬ Fits spaceName name → tail =
          outputName.take (240 - (shortcutPrefix spaceName SHORTCUT_VERSION).length - 19) ++
            shortcutDigest rt spaceName name) := by
  unfold shortcutName Fits
  dsimp only
  by_cases hshort : encodedLength (shortcutPrefix spaceName SHORTCUT_VERSION ++ name) ≤ 240
  · rw [if_pos hshort]
    refine ⟨outputName, by rw [hsuffix, List.append_assoc], fun _ => rfl, fun hlong => ?_⟩
    exact absurd hshort hlong
  · have hsafe : IdSafe outputName := h.of_isPrefix (hsuffix ▸ List.prefix_append _ _)
    have hdigest : IdSafe ('-' :: (rt.hexdigest (fsText
        (shortcutPrefix spaceName SHORTCUT_VERSION ++ name))).take 10 ++ desktopSuffix) := by
      have hdash : IdSafe ['-'] := idSafe_of_all (by decide)
      exact (hdash.append (digest_safe rt _ 10)).append desktopSuffix_safe
    have hlength : encodedLength ('-' :: (rt.hexdigest (fsText
        (shortcutPrefix spaceName SHORTCUT_VERSION ++ name))).take 10 ++ desktopSuffix) = 19 := by
      have hsuffixLength : desktopSuffix.length = 8 := by decide +kernel
      rw [hdigest.ascii.encodedLength_eq, List.length_append, List.length_cons, List.length_take,
        rt.hexdigest_length, hsuffixLength]
      rfl
    rw [if_neg hshort, hlength, (shortcutPrefix_safe spaceName).ascii.encodedLength_eq]
    have hstem : removeSuffix desktopSuffix name = outputName := by
      rw [hsuffix, removeSuffix_append]
    rw [hstem, hsafe.ascii.encodedTake_eq]
    refine ⟨_, ?_, fun hfit => absurd hfit hshort, fun _ => rfl⟩
    rw [shortcutDigest]
    simp only [List.append_assoc, List.cons_append]

/-- The portal finds the shortcut's name if it makes the same of the file's name. -/
theorem agrees_iff_portalName (h : isSource rt f.2 = true) {tail : Text}
    (hname : shortcut.name = shortcutPrefix spaceName SHORTCUT_VERSION ++ tail ++ desktopSuffix) :
    Agrees spaceName f shortcut ↔ base f ≠ [] ∧ portalName (base f) = tail := by
  rw [Agrees, hname, removeSuffix_append]
  by_cases hmore : base f = []
  · refine iff_of_false (fun heq => ?_) (fun hall => hall.1 hmore)
    have hslash : (screenSaverApplication spaceName (applicationPath f)).head? = some slash :=
      screenSaver_suffix h hmore
    rw [heq, shortcutPrefix_eq] at hslash
    cases hslash
  · rw [screenSaver_applicationPath h hmore]
    constructor
    · intro heq
      exact ⟨hmore, List.append_cancel_left (Naming.utf8_injective heq)⟩
    · rintro ⟨-, heq⟩
      rw [heq]

/-- A name that fits was not cut. -/
theorem kept_of_fits {kept tail : Text} (hkept : kept = whole f ∨ kept = (whole f).take 220)
    (hne : tail ≠ []) (hsafe : IdSafe (kept ++ tail ++ desktopSuffix))
    (hfits : Fits spaceName (kept ++ tail ++ desktopSuffix)) : kept = whole f := by
  rcases hkept with hkept | hkept
  · exact hkept
  · have hprefix := twelve_le_shortcutPrefix spaceName
    have hsuffix : desktopSuffix.length = 8 := by decide +kernel
    have hpos := List.length_pos_of_ne_nil hne
    rw [fits_iff hsafe] at hfits
    simp only [List.length_append, hsuffix] at hfits
    rw [hkept, List.length_take] at hfits
    rw [hkept]
    exact List.take_of_length_le (by omega)

theorem safe_parts {a b : FsName} (h : fsText (sanitize a ++ sanitize b) = a ++ b) :
    fsText (sanitize a) = a ∧ fsText (sanitize b) = b := by
  rw [fsText_append] at h
  exact List.append_inj h (by rw [fsText, List.length_map, length_sanitize])

/-- Where the shortcut's name is short enough, the ids are the same for plain files. -/
theorem plain_iff (h : isSource rt f.2 = true)
    (hsuffix : givenName rt before f = outputName ++ desktopSuffix)
    (hfits : Fits spaceName (givenName rt before f)) :
    (base f ≠ [] ∧ portalName (base f) = outputName) ↔ Plain rt spaceName before f := by
  have hname : sanitize f.2.relative.name.name = sanitize (base f) ++ desktopSuffix := by
    rw [base_eq h, sanitize_append, sanitize_fsText desktopSuffix_safe]
  have hbase : fsText (sanitize f.2.relative.name.name) = f.2.relative.name.name ↔
      fsText (sanitize (base f)) = base f := by
    rw [hname, base_eq h, fsText_append]
    exact List.append_left_inj _
  rcases made_givenName h with ⟨hfirst, hgiven, hsafe, hwhole⟩ | ⟨hwhy, kept, tail, hkept, hne,
    hmark, hmade⟩
  · have houtput : outputName = whole f := List.append_cancel_right (hsuffix.symm.trans hwhole)
    have hparts := safe_parts (by rw [← sanitize_append]; exact hsafe)
    rw [houtput, portalName_of_safe hparts.2, whole, sanitize_append]
    constructor
    · rintro ⟨hmore, heq⟩
      have hlead : lead f = [] := by
        have hlength := congrArg List.length heq
        rw [List.length_append, length_sanitize, length_sanitize] at hlength
        exact List.length_eq_zero_iff.mp (by omega)
      obtain ⟨hsystem, htop⟩ := lead_eq_nil_iff.mp hlead
      exact ⟨hsystem, htop, hbase.mpr hparts.2, hmore, hfirst, hgiven ▸ hfits⟩
    · intro hplain
      rw [lead_eq_nil_iff.mpr ⟨hplain.system, hplain.top⟩]
      exact ⟨hplain.more, rfl⟩
  · have hall : IdSafe (kept ++ tail ++ desktopSuffix) := hmade ▸ givenName_safe
    rw [hmade] at hfits
    have hkept := kept_of_fits hkept hne hall hfits
    have houtput : outputName = kept ++ tail :=
      List.append_cancel_right (hsuffix.symm.trans hmade)
    rw [houtput, hkept, whole, sanitize_append]
    refine iff_of_false (fun hagrees => ?_) (fun hplain => ?_)
    · exact portalName_ne_digested hne hmark (base f) hagrees.2
    · rcases hwhy with htaken | hchanged | hlong
      · exact hplain.first htaken
      · refine hchanged ?_
        rw [whole, lead_eq_nil_iff.mpr ⟨hplain.system, hplain.top⟩]
        exact hbase.mp hplain.safe
      · rw [fits_iff hall, hkept] at hfits
        simp only [List.length_append] at hfits hlong
        have := twelve_le_shortcutPrefix spaceName
        omega

/-- Where it is not, they are the same only for a file that has the digest in its own
name. -/
theorem selfDigested_iff (hsuffix : givenName rt before f = outputName ++ desktopSuffix)
    (hlong : ¬ Fits spaceName (givenName rt before f)) :
    (base f ≠ [] ∧ portalName (base f) =
      outputName.take (240 - (shortcutPrefix spaceName SHORTCUT_VERSION).length - 19) ++
        shortcutDigest rt spaceName (givenName rt before f)) ↔
    SelfDigested rt spaceName before f := by
  have houtput : removeSuffix desktopSuffix (givenName rt before f) = outputName := by
    rw [hsuffix, removeSuffix_append]
  have hdigest : IdSafe (shortcutDigest rt spaceName (givenName rt before f)) := by
    have hdash : IdSafe ['-'] := idSafe_of_all (by decide)
    exact hdash.append (digest_safe rt _ 10)
  rw [SelfDigested, houtput]
  constructor
  · rintro ⟨-, heq⟩
    obtain ⟨kept, hbase, hkept, -⟩ := of_portalName_append (underscore_not_mem_digest rt _) heq
    exact ⟨hlong, kept, hbase, hkept⟩
  · rintro ⟨-, kept, hbase, hkept⟩
    refine ⟨?_, ?_⟩
    · rw [hbase]
      simp [shortcutDigest, fsText]
    · rw [hbase, portalName_append, portalName_fsText hdigest, hkept]

/-- The portal's id is the exported one for the plain files, and for a file that ends in
its own shortcut's digest. -/
theorem screenSaverApplication_agrees_iff
    (hfiles : ((sourceFiles guest).map fun f => (f.1, f.2.relative)).Nodup)
    (h : ExportedAs rt spaceName guest before f shortcut) :
    Agrees spaceName f shortcut ↔
      Plain rt spaceName before f ∨ SelfDigested rt spaceName before f := by
  obtain ⟨⟨after, hsplit⟩, -, sources, hsources, source, hsource, horigin, hfile, parsed, hparse,
    hexport⟩ := h
  have hidentities : ((before ++ f :: after).map identity).Nodup := by
    rw [← hsplit]
    refine List.pairwise_map.mpr ((List.pairwise_map.mp hfiles).imp fun hne heq => ?_)
    exact hne (identity_injective heq)
  rw [desktopSources_eq, hsplit] at hsources
  obtain ⟨found, hfound, hlist⟩ := Outcome.map_eq_ok.mp hsources
  obtain ⟨hkept, hgiven⟩ := outputName_eq hidentities hfound hlist hsource horigin hfile
  have hname : shortcut.name = shortcutName rt spaceName (givenName rt before f) := by
    rw [exported_name hexport, (parse_some hparse).1, hgiven]
  obtain ⟨outputName, hsuffix⟩ : ∃ outputName, givenName rt before f =
      outputName ++ desktopSuffix := suffix_givenName hkept
  have hsafe : IdSafe (givenName rt before f) := givenName_safe
  obtain ⟨tail, hshortcut, hshort, hlong⟩ := shortcutName_eq hsafe hsuffix
  rw [agrees_iff_portalName hkept (hname.trans hshortcut)]
  by_cases hfits : Fits spaceName (givenName rt before f)
  · rw [hshort hfits, plain_iff hkept hsuffix hfits]
    exact ⟨.inl, fun h => h.resolve_right (fun hself => hself.1 hfits)⟩
  · rw [hlong hfits, selfDigested_iff hsuffix hfits]
    refine ⟨.inr, fun h => h.resolve_left (fun hplain => hfits ?_)⟩
    rw [givenName_eq, if_neg hplain.first]
    exact hplain.short

/-- Every shortcut is that of some file. -/
theorem exists_exportedAs {shortcuts : List GeneratedShortcut}
    (h : generate rt spaceName guest = .ok shortcuts) (hmem : shortcut ∈ shortcuts) :
    ∃ before f after, sourceFiles guest = before ++ f :: after ∧
      ExportedAs rt spaceName guest before f shortcut := by
  obtain ⟨sources, hsources, -⟩ := generate_isOk.mp ⟨_, h⟩
  obtain ⟨source, hsource, parsed, hparse, hexport⟩ := (generate_mem h hsources).mp hmem
  have hlist := hsources
  rw [desktopSources_eq] at hlist
  obtain ⟨found, hfound, rfl⟩ := Outcome.map_eq_ok.mp hlist
  rcases (addFiles_mem hfound).2 source hsource with hnone | ⟨hin, -⟩
  · cases hnone
  · obtain ⟨before, after, hsplit⟩ := List.append_of_mem hin
    exact ⟨before, (source.origin, source.file), after, hsplit, ⟨after, hsplit⟩, ⟨_, h, hmem⟩, _,
      hsources, source, hsource, rfl, rfl, parsed, hparse, hexport⟩

/-! ## A file in either directory -/

def entryText (name : Text) : Text :=
  joinLines ["[Desktop Entry]".toList, "Type=Application".toList, "Name=A (box)".toList,
    "Exec=/usr/bin/spaces enter --graphical box -- a".toList, name,
    "DBusActivatable=false".toList]

def plainShortcut : GeneratedShortcut :=
  ⟨"spaces-box-v1-a.desktop".toList, entryText "StartupWMClass=a".toList, none, none⟩

def localShortcut : GeneratedShortcut :=
  ⟨"spaces-box-v1-local-a.desktop".toList, entryText "StartupWMClass=a".toList, none, none⟩

def localGuest : Guest where
  applications
    | .system => none
    | .localOrigin => some [plainFile]
  icon _ := none

/-- The one file of a guest. -/
theorem exportedAs_single {shortcuts : List GeneratedShortcut}
    (h : generate rt spaceName guest = .ok shortcuts) (hmem : shortcut ∈ shortcuts)
    (hone : sourceFiles guest = [f]) : ExportedAs rt spaceName guest [] f shortcut := by
  obtain ⟨before, g, after, hsplit, hexported⟩ := exists_exportedAs h hmem
  rw [hone] at hsplit
  rcases List.append_eq_singleton_iff.mp hsplit.symm with ⟨rfl, hg⟩ | ⟨-, hg⟩
  · cases hg
    exact hexported
  · cases hg

theorem plainShortcut_agrees : Agrees sampleSpace (.system, plainFile) plainShortcut ↔
    Plain sampleRuntime sampleSpace [] (.system, plainFile) ∨
      SelfDigested sampleRuntime sampleSpace [] (.system, plainFile) := by
  have hgenerate : generate sampleRuntime sampleSpace (guestOf [plainFile]) =
      .ok [plainShortcut] := by decide +kernel
  have hfiles : ((sourceFiles (guestOf [plainFile])).map fun f => (f.1, f.2.relative)).Nodup :=
    List.nodup_singleton _
  have hexported : ExportedAs sampleRuntime sampleSpace (guestOf [plainFile]) []
      (.system, plainFile) plainShortcut :=
    exportedAs_single hgenerate (List.mem_singleton_self _) rfl
  exact screenSaverApplication_agrees_iff hfiles hexported

/-- The same file in the local directory is exported under another id. -/
theorem localShortcut_disagrees :
    ExportedAs sampleRuntime sampleSpace localGuest [] (.localOrigin, plainFile) localShortcut ∧
      ¬ Agrees sampleSpace (.localOrigin, plainFile) localShortcut := by
  have hgenerate : generate sampleRuntime sampleSpace localGuest = .ok [localShortcut] := by
    decide +kernel
  refine ⟨exportedAs_single hgenerate (List.mem_singleton_self _) rfl, ?_⟩
  unfold Agrees
  decide +kernel

end Spaces.Shortcuts
