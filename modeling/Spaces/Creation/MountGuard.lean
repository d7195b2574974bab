import Spaces.Library.Escapes
import Spaces.Library.PosixPath

/-!
# The guard before a tree is removed

Before a root file system is removed or moved away, `/proc/self/mountinfo` is read, and a
mount at the path or beneath it makes the removal fail. The kernel ends each entry with a
newline, puts single spaces between the fields, and writes a space, a tab, a newline and
a backslash within a field as an octal escape. The guard cuts the lines and the fields
where Python's `splitlines` and `split` cut them, which is at every white space that
Unicode knows.

Only the fifth word of a line is read, so the guard is right as long as the fields up to
the mount point hold no white space that is not escaped, and no later field holds an end
of a line. A mount point with such a white space is never seen, whatever else is mounted:
no path that the guard reads holds one.
-/

namespace Spaces.Creation.MountGuard

open Spaces.Library

theorem dot_ne_slash : '.' ≠ '/' := by decide

def mountChars : PathChars Char := ⟨'/', '.', dot_ne_slash⟩

abbrev MountPath := PurePath mountChars
abbrev Place := List (Component mountChars)

/-- The absolute path to a place. -/
def absolute (place : Place) : MountPath := ⟨.single, place⟩

/-! ## What the kernel writes -/

/-- An entry of the mount table. -/
structure Entry where
  id : Nat
  parent : Nat
  major : Nat
  minor : Nat
  root : Text
  root_ne_nil : root ≠ []
  point : Place
  options : Text
  optional : List Text
  type : Text
  source : Text
  superOptions : Text

def ownTail : Text := ['1', '3', '4']

def tails : List (Char × Text) :=
  [(' ', ['0', '4', '0']), ('\t', ['0', '1', '1']), ('\n', ['0', '1', '2'])]

def mangle (field : Text) : Text := Escapes.write '\\' ownTail tails field

def Entry.fields (entry : Entry) : List Text :=
  [Nat.toDigits 10 entry.id, Nat.toDigits 10 entry.parent,
    Nat.toDigits 10 entry.major ++ ':' :: Nat.toDigits 10 entry.minor,
    mangle entry.root, mangle (absolute entry.point).str, mangle entry.options]
    ++ entry.optional.map mangle
    ++ [['-'], mangle entry.type, mangle entry.source, mangle entry.superOptions]

def Entry.line (entry : Entry) : Text := [' '].intercalate entry.fields

def mountinfo (table : List Entry) : Text :=
  (table.map Entry.line).flatMap (· ++ ['\n'])

/-! ## The guard -/

/-- `_unescape_mount_path` -/
def unescapeMountPath (value : Text) : Text := Escapes.read '\\' ownTail tails value

/-- The mount point that a line is read as. -/
def mountpoint (line : Text) : Option MountPath :=
  (Text.words line)[4]?.map fun field => .parse mountChars (unescapeMountPath field)

inductive Kind where
  | absent
  | link
  | directory
  | other
  deriving DecidableEq

/-- What is at a path, and what the path resolves to. -/
structure Path where
  kind : Kind
  resolved : Place

inductive Refusal where
  | unreadable
  | mounted (target mountpoint : MountPath)
  | unsafe_rootfs
  | destination
  deriving DecidableEq

/-- `_assert_no_mounts`. There is no text when the table cannot be read. -/
def assertNoMounts (file : Option Text) (path : Path) : Except Refusal Unit :=
  if path.kind = .absent ∨ path.kind = .link then .ok ()
  else
    let target := absolute path.resolved
    match file with
    | none => .error .unreadable
    | some text =>
        match ((Text.splitlines (Text.universalNewlines text)).filterMap mountpoint).find?
            (·.within target) with
        | some mountpoint => .error (.mounted target mountpoint)
        | none => .ok ()

inductive Removal where
  | nothing
  | unlink
  | rmtree
  deriving DecidableEq

/-- `_remove_rootfs`, up to the removal it starts. -/
def removeRootfs (file : Option Text) (path : Path) : Except Refusal Removal := do
  assertNoMounts file path
  return match path.kind with
    | .link | .other => .unlink
    | .directory => .rmtree
    | .absent => .nothing

/-- `_preserve_failed_rootfs`, up to the `os.replace`. -/
def preserveFailedRootfs (file : Option Text) (rootfs : Path) (failedRootfs : Kind) :
    Except Refusal Unit := do
  assertNoMounts file rootfs
  if rootfs.kind ≠ .directory then throw .unsafe_rootfs
  if failedRootfs ≠ .absent then throw .destination

/-! ## The fields are read back -/

theorem tails_distinct : Escapes.Distinct '\\' ownTail tails := by
  constructor <;> decide

theorem unescape_mangle (field : Text) : unescapeMountPath (mangle field) = field :=
  Escapes.read_write tails_distinct field

/-- A white space that the kernel does not escape. -/
def separator (c : Char) : Bool := Text.isSpace c && c ∉ [' ', '\t', '\n']

def Clean (field : Text) : Prop := ∀ c ∈ field, separator c = false

/-- An end of a line that the kernel does not escape. -/
def lineBreak (c : Char) : Bool := Text.isLineBreak c && c ≠ '\n'

def Unbroken (field : Text) : Prop := ∀ c ∈ field, lineBreak c = false

theorem mem_mangle {field : Text} {c : Char} (hc : c ∈ mangle field) :
    Text.isSpace c = false ∨ c ∈ field ∧ c ∉ [' ', '\t', '\n'] := by
  rcases Escapes.mem_write hc with rfl | hown | ⟨other, hother, htail⟩ | hmem
  · exact .inl (by decide)
  · have htail : (ownTail.all fun c => !Text.isSpace c) = true := by decide
    exact .inl (by simpa using List.all_eq_true.mp htail c hown)
  · have htails : (tails.all fun other => other.2.all fun c => !Text.isSpace c) = true := by
      decide
    exact .inl (by
      simpa using List.all_eq_true.mp (List.all_eq_true.mp htails other hother) c htail)
  · exact .inr hmem

theorem isSpace_mangle {field : Text} (h : Clean field) :
    ∀ c ∈ mangle field, Text.isSpace c = false := by
  intro c hc
  rcases mem_mangle hc with hspace | ⟨hmem, hkeys⟩
  · exact hspace
  · have hsep := h c hmem
    rw [separator, Bool.and_eq_false_iff] at hsep
    exact hsep.resolve_right fun hkey => absurd (of_not_not (of_decide_eq_false hkey)) hkeys

theorem isLineBreak_mangle {field : Text} (h : Unbroken field) :
    ∀ c ∈ mangle field, Text.isLineBreak c = false := by
  intro c hc
  rcases mem_mangle hc with hspace | ⟨hmem, hkeys⟩
  · rw [Bool.eq_false_iff]
    intro hbreak
    rw [Text.isSpace_of_isLineBreak hbreak] at hspace
    cases hspace
  · have hline := h c hmem
    rw [lineBreak, Bool.and_eq_false_iff] at hline
    refine hline.resolve_right fun hnewline => hkeys ?_
    rw [of_not_not (of_decide_eq_false hnewline)]
    decide

theorem mangle_ne_nil {field : Text} (h : field ≠ []) : mangle field ≠ [] := by
  intro heq
  apply h
  rw [← unescape_mangle field, heq]
  rfl

/-- The fields behind the mount point. -/
def Entry.later (entry : Entry) : List Text :=
  entry.options :: entry.optional ++ [entry.type, entry.source, entry.superOptions]

/-- The words in front of the mount point are the fields in front of it, and no line ends
behind it. -/
structure Entry.Legible (entry : Entry) : Prop where
  root : Clean entry.root
  later : ∀ field ∈ entry.later, Unbroken field

structure Entry.Plain (entry : Entry) : Prop extends entry.Legible where
  point : Clean (absolute entry.point).str

theorem isSpace_device (entry : Entry) :
    ∀ c ∈ Nat.toDigits 10 entry.major ++ ':' :: Nat.toDigits 10 entry.minor,
      Text.isSpace c = false := by
  intro c hc
  rcases List.mem_append.mp hc with hc | hc
  · exact Text.isSpace_toDigits _ c hc
  · rcases List.mem_cons.mp hc with rfl | hc
    · decide
    · exact Text.isSpace_toDigits _ c hc

/-- The fields behind the mount point, as they are written. -/
def Entry.rest (entry : Entry) : Text :=
  [' '].intercalate (mangle entry.options :: entry.optional.map mangle
    ++ [['-'], mangle entry.type, mangle entry.source, mangle entry.superOptions])

theorem Entry.line_eq (entry : Entry) :
    entry.line = Nat.toDigits 10 entry.id ++ ' ' :: (Nat.toDigits 10 entry.parent ++ ' ' ::
      ((Nat.toDigits 10 entry.major ++ ':' :: Nat.toDigits 10 entry.minor) ++ ' ' ::
        (mangle entry.root ++ ' ' ::
          (mangle (absolute entry.point).str ++ ' ' :: entry.rest)))) := by
  simp only [Entry.line, Entry.fields, Entry.rest, List.cons_append, List.nil_append,
    List.intercalate_cons_cons, List.append_assoc]

/-- The fifth word of a line is the mount point, whatever follows it. -/
theorem mountpoint_line {entry : Entry} (h : entry.Plain) :
    mountpoint entry.line = some (absolute entry.point) := by
  have hspace : Text.isSpace ' ' = true := by decide
  have hpoint : mangle (absolute entry.point).str ≠ [] :=
    mangle_ne_nil (by simp [absolute, PurePath.str])
  have hwords : (Text.words entry.line)[4]? = some (mangle (absolute entry.point).str) := by
    rw [entry.line_eq, Text.words_cons hspace Nat.toDigits_ne_nil (Text.isSpace_toDigits _),
      Text.words_cons hspace Nat.toDigits_ne_nil (Text.isSpace_toDigits _),
      Text.words_cons hspace (List.append_ne_nil_of_left_ne_nil Nat.toDigits_ne_nil _)
        (isSpace_device entry),
      Text.words_cons hspace (mangle_ne_nil entry.root_ne_nil) (isSpace_mangle h.root),
      Text.words_cons hspace hpoint (isSpace_mangle h.point)]
    rfl
  rw [mountpoint, hwords, Option.map_some, unescape_mangle, PurePath.parse_str rfl]

theorem isLineBreak_of_isSpace {c : Char} (h : Text.isSpace c = false) :
    Text.isLineBreak c = false := by
  rw [Bool.eq_false_iff]
  intro hbreak
  rw [Text.isSpace_of_isLineBreak hbreak] at h
  cases h

theorem Entry.Plain.isLineBreak {entry : Entry} (h : entry.Plain) :
    ∀ c ∈ entry.line, Text.isLineBreak c = false := by
  intro c hc
  have hnumber (n : Nat) : ∀ c ∈ Nat.toDigits 10 n, Text.isLineBreak c = false :=
    fun c hc => isLineBreak_of_isSpace (Text.isSpace_toDigits n c hc)
  have hlater : ∀ field ∈ entry.later, ∀ c ∈ mangle field, Text.isLineBreak c = false :=
    fun field hfield => isLineBreak_mangle (h.later field hfield)
  simp only [Entry.later, List.mem_append, List.mem_cons, List.not_mem_nil, or_false] at hlater
  rcases Text.mem_of_mem_intercalate hc with hc | ⟨field, hfield, hc⟩
  · obtain rfl := List.mem_singleton.mp hc
    decide
  simp only [Entry.fields, List.mem_append, List.mem_cons, List.not_mem_nil, or_false,
    List.mem_map] at hfield
  rcases hfield with ((rfl | rfl | rfl | rfl | rfl | rfl) | ⟨text, htext, rfl⟩) |
    (rfl | rfl | rfl | rfl)
  · exact hnumber _ c hc
  · exact hnumber _ c hc
  · exact isLineBreak_of_isSpace (isSpace_device entry c hc)
  · exact isLineBreak_of_isSpace (isSpace_mangle h.root c hc)
  · exact isLineBreak_of_isSpace (isSpace_mangle h.point c hc)
  · exact hlater _ (.inl (.inl rfl)) c hc
  · exact hlater _ (.inl (.inr htext)) c hc
  · obtain rfl := List.mem_singleton.mp hc
    decide
  · exact hlater _ (.inr (.inl rfl)) c hc
  · exact hlater _ (.inr (.inr (.inl rfl))) c hc
  · exact hlater _ (.inr (.inr (.inr rfl))) c hc

/-- What the guard reads from a plain table is its mount points. -/
theorem mountpoints_mountinfo {table : List Entry} (h : ∀ entry ∈ table, entry.Plain) :
    (Text.splitlines (Text.universalNewlines (mountinfo table))).filterMap mountpoint
      = table.map fun entry => absolute entry.point := by
  have hline : ∀ entry ∈ table, ∀ c ∈ entry.line, Text.isLineBreak c = false :=
    fun entry hentry => (h entry hentry).isLineBreak
  have hreturn : '\r' ∉ mountinfo table := by
    intro hmem
    obtain ⟨line, hmem, hc⟩ := List.mem_flatMap.mp hmem
    obtain ⟨entry, hentry, rfl⟩ := List.mem_map.mp hmem
    rcases List.mem_append.mp hc with hc | hc
    · cases hline entry hentry '\r' hc
    · cases List.mem_singleton.mp hc
  have hlines : ∀ line ∈ table.map Entry.line, ∀ c ∈ line, Text.isLineBreak c = false := by
    intro line hmem
    obtain ⟨entry, hentry, rfl⟩ := List.mem_map.mp hmem
    exact hline entry hentry
  rw [Text.universalNewlines_eq hreturn, mountinfo, Text.splitlines_terminated hlines,
    List.filterMap_map]
  clear hline hreturn hlines
  induction table with
  | nil => rfl
  | cons entry table ih =>
      rw [List.filterMap_cons, Function.comp_apply, mountpoint_line (h entry List.mem_cons_self)]
      dsimp only
      rw [ih fun e he => h e (List.mem_cons_of_mem entry he), List.map_cons]

/-! ## What the guard sees -/

/-- Something is mounted at the place or beneath it. -/
def Covered (table : List Entry) (target : Place) : Prop :=
  ∃ entry ∈ table, target <+: entry.point

/-- The guard before a directory is removed or moved away does what it is for. -/
structure Guarded (table : List Entry) (target : Place) : Prop where
  raises : (∃ refusal, assertNoMounts (some (mountinfo table)) ⟨.directory, target⟩
    = .error refusal) ↔ Covered table target
  kept : Covered table target →
    removeRootfs (some (mountinfo table)) ⟨.directory, target⟩ ≠ .ok .rmtree
  left : Covered table target → ∀ failedRootfs,
    preserveFailedRootfs (some (mountinfo table)) ⟨.directory, target⟩ failedRootfs ≠ .ok ()

theorem assertNoMounts_error (text : Text) (target : Place) :
    (∃ refusal, assertNoMounts (some text) ⟨.directory, target⟩ = .error refusal) ↔
      ∃ path ∈ (Text.splitlines (Text.universalNewlines text)).filterMap mountpoint,
        path.within (absolute target) = true := by
  unfold assertNoMounts
  rw [if_neg (by simp)]
  dsimp only
  cases hfind : List.find? (·.within (absolute target))
      ((Text.splitlines (Text.universalNewlines text)).filterMap mountpoint) with
  | none =>
      rw [List.find?_eq_none] at hfind
      simp only [reduceCtorEq, exists_false, false_iff, not_exists, not_and]
      exact fun path hpath => hfind path hpath
  | some path =>
      simp only [Except.error.injEq, exists_eq', true_iff]
      exact ⟨path, List.mem_of_find?_eq_some hfind, by simpa using List.find?_some hfind⟩

/-- The removal starts only where the guard was silent. -/
theorem removeRootfs_rmtree {file : Option Text} {path : Path}
    (h : removeRootfs file path = .ok .rmtree) : assertNoMounts file path = .ok () := by
  unfold removeRootfs at h
  cases hassert : assertNoMounts file path with
  | error refusal =>
      rw [hassert] at h
      cases h
  | ok => rfl

theorem preserveFailedRootfs_ok {file : Option Text} {path : Path} {failedRootfs : Kind}
    (h : preserveFailedRootfs file path failedRootfs = .ok ()) :
    assertNoMounts file path = .ok () := by
  unfold preserveFailedRootfs at h
  cases hassert : assertNoMounts file path with
  | error refusal =>
      rw [hassert] at h
      cases h
  | ok => rfl

theorem guarded_iff {table : List Entry} {target : Place} :
    Guarded table target ↔
      ((∃ refusal, assertNoMounts (some (mountinfo table)) ⟨.directory, target⟩
        = .error refusal) ↔ Covered table target) := by
  refine ⟨Guarded.raises, fun hraises => ?_⟩
  have hfound (hcovered : Covered table target) :
      assertNoMounts (some (mountinfo table)) ⟨.directory, target⟩ ≠ .ok () := by
    obtain ⟨refusal, herror⟩ := hraises.mpr hcovered
    rw [herror]
    intro hok
    cases hok
  exact ⟨hraises, fun hcovered hremoved => hfound hcovered (removeRootfs_rmtree hremoved),
    fun hcovered _ hmoved => hfound hcovered (preserveFailedRootfs_ok hmoved)⟩

theorem guarded_of_plain {table : List Entry} (h : ∀ entry ∈ table, entry.Plain)
    (target : Place) : Guarded table target := by
  rw [guarded_iff, assertNoMounts_error, mountpoints_mountinfo h]
  constructor
  · rintro ⟨path, hpath, hwithin⟩
    obtain ⟨entry, hentry, rfl⟩ := List.mem_map.mp hpath
    exact ⟨entry, hentry, (PurePath.within_iff.mp hwithin).2⟩
  · rintro ⟨entry, hentry, hpre⟩
    exact ⟨absolute entry.point, List.mem_map_of_mem hentry,
      PurePath.within_iff.mpr ⟨rfl, hpre⟩⟩

/-! ## What it does not see -/

/-- No path that the guard reads holds a separator. -/
theorem separator_of_mountpoint {line : Text} {path : MountPath}
    (h : mountpoint line = some path) {part : Component mountChars} (hpart : part ∈ path.parts)
    {c : Char} (hc : c ∈ part.name) : separator c = false := by
  obtain ⟨field, hfield, rfl⟩ := Option.map_eq_some_iff.mp h
  rw [PurePath.parse_parts] at hpart
  rcases Escapes.mem_read (mem_components hpart hc) with hc | rfl | hc
  · rw [separator, Text.isSpace_of_mem_words (List.mem_of_getElem? hfield) hc]
    rfl
  · decide
  · have hkeys : ((tails.map Prod.fst).all fun c => !separator c) = true := by decide
    simpa using List.all_eq_true.mp hkeys c hc

theorem unseen {text : Text} {target : Place} {part : Component mountChars}
    (hpart : part ∈ target) {c : Char} (hc : c ∈ part.name) (hsep : separator c = true) :
    assertNoMounts (some text) ⟨.directory, target⟩ = .ok () := by
  cases hassert : assertNoMounts (some text) ⟨.directory, target⟩ with
  | ok => rfl
  | error refusal =>
      obtain ⟨path, hpath, hwithin⟩ :=
        (assertNoMounts_error text target).mp ⟨refusal, hassert⟩
      obtain ⟨line, -, hline⟩ := List.mem_filterMap.mp hpath
      have hmem := (PurePath.within_iff.mp hwithin).2.subset hpart
      rw [separator_of_mountpoint hline hmem hc] at hsep
      cases hsep

theorem clean_of_guarded {table : List Entry} (h : ∀ target, Guarded table target)
    {entry : Entry} (hentry : entry ∈ table) : Clean (absolute entry.point).str := by
  intro c hc
  rw [Bool.eq_false_iff]
  intro hsep
  have hpart : ∃ part ∈ entry.point, c ∈ part.name := by
    rcases List.mem_cons.mp hc with rfl | hc
    · cases hsep
    · rcases mem_joined hc with rfl | hpart
      · cases hsep
      · exact hpart
  obtain ⟨part, hpart, hc⟩ := hpart
  obtain ⟨refusal, herror⟩ :=
    (h entry.point).raises.mpr ⟨entry, hentry, List.prefix_rfl⟩
  rw [unseen hpart hc hsep] at herror
  cases herror

/-! ## Which names the guard is right about -/

/-- A mount whose point is named by one character. -/
def mountAt (c : Char) (hslash : c ≠ '/') (hdot : c ≠ '.') : Entry where
  id := 40
  parent := 1
  major := 8
  minor := 1
  root := ['/']
  root_ne_nil := List.cons_ne_nil _ _
  point := [⟨[c], List.cons_ne_nil _ _, fun heq => hdot (List.singleton_inj.mp heq),
    fun hmem => hslash (List.mem_singleton.mp hmem).symm⟩]
  options := ['r', 'w']
  optional := []
  type := ['e', 'x', 't', '4']
  source := ['/', 'd', 'e', 'v', '/', 's', 'd', 'a']
  superOptions := ['r', 'w']

/-- Graphic ASCII. -/
def graphic (c : Char) : Bool := 33 ≤ c.toNat && c.toNat ≤ 126

theorem separator_of_graphic {c : Char} (h : graphic c = true) : separator c = false := by
  rw [separator, Bool.and_eq_false_iff]
  unfold graphic at h
  unfold Text.isSpace
  grind

/-- A mount whose options hold one more character. -/
def mountWith (c : Char) : Entry where
  id := 40
  parent := 1
  major := 8
  minor := 1
  root := ['/']
  root_ne_nil := List.cons_ne_nil _ _
  point := []
  options := ['r', c, 'w']
  optional := [['s']]
  type := ['e', 'x', 't', '4']
  source := ['/', 'd']
  superOptions := ['r', 'w']

/-- Where the rest of a line is a line of its own, its fifth word is the source. -/
def misread : Place := [⟨['d'], List.cons_ne_nil _ _, by decide, by decide⟩]

theorem lineBreak_cases {c : Char} (h : lineBreak c = true) :
    c ∈ [11, 12, 13, 28, 29, 30, 0x85, 0x2028, 0x2029].map Char.ofNat := by
  have hnewline : c.toNat ≠ 10 := by
    intro heq
    rw [← Char.ofNat_toNat c, heq] at h
    cases h
  rw [← Char.ofNat_toNat c]
  apply List.mem_map_of_mem
  rw [lineBreak, Bool.and_eq_true] at h
  have hbreak := h.1
  unfold Text.isLineBreak at hbreak
  simp only [Bool.or_eq_true, Bool.and_eq_true, decide_eq_true_eq, beq_iff_eq] at hbreak
  simp only [List.mem_cons, List.not_mem_nil, or_false]
  omega

theorem separator_of_lineBreak {c : Char} (h : lineBreak c = true) : separator c = true := by
  have hall : ([11, 12, 13, 28, 29, 30, 0x85, 0x2028, 0x2029].map Char.ofNat).all separator =
      true := by decide
  exact List.all_eq_true.mp hall c (lineBreak_cases h)

/-- An end of a line behind the mount point makes the guard see what is not mounted. -/
theorem misread_refused {c : Char} (h : lineBreak c = true) :
    ∃ refusal, assertNoMounts (some (mountinfo [mountWith c])) ⟨.directory, misread⟩
      = .error refusal := by
  have hall : ([11, 12, 13, 28, 29, 30, 0x85, 0x2028, 0x2029].map Char.ofNat).all (fun c =>
      !(assertNoMounts (some (mountinfo [mountWith c])) ⟨.directory, misread⟩).toBool) = true := by
    decide
  have hrefused := List.all_eq_true.mp hall c (lineBreak_cases h)
  cases hassert : assertNoMounts (some (mountinfo [mountWith c])) ⟨.directory, misread⟩ with
  | ok =>
      rw [hassert] at hrefused
      cases hrefused
  | error refusal => exact ⟨refusal, rfl⟩

/-- The fields of an entry are written with some characters up to the mount point, with
some behind it, and with graphic ASCII. -/
structure Entry.Written (front behind : Char → Prop) (entry : Entry) : Prop where
  root : ∀ c ∈ entry.root, front c ∨ graphic c = true
  point : ∀ c ∈ (absolute entry.point).str, front c ∨ graphic c = true
  later : ∀ field ∈ entry.later, ∀ c ∈ field, behind c ∨ graphic c = true

theorem Entry.Written.plain {front behind : Char → Prop} {entry : Entry}
    (h : entry.Written front behind) (hfront : ∀ c, front c → separator c = false)
    (hbehind : ∀ c, behind c → lineBreak c = false) : entry.Plain where
  root := fun c hc => (h.root c hc).elim (hfront c) separator_of_graphic
  point := fun c hc => (h.point c hc).elim (hfront c) separator_of_graphic
  later := fun field hfield c hc =>
    (h.later field hfield c hc).elim (hbehind c) fun hgraphic =>
      Bool.eq_false_iff.mpr fun hbreak =>
        Bool.false_ne_true ((separator_of_graphic hgraphic).symm.trans
          (separator_of_lineBreak hbreak))

theorem mountAt_written {front behind : Char → Prop} {c : Char} (hslash : c ≠ '/')
    (hdot : c ≠ '.') (hfront : front c) : (mountAt c hslash hdot).Written front behind where
  root d hd := by
    obtain rfl := List.mem_singleton.mp hd
    exact .inr (by decide)
  point d hd := by
    rcases List.mem_cons.mp hd with rfl | hd
    · exact .inr (by decide)
    · obtain rfl := List.mem_singleton.mp hd
      exact .inl hfront
  later field hfield d hd := by
    have hgraphic : ((mountAt c hslash hdot).later.all (·.all graphic)) = true := by rfl
    exact .inr (List.all_eq_true.mp (List.all_eq_true.mp hgraphic field hfield) d hd)

theorem mountWith_written {front behind : Char → Prop} {c : Char} (hbehind : behind c) :
    (mountWith c).Written front behind where
  root d hd := by
    obtain rfl := List.mem_singleton.mp hd
    exact .inr (by decide)
  point d hd := by
    obtain rfl := List.mem_singleton.mp hd
    exact .inr (by decide)
  later field hfield d hd := by
    have hall : ∀ field ∈ (mountWith c).later, ∀ d ∈ field, d = c ∨ graphic d = true := by
      simp [Entry.later, mountWith, graphic]
    rcases hall field hfield d hd with rfl | hgraphic
    · exact .inl hbehind
    · exact .inr hgraphic

/-- In a table whose fields up to the mount point, but for the mount point, are clean, and
in which no line ends in a later field, the guard is right about every path exactly if the
mount points are clean. And the characters from which every table can be written without
misleading it are, up to the mount point, those that are no separators, and behind it
those that end no line. -/
theorem guarded_iff_clean (table : List Entry) (front behind : Char → Prop) :
    ((∀ entry ∈ table, entry.Legible) →
      ((∀ target, Guarded table target) ↔
        ∀ entry ∈ table, Clean (absolute entry.point).str)) ∧
    ((∀ other : List Entry, (∀ entry ∈ other, entry.Written front behind) →
        ∀ target, Guarded other target) ↔
      (∀ c, front c → separator c = false) ∧ ∀ c, behind c → lineBreak c = false) := by
  refine ⟨fun hlegible => ⟨fun h entry hentry => clean_of_guarded h hentry, fun h =>
    guarded_of_plain fun entry hentry => ⟨hlegible entry hentry, h entry hentry⟩⟩, ?_⟩
  constructor
  · intro h
    refine ⟨fun c hfront => ?_, fun c hbehind => ?_⟩
    · rw [Bool.eq_false_iff]
      intro hsep
      have hslash : c ≠ '/' := by
        rintro rfl
        cases hsep
      have hdot : c ≠ '.' := by
        rintro rfl
        cases hsep
      have hguarded := h [mountAt c hslash hdot]
        (List.forall_mem_singleton.mpr (mountAt_written hslash hdot hfront))
      have hclean := clean_of_guarded hguarded List.mem_cons_self
      have hc := hclean c (List.mem_cons_of_mem _ List.mem_cons_self)
      rw [hsep] at hc
      cases hc
    · rw [Bool.eq_false_iff]
      intro hbreak
      have hguarded := h [mountWith c]
        (List.forall_mem_singleton.mpr (mountWith_written hbehind)) misread
      obtain ⟨entry, hentry, hprefix⟩ := hguarded.raises.mp (misread_refused hbreak)
      obtain rfl := List.mem_singleton.mp hentry
      cases List.prefix_nil.mp hprefix
  · rintro ⟨hfront, hbehind⟩ other hwritten
    exact guarded_of_plain fun entry hentry => (hwritten entry hentry).plain hfront hbehind

def noBreakSpace : Entry := mountAt (Char.ofNat 0xa0) (by decide) (by decide)

/-- What is mounted on a directory that is named by a no-break space is removed. -/
theorem noBreakSpace_removed :
    Covered [noBreakSpace] noBreakSpace.point ∧
      removeRootfs (some (mountinfo [noBreakSpace])) ⟨.directory, noBreakSpace.point⟩
        = .ok .rmtree := by
  have hunseen : assertNoMounts (some (mountinfo [noBreakSpace]))
      ⟨.directory, noBreakSpace.point⟩ = .ok () :=
    unseen List.mem_cons_self (c := (Char.ofNat 0xa0)) List.mem_cons_self (by decide)
  refine ⟨⟨noBreakSpace, List.mem_singleton_self _, List.prefix_rfl⟩, ?_⟩
  rw [removeRootfs, hunseen]
  rfl

end Spaces.Creation.MountGuard
