import Spaces.Library.Text

/-!
# The names of exported shortcuts

The exporter gives each desktop file of a space one name on the host: the space,
a version, and what is left of the path of the file once the characters that a
host menu may not see are gone. Long names end in a digest. `shortcutVersion`
reads a name back, to tell whose file it is.

File names are what Python makes of them: characters, and the bytes that are not
UTF-8.
-/

namespace Spaces.Shortcuts

open Spaces.Library Spaces.Library.Text

/-- `os.fsdecode` keeps a byte that is not UTF-8 as a lone surrogate. -/
inductive FsChar where
  | char (c : Char)
  | surrogate (byte : UInt8)
  deriving DecidableEq

abbrev FsName := List FsChar

def fsText (text : Text) : FsName := text.map .char

/-- `str.encode("utf-8")` takes no surrogates. -/
def encode (name : FsName) : Option Text :=
  name.mapM fun
    | .char c => some c
    | .surrogate _ => none

theorem fsText_of_encode {name : FsName} {text : Text} (h : encode name = some text) :
    fsText text = name := by
  unfold encode at h
  induction name generalizing text with
  | nil =>
      cases h
      rfl
  | cons c name ih =>
      rw [List.mapM_cons] at h
      obtain ⟨d, hd, h⟩ := Option.bind_eq_some_iff.mp h
      obtain ⟨rest, hrest, h⟩ := Option.bind_eq_some_iff.mp h
      cases h
      cases c with
      | char c =>
          cases hd
          exact congrArg (FsChar.char d :: ·) (ih hrest)
      | surrogate byte => cases hd

@[simp]
theorem encode_fsText (text : Text) : encode (fsText text) = some text := by
  unfold encode fsText
  induction text with
  | nil => rfl
  | cons c text ih =>
      rw [List.map_cons, List.mapM_cons, ih]
      rfl

def isHexDigit (c : Char) : Bool := "0123456789abcdef".toList.contains c

/-- What the exporter calls that is not its own. -/
structure Runtime where
  unicode : Unicode
  /-- `hashlib.sha256(os.fsencode(name)).hexdigest()` -/
  hexdigest : FsName → Text
  hexdigest_hex : ∀ name, (hexdigest name).all isHexDigit = true
  hexdigest_length : ∀ name, (hexdigest name).length = 64

inductive PyError where
  | unicodeEncodeError
  | valueError
  | osError
  deriving DecidableEq

/-! ## Spaces -/

def isSpaceNameChar (c : Char) : Bool := c.isLower || c.isDigit || c == '_' || c == '-'

/-- `SPACE_NAME_PATTERN`. -/
def isSpaceName : Text → Bool
  | [] => false
  | c :: rest =>
      (c.isLower || c.isDigit) && rest.all isSpaceNameChar && decide (rest.length ≤ 62)

structure SpaceName where
  text : Text
  valid : isSpaceName text = true
  deriving DecidableEq

theorem SpaceName.isSpaceNameChar (space : SpaceName) :
    ∀ c ∈ space.text, isSpaceNameChar c = true := by
  obtain ⟨text, valid⟩ := space
  cases text with
  | nil => exact absurd valid (by decide)
  | cons first rest =>
      simp only [isSpaceName, Bool.and_eq_true, List.all_eq_true] at valid
      intro c hc
      rcases List.mem_cons.mp hc with rfl | hc
      · unfold Shortcuts.isSpaceNameChar
        rw [valid.1.1]
        rfl
      · exact valid.1.2 c hc

/-! ## Guest desktop files -/

structure FileName where
  name : FsName
  noSlash : .char '/' ∉ name
  noNul : .char '\x00' ∉ name

/-- A path below one of the directories that are read. -/
structure Relative where
  parents : List FileName
  name : FileName

namespace Relative

def str (relative : Relative) : FsName :=
  relative.parents.flatMap (fun parent => parent.name ++ [.char '/']) ++ relative.name.name

/-- `PurePath.stem`: all but the last suffix, if that leaves something. -/
def stem (relative : Relative) : FsName :=
  let name := relative.name.name
  let suffix := name.reverse.takeWhile (· ≠ .char '.')
  let dot := name.length - suffix.length - 1
  if 0 < dot ∧ dot + 1 < name.length then name.take dot else name

theorem stem_isPrefix (relative : Relative) : relative.stem <+: relative.name.name := by
  unfold stem
  simp only
  split
  · exact List.take_prefix _ _
  · exact List.prefix_refl _

end Relative

inductive Origin where
  | system
  | localOrigin
  deriving DecidableEq

namespace Origin

def name : Origin → Text
  | system => "system".toList
  | localOrigin => "local".toList

/-- What the third column of `SOURCE_DIRECTORIES` puts before an identifier. -/
def idPrefix : Origin → Text
  | system => []
  | localOrigin => "local-".toList

end Origin

def BLACKLIST : List Text :=
  ["assistant", "avahidiscover", "bssh", "bvnc", "designer", "linguist", "lstopo",
    "qdbusviewer", "qv4l2", "qvidcap", "systemsettings", "kdesystemsettings"].map String.toList

def desktopSuffix : Text := ".desktop".toList
def pngSuffix : Text := ".png".toList

def normalizedId (u : Unicode) (value : FsName) : Text :=
  (value.flatMap fun
    | .char c => u.casefold c
    | .surrogate _ => []).filter u.isalnum

/-- `str(relative).replace("/", "-")` -/
def Relative.dashed (relative : Relative) : FsName :=
  relative.str.map fun c => if c = .char '/' then .char '-' else c

def isBlacklisted (u : Unicode) (relative : Relative) : Bool :=
  BLACKLIST.contains (normalizedId u relative.stem)
    || BLACKLIST.contains (normalizedId u (removeSuffix (fsText desktopSuffix) relative.dashed))

/-- What `DESKTOP_ID_UNSAFE_PATTERN` leaves alone. -/
def isIdSafe (c : Char) : Bool :=
  c.isAlphanum || c == '.' || c == '_' || c == '-'

def sanitize (raw : FsName) : Text :=
  raw.map fun
    | .char c => if isIdSafe c then c else '_'
    | .surrogate _ => '_'

def outputId (rt : Runtime) (relative : Relative) (idPrefix : Text) : Text :=
  let raw := fsText idPrefix ++ relative.dashed
  let sanitized := sanitize raw
  if fsText sanitized ≠ raw ∨ encodedLength sanitized > 240 then
    let digest := (rt.hexdigest raw).take 10
    let stem := encodedTake 220 (removeSuffix desktopSuffix sanitized)
    stem ++ '-' :: digest ++ desktopSuffix
  else sanitized

/-! ## Host names -/

def SHORTCUT_VERSION : Nat := 1

def shortcutPrefix (spaceName : SpaceName) (version : Nat) : Text :=
  "spaces-".toList ++ spaceName.text ++ "-v".toList ++ Nat.toDigits 10 version ++ ['-']

def shortcutName (rt : Runtime) (spaceName : SpaceName) (sourceName : Text) : Text :=
  let start := shortcutPrefix spaceName SHORTCUT_VERSION
  let raw := start ++ sourceName
  if encodedLength raw ≤ 240 then raw
  else
    let digest := (rt.hexdigest (fsText raw)).take 10
    let suffix := '-' :: digest ++ desktopSuffix
    let budget := 240 - encodedLength start - encodedLength suffix
    let stem := encodedTake budget (removeSuffix desktopSuffix sourceName)
    start ++ stem ++ suffix

/-- `f"{shortcut_name.removesuffix('.desktop')}.png"` -/
def iconName (shortcut : Text) : Text := removeSuffix desktopSuffix shortcut ++ pngSuffix

/-- `str.isdigit`. -/
def isdigit (u : Unicode) (name : FsName) : Bool :=
  name ≠ [] && name.all fun
    | .char c => u.isdigit c
    | .surrogate _ => false

/-- `int`, of digits. -/
def int (u : Unicode) (digits : FsName) : Except PyError Nat :=
  match digits.mapM fun
    | .char c => u.decimal c
    | .surrogate _ => none with
  | some values => .ok (values.foldl (fun n d => 10 * n + d) 0)
  | none => .error .valueError

def shortcutVersion (u : Unicode) (name : FsName) (spaceName : SpaceName) (suffix : Text) :
    Except PyError (Option Nat) :=
  let start := fsText ("spaces-".toList ++ spaceName.text ++ "-v".toList)
  if ¬ start <+: name ∨ ¬ fsText suffix <:+ name then .ok none
  else
    match cut (.char '-') (name.drop start.length) with
    | none => .ok none
    | some (version, remainder) =>
        if !isdigit u version || remainder = [] then .ok none
        else (int u version).map some

/-! ## What is left of an identifier -/

def IdSafe (text : Text) : Prop := ∀ c ∈ text, isIdSafe c = true

theorem idSafe_of_all {text : Text} (h : text.all isIdSafe = true) : IdSafe text :=
  List.all_eq_true.mp h

theorem IdSafe.append {s t : Text} (hs : IdSafe s) (ht : IdSafe t) : IdSafe (s ++ t) :=
  fun c hc => (List.mem_append.mp hc).elim (hs c) (ht c)

theorem IdSafe.of_isPrefix {s t : Text} (h : s <+: t) (ht : IdSafe t) : IdSafe s :=
  fun c hc => ht c (h.sublist.mem hc)

theorem sanitize_safe (raw : FsName) : IdSafe (sanitize raw) := by
  intro c hc
  obtain ⟨d, _, rfl⟩ := List.mem_map.mp hc
  cases d with
  | char d =>
      show isIdSafe (if isIdSafe d then d else '_') = true
      split
      · next h => exact h
      · rfl
  | surrogate byte => rfl

theorem digest_safe (rt : Runtime) (name : FsName) (n : Nat) :
    IdSafe ((rt.hexdigest name).take n) := by
  have hhex : IdSafe "0123456789abcdef".toList := idSafe_of_all (by decide)
  intro c hc
  have hdigit := List.all_eq_true.mp (rt.hexdigest_hex name) c (List.mem_of_mem_take hc)
  exact hhex c (List.contains_iff_mem.mp hdigit)

theorem desktopSuffix_safe : IdSafe desktopSuffix := idSafe_of_all (by decide)

/-- A stem, a digest, and the suffix: every shortened name is of this form. -/
theorem digested_safe {stem : Text} (h : IdSafe stem) (rt : Runtime) (name : FsName) :
    IdSafe (stem ++ '-' :: (rt.hexdigest name).take 10 ++ desktopSuffix) := by
  have hdash : IdSafe ['-'] := idSafe_of_all (by decide)
  exact (h.append (hdash.append (digest_safe rt name 10))).append desktopSuffix_safe

theorem outputId_safe (rt : Runtime) (relative : Relative) (idPrefix : Text) :
    IdSafe (outputId rt relative idPrefix) := by
  unfold outputId
  simp only
  split
  · refine digested_safe ?_ rt _
    exact ((sanitize_safe _).of_isPrefix (removeSuffix_isPrefix _ _)).of_isPrefix
      (encodedTake_isPrefix 220 _)
  · exact sanitize_safe _

theorem SpaceName.safe (space : SpaceName) : IdSafe space.text := by
  intro c hc
  have hname : (c.isLower || c.isDigit || c == '_' || c == '-') = true :=
    space.isSpaceNameChar c hc
  show (c.isUpper || c.isLower || c.isDigit || c == '.' || c == '_' || c == '-') = true
  simp only [Bool.or_eq_true] at hname ⊢
  tauto

theorem shortcutPrefix_safe (space : SpaceName) :
    IdSafe (shortcutPrefix space SHORTCUT_VERSION) := by
  have hstart : IdSafe "spaces-".toList := idSafe_of_all (by decide)
  have hrest : IdSafe ("-v".toList ++ Nat.toDigits 10 SHORTCUT_VERSION ++ ['-']) :=
    idSafe_of_all (by decide)
  have hall := (hstart.append space.safe).append hrest
  rwa [← List.append_assoc, ← List.append_assoc] at hall

theorem shortcutName_safe (rt : Runtime) (space : SpaceName) {source : Text}
    (h : IdSafe source) : IdSafe (shortcutName rt space source) := by
  unfold shortcutName
  simp only
  split
  · exact (shortcutPrefix_safe space).append h
  · rw [← List.append_assoc]
    refine digested_safe ((shortcutPrefix_safe space).append ?_) rt _
    exact (h.of_isPrefix (removeSuffix_isPrefix _ _)).of_isPrefix (encodedTake_isPrefix _ _)

/-! ## A runtime that knows ASCII -/

def asciiUnicode : Unicode where
  isalnum := Char.isAlphanum
  isdigit := Char.isDigit
  decimal c := if c.isDigit then some (c.toNat - 48) else none
  casefold c := [c.toLower]
  isdigit_ascii _ _ := rfl
  decimal_ascii _ h := if_pos h

/-- With the digest of the one name that has one. -/
def asciiRuntime (hexdigest : Text) (hhex : hexdigest.all isHexDigit = true)
    (hlength : hexdigest.length = 64) : Runtime where
  unicode := asciiUnicode
  hexdigest _ := hexdigest
  hexdigest_hex _ := hhex
  hexdigest_length _ := hlength

def sampleSpace : SpaceName := ⟨"box".toList, rfl⟩

end Spaces.Shortcuts
