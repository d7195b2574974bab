import Spaces.Binds.Paths
import Spaces.Library.DoubleQuotes

/-!
# The downloads folder

The user's directories are in a file of shell assignments, and the one for downloads
is read as data: the last of them, if it is one double-quoted string. What comes out
is a folder right in the home, or nothing.

The path of the home and the contents of the file are inputs. A file that cannot be
read, or is not UTF-8, has none.
-/

namespace Spaces.Permissions.Downloads

open Spaces.Library Text DoubleQuotes Spaces.Shortcuts Spaces.Binds

/-! ## Assignments -/

/-- What follows the sign of an assignment, `^\s*XDG_DOWNLOAD_DIR\s*=`. -/
def afterSign (line : Text) : Option Text :=
  let start := lstrip line
  if "XDG_DOWNLOAD_DIR".toList <+: start then
    match lstrip (start.drop 16) with
    | '=' :: after => some after
    | _ => none
  else none

/-- A line may go on with a comment, `\s*(?:#.*)?`. -/
def endsLine (rest : Text) : Bool :=
  match lstrip rest with
  | [] => true
  | c :: remark => c == '#' && !remark.contains '\n'

/-- The group of the pattern that the whole line has to match. -/
def quotedValue (line : Text) : Option Text :=
  match (afterSign line).map lstrip with
  | some ('"' :: after) =>
      match readQuoted after with
      | some (value, rest) => if endsLine rest then some value else none
      | none => none
  | _ => none

/-! ## Folders -/

/-- A dollar sign or a backquote with no backslash right before it. -/
def hasExpansion (afterBackslash : Bool) : Text → Bool
  | [] => false
  | c :: rest => (!afterBackslash && (c == '$' || c == '\x60')) || hasExpansion (c == '\\') rest

/-- Without the backslashes that are before what they take the meaning from. -/
def decode : Text → Text
  | [] => []
  | '\\' :: c :: rest => if isEscapable c then c :: decode rest else '\\' :: decode (c :: rest)
  | c :: rest => c :: decode rest

/-- `validate_home_name`. -/
def validateHomeName (name : FsName) : Option FsName :=
  if name = [] ∨ name = [.char '.'] ∨ name = [.char '.', .char '.'] ∨ nul ∈ name
    ∨ (.char '/' ∈ name ∧ name ≠ fsText ".ssh/config".toList) then none
  else some name

/-- `path.parent` and `path.name`. -/
def parent (path : GuestPath) : GuestPath := ⟨path.root, path.parts.dropLast⟩

def lastName (path : GuestPath) : FsName := (path.parts.getLast?.map Component.name).getD []

/-- `str(home)` is left for what is before a slash or the end. -/
def removeHome (value : Text) : Option Text :=
  let starts (start : Text) : Bool := value = start ∨ start ++ ['/'] <+: value
  if starts "$\x7bHOME\x7d".toList then some (value.drop 7)
  else if starts "$HOME".toList then some (value.drop 5)
  else none

/-- What a value says of a path, when nothing else has to be expanded. -/
def pathText (home : GuestPath) (value : Text) : Option FsName :=
  let rest := (removeHome value).getD value
  if hasExpansion false rest then none
  else some ((if (removeHome value).isSome then home.str else []) ++ fsText (decode rest))

/-- The name of a path that is right in the home. -/
def homeFolder (home path : GuestPath) : Option FsName :=
  if !path.isAbsolute || path.parts.any (· = up) then none
  else if parent path ≠ home ∨ [.char '.'] <+: lastName path then none
  else validateHomeName (lastName path)

def folder (home : GuestPath) (value : Text) : Option FsName :=
  (pathText home value).bind fun text => homeFolder home (PurePath.parse fsChars text)

/-- The body of the loop. -/
def readLine (home : GuestPath) (result : Option FsName) (line : Text) : Option FsName :=
  if (afterSign line).isSome then (quotedValue line).bind (folder home) else result

/-- `download_folder`. -/
def downloadFolder (home : GuestPath) (contents : Option Text) : Option FsName :=
  match contents with
  | none => some (fsText "Downloads".toList)
  | some text =>
      (splitlines (universalNewlines text)).foldl (readLine home) (some (fsText "Downloads".toList))

/-! ## What the assignment says -/

/-- The last line that is an assignment. -/
def lastAssignment (contents : Option Text) : Option Text :=
  contents.bind fun text =>
    ((splitlines (universalNewlines text)).filter fun line => (afterSign line).isSome).getLast?

def isBlank (text : Text) : Prop := text.all isSpace = true

/-- A line that assigns one double-quoted string, and may go on with a comment. -/
def Assigns (line value : Text) : Prop :=
  ∃ indent gap gap' trail comment, isBlank indent ∧ isBlank gap ∧ isBlank gap' ∧ isBlank trail ∧
    Quoted value ∧ (comment = [] ∨ ∃ remark, comment = '#' :: remark ∧ '\n' ∉ remark) ∧
    line = indent ++ ("XDG_DOWNLOAD_DIR".toList ++ (gap ++ '=' ::
      (gap' ++ '"' :: (value ++ '"' :: (trail ++ comment)))))

def expanding : Text → Bool
  | [] => false
  | c :: rest => c == '\x60' || (c == '$' && beginsExpansion rest)

/-- An expansion right after a backslash that was escaped. -/
def expandsAfterBackslash : Text → Bool
  | [] => false
  | '\\' :: c :: rest =>
      if isEscapable c then (c == '\\' && expanding rest) || expandsAfterBackslash rest
      else expandsAfterBackslash (c :: rest)
  | _ :: rest => expandsAfterBackslash rest

/-! ## The pattern -/

/-- A name is the folder's that the last assignment means, and an assignment that means
none has none. -/
def Agrees (means : GuestPath → Text → FsName → Prop) (home : GuestPath)
    (contents : Option Text) : Prop :=
  ∀ line ∈ lastAssignment contents,
    (∀ name, downloadFolder home contents = some name → means home line name) ∧
    ((∀ name, ¬ means home line name) → downloadFolder home contents = none)

/-- The last assignment expands nothing right after an escaped backslash. -/
def Plain (contents : Option Text) : Prop :=
  ∀ line ∈ lastAssignment contents, ∀ value, Assigns line value →
    expandsAfterBackslash value = false

end Spaces.Permissions.Downloads
