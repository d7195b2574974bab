import Spaces.Library.Decimal
import Spaces.Library.Outcome

/-!
# The account databases of a guest

`/etc/passwd`, `/etc/group` and their shadows are tables of records, one in a line, with
colons between the fields. They are read with Python's `splitlines`, which knows more
line ends than the one that is written. So a table is read back as long as no field holds
a colon or any of these; what was read from a file never does.
-/

namespace Spaces.Accounts

open Spaces.Library

inductive Database where
  | passwd
  | group
  | shadow
  | gshadow
  deriving DecidableEq

inductive Refusal where
  | unsafeDirectory
  | unsafePath (database : Database)
  | unreadable (database : Database)
  | invalidRecord (database : Database)
  | nonNumeric (database : Database)
  | noGid
  | conflict (name : Text) (uid : Nat)
  | shadowConflict (name : Text)
  | notWritten (database : Database)
  deriving DecidableEq

/-! ## Records -/

/-- A record is as many fields as its database has. -/
class Record (R : Type) where
  ofFields : List Text → Option R
  fields : R → List Text
  ofFields_fields : ∀ r, ofFields (fields r) = some r
  fields_ofFields : ∀ {texts r}, ofFields texts = some r → fields r = texts
  fields_length : ∀ r, 2 ≤ (fields r).length

open Record

structure PasswdRecord where
  name : Text
  password : Text
  uid : Text
  gid : Text
  gecos : Text
  home : Text
  shell : Text
  deriving DecidableEq

structure GroupRecord where
  name : Text
  password : Text
  gid : Text
  members : Text
  deriving DecidableEq

structure ShadowRecord where
  name : Text
  password : Text
  lastChange : Text
  minimum : Text
  maximum : Text
  warning : Text
  inactive : Text
  expire : Text
  reserved : Text
  deriving DecidableEq

structure GshadowRecord where
  name : Text
  password : Text
  administrators : Text
  members : Text
  deriving DecidableEq

instance : Record PasswdRecord where
  ofFields
    | [name, password, uid, gid, gecos, home, shell] =>
        some ⟨name, password, uid, gid, gecos, home, shell⟩
    | _ => none
  fields r := [r.name, r.password, r.uid, r.gid, r.gecos, r.home, r.shell]
  ofFields_fields _ := rfl
  fields_ofFields := by
    intro texts r h
    split at h
    · cases h
      rfl
    · cases h
  fields_length _ := by simp

instance : Record GroupRecord where
  ofFields
    | [name, password, gid, members] => some ⟨name, password, gid, members⟩
    | _ => none
  fields r := [r.name, r.password, r.gid, r.members]
  ofFields_fields _ := rfl
  fields_ofFields := by
    intro texts r h
    split at h
    · cases h
      rfl
    · cases h
  fields_length _ := by simp

instance : Record ShadowRecord where
  ofFields
    | [name, password, lastChange, minimum, maximum, warning, inactive, expire, reserved] =>
        some ⟨name, password, lastChange, minimum, maximum, warning, inactive, expire,
          reserved⟩
    | _ => none
  fields r := [r.name, r.password, r.lastChange, r.minimum, r.maximum, r.warning,
    r.inactive, r.expire, r.reserved]
  ofFields_fields _ := rfl
  fields_ofFields := by
    intro texts r h
    split at h
    · cases h
      rfl
    · cases h
  fields_length _ := by simp

instance : Record GshadowRecord where
  ofFields
    | [name, password, administrators, members] =>
        some ⟨name, password, administrators, members⟩
    | _ => none
  fields r := [r.name, r.password, r.administrators, r.members]
  ofFields_fields _ := rfl
  fields_ofFields := by
    intro texts r h
    split at h
    · cases h
      rfl
    · cases h
  fields_length _ := by simp

/-! ## Reading and writing -/

variable {R : Type} [Record R]

/-- `_read_database`, of the text of a file. -/
def readDatabase (database : Database) (text : Text) : Except Refusal (List R) :=
  (Text.splitlines (Text.universalNewlines text)).mapM fun line =>
    match ofFields (line.splitOn ':') with
    | some record => .ok record
    | none => .error (.invalidRecord database)

def recordLine (record : R) : Text := [':'].intercalate (fields record)

/-- What `_atomic_write_database` writes. -/
def databaseText (records : List R) : Text := (records.map recordLine).flatMap (· ++ ['\n'])

/-! ## What is read back -/

/-- A field that stays one field. -/
def Plain (field : Text) : Prop := ':' ∉ field ∧ ∀ c ∈ field, Text.isLineBreak c = false

def PlainRecord (record : R) : Prop := ∀ field ∈ fields record, Plain field

theorem plain_of_digits (n : Nat) : Plain (Nat.toDigits 10 n) := by
  refine ⟨Text.not_mem_toDigits (by decide) n, fun c hc => ?_⟩
  rw [Bool.eq_false_iff]
  intro hbreak
  have hspace := Text.isSpace_toDigits n c hc
  rw [Text.isSpace_of_isLineBreak hbreak] at hspace
  cases hspace

theorem plain_nil : Plain [] := ⟨List.not_mem_nil, fun _ hc => by cases hc⟩

theorem fields_ne_nil (record : R) : fields record ≠ [] :=
  List.ne_nil_of_length_pos (Nat.lt_of_lt_of_le Nat.zero_lt_two (fields_length record))

theorem isLineBreak_recordLine {record : R} (h : PlainRecord record) :
    ∀ c ∈ recordLine record, Text.isLineBreak c = false := by
  intro c hc
  rcases Text.mem_of_mem_intercalate hc with hc | ⟨field, hfield, hc⟩
  · rw [List.mem_singleton.mp hc]
    decide
  · exact (h field hfield).2 c hc

theorem splitOn_recordLine {record : R} (h : ∀ field ∈ fields record, ':' ∉ field) :
    (recordLine record).splitOn ':' = fields record :=
  List.splitOn_intercalate _ h (fields_ne_nil record)

/-- Plain records are read back from what was written of them. -/
theorem readDatabase_databaseText (database : Database) {records : List R}
    (h : ∀ record ∈ records, PlainRecord record) :
    readDatabase database (databaseText records) = .ok records := by
  have hlines : ∀ line ∈ records.map recordLine, ∀ c ∈ line, Text.isLineBreak c = false := by
    intro line hline
    obtain ⟨record, hrecord, rfl⟩ := List.mem_map.mp hline
    exact isLineBreak_recordLine (h record hrecord)
  have hreturn : '\r' ∉ databaseText records := by
    intro hmem
    obtain ⟨line, hline, hc⟩ := List.mem_flatMap.mp hmem
    rcases List.mem_append.mp hc with hc | hc
    · cases hlines line hline '\r' hc
    · cases List.mem_singleton.mp hc
  rw [readDatabase, Text.universalNewlines_eq hreturn, databaseText,
    Text.splitlines_terminated hlines]
  clear hlines hreturn
  induction records with
  | nil => rfl
  | cons record records ih =>
      have hplain := h record List.mem_cons_self
      rw [List.map_cons, List.mapM_cons, splitOn_recordLine fun f hf => (hplain f hf).1,
        ofFields_fields, ih fun r hr => h r (List.mem_cons_of_mem record hr)]
      rfl

/-- What is read is plain. -/
theorem plain_of_readDatabase {database : Database} {text : Text} {records : List R}
    (h : readDatabase database text = .ok records) :
    ∀ record ∈ records, PlainRecord record := by
  intro record hrecord field hfield
  obtain ⟨line, hline, hread⟩ := (Outcome.mapM_mem h).2 record hrecord
  split at hread
  · next hfields =>
      cases hread
      rw [fields_ofFields hfields] at hfield
      refine ⟨fun hmem => (Text.mem_of_mem_splitOn hfield hmem).2 rfl, fun c hc => ?_⟩
      exact Text.isLineBreak_of_mem_splitlines hline c (Text.mem_of_mem_splitOn hfield hc).1
  · cases hread

end Spaces.Accounts
