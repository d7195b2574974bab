import Spaces.Accounts.Members
import Spaces.Library.Records

/-!
# The accounts of the configured users

Before a Space starts, the accounts of its guest are brought in line with the configured
users. Each user has a turn, in which its passwd record is found by its UID or else by
its name, its group by its GID or else by its name, and its shadow record by the name
that the passwd record had. Whatever is not there is appended. The four tables are
written when all turns are over.

The host's names are those that can be written as UTF-8.
-/

namespace Spaces.Accounts

open Spaces.Library Records

/-! ## Users -/

/-- `_safe_user_name` -/
def safeUserName (name : Text) : Bool :=
  name ≠ [] && name ≠ ['.'] && name ≠ ['.', '.']
    && !name.any fun c => c ∈ ['/', ':', '\x00', '\n', '\r']

@[ext]
structure UserName where
  text : Text
  safe : safeUserName text = true
  deriving DecidableEq

structure User where
  uid : Nat
  gid : Nat
  name : UserName
  administrator : Bool
  deriving DecidableEq

def homeSlash : Text := ['/', 'h', 'o', 'm', 'e', '/']
def rootHome : Text := ['/', 'r', 'o', 'o', 't']

def User.guestHome (user : User) : Text :=
  if user.uid = 0 then rootHome else homeSlash ++ user.name.text

/-- `str` -/
def digits (n : Nat) : Text := Nat.toDigits 10 n

/-! ## Tables -/

structure Tables where
  passwd : List PasswdRecord
  group : List GroupRecord
  shadow : Option (List ShadowRecord)
  gshadow : Option (List GshadowRecord)
  deriving DecidableEq

/-- What the code knows beside the files. -/
structure Settings where
  unicode : Text.Unicode
  administratorGroup : Text
  administratorGroup_plain : Plain administratorGroup
  hostAuthentication : Bool
  /-- The shells that are executable files within the root file system. -/
  usable : Text → Bool
  /-- The files that cannot be written. -/
  fails : Database → Bool

/-- The field of a record that holds its members. -/
structure MemberColumn (R : Type) where
  name : R → Text
  members : R → Text
  alter : (Text → Text) → R → R
  name_alter : ∀ f r, name (alter f r) = name r
  members_alter : ∀ f r, members (alter f r) = f (members r)
  alter_self : ∀ f r, f (members r) = members r → alter f r = r

def groupMembers : MemberColumn GroupRecord where
  name r := r.name
  members r := r.members
  alter f r := { r with members := f r.members }
  name_alter _ _ := rfl
  members_alter _ _ := rfl
  alter_self f r h := by rw [h]

def gshadowMembers : MemberColumn GshadowRecord where
  name r := r.name
  members r := r.members
  alter f r := { r with members := f r.members }
  name_alter _ _ := rfl
  members_alter _ _ := rfl
  alter_self f r h := by rw [h]

/-! ## The administrator group -/

variable (settings : Settings)

def nonNumeric (text : Text) : Bool := (Text.int settings.unicode text).isNone

/-- `range(999, 0, -1)` and `range(1000, 60000)`. -/
def candidateGids : List Nat := (List.range' 1 999).reverse ++ List.range' 1000 59000

/-- The group table with the administrator group in it. -/
def withAdministratorGroup (group : List GroupRecord) (users : List User) :
    Except Refusal (List GroupRecord) :=
  if group.any (·.name = settings.administratorGroup) then .ok group
  else if group.any (nonNumeric settings ·.gid) then .error (.nonNumeric .group)
  else
    match candidateGids.find? fun gid : Nat =>
        !group.any (fun r => Text.int settings.unicode r.gid = some (gid : Int))
          && !users.any (·.gid = gid) with
    | none => .error .noGid
    | some gid => .ok (group ++ [⟨settings.administratorGroup, ['x'], digits gid, []⟩])

/-- `_ensure_administrator_group` -/
def ensureAdministratorGroup (group : List GroupRecord) (gshadow : Option (List GshadowRecord))
    (users : List User) : Except Refusal (List GroupRecord × Option (List GshadowRecord)) :=
  if users.all (!·.administrator) then .ok (group, gshadow)
  else do
    let group ← withAdministratorGroup settings group users
    let gshadow := gshadow.map fun records =>
      if records.any (·.name = settings.administratorGroup) then records
      else records ++ [⟨settings.administratorGroup, ['!'], [], []⟩]
    return (group, gshadow)

/-! ## One user's turn -/

/-- The index of a user's account: by the UID, or else by the name. -/
def accountIndex (passwd : List PasswdRecord) (user : User) : Except Refusal (Option Nat) :=
  if passwd.any (nonNumeric settings ·.uid) then .error (.nonNumeric .passwd)
  else
    let nameIndex := lastIdx? (·.name = user.name.text) passwd
    let uidIndex :=
      lastIdx? (fun r => Text.int settings.unicode r.uid = some (user.uid : Int)) passwd
    match nameIndex, uidIndex with
    | some i, some j => if i = j then .ok (some j) else .error (.conflict user.name.text user.uid)
    | none, some j => .ok (some j)
    | i, none => .ok i

/-- `_account_shell` -/
def accountShell : Text :=
  let bash := ['/', 'b', 'i', 'n', '/', 'b', 'a', 's', 'h']
  let usrBash := ['/', 'u', 's', 'r'] ++ bash
  if settings.usable bash then bash
  else if settings.usable usrBash then usrBash
  else ['/', 'b', 'i', 'n', '/', 's', 'h']

def account (shadowed : Bool) (user : User) (gecos : Text) : PasswdRecord where
  name := user.name.text
  password := if shadowed then ['x'] else ['!']
  uid := digits user.uid
  gid := digits user.gid
  gecos := gecos
  home := user.guestHome
  shell := accountShell settings

/-- The passwd part of a turn, with the name that the account had. -/
def setAccount (shadowed : Bool) (passwd : List PasswdRecord) (user : User) :
    Except Refusal (Text × List PasswdRecord) := do
  match ← accountIndex settings passwd user with
  | none => return (user.name.text, passwd ++ [account settings shadowed user []])
  | some i =>
      let oldName := (passwd[i]?.map (·.name)).getD user.name.text
      return (oldName, passwd.modify i fun r => account settings shadowed user r.gecos)

/-- The user's GID gets a group. -/
def ensureUserGroup (group : List GroupRecord) (gshadow : Option (List GshadowRecord))
    (user : User) : Except Refusal (List GroupRecord × Option (List GshadowRecord)) :=
  if group.any (nonNumeric settings ·.gid) then .error (.nonNumeric .group)
  else if group.any (fun r => Text.int settings.unicode r.gid = some (user.gid : Int)) then
    .ok (group, gshadow)
  else
    match group.findIdx? (·.name = user.name.text) with
    | none =>
        .ok (group ++ [⟨user.name.text, ['x'], digits user.gid, []⟩],
          gshadow.map (· ++ [⟨user.name.text, ['!'], [], []⟩]))
    | some i => .ok (group.modify i fun r => { r with gid := digits user.gid }, gshadow)

/-- `_set_group_member` -/
def setGroupMember {R : Type} (column : MemberColumn R) (records : List R)
    (groupName userName : Text) (enabled : Bool) : List R :=
  match records.findIdx? (column.name · = groupName) with
  | none => records
  | some i => records.modify i (column.alter (setMember userName enabled))

def GroupRecord.rename (oldName newName : Text) (r : GroupRecord) : GroupRecord :=
  { r with members := renameMember oldName newName r.members }

def GshadowRecord.rename (oldName newName : Text) (r : GshadowRecord) : GshadowRecord :=
  { r with
    administrators := renameMember oldName newName r.administrators
    members := renameMember oldName newName r.members }

def setGroup (group : List GroupRecord) (oldName : Text) (user : User) : List GroupRecord :=
  setGroupMember groupMembers (group.map (.rename oldName user.name.text))
    settings.administratorGroup user.name.text user.administrator

def setGshadow (gshadow : List GshadowRecord) (oldName : Text) (user : User) :
    List GshadowRecord :=
  setGroupMember gshadowMembers (gshadow.map (.rename oldName user.name.text))
    settings.administratorGroup user.name.text user.administrator

def ShadowRecord.assign (user : User) (r : ShadowRecord) : ShadowRecord :=
  { r with
    name := user.name.text
    password := if settings.hostAuthentication then ['!'] else r.password }

/-- The shadow part of a turn. -/
def setShadow (shadow : List ShadowRecord) (oldName : Text) (user : User) :
    Except Refusal (List ShadowRecord) :=
  let oldIndex := lastIdx? (·.name = oldName) shadow
  let newIndex := lastIdx? (·.name = user.name.text) shadow
  if oldName ≠ user.name.text ∧ oldIndex.isSome ∧ newIndex.isSome ∧ oldIndex ≠ newIndex then
    .error (.shadowConflict user.name.text)
  else
    match oldIndex.or newIndex with
    | none => .ok (shadow ++ [⟨user.name.text, ['!'], [], [], [], [], [], [], []⟩])
    | some i => .ok (shadow.modify i (.assign settings user))

def setShadowTable (shadow : Option (List ShadowRecord)) (oldName : Text) (user : User) :
    Except Refusal (Option (List ShadowRecord)) :=
  match shadow with
  | none => .ok none
  | some records => some <$> setShadow settings records oldName user

def turn (tables : Tables) (user : User) : Except Refusal Tables := do
  let (oldName, passwd) ← setAccount settings tables.shadow.isSome tables.passwd user
  let (group, gshadow) ← ensureUserGroup settings tables.group tables.gshadow user
  let shadow ← setShadowTable settings tables.shadow oldName user
  return {
    passwd
    group := setGroup settings group oldName user
    shadow
    gshadow := gshadow.map fun records => setGshadow settings records oldName user }

/-! ## The files -/

inductive Node where
  | missing
  | link
  | other
  | unreadable
  | file (text : Text)

structure Etc where
  directory : Bool
  node : Database → Node

def Etc.write (etc : Etc) (database : Database) (text : Text) : Etc :=
  { etc with node := Function.update etc.node database (.file text) }

def readRequired {R : Type} [Record R] (etc : Etc) (database : Database) :
    Except Refusal (List R) :=
  match etc.node database with
  | .file text => readDatabase database text
  | _ => .error (.unreadable database)

/-- A link is refused, after the reading of what is no link. -/
def readOptional {R : Type} [Record R] (etc : Etc) (database : Database) :
    Except Refusal (Option (List R)) :=
  match etc.node database with
  | .missing => .ok none
  | .link => .error (.unsafePath database)
  | .other | .unreadable => .error (.unreadable database)
  | .file text => some <$> readDatabase database text

def isFile : Node → Bool
  | .unreadable | .file _ => true
  | _ => false

def readTables (etc : Etc) : Except Refusal Tables :=
  if !etc.directory then .error .unsafeDirectory
  else if !isFile (etc.node .passwd) then .error (.unsafePath .passwd)
  else if !isFile (etc.node .group) then .error (.unsafePath .group)
  else do
    let passwd ← readRequired etc .passwd
    let group ← readRequired etc .group
    let shadow ← readOptional etc .shadow
    let gshadow ← readOptional etc .gshadow
    return { passwd, group, shadow, gshadow }

def prepare (tables : Tables) (users : List User) : Except Refusal Tables := do
  let (group, gshadow) ←
    ensureAdministratorGroup settings tables.group tables.gshadow users
  return { tables with group, gshadow }

/-- All turns, after the administrator group is there. -/
def settle (tables : Tables) (users : List User) : Except Refusal Tables := do
  users.foldlM (turn settings) (← prepare settings tables users)

/-- What is written, in its order. -/
def Tables.texts (tables : Tables) : List (Database × Text) :=
  [(.passwd, databaseText tables.passwd), (.group, databaseText tables.group)]
    ++ (tables.shadow.map fun records => (.shadow, databaseText records)).toList
    ++ (tables.gshadow.map fun records => (.gshadow, databaseText records)).toList

def writeDatabases : List (Database × Text) → Etc → Except Refusal Unit × Etc
  | [], etc => (.ok (), etc)
  | (database, text) :: rest, etc =>
      if settings.fails database then (.error (.notWritten database), etc)
      else writeDatabases rest (etc.write database text)

/-- `_reconcile_accounts`, with the files it leaves. -/
def reconcileAccounts (users : List User) (etc : Etc) : Except Refusal Unit × Etc :=
  let nonRootUsers := users.filter (·.uid ≠ 0)
  if nonRootUsers = [] then (.ok (), etc)
  else
    match (do settle settings (← readTables etc) nonRootUsers) with
    | .error refusal => (.error refusal, etc)
    | .ok tables => writeDatabases settings tables.texts etc

end Spaces.Accounts
