import Mathlib.Data.List.Nodup
import Mathlib.Order.Bounds.Basic
import Mathlib.Tactic.Common
import Spaces.Library.Text

/-!
# Putting a wallet aside

A wallet that cannot be opened is moved out of the way: its files are renamed to names
with a common number, the first for which none of the names is taken. Nothing is ever
replaced. When a file cannot be renamed, those before it are renamed back, the last
one first.

Where the kernel cannot rename without replacing, a file is linked to its new name and
unlinked from the old one. If the unlinking fails the link is removed again.
-/

namespace Spaces.Secrets

open Spaces.Library

/-! ## The directory -/

inductive WalletFile where
  | wallet
  | salt
  | attributes
  deriving DecidableEq

namespace WalletFile

def index : WalletFile → Nat
  | wallet => 0
  | salt => 1
  | attributes => 2

def all : List WalletFile := [wallet, salt, attributes]

theorem mem_all (file : WalletFile) : file ∈ all := by
  cases file <;> decide

/-- `names`. -/
def source : WalletFile → Text
  | wallet => "spaces-managed-v1.kwl".toList
  | salt => "spaces-managed-v1.salt".toList
  | attributes => "spaces-managed-v1_attributes.json".toList

/-- `"%s.%u"`. -/
def destination (file : WalletFile) (number : Nat) : Text :=
  file.source ++ '.' :: Nat.toDigits 10 number

end WalletFile

/-- What `lstat` tells of a file, and which one it is. -/
structure Node where
  regular : Bool
  uid : Nat
  inode : Nat
  deriving DecidableEq

abbrev Directory := Text → Option Node

def Directory.set (directory : Directory) (name : Text) (node : Option Node) : Directory :=
  fun other => if other = name then node else directory other

@[simp] theorem Directory.set_self (directory : Directory) (name : Text) (node : Option Node) :
    directory.set name node name = node := if_pos rfl

theorem Directory.set_ne (directory : Directory) {name other : Text} (node : Option Node)
    (h : other ≠ name) : directory.set name node other = directory other := if_neg h

/-- How `rename_noreplace` goes for a file. -/
inductive RenameFault where
  | none
  | failed
  /-- There is no such call: whether the link can be made, the old name be removed, and
  the link be removed again. -/
  | unsupported (link unlink undo : Bool)
  deriving DecidableEq

/-- A link that was made can be removed again. -/
def RenameFault.Undone : RenameFault → Prop
  | .unsupported _ _ undo => undo = true
  | _ => True

/-- What the calls on names will do, apart from what the directory makes them do. -/
structure Faults where
  /-- `lstat` fails for another reason than that there is no such file. -/
  stat : Text → Bool
  rename : WalletFile → RenameFault
  /-- The rename back can be made. -/
  rollback : WalletFile → Bool

inductive Stat where
  | found (node : Node)
  | missing
  | failed

def nofollowStat (faults : Faults) (directory : Directory) (name : Text) : Stat :=
  if faults.stat name then .failed
  else match directory name with
    | some node => .found node
    | none => .missing

/-- `rename_noreplace`. -/
def renameNoreplace (fault : RenameFault) (directory : Directory) (source destination : Text) :
    Bool × Directory :=
  match directory source, directory destination with
  | some node, none =>
      match fault with
      | .none => (true, (directory.set destination (some node)).set source none)
      | .failed => (false, directory)
      | .unsupported link unlink undo =>
          if link then
            let linked := directory.set destination (some node)
            if unlink then (true, linked.set source none)
            else (false, if undo then linked.set destination none else linked)
          else (false, directory)
  | _, _ => (false, directory)

/-- `rename`, which does nothing to two names of one file. -/
def rename (directory : Directory) (source destination : Text) : Directory :=
  match directory source with
  | none => directory
  | some node =>
      if directory destination = some node then directory
      else (directory.set destination (some node)).set source none

/-! ## `spaces_backup_failed_wallet` -/

/-- Which of the files are there, unless one is not the user's or cannot be looked at. -/
def findPresent (faults : Faults) (uid : Nat) (directory : Directory) :
    List WalletFile → Option (List WalletFile)
  | [] => some []
  | file :: files =>
      match nofollowStat faults directory file.source with
      | .found node =>
          if node.regular = true ∧ node.uid = uid then
            (findPresent faults uid directory files).map (file :: ·)
          else none
      | .missing => findPresent faults uid directory files
      | .failed => none

def available (faults : Faults) (directory : Directory) (number : Nat) : Bool :=
  WalletFile.all.all fun file =>
    match nofollowStat faults directory (file.destination number) with
    | .missing => true
    | _ => false

def findNumber (free : Nat → Bool) : (remaining number : Nat) → Option Nat
  | 0, _ => none
  | remaining + 1, number =>
      if free number then some number else findNumber free remaining (number + 1)

def maxUint : Nat := 4294967295

/-- The renames in their order, and the mask of those that were made. -/
def moveFiles (faults : Faults) (number : Nat) :
    List WalletFile → Directory → Nat → Bool × Directory × Nat
  | [], directory, moved => (true, directory, moved)
  | file :: files, directory, moved =>
      match renameNoreplace (faults.rename file) directory file.source
          (file.destination number) with
      | (true, directory) => moveFiles faults number files directory (moved ||| 1 <<< file.index)
      | (false, directory) => (false, directory, moved)

def rollBack (faults : Faults) (number moved : Nat) (directory : Directory) :
    List WalletFile → Directory
  | [] => directory
  | file :: files =>
      let directory :=
        if moved.testBit file.index && faults.rollback file then
          rename directory (file.destination number) file.source
        else directory
      rollBack faults number moved directory files

structure Backup where
  success : Bool
  /-- What `backup_number` is set to. -/
  number : Option Nat
  directory : Directory

def spacesBackupFailedWallet (faults : Faults) (uid : Nat) (dataDirectory : Option Text)
    (directory : Directory) : Backup :=
  let refused : Backup := ⟨false, none, directory⟩
  if dataDirectory.getD [] = [] then refused
  else match findPresent faults uid directory WalletFile.all with
    | none => refused
    | some present =>
        if .wallet ∉ present then refused
        else match findNumber (available faults directory) (maxUint - 1) 1 with
          | none => refused
          | some number =>
              match moveFiles faults number present directory 0 with
              | (true, moved, _) => ⟨true, some number, moved⟩
              | (false, moved, mask) =>
                  ⟨false, none, rollBack faults number mask moved WalletFile.all.reverse⟩

/-! ## The names are different -/

/-- No name begins with another one and a full stop. -/
theorem WalletFile.source_append_ne {file other : WalletFile} (rest : Text) :
    file.source ≠ other.source ++ '.' :: rest := by
  intro h
  cases file <;> cases other <;> unfold WalletFile.source at h <;>
    simp only [String.reduceToList] at h <;> simp at h

theorem WalletFile.source_injective {file other : WalletFile} {rest rest' : Text}
    (h : file.source ++ rest = other.source ++ rest') : file = other := by
  cases file <;> cases other <;> first | rfl | (
    unfold WalletFile.source at h
    simp only [String.reduceToList] at h
    simp at h)

theorem WalletFile.source_ne_destination (file other : WalletFile) (number : Nat) :
    file.source ≠ other.destination number :=
  source_append_ne _

theorem WalletFile.source_ne {file other : WalletFile} (h : file ≠ other) :
    file.source ≠ other.source := fun heq =>
  h (@source_injective _ _ [] [] (by rw [List.append_nil, List.append_nil, heq]))

theorem WalletFile.destination_ne {file other : WalletFile} (h : file ≠ other) (number : Nat) :
    file.destination number ≠ other.destination number :=
  fun heq => h (source_injective heq)

/-! ## Files moved so far -/

/-- The files have their new names, and nothing else is different. -/
structure Moved (before : Directory) (number : Nat) (files : List WalletFile)
    (after : Directory) : Prop where
  source : ∀ file ∈ files, after file.source = none
  destination : ∀ file ∈ files, after (file.destination number) = before file.source
  other : ∀ name, (∀ file ∈ files, name ≠ file.source ∧ name ≠ file.destination number) →
    after name = before name

theorem Moved.nil (before : Directory) (number : Nat) : Moved before number [] before where
  source _ h := absurd h List.not_mem_nil
  destination _ h := absurd h List.not_mem_nil
  other _ _ := rfl

theorem Moved.eq_of_nil {before after : Directory} {number : Nat}
    (h : Moved before number [] after) : after = before :=
  funext fun name => h.other name fun _ hmem => absurd hmem List.not_mem_nil

variable {before after : Directory} {number : Nat} {files : List WalletFile} {file : WalletFile}

/-- One more file is moved. -/
theorem Moved.cons (h : Moved before number files after) (hfile : file ∉ files) :
    Moved before number (file :: files)
      ((after.set (file.destination number) (before file.source)).set file.source none) := by
  have hne : ∀ other ∈ files, other ≠ file := fun other hother heq => hfile (heq ▸ hother)
  refine ⟨fun other hother => ?_, fun other hother => ?_, fun name hname => ?_⟩
  · rcases List.mem_cons.mp hother with rfl | hother
    · exact Directory.set_self _ _ _
    · rw [Directory.set_ne _ _ (WalletFile.source_ne (hne other hother)),
        Directory.set_ne _ _ (WalletFile.source_ne_destination other file number),
        h.source other hother]
  · rw [Directory.set_ne _ _ (WalletFile.source_ne_destination file other number).symm]
    rcases List.mem_cons.mp hother with rfl | hother
    · exact Directory.set_self _ _ _
    · rw [Directory.set_ne _ _ (WalletFile.destination_ne (hne other hother) number),
        h.destination other hother]
  · obtain ⟨hsource, hdestination⟩ := hname file List.mem_cons_self
    rw [Directory.set_ne _ _ hsource, Directory.set_ne _ _ hdestination]
    exact h.other name fun other hother => hname other (List.mem_cons_of_mem _ hother)

/-- One of them is moved back. -/
theorem Moved.undo (h : Moved before number files after) (hfile : file ∈ files)
    (hpresent : before file.source ≠ none) (hfree : before (file.destination number) = none) :
    Moved before number (files.filter (· ≠ file))
      (rename after (file.destination number) file.source) := by
  obtain ⟨node, hnode⟩ := Option.ne_none_iff_exists'.mp hpresent
  have hrename : rename after (file.destination number) file.source
      = (after.set file.source (some node)).set (file.destination number) none := by
    rw [rename, h.destination file hfile, hnode, h.source file hfile]
    rfl
  have hkept : ∀ other ∈ files.filter (· ≠ file), other ∈ files ∧ other ≠ file := by
    intro other hother
    simpa using hother
  rw [hrename]
  refine ⟨fun other hother => ?_, fun other hother => ?_, fun name hname => ?_⟩
  · obtain ⟨hmem, hne⟩ := hkept other hother
    rw [Directory.set_ne _ _ (WalletFile.source_ne_destination other file number),
      Directory.set_ne _ _ (WalletFile.source_ne hne), h.source other hmem]
  · obtain ⟨hmem, hne⟩ := hkept other hother
    rw [Directory.set_ne _ _ (WalletFile.destination_ne hne number),
      Directory.set_ne _ _ (WalletFile.source_ne_destination file other number).symm,
      h.destination other hmem]
  · by_cases hdestination : name = file.destination number
    · rw [hdestination, Directory.set_self, hfree]
    rw [Directory.set_ne _ _ hdestination]
    by_cases hsource : name = file.source
    · rw [hsource, Directory.set_self, hnode]
    rw [Directory.set_ne _ _ hsource]
    refine h.other name fun other hother => ?_
    rcases eq_or_ne other file with rfl | hne
    · exact ⟨hsource, hdestination⟩
    · exact hname other (by simpa using ⟨hother, hne⟩)

/-! ## Moving and moving back -/

/-- The files that are there, and have free names to go to. -/
def Movable (before : Directory) (number : Nat) (file : WalletFile) : Prop :=
  before file.source ≠ none ∧ before (file.destination number) = none

/-- The mask says which files are moved. -/
def Masks (mask : Nat) (files : List WalletFile) : Prop :=
  ∀ file : WalletFile, mask.testBit file.index = true ↔ file ∈ files

theorem WalletFile.index_injective : Function.Injective WalletFile.index := by
  intro file other h
  cases file <;> cases other <;> first | rfl | cases h

theorem Masks.cons {mask : Nat} (h : Masks mask files) (file : WalletFile) :
    Masks (mask ||| 1 <<< file.index) (file :: files) := by
  intro other
  rw [Nat.testBit_or, Bool.or_eq_true, h other, List.mem_cons, Nat.shiftLeft_eq, Nat.one_mul,
    Nat.testBit_two_pow, or_comm, decide_eq_true_eq]
  exact or_congr_left (WalletFile.index_injective.eq_iff.trans eq_comm)

/-- A file whose turn it is: it is moved, or nothing is. -/
theorem renameNoreplace_cases {fault : RenameFault} (h : Moved before number files after)
    (hfile : file ∉ files) (hmovable : Movable before number file) (hundo : fault.Undone) :
    renameNoreplace fault after file.source (file.destination number) = (false, after) ∨
      renameNoreplace fault after file.source (file.destination number) = (true,
        (after.set (file.destination number) (before file.source)).set file.source none) := by
  have hne : ∀ other ∈ files, file ≠ other := fun other hother heq => hfile (heq ▸ hother)
  have hsource : after file.source = before file.source :=
    h.other _ fun other hother => ⟨WalletFile.source_ne (hne other hother),
      WalletFile.source_ne_destination file other number⟩
  have hdestination : after (file.destination number) = none := by
    rw [h.other _ fun other hother => ⟨(WalletFile.source_ne_destination other file number).symm,
      WalletFile.destination_ne (hne other hother) number⟩, hmovable.2]
  obtain ⟨node, hnode⟩ := Option.ne_none_iff_exists'.mp hmovable.1
  rw [renameNoreplace, hsource, hdestination, hnode]
  cases fault with
  | none => exact .inr rfl
  | failed => exact .inl rfl
  | unsupported link unlink undo =>
      obtain rfl : undo = true := hundo
      cases link with
      | false => exact .inl rfl
      | true =>
          cases unlink with
          | true => exact .inr rfl
          | false =>
              -- the link is removed again
              refine .inl (Prod.ext rfl (funext fun name => ?_))
              by_cases hname : name = file.destination number
              · exact (if_pos hname).trans (hname ▸ hdestination.symm)
              · exact (if_neg hname).trans (if_neg hname)

theorem moveFiles_cases {faults : Faults} (hundo : ∀ file, (faults.rename file).Undone)
    {pending : List WalletFile} {mask : Nat} (h : Moved before number files after)
    (hmask : Masks mask files) (hfiles : ∀ file ∈ files, Movable before number file)
    (hpending : ∀ file ∈ pending, Movable before number file)
    (hnodup : (pending.reverse ++ files).Nodup) :
    ∃ success current mask' moved, moveFiles faults number pending after mask
        = (success, current, mask')
      ∧ Moved before number moved current ∧ Masks mask' moved
      ∧ (∀ file ∈ moved, Movable before number file)
      ∧ (success = true → moved = pending.reverse ++ files) := by
  induction pending generalizing files after mask with
  | nil => exact ⟨true, after, mask, files, rfl, h, hmask, hfiles, fun _ => rfl⟩
  | cons file pending ih =>
      rw [List.reverse_cons, List.append_assoc, List.singleton_append] at hnodup ⊢
      have hfile : file ∉ files := (List.nodup_cons.mp (List.nodup_append.mp hnodup).2.1).1
      have hmovable := hpending file List.mem_cons_self
      rw [moveFiles]
      rcases renameNoreplace_cases h hfile hmovable (hundo file) with hcall | hcall
      · rw [hcall]
        exact ⟨false, after, mask, files, rfl, h, hmask, hfiles, nofun⟩
      · rw [hcall]
        exact ih (h.cons hfile) (hmask.cons file) (List.forall_mem_cons.mpr ⟨hmovable, hfiles⟩)
          (fun other hother => hpending other (List.mem_cons_of_mem _ hother)) hnodup

/-- Every moved file is moved back when its turn comes. -/
theorem rollBack_spec {faults : Faults} (hrollback : ∀ file, faults.rollback file = true)
    {mask : Nat} {moved : List WalletFile} (hmask : Masks mask moved)
    (hmovable : ∀ file ∈ moved, Movable before number file) {pending : List WalletFile}
    (hpending : pending.Nodup) (h : Moved before number files after)
    (hsame : ∀ file ∈ pending, file ∈ moved ↔ file ∈ files) :
    ∃ left, Moved before number left (rollBack faults number mask after pending)
      ∧ ∀ file ∈ left, file ∈ files ∧ file ∉ pending := by
  induction pending generalizing files after with
  | nil => exact ⟨files, h, fun file hfile => ⟨hfile, List.not_mem_nil⟩⟩
  | cons file pending ih =>
      obtain ⟨hfresh, hpending⟩ := List.nodup_cons.mp hpending
      have hsame' := fun other hother => hsame other (List.mem_cons_of_mem _ hother)
      rw [rollBack, hrollback, Bool.and_true]
      by_cases hmoved : file ∈ moved
      · obtain ⟨hpresent, hfree⟩ := hmovable file hmoved
        have hback := h.undo ((hsame file List.mem_cons_self).mp hmoved) hpresent hfree
        rw [if_pos ((hmask file).mpr hmoved)]
        obtain ⟨left, hleft, hsubset⟩ := ih hpending hback fun other hother => by
          have hne : other ≠ file := fun heq => hfresh (heq ▸ hother)
          rw [hsame' other hother, List.mem_filter]
          simp [hne]
        refine ⟨left, hleft, fun other hother => ?_⟩
        obtain ⟨hmem, hother⟩ := hsubset other hother
        rw [List.mem_filter, decide_eq_true_eq] at hmem
        exact ⟨hmem.1, List.not_mem_cons_of_ne_of_not_mem hmem.2 hother⟩
      · rw [if_neg (mt (hmask file).mp hmoved)]
        obtain ⟨left, hleft, hsubset⟩ := ih hpending h hsame'
        refine ⟨left, hleft, fun other hother => ?_⟩
        obtain ⟨hmem, hother⟩ := hsubset other hother
        refine ⟨hmem, List.not_mem_cons_of_ne_of_not_mem (fun heq => ?_) hother⟩
        exact hmoved ((hsame file List.mem_cons_self).mpr (heq ▸ hmem))

/-! ## The whole backup -/

theorem nofollowStat_missing {faults : Faults} {directory : Directory} {name : Text} :
    nofollowStat faults directory name = .missing ↔
      faults.stat name = false ∧ directory name = none := by
  unfold nofollowStat
  cases faults.stat name with
  | true => simp
  | false =>
      cases directory name with
      | none => simp
      | some node => simp

theorem nofollowStat_found {faults : Faults} {directory : Directory} {name : Text} {node : Node}
    (h : nofollowStat faults directory name = .found node) : directory name = some node := by
  unfold nofollowStat at h
  split at h
  · cases h
  · split at h
    · next hnode =>
        cases h
        exact hnode
    · cases h

theorem findPresent_spec {faults : Faults} {uid : Nat} {directory : Directory}
    {files present : List WalletFile}
    (h : findPresent faults uid directory files = some present) :
    present.Sublist files ∧
      ∀ file ∈ files, directory file.source ≠ none → file ∈ present := by
  induction files generalizing present with
  | nil =>
      cases h
      exact ⟨List.Sublist.refl _, fun _ hmem => absurd hmem List.not_mem_nil⟩
  | cons file files ih =>
      rw [findPresent] at h
      split at h
      · split at h
        · obtain ⟨rest, hrest, rfl⟩ := Option.map_eq_some_iff.mp h
          obtain ⟨hsublist, hmem⟩ := ih hrest
          refine ⟨hsublist.cons_cons file, fun other hother hthere => ?_⟩
          rcases List.mem_cons.mp hother with rfl | hother
          · exact List.mem_cons_self
          · exact List.mem_cons_of_mem _ (hmem other hother hthere)
        · cases h
      · next hstat =>
          obtain ⟨hsublist, hmem⟩ := ih h
          refine ⟨hsublist.cons file, fun other hother hthere => ?_⟩
          rcases List.mem_cons.mp hother with rfl | hother
          · exact absurd (nofollowStat_missing.mp hstat).2 hthere
          · exact hmem other hother hthere
      · cases h

/-- And only what is there is found. -/
theorem findPresent_there {faults : Faults} {uid : Nat} {directory : Directory}
    {files present : List WalletFile}
    (h : findPresent faults uid directory files = some present) :
    ∀ file ∈ present, directory file.source ≠ none := by
  induction files generalizing present with
  | nil =>
      cases h
      exact fun _ hmem => absurd hmem List.not_mem_nil
  | cons file files ih =>
      rw [findPresent] at h
      split at h
      · next node hstat =>
          split at h
          · obtain ⟨rest, hrest, rfl⟩ := Option.map_eq_some_iff.mp h
            refine List.forall_mem_cons.mpr ⟨?_, ih hrest⟩
            rw [nofollowStat_found hstat]
            exact Option.some_ne_none node
          · cases h
      · exact ih h
      · cases h

theorem findNumber_eq_some {free : Nat → Bool} {remaining number found : Nat}
    (h : findNumber free remaining number = some found) :
    number ≤ found ∧ free found = true ∧ ∀ other, number ≤ other → other < found →
      free other = false := by
  induction remaining generalizing number with
  | zero => cases h
  | succ remaining ih =>
      rw [findNumber] at h
      by_cases hfree : free number = true
      · rw [if_pos hfree] at h
        cases h
        exact ⟨Nat.le_refl _, hfree, fun other hle hlt => absurd hle (Nat.not_le.mpr hlt)⟩
      · rw [if_neg hfree] at h
        obtain ⟨hle, hfound, hbelow⟩ := ih h
        refine ⟨Nat.le_of_succ_le hle, hfound, fun other hother hlt => ?_⟩
        rcases Nat.eq_or_lt_of_le hother with rfl | hlater
        · exact Bool.not_eq_true _ ▸ hfree
        · exact hbelow other hlater hlt

/-- The three names of a number are seen to be free. -/
def Free (faults : Faults) (directory : Directory) (number : Nat) : Prop :=
  ∀ file : WalletFile, faults.stat (file.destination number) = false
    ∧ directory (file.destination number) = none

theorem available_iff {faults : Faults} {directory : Directory} {number : Nat} :
    available faults directory number = true ↔ Free faults directory number := by
  rw [available, List.all_eq_true]
  refine ⟨fun h file => nofollowStat_missing.mp ?_, fun h file _ => ?_⟩
  · have hfile := h file file.mem_all
    cases hstat : nofollowStat faults directory (file.destination number) with
    | missing => rfl
    | found node => simp [hstat] at hfile
    | failed => simp [hstat] at hfile
  · rw [nofollowStat_missing.mpr (h file)]

theorem findNumber_isLeast {faults : Faults} {directory : Directory} {remaining number : Nat}
    (h : findNumber (available faults directory) remaining 1 = some number) :
    IsLeast { n | 0 < n ∧ Free faults directory n } number := by
  obtain ⟨hpos, hfree, hbelow⟩ := findNumber_eq_some h
  refine ⟨⟨hpos, available_iff.mp hfree⟩, fun other ⟨hother, hfree'⟩ => ?_⟩
  by_contra hlt
  have hnot := hbelow other hother (Nat.lt_of_not_le hlt)
  rw [available_iff.mpr hfree'] at hnot
  cases hnot

theorem masks_zero : Masks 0 [] := by
  intro file
  simp

/-- The files are moved, or after the way back everything is as it was. -/
theorem moveFiles_or_rollBack {faults : Faults} {directory : Directory} {number : Nat}
    {present : List WalletFile} (hrollback : ∀ file, faults.rollback file = true)
    (hundo : ∀ file, (faults.rename file).Undone) (hnodup : present.Nodup)
    (hmovable : ∀ file ∈ present, Movable directory number file) :
    (∃ current mask, moveFiles faults number present directory 0 = (true, current, mask)
        ∧ Moved directory number present.reverse current) ∨
      ∃ current mask, moveFiles faults number present directory 0 = (false, current, mask)
        ∧ rollBack faults number mask current WalletFile.all.reverse = directory := by
  have hnodup' : (present.reverse ++ []).Nodup := by
    rwa [List.append_nil, List.nodup_reverse]
  obtain ⟨success, current, mask, moved, hcall, hmoved, hmask, hmovable', hall⟩ :=
    moveFiles_cases hundo (Moved.nil directory number) masks_zero
      (fun _ hfile => absurd hfile List.not_mem_nil) hmovable hnodup'
  rw [List.append_nil] at hall
  cases success with
  | true => exact .inl ⟨current, mask, hcall, hall rfl ▸ hmoved⟩
  | false =>
      refine .inr ⟨current, mask, hcall, ?_⟩
      obtain ⟨left, hleft, hgone⟩ := rollBack_spec hrollback hmask hmovable'
        (by decide : WalletFile.all.reverse.Nodup) hmoved fun _ _ => Iff.rfl
      have hnone : left = [] := List.eq_nil_iff_forall_not_mem.mpr fun file hfile =>
        (hgone file hfile).2 (List.mem_reverse.mpr file.mem_all)
      exact (hnone ▸ hleft).eq_of_nil

/-- All or nothing, if what was done can be taken back. -/
theorem spacesBackupFailedWallet_allOrNothing {faults : Faults} (uid : Nat)
    (dataDirectory : Option Text) (directory : Directory)
    (hrollback : ∀ file, faults.rollback file = true)
    (hundo : ∀ file, (faults.rename file).Undone) :
    (∃ number files after,
        spacesBackupFailedWallet faults uid dataDirectory directory = ⟨true, some number, after⟩
          ∧ IsLeast { n | 0 < n ∧ Free faults directory n } number
          ∧ (∀ file, file ∈ files ↔ directory file.source ≠ none)
          ∧ Moved directory number files after) ∨
      spacesBackupFailedWallet faults uid dataDirectory directory = ⟨false, none, directory⟩ := by
  unfold spacesBackupFailedWallet
  by_cases hdata : dataDirectory.getD [] = []
  · exact .inr (if_pos hdata)
  rw [if_neg hdata]
  cases hpresent : findPresent faults uid directory WalletFile.all with
  | none => exact .inr rfl
  | some present =>
      obtain ⟨hsublist, hfound⟩ := findPresent_spec hpresent
      have hthere := findPresent_there hpresent
      dsimp only
      by_cases hwallet : WalletFile.wallet ∉ present
      · exact .inr (if_pos hwallet)
      rw [if_neg hwallet]
      cases hnumber : findNumber (available faults directory) (maxUint - 1) 1 with
      | none => exact .inr rfl
      | some number =>
          have hleast := findNumber_isLeast hnumber
          have hmovable : ∀ file ∈ present, Movable directory number file :=
            fun file hfile => ⟨hthere file hfile, (hleast.1.2 file).2⟩
          rcases moveFiles_or_rollBack hrollback hundo (hsublist.nodup (by decide)) hmovable with
            ⟨current, mask, hcall, hmoved⟩ | ⟨current, mask, hcall, hback⟩
          · refine .inl ⟨number, present.reverse, current, ?_, hleast, fun file => ?_, hmoved⟩
            · dsimp only
              rw [hcall]
            · rw [List.mem_reverse]
              exact ⟨hthere file, hfound file file.mem_all⟩
          · refine .inr ?_
            dsimp only
            rw [hcall]
            exact congrArg (Backup.mk false none) hback

/-! ## A link that stays -/

def walletOnly : Directory := fun name =>
  if name = WalletFile.wallet.source then some ⟨true, 1000, 1⟩ else none

/-- A kernel without the call, and a directory from which nothing can be removed. -/
def noRemoval : Faults where
  stat _ := false
  rename _ := .unsupported true false false
  rollback _ := true

/-- No renaming back is needed, and the link stays. -/
theorem linkStays : (∀ file, noRemoval.rollback file = true) ∧
    (spacesBackupFailedWallet noRemoval 1000 (some ['d']) walletOnly).success = false ∧
    (spacesBackupFailedWallet noRemoval 1000 (some ['d']) walletOnly).directory ≠ walletOnly := by
  refine ⟨fun _ => rfl, by decide +kernel, fun hsame => ?_⟩
  have hlink : (spacesBackupFailedWallet noRemoval 1000 (some ['d']) walletOnly).directory
      (WalletFile.wallet.destination 1) = some ⟨true, 1000, 1⟩ := by decide +kernel
  have hfree : walletOnly (WalletFile.wallet.destination 1) = none := by decide +kernel
  rw [hsame, hfree] at hlink
  cases hlink

/-- A wallet with its salt and its attributes. -/
def threeFiles : Directory := fun name =>
  if name = WalletFile.wallet.source then some ⟨true, 1000, 1⟩
  else if name = WalletFile.salt.source then some ⟨true, 1000, 2⟩
  else if name = WalletFile.attributes.source then some ⟨true, 1000, 3⟩
  else none

def attributesFail : Faults where
  stat _ := false
  rename file := if file = .attributes then .failed else .none
  rollback _ := true

/-- The attributes cannot be moved, and what was moved before them is back. -/
theorem threeFiles_movedBack :
    spacesBackupFailedWallet attributesFail 1000 (some ['d']) threeFiles =
      ⟨false, none, threeFiles⟩ := by
  have hundo : ∀ file, (attributesFail.rename file).Undone := by
    intro file
    cases file <;> trivial
  have hfails : (spacesBackupFailedWallet attributesFail 1000 (some ['d']) threeFiles).success =
      false := by decide +kernel
  rcases spacesBackupFailedWallet_allOrNothing 1000 (some ['d']) threeFiles (fun _ => rfl) hundo
    with ⟨number, files, after, hmoved, -⟩ | hback
  · rw [hmoved] at hfails
    cases hfails
  · exact hback

end Spaces.Secrets
