import Spaces.Accounts.Database

/-!
# Lists of members

A field of members is their names with commas between them, and the empty field is no
member at all. A name goes into the field as it is. So a name with a comma in it comes
back as several members, and none of them is the name.
-/

namespace Spaces.Accounts

open Spaces.Library

/-- `field.split(",") if field else []` -/
def members (field : Text) : List Text := if field = [] then [] else field.splitOn ','

def joinMembers (names : List Text) : Text := [','].intercalate names

/-- `_rename_members`, of one field. -/
def renameMember (oldName newName : Text) (field : Text) : Text :=
  if oldName = newName then field
  else if !(members field).contains oldName then field
  else joinMembers ((members field).map fun m => if m = oldName then newName else m)

/-- `_set_group_member`, of the field. -/
def setMember (userName : Text) (enabled : Bool) (field : Text) : Text :=
  joinMembers <|
    if enabled && !(members field).contains userName then members field ++ [userName]
    else if !enabled then (members field).filter (· ≠ userName)
    else members field

theorem renameMember_eq (oldName newName field : Text) :
    renameMember oldName newName field =
      if oldName = newName then field
      else if oldName ∉ members field then field
      else joinMembers ((members field).map fun m => if m = oldName then newName else m) := by
  simp [renameMember]

theorem setMember_eq (userName : Text) (enabled : Bool) (field : Text) :
    setMember userName enabled field =
      joinMembers (
        if enabled = true ∧ userName ∉ members field then members field ++ [userName]
        else if enabled = false then (members field).filter (· ≠ userName)
        else members field) := by
  simp [setMember]

@[simp]
theorem joinMembers_members (field : Text) : joinMembers (members field) = field := by
  unfold members joinMembers
  split
  · next h =>
      rw [h]
      rfl
  · exact List.intercalate_splitOn ','

theorem comma_not_mem {field name : Text} (h : name ∈ members field) : ',' ∉ name := by
  unfold members at h
  split at h
  · cases h
  · exact fun hmem => (Text.mem_of_mem_splitOn h hmem).2 rfl

theorem splitOn_of_mem_members {field name : Text} (h : name ∈ members field) :
    name.splitOn ',' = [name] :=
  List.splitOn_eq_singleton (comma_not_mem h)

theorem splitOn_joinMembers {names : List Text} (h : names ≠ []) :
    (joinMembers names).splitOn ',' = names.flatMap (·.splitOn ',') := by
  induction names with
  | nil => exact absurd rfl h
  | cons name names ih =>
      rcases eq_or_ne names [] with rfl | hne
      · simp [joinMembers]
      · rw [joinMembers, List.intercalate_cons_of_ne_nil hne, List.append_assoc,
          List.singleton_append, List.splitOn_append_cons_self, List.flatMap_cons]
        exact congrArg _ (ih hne)

/-- Who is a member of what was joined: whoever is a piece of a joined name. -/
theorem mem_members_join {names : List Text} {name : Text} (hne : name ≠ []) :
    name ∈ members (joinMembers names) ↔ ∃ m ∈ names, name ∈ m.splitOn ',' := by
  rcases eq_or_ne names [] with rfl | hnames
  · simp [joinMembers, members]
  · have hpieces : name ∈ (joinMembers names).splitOn ',' ↔ ∃ m ∈ names, name ∈ m.splitOn ',' := by
      rw [splitOn_joinMembers hnames, List.mem_flatMap]
    rw [← hpieces]
    unfold members
    split
    · next hempty =>
        rw [hempty]
        simpa using hne
    · rfl

theorem mem_members_join_members {field name : Text} (p : Text → Bool) (hne : name ≠ []) :
    name ∈ members (joinMembers ((members field).filter p)) ↔
      name ∈ members field ∧ p name = true := by
  rw [mem_members_join hne]
  constructor
  · rintro ⟨m, hm, hname⟩
    obtain ⟨hm, hp⟩ := List.mem_filter.mp hm
    rw [splitOn_of_mem_members hm, List.mem_singleton] at hname
    subst hname
    exact ⟨hm, hp⟩
  · rintro ⟨hname, hp⟩
    exact ⟨name, List.mem_filter.mpr ⟨hname, hp⟩, by simp [splitOn_of_mem_members hname]⟩

/-- A renaming touches only who bore the old name, and who is a piece of the new one. -/
theorem mem_renameMember {oldName newName field name : Text} (hne : name ≠ [])
    (hold : name ≠ oldName) :
    name ∈ members (renameMember oldName newName field) ↔
      name ∈ members field ∨
        oldName ≠ newName ∧ oldName ∈ members field ∧ name ∈ newName.splitOn ',' := by
  rw [renameMember_eq]
  split
  · next heq => simp [heq]
  · next hnames =>
      split
      · next hmem => simp [hmem]
      · next hmem =>
          rw [mem_members_join hne]
          constructor
          · rintro ⟨m, hm, hname⟩
            obtain ⟨m', hm', rfl⟩ := List.mem_map.mp hm
            split at hname
            · exact .inr ⟨hnames, not_not.mp hmem, hname⟩
            · rw [splitOn_of_mem_members hm', List.mem_singleton] at hname
              subst hname
              exact .inl hm'
          · rintro (hname | ⟨-, hname, hpiece⟩)
            · refine ⟨name, List.mem_map.mpr ⟨name, hname, if_neg hold⟩, ?_⟩
              simp [splitOn_of_mem_members hname]
            · exact ⟨newName, List.mem_map.mpr ⟨oldName, hname, if_pos rfl⟩, hpiece⟩

/-- What an administrator's turn does to the field. -/
theorem mem_setMember_enabled {userName field name : Text} (hne : name ≠ []) :
    name ∈ members (setMember userName true field) ↔
      name ∈ members field ∨ userName ∉ members field ∧ name ∈ userName.splitOn ',' := by
  rw [setMember_eq]
  by_cases hmem : userName ∈ members field
  · rw [if_neg (fun h => h.2 hmem), if_neg (by simp), joinMembers_members]
    simp [hmem]
  · rw [if_pos ⟨rfl, hmem⟩, mem_members_join hne]
    constructor
    · rintro ⟨m, hm, hname⟩
      rcases List.mem_append.mp hm with hm | hm
      · rw [splitOn_of_mem_members hm, List.mem_singleton] at hname
        subst hname
        exact .inl hm
      · rw [List.mem_singleton.mp hm] at hname
        exact .inr ⟨hmem, hname⟩
    · rintro (hname | ⟨-, hpiece⟩)
      · exact ⟨name, List.mem_append_left _ hname, by simp [splitOn_of_mem_members hname]⟩
      · exact ⟨userName, by simp, hpiece⟩

theorem mem_setMember_disabled {userName field name : Text} (hne : name ≠ []) :
    name ∈ members (setMember userName false field) ↔
      name ∈ members field ∧ name ≠ userName := by
  rw [setMember_eq]
  rw [if_neg (by simp), if_pos rfl, mem_members_join_members _ hne, decide_eq_true_iff]

/-- A field that is as it should be stays as it is. -/
theorem setMember_eq_self {userName field : Text} {enabled : Bool}
    (h : userName ∈ members field ↔ enabled = true) : setMember userName enabled field = field := by
  rw [setMember_eq]
  cases enabled with
  | true =>
      rw [if_neg (fun hand => hand.2 (h.mpr rfl)), if_neg (by simp), joinMembers_members]
  | false =>
      have hall : (members field).filter (· ≠ userName) = members field := by
        rw [List.filter_eq_self]
        intro m hm
        rw [decide_eq_true_iff]
        rintro rfl
        exact Bool.false_ne_true (h.mp hm)
      rw [if_neg (by simp), if_pos rfl, hall, joinMembers_members]

@[simp]
theorem renameMember_self (name field : Text) : renameMember name name field = field :=
  if_pos rfl

/-! ## The new field is plain -/

theorem mem_joinMembers {names : List Text} {c : Char} (h : c ∈ joinMembers names) :
    c = ',' ∨ ∃ name ∈ names, c ∈ name :=
  (Text.mem_of_mem_intercalate h).imp_left List.mem_singleton.mp

theorem mem_of_mem_members {field name : Text} (h : name ∈ members field) {c : Char}
    (hc : c ∈ name) : c ∈ field := by
  unfold members at h
  split at h
  · cases h
  · exact (Text.mem_of_mem_splitOn h hc).1

theorem plain_of_chars {field : Text}
    (h : ∀ c ∈ field, c ≠ ':' ∧ Text.isLineBreak c = false) : Plain field :=
  ⟨fun hmem => (h ':' hmem).1 rfl, fun c hc => (h c hc).2⟩

theorem Plain.char {field : Text} (h : Plain field) {c : Char} (hc : c ∈ field) :
    c ≠ ':' ∧ Text.isLineBreak c = false :=
  ⟨fun heq => h.1 (heq ▸ hc), h.2 c hc⟩

theorem plain_joinMembers {names : List Text} (h : ∀ name ∈ names, Plain name) :
    Plain (joinMembers names) := by
  refine plain_of_chars fun c hc => ?_
  rcases mem_joinMembers hc with rfl | ⟨name, hname, hc⟩
  · decide
  · exact (h name hname).char hc

theorem plain_members {field : Text} (h : Plain field) : ∀ name ∈ members field, Plain name :=
  fun _ hname => plain_of_chars fun _ hc => h.char (mem_of_mem_members hname hc)

theorem plain_renameMember {oldName newName field : Text} (hnew : Plain newName)
    (h : Plain field) : Plain (renameMember oldName newName field) := by
  rw [renameMember_eq]
  split
  · exact h
  · split
    · exact h
    · refine plain_joinMembers fun name hname => ?_
      obtain ⟨m, hm, rfl⟩ := List.mem_map.mp hname
      split
      · exact hnew
      · exact plain_members h m hm

theorem plain_setMember {userName field : Text} (enabled : Bool) (hname : Plain userName)
    (h : Plain field) : Plain (setMember userName enabled field) := by
  rw [setMember_eq]
  refine plain_joinMembers fun name hmem => ?_
  split at hmem
  · rcases List.mem_append.mp hmem with hmem | hmem
    · exact plain_members h name hmem
    · exact List.mem_singleton.mp hmem ▸ hname
  · split at hmem
    · exact plain_members h name (List.mem_of_mem_filter hmem)
    · exact plain_members h name hmem

end Spaces.Accounts
