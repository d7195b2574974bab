import Spaces.Library.KeyFile

/-!
# Key files as tables

A key file in memory: groups with different names, and in each of them pairs of
a key and a value. A key may occur more than once. A lookup finds the last pair
of a key, and so do updates, which leave every other pair as it was.

All that is ever asked of a table is the list of values of a key in a group, so
every operation comes with what it does to those lists.
-/

namespace Spaces.Library.KeyTable

open Spaces.Library.KeyFile (Group)

abbrev Pairs := List (Text × Text)
abbrev Table := List Group

namespace Pairs

def values (key : Text) (pairs : Pairs) : List Text :=
  (pairs.filter (·.1 = key)).map Prod.snd

/-- The value of the last pair of a key is replaced, or a pair is added. -/
def set (key value : Text) : Pairs → Pairs
  | [] => [(key, value)]
  | (k, v) :: rest =>
      if k = key ∧ values key rest = [] then (key, value) :: rest
      else (k, v) :: set key value rest

/-- The last pair of a key is removed. -/
def remove (key : Text) : Pairs → Pairs
  | [] => []
  | (k, v) :: rest =>
      if k = key ∧ values key rest = [] then rest else (k, v) :: remove key rest

theorem values_cons (key : Text) (p : Text × Text) (pairs : Pairs) :
    values key (p :: pairs) = if p.1 = key then p.2 :: values key pairs else values key pairs := by
  unfold values
  rw [List.filter_cons]
  by_cases h : p.1 = key
  · rw [if_pos (decide_eq_true h), if_pos h, List.map_cons]
  · rw [if_neg (by rw [decide_eq_true_eq]; exact h), if_neg h]

theorem values_set (key value : Text) (pairs : Pairs) :
    values key (set key value pairs) = (values key pairs).dropLast ++ [value] := by
  induction pairs with
  | nil =>
      rw [set, values_cons, if_pos rfl]
      rfl
  | cons p pairs ih =>
      rw [set, values_cons key p]
      split
      · next h =>
          rw [values_cons, if_pos rfl, if_pos h.1, h.2]
          rfl
      · next h =>
          rw [values_cons, ih]
          by_cases hkey : p.1 = key
          · rw [if_pos hkey, if_pos hkey]
            cases hvalues : values key pairs with
            | nil => exact absurd ⟨hkey, hvalues⟩ h
            | cons v vs => rfl
          · rw [if_neg hkey, if_neg hkey]

theorem values_set_ne {key other : Text} (h : other ≠ key) (value : Text) (pairs : Pairs) :
    values other (set key value pairs) = values other pairs := by
  induction pairs with
  | nil => rw [set, values_cons, if_neg (Ne.symm h)]
  | cons p pairs ih =>
      rw [set]
      split
      · next heq =>
          rw [values_cons, values_cons, if_neg (Ne.symm h),
            if_neg fun hp => h (hp.symm.trans heq.1)]
      · rw [values_cons, values_cons, ih]

theorem values_remove (key : Text) (pairs : Pairs) :
    values key (remove key pairs) = (values key pairs).dropLast := by
  induction pairs with
  | nil => rfl
  | cons p pairs ih =>
      rw [remove, values_cons key p]
      split
      · next h =>
          rw [if_pos h.1, h.2]
          rfl
      · next h =>
          rw [values_cons, ih]
          by_cases hkey : p.1 = key
          · rw [if_pos hkey, if_pos hkey]
            cases hvalues : values key pairs with
            | nil => exact absurd ⟨hkey, hvalues⟩ h
            | cons v vs => rfl
          · rw [if_neg hkey, if_neg hkey]

theorem values_remove_ne {key other : Text} (h : other ≠ key) (pairs : Pairs) :
    values other (remove key pairs) = values other pairs := by
  induction pairs with
  | nil => rfl
  | cons p pairs ih =>
      rw [remove]
      split
      · next heq => rw [values_cons, if_neg fun hp => h (hp.symm.trans heq.1)]
      · rw [values_cons, values_cons, ih]

end Pairs

/-- The values of a key in a group, in their order. -/
def values (group key : Text) (table : Table) : List Text :=
  (table.filter (·.name = group)).flatMap fun g => Pairs.values key g.entries

def lookup (group key : Text) (table : Table) : Option Text := (values group key table).getLast?

def hasGroup (group : Text) (table : Table) : Bool := (table.map Group.name).contains group

/-- A group that is missing is added for its first pair. -/
def set (group key value : Text) (table : Table) : Table :=
  if hasGroup group table then
    table.map fun g => if g.name = group then ⟨g.name, Pairs.set key value g.entries⟩ else g
  else table ++ [⟨group, [(key, value)]⟩]

def remove (group key : Text) (table : Table) : Table :=
  table.map fun g => if g.name = group then ⟨g.name, Pairs.remove key g.entries⟩ else g

/-- Two names are never the same. -/
def Distinct (table : Table) : Prop := (table.map Group.name).Nodup

theorem names_modify (f : Group → Group) (hf : ∀ g, (f g).name = g.name) (table : Table) :
    (table.map f).map Group.name = table.map Group.name := by
  rw [List.map_map]
  exact List.map_congr_left fun g _ => hf g

theorem Distinct.set {table : Table} (h : Distinct table) (group key value : Text) :
    Distinct (set group key value table) := by
  unfold KeyTable.set
  split
  · unfold Distinct
    rw [names_modify _ (fun g => by split <;> rfl)]
    exact h
  · next hnew =>
      unfold Distinct
      rw [List.map_append, List.map_singleton]
      refine List.nodup_append.mpr ⟨h, by simp, fun n hn n' hn' heq => ?_⟩
      rw [List.mem_singleton.mp hn'] at heq
      rw [heq] at hn
      exact hnew (List.contains_iff_mem.mpr hn)

theorem Distinct.remove {table : Table} (h : Distinct table) (group key : Text) :
    Distinct (remove group key table) := by
  unfold Distinct KeyTable.remove
  rw [names_modify _ (fun g => by split <;> rfl)]
  exact h

/-- A change of the pairs of one group is seen in that group only. -/
theorem values_modify (f : Pairs → Pairs) (group : Text) (table : Table) (other key : Text) :
    values other key
        (table.map fun g => if g.name = group then ⟨g.name, f g.entries⟩ else g)
      = (table.filter (·.name = other)).flatMap fun g =>
          Pairs.values key (if g.name = group then f g.entries else g.entries) := by
  unfold values
  induction table with
  | nil => rfl
  | cons g table ih =>
      have hname : (if g.name = group then (⟨g.name, f g.entries⟩ : Group) else g).name
          = g.name := by
        split <;> rfl
      rw [List.map_cons, List.filter_cons, List.filter_cons, hname]
      split
      · rw [List.flatMap_cons, ih, List.flatMap_cons]
        split <;> rfl
      · exact ih

theorem values_modify_ne (f : Pairs → Pairs) {group other : Text} (h : other ≠ group)
    (table : Table) (key : Text) :
    values other key
        (table.map fun g => if g.name = group then ⟨g.name, f g.entries⟩ else g)
      = values other key table := by
  rw [values_modify]
  refine List.flatMap_congr fun g hg => ?_
  have hname : g.name = other := of_decide_eq_true (List.mem_filter.mp hg).2
  rw [if_neg fun heq => h (hname.symm.trans heq)]

theorem filter_name {table : Table} (h : Distinct table) {group : Text}
    (hgroup : hasGroup group table = true) :
    ∃ g, table.filter (·.name = group) = [g] ∧ g.name = group := by
  induction table with
  | nil => cases hgroup
  | cons g table ih =>
      unfold Distinct at h
      rw [List.map_cons, List.nodup_cons] at h
      by_cases hname : g.name = group
      · refine ⟨g, ?_, hname⟩
        rw [List.filter_cons, if_pos (decide_eq_true hname)]
        refine congrArg _ (List.filter_eq_nil_iff.mpr fun g' hg' heq => h.1 ?_)
        rw [hname, ← of_decide_eq_true heq]
        exact List.mem_map.mpr ⟨g', hg', rfl⟩
      · rw [List.filter_cons_of_neg (by rw [decide_eq_true_eq]; exact hname)]
        refine ih h.2 ?_
        have hmem : group ∈ g.name :: table.map Group.name := List.contains_iff_mem.mp hgroup
        rcases List.mem_cons.mp hmem with heq | hmem
        · exact absurd heq.symm hname
        · exact List.contains_iff_mem.mpr hmem

theorem values_of_missing {table : Table} {group : Text} (h : ¬ hasGroup group table = true)
    (key : Text) : values group key table = [] := by
  unfold values
  rw [List.filter_eq_nil_iff.mpr, List.flatMap_nil]
  intro g hg heq
  refine h (List.contains_iff_mem.mpr ?_)
  rw [← of_decide_eq_true heq]
  exact List.mem_map.mpr ⟨g, hg, rfl⟩

theorem values_set {table : Table} (h : Distinct table) (group key value : Text) :
    values group key (set group key value table)
      = (values group key table).dropLast ++ [value] := by
  unfold set
  split
  · next hgroup =>
      obtain ⟨g, hfilter, hname⟩ := filter_name h hgroup
      rw [values_modify (Pairs.set key value), values, hfilter, List.flatMap_singleton,
        List.flatMap_singleton, if_pos hname, Pairs.values_set]
  · next hgroup =>
      rw [values_of_missing hgroup, values, List.filter_append, List.flatMap_append]
      have hold : values group key table = [] := values_of_missing hgroup key
      unfold values at hold
      rw [hold, List.filter_cons, if_pos (decide_eq_true rfl), List.filter_nil,
        List.flatMap_singleton, Pairs.values_cons, if_pos rfl]
      rfl

theorem values_set_ne {group key other key' : Text} (h : other ≠ group ∨ key' ≠ key)
    (value : Text) (table : Table) :
    values other key' (set group key value table) = values other key' table := by
  unfold set
  split
  · by_cases hgroup : other = group
    · have hkey : key' ≠ key := h.resolve_left fun hne => hne hgroup
      rw [values_modify (Pairs.set key value), values]
      refine List.flatMap_congr fun g _ => ?_
      split
      · exact Pairs.values_set_ne hkey value g.entries
      · rfl
    · exact values_modify_ne (Pairs.set key value) hgroup table key'
  · rw [values, List.filter_append, List.flatMap_append]
    refine List.append_right_eq_self.mpr ?_
    by_cases hgroup : other = group
    · have hkey : key' ≠ key := h.resolve_left fun hne => hne hgroup
      rw [List.filter_cons, if_pos (decide_eq_true hgroup.symm), List.filter_nil,
        List.flatMap_singleton, Pairs.values_cons, if_neg (Ne.symm hkey)]
      rfl
    · rw [List.filter_cons_of_neg (by rw [decide_eq_true_eq]; exact Ne.symm hgroup),
        List.filter_nil, List.flatMap_nil]

theorem values_remove {table : Table} (h : Distinct table) (group key : Text) :
    values group key (remove group key table) = (values group key table).dropLast := by
  unfold remove
  rw [values_modify (Pairs.remove key)]
  by_cases hgroup : hasGroup group table = true
  · obtain ⟨g, hfilter, hname⟩ := filter_name h hgroup
    rw [values, hfilter, List.flatMap_singleton, List.flatMap_singleton, if_pos hname,
      Pairs.values_remove]
  · have hnone := values_of_missing hgroup key
    have hfilter : table.filter (·.name = group) = [] := by
      refine List.filter_eq_nil_iff.mpr fun g hg heq => hgroup ?_
      rw [← of_decide_eq_true heq]
      exact List.contains_iff_mem.mpr (List.mem_map.mpr ⟨g, hg, rfl⟩)
    rw [hnone, hfilter]
    rfl

theorem values_remove_ne {group key other key' : Text} (h : other ≠ group ∨ key' ≠ key)
    (table : Table) :
    values other key' (remove group key table) = values other key' table := by
  unfold remove
  by_cases hgroup : other = group
  · have hkey : key' ≠ key := h.resolve_left fun hne => hne hgroup
    rw [values_modify (Pairs.remove key), values]
    refine List.flatMap_congr fun g _ => ?_
    split
    · exact Pairs.values_remove_ne hkey g.entries
    · rfl
  · exact values_modify_ne (Pairs.remove key) hgroup table key'

/-! ## Tables and texts -/

/-- A value that is read back from the line it is written on. -/
def WritableValue (value : Text) : Prop := '\n' ∉ value ∧ KeyFile.trim value = value

/-- Text that needs no escapes, at the start of a value. -/
structure Plain (start : Text) : Prop where
  opens : ∃ c rest, start = c :: rest ∧ KeyFile.isAsciiSpace c = false
  unescaped : '\\' ∉ start ∧ '\n' ∉ start ∧ '\r' ∉ start ∧ '\t' ∉ start

/-- A table, and what becomes of it when values are set and pairs removed. -/
inductive Edited (table : Table) : Table → Prop
  | refl : Edited table table
  | set {current : Table} (group key value : Text)
      (hgroup : hasGroup group current = true ∨ ']' ∉ group ∧ '\n' ∉ group)
      (hkey : KeyFile.IsKey key ∧ '\n' ∉ key) (hvalue : WritableValue value) :
      Edited table current → Edited table (KeyTable.set group key value current)
  | remove {current : Table} (group key : Text) :
      Edited table current → Edited table (KeyTable.remove group key current)

theorem Edited.distinct {table current : Table} (h : Edited table current)
    (htable : Distinct table) : Distinct current := by
  induction h with
  | refl => exact htable
  | set group key value _ _ _ _ ih => exact ih.set group key value
  | remove group key _ ih => exact ih.remove group key

/-- A parser of key files, as far as users of it may rely on it: what was loaded
and edited is written back pair by pair. Strings are escaped when they are set,
and looking a string up may fail. -/
structure Parser where
  load : Text → Option Table
  toData : Table → Text
  unescape : Text → Option Text
  escape : Text → Text
  load_nil : load [] = some []
  load_distinct : ∀ {text table}, load text = some table → Distinct table
  load_toData : ∀ {text table current}, load text = some table → Edited table current →
    load (toData current) = some current
  escape_plain : ∀ {start string}, Plain start → start <+: string →
    start <+: escape string ∧ WritableValue (escape string)
  unescape_escape : ∀ string, unescape (escape string) = some string

namespace Parser

variable (p : Parser)

/-- The string under a key, if there is one and it can be read. -/
def getString (group key : Text) (table : Table) : Option Text :=
  (lookup group key table).bind p.unescape

def setString (group key string : Text) (table : Table) : Table :=
  set group key (p.escape string) table

end Parser

end Spaces.Library.KeyTable
