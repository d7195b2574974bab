import Spaces.Library.KeyTable

/-!
# A parser of key files

A small parser that does what users of `KeyTable.Parser` may rely on. It takes the
key files that hold nothing but groups of different names and pairs, and it knows
the escapes of desktop entries.
-/

namespace Spaces.Library.PlainParser

open Spaces.Library.KeyFile (Group IsKey)
open Spaces.Library.KeyTable

/-! ## Strings -/

/-- White space is escaped as long as nothing else was seen. -/
def escapeFrom : Bool → Text → Text
  | _, [] => []
  | leading, c :: rest =>
      if c = '\n' then '\\' :: 'n' :: escapeFrom leading rest
      else if c = '\r' then '\\' :: 'r' :: escapeFrom leading rest
      else if c = '\\' then '\\' :: '\\' :: escapeFrom false rest
      else if c = '\t' ∧ leading then '\\' :: 't' :: escapeFrom leading rest
      else if c = ' ' ∧ leading then '\\' :: 's' :: escapeFrom leading rest
      else c :: escapeFrom false rest

def escape (string : Text) : Text := escapeFrom true string

def unescapeChar : Char → Option Char
  | 's' => some ' '
  | 'n' => some '\n'
  | 't' => some '\t'
  | 'r' => some '\r'
  | '\\' => some '\\'
  | _ => none

def unescape : Text → Option Text
  | [] => some []
  | [c] => if c = '\\' then none else some [c]
  | c :: d :: rest =>
      if c = '\\' then (unescapeChar d).bind fun u => (unescape rest).map (u :: ·)
      else (unescape (d :: rest)).map (c :: ·)

theorem unescape_cons {c : Char} (h : c ≠ '\\') (rest : Text) :
    unescape (c :: rest) = (unescape rest).map (c :: ·) := by
  cases rest with
  | nil =>
      show (if c = '\\' then none else some [c]) = _
      rw [if_neg h]
      rfl
  | cons d rest => rw [unescape, if_neg h]

theorem unescape_escaped {c d : Char} (h : unescapeChar d = some c) {rest string : Text}
    (hrest : unescape rest = some string) :
    unescape ('\\' :: d :: rest) = some (c :: string) := by
  rw [unescape, if_pos rfl, h, Option.bind_some, hrest, Option.map_some]

theorem unescape_escapeFrom (leading : Bool) (string : Text) :
    unescape (escapeFrom leading string) = some string := by
  fun_induction escapeFrom leading string with
  | case1 => rfl
  | case2 leading rest ih => exact unescape_escaped rfl ih
  | case3 leading rest _ ih => exact unescape_escaped rfl ih
  | case4 leading rest _ _ ih => exact unescape_escaped rfl ih
  | case5 leading c rest _ _ _ h ih =>
      rw [h.1]
      exact unescape_escaped rfl ih
  | case6 leading c rest _ _ _ _ h ih =>
      rw [h.1]
      exact unescape_escaped rfl ih
  | case7 leading c rest _ _ hslash _ _ ih =>
      rw [unescape_cons hslash, ih, Option.map_some]

theorem escapeFrom_unbroken (leading : Bool) (string : Text) :
    '\n' ∉ escapeFrom leading string ∧ '\r' ∉ escapeFrom leading string := by
  fun_induction escapeFrom leading string with
  | case1 => exact ⟨List.not_mem_nil, List.not_mem_nil⟩
  | case2 leading rest ih => simp [ih]
  | case3 leading rest _ ih => simp [ih]
  | case4 leading rest _ _ ih => simp [ih]
  | case5 leading c rest _ _ _ _ ih => simp [ih]
  | case6 leading c rest _ _ _ _ _ ih => simp [ih]
  | case7 leading c rest hnewline hreturn _ _ _ ih =>
      simp only [List.mem_cons, not_or]
      exact ⟨⟨Ne.symm hnewline, ih.1⟩, Ne.symm hreturn, ih.2⟩

/-- Text that needs no escapes stays at the start. -/
theorem escapeFrom_plain {start : Text} (h : '\\' ∉ start ∧ '\n' ∉ start ∧ '\r' ∉ start
    ∧ '\t' ∉ start) (rest : Text) :
    ∃ rest', escapeFrom false (start ++ rest) = start ++ rest' := by
  induction start with
  | nil => exact ⟨_, rfl⟩
  | cons c start ih =>
      simp only [List.mem_cons, not_or] at h
      obtain ⟨rest', hrest⟩ := ih ⟨h.1.2, h.2.1.2, h.2.2.1.2, h.2.2.2.2⟩
      refine ⟨rest', ?_⟩
      rw [List.cons_append, escapeFrom, if_neg (Ne.symm h.2.1.1), if_neg (Ne.symm h.2.2.1.1),
        if_neg (Ne.symm h.1.1), if_neg (by simp), if_neg (by simp), hrest]
      rfl

theorem escape_plain {start string : Text} (h : Plain start) (hstart : start <+: string) :
    start <+: escape string ∧ WritableValue (escape string) := by
  obtain ⟨tail, rfl⟩ := hstart
  obtain ⟨c, rest, rfl, hspace⟩ := h.opens
  have hunescaped := h.unescaped
  simp only [List.mem_cons, not_or] at hunescaped
  obtain ⟨⟨hslash, hslash'⟩, ⟨hnewline, hnewline'⟩, ⟨hreturn, hreturn'⟩, htab, htab'⟩ :=
    hunescaped
  have hblank : c ≠ ' ' := by
    rintro rfl
    exact absurd hspace (by decide)
  obtain ⟨rest', hrest⟩ := escapeFrom_plain ⟨hslash', hnewline', hreturn', htab'⟩ tail
  have hescape : escape (c :: rest ++ tail) = c :: rest ++ rest' := by
    unfold escape
    rw [List.cons_append, escapeFrom, if_neg (Ne.symm hnewline), if_neg (Ne.symm hreturn),
      if_neg (Ne.symm hslash), if_neg fun h => htab h.1.symm, if_neg fun h => hblank h.1, hrest]
    rfl
  have hunbroken := escapeFrom_unbroken true (c :: rest ++ tail)
  change '\n' ∉ escape (c :: rest ++ tail) ∧ '\r' ∉ escape (c :: rest ++ tail) at hunbroken
  rw [hescape] at hunbroken ⊢
  exact ⟨List.prefix_append _ _, hunbroken.1, KeyFile.trim_eq hspace hunbroken.2⟩

/-! ## Texts -/

def isKey : Text → Bool
  | [] => false
  | c :: rest =>
      !KeyFile.isAsciiSpace c && c != '#' && c != '[' && !(c :: rest).contains '='
        && (c :: rest).rdropWhile KeyFile.isAsciiSpace == c :: rest
        && !(c :: rest).contains '\n'

theorem isKey_iff (key : Text) : isKey key = true ↔ IsKey key ∧ '\n' ∉ key := by
  cases key with
  | nil =>
      constructor
      · intro h
        cases h
      · intro h
        obtain ⟨c, rest, heq, -⟩ := h.1.opens
        cases heq
  | cons c rest =>
      simp only [isKey, Bool.and_eq_true, Bool.not_eq_true', bne_iff_ne, beq_iff_eq,
        List.contains_eq_mem, decide_eq_false_iff_not]
      constructor
      · rintro ⟨⟨⟨⟨⟨hspace, hcomment⟩, hheader⟩, hassign⟩, hcloses⟩, hline⟩
        exact ⟨⟨hassign, ⟨c, rest, rfl, hspace, hcomment, hheader⟩, hcloses⟩, hline⟩
      · rintro ⟨⟨hassign, ⟨c', rest', heq, hspace, hcomment, hheader⟩, hcloses⟩, hline⟩
        cases heq
        exact ⟨⟨⟨⟨⟨hspace, hcomment⟩, hheader⟩, hassign⟩, hcloses⟩, hline⟩

/-- A table this parser writes back as it is. -/
structure Readable (table : Table) : Prop where
  distinct : Distinct table
  names : ∀ g ∈ table, ']' ∉ g.name ∧ '\n' ∉ g.name
  pairs : ∀ g ∈ table, ∀ p ∈ g.entries, (IsKey p.1 ∧ '\n' ∉ p.1) ∧ WritableValue p.2

def distinctNames : List Text → Bool
  | [] => true
  | name :: names => !names.contains name && distinctNames names

theorem distinctNames_iff (names : List Text) : distinctNames names = true ↔ names.Nodup := by
  induction names with
  | nil => exact ⟨fun _ => List.nodup_nil, fun _ => rfl⟩
  | cons name names ih =>
      rw [distinctNames, Bool.and_eq_true, ih, List.nodup_cons, Bool.not_eq_true',
        List.contains_eq_mem, decide_eq_false_iff_not]

def isReadable (table : Table) : Bool :=
  distinctNames (table.map Group.name)
    && table.all fun g => !g.name.contains ']' && !g.name.contains '\n'
      && g.entries.all fun p =>
        isKey p.1 && !p.2.contains '\n' && KeyFile.trim p.2 == p.2

theorem isReadable_iff (table : Table) : isReadable table = true ↔ Readable table := by
  simp only [isReadable, Bool.and_eq_true, distinctNames_iff, List.all_eq_true,
    Bool.not_eq_true', List.contains_eq_mem, decide_eq_false_iff_not, beq_iff_eq, isKey_iff]
  constructor
  · rintro ⟨hdistinct, hgroups⟩
    exact ⟨hdistinct, fun g hg => (hgroups g hg).1, fun g hg p hp =>
      ⟨((hgroups g hg).2 p hp).1.1, ((hgroups g hg).2 p hp).1.2, ((hgroups g hg).2 p hp).2⟩⟩
  · rintro ⟨hdistinct, hnames, hpairs⟩
    exact ⟨hdistinct, fun g hg => ⟨hnames g hg, fun p hp =>
      ⟨⟨(hpairs g hg p hp).1, (hpairs g hg p hp).2.1⟩, (hpairs g hg p hp).2.2⟩⟩⟩

def load (text : Text) : Option Table :=
  if isReadable (KeyFile.read text) then some (KeyFile.read text) else none

def toData : Table → Text
  | [] => []
  | g :: gs => KeyFile.write g gs

theorem load_some {text : Text} {table : Table} (h : load text = some table) :
    Readable table := by
  unfold load at h
  split at h
  · next hreadable =>
      cases h
      exact (isReadable_iff _).mp hreadable
  · cases h

theorem load_toData {table : Table} (h : Readable table) : load (toData table) = some table := by
  have hread : KeyFile.read (toData table) = table := by
    cases table with
    | nil => rfl
    | cons g gs =>
        have hwritable : ∀ g' ∈ g :: gs, g'.Writable := fun g' hg' =>
          ⟨h.names g' hg', fun p hp => (h.pairs g' hg' p hp).1⟩
        have hvalue : ∀ g' ∈ g :: gs, ∀ p ∈ g'.entries, '\n' ∉ p.2 := fun g' hg' p hp =>
          (h.pairs g' hg' p hp).2.1
        have hstrays : ∀ g' ∈ g :: gs, ∀ l ∈ KeyFile.strays g'.entries,
            l.isHeader = false := by
          intro g' hg' l hl
          obtain ⟨p, hp, hl⟩ := List.mem_flatMap.mp hl
          rw [Text.laterLines_eq (hvalue g' hg' p hp)] at hl
          cases hl
        rw [toData, KeyFile.read_write (hwritable g List.mem_cons_self)
          (fun g' hg' => hwritable g' (List.mem_cons_of_mem g hg')) hstrays]
        refine (List.map_congr_left fun g' hg' => ?_).trans (List.map_id _)
        have hentries : g'.entries.flatMap KeyFile.readPair = g'.entries := by
          have hpair : ∀ p ∈ g'.entries, KeyFile.readPair p = [p] := by
            intro p hp
            show (p.1, KeyFile.trim (Text.firstLine p.2))
              :: ((Text.laterLines p.2).map KeyFile.classify).filterMap KeyFile.Line.entry? = _
            rw [Text.firstLine_eq (hvalue g' hg' p hp), (h.pairs g' hg' p hp).2.2,
              Text.laterLines_eq (hvalue g' hg' p hp)]
            rfl
          rw [List.flatMap_congr hpair]
          exact List.flatMap_singleton' _
        unfold KeyFile.Group.readBack
        rw [hentries]
        rfl
  unfold load
  rw [hread, if_pos ((isReadable_iff table).mpr h)]

theorem mem_remove {key : Text} {p : Text × Text} {pairs : Pairs}
    (h : p ∈ Pairs.remove key pairs) : p ∈ pairs := by
  induction pairs with
  | nil => cases h
  | cons q pairs ih =>
      rw [Pairs.remove] at h
      split at h
      · exact List.mem_cons_of_mem q h
      · rcases List.mem_cons.mp h with rfl | h
        · exact List.mem_cons_self
        · exact List.mem_cons_of_mem q (ih h)

theorem mem_set {key value : Text} {p : Text × Text} {pairs : Pairs}
    (h : p ∈ Pairs.set key value pairs) : p = (key, value) ∨ p ∈ pairs := by
  induction pairs with
  | nil => exact .inl (List.mem_singleton.mp h)
  | cons q pairs ih =>
      rw [Pairs.set] at h
      split at h
      · rcases List.mem_cons.mp h with rfl | h
        · exact .inl rfl
        · exact .inr (List.mem_cons_of_mem q h)
      · rcases List.mem_cons.mp h with rfl | h
        · exact .inr List.mem_cons_self
        · exact (ih h).imp_right (List.mem_cons_of_mem q)

theorem Readable.edited {table current : Table} (h : Readable table)
    (hedited : Edited table current) : Readable current := by
  induction hedited with
  | refl => exact h
  | @set current group key value hgroup hkey hvalue _ ih =>
      refine ⟨ih.distinct.set group key value, fun g hg => ?_, fun g hg p hp => ?_⟩
      · unfold KeyTable.set at hg
        split at hg
        · obtain ⟨g', hg', rfl⟩ := List.mem_map.mp hg
          split
          · exact ih.names g' hg'
          · exact ih.names g' hg'
        · next hmissing =>
            rcases List.mem_append.mp hg with hg | hg
            · exact ih.names g hg
            · rw [List.mem_singleton.mp hg]
              exact hgroup.resolve_left hmissing
      · unfold KeyTable.set at hg
        split at hg
        · obtain ⟨g', hg', rfl⟩ := List.mem_map.mp hg
          split at hp
          · rcases mem_set hp with rfl | hp
            · exact ⟨hkey, hvalue⟩
            · exact ih.pairs g' hg' p hp
          · exact ih.pairs g' hg' p hp
        · rcases List.mem_append.mp hg with hg | hg
          · exact ih.pairs g hg p hp
          · rw [List.mem_singleton.mp hg] at hp
            rw [List.mem_singleton.mp hp]
            exact ⟨hkey, hvalue⟩
  | @remove current group key _ ih =>
      refine ⟨ih.distinct.remove group key, fun g hg => ?_, fun g hg p hp => ?_⟩
      · obtain ⟨g', hg', rfl⟩ := List.mem_map.mp hg
        split
        · exact ih.names g' hg'
        · exact ih.names g' hg'
      · obtain ⟨g', hg', rfl⟩ := List.mem_map.mp hg
        split at hp
        · exact ih.pairs g' hg' p (mem_remove hp)
        · exact ih.pairs g' hg' p hp

def parser : Parser where
  load := load
  toData := toData
  unescape := unescape
  escape := escape
  load_nil := by decide
  load_distinct h := (load_some h).distinct
  load_toData h hedited := load_toData ((load_some h).edited hedited)
  escape_plain := escape_plain
  unescape_escape := unescape_escapeFrom true

end Spaces.Library.PlainParser
