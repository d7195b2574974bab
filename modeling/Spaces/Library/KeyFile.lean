import Spaces.Library.Text

/-!
# Key files, line by line

What a reader of desktop entries makes of a text: each line between two `\n` is
a group header, a pair of a key and a value, or nothing, and a pair belongs to
the last header before it. A line that is none of these is passed over here; a
stricter reader refuses the file.

A writer means each pair to be one line. `read_write` says what its text reads
as when a value holds line ends all the same: the value stops at the first of
them, and the reader takes every later piece for a line of its own.
-/

namespace Spaces.Library.KeyFile

open Spaces.Library.Text

inductive Line where
  | ignored
  | header (name : Text)
  | entry (key value : Text)
  deriving DecidableEq

def isAsciiSpace (c : Char) : Bool :=
  c == ' ' || (9 ≤ c.toNat && c.toNat ≤ 13)

/-- A line without the `\r` of a line end that is `\r\n`. -/
def chomp (line : Text) : Text :=
  if line.getLast? = some '\r' then line.dropLast else line

/-- The value of a pair, as it is looked up. -/
def trim (value : Text) : Text := (chomp value).dropWhile isAsciiSpace

/-- A pair, if the line is one: something, `=`, and the value. -/
def pair (line : Text) : Line :=
  match cut '=' line with
  | some ([], _) => .ignored
  | some (key, value) => .entry (key.rdropWhile isAsciiSpace) (value.dropWhile isAsciiSpace)
  | none => .ignored

def classify (line : Text) : Line :=
  match (chomp line).dropWhile isAsciiSpace with
  | [] => .ignored
  | '#' :: _ => .ignored
  | '[' :: rest =>
      match cut ']' rest with
      | some (name, after) =>
          if after.all fun c => c == ' ' || c == '\t' then .header name else pair ('[' :: rest)
      | none => pair ('[' :: rest)
  | line => pair line

def Line.isHeader : Line → Bool
  | .header _ => true
  | _ => false

def Line.entry? : Line → Option (Text × Text)
  | .entry key value => some (key, value)
  | _ => none

structure Group where
  name : Text
  entries : List (Text × Text)
  deriving DecidableEq

/-- The pairs before the first header, and the groups. -/
def collect : List Line → List (Text × Text) × List Group
  | [] => ([], [])
  | .ignored :: lines => collect lines
  | .entry key value :: lines => ((key, value) :: (collect lines).1, (collect lines).2)
  | .header name :: lines => ([], ⟨name, (collect lines).1⟩ :: (collect lines).2)

/-- The groups of a text. Pairs outside of every group say nothing. -/
def read (text : Text) : List Group := (collect ((lines text).map classify)).2

/-- The lines a writer has for one group. -/
def Group.lines (g : Group) : List Text :=
  ('[' :: g.name ++ [']']) :: g.entries.map fun (key, value) => key ++ '=' :: value

/-- The text of a list of groups, with an empty line between two of them. -/
def write (g : Group) (gs : List Group) : Text :=
  joinLines (g.lines ++ gs.flatMap fun g => [] :: g.lines)

/-! ## Reading a list of lines -/

/-- Lines without a header belong to what stands before them. -/
theorem collect_append {before : List Line} (h : ∀ l ∈ before, l.isHeader = false)
    (after : List Line) :
    collect (before ++ after)
      = (before.filterMap Line.entry? ++ (collect after).1, (collect after).2) := by
  induction before with
  | nil => rfl
  | cons l before ih =>
      have ih := ih fun m hm => h m (List.mem_cons_of_mem l hm)
      cases l with
      | ignored => exact ih
      | entry key value =>
          show ((key, value) :: (collect (before ++ after)).1, (collect (before ++ after)).2) = _
          rw [ih]
          rfl
      | header name => exact absurd (h _ List.mem_cons_self) (by simp [Line.isHeader])

/-- Every header begins a group. -/
theorem length_collect (lines : List Line) :
    (collect lines).2.length = lines.countP Line.isHeader := by
  induction lines with
  | nil => rfl
  | cons l lines ih =>
      cases l with
      | ignored => rw [List.countP_cons_of_neg (by decide), ← ih]; rfl
      | entry key value => rw [List.countP_cons_of_neg (by simp [Line.isHeader]), ← ih]; rfl
      | header name => rw [List.countP_cons_of_pos (by simp [Line.isHeader]), ← ih]; rfl

/-- No pair is lost, and their order is kept. -/
theorem entries_collect (lines : List Line) :
    (collect lines).1 ++ (collect lines).2.flatMap Group.entries
      = lines.filterMap Line.entry? := by
  induction lines with
  | nil => rfl
  | cons l lines ih =>
      cases l with
      | ignored => exact ih
      | entry key value => exact congrArg ((key, value) :: ·) ih
      | header name => exact ih

/-! ## Reading what was written -/

/-- A key that is read back from the line it is written on. -/
structure IsKey (key : Text) : Prop where
  unassigned : '=' ∉ key
  /-- It begins with no white space and as no comment or header does. -/
  opens : ∃ c rest, key = c :: rest ∧ isAsciiSpace c = false ∧ c ≠ '#' ∧ c ≠ '['
  closes : key.rdropWhile isAsciiSpace = key

theorem chomp_append_cons (before : Text) {c : Char} (hc : c ≠ '\r') (text : Text) :
    chomp (before ++ c :: text) = before ++ c :: chomp text := by
  unfold chomp
  cases text with
  | nil => simp [hc]
  | cons d text =>
      rw [List.getLast?_append_cons, List.getLast?_cons_cons]
      split
      · rw [List.dropLast_append_cons, List.dropLast_cons_cons]
      · rfl

theorem classify_pair {key : Text} (h : IsKey key) (value : Text) :
    classify (key ++ '=' :: value) = .entry key (trim value) := by
  obtain ⟨c, rest, rfl, hspace, hcomment, hheader⟩ := h.opens
  have hline : (chomp (c :: rest ++ '=' :: value)).dropWhile isAsciiSpace
      = c :: rest ++ '=' :: chomp value := by
    rw [chomp_append_cons _ (by decide), List.cons_append,
      List.dropWhile_cons_of_neg (by simp [hspace])]
  have hpair : pair (c :: rest ++ '=' :: chomp value) = .entry (c :: rest) (trim value) := by
    unfold pair
    rw [cut_append_cons h.unassigned]
    simp only [h.closes, trim]
  unfold classify
  rw [hline, List.cons_append]
  split
  · next heq => cases heq
  · next heq => cases heq; exact absurd rfl hcomment
  · next heq => cases heq; exact absurd rfl hheader
  · exact hpair

theorem classify_header {name : Text} (h : ']' ∉ name) :
    classify ('[' :: name ++ [']']) = .header name := by
  have hchomp : chomp ('[' :: name ++ [']']) = '[' :: name ++ [']'] :=
    chomp_append_cons _ (by decide) []
  unfold classify
  rw [hchomp, List.cons_append, List.dropWhile_cons_of_neg (by decide)]
  simp only [cut_append_cons h]
  rfl

/-- A value that begins as no white space does keeps its beginning. -/
theorem prefix_trim {start value : Text} {c : Char} (hspace : isAsciiSpace c = false)
    (hreturn : '\r' ∉ c :: start) (h : c :: start <+: value) : c :: start <+: trim value := by
  obtain ⟨rest, rfl⟩ := h
  have hchomp : c :: start <+: chomp (c :: start ++ rest) := by
    unfold chomp
    split
    · next hlast =>
        cases rest with
        | nil =>
            rw [List.append_nil] at hlast
            exact absurd (List.mem_of_getLast? hlast) hreturn
        | cons d rest =>
            rw [List.dropLast_append_cons]
            exact List.prefix_append _ _
    · exact List.prefix_append _ _
  obtain ⟨rest', hrest⟩ := hchomp
  unfold trim
  rw [← hrest, List.cons_append, List.dropWhile_cons_of_neg (by simp [hspace])]
  exact List.prefix_append (c :: start) rest'

theorem trim_eq {start : Text} {c : Char} (hspace : isAsciiSpace c = false)
    (hreturn : '\r' ∉ c :: start) : trim (c :: start) = c :: start := by
  have hchomp : chomp (c :: start) = c :: start := by
    unfold chomp
    rw [if_neg fun hlast => hreturn (List.mem_of_getLast? hlast)]
  unfold trim
  rw [hchomp, List.dropWhile_cons_of_neg (by simp [hspace])]

/-- What the line of a pair leaves to be read on its own: all but the first line
of its value. -/
def strays (entries : List (Text × Text)) : List Line :=
  entries.flatMap fun p => (laterLines p.2).map classify

/-- The lines of one pair. -/
def pairLines : Text × Text → List Line
  | (key, value) => .entry key (trim (firstLine value)) :: (laterLines value).map classify

/-- What is read of the lines of a group. -/
def Group.reading (g : Group) : List Line := .header g.name :: g.entries.flatMap pairLines

structure Group.Writable (g : Group) : Prop where
  name : ']' ∉ g.name ∧ '\n' ∉ g.name
  keys : ∀ p ∈ g.entries, IsKey p.1 ∧ '\n' ∉ p.1

theorem lines_pair {key : Text} (h : IsKey key) (hline : '\n' ∉ key) (value : Text) :
    (Text.lines (key ++ '=' :: value)).map classify = pairLines (key, value) := by
  have hbefore : '\n' ∉ key ++ ['='] := by
    rw [List.mem_append, not_or]
    exact ⟨hline, by decide⟩
  rw [List.append_cons, lines_append hbefore, List.map_cons, ← List.append_cons,
    classify_pair h]
  rfl

theorem Group.Writable.lines {g : Group} (h : g.Writable) :
    (g.lines.flatMap Text.lines).map classify = g.reading := by
  have hheader : '\n' ∉ '[' :: g.name ++ [']'] := by
    simp only [List.cons_append, List.mem_cons, List.mem_append, not_or]
    exact ⟨by decide, h.name.2, by decide, List.not_mem_nil⟩
  have hpairs : ∀ entries : List (Text × Text), (∀ p ∈ entries, IsKey p.1 ∧ '\n' ∉ p.1) →
      ((entries.map fun (key, value) => key ++ '=' :: value).flatMap Text.lines).map classify
        = entries.flatMap pairLines := by
    intro entries hkeys
    induction entries with
    | nil => rfl
    | cons p entries ih =>
        have hp := hkeys p List.mem_cons_self
        rw [List.map_cons, List.flatMap_cons, List.map_append, List.flatMap_cons,
          ih fun q hq => hkeys q (List.mem_cons_of_mem p hq), lines_pair hp.1 hp.2]
  unfold Group.lines Group.reading
  rw [List.flatMap_cons, lines_eq_singleton hheader, List.map_append, List.map_singleton,
    classify_header h.name.1, hpairs _ h.keys, List.singleton_append]

/-- The lines of a text that was written, as they are read. -/
theorem lines_write {g : Group} {gs : List Group} (hg : g.Writable)
    (hgs : ∀ g ∈ gs, g.Writable) :
    (Text.lines (write g gs)).map classify
      = g.reading ++ gs.flatMap (fun g => .ignored :: g.reading) ++ [.ignored] := by
  have hrest : ((gs.flatMap fun g => [] :: g.lines).flatMap Text.lines).map classify
      = gs.flatMap fun g => .ignored :: g.reading := by
    induction gs with
    | nil => rfl
    | cons g gs ih =>
        rw [List.flatMap_cons, List.flatMap_append, List.map_append, List.flatMap_cons,
          ih fun g' hg' => hgs g' (List.mem_cons_of_mem g hg'), List.flatMap_cons,
          List.map_append, (hgs g List.mem_cons_self).lines]
        rfl
  unfold write
  rw [lines_joinLines (by simp [Group.lines]), List.map_append, List.flatMap_append,
    List.map_append, hg.lines, hrest]
  rfl

/-- A pair is read back with the first line of its value, and then whatever its
other lines say. -/
def readPair : Text × Text → List (Text × Text)
  | (key, value) =>
      (key, trim (firstLine value))
        :: ((laterLines value).map classify).filterMap Line.entry?

def Group.readBack (g : Group) : Group := ⟨g.name, g.entries.flatMap readPair⟩

theorem filterMap_pairLines (entries : List (Text × Text)) :
    (entries.flatMap pairLines).filterMap Line.entry? = entries.flatMap readPair := by
  induction entries with
  | nil => rfl
  | cons p entries ih =>
      rw [List.flatMap_cons, List.filterMap_append, ih, List.flatMap_cons]
      rfl

/-- Where no stray line is a header, the group that is read is the group that was
written. -/
theorem collect_reading {g : Group} (h : ∀ l ∈ strays g.entries, l.isHeader = false)
    (after : List Line) :
    collect (g.reading ++ after)
      = ([], ⟨g.name, g.readBack.entries ++ (collect after).1⟩ :: (collect after).2) := by
  have hlines : ∀ l ∈ g.entries.flatMap pairLines, l.isHeader = false := by
    intro l hl
    obtain ⟨p, hp, hl⟩ := List.mem_flatMap.mp hl
    rcases List.mem_cons.mp hl with rfl | hl
    · rfl
    · exact h l (List.mem_flatMap.mpr ⟨p, hp, hl⟩)
  show ([], (⟨g.name, (collect (g.entries.flatMap pairLines ++ after)).1⟩
    :: (collect (g.entries.flatMap pairLines ++ after)).2 : List Group)) = _
  rw [collect_append hlines, filterMap_pairLines]
  rfl

/-- Groups whose stray lines are no headers are read as they were written. -/
theorem read_write {g : Group} {gs : List Group} (hg : g.Writable)
    (hgs : ∀ g ∈ gs, g.Writable)
    (h : ∀ g' ∈ g :: gs, ∀ l ∈ strays g'.entries, l.isHeader = false) :
    read (write g gs) = (g :: gs).map Group.readBack := by
  have hrest : collect (gs.flatMap (fun g => .ignored :: g.reading) ++ [.ignored])
      = ([], gs.map Group.readBack) := by
    have hstrays : ∀ g ∈ gs, ∀ l ∈ strays g.entries, l.isHeader = false :=
      fun g hg => h g (List.mem_cons_of_mem _ hg)
    clear h hgs
    induction gs with
    | nil => rfl
    | cons g gs ih =>
        have ih := ih fun g' hg' => hstrays g' (List.mem_cons_of_mem g hg')
        rw [List.flatMap_cons, List.append_assoc, List.cons_append]
        show collect (g.reading ++ _) = _
        rw [collect_reading (hstrays g List.mem_cons_self), ih, List.append_nil]
        rfl
  unfold read
  rw [lines_write hg hgs, List.append_assoc, collect_reading (h g List.mem_cons_self), hrest,
    List.append_nil]
  rfl

theorem mem_readBack {q : Text × Text} {entries : List (Text × Text)} :
    q ∈ entries.flatMap readPair ↔
      (∃ p ∈ entries, q = (p.1, trim (firstLine p.2)))
        ∨ ∃ l ∈ strays entries, l.entry? = some q := by
  constructor
  · intro h
    obtain ⟨p, hp, hq⟩ := List.mem_flatMap.mp h
    rcases List.mem_cons.mp hq with rfl | hq
    · exact .inl ⟨p, hp, rfl⟩
    · obtain ⟨l, hl, hlq⟩ := List.mem_filterMap.mp hq
      exact .inr ⟨l, List.mem_flatMap.mpr ⟨p, hp, hl⟩, hlq⟩
  · rintro (⟨p, hp, rfl⟩ | ⟨l, hl, hlq⟩)
    · exact List.mem_flatMap.mpr ⟨p, hp, List.mem_cons_self⟩
    · obtain ⟨p, hp, hl⟩ := List.mem_flatMap.mp hl
      exact List.mem_flatMap.mpr
        ⟨p, hp, List.mem_cons_of_mem _ (List.mem_filterMap.mpr ⟨l, hl, hlq⟩)⟩

/-- The value of a line is a part of it. -/
theorem mem_of_classify {line key value : Text} (h : classify line = .entry key value)
    {c : Char} (hc : c ∈ value) : c ∈ line := by
  have hpair : ∀ text : Text, pair text = .entry key value → c ∈ text := by
    intro text htext
    unfold pair at htext
    split at htext
    · cases htext
    · next hcut =>
        cases htext
        rw [(cut_eq_some hcut).1]
        exact List.mem_append_right _
          (List.mem_cons_of_mem _ ((List.dropWhile_sublist _).mem hc))
    · cases htext
  have hline : ∀ d, d ∈ (chomp line).dropWhile isAsciiSpace → d ∈ line := by
    intro d hd
    have hd := (List.dropWhile_sublist _).mem hd
    unfold chomp at hd
    split at hd
    · exact (List.dropLast_sublist line).mem hd
    · exact hd
  unfold classify at h
  split at h
  · cases h
  · cases h
  · next rest heq =>
      split at h
      · split at h
        · cases h
        · exact hline c (heq ▸ hpair _ h)
      · exact hline c (heq ▸ hpair _ h)
  · exact hline c (hpair _ h)

/-! ## Counting what was read

Stray lines or not, every header makes a group and every pair is in one. -/

theorem countP_reading (g : Group) :
    g.reading.countP Line.isHeader = 1 + (strays g.entries).countP Line.isHeader := by
  have hpairs : ∀ entries : List (Text × Text),
      (entries.flatMap pairLines).countP Line.isHeader
        = (strays entries).countP Line.isHeader := by
    intro entries
    induction entries with
    | nil => rfl
    | cons p entries ih =>
        unfold strays at *
        rw [List.flatMap_cons, List.countP_append, List.flatMap_cons, List.countP_append, ih]
        rfl
  unfold Group.reading
  rw [List.countP_cons_of_pos (by rfl), hpairs, Nat.add_comm]

theorem length_read_write {g : Group} {gs : List Group} (hg : g.Writable)
    (hgs : ∀ g ∈ gs, g.Writable) :
    (read (write g gs)).length
      = gs.length + 1
        + ((g :: gs).flatMap fun g => strays g.entries).countP Line.isHeader := by
  have hrest : (gs.flatMap fun g => .ignored :: g.reading).countP Line.isHeader
      = gs.length + (gs.flatMap fun g => strays g.entries).countP Line.isHeader := by
    clear hgs
    induction gs with
    | nil => rfl
    | cons g gs ih =>
        rw [List.flatMap_cons, List.countP_append, List.countP_cons_of_neg
          (by simp [Line.isHeader]),
          countP_reading, ih, List.flatMap_cons, List.countP_append, List.length_cons]
        omega
  unfold read
  rw [length_collect, lines_write hg hgs, List.countP_append, List.countP_append, hrest,
    countP_reading, List.flatMap_cons, List.countP_append]
  have hlast : [Line.ignored].countP Line.isHeader = 0 := rfl
  omega

theorem entries_read_write {g : Group} {gs : List Group} (hg : g.Writable)
    (hgs : ∀ g ∈ gs, g.Writable) :
    (read (write g gs)).flatMap Group.entries
      = (g :: gs).flatMap fun g => g.readBack.entries := by
  have hall := entries_collect ((Text.lines (write g gs)).map classify)
  have hfirst : (collect ((Text.lines (write g gs)).map classify)).1 = [] := by
    rw [lines_write hg hgs]
    rfl
  have hrest : (gs.flatMap fun g => .ignored :: g.reading).filterMap Line.entry?
      = gs.flatMap fun g => g.readBack.entries := by
    clear hgs hall hfirst
    induction gs with
    | nil => rfl
    | cons g gs ih =>
        rw [List.flatMap_cons, List.filterMap_append, ih, List.flatMap_cons]
        exact congrArg (· ++ _) (filterMap_pairLines g.entries)
  rw [hfirst, List.nil_append, lines_write hg hgs, List.filterMap_append,
    List.filterMap_append, hrest] at hall
  unfold read
  rw [lines_write hg hgs, hall, List.flatMap_cons, List.filterMap_cons_none rfl,
    List.filterMap_nil, List.append_nil]
  exact congrArg (· ++ _) (filterMap_pairLines g.entries)

theorem count_flatMap_eq_length {key : Text} {gs : List Group}
    (h : ∀ g ∈ gs, (g.entries.map Prod.fst).count key = 1) :
    ((gs.flatMap Group.entries).map Prod.fst).count key = gs.length := by
  induction gs with
  | nil => rfl
  | cons g gs ih =>
      rw [List.flatMap_cons, List.map_append, List.count_append, h g List.mem_cons_self,
        ih fun g' hg' => h g' (List.mem_cons_of_mem g hg'), List.length_cons, Nat.add_comm]

/-- How often a key is read: as often as it was written, and once more for every
stray pair with it. -/
theorem count_readBack (key : Text) (entries : List (Text × Text)) :
    ((entries.flatMap readPair).map Prod.fst).count key
      = (entries.map Prod.fst).count key
        + (((strays entries).filterMap Line.entry?).map Prod.fst).count key := by
  induction entries with
  | nil => rfl
  | cons p entries ih =>
      have hcons : ∀ (k : Text) (keys : List Text),
          (k :: keys).count key = [k].count key + keys.count key := by
        intro k keys
        rw [← List.count_append, List.singleton_append]
      have hpair : ((readPair p).map Prod.fst).count key
          = [p.1].count key
            + ((((laterLines p.2).map classify).filterMap Line.entry?).map Prod.fst).count
                key := hcons _ _
      unfold strays at *
      rw [List.flatMap_cons, List.map_append, List.count_append, ih, hpair, List.flatMap_cons,
        List.filterMap_append, List.map_append, List.count_append, List.map_cons,
        hcons p.1 (entries.map Prod.fst)]
      omega

end Spaces.Library.KeyFile
