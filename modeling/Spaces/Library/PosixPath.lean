import Mathlib.Data.List.Basic

/-!
# Pure POSIX paths

What Python's `PurePosixPath` makes of a text: the root, which is one slash or just two,
and the components, without the empty ones and the single dots. Two dots are a component
like any other. A path has one text, and an absolute one is read back from it.
-/

namespace Spaces.Library

structure PathChars (α : Type) where
  slash : α
  dot : α
  dot_ne_slash : dot ≠ slash

variable {α : Type} {chars : PathChars α}

@[ext]
structure Component (chars : PathChars α) where
  name : List α
  nonempty : name ≠ []
  ne_dot : name ≠ [chars.dot]
  noSlash : chars.slash ∉ name

inductive Root where
  | relative
  | single
  | double
  deriving DecidableEq

structure PurePath (chars : PathChars α) where
  root : Root
  parts : List (Component chars)

/-- The component that leads back to the parent. -/
def Component.up (chars : PathChars α) : Component chars where
  name := [chars.dot, chars.dot]
  nonempty := by simp
  ne_dot := by simp
  noSlash := by simp [chars.dot_ne_slash.symm]

def PurePath.joined (parts : List (Component chars)) : List α :=
  [chars.slash].intercalate (parts.map Component.name)

theorem mem_intercalate {sep : List α} {names : List (List α)} {name : List α}
    (h : name ∈ names) {x : α} (hx : x ∈ name) : x ∈ sep.intercalate names := by
  induction names with
  | nil => cases h
  | cons first names ih =>
      cases names with
      | nil =>
          rw [List.intercalate_singleton]
          rwa [List.mem_singleton.mp h] at hx
      | cons second names =>
          rw [List.intercalate_cons_cons]
          rcases List.mem_cons.mp h with rfl | h
          · exact List.mem_append_left _ (List.mem_append_left _ hx)
          · exact List.mem_append_right _ (ih h)

theorem mem_joined {parts : List (Component chars)} {x : α} :
    x ∈ PurePath.joined parts →
      x = chars.slash ∨ ∃ c ∈ parts, x ∈ c.name := by
  intro h
  induction parts with
  | nil => simp [PurePath.joined] at h
  | cons c parts ih =>
      cases parts with
      | nil =>
          rw [PurePath.joined, List.map_cons, List.map_nil, List.intercalate_singleton] at h
          exact .inr ⟨c, List.mem_cons_self .., h⟩
      | cons d parts =>
          rw [PurePath.joined, List.map_cons, List.map_cons, List.intercalate_cons_cons] at h
          rcases List.mem_append.mp h with h | h
          · rcases List.mem_append.mp h with h | h
            · exact .inr ⟨c, List.mem_cons_self .., h⟩
            · exact .inl (List.mem_singleton.mp h)
          · rcases ih h with h | ⟨e, he, h⟩
            · exact .inl h
            · exact .inr ⟨e, List.mem_cons_of_mem _ he, h⟩

theorem PurePath.joined_cons (c : Component chars) {parts : List (Component chars)}
    (h : parts ≠ []) :
    PurePath.joined (c :: parts) = c.name ++ chars.slash :: PurePath.joined parts := by
  rw [joined, List.map_cons, List.intercalate_cons_of_ne_nil (by simpa using h),
    List.append_assoc, List.singleton_append, joined]

theorem PurePath.joined_append {front back : List (Component chars)} (hfront : front ≠ [])
    (hback : back ≠ []) :
    PurePath.joined (front ++ back) =
      PurePath.joined front ++ chars.slash :: PurePath.joined back := by
  induction front with
  | nil => exact absurd rfl hfront
  | cons c front ih =>
      rcases eq_or_ne front [] with rfl | hne
      · rw [List.singleton_append, joined_cons c hback]
        simp [joined]
      · rw [List.cons_append, joined_cons c (by simp [hne]), ih hne, joined_cons c hne,
          List.append_assoc, List.cons_append]

theorem joined_head_ne (parts : List (Component chars)) :
    (PurePath.joined parts).head? ≠ some chars.slash := by
  cases parts with
  | nil => simp [PurePath.joined]
  | cons c parts =>
      have hfirst : ∃ rest, PurePath.joined (c :: parts) = c.name ++ rest := by
        cases parts with
        | nil => exact ⟨[], by simp [PurePath.joined]⟩
        | cons d parts => exact ⟨_, PurePath.joined_cons c (by simp)⟩
      obtain ⟨rest, hrest⟩ := hfirst
      rw [hrest]
      cases hname : c.name with
      | nil => exact absurd hname c.nonempty
      | cons x name =>
          intro hhead
          cases hhead
          exact c.noSlash (by rw [hname]; exact List.mem_cons_self ..)

/-- `path.name` -/
def PurePath.name (path : PurePath chars) : List α :=
    (path.parts.getLast?.map Component.name).getD []

/-- `path.parents` -/
def PurePath.parents (path : PurePath chars) : List (PurePath chars) :=
  path.parts.inits.reverse.tail.map fun parts => ⟨path.root, parts⟩

theorem PurePath.slash_not_mem_name (path : PurePath chars) : chars.slash ∉ path.name := by
  unfold name
  cases path.parts.getLast? with
  | none => exact List.not_mem_nil
  | some last => exact last.noSlash

variable [DecidableEq α]

instance : DecidableEq (Component chars) := fun a b =>
  decidable_of_iff (a.name = b.name) Component.ext_iff.symm

instance : DecidableEq (PurePath chars) := fun a b =>
  decidable_of_iff (a.root = b.root ∧ a.parts = b.parts) <| by
    cases a
    cases b
    simp

def Component.ofName (chars : PathChars α) (name : List α) : Option (Component chars) :=
  if h : name ≠ [] ∧ name ≠ [chars.dot] ∧ chars.slash ∉ name then
    some ⟨name, h.1, h.2.1, h.2.2⟩
  else none

def components (chars : PathChars α) (text : List α) : List (Component chars) :=
  (text.splitOn chars.slash).filterMap (Component.ofName chars)

namespace PurePath

/-- `PurePosixPath(text)`. -/
def parse (chars : PathChars α) (text : List α) : PurePath chars :=
  match text with
  | [] => ⟨.relative, []⟩
  | first :: rest =>
      if first ≠ chars.slash then ⟨.relative, components chars text⟩
      else if rest.head? = some chars.slash ∧ rest.tail.head? ≠ some chars.slash then
        ⟨.double, components chars text⟩
      else ⟨.single, components chars text⟩

/-- `str(path)`. -/
def str (path : PurePath chars) : List α :=
  match path.root, path.parts with
  | .relative, [] => [chars.dot]
  | .relative, parts => joined parts
  | .single, parts => chars.slash :: joined parts
  | .double, parts => chars.slash :: chars.slash :: joined parts

def isAbsolute (path : PurePath chars) : Bool := decide (path.root ≠ .relative)

/-- The path itself or one of `path.parents`. -/
def within (path other : PurePath chars) : Bool :=
  decide (path.root = other.root) && other.parts.isPrefixOf path.parts

/-- `path.joinpath(*names)` -/
def joinpath (path : PurePath chars) (names : List (Component chars)) : PurePath chars :=
  ⟨path.root, path.parts ++ names⟩

/-- `path / text` -/
def div (path : PurePath chars) (text : List α) : PurePath chars :=
  let other := parse chars text
  if other.root ≠ .relative then other else path.joinpath other.parts

end PurePath

theorem PurePath.within_iff {path other : PurePath chars} :
    path.within other = true ↔ path.root = other.root ∧ other.parts <+: path.parts := by
  simp [within]

/-! ## Reading a path back from its text -/

@[simp] theorem Component.ofName_name (c : Component chars) :
    Component.ofName chars c.name = some c := by
  rw [Component.ofName, dif_pos ⟨c.nonempty, c.ne_dot, c.noSlash⟩]

theorem components_joined (parts : List (Component chars)) :
    components chars (PurePath.joined parts) = parts := by
  cases parts with
  | nil => simp [components, PurePath.joined, Component.ofName]
  | cons c parts =>
      rw [components, PurePath.joined, List.splitOn_intercalate]
      · rw [List.filterMap_map]
        have hsome : (Component.ofName chars ∘ Component.name) = some := by
          funext c
          exact Component.ofName_name c
        rw [hsome, List.filterMap_some]
      · intro name hname
        obtain ⟨d, -, rfl⟩ := List.mem_map.mp hname
        exact d.noSlash
      · simp

theorem mem_components {text : List α} {c : Component chars} (h : c ∈ components chars text)
    {x : α} (hx : x ∈ c.name) : x ∈ text := by
  obtain ⟨name, hname, hsome⟩ := List.mem_filterMap.mp h
  unfold Component.ofName at hsome
  split at hsome
  · cases hsome
    have hmem : x ∈ [chars.slash].intercalate (text.splitOn chars.slash) :=
      mem_intercalate hname hx
    rwa [List.intercalate_splitOn] at hmem
  · cases hsome

@[simp] theorem components_slash (text : List α) :
    components chars (chars.slash :: text) = components chars text := by
  rw [components, List.splitOn_cons_eq_if_modifyHead, if_pos (by simp), List.filterMap_cons]
  simp [Component.ofName, components]

@[simp] theorem components_nil : components chars [] = [] := by
  simp [components, Component.ofName]

theorem components_append_slash (text rest : List α) :
    components chars (text ++ chars.slash :: rest) =
      components chars text ++ components chars rest := by
  rw [components, List.splitOn_append_cons_self, List.filterMap_append]
  rfl

theorem components_dropWhile_slash (text : List α) :
    components chars (text.dropWhile (· = chars.slash)) = components chars text := by
  induction text with
  | nil => rfl
  | cons x text ih =>
      by_cases hx : x = chars.slash
      · subst hx
        rw [List.dropWhile_cons_of_pos (by simp), ih, components_slash]
      · rw [List.dropWhile_cons_of_neg (by simpa using hx)]

theorem PurePath.parse_parts (text : List α) :
    (parse chars text).parts = components chars text := by
  unfold parse
  split
  · exact components_nil.symm
  · split
    · rfl
    · split <;> rfl

theorem PurePath.parse_root_of_head {text : List α} (h : text.head? ≠ some chars.slash) :
    (parse chars text).root = .relative := by
  cases text with
  | nil => rfl
  | cons first rest =>
      have hfirst : first ≠ chars.slash := fun hfirst => h (congrArg some hfirst)
      rw [parse, if_pos hfirst]

theorem PurePath.parse_root_relative {text : List α} (h : chars.slash ∉ text) :
    (parse chars text).root = .relative :=
  parse_root_of_head fun hhead => h (List.mem_of_head? hhead)

theorem PurePath.div_root {path : PurePath chars} {text : List α} (h : chars.slash ∉ text) :
    (path.div text).root = path.root := by
  rw [div, if_neg (not_not.mpr (parse_root_relative h))]
  rfl

theorem PurePath.parse_str {path : PurePath chars} (h : path.root = .single) :
    parse chars path.str = path := by
  obtain ⟨root, parts⟩ := path
  cases h
  rw [str, parse, if_neg (by simp), if_neg (fun hand => joined_head_ne parts hand.1)]
  rw [components_slash, components_joined]

/-- An absolute path that is read from its own text and has no second slash. -/
theorem PurePath.parse_root {text : List α}
    (habs : (parse chars text).isAbsolute = true)
    (hdouble : (parse chars text).root ≠ .double) : (parse chars text).root = .single := by
  cases hroot : (parse chars text).root with
  | relative => simp [isAbsolute, hroot] at habs
  | single => rfl
  | double => exact absurd hroot hdouble

end Spaces.Library
