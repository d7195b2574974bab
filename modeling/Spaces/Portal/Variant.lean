import Mathlib.Data.List.Basic

/-!
# D-Bus values

The router moves D-Bus values between two buses. What it looks at is their
shape: object paths, which it translates at every depth, and `a{sv}` option
dictionaries, whose entries it reads, inserts and removes. The other basic
types only have to survive the trip, so they share one constructor that
records the type code and, for integers, booleans and descriptors, the value.

`texts` collects the strings and object paths inside a value. It is what a
receiver can read out of the value as a name of something, and the isolation
results are statements about it.
-/

namespace Spaces.Portal

inductive Variant where
  | str (text : String)
  | objectPath (path : String)
  /-- A number, a boolean or a descriptor index, with its D-Bus type code. -/
  | basic (code : Char) (value : Int)
  | variant (child : Variant)
  | dictEntry (key value : Variant)
  | tuple (children : List Variant)
  /-- An array, with the signature of its elements. -/
  | array (element : String) (children : List Variant)

namespace Variant

def bool (b : Bool) : Variant := .basic 'b' (if b then 1 else 0)
def uint32 (n : Nat) : Variant := .basic 'u' n
def int32 (n : Int) : Variant := .basic 'i' n
def handle (n : Nat) : Variant := .basic 'h' n

mutual

/-- The type string of a value. -/
def signature : Variant → String
  | .str _ => "s"
  | .objectPath _ => "o"
  | .basic code _ => String.ofList [code]
  | .variant _ => "v"
  | .dictEntry key value => "\x7b" ++ key.signature ++ value.signature ++ "\x7d"
  | .tuple children => "(" ++ signatures children ++ ")"
  | .array element _ => "a" ++ element

def signatures : List Variant → String
  | [] => ""
  | child :: rest => child.signature ++ signatures rest

end

/-- `g_variant_is_of_type` for a definite type. -/
def isOfType (value : Variant) (type : String) : Bool := value.signature == type

mutual

/-- Rewrite every object path of a value, at any depth. -/
def mapPaths (f : String → String) : Variant → Variant
  | .objectPath path => .objectPath (f path)
  | .variant child => .variant (child.mapPaths f)
  | .dictEntry key value => .dictEntry (key.mapPaths f) (value.mapPaths f)
  | .tuple children => .tuple (mapPathsList f children)
  | .array element children => .array element (mapPathsList f children)
  | .str text => .str text
  | .basic code value => .basic code value

def mapPathsList (f : String → String) : List Variant → List Variant
  | [] => []
  | child :: rest => child.mapPaths f :: mapPathsList f rest

end

mutual

/-- The strings inside a value, at any depth. -/
def strings : Variant → List String
  | .str text => [text]
  | .objectPath _ | .basic _ _ => []
  | .variant child => child.strings
  | .dictEntry key value => key.strings ++ value.strings
  | .tuple children => stringsList children
  | .array _ children => stringsList children

def stringsList : List Variant → List String
  | [] => []
  | child :: rest => child.strings ++ stringsList rest

end

mutual

/-- The object paths inside a value, at any depth. -/
def paths : Variant → List String
  | .objectPath path => [path]
  | .str _ | .basic _ _ => []
  | .variant child => child.paths
  | .dictEntry key value => key.paths ++ value.paths
  | .tuple children => pathsList children
  | .array _ children => pathsList children

def pathsList : List Variant → List String
  | [] => []
  | child :: rest => child.paths ++ pathsList rest

end

/-- Every name a receiver can read out of a value. -/
def texts (value : Variant) : List String := value.strings ++ value.paths

/-! ## Option dictionaries -/

/-- A dictionary of type `a{sv}`. -/
def vardict (entries : List (String × Variant)) : Variant :=
  .array "\x7bsv\x7d" (entries.map fun e => .dictEntry (.str e.1) (.variant e.2))

/-- The entries of an `a{sv}`, in order. -/
def entries : Variant → List (String × Variant)
  | .array _ children => children.filterMap fun
      | .dictEntry (.str key) (.variant value) => some (key, value)
      | _ => none
  | _ => []

/-- `g_variant_lookup_value` without an expected type: the first entry of the
key. -/
def lookupValue (dictionary : Variant) (key : String) : Option Variant :=
  (dictionary.entries.find? fun e => e.1 == key).map Prod.snd

/-- `g_variant_lookup (dictionary, key, "&s", ..)`. -/
def lookupString (dictionary : Variant) (key : String) : Option String :=
  match dictionary.lookupValue key with
  | some (.str text) => some text
  | _ => none

/-- `g_variant_dict_insert`: the dictionary keeps one value for each key. -/
def dictInsert (key : String) (value : Variant) (entries : List (String × Variant)) :
    List (String × Variant) :=
  entries.filter (fun e => e.1 != key) ++ [(key, value)]

/-- `g_variant_dict_init`: a later entry of a key replaces an earlier one. -/
def dictInit (dictionary : Variant) : List (String × Variant) :=
  dictionary.entries.foldl (fun acc e => dictInsert e.1 e.2 acc) []

/-! ## What a rewrite keeps -/

mutual

@[simp] theorem strings_mapPaths (f : String → String) : ∀ v : Variant,
    (v.mapPaths f).strings = v.strings
  | .str _ | .basic _ _ | .objectPath _ => by simp only [mapPaths, strings]
  | .variant child => by
      simp only [mapPaths, strings, strings_mapPaths f child]
  | .dictEntry key value => by
      simp only [mapPaths, strings, strings_mapPaths f key, strings_mapPaths f value]
  | .tuple children | .array _ children => by
      simp only [mapPaths, strings, stringsList_mapPathsList f children]

@[simp] theorem stringsList_mapPathsList (f : String → String) :
    ∀ vs : List Variant, stringsList (mapPathsList f vs) = stringsList vs
  | [] => rfl
  | v :: vs => by
      simp only [mapPathsList, stringsList, strings_mapPaths f v,
        stringsList_mapPathsList f vs]

end

mutual

@[simp] theorem paths_mapPaths (f : String → String) : ∀ v : Variant,
    (v.mapPaths f).paths = v.paths.map f
  | .str _ | .basic _ _ | .objectPath _ => by simp [mapPaths, paths]
  | .variant child => by simp only [mapPaths, paths, paths_mapPaths f child]
  | .dictEntry key value => by
      simp only [mapPaths, paths, paths_mapPaths f key, paths_mapPaths f value,
        List.map_append]
  | .tuple children | .array _ children => by
      simp only [mapPaths, paths, pathsList_mapPathsList f children]

@[simp] theorem pathsList_mapPathsList (f : String → String) :
    ∀ vs : List Variant, pathsList (mapPathsList f vs) = (pathsList vs).map f
  | [] => rfl
  | v :: vs => by
      simp only [mapPathsList, pathsList, paths_mapPaths f v,
        pathsList_mapPathsList f vs, List.map_append]

end

/-- A rewritten value names the strings of the original and the images of its
object paths. -/
theorem mem_texts_mapPaths {f : String → String} {s : String} {v : Variant} :
    s ∈ (v.mapPaths f).texts ↔ s ∈ v.strings ∨ ∃ p ∈ v.paths, s = f p := by
  simp [texts, eq_comm]

theorem mem_stringsList {s : String} {vs : List Variant} :
    s ∈ stringsList vs ↔ ∃ v ∈ vs, s ∈ v.strings := by
  induction vs with
  | nil => simp [stringsList]
  | cons v vs ih => simp [stringsList, ih]

theorem mem_pathsList {s : String} {vs : List Variant} :
    s ∈ pathsList vs ↔ ∃ v ∈ vs, s ∈ v.paths := by
  induction vs with
  | nil => simp [pathsList]
  | cons v vs ih => simp [pathsList, ih]

theorem mem_texts_array {element s : String} {vs : List Variant} :
    s ∈ (array element vs).texts ↔ ∃ v ∈ vs, s ∈ v.texts := by
  simp only [texts, strings, paths, List.mem_append, mem_stringsList, mem_pathsList,
    ← exists_or, ← and_or_left]

theorem mem_texts_tuple {s : String} {vs : List Variant} :
    s ∈ (variant (tuple vs)).texts ↔ ∃ v ∈ vs, s ∈ v.texts := by
  simp only [texts, strings, paths, List.mem_append, mem_stringsList, mem_pathsList,
    ← exists_or, ← and_or_left]

/-! ## What a dictionary carries -/

theorem mem_dictInsert {key : String} {value : Variant}
    {es : List (String × Variant)} {e : String × Variant}
    (h : e ∈ dictInsert key value es) : e ∈ es ∨ e = (key, value) := by
  simp only [dictInsert, List.mem_append, List.mem_filter, List.mem_singleton] at h
  exact h.imp_left And.left

theorem mem_dictInit {d : Variant} {e : String × Variant} (h : e ∈ d.dictInit) :
    e ∈ d.entries := by
  have key : ∀ (es acc : List (String × Variant)),
      e ∈ es.foldl (fun acc e => dictInsert e.1 e.2 acc) acc → e ∈ acc ∨ e ∈ es := by
    intro es
    induction es with
    | nil => exact fun acc h => .inl h
    | cons x xs ih =>
        intro acc h
        rcases ih _ h with hacc | hxs
        · rcases mem_dictInsert hacc with hold | rfl
          · exact .inl hold
          · exact .inr List.mem_cons_self
        · exact .inr (List.mem_cons_of_mem _ hxs)
  exact (key _ _ h).resolve_left List.not_mem_nil

/-- What an entry of a dictionary names, the dictionary names. -/
theorem texts_of_mem_entries {d : Variant} {e : String × Variant}
    (he : e ∈ d.entries) {s : String} (hs : s = e.1 ∨ s ∈ e.2.texts) :
    s ∈ d.texts := by
  cases d with
  | array element children =>
      simp only [entries, List.mem_filterMap] at he
      obtain ⟨child, hchild, hmatch⟩ := he
      split at hmatch
      · next key value =>
          cases hmatch
          rw [texts, List.mem_append, strings, paths, mem_stringsList, mem_pathsList]
          rcases hs with rfl | hs
          · exact .inl ⟨_, hchild, by simp [strings]⟩
          · rw [texts, List.mem_append] at hs
            refine hs.imp (fun h => ⟨_, hchild, ?_⟩) (fun h => ⟨_, hchild, ?_⟩)
            · simp [strings, h]
            · simp [paths, h]
      · cases hmatch
  | _ => cases he

theorem mem_texts_of_lookupValue {d v : Variant} {key : String}
    (h : d.lookupValue key = some v) {s : String} (hs : s ∈ v.texts) : s ∈ d.texts := by
  obtain ⟨e, hfind, rfl⟩ := Option.map_eq_some_iff.mp h
  exact texts_of_mem_entries (List.mem_of_find?_eq_some hfind) (.inr hs)

theorem mem_texts_of_lookupString {d : Variant} {key s : String}
    (h : d.lookupString key = some s) : s ∈ d.texts := by
  unfold lookupString at h
  split at h
  · next text hvalue =>
      cases h
      exact mem_texts_of_lookupValue hvalue (by simp [texts, strings])
  · cases h

/-- A dictionary names its keys and what its values name. -/
theorem mem_texts_vardict {es : List (String × Variant)} {s : String} :
    s ∈ (vardict es).texts ↔ ∃ e ∈ es, s = e.1 ∨ s ∈ e.2.texts := by
  simp only [vardict, texts, strings, paths, List.mem_append, mem_stringsList,
    mem_pathsList, List.mem_map]
  constructor
  · rintro (⟨_, ⟨e, he, rfl⟩, hs⟩ | ⟨_, ⟨e, he, rfl⟩, hs⟩)
    · simp only [strings, List.singleton_append, List.mem_cons] at hs
      exact ⟨e, he, hs.imp_right .inl⟩
    · simp only [paths, List.nil_append] at hs
      exact ⟨e, he, .inr (.inr hs)⟩
  · rintro ⟨e, he, rfl | hs | hs⟩
    · exact .inl ⟨_, ⟨e, he, rfl⟩, by simp [strings]⟩
    · exact .inl ⟨_, ⟨e, he, rfl⟩, by simp [strings, hs]⟩
    · exact .inr ⟨_, ⟨e, he, rfl⟩, by simp [paths, hs]⟩

end Variant

end Spaces.Portal
