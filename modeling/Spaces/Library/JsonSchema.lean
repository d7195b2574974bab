import Spaces.Library.Json

/-!
# What a JSON Schema says of a document

`Valid` reads the keywords that a schema document carries and asks all of them of
the value, each by itself: a keyword of a schema is never switched off by another
one. A number is compared by the value it says, and an integer is a number
without a fraction, however it was written.

An object is a list of members here, so that a key may be repeated. Then each of
its members has to be valid.
-/

namespace Spaces.Library

open Json

namespace JsonSchema

def HasType (type : String) : Json → Prop
  | .null => type = "null"
  | .bool _ => type = "boolean"
  | .uint _ | .sint _ => type = "integer" ∨ type = "number"
  | .real q => type = "number" ∨ (type = "integer" ∧ q.den = 1)
  | .str _ => type = "string"
  | .arr _ => type = "array"
  | .obj _ => type = "object"

/-- The same JSON value: numbers by what they say, objects by what they hold
under each key. -/
inductive Same : Json → Json → Prop where
  | refl (value : Json) : Same value value
  | number {v w : Json} {q : Rat} : v.number = some q → w.number = some q → Same v w
  | arr {xs ys : List Json} : List.Forall₂ Same xs ys → Same (arr xs) (arr ys)
  | obj {xs ys : List (String × Json)} :
      (∀ key, Option.Rel Same (xs.lookup key) (ys.lookup key)) → Same (obj xs) (obj ys)

/-- What the schema says of a property of that name. -/
def property (schema : Json) (name : String) : Option Json :=
  (schema.get "properties").bind (Json.get name)

/-- The bound that a keyword of the schema sets. -/
def bound (schema : Json) (keyword : String) : Option Rat :=
  (schema.get keyword).bind Json.number

structure InRange (schema : Json) (q : Rat) : Prop where
  minimum : ∀ least, bound schema "minimum" = some least → least ≤ q
  maximum : ∀ most, bound schema "maximum" = some most → q ≤ most

/-- The keywords about an object that do not look into its members. -/
structure Shaped (schema : Json) (members : List (String × Json)) : Prop where
  required : ∀ name, str name ∈ items (schema.get "required") → name ∈ members.map Prod.fst
  additionalProperties : schema.get "additionalProperties" = some (bool false) →
    ∀ m ∈ members, (property schema m.1).isSome

structure Sized (schema : Json) (elements : List Json) : Prop where
  minItems : ∀ least, bound schema "minItems" = some least → least ≤ elements.length
  maxItems : ∀ most, bound schema "maxItems" = some most → elements.length ≤ most

theorem property_sizeOf {schema p : Json} {name : String} (h : property schema name = some p) :
    sizeOf p < sizeOf schema := by
  obtain ⟨properties, hproperties, hp⟩ := Option.bind_eq_some_iff.mp h
  exact (sizeOf_lt_of_get hp).trans (sizeOf_lt_of_get hproperties)

theorem items_sizeOf {schema option : Json} {keyword : String}
    (h : option ∈ items (schema.get keyword)) : sizeOf option < sizeOf schema := by
  cases hget : schema.get keyword with
  | none => simp [hget, items] at h
  | some value =>
      have hlt := sizeOf_lt_of_get hget
      cases value with
      | arr elements =>
          have hmem : option ∈ elements := by simpa [hget, items] using h
          have := List.sizeOf_lt_of_mem hmem
          simp only [Json.arr.sizeOf_spec] at hlt
          omega
      | null | bool | uint | sint | real | str | obj => simp [hget, items] at h

def Valid (schema value : Json) : Prop :=
  (schema.get "anyOf" ≠ none →
    ∃ option, ∃ _h : option ∈ items (schema.get "anyOf"), Valid option value) ∧
  (∀ type, schema.get "type" = some (str type) → HasType type value) ∧
  (schema.get "enum" ≠ none → ∃ x ∈ items (schema.get "enum"), Same value x) ∧
  (∀ q, value.number = some q → InRange schema q) ∧
  (∀ members, value = obj members → Shaped schema members ∧
    ∀ m ∈ members, ∀ p, property schema m.1 = some p → Valid p m.2) ∧
  (∀ elements, value = arr elements → Sized schema elements ∧
    ∀ item, schema.get "items" = some item → ∀ e ∈ elements, Valid item e)
termination_by sizeOf schema
decreasing_by
  · exact items_sizeOf _h
  · exact property_sizeOf (by assumption)
  · exact sizeOf_lt_of_get (by assumption)

section

variable {s v : Json}

theorem Valid.anyOf (h : Valid s v) (hs : s.get "anyOf" ≠ none) :
    ∃ option ∈ items (s.get "anyOf"), Valid option v := by
  rw [Valid] at h
  obtain ⟨option, hmem, hoption⟩ := h.1 hs
  exact ⟨option, hmem, hoption⟩

/-- A schema that gives alternatives and says nothing else. -/
theorem valid_anyOf {options : List Json} {option : Json} (hmem : option ∈ options)
    (h : Valid option v) : Valid (obj [("anyOf", arr options)]) v := by
  have hother : ∀ key, key ≠ "anyOf" → Json.get key (obj [("anyOf", arr options)]) = none := by
    intro key hkey
    have hne : (key == "anyOf") = false := by simpa using hkey
    simp [Json.get, List.lookup_cons, hne]
  have hproperty : ∀ name, property (obj [("anyOf", arr options)]) name = none := by
    intro name
    rw [property, hother _ (by decide)]
    rfl
  have hbound : ∀ key, key ≠ "anyOf" → bound (obj [("anyOf", arr options)]) key = none := by
    intro key hkey
    rw [bound, hother key hkey]
    rfl
  rw [Valid]
  refine ⟨fun _ => ⟨option, hmem, h⟩, ?_, ?_, ?_, ?_, ?_⟩
  · intro type htype
    rw [hother _ (by decide)] at htype
    cases htype
  · intro henum
    exact (henum (hother _ (by decide))).elim
  · intro q _
    constructor
    · intro least hleast
      rw [hbound _ (by decide)] at hleast
      cases hleast
    · intro most hmost
      rw [hbound _ (by decide)] at hmost
      cases hmost
  · intro members _
    refine ⟨⟨?_, ?_⟩, ?_⟩
    · intro name hname
      rw [hother _ (by decide)] at hname
      cases hname
    · intro hclosed
      rw [hother _ (by decide)] at hclosed
      cases hclosed
    · intro m _ p hp
      rw [hproperty] at hp
      cases hp
  · intro elements _
    refine ⟨⟨?_, ?_⟩, ?_⟩
    · intro least hleast
      rw [hbound _ (by decide)] at hleast
      cases hleast
    · intro most hmost
      rw [hbound _ (by decide)] at hmost
      cases hmost
    · intro item hitem
      rw [hother _ (by decide)] at hitem
      cases hitem

theorem Valid.hasType (h : Valid s v) {type : String} (hs : s.get "type" = some (str type)) :
    HasType type v := by
  rw [Valid] at h
  exact h.2.1 type hs

theorem Valid.shaped {members : List (String × Json)} (h : Valid s (obj members)) :
    Shaped s members := by
  rw [Valid] at h
  exact (h.2.2.2.2.1 members rfl).1

theorem Valid.member {members : List (String × Json)} (h : Valid s (obj members))
    {m : String × Json} (hm : m ∈ members) {p : Json} (hp : property s m.1 = some p) :
    Valid p m.2 := by
  rw [Valid] at h
  exact (h.2.2.2.2.1 members rfl).2 m hm p hp

theorem Valid.element {elements : List Json} (h : Valid s (arr elements)) {item : Json}
    (hs : s.get "items" = some item) {e : Json} (he : e ∈ elements) : Valid item e := by
  rw [Valid] at h
  exact (h.2.2.2.2.2 elements rfl).2 item hs e he

end

/-- Every key in the document is one that a C string can say. -/
def PlainKeys : Json → Prop
  | .arr elements => ∀ e, e ∈ elements → PlainKeys e
  | .obj members => ∀ m, m ∈ members → Plain m.1 ∧ PlainKeys m.2
  | _ => True
decreasing_by
  · have := List.sizeOf_lt_of_mem ‹e ∈ elements›
    simp only [Json.arr.sizeOf_spec]
    omega
  · have hlt := List.sizeOf_lt_of_mem ‹m ∈ members›
    obtain ⟨key, value⟩ := m
    simp only [Prod.mk.sizeOf_spec, Json.obj.sizeOf_spec] at hlt ⊢
    omega

theorem plainKeys_arr {elements : List Json} :
    PlainKeys (arr elements) ↔ ∀ e ∈ elements, PlainKeys e := by
  rw [PlainKeys]

theorem plainKeys_obj {members : List (String × Json)} :
    PlainKeys (obj members) ↔ ∀ m ∈ members, Plain m.1 ∧ PlainKeys m.2 := by
  rw [PlainKeys]

end JsonSchema

end Spaces.Library
