import Mathlib.Tactic.Linarith
import Spaces.Mcp.Schema

/-!
# What the check of the arguments accepts

Every schema that `buildToolSchema` writes is `Regular`: its objects are closed,
its arrays say what their elements are, and its bounds are numbers a double says
exactly. Over such a schema the check and the schema agree on every document
whose keys a C string can say. A document with any other key is never valid, and
the check cannot tell its keys from the shorter ones that it sees of them.
-/

namespace Spaces.Mcp

open Spaces.Library Json JsonSchema

/-! ## Regular schemas -/

/-- A value that `yyjson_equals` finds equal to itself only. -/
def Discrete : Json → Prop
  | .str _ | .bool _ => True
  | _ => False

def scalarTypes : List String := ["null", "string", "integer", "number", "boolean"]

/-- What a schema with a type has, whatever its type is. -/
structure Keywords (s : Json) (type : String) : Prop where
  single : s.get "anyOf" = none
  named : s.get "type" = some (.str type)
  plain : Plain type
  enum : ∀ x ∈ items (s.get "enum"), Discrete x
  range : ∀ keyword ∈ ["minimum", "maximum"], ∀ b, s.get keyword = some b →
    ∃ n : Int, b = .real n ∧ n.natAbs < 2 ^ 53
  sizes : ∀ keyword ∈ ["minItems", "maxItems"], ∀ b, s.get keyword = some b →
    ∃ n : Int, b = .sint n ∧ n.natAbs < 2 ^ 53
  required : ∀ name, .str name ∈ items (s.get "required") → Plain name

inductive Regular : Json → Prop where
  | anyOf {s : Json} {alternatives : List Json} :
      s = .obj [("anyOf", .arr alternatives)] → (∀ option ∈ alternatives, Regular option) →
      Regular s
  | scalar {s : Json} {type : String} : Keywords s type → type ∈ scalarTypes → Regular s
  | array {s item : Json} : Keywords s "array" → s.get "items" = some item → Regular item →
      Regular s
  | object {s : Json} {properties : Members} : Keywords s "object" →
      s.get "properties" = some (.obj properties) →
      s.get "additionalProperties" = some (.bool false) →
      (∀ m ∈ properties, Plain m.1) → (∀ m ∈ properties, Regular m.2) → Regular s

/-- A value of no container type has no members. -/
theorem plainKeys_of_scalar {v : Json} {type : String} (htype : HasType type v)
    (h : type ∈ scalarTypes) : PlainKeys v := by
  cases v with
  | arr elements =>
      rw [show type = "array" from htype] at h
      exact absurd h (by decide)
  | obj members =>
      rw [show type = "object" from htype] at h
      exact absurd h (by decide)
  | null | bool | uint | sint | real | str => simp [PlainKeys]

theorem mem_of_property {s p : Json} {properties : Members} {name : String}
    (hproperties : s.get "properties" = some (.obj properties)) (h : property s name = some p) :
    (name, p) ∈ properties := by
  rw [property, hproperties] at h
  exact mem_of_lookup h

/-- A closed object has no room for a key that its schema does not name. -/
theorem Regular.plainKeys {s : Json} (h : Regular s) : ∀ {v : Json}, Valid s v → PlainKeys v := by
  induction h with
  | @anyOf s alternatives hs _ ih =>
      intro v hvalid
      have hget : s.get "anyOf" = some (.arr alternatives) := by rw [hs]; rfl
      obtain ⟨option, hmem, hoption⟩ := hvalid.anyOf (by rw [hget]; exact Option.some_ne_none _)
      rw [hget] at hmem
      exact ih option hmem hoption
  | scalar hkeywords htype =>
      intro v hvalid
      exact plainKeys_of_scalar (hvalid.hasType hkeywords.named) htype
  | array hkeywords hitem _ ih =>
      intro v hvalid
      have htype := hvalid.hasType hkeywords.named
      cases v with
      | arr elements => exact plainKeys_arr.mpr fun e he => ih (hvalid.element hitem he)
      | null | bool | uint | sint | real | str | obj => simp [HasType] at htype
  | object hkeywords hproperties hclosed hplain _ ih =>
      intro v hvalid
      have htype := hvalid.hasType hkeywords.named
      cases v with
      | obj members =>
          refine plainKeys_obj.mpr fun m hm => ?_
          obtain ⟨p, hp⟩ :=
            Option.isSome_iff_exists.mp (hvalid.shaped.additionalProperties hclosed m hm)
          have hmem := mem_of_property hproperties hp
          exact ⟨hplain (m.1, p) hmem, ih (m.1, p) hmem (hvalid.member hm hp)⟩
      | null | bool | uint | sint | real | str | arr => simp [HasType] at htype

/-! ## What an accepted value has -/

theorem jsonMember_some (s : Json) (k : String) : jsonMember (some s) k = s.get k := rfl

theorem validateSchema_anyOf {s : Json} {alternatives : List Json}
    (h : s.get "anyOf" = some (.arr alternatives)) {v : Json}
    (haccepted : validateSchema v (some s) = true) :
    ∃ option ∈ alternatives, validateSchema v (some option) = true := by
  rw [validateSchema.eq_def] at haccepted
  split at haccepted
  next listed hlisted =>
    obtain rfl : .arr alternatives = listed :=
      Option.some.inj (h.symm.trans ((jsonMember_some s _).symm.trans hlisted))
    obtain ⟨option, -, hoption⟩ := List.any_eq_true.mp haccepted
    exact ⟨option.1, option.2, hoption⟩
  next hnone =>
    rw [jsonMember_some, h] at hnone
    cases hnone

/-- What the check asks of a value under a schema with a type. -/
structure Checked (v s : Json) : Prop where
  type : typeMatches v (some s) = true
  enum : enumMatches v (some s) = true
  range : inBounds v (some s) = true
  required : ∀ members, v = .obj members → hasRequired v (some s) = true
  known : ∀ members, v = .obj members → ∀ m ∈ members, property s (cString m.1) = none →
    s.get "additionalProperties" ≠ some (.bool false)
  member : ∀ members, v = .obj members → ∀ m ∈ members, ∀ p,
    property s (cString m.1) = some p → validateSchema m.2 (some p) = true
  sizes : ∀ elements, v = .arr elements → sizeMatches elements (some s) = true
  element : ∀ elements, v = .arr elements → ∀ e ∈ elements, ∀ item,
    s.get "items" = some item → validateSchema e (some item) = true

theorem validateSchema_checked {v s : Json} (h : s.get "anyOf" = none)
    (haccepted : validateSchema v (some s) = true) : Checked v s := by
  rw [validateSchema.eq_def] at haccepted
  split at haccepted
  next hlisted =>
    rw [jsonMember_some, h] at hlisted
    cases hlisted
  next =>
    simp only [Bool.and_eq_true] at haccepted
    obtain ⟨⟨⟨htype, henum⟩, hrange⟩, hbody⟩ := haccepted
    refine ⟨htype, henum, hrange, ?_, ?_, ?_, ?_, ?_⟩
    · rintro members rfl
      simp only [Bool.and_eq_true] at hbody
      exact hbody.1
    · rintro members rfl m hm hnone hclosed
      simp only [Bool.and_eq_true, List.all_eq_true] at hbody
      have hmember := hbody.2 m hm
      split at hmember
      next p hp => 
        rw [show property s (cString m.1) = some p from hp] at hnone
        cases hnone
      next =>
        simp [jsonMember_some, hclosed, Json.isFalse] at hmember
    · rintro members rfl m hm p hp
      simp only [Bool.and_eq_true, List.all_eq_true] at hbody
      have hmember := hbody.2 m hm
      split at hmember
      next p' hp' => 
        obtain rfl : p = p' := Option.some.inj (hp.symm.trans hp')
        exact hmember
      next hnone =>
        rw [show property s (cString m.1) = none from hnone] at hp
        cases hp
    · rintro elements rfl
      simp only [Bool.and_eq_true] at hbody
      exact hbody.1
    · rintro elements rfl e he item hitem
      simp only [Bool.and_eq_true, List.all_eq_true] at hbody
      have helement := hbody.2 e he
      split at helement
      next item' hitem' =>
        obtain rfl : item = item' := Option.some.inj (hitem.symm.trans hitem')
        exact helement
      next => cases helement

section

variable {s v : Json} {type : String}

theorem Keywords.hasType (h : Keywords s type) (hmatch : typeMatches v (some s) = true) :
    HasType type v := by
  have hstring : jsonString (some s) "type" = some type := by
    rw [jsonString, jsonMember_some, h.named]
    exact congrArg some (cString_plain h.plain)
  rw [typeMatches, hstring] at hmatch
  simp only [Bool.or_eq_true, Bool.and_eq_true, beq_iff_eq] at hmatch
  cases v with
  | real q =>
      have hnumber : type = "number" := by
        simpa [isNull, isBool, isObj, isArr, isCString, isInt, isNum, Json.number] using hmatch
      exact .inl hnumber
  | str text =>
      have hstring : type = "string" ∧ Plain text := by
        simpa [isNull, isBool, isObj, isArr, isCString, isInt, isNum, Json.number] using hmatch
      exact hstring.1
  | null | bool | uint | sint | arr | obj =>
      simpa [isNull, isBool, isObj, isArr, isCString, isInt, isNum, Json.number, HasType]
        using hmatch

/-- Strings and booleans are told apart completely. -/
theorem same_of_equals {v x : Json} (hx : Discrete x) (h : v.equals x = true) : Same v x := by
  cases x with
  | str text =>
      cases v with
      | str other =>
          obtain rfl : other = text := by simpa [equals] using h
          exact .refl _
      | null | bool | uint | sint | real | arr | obj => simp [equals] at h
  | bool b =>
      cases v with
      | bool other =>
          obtain rfl : other = b := by simpa [equals] using h
          exact .refl _
      | null | str | uint | sint | real | arr | obj => simp [equals] at h
  | null | uint | sint | real | arr | obj => exact hx.elim

theorem Keywords.enumerated (h : Keywords s type) (hmatch : enumMatches v (some s) = true)
    (hs : s.get "enum" ≠ none) : ∃ x ∈ items (s.get "enum"), Same v x := by
  obtain ⟨e, he⟩ := Option.ne_none_iff_exists'.mp hs
  rw [enumMatches, jsonMember_some, he] at hmatch
  obtain ⟨x, hx, hequals⟩ := List.any_eq_true.mp hmatch
  rw [← he] at hx
  exact ⟨x, hx, same_of_equals (h.enum x hx) hequals⟩

/-- A bound of the schema is the number that the check compares with. -/
theorem Keywords.range_bound (h : Keywords s type) {keyword : String}
    (hkeyword : keyword ∈ ["minimum", "maximum"]) {q : Rat} (hq : bound s keyword = some q)
    (fallback : Rat) :
    jsonNumber (some s) keyword fallback = q ∧ ∃ n : Int, q = n ∧ n.natAbs < 2 ^ 53 := by
  obtain ⟨b, hb, hnumber⟩ := Option.bind_eq_some_iff.mp hq
  obtain ⟨n, rfl, hn⟩ := h.range keyword hkeyword b hb
  cases hnumber
  refine ⟨?_, n, rfl, hn⟩
  rw [jsonNumber, jsonMember_some, hb]
  rfl

theorem Keywords.size_bound (h : Keywords s type) {keyword : String}
    (hkeyword : keyword ∈ ["minItems", "maxItems"]) {q : Rat} (hq : bound s keyword = some q)
    (fallback : Rat) : jsonNumber (some s) keyword fallback = q := by
  obtain ⟨b, hb, hnumber⟩ := Option.bind_eq_some_iff.mp hq
  obtain ⟨n, rfl, hn⟩ := h.sizes keyword hkeyword b hb
  cases hnumber
  rw [jsonNumber, jsonMember_some, hb]
  exact congrArg (Int.cast : Int → Rat) (roundInt_of_lt hn)

theorem Keywords.inRange (h : Keywords s type) (hbounds : inBounds v (some s) = true) {q : Rat}
    (hq : v.number = some q) : InRange s q := by
  have hnum : v.isNum = true := by rw [isNum, hq]; rfl
  rw [inBounds, hnum] at hbounds
  simp only [Bool.true_and, Bool.not_or, Bool.and_eq_true, Bool.not_eq_true',
    decide_eq_false_iff_not, not_lt] at hbounds
  refine ⟨fun least hleast => ?_, fun most hmost => ?_⟩
  · obtain ⟨hread, n, rfl, hn⟩ := h.range_bound (by simp) hleast (-farBound)
    rw [hread] at hbounds
    exact le_number hq hn hbounds.1
  · obtain ⟨hread, n, rfl, hn⟩ := h.range_bound (by simp) hmost farBound
    rw [hread] at hbounds
    exact number_le hq hn hbounds.2

theorem Keywords.sized (h : Keywords s type) {elements : List Json}
    (hsizes : sizeMatches elements (some s) = true) : Sized s elements := by
  rw [sizeMatches] at hsizes
  simp only [Bool.not_or, Bool.and_eq_true, Bool.not_eq_true', decide_eq_false_iff_not,
    not_lt] at hsizes
  refine ⟨fun least hleast => ?_, fun most hmost => ?_⟩
  · have hread := h.size_bound (by simp) hleast 0
    rw [hread] at hsizes
    exact hsizes.1
  · have hread := h.size_bound (by simp) hmost 1000000000
    rw [hread] at hsizes
    exact hsizes.2

theorem Keywords.hasRequired (h : Keywords s type) {members : Members}
    (hrequired : hasRequired (.obj members) (some s) = true) {name : String}
    (hname : .str name ∈ items (s.get "required")) : name ∈ members.map Prod.fst := by
  have hfound := List.all_eq_true.mp hrequired _ hname
  simp only [getStr, cString_plain (h.required name hname)] at hfound
  exact lookup_isSome.mp hfound

/-- The keywords of a checked value hold of it; what is left is about the values
inside of it. -/
theorem Keywords.valid (h : Keywords s type) (hchecked : Checked v s)
    (hknown : ∀ members, v = .obj members → s.get "additionalProperties" = some (.bool false) →
      ∀ m ∈ members, (property s m.1).isSome)
    (hmember : ∀ members, v = .obj members → ∀ m ∈ members, ∀ p, property s m.1 = some p →
      Valid p m.2)
    (helement : ∀ elements, v = .arr elements → ∀ item, s.get "items" = some item →
      ∀ e ∈ elements, Valid item e) : Valid s v := by
  rw [Valid]
  refine ⟨fun hs => (hs h.single).elim, fun type' htype => ?_, h.enumerated hchecked.enum,
    fun q => h.inRange hchecked.range, fun members hv => ⟨⟨?_, hknown members hv⟩, ?_⟩,
    fun elements hv => ⟨h.sized (hchecked.sizes elements hv), helement elements hv⟩⟩
  · have heq : type = type' := by
      have := h.named.symm.trans htype
      simpa using this
    exact heq ▸ h.hasType hchecked.type
  · intro name hname
    have hrequired := hchecked.required members hv
    rw [hv] at hrequired
    exact h.hasRequired hrequired hname
  · exact hmember members hv

end

/-! ## Soundness -/

theorem Regular.valid {s : Json} (h : Regular s) :
    ∀ {v : Json}, validateSchema v (some s) = true → PlainKeys v → Valid s v := by
  induction h with
  | @anyOf s alternatives hs _ ih =>
      intro v haccepted hkeys
      have hget : s.get "anyOf" = some (.arr alternatives) := by rw [hs]; rfl
      obtain ⟨option, hmem, hoption⟩ := validateSchema_anyOf hget haccepted
      rw [hs]
      exact valid_anyOf hmem (ih option hmem hoption hkeys)
  | scalar hkeywords htype =>
      intro v haccepted hkeys
      have hchecked := validateSchema_checked hkeywords.single haccepted
      have hscalar := hkeywords.hasType hchecked.type
      refine hkeywords.valid hchecked ?_ ?_ ?_
      · rintro members rfl
        rw [show _ = "object" from hscalar] at htype
        exact absurd htype (by decide)
      · rintro members rfl
        rw [show _ = "object" from hscalar] at htype
        exact absurd htype (by decide)
      · rintro elements rfl
        rw [show _ = "array" from hscalar] at htype
        exact absurd htype (by decide)
  | @array s item hkeywords hitem _ ih =>
      intro v haccepted hkeys
      have hchecked := validateSchema_checked hkeywords.single haccepted
      have harray := hkeywords.hasType hchecked.type
      refine hkeywords.valid hchecked ?_ ?_ ?_
      · rintro members rfl
        exact absurd (show "array" = "object" from harray) (by decide)
      · rintro members rfl
        exact absurd (show "array" = "object" from harray) (by decide)
      · rintro elements rfl item' hitem' e he
        obtain rfl : item = item' := Option.some.inj (hitem.symm.trans hitem')
        exact ih (hchecked.element elements rfl e he item hitem) (plainKeys_arr.mp hkeys e he)
  | @object s properties hkeywords hproperties hclosed _ _ ih =>
      intro v haccepted hkeys
      have hchecked := validateSchema_checked hkeywords.single haccepted
      have hobject := hkeywords.hasType hchecked.type
      refine hkeywords.valid hchecked ?_ ?_ ?_
      · rintro members rfl - m hm
        have hplain := (plainKeys_obj.mp hkeys m hm).1
        rw [Option.isSome_iff_ne_none]
        intro hnone
        rw [← cString_plain hplain] at hnone
        exact hchecked.known members rfl m hm hnone hclosed
      · rintro members rfl m hm p hp
        obtain ⟨hplain, hvalue⟩ := plainKeys_obj.mp hkeys m hm
        have hmem := mem_of_property hproperties hp
        rw [← cString_plain hplain] at hp
        exact ih _ hmem (hchecked.member members rfl m hm p hp) hvalue
      · rintro elements rfl
        exact absurd (show "object" = "array" from hobject) (by decide)

end Spaces.Mcp
