import Spaces.Mcp.Soundness

/-!
# The schemas of the catalogue are regular

What `addArgumentSchemas` makes of an argument is a regular schema, unless the
argument is the list of steps of a batch: that one gets its items later, from the
actions that the batch may hold. The catalogue has no argument that is an open
object.
-/

namespace Spaces.Mcp

open Spaces.Library Json JsonSchema

/-! ## The members under construction -/

@[simp] theorem lookup_resultMember (o : Members) (k : String) (v : Json) (key : String) :
    (resultMember o k v).lookup key = if key = k then some v else o.lookup key := by
  split
  next h => exact h ▸ lookup_putMember_self k v o
  next h => exact lookup_putMember_ne h v o

@[simp] theorem lookup_resultString (o : Members) (k s key : String) :
    (resultString o k s).lookup key = if key = k then some (.str s) else o.lookup key :=
  lookup_resultMember o k _ key

@[simp] theorem lookup_resultInteger (o : Members) (k : String) (n : Int) (key : String) :
    (resultInteger o k n).lookup key = if key = k then some (.sint n) else o.lookup key :=
  lookup_resultMember o k _ key

@[simp] theorem lookup_resultNumber (o : Members) (k : String) (n : Int) (key : String) :
    (resultNumber o k n).lookup key = if key = k then some (.real n) else o.lookup key :=
  lookup_resultMember o k _ key

@[simp] theorem lookup_resultBoolean (o : Members) (k : String) (b : Bool) (key : String) :
    (resultBoolean o k b).lookup key = if key = k then some (.bool b) else o.lookup key :=
  lookup_resultMember o k _ key

theorem get_obj (members : Members) (key : String) :
    Json.get key (.obj members) = members.lookup key := rfl

theorem lookup_typed (type : ArgumentType) {key : String} (h : key ≠ "default") :
    (typed type).lookup key = if key = "type" then some (.str (typeName type)) else none := by
  rw [typed, lookup_resultString]
  by_cases htype : type = .boolean <;> simp [htype, h]

theorem lookup_described (property : Members) (description : Option String) {key : String}
    (h : key ≠ "description") : (described property description).lookup key =
      property.lookup key := by
  cases description with
  | none => rfl
  | some text => simp [described, h]

theorem lookup_chosen (property : Members) (choices : Option (List String)) (key : String) :
    (chosen property choices).lookup key =
      if key = "enum" then (choices.map fun texts => .arr (texts.map .str)).or
        (property.lookup key) else property.lookup key := by
  cases choices with
  | none => simp [chosen]
  | some texts => simp [chosen]

theorem lookup_bounded_array {property : Members} {argument : Argument} {itemType : String}
    (h : itemTypeName argument.type = some itemType) (key : String) :
    (bounded property argument).lookup key =
      if key = "maxItems" ∧ argument.maximum ≠ 0 then some (.sint argument.maximum)
      else if key = "minItems" ∧ argument.minimum ≠ 0 then some (.sint argument.minimum)
      else if key = "items" then some (.obj (resultString [] "type" itemType))
      else property.lookup key := by
  simp only [bounded, h]
  by_cases hmin : argument.minimum = 0 <;> by_cases hmax : argument.maximum = 0 <;>
    simp [hmin, hmax]

theorem lookup_bounded_scalar {property : Members} {argument : Argument}
    (h : itemTypeName argument.type = none) (key : String) :
    (bounded property argument).lookup key =
      if key = "maximum" ∧ argument.maximum ≠ 0 then some (.real argument.maximum)
      else if key = "minimum" ∧ argument.maximum ≠ 0 then some (.real argument.minimum)
      else property.lookup key := by
  simp only [bounded, h]
  by_cases hmax : argument.maximum = 0 <;> simp [hmax]

theorem lookup_observed (property : Members) (type : ArgumentType) (key : String) :
    (observed property type).lookup key =
      if type = .observation then
        if key = "additionalProperties" then some (.bool false)
        else if key = "required" then some (.arr [.str "window"])
        else if key = "properties" then some (.obj observationFields)
        else property.lookup key
      else property.lookup key := by
  by_cases htype : type = .observation <;> simp [observed, htype]

/-! ## Arguments -/

/-- What the catalogue keeps to in each of its arguments. -/
structure Argument.Lawful (argument : Argument) : Prop where
  plain : Plain argument.name
  closed : argument.type ≠ .object
  minimum : argument.minimum.natAbs < 2 ^ 53
  maximum : argument.maximum.natAbs < 2 ^ 53

theorem typeName_plain (type : ArgumentType) : Plain (typeName type) := by
  cases type <;> decide

theorem typeName_array {type : ArgumentType} {itemType : String}
    (h : itemTypeName type = some itemType) : typeName type = "array" := by
  cases type <;> first | rfl | cases h

theorem not_observation {type : ArgumentType} {itemType : String}
    (h : itemTypeName type = some itemType) : type ≠ .observation := by
  rintro rfl
  cases h

theorem lookup_plainSchema_array {argument : Argument} {itemType : String}
    (h : itemTypeName argument.type = some itemType) {key : String} (hdefault : key ≠ "default")
    (hdescription : key ≠ "description") :
    (plainSchema argument).lookup key =
      if key = "maxItems" ∧ argument.maximum ≠ 0 then some (.sint argument.maximum)
      else if key = "minItems" ∧ argument.minimum ≠ 0 then some (.sint argument.minimum)
      else if key = "items" then some (.obj (resultString [] "type" itemType))
      else if key = "enum" then argument.choices.map fun texts => .arr (texts.map .str)
      else if key = "type" then some (.str "array")
      else none := by
  rw [plainSchema, lookup_observed, if_neg (not_observation h), lookup_bounded_array h,
    lookup_chosen, lookup_described _ _ hdescription, lookup_typed _ hdefault, typeName_array h]
  by_cases henum : key = "enum"
  · subst henum
    simp
  · simp only [henum, if_false]

theorem lookup_plainSchema_scalar {argument : Argument}
    (h : itemTypeName argument.type = none) {key : String} (hdefault : key ≠ "default")
    (hdescription : key ≠ "description") :
    (plainSchema argument).lookup key =
      if argument.type = .observation ∧ key = "additionalProperties" then some (.bool false)
      else if argument.type = .observation ∧ key = "required" then some (.arr [.str "window"])
      else if argument.type = .observation ∧ key = "properties" then
        some (.obj observationFields)
      else if key = "maximum" ∧ argument.maximum ≠ 0 then some (.real argument.maximum)
      else if key = "minimum" ∧ argument.maximum ≠ 0 then some (.real argument.minimum)
      else if key = "enum" then argument.choices.map fun texts => .arr (texts.map .str)
      else if key = "type" then some (.str (typeName argument.type))
      else none := by
  rw [plainSchema, lookup_observed, lookup_bounded_scalar h, lookup_chosen,
    lookup_described _ _ hdescription, lookup_typed _ hdefault]
  by_cases hobservation : argument.type = .observation
  · simp only [hobservation, if_true, true_and]
    by_cases henum : key = "enum"
    · subst henum
      simp
    · simp only [henum, if_false]
  · simp only [hobservation, if_false, false_and]
    by_cases henum : key = "enum"
    · subst henum
      simp
    · simp only [henum, if_false]

theorem discrete_choices (choices : Option (List String)) :
    ∀ x ∈ items (choices.map fun texts => .arr (texts.map .str)), Discrete x := by
  cases choices with
  | none => simp [items]
  | some texts =>
      intro x hx
      obtain ⟨text, -, rfl⟩ := List.mem_map.mp hx
      exact True.intro

theorem Argument.Lawful.keywords_array {argument : Argument} (h : argument.Lawful)
    {itemType : String} (hitem : itemTypeName argument.type = some itemType) :
    Keywords (.obj (plainSchema argument)) "array" := by
  constructor
  · simp [get_obj, lookup_plainSchema_array hitem]
  · simp [get_obj, lookup_plainSchema_array hitem]
  · decide
  · simpa [get_obj, lookup_plainSchema_array hitem] using discrete_choices argument.choices
  · simp [get_obj, lookup_plainSchema_array hitem]
  · intro keyword hkeyword b hb
    rcases (by simpa using hkeyword : keyword = "minItems" ∨ keyword = "maxItems") with rfl | rfl
    · obtain ⟨-, rfl⟩ : argument.minimum ≠ 0 ∧ Json.sint argument.minimum = b := by
        simpa [get_obj, lookup_plainSchema_array hitem] using hb
      exact ⟨_, rfl, h.minimum⟩
    · obtain ⟨-, rfl⟩ : argument.maximum ≠ 0 ∧ Json.sint argument.maximum = b := by
        simpa [get_obj, lookup_plainSchema_array hitem] using hb
      exact ⟨_, rfl, h.maximum⟩
  · simp [get_obj, lookup_plainSchema_array hitem, items]

theorem Argument.Lawful.keywords_scalar {argument : Argument} (h : argument.Lawful)
    (hitem : itemTypeName argument.type = none) :
    Keywords (.obj (plainSchema argument)) (typeName argument.type) := by
  constructor
  · simp [get_obj, lookup_plainSchema_scalar hitem]
  · simp [get_obj, lookup_plainSchema_scalar hitem]
  · exact typeName_plain _
  · simpa [get_obj, lookup_plainSchema_scalar hitem] using discrete_choices argument.choices
  · intro keyword hkeyword b hb
    rcases (by simpa using hkeyword : keyword = "minimum" ∨ keyword = "maximum") with rfl | rfl
    · obtain ⟨-, rfl⟩ : argument.maximum ≠ 0 ∧ Json.real argument.minimum = b := by
        simpa [get_obj, lookup_plainSchema_scalar hitem] using hb
      exact ⟨_, rfl, h.minimum⟩
    · obtain ⟨-, rfl⟩ : argument.maximum ≠ 0 ∧ Json.real argument.maximum = b := by
        simpa [get_obj, lookup_plainSchema_scalar hitem] using hb
      exact ⟨_, rfl, h.maximum⟩
  · simp [get_obj, lookup_plainSchema_scalar hitem]
  · intro name hname
    rw [get_obj, lookup_plainSchema_scalar hitem (by decide) (by decide)] at hname
    by_cases hobservation : argument.type = .observation
    · obtain rfl : name = "window" := by simpa [hobservation, items] using hname
      decide
    · simp [hobservation, items] at hname

/-- A schema that says the type and nothing that the check reads. -/
theorem keywords_of_type {o : Members} {type : String} (hplain : Plain type)
    (htype : o.lookup "type" = some (.str type))
    (hother : ∀ key, key ≠ "type" → key ≠ "description" → key ≠ "default" →
      o.lookup key = none) : Keywords (.obj o) type := by
  have hnone : ∀ key, key ≠ "type" → key ≠ "description" → key ≠ "default" →
      Json.get key (.obj o) = none := hother
  constructor
  · exact hnone _ (by decide) (by decide) (by decide)
  · exact htype
  · exact hplain
  · rw [hnone _ (by decide) (by decide) (by decide)]
    exact fun x hx => nomatch hx
  · intro keyword hkeyword b hb
    rcases (by simpa using hkeyword : keyword = "minimum" ∨ keyword = "maximum") with rfl | rfl
    · rw [hnone _ (by decide) (by decide) (by decide)] at hb
      cases hb
    · rw [hnone _ (by decide) (by decide) (by decide)] at hb
      cases hb
  · intro keyword hkeyword b hb
    rcases (by simpa using hkeyword : keyword = "minItems" ∨ keyword = "maxItems") with rfl | rfl
    · rw [hnone _ (by decide) (by decide) (by decide)] at hb
      cases hb
    · rw [hnone _ (by decide) (by decide) (by decide)] at hb
      cases hb
  · rw [hnone _ (by decide) (by decide) (by decide)]
    exact fun name hname => nomatch hname

theorem regular_of_type {o : Members} (type : String) (hscalar : type ∈ scalarTypes)
    (htype : o.lookup "type" = some (.str type))
    (hother : ∀ key, key ≠ "type" → key ≠ "description" → key ≠ "default" →
      o.lookup key = none) : Regular (.obj o) := by
  have hplain : ∀ type ∈ scalarTypes, Plain type := by decide
  exact .scalar (keywords_of_type (hplain type hscalar) htype hother) hscalar

theorem regular_itemType {type : ArgumentType} {itemType : String}
    (h : itemTypeName type = some itemType) (hobject : type ≠ .objectArray) :
    Regular (.obj (resultString [] "type" itemType)) := by
  have hscalar : itemType ∈ scalarTypes := by
    cases type with
    | objectArray => exact (hobject rfl).elim
    | stringArray | numberArray | integerArray =>
        cases h
        decide
    | string | number | integer | boolean | object | observation => cases h
  refine regular_of_type itemType hscalar ?_ ?_
  · rw [lookup_resultString, if_pos rfl]
  · intro key hkey _ _
    rw [lookup_resultString, if_neg hkey]
    rfl

theorem mem_resultMember {o : Members} {k : String} {v : Json} {m : String × Json}
    (h : m ∈ resultMember o k v) : m = (k, v) ∨ (m ∈ o ∧ m.1 ≠ k) :=
  mem_putMember h

theorem regular_observationFields {m : String × Json} (h : m ∈ observationFields) :
    Plain m.1 ∧ Regular m.2 := by
  rcases mem_resultMember h with rfl | ⟨h, -⟩
  · refine ⟨by decide, regular_of_type "boolean" (by decide) (by simp) ?_⟩
    intro key hkey _ hdefault
    simp [hkey, hdefault]
  · rcases mem_resultMember h with rfl | ⟨h, -⟩
    · refine ⟨by decide, regular_of_type "integer" (by decide) (by simp) ?_⟩
      intro key hkey hdescription _
      simp [hkey, hdescription]
    · cases h

/-- The schema of an argument by itself, without its alternative. -/
theorem Argument.Lawful.regular_plainSchema {argument : Argument} (h : argument.Lawful)
    (hobjects : argument.type ≠ .objectArray) : Regular (.obj (plainSchema argument)) := by
  cases hitem : itemTypeName argument.type with
  | some itemType =>
      refine .array (h.keywords_array hitem) ?_ (regular_itemType hitem hobjects)
      simp [get_obj, lookup_plainSchema_array hitem]
  | none =>
      have hkeywords := h.keywords_scalar hitem
      by_cases hobservation : argument.type = .observation
      · rw [hobservation] at hkeywords
        refine .object hkeywords ?_ ?_ (fun m hm => (regular_observationFields hm).1)
          (fun m hm => (regular_observationFields hm).2)
        · simp [get_obj, lookup_plainSchema_scalar hitem, hobservation]
        · simp [get_obj, lookup_plainSchema_scalar hitem, hobservation]
      · refine .scalar hkeywords ?_
        have hclosed := h.closed
        cases htype : argument.type <;> first
          | decide
          | exact (hobservation htype).elim
          | exact (hclosed htype).elim
          | (rw [htype] at hitem; cases hitem)

theorem regular_off (allowNull : Bool) : Regular (.obj (off allowNull)) := by
  cases allowNull with
  | true =>
      refine regular_of_type "null" (by decide) rfl ?_
      intro key hkey _ _
      simp [off, hkey]
  | false =>
      have hget : ∀ key, Json.get key (.obj (off false)) =
          if key = "enum" then some (.arr [.bool false])
          else if key = "type" then some (.str "boolean") else none := by
        intro key
        simp [off, get_obj]
      refine @Regular.scalar _ "boolean" ?_ (by decide)
      constructor
      · rw [hget]; simp
      · rw [hget]; simp
      · decide
      · rw [hget]; simp [items, Discrete]
      · intro keyword hkeyword b hb
        rcases (by simpa using hkeyword : keyword = "minimum" ∨ keyword = "maximum")
          with rfl | rfl <;> simp [hget] at hb
      · intro keyword hkeyword b hb
        rcases (by simpa using hkeyword : keyword = "minItems" ∨ keyword = "maxItems")
          with rfl | rfl <;> simp [hget] at hb
      · rw [hget]; simp [items]

theorem Argument.Lawful.regular {argument : Argument} (h : argument.Lawful)
    (hobjects : argument.type ≠ .objectArray) : Regular (argumentSchema argument) := by
  rw [argumentSchema]
  split
  next =>
    refine .anyOf rfl ?_
    intro option hoption
    rcases (by simpa using hoption : option = .obj (plainSchema argument) ∨
      option = .obj (off argument.allowNull)) with rfl | rfl
    · exact h.regular_plainSchema hobjects
    · exact regular_off _
  next => exact h.regular_plainSchema hobjects

/-! ## Tools -/

instance (argument : Argument) : Decidable argument.Lawful :=
  decidable_of_iff (Plain argument.name ∧ argument.type ≠ .object ∧
    argument.minimum.natAbs < 2 ^ 53 ∧ argument.maximum.natAbs < 2 ^ 53)
    ⟨fun ⟨a, b, c, d⟩ => ⟨a, b, c, d⟩, fun ⟨a, b, c, d⟩ => ⟨a, b, c, d⟩⟩

/-- Objects are listed by the steps of a batch only, and its steps are a list of
objects. -/
structure Tool.Lawful (tool : Tool) : Prop where
  arguments : ∀ argument ∈ tool.arguments, argument.Lawful ∧
    (argument.type = .objectArray ↔ tool.batch ≠ .none ∧ argument.name = "steps") ∧
    (argument.type = .objectArray → (argument.allowFalse || argument.allowNull) = false)
  required : ∀ name ∈ tool.required.getD [], Plain name
  plain : Plain tool.name

instance (tool : Tool) : Decidable tool.Lawful :=
  decidable_of_iff ((∀ argument ∈ tool.arguments, argument.Lawful ∧
    (argument.type = .objectArray ↔ tool.batch ≠ .none ∧ argument.name = "steps") ∧
    (argument.type = .objectArray → (argument.allowFalse || argument.allowNull) = false)) ∧
    (∀ name ∈ tool.required.getD [], Plain name) ∧ Plain tool.name)
    ⟨fun ⟨a, b, c⟩ => ⟨a, b, c⟩, fun ⟨a, b, c⟩ => ⟨a, b, c⟩⟩

/-- The schema of a list of steps before its items are filled in. -/
def Listing (v : Json) : Prop := ∃ o : Members, v = .obj o ∧ Keywords (.obj o) "array"

/-- A property of a tool: regular, but for the steps of a batch. -/
def Advertises (batch : BatchKind) (m : String × Json) : Prop :=
  Plain m.1 ∧ if batch ≠ .none ∧ m.1 = "steps" then Listing m.2 else Regular m.2

theorem advertises_argument {batch : BatchKind} {argument : Argument} (h : argument.Lawful)
    (hsteps : argument.type = .objectArray ↔ batch ≠ .none ∧ argument.name = "steps")
    (halone : argument.type = .objectArray →
      (argument.allowFalse || argument.allowNull) = false) :
    Advertises batch (argument.name, argumentSchema argument) := by
  refine ⟨h.plain, ?_⟩
  by_cases hobjects : argument.type = .objectArray
  · rw [if_pos (hsteps.mp hobjects), argumentSchema, if_neg (by simp [halone hobjects])]
    have hitem : itemTypeName argument.type = some "object" := by rw [hobjects]; rfl
    exact ⟨_, rfl, h.keywords_array hitem⟩
  · rw [if_neg (fun hnamed => hobjects (hsteps.mpr hnamed))]
    exact h.regular hobjects

theorem addArgumentSchemas_advertises {batch : BatchKind} {arguments : List Argument}
    (h : ∀ argument ∈ arguments, Advertises batch (argument.name, argumentSchema argument)) :
    ∀ {properties : Members}, (∀ m ∈ properties, Advertises batch m) →
      ∀ m ∈ addArgumentSchemas properties arguments, Advertises batch m := by
  induction arguments with
  | nil => exact fun hproperties => hproperties
  | cons argument rest ih =>
      intro properties hproperties
      refine ih (fun a ha => h a (List.mem_cons_of_mem _ ha)) fun m hm => ?_
      rcases mem_resultMember hm with rfl | ⟨hm, -⟩
      · exact h argument (List.mem_cons_self ..)
      · exact hproperties m hm

/-- The element and the coordinates are described alike for every kind of tool. -/
theorem advertises_group {batch : BatchKind} {argument : Argument}
    (h : argument ∈ actionArguments ++ pointArguments) :
    Advertises batch (argument.name, argumentSchema argument) := by
  have hall : ∀ argument ∈ actionArguments ++ pointArguments, argument.Lawful ∧
      argument.type ≠ .objectArray ∧ argument.name ≠ "steps" := by decide
  obtain ⟨hlawful, hobjects, hname⟩ := hall argument h
  refine advertises_argument hlawful ?_ fun htype => (hobjects htype).elim
  exact ⟨fun htype => (hobjects htype).elim, fun hnamed => (hname hnamed.2).elim⟩

theorem Tool.Lawful.toolProperties {tool : Tool} (h : tool.Lawful) (noVision : Bool) :
    ∀ m ∈ toolProperties noVision tool, Advertises tool.batch m := by
  have hown : ∀ m ∈ (if noVision && tool.name == "status" then []
      else addArgumentSchemas [] tool.arguments), Advertises tool.batch m := by
    split
    next => exact fun m hm => nomatch hm
    next =>
      refine addArgumentSchemas_advertises (fun argument hargument => ?_) fun m hm => nomatch hm
      obtain ⟨hlawful, hsteps, halone⟩ := h.arguments argument hargument
      exact advertises_argument hlawful hsteps halone
  have hgroup : ∀ {flag : Bool} {arguments : List Argument} {properties : Members},
      (∀ a ∈ arguments, a ∈ actionArguments ++ pointArguments) →
      (∀ m ∈ properties, Advertises tool.batch m) →
      ∀ m ∈ (if flag then addArgumentSchemas properties arguments else properties),
        Advertises tool.batch m := by
    intro flag arguments properties hgroup hproperties
    split
    next => exact addArgumentSchemas_advertises (fun a ha => advertises_group (hgroup a ha))
              hproperties
    next => exact hproperties
  exact hgroup (fun a ha => List.mem_append_right _ ha)
    (hgroup (fun a ha => List.mem_append_left _ ha) hown)

/-- With its items in place a list of steps is regular as well. -/
theorem Listing.regular {o : Members} (h : Keywords (.obj o) "array") {items : Json}
    (hitems : Regular items) : Regular (.obj (resultMember o "items" items)) := by
  have hget : ∀ key, key ≠ "items" →
      Json.get key (.obj (resultMember o "items" items)) = Json.get key (.obj o) := by
    intro key hkey
    simp [get_obj, hkey]
  refine .array ?_ (by simp [get_obj]) hitems
  constructor
  · rw [hget _ (by decide)]; exact h.single
  · rw [hget _ (by decide)]; exact h.named
  · exact h.plain
  · rw [hget _ (by decide)]; exact h.enum
  · intro keyword hkeyword
    have hne : keyword ≠ "items" := by rintro rfl; simp at hkeyword
    rw [hget _ hne]
    exact h.range keyword hkeyword
  · intro keyword hkeyword
    have hne : keyword ≠ "items" := by rintro rfl; simp at hkeyword
    rw [hget _ hne]
    exact h.sizes keyword hkeyword
  · rw [hget _ (by decide)]; exact h.required

theorem withItems_regular {batch : BatchKind} (hbatch : batch ≠ .none) {properties : Members}
    (h : ∀ m ∈ properties, Advertises batch m) {items : Json} (hitems : Regular items) :
    ∀ m ∈ withItems properties items, Plain m.1 ∧ Regular m.2 := by
  intro m hm
  have hother : m ∈ properties → m.1 ≠ "steps" → Plain m.1 ∧ Regular m.2 := by
    intro hmem hne
    obtain ⟨hplain, hregular⟩ := h m hmem
    rw [if_neg (fun hnamed => hne hnamed.2)] at hregular
    exact ⟨hplain, hregular⟩
  cases hsteps : properties.lookup "steps" with
  | none =>
      rw [withItems, hsteps] at hm
      refine hother hm fun hname => ?_
      have hmem : "steps" ∈ properties.map Prod.fst := List.mem_map.mpr ⟨m, hm, hname⟩
      rw [← lookup_isSome, hsteps] at hmem
      cases hmem
  | some steps =>
      obtain ⟨-, hlisting⟩ := h _ (mem_of_lookup hsteps)
      rw [if_pos ⟨hbatch, rfl⟩] at hlisting
      obtain ⟨o, rfl, hkeywords⟩ := hlisting
      rw [withItems, hsteps] at hm
      rcases mem_resultMember hm with rfl | ⟨hm, hne⟩
      · exact ⟨show Plain "steps" by decide, Listing.regular hkeywords hitems⟩
      · exact hother hm hne

theorem mem_requiredFirst {properties : Members} {required : List String} :
    ∀ m ∈ requiredFirst properties required, m ∈ properties := by
  refine List.foldlRecOn _ _ (motive := fun ordered : Members => ∀ m ∈ ordered, m ∈ properties)
    (fun m hm => nomatch hm) fun ordered hordered name _ => ?_
  split
  next property hproperty =>
    intro m hm
    rcases mem_resultMember hm with rfl | ⟨hm, -⟩
    · exact mem_of_lookup hproperty
    · exact hordered m hm
  next => exact hordered

theorem mem_orderProperties {properties : Members} {required : Option (List String)} :
    ∀ m ∈ orderProperties properties required, m ∈ properties := by
  cases required with
  | none => exact fun m hm => hm
  | some names =>
      refine List.foldlRecOn _ _
        (motive := fun ordered : Members => ∀ m ∈ ordered, m ∈ properties)
        mem_requiredFirst fun ordered hordered member hmember => ?_
      split
      next => exact hordered
      next =>
        intro m hm
        rcases mem_resultMember hm with rfl | ⟨hm, -⟩
        · exact hmember
        · exact hordered m hm

theorem keywords_object {o : Members} (hsingle : o.lookup "anyOf" = none)
    (hnamed : o.lookup "type" = some (.str "object"))
    (hother : ∀ key ∈ ["enum", "minimum", "maximum", "minItems", "maxItems"],
      o.lookup key = none)
    (hrequired : ∀ name, .str name ∈ items (o.lookup "required") → Plain name) :
    Keywords (.obj o) "object" := by
  have hnone : ∀ key ∈ ["enum", "minimum", "maximum", "minItems", "maxItems"],
      Json.get key (.obj o) = none := hother
  refine ⟨hsingle, hnamed, by decide, ?_, fun keyword hkeyword b hb => ?_,
    fun keyword hkeyword b hb => ?_, hrequired⟩
  · rw [hnone _ (by decide)]
    exact fun x hx => nomatch hx
  · have hmem : keyword ∈ ["enum", "minimum", "maximum", "minItems", "maxItems"] := by
      rcases (by simpa using hkeyword : keyword = "minimum" ∨ keyword = "maximum")
        with rfl | rfl <;> decide
    rw [hnone _ hmem] at hb
    cases hb
  · have hmem : keyword ∈ ["enum", "minimum", "maximum", "minItems", "maxItems"] := by
      rcases (by simpa using hkeyword : keyword = "minItems" ∨ keyword = "maxItems")
        with rfl | rfl <;> decide
    rw [hnone _ hmem] at hb
    cases hb

/-- An object schema that is closed over regular properties. -/
theorem regular_closed {o : Members} (properties : Members) (hkeywords : Keywords (.obj o) "object")
    (hproperties : o.lookup "properties" = some (.obj properties))
    (hclosed : o.lookup "additionalProperties" = some (.bool false))
    (h : ∀ m ∈ properties, Plain m.1 ∧ Regular m.2) : Regular (.obj o) :=
  .object hkeywords hproperties hclosed (fun m hm => (h m hm).1) (fun m hm => (h m hm).2)

theorem closeSchema_regular {properties : Members} {required : Option (List String)}
    (hrequired : ∀ name ∈ required.getD [], Plain name)
    (h : ∀ m ∈ properties, Plain m.1 ∧ Regular m.2) :
    Regular (closeSchema properties required) := by
  refine regular_closed (orderProperties properties required) (keywords_object ?_ ?_ ?_ ?_) ?_ ?_
    (fun m hm => h m (mem_orderProperties m hm))
  · simp
  · simp
  · simp
  · intro name hname
    exact hrequired name (by simpa [items] using hname)
  · simp
  · simp

theorem namedSchema_regular {action : Tool} {input : Json} (h : Regular input) :
    Regular (namedSchema action input) := by
  have hname : Regular (.obj (resultMember (resultString [] "type" "string") "enum"
      (.arr [.str action.name]))) := by
    refine @Regular.scalar _ "string" ?_ (by decide)
    constructor
    · simp [get_obj]
    · simp [get_obj]
    · decide
    · simp [get_obj, items, Discrete]
    · simp [get_obj]
    · simp [get_obj]
    · simp [get_obj, items]
  refine regular_closed (resultMember (resultMember [] "tool" (.obj (resultMember
    (resultString [] "type" "string") "enum" (.arr [.str action.name])))) "args" input)
    (keywords_object ?_ ?_ ?_ ?_) ?_ ?_ (fun m hm => ?_)
  · simp
  · simp
  · simp
  · intro name hname
    rcases (by simpa [items] using hname : name = "tool" ∨ name = "args") with rfl | rfl <;> decide
  · simp
  · simp
  · rcases mem_resultMember hm with rfl | ⟨hm, -⟩
    · exact ⟨show Plain "args" by decide, h⟩
    · rcases mem_resultMember hm with rfl | ⟨hm, -⟩
      · exact ⟨show Plain "tool" by decide, hname⟩
      · cases hm

theorem buildToolSchema_regular_action {tool : Tool} (h : tool.Lawful) (hbatch : tool.batch = .none)
    (noVision : Bool) : Regular (buildToolSchema noVision tool) := by
  rw [buildToolSchema, if_pos hbatch]
  refine closeSchema_regular h.required fun m hm => ?_
  obtain ⟨hplain, hregular⟩ := h.toolProperties noVision m hm
  rw [if_neg (fun hnamed => hnamed.1 hbatch)] at hregular
  exact ⟨hplain, hregular⟩

theorem buildToolSchema_regular {tool : Tool} (h : tool.Lawful)
    (hactions : ∀ action ∈ actionTools, (targeted tool.batch action).Lawful) (noVision : Bool) :
    Regular (buildToolSchema noVision tool) := by
  by_cases hbatch : tool.batch = .none
  · exact buildToolSchema_regular_action h hbatch noVision
  · rw [buildToolSchema, if_neg hbatch]
    refine closeSchema_regular h.required
      (withItems_regular hbatch (h.toolProperties noVision) (.anyOf rfl fun option hoption => ?_))
    obtain ⟨action, -, hsome⟩ := List.mem_filterMap.mp hoption
    split at hsome
    next variant hvariant =>
      cases hsome
      obtain ⟨action', hmem, -, rfl⟩ := findAction_mem hvariant
      exact namedSchema_regular
        (buildToolSchema_regular_action (hactions action' hmem) (findAction_batch hvariant)
        noVision)
    next => cases hsome

/-- The tools that a call can name, and the actions that a step of a batch can. -/
inductive Catalogued : Tool → Prop where
  | tool {t : Tool} : t ∈ tools → Catalogued t
  | action {batch : BatchKind} {name : Option String} {t : Tool} :
      findAction batch name = some t → Catalogued t

theorem lawful_actions (batch : BatchKind) :
    ∀ action ∈ actionTools, (targeted batch action).Lawful := by
  cases batch <;> decide

theorem Catalogued.regular {t : Tool} (h : Catalogued t) (noVision : Bool) :
    Regular (buildToolSchema noVision t) := by
  cases h with
  | tool hmem =>
      have hall : ∀ t ∈ tools, t.Lawful := by decide
      exact buildToolSchema_regular (hall t hmem) (lawful_actions _) noVision
  | action hfind =>
      obtain ⟨action, hmem, -, rfl⟩ := findAction_mem hfind
      exact buildToolSchema_regular_action (lawful_actions _ action hmem)
        (findAction_batch hfind) noVision

/-- An accepted document is valid under the advertised schema exactly when none of
its keys holds a NUL. -/
theorem accepted_valid_iff (noVision : Bool) {t : Tool} (h : Catalogued t) {args : Json}
    (haccepted : validateArguments noVision t args = true) :
    Valid (buildToolSchema noVision t) args ↔ PlainKeys args :=
  ⟨fun hvalid => (h.regular noVision).plainKeys hvalid,
    fun hkeys => (h.regular noVision).valid haccepted hkeys⟩

theorem accepted_valid_sample : ∃ t ∈ tools,
    Valid (buildToolSchema false t) (.obj [("observation", .bool true)]) := by
  obtain ⟨t, hfind, haccepted⟩ : ∃ t, findTool false (some "status") = some t ∧
      validateArguments false t (.obj [("observation", .bool true)]) = true := by
    decide +kernel
  have hmem : t ∈ tools := List.mem_of_find?_eq_some hfind
  refine ⟨t, hmem, (accepted_valid_iff false (.tool hmem) haccepted).mpr ?_⟩
  exact plainKeys_obj.mpr fun m hm => by
    obtain rfl := List.mem_singleton.mp hm
    exact ⟨show Plain "observation" by decide, by simp [PlainKeys]⟩

/-- `status` takes a member that its schema does not name. -/
theorem accepted_unknown_key : ∃ t ∈ tools,
    validateArguments false t (.obj [("observation\x00x", .bool true)]) = true ∧
      ¬ Valid (buildToolSchema false t) (.obj [("observation\x00x", .bool true)]) := by
  obtain ⟨t, hfind, haccepted⟩ : ∃ t, findTool false (some "status") = some t ∧
      validateArguments false t (.obj [("observation\x00x", .bool true)]) = true := by
    decide +kernel
  have hmem : t ∈ tools := List.mem_of_find?_eq_some hfind
  refine ⟨t, hmem, haccepted, fun hvalid => ?_⟩
  have hkeys := ((Catalogued.tool hmem).regular false).plainKeys hvalid
  have hplain := (plainKeys_obj.mp hkeys _ (List.mem_singleton.mpr rfl)).1
  exact absurd hplain (show ¬ Plain "observation\x00x" by decide)

end Spaces.Mcp
