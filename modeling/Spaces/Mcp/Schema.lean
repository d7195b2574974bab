import Spaces.Library.JsonSchema
import Spaces.Mcp.Catalog

/-!
# The advertised schema of a tool, and the check of its arguments

`buildToolSchema` writes the JSON Schema that `tools/list` advertises, and
`validateArguments` interprets the same document over the arguments of a call.
The check looks a member of the arguments up by its C string.
-/

namespace Spaces.Mcp

open Spaces.Library Json

/-! ## Reading and writing documents -/

/-- `json_member`, for a document that may be missing. -/
def jsonMember (o : Option Json) (k : String) : Option Json := o.bind (Json.get k)

def jsonString (o : Option Json) (k : String) : Option String :=
  (getStr (jsonMember o k)).map cString

def jsonNumber (o : Option Json) (k : String) (fallback : Rat) : Rat :=
  match jsonMember o k with
  | some v => if v.isNum then v.getNum else fallback
  | none => fallback

/-- The members of a `result_object`, as they are added one by one. -/
abbrev Members := List (String × Json)

def resultMember (o : Members) (k : String) (v : Json) : Members := putMember k v o
def resultString (o : Members) (k s : String) : Members := resultMember o k (.str s)
def resultInteger (o : Members) (k : String) (n : Int) : Members := resultMember o k (.sint n)
def resultNumber (o : Members) (k : String) (n : Int) : Members := resultMember o k (.real n)
def resultBoolean (o : Members) (k : String) (b : Bool) : Members := resultMember o k (.bool b)

/-! ## `add_argument_schemas` -/

def typeName : ArgumentType → String
  | .string => "string"
  | .number => "number"
  | .integer => "integer"
  | .boolean => "boolean"
  | .stringArray | .objectArray | .numberArray | .integerArray => "array"
  | .observation | .object => "object"

/-- The type of the elements, for the four array types. -/
def itemTypeName : ArgumentType → Option String
  | .stringArray => some "string"
  | .numberArray => some "number"
  | .integerArray => some "integer"
  | .objectArray => some "object"
  | _ => none

def typed (type : ArgumentType) : Members :=
  resultString (if type = .boolean then resultBoolean [] "default" false else [])
    "type" (typeName type)

def described (property : Members) : Option String → Members
  | some description => resultString property "description" description
  | none => property

def chosen (property : Members) : Option (List String) → Members
  | some choices => resultMember property "enum" (.arr (choices.map .str))
  | none => property

def bounded (property : Members) (argument : Argument) : Members :=
  match itemTypeName argument.type with
  | some itemType =>
      let property := resultMember property "items" (.obj (resultString [] "type" itemType))
      let property := if argument.minimum ≠ 0
        then resultInteger property "minItems" argument.minimum else property
      if argument.maximum ≠ 0 then resultInteger property "maxItems" argument.maximum
      else property
  | none =>
      if argument.maximum ≠ 0 then
        resultNumber (resultNumber property "minimum" argument.minimum)
          "maximum" argument.maximum
      else property

/-- The fields of an observation request. -/
def observationFields : Members :=
  let window := resultString (resultString [] "type" "integer")
    "description" "Window ID from status."
  let refresh := resultBoolean (resultString [] "type" "boolean") "default" false
  resultMember (resultMember [] "window" (.obj window)) "refresh" (.obj refresh)

def observed (property : Members) (type : ArgumentType) : Members :=
  if type = .observation then
    resultBoolean
      (resultMember (resultMember property "properties" (.obj observationFields))
        "required" (.arr [.str "window"]))
      "additionalProperties" false
  else property

/-- The other value that an argument may be given for its own type. -/
def off (allowNull : Bool) : Members :=
  let off := resultString [] "type" (if allowNull then "null" else "boolean")
  if allowNull then off else resultMember off "enum" (.arr [.bool false])

def plainSchema (argument : Argument) : Members :=
  observed
    (bounded (chosen (described (typed argument.type) argument.description) argument.choices)
      argument)
    argument.type

def argumentSchema (argument : Argument) : Json :=
  let property := .obj (plainSchema argument)
  if argument.allowFalse || argument.allowNull then
    .obj (resultMember [] "anyOf" (.arr [property, .obj (off argument.allowNull)]))
  else property

/-- `add_argument_schemas`. -/
def addArgumentSchemas (properties : Members) (arguments : List Argument) : Members :=
  arguments.foldl (fun properties argument =>
    resultMember properties argument.name (argumentSchema argument)) properties

/-! ## `build_tool_schema` -/

def toolProperties (noVision : Bool) (tool : Tool) : Members :=
  let properties := if noVision && tool.name == "status" then []
    else addArgumentSchemas [] tool.arguments
  let properties := if tool.argsAction then addArgumentSchemas properties actionArguments
    else properties
  if tool.argsPoint then addArgumentSchemas properties pointArguments else properties

/-- One step of a batch: the action by its name, and the arguments it takes. -/
def namedSchema (action : Tool) (input : Json) : Json :=
  let name := resultMember (resultString [] "type" "string") "enum" (.arr [.str action.name])
  let namedProperties := resultMember (resultMember [] "tool" (.obj name)) "args" input
  let named := resultString (resultString [] "type" "object") "description" action.description
  let named := resultMember named "properties" (.obj namedProperties)
  let named := resultMember named "required" (.arr [.str "tool", .str "args"])
  .obj (resultBoolean named "additionalProperties" false)

/-- `properties` with the items of its member `steps` replaced. -/
def withItems (properties : Members) (items : Json) : Members :=
  match properties.lookup "steps" with
  | some (.obj steps) => resultMember properties "steps" (.obj (resultMember steps "items" items))
  | _ => properties

/-- The required properties, in the order they are required in. -/
def requiredFirst (properties : Members) (required : List String) : Members :=
  required.foldl (fun ordered name =>
    match properties.lookup name with
    | some property => resultMember ordered name property
    | none => ordered) []

/-- The required properties first, and then the others. -/
def orderProperties (properties : Members) : Option (List String) → Members
  | some required =>
      properties.foldl (fun ordered member =>
        match ordered.lookup member.1 with
        | some _ => ordered
        | none => resultMember ordered member.1 member.2) (requiredFirst properties required)
  | none => properties

def closeSchema (properties : Members) (required : Option (List String)) : Json :=
  let schema := resultString [] "type" "object"
  let schema := resultMember schema "properties" (.obj (orderProperties properties required))
  let schema := resultMember schema "required" (.arr ((required.getD []).map .str))
  .obj (resultBoolean schema "additionalProperties" false)

theorem targeted_batch (batch : BatchKind) (action : Tool) :
    (targeted batch action).batch = action.batch := by
  unfold targeted
  split <;> rfl

theorem findAction_mem {batch : BatchKind} {name : Option String} {variant : Tool}
    (h : findAction batch name = some variant) :
    ∃ action ∈ actionTools, batch ∈ action.modes ∧ variant = targeted batch action := by
  obtain ⟨action, hfind, rfl⟩ := Option.map_eq_some_iff.mp h
  have hmodes := List.find?_some hfind
  simp only [Bool.and_eq_true, List.contains_iff_mem] at hmodes
  exact ⟨action, List.mem_of_find?_eq_some hfind, hmodes.1, rfl⟩

theorem findAction_batch {batch : BatchKind} {name : Option String} {variant : Tool}
    (h : findAction batch name = some variant) : variant.batch = .none := by
  obtain ⟨action, hmem, -, rfl⟩ := findAction_mem h
  rw [targeted_batch]
  have hall : ∀ action ∈ actionTools, action.batch = .none := by decide
  exact hall action hmem

/-- `build_tool_schema`. The steps of a batch are described by the schemas of the
actions it may hold, none of which is a batch itself. -/
def buildToolSchema (noVision : Bool) (tool : Tool) : Json :=
  let properties := toolProperties noVision tool
  if tool.batch = .none then closeSchema properties tool.required
  else
    let alternatives := actionTools.filterMap fun action =>
      match _h : findAction tool.batch (some action.name) with
      | some variant => some (namedSchema variant (buildToolSchema noVision variant))
      | none => none
    closeSchema (withItems properties (.obj (resultMember [] "anyOf" (.arr alternatives))))
      tool.required
termination_by if tool.batch = .none then 0 else 1
decreasing_by
  rw [if_pos (findAction_batch _h), if_neg (by assumption)]
  omega

/-! ## `validate_schema` -/

/-- The doubles that the source writes `-1e100` and `1e100`. -/
def farBound : Rat :=
  10000000000000000159028911097599180468360808563945281389781327557747838772170381060813469985856815104

def typeMatches (v : Json) (s : Option Json) : Bool :=
  match jsonString s "type" with
  | none => false
  | some type =>
      (type == "object" && v.isObj) || (type == "null" && v.isNull)
        || (type == "array" && v.isArr)
        || (type == "string" && v.isCString)
        || (type == "integer" && v.isInt) || (type == "number" && v.isNum)
        || (type == "boolean" && v.isBool)

def enumMatches (v : Json) (s : Option Json) : Bool :=
  match jsonMember s "enum" with
  | none => true
  | some e => (items (some e)).any v.equals

def inBounds (v : Json) (s : Option Json) : Bool :=
  !(v.isNum && (v.getNum < jsonNumber s "minimum" (-farBound)
    || v.getNum > jsonNumber s "maximum" farBound))

def hasRequired (v : Json) (s : Option Json) : Bool :=
  (items (jsonMember s "required")).all fun x =>
    match getStr (some x) with
    | some name => (v.get (cString name)).isSome
    | none => false

def sizeMatches (elements : List Json) (s : Option Json) : Bool :=
  !(elements.length < jsonNumber s "minItems" 0
    || elements.length > jsonNumber s "maxItems" 1000000000)

theorem jsonMember_sizeOf {s : Option Json} {k : String} {v : Json}
    (h : jsonMember s k = some v) : sizeOf (some v) < sizeOf s := by
  obtain ⟨o, rfl, ho⟩ := Option.bind_eq_some_iff.mp h
  have hlt := sizeOf_lt_of_get ho
  simp only [Option.some.sizeOf_spec]
  omega

theorem items_sizeOf {s : Option Json} {option : Json} (h : option ∈ items s) :
    sizeOf (some option) < sizeOf s := by
  match s, h with
  | some (.arr elements), h =>
      have hlt := List.sizeOf_lt_of_mem (show option ∈ elements from h)
      simp only [Option.some.sizeOf_spec, Json.arr.sizeOf_spec]
      omega

/-- `validate_schema`. A schema that is not there accepts nothing. -/
def validateSchema (v : Json) (s : Option Json) : Bool :=
  match _halternatives : jsonMember s "anyOf" with
  | some alternatives =>
      (items (some alternatives)).attach.any fun option => validateSchema v (some option.1)
  | none =>
      typeMatches v s && enumMatches v s && inBounds v s &&
        (match v with
          | .obj members =>
              hasRequired v s && members.all fun member =>
                match _hp : jsonMember (jsonMember s "properties") (cString member.1) with
                | some p => validateSchema member.2 (some p)
                | none => !(jsonMember s "additionalProperties").any Json.isFalse
          | .arr elements =>
              sizeMatches elements s && elements.all fun x =>
                match _hi : jsonMember s "items" with
                | some item => validateSchema x (some item)
                | none => false
          | _ => true)
termination_by sizeOf s
decreasing_by
  · exact (items_sizeOf option.2).trans (jsonMember_sizeOf _halternatives)
  · cases hproperties : jsonMember s "properties" with
    | none =>
        rw [hproperties] at _hp
        cases _hp
    | some properties =>
        rw [hproperties] at _hp
        exact (jsonMember_sizeOf _hp).trans (jsonMember_sizeOf hproperties)
  · exact jsonMember_sizeOf _hi

/-- `validate_arguments`. -/
def validateArguments (noVision : Bool) (t : Tool) (args : Json) : Bool :=
  validateSchema args (some (buildToolSchema noVision t))

end Spaces.Mcp
