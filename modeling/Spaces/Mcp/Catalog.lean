import Spaces.Library.Json

/-!
# The tools of the computer-use server

The catalogue that the server advertises and checks calls against: the tools a
client may call, and the actions that a call of `vision` or `accessibility` may
hold as its steps. A bound of zero stands for none, as in the source.
-/

namespace Spaces.Mcp

open Spaces.Library

inductive ArgumentType where
  | string
  | number
  | integer
  | boolean
  | stringArray
  | object
  | objectArray
  | numberArray
  | integerArray
  | observation
  deriving DecidableEq

structure Argument where
  name : String
  type : ArgumentType
  choices : Option (List String) := none
  minimum : Int := 0
  maximum : Int := 0
  description : Option String := none
  allowFalse : Bool := false
  allowNull : Bool := false

inductive BatchKind where
  | none
  | vision
  | accessibility
  deriving DecidableEq

/-- `argsAction` and `argsPoint` are the two flags of `groups`, and `modes` holds
the kinds of batch whose bits are set. -/
structure Tool where
  name : String
  description : String
  argsAction : Bool := false
  argsPoint : Bool := false
  arguments : List Argument := []
  required : Option (List String) := .none
  action : Bool := false
  batch : BatchKind := .none
  modes : List BatchKind := []
  targetedRequired : Option (List String) := .none

def elementCapacity : Nat := 20000

def pointerButtons : List String := ["left", "right", "middle"]
def scrollDirections : List String := ["up", "down", "left", "right"]

def statusDescription : String :=
  "Run first for health checks, canvas metadata and apps/windows. Set observation:true to " ++
  "return a desktop screenshot (default:false). Window bounds, element frames and pixel " ++
  "actions share the full screenshot's coordinates."

def visionDescription : String :=
  "Execute up to 64 JSON steps shaped \x7btool,args\x7d, in order and stop on failure. " ++
  "Returns final observations. Responses report status:ok/failed and the completed step " ++
  "count. Insert \x7btool:delay_ms,args:\x7bms:500\x7d\x7d to pause anywhere, the final " ++
  "observations wait for all steps including trailing delays (there are some default delays " ++
  "if not provided). Use observations:false to skip observation or " ++
  "observations:\x7bwindow:window_id,refresh:false\x7d for screenshots and accessibility " ++
  "trees of a window. Omit observations for a desktop screenshot. When the tree provides the " ++
  "controls you need, prefer the accessibility tool. I.e., working with a single application " ++
  "without the need for vision, especially browsers. When possible, a zero-context unified " ++
  "diff against the last returned tree is provided. Set refresh:true to force a full tree. " ++
  "All pixel coordinates are global to the full overview. "

def accessibilityDescription : String :=
  "Execute up to 64 JSON steps shaped \x7btool,args\x7d, in order and stop on failure. " ++
  "Responses report status:ok/failed and the completed step count. Insert " ++
  "\x7btool:delay_ms,args:\x7bms:500\x7d\x7d to pause anywhere. Use " ++
  "observations:\x7bwindow:window_id,refresh:false\x7d for accessibility trees that also " ++
  "include text content after all steps, including trailing delays. Omit observations to skip " ++
  "tree reads. When possible, a zero-context unified diff against the last returned tree is " ++
  "provided. Set refresh:true to force a full tree. A different window or large diff returns " ++
  "a full tree. Set refresh:true for a full tree. Element actions can target offscreen " ++
  "controls. "

def actionArguments : List Argument :=
  [ { name := "element_id", type := .integer, minimum := 0, maximum := elementCapacity - 1,
      description := some
        ("Element ID from any window tree. Rolls over after 20k elements. Remains valid while " ++
         "the element exists.") } ]

def pointArguments : List Argument :=
  [ { name := "x", type := .number },
    { name := "y", type := .number } ]

def clickArguments : List Argument :=
  [ { name := "button", type := .string, choices := some pointerButtons },
    { name := "count", type := .integer, minimum := 1, maximum := 3 } ]

def dragArguments : List Argument :=
  [ { name := "from_x", type := .number },
    { name := "from_y", type := .number },
    { name := "to_x", type := .number },
    { name := "to_y", type := .number },
    { name := "duration_ms", type := .integer, minimum := 0, maximum := 10000 },
    { name := "button", type := .string, choices := some pointerButtons } ]

def scrollArguments : List Argument :=
  [ { name := "direction", type := .string, choices := some scrollDirections },
    { name := "amount", type := .integer, minimum := 1, maximum := 700 } ]

def textArguments : List Argument :=
  [ { name := "text", type := .string } ]

def valueArguments : List Argument :=
  [ { name := "value", type := .string } ]

def keyArguments : List Argument :=
  [ { name := "keys", type := .stringArray, minimum := 1, maximum := 5 } ]

def delayArguments : List Argument :=
  [ { name := "ms", type := .integer, minimum := 0, maximum := 30000,
      description := some
        "Milliseconds to wait." } ]

def statusArguments : List Argument :=
  [ { name := "observation", type := .boolean,
      description := some
        "Return a desktop screenshot. Defaults to false." } ]

def searchApplicationArguments : List Argument :=
  [ { name := "pattern", type := .string, allowNull := true,
      description := some
        ("Case-insensitive regex over " ++
         "name:generic_name:description:application:keywords:categories:" ++
         "mime_types:executable:actions:defaults. " ++
         "Examples: browser, browser|editor, ^Firefox:. Omit to list all installed apps.") } ]

def launchApplicationArguments : List Argument :=
  [ { name := "application", type := .string,
      description := some
        "Installed host desktop ID from search_applications, including .desktop." },
    { name := "arg", type := .string, allowNull := true,
      description := some
        ("Absolute host path or URI to open. Cannot be combined with action. Omit for a normal " ++
         "launch.") },
    { name := "action", type := .string, allowNull := true,
      description := some
        "Desktop action ID from search_applications, such as new-window." } ]

def visionArguments : List Argument :=
  [ { name := "steps", type := .objectArray, maximum := 64,
      description := some
        ("Optional ordered \x7btool,args\x7d actions. Omit or pass [] to observe without " ++
         "acting.") },
    { name := "observations", type := .observation, allowFalse := true,
      description := some
        ("Window for a screenshot and tree after acting. Optional. Set to false to skip " ++
         "observation or do not provide for a desktop screenshot.") } ]

def accessibilityArguments : List Argument :=
  [ { name := "steps", type := .objectArray, maximum := 64,
      description := some
        "Optional ordered \x7btool,args\x7d actions." },
    { name := "observations", type := .observation,
      description := some
        "Window for a tree after acting. Omit to skip observation." } ]

def requireApplication : List String := ["application"]
def requirePoint : List String := ["x", "y"]
def requireElement : List String := ["element_id"]
def requireDrag : List String := ["from_x", "from_y", "to_x", "to_y"]
def requireScroll : List String := ["x", "y", "direction"]
def requireText : List String := ["text"]
def requireTargetedText : List String := ["element_id", "text"]
def requireValue : List String := ["element_id", "value"]
def requireKeys : List String := ["keys"]
def requireDelay : List String := ["ms"]

def tools : List Tool :=
  [ { name := "status"
      description := statusDescription
      arguments := statusArguments },
    { name := "vision"
      description := visionDescription
      arguments := visionArguments
      action := true
      batch := .vision },
    { name := "accessibility"
      description := accessibilityDescription
      arguments := accessibilityArguments
      action := true
      batch := .accessibility },
    { name := "search_applications"
      description :=
        "Search installed host desktop applications. Returns desktop ID, name, role, " ++
        "additional actions, and File/URI argument support."
      arguments := searchApplicationArguments },
    { name := "launch_application"
      description :=
        "Launch an installed application on the host. If supported by the application, you " ++
        "can pass a file/URI or invoke a desktop action. Waits up to 5 seconds for a window " ++
        "and returns matching status-style windows, or all windows if unidentified."
      arguments := launchApplicationArguments
      required := some requireApplication
      action := true } ]

/-- Actions are the steps of a batch, and never tools of their own. -/
def actionTools : List Tool :=
  [ { name := "click"
      description :=
        "Click desktop image coordinates."
      argsPoint := true
      arguments := clickArguments
      required := some requirePoint
      action := true
      modes := [.vision] },
    { name := "move_cursor"
      description :=
        "Move the foreground pointer in desktop image coordinates."
      argsPoint := true
      required := some requirePoint
      action := true
      modes := [.vision] },
    { name := "drag"
      description :=
        "Drag across the combined canvas using full-overview coordinates."
      arguments := dragArguments
      required := some requireDrag
      action := true
      modes := [.vision] },
    { name := "scroll"
      description :=
        "Scroll at desktop coordinates for a number of lines."
      argsPoint := true
      arguments := scrollArguments
      required := some requireScroll
      action := true
      modes := [.vision] },
    { name := "press_keys"
      description :=
        "Press keys in listed order and release in reverse; put modifiers first. Use " ++
        "keys:[meta] for a single key or keys:[ctrl,a] for a chord."
      arguments := keyArguments
      required := some requireKeys
      action := true
      modes := [.vision] },
    { name := "activate"
      description :=
        "Perform an element's default action, such as following a link or pressing a button."
      argsAction := true
      required := some requireElement
      action := true
      modes := [.accessibility] },
    { name := "open_context_menu"
      description :=
        "Open an element's context menu."
      argsAction := true
      required := some requireElement
      action := true
      modes := [.accessibility] },
    { name := "type_text"
      description :=
        "Insert text at the caret without pressing Enter."
      arguments := textArguments
      required := some requireText
      action := true
      modes := [.vision, .accessibility]
      targetedRequired := some requireTargetedText },
    { name := "set_value"
      description :=
        "Replace a text field's contents or set a numeric control's value."
      argsAction := true
      arguments := valueArguments
      required := some requireValue
      action := true
      modes := [.accessibility] },
    { name := "delay_ms"
      description :=
        "Wait 0-30000 milliseconds before continuing. Use a trailing delay to wait before the " ++
        "final observation."
      arguments := delayArguments
      required := some requireDelay
      action := true
      modes := [.vision, .accessibility] } ]

/-! ## Finding an entry -/

/-- `find_tool`. Without vision its tool is not there. -/
def findTool (noVision : Bool) (name : Option String) : Option Tool :=
  tools.find? fun tool => name == some tool.name && !(noVision && tool.batch == .vision)

/-- What a step of that kind of batch asks of an action: with accessibility the
element it is aimed at as well, where the action can be aimed. -/
def targeted (batch : BatchKind) (action : Tool) : Tool :=
  match batch, action.targetedRequired with
  | .accessibility, some required =>
      { action with argsAction := true, required := some required }
  | _, _ => action

/-- `find_action`. -/
def findAction (batch : BatchKind) (name : Option String) : Option Tool :=
  (actionTools.find? fun action => action.modes.contains batch && name == some action.name).map
    (targeted batch)

end Spaces.Mcp
