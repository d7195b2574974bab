import Spaces.Computer.Request
import Spaces.Computer.TreeDiff

/-!
# Batches of steps

`runBatch` checks every step of a batch before it begins the first one. Then it
executes them in order, up to the first that fails, and observes what is to be seen
afterwards. The result counts the steps that were completed and says which one failed.

What was cancelled stays cancelled, and a lock that a request has seen stays seen. A
batch of vision stops at both. A batch of accessibility goes on under a lock: the
hint of a locked screen is to use it.
-/

namespace Spaces.Computer.Batch

open Spaces.Library Json
open Spaces.Mcp

variable {R α : Type} (host : Host R)

/-- One of the `actions` of a batch, and its arguments. -/
structure Step where
  tool : Tool
  arguments : Json

def Step.isDelay (step : Step) : Bool := step.tool.name == "delay_ms"

/-! ## The check of the steps -/

def stepInvalid : Failure :=
  ⟨"invalid_arguments",
    "Each step must be \x7btool,args\x7d naming an action supported by this batch tool."⟩

def argumentsInvalid : Failure :=
  ⟨"invalid_arguments", "Arguments do not match this scu tool's advertised supported schema."⟩

def readStep (noVision : Bool) (kind : BatchKind) (step : Json) : Except Failure Step :=
  match findAction kind (jsonString (some step) "tool"), step, step.get "args" with
  | some tool, .obj [_, _], some (.obj arguments) =>
      if validateArguments noVision tool (.obj arguments) then .ok ⟨tool, .obj arguments⟩
      else .error argumentsInvalid
  | _, _, _ => .error stepInvalid

def readSteps (noVision : Bool) (kind : BatchKind) : List Json → Except Failure (List Step)
  | [] => .ok []
  | step :: steps => do
      let step ← readStep noVision kind step
      return step :: (← readSteps noVision kind steps)

/-! ## One step -/

def keyboardLockedWarning : String :=
  "This control requires keyboard input, which is unavailable while the screen is locked."

/-- The hint where the element needs a keyboard. -/
def keyboardHint (failure : Failure) : Failure :=
  if failure.code = "desktop_locked" then { failure with hint := keyboardLockedWarning }
  else failure

/-- The element is written to through the keyboard. -/
def typeTarget (name : String) (arguments : Json) (numeric : Bool) : Attempt (Scu R) Members :=
  fun s =>
    match perform host (host.typeTargetValue name arguments numeric)
        { s with keyboardFallback := true } with
    | (some result, s) => (some result, s)
    | (none, s) => (none, { s with failure := s.failure.map keyboardHint })

def onElement (name : String) (arguments : Json) : Attempt (Scu R) Members := do
  let result ← perform host (host.atspi name arguments)
  match result.lookup "keyboard_required" with
  | some (.bool true) =>
      typeTarget host name arguments (result.lookup "numeric" matches some (.bool true))
  | _ => pure result

/-- `pointer_action`, and what `scu_visual` does when it fails. -/
def pointed (name : String) (arguments : Json) : Attempt (Scu R) Members := fun s =>
  match perform host (host.pointerAction name arguments) s with
  | (some result, s) => (some result, s)
  | (none, s) => (none, release host s)

def scuVisual (name : String) (arguments : Json) : Attempt (Scu R) Members := do
  foregroundReady host
  perform host host.ensureVisualSession
  visualStep host
  if name = "press_keys" then perform host (host.keyboardAction arguments)
  else if name = "type_text" then perform host (host.typeForegroundText arguments)
  else pointed host name arguments

/-- The part of `execute_tool` that is for the action alone. -/
def act (step : Step) : Attempt (Scu R) Members :=
  if step.isDelay then do
    waitForDelay host (jsonNumber (some step.arguments) "ms" 0).floor.toNat
    return []
  else if step.tool.name = "set_value" ∨ (step.arguments.get "element_id").isSome then
    onElement host step.tool.name step.arguments
  else scuVisual host step.tool.name step.arguments

/-- `execute_tool`, for an action. The tools of a call are not among them. -/
def executeTool (step : Step) : Attempt (Scu R) Members := do
  scuTick host
  requireComputerAccess host
  refreshLock host
  act host step

/-! ## The loop over the steps -/

def errorPayload (failure : Option Failure) : Members :=
  let payload := resultString [] "code" (failure.elim "operation_failed" Failure.code)
  resultString payload "hint" (failure.elim "Inspect state before retrying." Failure.hint)

def batchFailure (index : Nat) (tool : Tool) (failure : Option Failure) : Members :=
  resultString (resultInteger (errorPayload failure) "index" index) "tool" tool.name

/-- What the loop keeps beside the state. -/
structure Progress where
  completed : Nat := 0
  previousDelay : Bool := false
  foregroundAttempted : Bool := false
  warnings : List Json := []
  failed : Option Members := none

def warningItem (index : Nat) (tool : Tool) (warning : Json) : Json :=
  let item := resultString (resultInteger [] "index" index) "tool" tool.name
  .obj (resultMember item "warning" warning)

/-- The progress once the step was given to its backend. -/
def Progress.attempt (p : Progress) (step : Step) (keyboardFallback : Bool) : Progress :=
  { p with
    foregroundAttempted := p.foregroundAttempted ||
      (!step.isDelay && (step.arguments.get "element_id").isNone) || keyboardFallback }

def Progress.complete (p : Progress) (index : Nat) (step : Step) (value : Members) : Progress :=
  { p with
    completed := p.completed + 1
    previousDelay := step.isDelay
    warnings := match value.lookup "warning" with
      | some warning => p.warnings ++ [warningItem index step.tool warning]
      | none => p.warnings }

def Progress.fail (p : Progress) (index : Nat) (step : Step) (failure : Option Failure) :
    Progress :=
  { p with previousDelay := false, failed := some (batchFailure index step.tool failure) }

/-- A step with the gap before it. -/
def runStep (gap : Bool) (step : Step) : Attempt (Scu R) Members := do
  if gap then waitForDelay host 150
  executeTool host step

/-- A delay supplies its own gap, and the first step needs none. -/
def gapBefore (index : Nat) (previousDelay : Bool) (step : Step) : Bool :=
  index ≠ 0 && !step.isDelay && !previousDelay

def clearFallback (s : Scu R) : Scu R := { s with keyboardFallback := false }

/-- The loop of `run_batch`. -/
def runSteps : Nat → Progress → List Step → Scu R → Progress × Scu R
  | _, p, [], s => (p, s)
  | index, p, step :: steps, s =>
      match runStep host (gapBefore index p.previousDelay step) step (clearFallback s) with
      | (some value, s) =>
          runSteps (index + 1) ((p.attempt step s.keyboardFallback).complete index step value)
            steps s
      | (none, s) =>
          ((p.attempt step s.keyboardFallback).fail index step s.failure,
            clearToolError (release host s))

/-! ## The observation afterwards -/

def compactObservation (observation : Members) : Members :=
  ["width", "height"].foldl (fun result field =>
    match observation.lookup field with
    | some value => resultMember result field value
    | none => result) []

/-- The observations so far, and whether one of them failed. -/
structure Observed where
  observations : List Members := []
  failed : Bool := false

/-- An observation, or `item` with the error there was instead. -/
def observation (item : Members) (m : Attempt (Scu R) Members) (o : Observed) (s : Scu R) :
    Observed × Scu R :=
  match m s with
  | (some value, s) => ({ o with observations := o.observations ++ [value] }, s)
  | (none, s) =>
      (⟨o.observations ++ [resultMember item "error" (.obj (errorPayload s.failure))], true⟩,
        clearToolError s)

/-- `yyjson_get_sint`. -/
def getSint : Option Json → Int
  | some (.uint n) => Int.bmod n (2 ^ 64)
  | some (.sint z) => z
  | _ => 0

def finalPause (previousDelay : Bool) : Attempt (Scu R) Unit := fun s =>
  match (if previousDelay then pure () else waitForDelay host 300 : Attempt (Scu R) Unit) s with
  | (some (), s) => (some (), s)
  | (none, s) => (none, release host s)

/-- Whether there is a visual session to observe with. A broken one is not
connected again. -/
def visionReady (p : Progress) : Attempt (Scu R) Unit := do
  finalPause host p.previousDelay
  let s ← Attempt.look
  if s.broken || (p.failed.isSome && p.foregroundAttempted && !s.bus) then
    scuFail "visual_session_closed" "Visual session disconnected during the batch."
  else perform host host.ensureVisualSession

def captured : Attempt (Scu R) Members := do
  return compactObservation (← perform host host.captureDesktop)

def windowObserved (kind : BatchKind) (p : Progress) (window : Int) : Attempt (Scu R) Members := do
  if kind = .accessibility ∧ p.completed ≠ 0 ∧ p.previousDelay = false then waitForDelay host 300
  scuTick host
  requireComputerAccess host
  refreshLock host
  perform host host.refreshGeometry
  perform host (host.observeWindow window (kind != .accessibility))

/-- The window of the request, if it names one. -/
def observeRequested (kind : BatchKind) (requested : Option Json) (p : Progress) (o : Observed)
    (s : Scu R) : Observed × Scu R :=
  match requested with
  | some (.obj members) =>
      let window := getSint (members.lookup "window")
      let (o, s) := observation (resultInteger [] "window_id" window)
        (windowObserved host kind p window) o s
      let shown := o.observations.getLast?.getD []
      ({ o with failed := o.failed || (shown.lookup "screenshot_error").isSome }, s)
  | _ => (o, s)

def observeVision (requested : Option Json) (p : Progress) (s : Scu R) : Observed × Scu R :=
  match visionReady host p s with
  | (none, s) =>
      let item := match jsonMember requested "window" with
        | some window => resultMember [] "window_id" window
        | none => []
      observation item (Attempt.fail id) {} s
  | (some (), s) =>
      let (o, s) := if requested.isNone then observation [] (captured host) {} s else ({}, s)
      observeRequested host .vision requested p o s

/-- Whether the screen denies a batch of that kind what it shows. -/
def denied (kind : BatchKind) (s : Scu R) : Bool × Scu R :=
  if kind = .accessibility then (false, s)
  else if s.lockSeen then (true, s)
  else
    match foregroundReady host s with
    | (some (), s) => (false, s)
    | (none, s) => (true, s)

def observe (kind : BatchKind) (requested : Option Json) (p : Progress) (s : Scu R) :
    Observed × Scu R :=
  let (deny, s) := denied host kind s
  if deny then ({}, s)
  else if requested.any isFalse then ({}, s)
  else if kind = .accessibility then observeRequested host kind requested p {} s
  else observeVision host requested p s

/-! ## The tree that is sent -/

/-- `host_tree_baseline`. -/
def hostTreeBaseline (kind : BatchKind) (s : Scu R) : Option TreeBaseline :=
  s.client.map fun client =>
    if kind = .vision then client.visionTree else client.accessibilityTree

def setTreeBaseline (kind : BatchKind) (baseline : TreeBaseline) (s : Scu R) : Scu R :=
  { s with
    client := s.client.map fun client =>
      if kind = .vision then { client with visionTree := baseline }
      else { client with accessibilityTree := baseline } }

/-- The tree as it differs from the one sent before, where that is the shorter text. -/
def shapeTree (kind : BatchKind) (requested : Members) (observation : Members) (s : Scu R) :
    Members × Scu R :=
  match jsonString (some (.obj observation)) "tree_markdown", hostTreeBaseline kind s with
  | some tree, some baseline =>
      if host.worker s.rest then
        let window := getSint (requested.lookup "window")
        let truncated := observation.lookup "truncated" matches some (.bool true)
        let refresh := requested.lookup "refresh" matches some (.bool true)
        let diff := match baseline.tree with
          | some sent =>
              if baseline.window = window ∧ !refresh ∧ !baseline.truncated ∧ !truncated then
                TreeDiff.treeDiff host.allocated sent tree.toList "No Changes.\n".toList
              else none
          | none => none
        let shaped := resultBoolean observation "tree_full" diff.isNone
        let shaped := match diff with
          | some text => resultString shaped "tree_markdown" (String.ofList text)
          | none => shaped
        (shaped, setTreeBaseline kind ⟨window, some tree.toList, truncated⟩ s)
      else (observation, s)
  | _, _ => (observation, s)

def shapeFirst (kind : BatchKind) (requested : Option Json) (observations : List Members)
    (s : Scu R) : List Members × Scu R :=
  match requested, observations with
  | some (.obj members), first :: others =>
      if !s.cancelled && !s.stopping && (kind = .accessibility || (!s.lockSeen && s.bus)) then
        let (first, s) := shapeTree host kind members first s
        (first :: others, s)
      else (observations, s)
  | _, _ => (observations, s)

/-! ## `run_batch` -/

/-- The failure that a locked screen leaves of a batch of vision. -/
def lockedFailure (failed : Option Members) (s : Scu R) : Members :=
  match failed with
  | none => errorPayload s.failure
  | some failure =>
      if s.lockSeen then
        resultString (resultString failure "code" "desktop_locked") "hint" desktopLockedWarning
      else failure

/-- The failed step of the result, and whether anything failed. -/
def settleFailure (kind : BatchKind) (p : Progress) (o : Observed) (s : Scu R) :
    Option Members × Bool × Scu R :=
  let (deny, s) := denied host kind s
  if deny then
    let s := { s with rest := host.clearImages (host.releaseInput s.rest) }
    let s := if s.lockSeen then record ⟨"desktop_locked", desktopLockedWarning⟩ s else s
    (some (lockedFailure p.failed s), true, clearToolError s)
  else (p.failed, p.failed.isSome || o.failed, s)

def batchResult (p : Progress) (failed : Option Members) (anyFailed : Bool)
    (observations : List Members) : Members :=
  let result := match failed with
    | some failure => resultMember [] "failed" (.obj failure)
    | none => []
  let result := resultInteger result "completed" p.completed
  let result := if p.warnings.isEmpty then result
    else resultMember result "warnings" (.arr p.warnings)
  let result := resultMember result "observations" (.arr (observations.map .obj))
  resultString result "status" (if anyFailed then "failed" else "ok")

/-- What follows the loop. -/
def finish (kind : BatchKind) (requested : Option Json) (p : Progress) (s : Scu R) :
    Members × Scu R :=
  let (o, s) := observe host kind requested p s
  let (failed, anyFailed, s) := settleFailure host kind p o s
  let (observations, s) := shapeFirst host kind requested o.observations s
  (batchResult p failed anyFailed observations, s)

/-- The request is let in, once its steps were checked. -/
def letIn (kind : BatchKind) : Attempt (Scu R) Unit := do
  refreshLock host
  if kind ≠ .accessibility then
    Attempt.update fun s => { s with visionRequest := true }
    inputAllowed
  requireComputerAccess host

/-- The loop, and what follows it. -/
def executeSteps (kind : BatchKind) (requested : Option Json) (steps : List Step) :
    Attempt (Scu R) Members := fun s =>
  let (p, s) := runSteps host 0 {} steps s
  let (result, s) := finish host kind requested p s
  (some result, s)

def runBatch (noVision : Bool) (kind : BatchKind) (arguments : Json) : Attempt (Scu R) Members :=
  match readSteps noVision kind (items (arguments.get "steps")) with
  | .error failure => Attempt.fail (record failure)
  | .ok steps => do
      letIn host kind
      executeSteps host kind (arguments.get "observations") steps

end Spaces.Computer.Batch
