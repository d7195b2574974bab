import Spaces.Mcp.Schema

/-!
# The requests of one connection

`handleRequest` is what the server does with one document: it answers it, lets it
pass as a notification, or begins a call of a tool. A call ends with
`finishCall`, once the host has executed it or has failed to.

A document is read through C strings throughout, its `jsonrpc` and `method`
included.
-/

namespace Spaces.Mcp

open Spaces.Library Json

/-- `modern` and `initialized`, which the requests of a connection share. -/
structure Session where
  modern : Bool := false
  initialized : Bool := false
  deriving DecidableEq

/-! ## Responses -/

def serverInfo : Json :=
  .obj (resultString (resultString [] "name" "scu") "version" "0.1.0")

def serverInfoKey : String := "io.modelcontextprotocol/serverInfo"

/-- The data of the error that names the supported versions. -/
def supportedVersions (requested : String) : Json :=
  let supported := .arr [.str "2026-07-28", .str "2025-11-25", .str "2025-06-18"]
  .obj (resultString (resultMember [] "supported" supported) "requested" requested)

def rpcError (code : Int) (message : String) : Json :=
  let e := resultString (resultInteger [] "code" code) "message" message
  if code = -32022 then
    .obj (resultString (resultMember e "data" (supportedVersions message))
      "message" "Unsupported protocol version")
  else .obj e

def replyTo (id : Option Json) : Members :=
  resultMember (resultString [] "jsonrpc" "2.0") "id" (id.getD .null)

/-- `send_response` with an error. -/
def sendError (id : Option Json) (code : Int) (message : String) : Json :=
  .obj (resultMember (replyTo id) "error" (rpcError code message))

/-- `send_response` with a result. -/
def sendResult (modern : Bool) (id : Json) (payload : Members) : Json :=
  let payload := if modern && (payload.lookup "_meta").isNone then
      resultMember payload "_meta" (.obj (resultMember [] serverInfoKey serverInfo))
    else payload
  .obj (resultMember (replyTo (some id)) "result" (.obj payload))

/-! ## Results -/

def serverInstructions : String :=
  "Computer use MCP server. Control the host desktop: screenshots, mouse, keyboard, and " ++
  "accessibility. Use `status` to inspect the desktop, `vision` for pointer/keyboard " ++
  "actions and screenshots, and `accessibility` for element actions and window trees. To " ++
  "launch an app, use search_applications/launch_application."

def noVisionInstructions : String :=
  "Computer use MCP server. Control the host desktop through accessibility. Start with " ++
  "status for canvas metadata and window IDs, then use accessibility for element actions " ++
  "and window trees. To launch an app, use search_applications/launch_application. This " ++
  "MCP has no vision support."

def noVisionStatusDescription : String :=
  "Run first for health checks, canvas metadata, apps and windows."

/-- `add_server_info`. -/
def addServerInfo (noVision modern : Bool) (result : Members) : Members :=
  let result := resultString result "instructions"
    (if noVision then noVisionInstructions else serverInstructions)
  let result := resultMember result "capabilities"
    (.obj (resultMember [] "tools" (.obj [])))
  if modern then
    resultMember result "_meta" (.obj (resultMember [] serverInfoKey serverInfo))
  else resultMember result "serverInfo" serverInfo

def toolItem (noVision : Bool) (tool : Tool) : Json :=
  let annotations := resultBoolean [] "readOnlyHint" !tool.action
  let annotations := resultBoolean annotations "idempotentHint" false
  let annotations := resultBoolean annotations "openWorldHint" true
  let item := resultString [] "name" tool.name
  let item := resultString item "description"
    (if noVision && tool.name == "status" then noVisionStatusDescription else tool.description)
  let item := resultMember item "inputSchema" (buildToolSchema noVision tool)
  .obj (resultMember item "annotations" (.obj annotations))

/-- `list_tools`. -/
def listTools (noVision : Bool) (result : Members) : Members :=
  let listed := tools.filter fun tool => !(noVision && tool.batch == .vision)
  resultMember result "tools" (.arr (listed.map (toolItem noVision)))

/-! ## Calls of tools -/

/-- What `scu_fail` has recorded. -/
structure Failure where
  code : String
  hint : String

/-- A call between the two halves of `call_tool`. With a `failure` nothing is
forwarded to the host. -/
structure Call where
  id : Json
  parameters : Option Json
  tool : Option Tool
  failure : Option Failure
  result : Members

def beginCall (noVision : Bool) (id : Json) (parameters : Option Json) (result : Members) : Call :=
  let tool := findTool noVision (jsonString parameters "name")
  let arguments := (jsonMember parameters "arguments").getD (.obj [])
  let failure := match tool with
    | none => some ⟨"unknown_tool", "Tool is not implemented by scu."⟩
    | some t =>
        if validateArguments noVision t arguments then none
        else some ⟨"invalid_arguments",
          "Arguments do not match this scu tool's advertised supported schema."⟩
  { id, parameters, tool, failure, result }

/-- Whether the call reaches `forward_tool`. -/
def Call.executes (call : Call) : Bool := call.failure.isNone

/-- The content that `status` keeps without vision. -/
def withoutImages (output : Members) : Members :=
  let kept := (items (output.lookup "content")).filter fun block =>
    jsonString (some block) "type" != some "image"
  resultMember (output.filter (·.1 ≠ "content")) "content" (.arr kept)

/-- `add_tool_result` without an output. -/
def addFailure (result : Members) (failure : Failure) : Members :=
  let text := resultString (resultString [] "type" "text")
    "text" ("Error: " ++ failure.code ++ ": " ++ failure.hint ++ "\n")
  resultBoolean (resultMember result "content" (.arr [.obj text])) "isError" true

/-- What `forward_tool` returned: the members of the host's result, or the failure
it recorded. -/
abbrev Outcome := Except Failure Members

def callResult (noVision : Bool) (call : Call) (outcome : Outcome) : Members :=
  match call.failure with
  | some failure => addFailure call.result failure
  | none =>
      match outcome with
      | .error failure => addFailure call.result failure
      | .ok output =>
          let output := if noVision && call.tool.any (·.name == "status")
            then withoutImages output else output
          output.foldl (fun result member => resultMember result (cString member.1) member.2)
            call.result

/-! ## `handle_request` -/

/-- How far `handle_request` gets by itself. -/
inductive Progress where
  | finished (replies : List Json)
  | calling (call : Call)

/-- `yyjson_is_str(id) || yyjson_is_int(id)`. -/
def isRequestId : Json → Bool
  | .str _ | .uint _ | .sint _ => true
  | _ => false

def protocolVersion : String := "io.modelcontextprotocol/protocolVersion"
def clientCapabilities : String := "io.modelcontextprotocol/clientCapabilities"

/-- The result that a modern client's response starts from. -/
def startResult (modern : Bool) : Members :=
  if modern then resultString [] "resultType" "complete" else []

/-- The part of `handle_request` that answers by the method. -/
def dispatchMethod (noVision : Bool) (s : Session) (id : Json) (method : String)
    (parameters : Option Json) : Session × Progress :=
  let result := startResult s.modern
  if method = "initialize" then
    let version := jsonString parameters "protocolVersion"
    if version = some "2025-06-18" ∨ version = some "2025-11-25" then
      let result := resultString result "protocolVersion" (version.getD "")
      ({ s with modern := false, initialized := true },
        .finished [sendResult false id (addServerInfo noVision false result)])
    else
      (s, .finished [sendError (some id) (-32602)
        "Supported legacy protocols: 2025-11-25, 2025-06-18; modern: 2026-07-28"])
  else if method = "server/discover" ∧ s.modern then
    let result := resultMember result "supportedVersions" (.arr [.str "2026-07-28"])
    (s, .finished [sendResult s.modern id (addServerInfo noVision s.modern result)])
  else if ¬ s.initialized ∧ ¬ s.modern then
    (s, .finished [sendError (some id) (-32000) "Initialize scu first"])
  else if method = "tools/list" then
    (s, .finished [sendResult s.modern id (listTools noVision result)])
  else if method = "tools/call" then
    (s, .calling (beginCall noVision id parameters result))
  else if method = "ping" then
    (s, .finished [sendResult s.modern id result])
  else (s, .finished [sendError (some id) (-32601) "Method not found"])

/-- The part of `handle_request` after the notifications: the protocol metadata of
the request, and the method. -/
def answerRequest (noVision : Bool) (s : Session) (id : Json) (method : String)
    (parameters : Option Json) : Session × Progress :=
  let metadata := jsonMember parameters "_meta"
  match jsonString metadata protocolVersion with
  | none =>
      if ¬ s.initialized ∧ method ≠ "initialize" then
        (s, .finished [sendError (some id) (-32602)
          "Modern requests require protocol metadata on every request."])
      else dispatchMethod noVision { s with modern := false } id method parameters
  | some version =>
      let s := { s with modern := true }
      if version ≠ "2026-07-28" then (s, .finished [sendError (some id) (-32022) version])
      else if ¬ (jsonMember metadata clientCapabilities).any isObj then
        (s, .finished [sendError (some id) (-32602)
          "Modern requests require clientCapabilities metadata."])
      else dispatchMethod noVision s id method parameters

def isInvalid (request : Json) : Bool :=
  !request.isObj || jsonString (some request) "jsonrpc" != some "2.0"
    || (jsonString (some request) "method").isNone
    || (request.get "id").any fun id => !isRequestId id

/-- `handle_request`. -/
def handleRequest (noVision : Bool) (s : Session) (request : Json) : Session × Progress :=
  let id := request.get "id"
  if isInvalid request then
    (s, .finished [sendError id (-32600) "Invalid JSON-RPC request"])
  else
    let method := (jsonString (some request) "method").getD ""
    if method = "notifications/initialized" then
      ({ s with initialized := true }, .finished [])
    else
      match id with
      | none => (s, .finished [])
      | some id => answerRequest noVision s id method (request.get "params")

end Spaces.Mcp
