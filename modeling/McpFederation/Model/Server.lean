/-
The MCP endpoint.

`server.rs`, from an HTTP request to `/mcp` to its answer: the origin check, the session
check, the rate limiter, `dispatch` with its handlers, and the session minted for an
`initialize`.  Only the `tools/*` handlers are given the request's context; the others
are called without it, here as in the source.

A handler gives its answer together with what it forwarded to leaves and the state after.
-/
import McpFederation.Model.Api
import McpFederation.Model.RateLimit
import McpFederation.Model.Rbac
import McpFederation.Model.Router
import McpFederation.Model.Session

namespace McpFederation

/-- `FederationState`: the aggregator and the router only hold the registry. -/
structure FederationState where
  leaves : Leaves
  sessions : SessionManager
  allowedOrigins : List String
  rateLimiter : RateLimiter

/-- A server just started, with its defaults: no session, every origin, no rate limit. -/
def FederationState.ofLeaves (leaves : Leaves) : FederationState where
  leaves := leaves
  sessions := { ttl := 3600, key := [], sessions := ∅ }
  allowedOrigins := []
  rateLimiter := RateLimiter.new {}

/-- What handling a JSON-RPC request came to. -/
structure Dispatched where
  response : JsonRpcResponse
  forwarded : List (LeafEntry × Forward) := []
  state : FederationState

/-! ### Handlers -/

section

variable (env : ServerEnv) (state : FederationState) (request : JsonRpcRequest)

/-- An answer that neither forwards nor changes anything. -/
def answer (response : JsonRpcResponse) : Dispatched := { response := response, state := state }

def handleInitialize : JsonRpcResponse :=
  successResponse request (.obj
    [("protocolVersion", .string "2025-11-25"),
      ("capabilities", .obj [("tools", .obj []), ("resources", .obj []), ("prompts", .obj []),
        ("logging", .obj []), ("sampling", .obj [])]),
      ("serverInfo", .obj [("name", .string "mcp-federation"),
        ("version", .string cargoPkgVersion)])])

/-- `VALID_LOG_LEVELS`. -/
def validLogLevels : List String :=
  ["debug", "info", "notice", "warning", "error", "critical", "alert", "emergency"]

def handleLoggingSetLevel (sessionId : Option String) : Dispatched :=
  match request.params.strAt "level" with
  | none => answer state (errorResponse request (-32602) "missing required 'level' parameter")
  | some level =>
      if level ∉ validLogLevels then
        answer state (errorResponse request (-32602)
          ("invalid log level '" ++ level ++ "'; expected one of: "
            ++ String.intercalate ", " validLogLevels))
      else
        { response := successResponse request (.obj [])
          state :=
            match sessionId with
            | some sid => { state with sessions := (state.sessions.setLogLevel sid level).2 }
            | none => state }

def handleSamplingCreateMessage : JsonRpcResponse :=
  errorResponse request (-32601)
    ("sampling not supported by this federation server — connect directly "
      ++ "to a leaf server that supports sampling")

/-- A name that does not split is let through. -/
def toolAllowed (ctx : RequestContext) (name : String) : Bool :=
  match parseNamespacedName name with
  | some (a, _) => ctx.allowsAlias a
  | none => true

/-- The tools of the catalogue that the context lets through. -/
def visibleTools (ctx : RequestContext) (tools : List Value) : List Value :=
  if ctx.allowedServers.isSome then
    tools.filter fun t => ((t.strAt "name").map (toolAllowed ctx)).getD true
  else tools

def handleToolsList (ctx : RequestContext) : Dispatched :=
  answer state (successResponse request
    (.obj [("tools", .array (visibleTools ctx state.leaves.aggregatedTools))]))

/-- The answer to a routed request; a failure is a JSON-RPC error with its text. -/
def routedAnswer (routed : Routed) : Dispatched where
  response :=
    match routed.result with
    | .ok value => successResponse request value
    | .error e => errorResponse request (-32000) e.toText
  forwarded := routed.forwarded
  state := { state with leaves := routed.leaves }

/-- A string member of the parameters; anything else counts as the empty string. -/
def paramStr (key : String) : String := ((request.params.index key).asStr).getD ""

def handleToolsCall (ctx : RequestContext) : Dispatched :=
  let toolName := paramStr request "name"
  let arguments := request.params.index "arguments"
  match parseNamespacedName toolName with
  | some (a, _) =>
      if ctx.allowsAlias a then
        routedAnswer state request (state.leaves.routeToolCall env toolName arguments)
      else
        answer state (errorResponse request (-32000)
          ("access denied: client is not permitted to use leaf '" ++ a ++ "'"))
  | none => routedAnswer state request (state.leaves.routeToolCall env toolName arguments)

def handleResourcesList : Dispatched :=
  answer state (successResponse request
    (.obj [("resources", .array state.leaves.aggregatedResources)]))

def handleResourcesRead : Dispatched :=
  routedAnswer state request (state.leaves.routeResourceRead env (paramStr request "uri"))

def handlePromptsList : Dispatched :=
  answer state (successResponse request (.obj [("prompts", .array state.leaves.aggregatedPrompts)]))

def handlePromptsGet : Dispatched :=
  routedAnswer state request (state.leaves.routePromptGet env (paramStr request "name")
    (request.params.index "arguments"))

def dispatch (sessionId : Option String) (ctx : RequestContext) : Dispatched :=
  match request.method with
  | "initialize" => answer state (handleInitialize request)
  | "notifications/initialized" => answer state (successResponse request (.obj []))
  | "tools/list" => handleToolsList state request ctx
  | "tools/call" => handleToolsCall env state request ctx
  | "resources/list" => handleResourcesList state request
  | "resources/read" => handleResourcesRead env state request
  | "prompts/list" => handlePromptsList state request
  | "prompts/get" => handlePromptsGet env state request
  | "logging/setLevel" => handleLoggingSetLevel state request sessionId
  | "sampling/createMessage" => answer state (handleSamplingCreateMessage request)
  | _ => answer state (methodNotFound request)

end

/-! ### HTTP -/

/-- What an HTTP handler uses from outside: besides the above, tokens, both clocks and a
fresh UUID. -/
structure HttpEnv where
  server : ServerEnv
  jwt : Jwt
  now : Now
  uuid : String

/-- The body of an answer.  `rpc` is sent as JSON or as one SSE event, and `stream` is the
notification stream. -/
inductive HttpBody where
  | empty
  | text (s : String)
  | rpc (response : JsonRpcResponse) (sse : Bool)
  | stream
  | servers (infos : List ServerInfoResponse)
  | server (info : ServerInfoResponse)
  | error (message : String)

structure HttpResponse where
  status : Nat
  body : HttpBody := .empty
  sessionId : Option String := none

/-- An answer, what was forwarded for it, and the state after. -/
structure Handled where
  response : HttpResponse
  forwarded : List (LeafEntry × Forward) := []
  state : FederationState

def acceptsSse (headers : HeaderMap) : Bool :=
  match HeaderMap.getStr headers "accept" with
  | none => false
  | some v =>
      (Text.splitOn ',' v.toList).any fun piece =>
        Text.startsWith "text/event-stream" (Text.trim (String.ofList piece))

def extractSessionId (headers : HeaderMap) : Option String :=
  HeaderMap.getStr headers "mcp-session-id"

/-- The `clientInfo` of an `initialize` response's result. -/
def extractClientInfo (response : JsonRpcResponse) : Option Value :=
  response.result.bind (·.get? "clientInfo")

/-- The origin is allowed: every origin if none is listed, else a listed one. -/
def originAllowed (state : FederationState) (headers : HeaderMap) : Bool :=
  if state.allowedOrigins = [] then true
  else
    let origin := (HeaderMap.getStr headers "origin").getD ""
    origin ≠ "" && origin ∈ state.allowedOrigins

section

variable (env : HttpEnv) (state : FederationState) (headers : HeaderMap)

/-- An HTTP answer that changes nothing. -/
def reply (status : Nat) (body : HttpBody) : Handled :=
  { response := { status := status, body := body }, state := state }

/-- The session check of a request that is not an `initialize`. -/
def checkSession (sid : Option String) : Option FederationState :=
  match sid with
  | none => some state
  | some sid =>
      let (valid, sessions) := state.sessions.checkAndTouch env.jwt env.now sid
      if valid then some { state with sessions := sessions } else none

/-- From the rate limiter on. -/
def handleAdmitted (ctx : RequestContext) (request : JsonRpcRequest) : Handled :=
  let (allowed, limiter) := state.rateLimiter.check ctx.clientLabel env.now.instant
  let state := { state with rateLimiter := limiter }
  if allowed then
    let d := dispatch env.server state request (extractSessionId headers) ctx
    if request.method = "initialize" ∧ d.response.error = none then
      let (sid, sessions) :=
        d.state.sessions.createSession env.jwt env.now env.uuid (extractClientInfo d.response)
      { response :=
          { status := 200, body := .rpc d.response (acceptsSse headers), sessionId := some sid }
        forwarded := d.forwarded
        state := { d.state with sessions := sessions } }
    else
      { response := { status := 200, body := .rpc d.response (acceptsSse headers) }
        forwarded := d.forwarded
        state := d.state }
  else
    reply state 429 (.rpc (errorResponse request (-32000) "rate limit exceeded") false)

/-- `handle_mcp`; a request without a context is anonymous. -/
def handleMcp (ctx : Option RequestContext) (request : JsonRpcRequest) : Handled :=
  if originAllowed state headers then
    let admitted :=
      if request.method = "initialize" then some state
      else checkSession env state (extractSessionId headers)
    match admitted with
    | none => reply state 404 (.text "session expired or unknown")
    | some state => handleAdmitted env state headers (ctx.getD .anonymous) request
  else reply state 403 (.text "origin not allowed")

def deleteMcp : Handled :=
  if originAllowed state headers then
    match extractSessionId headers with
    | none => reply state 400 (.text "missing Mcp-Session-Id header")
    | some sid =>
        let (removed, sessions) := state.sessions.terminateSession sid
        if removed then
          { response := { status := 200 }, state := { state with sessions := sessions } }
        else
          { response := { status := 404, body := .text "session expired or unknown" }
            state := { state with sessions := sessions } }
  else reply state 403 (.text "origin not allowed")

def getMcp : Handled :=
  if originAllowed state headers then
    match extractSessionId headers with
    | none => reply state 400 (.text "missing Mcp-Session-Id header")
    | some sid =>
        match checkSession env state (some sid) with
        | none => reply state 404 (.text "session expired or unknown")
        | some state => reply state 200 .stream
  else reply state 403 (.text "origin not allowed")

end

end McpFederation
