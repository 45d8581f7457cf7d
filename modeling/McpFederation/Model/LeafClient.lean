/-
The client that talks to one leaf.

`leaf_client.rs`: the session-carrying POST (`send_once`), the handshake (`initialize`,
here `initializeLeaf`), the request that re-initializes once when the leaf has lost
the session (`send_request`), and the MCP methods built from them.

The client is shared by every task that uses the leaf.  What they share is the stored
session id and the request counter, and what they await is a lock on one of these or
an HTTP exchange.  Those are the calls of `ClientCall`; every function below is a
program over them, so it can be run alone or interleaved with others.
-/
import McpFederation.Lib.Program
import McpFederation.Model.Config

namespace McpFederation

/-! ### Calls -/

/-- What one POST carries. -/
structure HttpPost where
  url : String
  body : Value
  bearer : Option String
  accept : Option String
  sessionId : Option String

/-- A reply whose headers have arrived.  Reading its body may still fail. -/
structure HttpReply where
  status : Nat
  sessionId : Option String := none
  contentType : String := ""
  body : Except String ByteArray := .ok ByteArray.empty

/-- What the client awaits: the request counter, the `session_id` lock, the network. -/
inductive ClientCall where
  | nextRequestId
  | readSession
  | writeSession (id : Option String)
  | post (p : HttpPost)

/-- What each call is answered with; a failed exchange gives the error's text. -/
@[reducible] def ClientCall.Reply : ClientCall → Type
  | .nextRequestId => UInt64
  | .readSession => Option String
  | .writeSession _ => Unit
  | .post _ => Except String HttpReply

/-- Client code: calls, ending in a value or a `FederationError`. -/
abbrev ClientM (α : Type) := ExceptT FederationError (Prog ClientCall ClientCall.Reply) α

/-- Make one call. -/
def ClientM.perform (c : ClientCall) : ClientM c.Reply := ExceptT.lift (Prog.perform c)

/-- What the client code uses from outside the program: files, the JSON decoder, and the
`Display` form of a status code. -/
structure ClientEnv where
  readFile : String → Except String String
  jsonFromSlice : ByteArray → Option Value
  statusText : Nat → String

/-! ### The client -/

/-- The part of `LeafClient` that never changes. -/
structure LeafClient where
  aliasName : String
  url : String
  transport : TransportType
  authToken : Option String
  authTokenFile : Option String
deriving DecidableEq

def LeafClient.new (config : ServerConfig) : LeafClient where
  aliasName := config.aliasName
  url := config.url
  transport := config.transport
  authToken := config.authToken
  authTokenFile := config.authTokenFile

/-- `StatusCode::is_success`. -/
def isSuccess (status : Nat) : Bool := 200 ≤ status && status < 300

/-- Collect the `data:` payloads of an SSE body, joined by line feeds. -/
def sseData : List (List Char) → List Char → List Char
  | [], data => data
  | raw :: rest, data =>
      let line := (Text.stripLast '\r' raw).getD raw
      if line = [] ∨ line.head? = some ':' then sseData rest data
      else
        match Text.stripChars ['d', 'a', 't', 'a', ':'] line with
        | none => sseData rest data
        | some payload =>
            let payload := (Text.stripChars [' '] payload).getD payload
            sseData rest (if data = [] then payload else data ++ '\n' :: payload)

/-- `parse_sse_body`. -/
def parseSseBody (env : ClientEnv) (body : String) : Option Value :=
  let data := sseData (Text.linesChars body.toList) []
  if data = [] then none else env.jsonFromSlice (String.ofList data).toUTF8

namespace LeafClient

variable (env : ClientEnv) (cl : LeafClient)

def resolveAuthToken : Option String :=
  match cl.authToken with
  | some token => some token
  | none =>
      match cl.authTokenFile with
      | none => none
      | some path =>
          match env.readFile path with
          | .ok contents => some (Text.trim contents)
          | .error _ => none

/-- The POST that `send_once` builds around a body. -/
def postOf (body : Value) (sessionId : Option String) : HttpPost where
  url := cl.url
  body := body
  bearer := cl.resolveAuthToken env
  accept :=
    if cl.transport = .streamableHttp then some "application/json, text/event-stream" else none
  sessionId := sessionId

/-- The body of a reply as JSON; a body that does not decode is `null`. -/
def decodeBody (contentType : String) (bytes : ByteArray) : Value :=
  if Text.startsWith "text/event-stream" contentType then
    (parseSseBody env ((String.fromUTF8? bytes).getD "")).getD .null
  else (env.jsonFromSlice bytes).getD .null

/-- The session id a POST goes out with. -/
def sessionForPost : ClientM (Option String) :=
  if cl.transport = .streamableHttp then ClientM.perform .readSession else pure none

/-- Keep the session id a reply carries. -/
def captureSession (reply : HttpReply) : ClientM Unit :=
  match cl.transport, reply.sessionId with
  | .streamableHttp, some id => ClientM.perform (.writeSession (some id))
  | _, _ => pure ()

/-- What `send_once` makes of a reply once its headers are in. -/
def finishReply (reply : HttpReply) : ClientM (Nat × Value) :=
  match reply.body with
  | .error e => throw (.leafUnreachable cl.aliasName e)
  | .ok bytes => pure (reply.status, decodeBody env reply.contentType bytes)

def sendOnce (body : Value) : ClientM (Nat × Value) := do
  let sessionId ← cl.sessionForPost
  match ← ClientM.perform (.post (cl.postOf env body sessionId)) with
  | .error e => throw (.leafUnreachable cl.aliasName e)
  | .ok reply =>
      cl.captureSession reply
      cl.finishReply env reply

/-- A JSON-RPC request with an id. -/
def rpcRequest (id : UInt64) (method : String) (params : Value) : Value :=
  .obj [("jsonrpc", .string "2.0"), ("id", .number (.posInt id)), ("method", .string method),
    ("params", params)]

def initializeParams : Value :=
  .obj [("protocolVersion", .string "2025-11-25"), ("capabilities", .obj []),
    ("clientInfo", .obj [("name", .string "mcp-federation"),
      ("version", .string cargoPkgVersion)])]

def initializedNotification : Value :=
  .obj [("jsonrpc", .string "2.0"), ("method", .string "notifications/initialized"),
    ("params", .obj [])]

/-- `initialize` starts fresh: a stored session id is cleared before the request. -/
def clearSession : ClientM Unit :=
  if cl.transport = .streamableHttp then ClientM.perform (.writeSession none) else pure ()

/-- The notification that ends the handshake; a failure to deliver it is ignored. -/
def notifyInitialized : ClientM Unit := do
  let _ ← ExceptT.lift (cl.sendOnce env initializedNotification).run

/-- What `initialize` makes of the reply to its request. -/
def finishInitialize (status : Nat) (response : Value) : ClientM Value := do
  if isSuccess status then
    cl.notifyInitialized env
    match response.get? "result" with
    | some result => pure result
    | none => throw (.leafError cl.aliasName "initialize response missing 'result'")
  else
    throw (.leafError cl.aliasName ("initialize returned HTTP " ++ env.statusText status))

def initializeLeaf : ClientM Value := do
  cl.clearSession
  let id ← ClientM.perform .nextRequestId
  let (status, response) ← cl.sendOnce env (rpcRequest id "initialize" initializeParams)
  cl.finishInitialize env status response

/-- A 404, or a 400 while no session id is stored. -/
def needsRetry (status : Nat) : ClientM Bool :=
  if cl.transport = .streamableHttp then
    if status = 404 then pure true
    else if status = 400 then do
      let id ← ClientM.perform .readSession
      pure id.isNone
    else pure false
  else pure false

/-- The second attempt, after the handshake. -/
def retry (body : Value) : ClientM Value := do
  let _ ← cl.initializeLeaf env
  let (retryStatus, retryValue) ← cl.sendOnce env body
  if isSuccess retryStatus then pure retryValue
  else
    throw (.leafError cl.aliasName
      ("leaf returned HTTP " ++ env.statusText retryStatus ++ " after session re-init"))

def sendRequest (body : Value) : ClientM Value := do
  let (status, value) ← cl.sendOnce env body
  if ← cl.needsRetry status then cl.retry env body
  else if isSuccess status then pure value
  else throw (.leafError cl.aliasName ("leaf returned HTTP " ++ env.statusText status))

/-- A reply with success is not tried again. -/
theorem needsRetry_of_isSuccess {status : Nat} (hok : isSuccess status = true) :
    cl.needsRetry status = pure false := by
  have hne : ∀ code, isSuccess code = false → status ≠ code := by
    intro code hcode h
    rw [h, hcode] at hok
    cases hok
  rw [needsRetry, if_neg (hne 404 rfl), if_neg (hne 400 rfl), ite_self]

/-! ### The MCP methods -/

/-- `tools/list`, `resources/list` and `prompts/list` differ only in their names.  A
reply without the array counts as an empty one. -/
def listItems (method key : String) : ClientM (List Value) := do
  let id ← ClientM.perform .nextRequestId
  let response ← cl.sendRequest env (rpcRequest id method (.obj []))
  pure ((((response.get? "result").bind (·.get? key)).bind Value.asArray).getD [])

def listTools : ClientM (List Value) := cl.listItems env "tools/list" "tools"

def listResources : ClientM (List Value) := cl.listItems env "resources/list" "resources"

def listPrompts : ClientM (List Value) := cl.listItems env "prompts/list" "prompts"

/-- `tools/call`, `prompts/get` and `resources/read`: an `error` member fails the call
with its message, and a reply without a `result` fails it too. -/
def callMethod (method : String) (params : Value) (missing : String) : ClientM Value := do
  let id ← ClientM.perform .nextRequestId
  let response ← cl.sendRequest env (rpcRequest id method params)
  match response.get? "error" with
  | some error =>
      throw (.leafError cl.aliasName ((error.strAt "message").getD "unknown error"))
  | none =>
      match response.get? "result" with
      | some result => pure result
      | none => throw (.leafError cl.aliasName missing)

def callTool (toolName : String) (arguments : Value) : ClientM Value :=
  cl.callMethod env "tools/call" (.obj [("name", .string toolName), ("arguments", arguments)])
    "tool call response missing 'result'"

def getPrompt (name : String) (arguments : Value) : ClientM Value :=
  cl.callMethod env "prompts/get" (.obj [("name", .string name), ("arguments", arguments)])
    "prompts/get response missing 'result'"

def readResource (uri : String) : ClientM Value :=
  cl.callMethod env "resources/read" (.obj [("uri", .string uri)])
    "resources/read response missing 'result'"

end LeafClient

end McpFederation
