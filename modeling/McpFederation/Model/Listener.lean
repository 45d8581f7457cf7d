/-
Listening to a leaf.

`run_notification_stream` of `leaf_client.rs`: a GET on the leaf's URL that is answered
with a stream of server-sent events, each of which is decoded, marked with the leaf's alias
and published.  The bytes arrive in chunks that may be cut anywhere; they are gathered into
lines, and the `data:` lines of an event into its payload.

The reader of the stream is a program whose only call is `dispatch_event`, so what it is
about can be said without the broker: which payloads it hands over, in which order.
`dispatchEvent` is what each of these calls then does.  A stream is the list of its chunks
until it ends, the last of which may be a failure.  Log lines are left out.
-/
import McpFederation.Model.LeafClient

namespace McpFederation

/-! ### The reader -/

/-- Code whose calls hand a payload to `dispatch_event`. -/
abbrev SseM (α : Type) := Prog String (fun _ => Unit) α

namespace SseM

/-- `dispatch_event`, seen from the reader. -/
def dispatch (payload : String) : SseM Unit := Prog.perform payload

end SseM

/-- `str::from_utf8(..).unwrap_or("")`. -/
def lineText (bytes : List UInt8) : List Char :=
  ((String.fromUTF8? bytes.toByteArray).getD "").toList

/-- `handle_sse_line`: the data buffer after a line. -/
def handleSseLine (line dataBuf : List Char) : SseM (List Char) :=
  if line = [] then
    if dataBuf = [] then pure dataBuf
    else do
      SseM.dispatch (String.ofList dataBuf)
      pure []
  else if line.head? = some ':' then pure dataBuf
  else
    match Text.stripChars ['d', 'a', 't', 'a', ':'] line with
    | none => pure dataBuf
    | some payload =>
        let payload := (Text.stripChars [' '] payload).getD payload
        pure (if dataBuf = [] then payload else dataBuf ++ '\n' :: payload)

/-- The buffers of the reader: the line and the payload that are not complete yet. -/
structure SseBuffers where
  lineBuf : List UInt8 := []
  dataBuf : List Char := []

/-- A complete line, without the CR of a CRLF ending. -/
def completeLine (lineBuf : List UInt8) : List Char :=
  lineText (if lineBuf.getLast? = some 13 then lineBuf.dropLast else lineBuf)

/-- The loop over the bytes of a chunk. -/
def readBytes : List UInt8 → SseBuffers → SseM SseBuffers
  | [], buf => pure buf
  | b :: rest, buf =>
      if b = 10 then do
        let dataBuf ← handleSseLine (completeLine buf.lineBuf) buf.dataBuf
        readBytes rest { dataBuf := dataBuf }
      else readBytes rest { buf with lineBuf := buf.lineBuf ++ [b] }

/-- The end of the stream: a last line without an ending, and a last event without a blank
line after it. -/
def flushBuffers (buf : SseBuffers) : SseM Unit := do
  let dataBuf ←
    if buf.lineBuf = [] then pure buf.dataBuf
    else handleSseLine (lineText buf.lineBuf) buf.dataBuf
  if dataBuf = [] then pure () else SseM.dispatch (String.ofList dataBuf)

/-- The loop over the chunks.  After a failure nothing is flushed. -/
def readChunks : List (Except String ByteArray) → SseBuffers → SseM (Except String Unit)
  | [], buf => do
      flushBuffers buf
      pure (.ok ())
  | .error e :: _, _ => pure (.error e)
  | .ok bytes :: rest, buf => do
      let buf ← readBytes bytes.data.toList buf
      readChunks rest buf

/-! ### The listener -/

/-- What the GET carries. -/
structure HttpGet where
  url : String
  accept : String
  bearer : Option String
  sessionId : Option String

/-- A reply to the GET whose headers have arrived, and the chunks of its body. -/
structure StreamReply where
  status : Nat
  chunks : List (Except String ByteArray)

/-- What the listener awaits: the `session_id` lock, the network, the broker. -/
inductive ListenerCall where
  | readSession
  | get (g : HttpGet)
  | publish (v : Value)

/-- `publish` is answered with the number of queues that took the notification. -/
@[reducible] def ListenerCall.Reply : ListenerCall → Type
  | .readSession => Option String
  | .get _ => Except String StreamReply
  | .publish _ => Nat

abbrev ListenerM (α : Type) := Prog ListenerCall ListenerCall.Reply α

/-- `params`, made an object if it is none, with the alias as its `_leaf`. -/
def markParams (a : String) (params : Option Value) : Value :=
  let members :=
    match params with
    | some (.object m) => m
    | _ => []
  .object (Members.insert members "_leaf" (.string a))

/-- Write the alias into a notification.  What is not an object stays as it is. -/
def markLeaf (a : String) : Value → Value
  | .object m => .object (Members.insert m "params" (markParams a (Members.get? m "params")))
  | v => v

namespace LeafClient

variable (env : ClientEnv) (cl : LeafClient)

def dispatchEvent (payload : String) : ListenerM Unit :=
  match env.jsonFromSlice payload.toUTF8 with
  | none => pure ()
  | some value => do
      let _ ← Prog.perform (ListenerCall.publish (markLeaf cl.aliasName value))

/-- The GET that the listener sends. -/
def getOf (sessionId : Option String) : HttpGet where
  url := cl.url
  accept := "text/event-stream"
  bearer := cl.resolveAuthToken env
  sessionId := sessionId

/-- `run_notification_stream` once the headers of the reply are in. -/
def readReply (reply : StreamReply) : ListenerM (Except FederationError Unit) :=
  if isSuccess reply.status then do
    match ← (readChunks reply.chunks {}).interp (cl.dispatchEvent env) with
    | .ok _ => pure (.ok ())
    | .error e => pure (.error (.leafUnreachable cl.aliasName e))
  else
    pure (.error (.leafError cl.aliasName
      ("SSE GET returned HTTP " ++ env.statusText reply.status)))

def runNotificationStream : ListenerM (Except FederationError Unit) := do
  let sessionId ← Prog.perform ListenerCall.readSession
  match ← Prog.perform (ListenerCall.get (cl.getOf env sessionId)) with
  | .error e => pure (.error (.leafUnreachable cl.aliasName e))
  | .ok reply => cl.readReply env reply

/-- `listen_notifications`: the task it spawns. -/
def listenNotifications : Except FederationError (ListenerM (Except FederationError Unit)) :=
  if cl.transport = .streamableHttp then .ok (cl.runNotificationStream env)
  else .error (.leafError cl.aliasName "listen_notifications requires streamable-http transport")

end LeafClient

end McpFederation
