/-
Between two processes: requests and answers as texts and headers.

A federation may be a leaf of another one.  What its clients see of it is here: the
headers that `reqwest` makes of a POST, the request that the `Json` extractor of
`handle_mcp` reads from its body, and the headers and bytes that an answer of the handler
becomes, as JSON or as one server-sent event.  `serde_json` itself is a parameter,
`JsonText`; which members a request is read from and a response is written with is written
out in `requestOf` and `responseValue`, after the `serde` attributes of `mcp/protocol.rs`.

`Host` is a federation together with everything its answers depend on from outside, which
may be different at each exchange.
-/
import McpFederation.Lib.Utf8
import McpFederation.Model.Http

namespace McpFederation

/-! ### JSON -/

/-- `serde_json`: the texts that values and responses are written as, and the request that a
text is read as. -/
structure JsonText where
  value : Value → String
  response : JsonRpcResponse → String
  /-- Every other answer with a JSON body. -/
  other : HttpBody → String
  request : String → Except String JsonRpcRequest

/-- A `JsonRpcRequest` as it is read from an object.  `jsonrpc` has to be there and is not
kept, an `id` of `null` counts as none, and `params` may be missing. -/
def requestOf (v : Value) : Option JsonRpcRequest :=
  match v.strAt "jsonrpc", v.strAt "method" with
  | some _, some method =>
      some
        { id :=
            match v.get? "id" with
            | some .null => none
            | id => id
          method := method
          params := (v.get? "params").getD .null }
  | _, _ => none

/-- An optional member: `skip_serializing_if = "Option::is_none"`. -/
def optionalMember (key : String) (member : Option Value) : List (String × Value) :=
  match member with
  | some v => [(key, v)]
  | none => []

/-- An `i32` as a JSON number. -/
def codeValue (code : Int) : Value :=
  if code < 0 then .number (.negInt (Int64.ofInt code)) else .ofNat code.toNat

def errorValue (e : JsonRpcError) : Value :=
  .obj [("code", codeValue e.code), ("message", .string e.message)]

/-- A `JsonRpcResponse` as a value. -/
def responseValue (r : JsonRpcResponse) : Value :=
  .obj ([("jsonrpc", .string r.jsonrpc)] ++ optionalMember "id" r.id
    ++ optionalMember "result" r.result ++ optionalMember "error" (r.error.map errorValue))

/-- A value that is written and read back without loss: its numbers are integers, and an
object's members are in the order of their keys, as `Map` has them. -/
inductive Value.Exact : Value → Prop
  | null : Exact .null
  | bool (b : Bool) : Exact (.bool b)
  | posInt (n : UInt64) : Exact (.number (.posInt n))
  | negInt {n : Int64} (h : n < 0) : Exact (.number (.negInt n))
  | string (s : String) : Exact (.string s)
  | array {items : List Value} (h : ∀ v ∈ items, Exact v) : Exact (.array items)
  | object {members : List (String × Value)} (hkeys : (members.map Prod.fst).Pairwise (· < ·))
      (h : ∀ member ∈ members, Exact member.2) : Exact (.object members)

/-- What the program relies on: exact values are read back, a request from the members of the
object that was written; and no text is empty or has a line break in it, which would be
escaped. -/
structure JsonText.Lawful (json : JsonText) (env : ClientEnv) : Prop where
  request : ∀ v r, v.Exact → requestOf v = some r → json.request (json.value v) = .ok r
  response : ∀ r, (responseValue r).Exact →
    env.jsonFromSlice (json.response r).toUTF8 = some (responseValue r)
  value : ∀ v, v.Exact → env.jsonFromSlice (json.value v).toUTF8 = some v
  response_text : ∀ r, (json.response r).toList ≠ [] ∧ Text.Plain (json.response r).toList
  value_text : ∀ v, (json.value v).toList ≠ [] ∧ Text.Plain (json.value v).toList

/-! ### Headers -/

/-- `HeaderValue::from_str`: visible ASCII only. -/
def HeaderValue.fromStr (s : String) : Option HeaderValue :=
  let bytes := s.toUTF8.data.toList
  if bytes.all fun b => (32 ≤ b.toNat && b.toNat < 127) || b.toNat = 9 then some ⟨bytes⟩ else none

/-- `HeaderValue::try_from` of a `String`, which lets bytes from 128 on through. -/
def HeaderValue.fromShared (s : String) : Option HeaderValue :=
  let bytes := s.toUTF8.data.toList
  if bytes.all fun b => (32 ≤ b.toNat && b.toNat ≠ 127) || b.toNat = 9 then some ⟨bytes⟩ else none

/-- A header that is there only if it has a value; one that is not valid fails the request. -/
def optionalHeader (name : String) (make : String → Option HeaderValue) :
    Option String → Option HeaderMap
  | none => some []
  | some s => (make s).map fun v => [(name, v)]

/-- The headers of a POST, in the order they are set. -/
def HttpPost.headers (p : HttpPost) : Option HeaderMap := do
  let authorization ← optionalHeader "authorization" HeaderValue.fromShared
    (p.bearer.map ("Bearer " ++ ·))
  let accept ← optionalHeader "accept" HeaderValue.fromStr (some (p.accept.getD "*/*"))
  let session ← optionalHeader "mcp-session-id" HeaderValue.fromStr p.sessionId
  pure (authorization ++ accept ++ session)

/-! ### Answers -/

/-- `Event::default().data(..)` on the wire: one `data:` line for each line of the text, and a
blank line.  A text with a CR in it would panic. -/
def sseEvent (data : String) : String :=
  String.ofList
    ((Text.splitOn '\n' data.toList).flatMap fun line =>
      ['d', 'a', 't', 'a', ':', ' '] ++ line ++ ['\n']) ++ "\n"

/-- The content type and the text of an answer's body. -/
def HttpBody.encoded (json : JsonText) : HttpBody → String × String
  | .empty => ("", "")
  | .text s => ("text/plain; charset=utf-8", s)
  | .rpc response sse =>
      if sse then ("text/event-stream", sseEvent (json.response response))
      else ("application/json", json.response response)
  | .stream => ("text/event-stream", "")
  | body => ("application/json", json.other body)

/-- An answer as the client receives it.  A session id that is no header value is left out. -/
def HttpResponse.onWire (json : JsonText) (r : HttpResponse) : HttpReply where
  status := r.status
  sessionId := (r.sessionId.bind HeaderValue.fromStr).bind HeaderValue.toStr
  contentType := (r.body.encoded json).1
  body := .ok (r.body.encoded json).2.toUTF8

/-! ### A federation as a leaf -/

/-- What a federation's answers depend on besides its state: the tokens it is configured with,
and what there is outside at its n-th exchange. -/
structure Host where
  json : JsonText
  auth : AuthState
  env : Nat → HttpEnv
  tokenFile : Nat → Except String String

/-- A federation that has answered a number of requests, and what it has forwarded for them. -/
structure Hosted where
  state : FederationState
  exchanges : Nat := 0
  forwarded : List (LeafEntry × Forward) := []

namespace Host

variable (host : Host)

/-- A request to the federation, and its answer. -/
def handle (req : HttpRequest) (s : Hosted) : HttpResponse × Hosted :=
  let handled := serve (host.env s.exchanges) host.auth (host.tokenFile s.exchanges) s.state req
  (handled.response,
    { state := handled.state
      exchanges := s.exchanges + 1
      forwarded := s.forwarded ++ handled.forwarded })

/-- A POST of a leaf client to the federation.  One with an invalid header is never sent. -/
def answer (p : HttpPost) (s : Hosted) : Except String HttpReply × Hosted :=
  match p.headers with
  | none => (.error "builder error", s)
  | some headers =>
      let body := (host.json.request (host.json.value p.body)).toOption
      let (response, s) := host.handle ⟨.postMcp body, headers⟩ s
      (.ok (response.onWire host.json), s)

/-- The context in which a request with this bearer token is handled, if it is let in. -/
def contextOf (n : Nat) (token : Option String) : Option RequestContext :=
  match host.auth.resolveToken (host.tokenFile n) with
  | none => some .anonymous
  | some admin => token.bind fun tok => resolve tok admin host.auth.clients

end Host

/-! ### Headers that arrive -/

/-- A header value made from a text is read back as that text. -/
theorem HeaderValue.toStr_fromStr {s : String} {v : HeaderValue}
    (h : HeaderValue.fromStr s = some v) : v.toStr = some s := by
  unfold HeaderValue.fromStr at h
  rw [Utf8.toUTF8_eq] at h
  dsimp only at h
  split at h
  · rename_i hall
    cases h
    rw [HeaderValue.toStr, if_pos hall]
    have hascii : ∀ c ∈ s.toList, c.toNat < 128 := by
      refine Utf8.ascii_of_encode fun b hb => ?_
      have hvisible := List.all_eq_true.mp hall b hb
      simp only [Bool.or_eq_true, Bool.and_eq_true, decide_eq_true_eq] at hvisible
      omega
    rw [Utf8.map_ofNat_encode hascii, String.ofList_toList]
  · cases h

end McpFederation
