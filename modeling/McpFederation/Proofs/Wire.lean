/-
What a client and a federation make of each other's messages.

Between the two there is text: the request becomes a JSON object and headers, the response
JSON or one server-sent event.  Values without fractions survive this, `Value.Exact`; so a
POST of a client that is let in meets `handle_mcp` with the very request that was meant,
`Host.Welcomes.answer_eq`, and the response is read back as it was written,
`JsonText.Lawful.decodeBody_eq`.
-/
import Mathlib.Data.String.Basic
import McpFederation.Model.Wire
import McpFederation.Proofs.Framing

namespace McpFederation

/-! ### Exact values -/

theorem Members.mem_keys_insert {m : List (String × Value)} {key k : String} {value : Value}
    (h : k ∈ (Members.insert m key value).map Prod.fst) : k = key ∨ k ∈ m.map Prod.fst := by
  induction m with
  | nil => simpa [Members.insert] using h
  | cons kv rest ih =>
      obtain ⟨k', v⟩ := kv
      unfold Members.insert at h
      split at h
      · simp_all
      · split at h
        · simpa using h
        · rw [List.map_cons, List.mem_cons] at h
          rcases h with h | h
          · exact Or.inr (by simp [h])
          · rcases ih h with h | h
            · exact Or.inl h
            · exact Or.inr (List.mem_cons_of_mem _ h)

/-- `insert` keeps the members in order. -/
theorem Members.sorted_insert {m : List (String × Value)} (h : (m.map Prod.fst).Pairwise (· < ·))
    (key : String) (value : Value) :
    ((Members.insert m key value).map Prod.fst).Pairwise (· < ·) := by
  induction m with
  | nil => simp [Members.insert]
  | cons kv rest ih =>
      obtain ⟨k, v⟩ := kv
      obtain ⟨hfirst, hrest⟩ := List.pairwise_cons.mp h
      unfold Members.insert
      split
      · rename_i hk
        subst hk
        exact h
      · rename_i hk
        split
        · rename_i hlt
          refine List.pairwise_cons.mpr ⟨fun k' hk' => ?_, h⟩
          rcases List.mem_cons.mp hk' with rfl | hk'
          · exact hlt
          · exact lt_trans hlt (hfirst k' hk')
        · rename_i hlt
          refine List.pairwise_cons.mpr ⟨fun k' hk' => ?_, ih hrest⟩
          rcases Members.mem_keys_insert hk' with rfl | hk'
          · exact lt_of_le_of_ne (not_lt.mp hlt) hk
          · exact hfirst k' hk'

theorem Members.mem_insert {m : List (String × Value)} {key : String} {value : Value}
    {member : String × Value} (h : member ∈ Members.insert m key value) :
    member.2 = value ∨ member ∈ m := by
  induction m with
  | nil => simp_all [Members.insert]
  | cons kv rest ih =>
      unfold Members.insert at h
      split at h
      · rcases List.mem_cons.mp h with rfl | h
        · exact Or.inl rfl
        · exact Or.inr (List.mem_cons_of_mem _ h)
      · split at h
        · rcases List.mem_cons.mp h with rfl | h
          · exact Or.inl rfl
          · exact Or.inr h
        · rcases List.mem_cons.mp h with rfl | h
          · exact Or.inr List.mem_cons_self
          · rcases ih h with h | h
            · exact Or.inl h
            · exact Or.inr (List.mem_cons_of_mem _ h)

namespace Value

/-- An object of exact members is exact. -/
theorem exact_obj {members : List (String × Value)} (h : ∀ member ∈ members, member.2.Exact) :
    (obj members).Exact := by
  have key : ∀ (l m : List (String × Value)), (m.map Prod.fst).Pairwise (· < ·) →
      (∀ member ∈ m, member.2.Exact) → (∀ member ∈ l, member.2.Exact) →
      (Value.object (l.foldl (fun m kv => Members.insert m kv.1 kv.2) m)).Exact := by
    intro l
    induction l with
    | nil => intro m hkeys hm _; exact .object hkeys hm
    | cons kv rest ih =>
        intro m hkeys hm hl
        refine ih _ (Members.sorted_insert hkeys _ _) (fun member hmem => ?_)
          fun member hmem => hl member (List.mem_cons_of_mem _ hmem)
        rcases Members.mem_insert hmem with heq | hmem
        · rw [heq]
          exact hl kv List.mem_cons_self
        · exact hm member hmem
  exact key members [] List.Pairwise.nil (fun member hmem => by cases hmem) h

theorem exact_setKey {v member : Value} (hv : v.Exact) (hmember : member.Exact) (key : String) :
    (v.setKey key member).Exact := by
  cases hv with
  | object hkeys hall =>
      refine .object (Members.sorted_insert hkeys _ _) fun member' hmem => ?_
      rcases Members.mem_insert hmem with heq | hmem
      · rw [heq]
        exact hmember
      · exact hall member' hmem
  | null =>
      refine .object (List.pairwise_singleton _ _) fun member' hmem => ?_
      obtain rfl := List.mem_singleton.mp hmem
      exact hmember
  | bool b => exact .bool b
  | posInt n => exact .posInt n
  | negInt h => exact .negInt h
  | string s => exact .string s
  | array h => exact .array h

end Value

/-- A code that fits an `i32`. -/
def JsonRpcError.InRange (e : JsonRpcError) : Prop := -2 ^ 31 ≤ e.code ∧ e.code < 2 ^ 31

theorem exact_errorValue {e : JsonRpcError} (h : e.InRange) : (errorValue e).Exact := by
  refine Value.exact_obj fun member hmem => ?_
  simp only [List.mem_cons, List.not_mem_nil, or_false] at hmem
  rcases hmem with rfl | rfl
  · show (codeValue e.code).Exact
    unfold codeValue
    split
    · rename_i hneg
      refine .negInt (Int64.lt_iff_toInt_lt.mpr ?_)
      have hlow : -2 ^ 63 ≤ e.code := le_trans (by decide) h.1
      have hhigh : e.code < 2 ^ 63 := lt_trans h.2 (by decide)
      rw [Int64.toInt_ofInt_of_le hlow hhigh]
      exact hneg
    · exact .posInt _
  · exact .string _

theorem exact_optionalMember {key : String} {value : Option Value}
    (h : ∀ v, value = some v → v.Exact) :
    ∀ member ∈ optionalMember key value, member.2.Exact := by
  intro member hmem
  cases value with
  | none => cases hmem
  | some v =>
      obtain rfl := List.mem_singleton.mp hmem
      exact h v rfl

/-- A response is exact if its id and its result are. -/
theorem exact_responseValue {r : JsonRpcResponse} (hid : ∀ v, r.id = some v → v.Exact)
    (hresult : ∀ v, r.result = some v → v.Exact) (herror : ∀ e, r.error = some e → e.InRange) :
    (responseValue r).Exact := by
  refine Value.exact_obj fun member hmem => ?_
  simp only [List.mem_append, List.mem_singleton] at hmem
  rcases hmem with ((rfl | hmem) | hmem) | hmem
  · exact .string _
  · exact exact_optionalMember hid member hmem
  · exact exact_optionalMember hresult member hmem
  · refine exact_optionalMember (fun v hv => ?_) member hmem
    obtain ⟨e, he, rfl⟩ := Option.map_eq_some_iff.mp hv
    exact exact_errorValue (herror e he)

/-! ### The members of a response -/

theorem get?_responseValue (r : JsonRpcResponse) :
    (responseValue r).get? "error" = r.error.map errorValue ∧
      (responseValue r).get? "result" = r.result := by
  obtain ⟨jsonrpc, id, result, error⟩ := r
  cases id <;> cases result <;> cases error <;>
    simp [responseValue, optionalMember, Value.obj, Value.get?, Members.get?]

/-! ### The wire -/

theorem splitOn_of_not_mem {c : Char} {s : List Char} (h : c ∉ s) : Text.splitOn c s = [s] := by
  induction s with
  | nil => rfl
  | cons d rest ih =>
      obtain ⟨hd, hrest⟩ := not_or.mp (mt List.mem_cons.mpr h)
      rw [Text.splitOn, if_neg (Ne.symm hd), ih hrest]

/-- A text without line breaks is one event. -/
theorem sseEvent_encodes {text : String} (hne : text.toList ≠ []) (hplain : Text.Plain text.toList) :
    ∃ e : SseEvent, e.text = text ∧ Encodes [e] (sseEvent text) := by
  let e : SseEvent := ⟨text.toList, [], hne, by simpa using hplain⟩
  have htext : e.text = text := by
    show String.ofList (joinLines [text.toList]) = text
    simp [joinLines]
  have hblock : Block e.payloads [dataLine text.toList] := Block.data Block.nil
  refine ⟨e, htext, [dataLine text.toList, []], ?_, ?_⟩
  · exact Renders.event hblock Renders.nil
  · have hline : (sseEvent text).toList = dataLine text.toList ++ '\n' :: ([] ++ '\n' :: []) := by
      simp [sseEvent, splitOn_of_not_mem hplain.2, dataLine]
    rw [hline]
    exact Text.Spells.lf (Text.Spells.lf Text.Spells.nil)

variable {json : JsonText} {cenv : ClientEnv}

/-- **A response on the wire** is read back, as JSON or as an event. -/
theorem JsonText.Lawful.decodeBody_eq (h : json.Lawful cenv) {r : JsonRpcResponse}
    (hexact : (responseValue r).Exact) (sse : Bool) :
    LeafClient.decodeBody cenv ((HttpBody.rpc r sse).encoded json).1
      ((HttpBody.rpc r sse).encoded json).2.toUTF8 = responseValue r := by
  cases sse with
  | false =>
      have hplain : Text.startsWith "text/event-stream" "application/json" = false := by decide
      simp only [HttpBody.encoded, LeafClient.decodeBody, hplain, Bool.false_eq_true, if_false]
      rw [h.response r hexact]
      rfl
  | true =>
      obtain ⟨e, htext, hencodes⟩ := sseEvent_encodes (h.response_text r).1 (h.response_text r).2
      have hstream : Text.startsWith "text/event-stream" "text/event-stream" = true := by decide
      have hback : String.fromUTF8? (sseEvent (json.response r)).toUTF8
          = some (sseEvent (json.response r)) := by
        have hbytes : (Utf8.encode (sseEvent (json.response r)).toList).toByteArray
            = (sseEvent (json.response r)).toUTF8 := by
          rw [String.toUTF8_eq_toByteArray, ← String.utf8Encode_toList]
          rfl
        rw [← hbytes, Utf8.fromUTF8_encode, String.ofList_toList]
      simp only [HttpBody.encoded, LeafClient.decodeBody, hstream, if_true]
      rw [hback, Option.getD_some, parseSseBody_eq, handed_of_encodes hencodes, htext,
        Option.bind_some, h.response r hexact]
      rfl

/-! ### A POST -/

/-- The client is let in with this context, and what it sends is understood. -/
structure Host.Welcomes (host : Host) (cenv : ClientEnv) (cl : LeafClient)
    (ctx : RequestContext) : Prop where
  json : host.json.Lawful cenv
  token : ∀ t, cl.resolveAuthToken cenv = some t →
    (HeaderValue.fromStr ("Bearer " ++ t)).isSome = true
  context : ∀ n, host.contextOf n (cl.resolveAuthToken cenv) = some ctx

/-- A session id that can be sent. -/
def Sendable (sid : Option String) : Prop :=
  ∀ id, sid = some id → (HeaderValue.fromStr id).isSome = true

theorem HeaderValue.fromShared_of_fromStr {s : String} {v : HeaderValue}
    (h : HeaderValue.fromStr s = some v) : HeaderValue.fromShared s = some v := by
  unfold HeaderValue.fromStr at h
  unfold HeaderValue.fromShared
  dsimp only at h ⊢
  split at h
  · rename_i hall
    rw [if_pos, h]
    refine List.all_eq_true.mpr fun b hb => ?_
    have hvisible := List.all_eq_true.mp hall b hb
    simp only [Bool.or_eq_true, Bool.and_eq_true, decide_eq_true_eq] at hvisible ⊢
    omega
  · cases h

section

variable {host : Host} {cl : LeafClient} {ctx : RequestContext}

/-- The headers of a POST are read back for what they were. -/
theorem Host.Welcomes.headers (h : host.Welcomes cenv cl ctx) (body : Value)
    {sid : Option String} (hsid : Sendable sid) :
    ∃ headers, (cl.postOf cenv body sid).headers = some headers ∧
      presentedToken headers = cl.resolveAuthToken cenv ∧
      extractSessionId headers = sid ∧
      acceptsSse headers = decide (cl.transport = .streamableHttp) := by
  obtain ⟨auth, hauth, htoken⟩ : ∃ auth : Option HeaderValue,
      optionalHeader "authorization" HeaderValue.fromShared
          ((cl.resolveAuthToken cenv).map ("Bearer " ++ ·))
        = some (auth.toList.map (Prod.mk "authorization")) ∧
      (auth.bind HeaderValue.toStr).bind (Text.stripPrefix "Bearer ")
        = cl.resolveAuthToken cenv := by
    cases htok : cl.resolveAuthToken cenv with
    | none => exact ⟨none, rfl, rfl⟩
    | some t =>
        obtain ⟨v, hv⟩ := Option.isSome_iff_exists.mp (h.token t htok)
        refine ⟨some v, ?_, ?_⟩
        · simp [optionalHeader, HeaderValue.fromShared_of_fromStr hv]
        · rw [Option.bind_some, HeaderValue.toStr_fromStr hv, Option.bind_some]
          exact Text.stripPrefix_eq_some.mpr rfl
  obtain ⟨session, hsession, hread⟩ : ∃ session : Option HeaderValue,
      optionalHeader "mcp-session-id" HeaderValue.fromStr sid
        = some (session.toList.map (Prod.mk "mcp-session-id")) ∧
      session.bind HeaderValue.toStr = sid := by
    cases sid with
    | none => exact ⟨none, rfl, rfl⟩
    | some id =>
        obtain ⟨v, hv⟩ := Option.isSome_iff_exists.mp (hsid id rfl)
        refine ⟨some v, ?_, HeaderValue.toStr_fromStr hv⟩
        simp [optionalHeader, hv]
  obtain ⟨accept, haccept⟩ : ∃ accept,
      HeaderValue.fromStr ((cl.postOf cenv body sid).accept.getD "*/*") = some accept := by
    rw [← Option.isSome_iff_exists, LeafClient.postOf]
    dsimp only
    split <;> decide
  refine ⟨auth.toList.map (Prod.mk "authorization") ++ [("accept", accept)]
    ++ session.toList.map (Prod.mk "mcp-session-id"), ?_, ?_, ?_, ?_⟩
  · unfold HttpPost.headers
    rw [show (cl.postOf cenv body sid).bearer = cl.resolveAuthToken cenv from rfl, hauth,
      show (cl.postOf cenv body sid).sessionId = sid from rfl, hsession]
    simp [optionalHeader, haccept]
  · unfold presentedToken HeaderMap.getStr
    cases auth <;> cases session <;> simpa using htoken
  · unfold extractSessionId HeaderMap.getStr
    cases auth <;> cases session <;> simpa using hread
  · have hget : HeaderMap.getStr (auth.toList.map (Prod.mk "authorization")
        ++ [("accept", accept)] ++ session.toList.map (Prod.mk "mcp-session-id")) "accept"
        = some ((cl.postOf cenv body sid).accept.getD "*/*") := by
      rw [← HeaderValue.toStr_fromStr haccept]
      unfold HeaderMap.getStr
      cases auth <;> cases session <;> simp
    unfold acceptsSse
    rw [hget]
    by_cases hcl : cl.transport = .streamableHttp
    · simp only [LeafClient.postOf, hcl, if_true, Option.getD_some]
      decide
    · simp only [LeafClient.postOf, hcl, if_false, Option.getD_none]
      decide

/-- The middleware lets the client in. -/
theorem Host.Welcomes.authMiddleware_eq (h : host.Welcomes cenv cl ctx) (n : Nat)
    {headers : HeaderMap} (htoken : presentedToken headers = cl.resolveAuthToken cenv) :
    authMiddleware host.auth (host.tokenFile n) "/mcp" headers = .next (some ctx) := by
  have hskip : skipsAuth "/mcp" = false := by decide
  have hctx := h.context n
  unfold Host.contextOf at hctx
  unfold authMiddleware
  rw [htoken]
  cases hresolve : host.auth.resolveToken (host.tokenFile n) with
  | none =>
      rw [hresolve] at hctx
      simp only [hskip, Bool.false_eq_true, if_false]
      exact congrArg AuthOutcome.next hctx
  | some admin =>
      rw [hresolve] at hctx
      dsimp only at hctx
      simp only [hskip, Bool.false_eq_true, if_false]
      rw [hctx]

/-- **What a POST meets**: the handler, with the client's context and the request that it
sent. -/
theorem Host.Welcomes.answer_eq (h : host.Welcomes cenv cl ctx) {body : Value}
    {request : JsonRpcRequest} (hexact : body.Exact) (hrequest : requestOf body = some request)
    {sid : Option String} (hsid : Sendable sid) (s : Hosted) :
    ∃ headers, extractSessionId headers = sid ∧
      acceptsSse headers = decide (cl.transport = .streamableHttp) ∧
      host.answer (cl.postOf cenv body sid) s
        = (.ok ((handleMcp (host.env s.exchanges) s.state headers (some ctx)
              request).response.onWire host.json),
            { state :=
                (handleMcp (host.env s.exchanges) s.state headers (some ctx) request).state
              exchanges := s.exchanges + 1
              forwarded := s.forwarded
                ++ (handleMcp (host.env s.exchanges) s.state headers (some ctx)
                  request).forwarded }) := by
  obtain ⟨headers, hheaders, htoken, hid, hsse⟩ := h.headers body hsid
  refine ⟨headers, hid, hsse, ?_⟩
  have hserve : serve (host.env s.exchanges) host.auth (host.tokenFile s.exchanges) s.state
      ⟨.postMcp (some request), headers⟩
      = handleMcp (host.env s.exchanges) s.state headers (some ctx) request := by
    have hpath : (HttpRequest.mk (.postMcp (some request)) headers).endpoint.path = "/mcp" := rfl
    unfold serve
    rw [hpath, h.authMiddleware_eq s.exchanges htoken]
    rfl
  have hparsed : (host.json.request (host.json.value body)).toOption = some request := by
    rw [h.json.request body request hexact hrequest]
    rfl
  unfold Host.answer
  rw [hheaders]
  simp only [Host.handle]
  rw [show (cl.postOf cenv body sid).body = body from rfl, hparsed, hserve]

end

/-! ### What is sent -/

theorem requestOf_rpcRequest (id : UInt64) (method : String) (params : Value) :
    requestOf (LeafClient.rpcRequest id method params)
      = some ⟨some (.number (.posInt id)), method, params⟩ := by
  simp [requestOf, LeafClient.rpcRequest, Value.obj, Value.strAt, Value.get?, Value.asStr]

theorem requestOf_initializedNotification :
    requestOf LeafClient.initializedNotification
      = some ⟨none, "notifications/initialized", .obj []⟩ := by
  simp [requestOf, LeafClient.initializedNotification, Value.obj, Value.strAt, Value.get?,
    Members.get?, Value.asStr]

theorem exact_rpcRequest (id : UInt64) (method : String) {params : Value} (h : params.Exact) :
    (LeafClient.rpcRequest id method params).Exact := by
  refine Value.exact_obj fun member hmem => ?_
  simp only [List.mem_cons, List.not_mem_nil, or_false] at hmem
  rcases hmem with rfl | rfl | rfl | rfl
  · exact .string _
  · exact .posInt _
  · exact .string _
  · exact h

theorem exact_emptyObj : (Value.obj []).Exact :=
  Value.exact_obj fun member hmem => by cases hmem

theorem exact_initializeParams : LeafClient.initializeParams.Exact := by
  refine Value.exact_obj fun member hmem => ?_
  simp only [List.mem_cons, List.not_mem_nil, or_false] at hmem
  rcases hmem with rfl | rfl | rfl
  · exact .string _
  · exact exact_emptyObj
  · refine Value.exact_obj fun member hmem => ?_
    simp only [List.mem_cons, List.not_mem_nil, or_false] at hmem
    rcases hmem with rfl | rfl <;> exact .string _

theorem exact_initializedNotification : LeafClient.initializedNotification.Exact := by
  refine Value.exact_obj fun member hmem => ?_
  simp only [List.mem_cons, List.not_mem_nil, or_false] at hmem
  rcases hmem with rfl | rfl | rfl
  · exact .string _
  · exact .string _
  · exact exact_emptyObj

/-- The answer to a handshake is exact. -/
theorem exact_handleInitialize {request : JsonRpcRequest}
    (hid : ∀ v, request.id = some v → v.Exact) :
    (responseValue (handleInitialize request)).Exact := by
  refine exact_responseValue hid (fun v hv => ?_) fun e he => by cases he
  cases hv
  refine Value.exact_obj fun member hmem => ?_
  simp only [List.mem_cons, List.not_mem_nil, or_false] at hmem
  rcases hmem with rfl | rfl | rfl
  · exact .string _
  · refine Value.exact_obj fun member hmem => ?_
    simp only [List.mem_cons, List.not_mem_nil, or_false] at hmem
    rcases hmem with rfl | rfl | rfl | rfl | rfl <;> exact exact_emptyObj
  · refine Value.exact_obj fun member hmem => ?_
    simp only [List.mem_cons, List.not_mem_nil, or_false] at hmem
    rcases hmem with rfl | rfl <;> exact .string _

end McpFederation
