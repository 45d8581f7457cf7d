/-
What the server answers to its traffic, and what it remembers of it.

Whoever sends what, over HTTP or on standard input: `responses_conform` says that what is
dispatched is answered with a JSON-RPC response to that request, with its id, a result or an
error and never both, and an error code that the program has.  `limiter_bounded` says what the
rate limiter keeps over any run of requests: a bucket for each configured client that has
been let in, one for the admin and one for everybody else, so that strangers cannot make it
grow.
-/
import McpFederation.Lib.Runs
import McpFederation.Proofs.RateLimits
import McpFederation.Proofs.Stdio

namespace McpFederation

/-! ### Responses -/

/-- A response to the request. -/
structure JsonRpcResponse.Answers (r : JsonRpcResponse) (request : JsonRpcRequest) : Prop where
  version : r.jsonrpc = "2.0"
  id : r.id = request.id
  either : r.result.isSome = !r.error.isSome
  code : ∀ e, r.error = some e → e.code ∈ [-32601, -32602, -32000]

theorem successResponse_answers (request : JsonRpcRequest) (result : Value) :
    (successResponse request result).Answers request :=
  ⟨rfl, rfl, rfl, fun _ he => by cases he⟩

theorem errorResponse_answers (request : JsonRpcRequest) {code : Int} (message : String)
    (hcode : code ∈ [-32601, -32602, -32000]) :
    (errorResponse request code message).Answers request := by
  refine ⟨rfl, rfl, rfl, fun e he => ?_⟩
  cases he
  exact hcode

section

variable (env : ServerEnv) (state : FederationState) (request : JsonRpcRequest)

theorem routedAnswer_answers (routed : Routed) :
    (routedAnswer state request routed).response.Answers request := by
  unfold routedAnswer
  cases routed.result with
  | ok value => exact successResponse_answers request value
  | error e => exact errorResponse_answers request _ (by decide)

theorem handleToolsCall_answers (ctx : RequestContext) :
    (handleToolsCall env state request ctx).response.Answers request := by
  unfold handleToolsCall
  dsimp only
  split
  · split
    · exact routedAnswer_answers state request _
    · exact errorResponse_answers request _ (by decide)
  · exact routedAnswer_answers state request _

theorem handleLoggingSetLevel_answers (sid : Option String) :
    (handleLoggingSetLevel state request sid).response.Answers request := by
  unfold handleLoggingSetLevel
  split
  · exact errorResponse_answers request _ (by decide)
  · split
    · exact errorResponse_answers request _ (by decide)
    · exact successResponse_answers request _

/-- Every method is answered. -/
theorem dispatch_answers (sid : Option String) (ctx : RequestContext) :
    (dispatch env state request sid ctx).response.Answers request := by
  unfold dispatch
  split
  · exact successResponse_answers request _
  · exact successResponse_answers request _
  · exact successResponse_answers request _
  · exact handleToolsCall_answers env state request ctx
  · exact successResponse_answers request _
  · exact routedAnswer_answers state request _
  · exact successResponse_answers request _
  · exact routedAnswer_answers state request _
  · exact handleLoggingSetLevel_answers state request sid
  · exact errorResponse_answers request _ (by decide)
  · exact errorResponse_answers request _ (by decide)

end

theorem get?_responseValue_head (r : JsonRpcResponse) :
    (responseValue r).get? "jsonrpc" = some (.string r.jsonrpc) ∧
      (responseValue r).get? "id" = r.id := by
  obtain ⟨jsonrpc, id, result, error⟩ := r
  cases id <;> cases result <;> cases error <;>
    simp [responseValue, optionalMember, Value.obj, Value.get?, Members.get?]

/-- A POST is refused, or answered with a response to its request. -/
def HttpResponse.Replies (response : HttpResponse) (request : JsonRpcRequest) : Prop :=
  (response.status ∈ [401, 403, 404] ∧ response.sessionId = none) ∨
    ∃ r sse, response.body = .rpc r sse ∧ response.status ∈ [200, 429] ∧ r.Answers request

theorem handleAdmitted_replies (env : HttpEnv) (state : FederationState) (headers : HeaderMap)
    (ctx : RequestContext) (request : JsonRpcRequest) :
    (handleAdmitted env state headers ctx request).response.Replies request := by
  have hanswers : ∀ state : FederationState,
      (dispatch env.server state request (extractSessionId headers) ctx).response.Answers request :=
    fun state => dispatch_answers env.server state request _ ctx
  unfold handleAdmitted
  dsimp only
  split
  · split
    · exact Or.inr ⟨_, _, rfl, by simp, hanswers _⟩
    · exact Or.inr ⟨_, _, rfl, by simp, hanswers _⟩
  · exact Or.inr ⟨_, _, rfl, by simp [reply], errorResponse_answers request _ (by decide)⟩

theorem handleMcp_replies (env : HttpEnv) (state : FederationState) (headers : HeaderMap)
    (ctx : Option RequestContext) (request : JsonRpcRequest) :
    (handleMcp env state headers ctx request).response.Replies request := by
  unfold handleMcp
  split
  · dsimp only
    split
    · exact Or.inl ⟨by simp [reply], rfl⟩
    · exact handleAdmitted_replies env _ headers _ request
  · exact Or.inl ⟨by simp [reply], rfl⟩

/--
**Every request is answered as such.**  A POST to `/mcp` is refused or gets a response to its
request, a line of standard input gets one always, and what a client reads from the text of
such a response has the request's id, and either a result or an error.
-/
theorem responses_conform {host : Host} {cenv : ClientEnv} (hjson : host.json.Lawful cenv)
    (s : Hosted) (request : JsonRpcRequest) :
    (∀ headers, (host.handle ⟨.postMcp (some request), headers⟩ s).1.Replies request) ∧
      (∀ line, blank line = false → host.json.request line = .ok request →
        ∃ r : JsonRpcResponse, (host.stdioLine line s).1 = some (host.json.response r) ∧
          r.Answers request) ∧
      ∀ r : JsonRpcResponse, r.Answers request → (responseValue r).Exact →
        ∃ v, cenv.jsonFromSlice (host.json.response r).toUTF8 = some v ∧
          v.get? "jsonrpc" = some (.string "2.0") ∧ v.get? "id" = request.id ∧
          (v.get? "result").isSome = !(v.get? "error").isSome := by
  refine ⟨?_, ?_, ?_⟩
  · intro headers
    show (serve _ host.auth _ s.state ⟨.postMcp (some request), headers⟩).response.Replies request
    unfold serve
    split
    · exact Or.inl ⟨by simp [reply], rfl⟩
    · exact handleMcp_replies _ _ _ _ request
  · intro line hblank hline
    refine ⟨_, ?_, dispatch_answers (host.env s.exchanges).server s.state request none .anonymous⟩
    simp only [Host.stdioLine, hblank, Bool.false_eq_true, if_false, hline]
  · intro r hr hexact
    obtain ⟨hversion, hid⟩ := get?_responseValue_head r
    obtain ⟨herror, hresult⟩ := get?_responseValue r
    refine ⟨_, hjson.response r hexact, ?_, ?_, ?_⟩
    · rw [hversion, hr.version]
    · rw [hid, hr.id]
    · rw [herror, hresult, Option.isSome_map, hr.either]

/-- What `listResources` is read as. -/
def resourcesRequest : JsonRpcRequest := ⟨some (.ofNat 1), "resources/list", .obj []⟩

/-- It is posted without a session, and sent on a line. -/
theorem resources_answered :
    ((freeHost offline).handle ⟨.postMcp (some resourcesRequest), []⟩
        (restarted noLeaves [0] 0)).1.Replies resourcesRequest ∧
      ∃ r : JsonRpcResponse,
        ((freeHost offline).stdioLine (compactJson.value listResources)
          (restarted noLeaves [0] 0)).1 = some ((freeHost offline).json.response r) ∧
        r.Answers resourcesRequest := by
  have hjson : (freeHost offline).json.Lawful compactEnv := compactJson_lawful
  have hrequest : (freeHost offline).json.request (compactJson.value listResources)
      = .ok resourcesRequest := by
    rw [show (freeHost offline).json = compactJson from rfl]
    exact compactJson_lawful.request _ _ (exact_rpcRequest 1 "resources/list" exact_emptyObj)
      (requestOf_rpcRequest 1 "resources/list" (.obj []))
  have hconform := responses_conform hjson (restarted noLeaves [0] 0) resourcesRequest
  exact ⟨hconform.1 [], hconform.2.1 _ (not_blank (by decide) _) hrequest⟩

/-! ### The limiter -/

/-- Those that a bucket may be kept for. -/
def AuthState.labels (auth : AuthState) : List String :=
  ["anonymous", "admin"] ++ (List.range auth.clients.length).map fun k => "client-" ++ toString k

theorem label_of_resolve {auth : AuthState} {tok admin : String} {ctx : RequestContext}
    (h : resolve tok admin auth.clients = some ctx) : ctx.clientLabel ∈ auth.labels := by
  rcases resolve_label h with ⟨-, hlabel⟩ | ⟨k, client, hk, -, hlabel⟩
  · rw [hlabel]
    exact List.mem_append_left _ (by simp)
  · rw [hlabel]
    have hlt : k < auth.clients.length := (List.getElem?_eq_some_iff.mp hk).1
    exact List.mem_append_right _ (List.mem_map.mpr ⟨k, List.mem_range.mpr hlt, rfl⟩)

/-- Whoever is let in has one of these labels. -/
theorem label_of_next {auth : AuthState} {read : Except String String} {path : String}
    {headers : HeaderMap} {ctx : Option RequestContext}
    (h : authMiddleware auth read path headers = .next ctx) :
    (ctx.getD .anonymous).clientLabel ∈ auth.labels := by
  have hanonymous : RequestContext.anonymous.clientLabel ∈ auth.labels :=
    List.mem_append_left _ List.mem_cons_self
  unfold authMiddleware at h
  dsimp only at h
  split at h
  · split at h
    · cases h
      exact hanonymous
    · cases h
      exact hanonymous
  · split at h
    · cases h
      exact hanonymous
    · split at h
      · rename_i admin hadmin _ found hfound
        cases h
        obtain ⟨tok, -, hresolve⟩ := Option.bind_eq_some_iff.mp hfound
        exact label_of_resolve hresolve
      · cases h

/-- What a request does to the limiter: nothing, or a check for its own label. -/
def RateLimiter.Asked (l l' : RateLimiter) (label : String) : Prop :=
  l' = l ∨ ∃ now, l' = (l.check label now).2

theorem dispatch_rateLimiter (env : ServerEnv) (state : FederationState)
    (request : JsonRpcRequest) (sid : Option String) (ctx : RequestContext) :
    (dispatch env state request sid ctx).state.rateLimiter = state.rateLimiter := by
  rw [dispatch_state]
  rfl

theorem handleAdmitted_asked (env : HttpEnv) (state : FederationState) (headers : HeaderMap)
    (ctx : RequestContext) (request : JsonRpcRequest) :
    state.rateLimiter.Asked (handleAdmitted env state headers ctx request).state.rateLimiter
      ctx.clientLabel := by
  refine Or.inr ⟨env.now.instant, ?_⟩
  unfold handleAdmitted
  dsimp only
  split
  · split
    · exact dispatch_rateLimiter _ _ _ _ _
    · exact dispatch_rateLimiter _ _ _ _ _
  · rfl

theorem checkSession_rateLimiter {env : HttpEnv} {state state' : FederationState}
    {sid : Option String} (h : checkSession env state sid = some state') :
    state'.rateLimiter = state.rateLimiter := by
  unfold checkSession at h
  split at h
  · cases h
    rfl
  · dsimp only at h
    split at h
    · cases h
      rfl
    · cases h

theorem handleMcp_asked (env : HttpEnv) (state : FederationState) (headers : HeaderMap)
    (ctx : Option RequestContext) (request : JsonRpcRequest) :
    state.rateLimiter.Asked (handleMcp env state headers ctx request).state.rateLimiter
      (ctx.getD .anonymous).clientLabel := by
  unfold handleMcp
  split
  · dsimp only
    split
    · exact Or.inl rfl
    · rename_i state' hadmitted
      have hsame : state'.rateLimiter = state.rateLimiter := by
        split at hadmitted
        · cases hadmitted
          rfl
        · exact checkSession_rateLimiter hadmitted
      rw [← hsame]
      exact handleAdmitted_asked env state' headers _ request
  · exact Or.inl rfl

theorem Endpoint.handle_asked (env : HttpEnv) (state : FederationState) (headers : HeaderMap)
    (ctx : Option RequestContext) (e : Endpoint) :
    state.rateLimiter.Asked (e.handle env state headers ctx).state.rateLimiter
      (ctx.getD .anonymous).clientLabel := by
  cases e with
  | postMcp body =>
      cases body with
      | none => exact Or.inl rfl
      | some request => exact handleMcp_asked env state headers ctx request
  | getMcp =>
      show state.rateLimiter.Asked (McpFederation.getMcp env state headers).state.rateLimiter _
      unfold McpFederation.getMcp
      split
      · split
        · exact Or.inl rfl
        · split
          · exact Or.inl rfl
          · rename_i state' hsession
            exact Or.inl (checkSession_rateLimiter hsession)
      · exact Or.inl rfl
  | deleteMcp =>
      show state.rateLimiter.Asked (McpFederation.deleteMcp state headers).state.rateLimiter _
      unfold McpFederation.deleteMcp
      split
      · split
        · exact Or.inl rfl
        · dsimp only
          split
          · exact Or.inl rfl
          · exact Or.inl rfl
      · exact Or.inl rfl
  | registerServer body =>
      cases body with
      | none => exact Or.inl rfl
      | some req => exact Or.inl rfl
  | listServers => exact Or.inl rfl
  | getServer a =>
      unfold Endpoint.handle
      dsimp only
      split
      · exact Or.inl rfl
      · exact Or.inl rfl
  | deregisterServer a =>
      unfold Endpoint.handle
      dsimp only
      split
      · exact Or.inl rfl
      · exact Or.inl rfl

/-- A check adds its own key at most. -/
theorem RateLimiter.mem_keys_check {l : RateLimiter} {label key : String} {now : Nat}
    (h : key ∈ (l.check label now).2.buckets.keys) : key = label ∨ key ∈ l.buckets.keys := by
  unfold RateLimiter.check at h
  split at h
  · rw [AList.keys_insert] at h
    rcases List.mem_cons.mp h with h | h
    · exact Or.inl h
    · exact Or.inr (List.mem_of_mem_erase h)
  · exact Or.inr h

/-- **One request adds a bucket for somebody it has let in, or none.** -/
theorem mem_keys_receive (auth : AuthState) (state : FederationState) (x : Arrival)
    {key : String} (h : key ∈ (state.receive auth x).rateLimiter.buckets.keys) :
    key ∈ auth.labels ∨ key ∈ state.rateLimiter.buckets.keys := by
  unfold FederationState.receive serve at h
  split at h
  · exact Or.inr h
  · rename_i ctx hnext
    rcases Endpoint.handle_asked x.env state x.request.headers ctx x.request.endpoint with
      hsame | ⟨now, hasked⟩
    · rw [hsame] at h
      exact Or.inr h
    · rw [hasked] at h
      rcases RateLimiter.mem_keys_check h with rfl | h
      · exact Or.inl (label_of_next hnext)
      · exact Or.inr h

/--
**What the limiter remembers.**  After any requests from anybody, with a token file that may
change under way, there is a bucket for the configured clients, for the admin and for requests
without a token at most.
-/
theorem limiter_bounded (auth : AuthState) {state : FederationState}
    (hfresh : state.rateLimiter.buckets = ∅) (arrivals : List Arrival) :
    let keys := (Runs.run (FederationState.receive auth) state arrivals).rateLimiter.buckets.keys
    (∀ key ∈ keys, key ∈ auth.labels) ∧ keys.length ≤ auth.clients.length + 2 := by
  intro keys
  have hkeys : ∀ key ∈ keys, key ∈ auth.labels := by
    refine Runs.inv_run (I := fun s => ∀ key ∈ s.rateLimiter.buckets.keys, key ∈ auth.labels)
      (G := fun _ _ => True) ?_ arrivals state ?_ (Runs.along_of_forall fun _ _ _ => trivial)
    · intro s x hs _ key hkey
      exact (mem_keys_receive auth s x hkey).elim id (hs key)
    · intro key hkey
      rw [hfresh] at hkey
      cases hkey
  refine ⟨hkeys, ?_⟩
  have hnodup : keys.Nodup := AList.keys_nodup _
  have hlabels : auth.labels.length = auth.clients.length + 2 := by
    simp only [AuthState.labels, List.length_append, List.length_cons, List.length_nil,
      List.length_map, List.length_range]
    omega
  rw [← hlabels]
  exact (List.subperm_of_subset hnodup hkeys).length_le

/-- A server that limits, and has not been asked anything. -/
def limited : FederationState :=
  { wikiAndDocs with rateLimiter := RateLimiter.new { enabled := true } }

/-- A ping with the token of nobody. -/
def strangersRequest : Arrival :=
  { teamRequest (.postMcp (some ⟨none, "ping", .obj []⟩)) with
    request :=
      { endpoint := .postMcp (some ⟨none, "ping", .obj []⟩)
        headers := [("authorization", ⟨"Bearer x".toList.map fun c => UInt8.ofNat c.toNat⟩)] } }

/-- Strangers around the one client leave no trace. -/
theorem team_has_one_bucket :
    (Runs.run (FederationState.receive teamAuth) limited
        [strangersRequest, teamRequest (.postMcp (some ⟨none, "ping", .obj []⟩)),
          strangersRequest]).rateLimiter.buckets.keys = ["client-0"] ∧
      (Runs.run (FederationState.receive teamAuth) limited
        [strangersRequest, teamRequest (.postMcp (some ⟨none, "ping", .obj []⟩)),
          strangersRequest]).rateLimiter.buckets.keys.length ≤ 3 :=
  ⟨by decide +kernel, (limiter_bounded teamAuth rfl _).2⟩

end McpFederation
