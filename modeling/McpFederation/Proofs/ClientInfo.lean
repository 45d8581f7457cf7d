/-
Who a session belongs to.

A client says who it is in the `clientInfo` of its `initialize` request, and the manager has
a place for it, in the session and in the claims of the token.  On the way there it is lost:
`handle_mcp` takes it from the response of the handler, and the response of `initialize` has
no such member.  So every session is stored, and every token signed, without it, whatever
the client said: `clientInfo_not_recorded`.
-/
import McpFederation.Proofs.Endpoints

namespace McpFederation

/-- The client's own description is in the session and in the claims of its id, and every
other session is what it was. -/
structure Recorded (env : HttpEnv) (before after : SessionManager) (id : String) (v : Value) :
    Prop where
  stored : ∃ s, after.sessions.lookup id = some s ∧ s.clientInfo = some v
  claimed : ∃ claims, after.decodeClaims env.jwt env.now id = some claims ∧
    claims.clientInfo = some v
  others : ∀ other, other ≠ id → after.sessions.lookup other = before.sessions.lookup other

theorem not_recorded_of_none {env : HttpEnv} {before after : SessionManager} {id : String}
    {s : SessionState} (hs : after.sessions.lookup id = some s) (hnone : s.clientInfo = none)
    (v : Value) : ¬ Recorded env before after id v := by
  intro h
  obtain ⟨s', hs', hv⟩ := h.stored
  rw [hs, Option.some.injEq] at hs'
  rw [← hs', hnone] at hv
  cases hv

/-- There is no client in the answer to `initialize`. -/
theorem extractClientInfo_handleInitialize (request : JsonRpcRequest) :
    extractClientInfo (handleInitialize request) = none := rfl

section

variable {env : HttpEnv} {state : FederationState} {headers : HeaderMap}
  {request : JsonRpcRequest}

theorem dispatch_initialize_eq (env : ServerEnv) (state : FederationState) (sid : Option String)
    (ctx : RequestContext) (h : request.method = "initialize") :
    dispatch env state request sid ctx = answer state (handleInitialize request) := by
  simp only [dispatch, h]

/-- An `initialize` that is given a session: it is a new one, without a client. -/
theorem handleAdmitted_sessions (ctx : RequestContext) (hmethod : request.method = "initialize")
    {id : String}
    (hid : (handleAdmitted env state headers ctx request).response.sessionId = some id) :
    (id, (handleAdmitted env state headers ctx request).state.sessions)
      = state.sessions.createSession env.jwt env.now env.uuid none := by
  unfold handleAdmitted at hid ⊢
  simp only [dispatch_initialize_eq _ _ _ _ hmethod, hmethod] at hid ⊢
  by_cases hallowed : (state.rateLimiter.check ctx.clientLabel env.now.instant).1 = true
  · rw [if_pos hallowed] at hid ⊢
    rw [← extractClientInfo_handleInitialize request]
    exact congrArg (·, _) (Option.some.inj hid).symm
  · rw [if_neg hallowed] at hid
    cases hid

theorem handleMcp_sessions (ctx : Option RequestContext) (hmethod : request.method = "initialize")
    {id : String} (hid : (handleMcp env state headers ctx request).response.sessionId = some id) :
    (id, (handleMcp env state headers ctx request).state.sessions)
      = state.sessions.createSession env.jwt env.now env.uuid none := by
  unfold handleMcp at hid ⊢
  by_cases horigin : originAllowed state headers = true
  · simp only [horigin, hmethod, if_true] at hid ⊢
    exact handleAdmitted_sessions _ hmethod hid
  · rw [if_neg horigin] at hid
    cases hid

end

/--
**No client is recorded.**  The session of every `initialize` request that is answered with a
session id is stored without a client, so whatever client the request named is not recorded.
-/
theorem clientInfo_not_recorded (env : HttpEnv) (state : FederationState) (headers : HeaderMap)
    (ctx : Option RequestContext) (request : JsonRpcRequest) (v : Value) (id : String)
    (hmethod : request.method = "initialize")
    (hid : (handleMcp env state headers ctx request).response.sessionId = some id) :
    (∃ s, (handleMcp env state headers ctx request).state.sessions.sessions.lookup id = some s ∧
        s.clientInfo = none) ∧
      ¬ Recorded env state.sessions (handleMcp env state headers ctx request).state.sessions
        id v := by
  obtain ⟨hnew, hsessions⟩ := Prod.mk.inj (handleMcp_sessions ctx hmethod hid)
  have hstored : (handleMcp env state headers ctx request).state.sessions.sessions.lookup id
      = some ⟨env.now.instant, env.now.instant, none, none⟩ := by
    rw [hsessions, hnew]
    exact AList.lookup_insert _
  exact ⟨⟨_, hstored, rfl⟩, not_recorded_of_none hstored rfl v⟩

/-! ### An inspector -/

/-- A client that names itself. -/
def inspector : Value := .obj [("name", .string "inspector"), ("version", .string "1.0")]

def inspectorRequest : JsonRpcRequest where
  id := some (.ofNat 1)
  method := "initialize"
  params := .obj [("clientInfo", inspector)]

/-- A server just started, with sessions of ten seconds. -/
def freshServer : FederationState :=
  { FederationState.ofLeaves ⟨Registry.empty, fun _ => {}⟩ with
    sessions := SessionManager.tenSeconds }

theorem inspector_not_recorded :
    ¬ Recorded (sessionEnv 0) freshServer.sessions
      (handleMcp (sessionEnv 0) freshServer [] none inspectorRequest).state.sessions "token"
      inspector :=
  (clientInfo_not_recorded (sessionEnv 0) freshServer [] none inspectorRequest inspector "token"
    rfl rfl).2

/-- It is given a session, in which there is no client, and neither is there in its token. -/
theorem inspector_lost :
    inspectorRequest.params.get? "clientInfo" = some inspector ∧
      SessionManager.oneToken.Faithful freshServer.sessions.key
        (freshServer.sessions.newClaims (Now.ofInstant 0 0) "u" none) ∧
      (handleMcp (sessionEnv 0) freshServer [] none inspectorRequest).response.sessionId
        = some "token" ∧
      (handleMcp (sessionEnv 0) freshServer [] none
        inspectorRequest).state.sessions.decodeClaims SessionManager.oneToken (Now.ofInstant 0 0)
          "token" = some ⟨"u", jwtIssuer, 0, 10, none⟩ ∧
      ¬ Recorded (sessionEnv 0) freshServer.sessions
        (handleMcp (sessionEnv 0) freshServer [] none inspectorRequest).state.sessions "token"
        inspector := by
  have hstored : (handleMcp (sessionEnv 0) freshServer [] none
      inspectorRequest).state.sessions.sessions.lookup "token" = some ⟨0, 0, none, none⟩ := rfl
  exact ⟨rfl, rfl, rfl, rfl, not_recorded_of_none hstored rfl inspector⟩

end McpFederation
