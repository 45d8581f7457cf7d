/-
What one request to `/mcp` does to the server's state.

`dispatch` touches the leaves and the sessions, and of the sessions only the log level of
the one that the request came in; the lemmas here say so once for every method, and follow
a POST through `handle_mcp` with the rate limiter off: which of its answers it gets, and
which state it leaves.  What is proved about runs of requests builds on these.
-/
import McpFederation.Proofs.ClientInfo
import McpFederation.Proofs.Requests

namespace McpFederation

/-- The level that a request sets for its session, if it sets one. -/
def levelSet (request : JsonRpcRequest) : Option String :=
  if request.method = "logging/setLevel" then
    (request.params.strAt "level").filter (· ∈ validLogLevels)
  else none

/-- The sessions after a request with this session id was dispatched. -/
def SessionManager.afterDispatch (mgr : SessionManager) (request : JsonRpcRequest)
    (sid : Option String) : SessionManager :=
  match sid, levelSet request with
  | some id, some level => (mgr.setLogLevel id level).2
  | _, _ => mgr

section

variable (env : ServerEnv) (state : FederationState) (request : JsonRpcRequest)

theorem SessionManager.afterDispatch_of_ne (mgr : SessionManager) (sid : Option String)
    (h : request.method ≠ "logging/setLevel") : mgr.afterDispatch request sid = mgr := by
  unfold SessionManager.afterDispatch levelSet
  rw [if_neg h]
  cases sid <;> rfl

/-- The state after a request, with the leaves that it leaves. -/
def FederationState.after (sid : Option String) (leaves : Leaves) : FederationState :=
  { state with leaves := leaves, sessions := state.sessions.afterDispatch request sid }

theorem handleLoggingSetLevel_state (sid : Option String)
    (hmethod : request.method = "logging/setLevel") :
    (handleLoggingSetLevel state request sid).state
      = state.after request sid state.leaves := by
  unfold handleLoggingSetLevel FederationState.after SessionManager.afterDispatch levelSet
  rw [if_pos hmethod]
  cases hlevel : request.params.strAt "level" with
  | none => cases sid <;> rfl
  | some level =>
      by_cases hvalid : level ∈ validLogLevels
      · simp only [hvalid, not_true_eq_false, if_false, Option.filter_some, decide_true, if_true]
        cases sid <;> rfl
      · simp only [hvalid, not_false_eq_true, if_true, Option.filter_some, decide_false,
          Bool.false_eq_true, if_false]
        cases sid <;> rfl

/-- **What a request changes**: the leaves, and the log level of its own session. -/
theorem dispatch_state (sid : Option String) (ctx : RequestContext) :
    (dispatch env state request sid ctx).state
      = state.after request sid (dispatch env state request sid ctx).state.leaves := by
  by_cases hmethod : request.method = "logging/setLevel"
  · have hdispatch : dispatch env state request sid ctx
        = handleLoggingSetLevel state request sid := by
      simp only [dispatch, hmethod]
    rw [hdispatch, handleLoggingSetLevel_state state request sid hmethod]
    rfl
  · unfold FederationState.after
    rw [SessionManager.afterDispatch_of_ne request state.sessions sid hmethod]
    unfold dispatch
    split
    case h_4 =>
      unfold handleToolsCall
      simp only
      split
      · split <;> rfl
      · rfl
    case h_9 => contradiction
    all_goals rfl

theorem SessionManager.afterDispatch_key (mgr : SessionManager) (sid : Option String) :
    (mgr.afterDispatch request sid).key = mgr.key ∧
      (mgr.afterDispatch request sid).ttl = mgr.ttl := by
  unfold SessionManager.afterDispatch
  split
  · exact ⟨SessionManager.key_update _ _ _, SessionManager.ttl_update _ _ _⟩
  · exact ⟨rfl, rfl⟩

/-- No request changes the key or the TTL of the sessions. -/
theorem dispatch_key (sid : Option String) (ctx : RequestContext) :
    (dispatch env state request sid ctx).state.sessions.key = state.sessions.key ∧
      (dispatch env state request sid ctx).state.sessions.ttl = state.sessions.ttl := by
  rw [dispatch_state]
  exact state.sessions.afterDispatch_key request sid

end

/-! ### Through the endpoint -/

/-- A server that lets every origin in and limits nobody. -/
structure FederationState.Open (state : FederationState) : Prop where
  origins : state.allowedOrigins = []
  unlimited : state.rateLimiter.config.enabled = false

section

variable {env : HttpEnv} {state : FederationState} {headers : HeaderMap}
  {request : JsonRpcRequest} {ctx : RequestContext}

theorem FederationState.Open.originAllowed (h : state.Open) (headers : HeaderMap) :
    originAllowed state headers = true := by
  rw [McpFederation.originAllowed, if_pos h.origins]

theorem FederationState.Open.withSessions (h : state.Open) (mgr : SessionManager) :
    FederationState.Open { state with sessions := mgr } := ⟨h.origins, h.unlimited⟩

theorem FederationState.Open.after (h : state.Open) (request : JsonRpcRequest)
    (sid : Option String) (leaves : Leaves) : (state.after request sid leaves).Open :=
  ⟨h.origins, h.unlimited⟩

theorem FederationState.Open.dispatch (h : state.Open) (env : ServerEnv)
    (request : JsonRpcRequest) (sid : Option String) (ctx : RequestContext) :
    (McpFederation.dispatch env state request sid ctx).state.Open := by
  rw [dispatch_state]
  exact h.after request sid _

/-- A limiter that is off admits everything and changes nothing. -/
theorem FederationState.Open.check (h : state.Open) (key : String) (now : Nat) :
    state.rateLimiter.check key now = (true, state.rateLimiter) := by
  rw [RateLimiter.check, if_neg (by rw [h.unlimited]; exact Bool.false_ne_true)]

/-- An admitted request that is no `initialize` is answered with what it is dispatched to. -/
theorem handleAdmitted_of_ne (h : state.Open) (hmethod : request.method ≠ "initialize") :
    handleAdmitted env state headers ctx request
      = { response :=
            { status := 200
              body := .rpc (dispatch env.server state request (extractSessionId headers)
                ctx).response (acceptsSse headers) }
          forwarded :=
            (dispatch env.server state request (extractSessionId headers) ctx).forwarded
          state := (dispatch env.server state request (extractSessionId headers) ctx).state } := by
  have hne : ¬ (request.method = "initialize" ∧
      (dispatch env.server state request (extractSessionId headers) ctx).response.error = none) :=
    fun hc => hmethod hc.1
  unfold handleAdmitted
  rw [h.check]
  simp only [if_true, if_neg hne]

/-- An `initialize` is answered with a new session. -/
theorem handleMcp_handshake (h : state.Open) (hmethod : request.method = "initialize") :
    handleMcp env state headers (some ctx) request
      = { response :=
            { status := 200
              body := .rpc (handleInitialize request) (acceptsSse headers)
              sessionId :=
                some (state.sessions.createSession env.jwt env.now env.uuid none).1 }
          forwarded := []
          state :=
            { state with
              sessions := (state.sessions.createSession env.jwt env.now env.uuid none).2 } } := by
  unfold handleMcp
  rw [if_pos (h.originAllowed headers), if_pos hmethod]
  dsimp only
  unfold handleAdmitted
  rw [h.check]
  simp only [if_true, dispatch_initialize_eq _ _ _ _ hmethod, answer, hmethod, true_and]
  rw [if_pos (show (handleInitialize request).error = none from rfl)]
  simp only [extractClientInfo_handleInitialize]

/-- A request in no session, or in a valid one, is dispatched. -/
theorem handleMcp_admitted (h : state.Open) (hmethod : request.method ≠ "initialize")
    {state' : FederationState}
    (hsession : checkSession env state (extractSessionId headers) = some state') :
    handleMcp env state headers (some ctx) request
      = handleAdmitted env state' headers ctx request := by
  unfold handleMcp
  rw [if_pos (h.originAllowed headers), if_neg hmethod]
  simp only [hsession, Option.getD_some]

/-- A session that is gone is answered 404. -/
theorem handleMcp_gone (h : state.Open) (hmethod : request.method ≠ "initialize")
    (hsession : checkSession env state (extractSessionId headers) = none) :
    handleMcp env state headers (some ctx) request
      = reply state 404 (.text "session expired or unknown") := by
  unfold handleMcp
  rw [if_pos (h.originAllowed headers), if_neg hmethod]
  simp only [hsession]

end

end McpFederation
