/-
Three endpoints and one session id.

A session id arrives at POST, GET and DELETE of `/mcp`.  The first two validate it: the
signature and the expiry of the token, and the idle time of the session.  DELETE asks only
whether the map has it.  A session that has been idle for too long is in the map until the
next prune, and one whose token has expired until it has been idle for too long; both are 404
for POST and GET, and 200 for DELETE.  `endpointsAgree_iff` says that the three agree on an
id exactly when no such session is stored under it.
-/
import McpFederation.Proofs.Sessions
import McpFederation.Model.Server

namespace McpFederation

/-- DELETE removes a session, and answers 200, exactly if GET and POST would take its id for
a live one. -/
structure EndpointsAgree (env : HttpEnv) (state : FederationState) (headers : HeaderMap)
    (id : String) : Prop where
  get : (deleteMcp state headers).response.status = 200 ↔
    (getMcp env state headers).response.status ≠ 404
  post : ∀ (ctx : Option RequestContext) (request : JsonRpcRequest),
    request.method ≠ "initialize" →
      ((deleteMcp state headers).response.status = 200 ↔
        (handleMcp env state headers ctx request).response.status ≠ 404)
  removes : (deleteMcp state headers).response.status = 200 →
    (deleteMcp state headers).state.sessions.sessions.lookup id = none

section

variable {env : HttpEnv} {state : FederationState} {headers : HeaderMap} {id : String}

/-! ### When each of them answers 404 -/

/-- DELETE removes the session, and answers whether there was one. -/
theorem deleteMcp_eq (horigin : originAllowed state headers = true)
    (hid : extractSessionId headers = some id) :
    (deleteMcp state headers).response.status
        = (if (state.sessions.terminateSession id).1 = true then 200 else 404) ∧
      (deleteMcp state headers).state.sessions = (state.sessions.terminateSession id).2 := by
  unfold deleteMcp
  simp only [horigin, if_true, hid]
  by_cases hstored : (state.sessions.terminateSession id).1 = true
  · rw [if_pos hstored, if_pos hstored]
    exact ⟨rfl, rfl⟩
  · rw [if_neg hstored, if_neg hstored]
    exact ⟨rfl, rfl⟩

theorem deleteMcp_status (horigin : originAllowed state headers = true)
    (hid : extractSessionId headers = some id) :
    (deleteMcp state headers).response.status = 200 ↔
      (state.sessions.sessions.lookup id).isSome = true := by
  rw [(deleteMcp_eq horigin hid).1]
  show _ ↔ (state.sessions.terminateSession id).1 = true
  split
  · next hstored => exact iff_of_true rfl hstored
  · next hstored => exact iff_of_false (by decide) hstored

/-- Whatever DELETE answers, the id is gone. -/
theorem lookup_deleteMcp (horigin : originAllowed state headers = true)
    (hid : extractSessionId headers = some id) :
    (deleteMcp state headers).state.sessions.sessions.lookup id = none := by
  rw [(deleteMcp_eq horigin hid).2]
  exact AList.lookup_erase _ _

theorem checkSession_of_invalid
    (h : ¬ state.sessions.validateSession env.jwt env.now id = true) :
    checkSession env state (some id) = none := by
  simp [checkSession, SessionManager.checkAndTouch, h]

theorem checkSession_of_valid (h : state.sessions.validateSession env.jwt env.now id = true) :
    checkSession env state (some id)
      = some { state with sessions := state.sessions.touchSession env.now id } := by
  simp [checkSession, SessionManager.checkAndTouch, h]

theorem getMcp_status (horigin : originAllowed state headers = true)
    (hid : extractSessionId headers = some id) :
    (getMcp env state headers).response.status ≠ 404 ↔
      state.sessions.validateSession env.jwt env.now id = true := by
  unfold getMcp
  simp only [horigin, if_true, hid]
  by_cases hvalid : state.sessions.validateSession env.jwt env.now id = true
  · simp [checkSession_of_valid hvalid, reply, hvalid]
  · simp [checkSession_of_invalid hvalid, reply, hvalid]

/-- From the rate limiter on, nothing is answered 404. -/
theorem handleAdmitted_status (env : HttpEnv) (state : FederationState) (headers : HeaderMap)
    (ctx : RequestContext) (request : JsonRpcRequest) :
    (handleAdmitted env state headers ctx request).response.status ≠ 404 := by
  unfold handleAdmitted
  dsimp only
  split
  · split <;> simp
  · simp [reply]

theorem handleMcp_status (horigin : originAllowed state headers = true)
    (hid : extractSessionId headers = some id) (ctx : Option RequestContext)
    {request : JsonRpcRequest} (hmethod : request.method ≠ "initialize") :
    (handleMcp env state headers ctx request).response.status ≠ 404 ↔
      state.sessions.validateSession env.jwt env.now id = true := by
  unfold handleMcp
  simp only [horigin, if_true, hmethod, if_false, hid]
  by_cases hvalid : state.sessions.validateSession env.jwt env.now id = true
  · rw [checkSession_of_valid hvalid]
    exact iff_of_true (handleAdmitted_status env _ headers _ request) hvalid
  · simp [checkSession_of_invalid hvalid, reply, hvalid]

end

/-- A session that is stored under the id is live: its token is good and it is not idle. -/
def StoredIsLive (env : HttpEnv) (mgr : SessionManager) (id : String) : Prop :=
  ∀ s, mgr.sessions.lookup id = some s →
    (mgr.decodeClaims env.jwt env.now id).isSome = true ∧ mgr.isActive env.now s = true

/-- What is stored and what is valid are the same exactly then. -/
theorem stored_iff_valid (env : HttpEnv) (mgr : SessionManager) (id : String) :
    ((mgr.sessions.lookup id).isSome = true ↔
        mgr.validateSession env.jwt env.now id = true) ↔ StoredIsLive env mgr id := by
  rw [mgr.validateSession_eq_true, ← Option.isSome_iff_exists]
  unfold StoredIsLive
  cases mgr.sessions.lookup id with
  | none => simp
  | some s => simp

/--
**When the three endpoints agree.**  For every state of the sessions, every instant and every
id that comes with an accepted origin: DELETE answers 200, and removes the session, exactly
if GET and POST would not answer 404, if and only if no session that has expired is stored
under the id.
-/
theorem endpointsAgree_iff (env : HttpEnv) (state : FederationState) (headers : HeaderMap)
    (id : String) (horigin : originAllowed state headers = true)
    (hid : extractSessionId headers = some id) :
    EndpointsAgree env state headers id ↔ StoredIsLive env state.sessions id := by
  rw [← stored_iff_valid]
  refine ⟨?_, ?_⟩
  · intro h
    exact (deleteMcp_status horigin hid).symm.trans
      (h.get.trans (getMcp_status horigin hid))
  · intro h
    have hdelete := (deleteMcp_status horigin hid).trans h
    exact ⟨hdelete.trans (getMcp_status horigin hid).symm,
      fun ctx request hmethod => hdelete.trans (handleMcp_status horigin hid ctx hmethod).symm,
      fun _ => lookup_deleteMcp horigin hid⟩

/-! ### A session of ten seconds -/

/-- A server with the one session, created at the start of the clock. -/
def sessionServer : FederationState :=
  { FederationState.ofLeaves ⟨Registry.empty, fun _ => {}⟩ with
    sessions :=
      (SessionManager.tenSeconds.createSession SessionManager.oneToken (Now.ofInstant 0 0) "u"
        none).2 }

/-- The environment at the given second. -/
def sessionEnv (seconds : Nat) : HttpEnv where
  server := offline
  jwt := SessionManager.oneToken
  now := Now.ofInstant 0 (seconds * 1000000000)
  uuid := "u"

/-- The header with the id `token`. -/
def tokenHeaders : HeaderMap := [("mcp-session-id", ⟨[116, 111, 107, 101, 110]⟩)]

/-- After five seconds all three take it for live. -/
theorem live_session_agrees : EndpointsAgree (sessionEnv 5) sessionServer tokenHeaders "token" := by
  refine (endpointsAgree_iff (sessionEnv 5) sessionServer tokenHeaders "token" rfl
    (by decide)).mpr ?_
  intro s hs
  obtain rfl : s = ⟨0, 0, none, none⟩ := by
    cases hs
    rfl
  exact ⟨by decide, by decide⟩

/-- After twenty, and before a prune, GET does not know it, and DELETE removes it. -/
theorem expired_session_deleted :
    (getMcp (sessionEnv 20) sessionServer tokenHeaders).response.status = 404 ∧
      (deleteMcp sessionServer tokenHeaders).response.status = 200 ∧
      ¬ EndpointsAgree (sessionEnv 20) sessionServer tokenHeaders "token" := by
  have hget : (getMcp (sessionEnv 20) sessionServer tokenHeaders).response.status = 404 := by
    decide
  have hdelete : (deleteMcp sessionServer tokenHeaders).response.status = 200 := by decide
  exact ⟨hget, hdelete, fun h => h.get.mp hdelete hget⟩

end McpFederation
