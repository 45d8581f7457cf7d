/-
What the server keeps of a session.

`logging/setLevel` is the one request that changes a session, apart from the time it was last
used.  `session_kept` follows a session through any traffic, with requests of other clients
and in other sessions, registrations and prunes in between: as long as it is there, it was
there from the start, with the same creation time and client, and its log level is that of
the last `logging/setLevel` in it that was answered without an error.
-/
import McpFederation.Lib.Runs
import McpFederation.Proofs.Traffic

namespace McpFederation

/-! ### Traffic -/

/-- What happens to a server: a request, or a turn of the prune task. -/
inductive Traffic where
  | request (x : Arrival)
  | prune (now : Now)

/-- What it answers, and the state after. -/
def Traffic.handle (auth : AuthState) (state : FederationState) :
    Traffic → Option HttpResponse × FederationState
  | .request x =>
      let handled := serve x.env auth x.read state x.request
      (some handled.response, handled.state)
  | .prune now => (none, { state with sessions := (state.sessions.pruneExpired now).2 })

/-- A JSON-RPC response without an error. -/
def HttpResponse.succeeded (response : HttpResponse) : Bool :=
  match response.body with
  | .rpc r _ => r.error.isNone
  | _ => false

/-- The level that a POST with this answer has set for the session. -/
def postedLevel (sid : String) (headers : HeaderMap) (request : JsonRpcRequest)
    (response : HttpResponse) : Option String :=
  if extractSessionId headers = some sid ∧ response.succeeded = true then levelSet request
  else none

/-- The level that was set for the session, by what was answered. -/
def Traffic.level (sid : String) : Traffic → Option HttpResponse → Option String
  | .request x, some response =>
      match x.request.endpoint with
      | .postMcp (some body) => postedLevel sid x.request.headers body response
      | _ => none
  | _, _ => none

/-- No session is minted under this id. -/
def Traffic.Unminted (sid : String) (state : FederationState) : Traffic → Prop
  | .request x =>
      ∀ info, (state.sessions.createSession x.env.jwt x.env.now x.env.uuid info).1 ≠ sid
  | .prune _ => True

/-! ### The record of a session -/

/-- The same session, after a level has been set or not. -/
structure SessionState.Since (st : SessionState) (level : Option String) (st' : SessionState) :
    Prop where
  createdAt : st'.createdAt = st.createdAt
  clientInfo : st'.clientInfo = st.clientInfo
  logLevel : st'.logLevel = level.or st.logLevel

theorem SessionState.since_refl (st : SessionState) : st.Since none st := ⟨rfl, rfl, rfl⟩

/-- A session that is there was there before. -/
def SessionManager.Keeps (mgr : SessionManager) (sid : String) (level : Option String)
    (mgr' : SessionManager) : Prop :=
  ∀ st', mgr'.sessions.lookup sid = some st' →
    ∃ st, mgr.sessions.lookup sid = some st ∧ st.Since level st'

section

variable {mgr mgr' mgr'' : SessionManager} {sid : String}

theorem SessionManager.keeps_of_same (h : mgr'.sessions = mgr.sessions) :
    mgr.Keeps sid none mgr' := by
  intro st' hst'
  rw [h] at hst'
  exact ⟨st', hst', st'.since_refl⟩

theorem SessionManager.Keeps.trans {level level' : Option String} (h : mgr.Keeps sid level mgr')
    (h' : mgr'.Keeps sid level' mgr'') : mgr.Keeps sid (level'.or level) mgr'' := by
  intro st'' hst''
  obtain ⟨st', hst', hsince'⟩ := h' st'' hst''
  obtain ⟨st, hst, hsince⟩ := h st' hst'
  refine ⟨st, hst, hsince'.createdAt.trans hsince.createdAt,
    hsince'.clientInfo.trans hsince.clientInfo, ?_⟩
  rw [hsince'.logLevel, hsince.logLevel, Option.or_assoc]

theorem SessionManager.keeps_update (id : String) {f : SessionState → SessionState}
    {level : Option String} (hf : id = sid → ∀ st : SessionState, st.Since level (f st))
    (hlevel : id ≠ sid → level = none) : mgr.Keeps sid level (mgr.update id f) := by
  intro st' hst'
  rw [SessionManager.lookup_update] at hst'
  by_cases hid : sid = id
  · rw [if_pos hid] at hst'
    obtain ⟨st, hst, rfl⟩ := Option.map_eq_some_iff.mp hst'
    exact ⟨st, hid ▸ hst, hf hid.symm st⟩
  · rw [if_neg hid] at hst'
    rw [hlevel (Ne.symm hid)]
    exact ⟨st', hst', st'.since_refl⟩

theorem SessionManager.keeps_touch (now : Now) (id : String) :
    mgr.Keeps sid none (mgr.touchSession now id) :=
  SessionManager.keeps_update id (fun _ _ => ⟨rfl, rfl, rfl⟩) fun _ => rfl

theorem SessionManager.keeps_terminate (id : String) :
    mgr.Keeps sid none (mgr.terminateSession id).2 := by
  intro st' hst'
  have hlookup : (mgr.sessions.erase id).lookup sid = some st' := hst'
  by_cases hid : sid = id
  · rw [hid, AList.lookup_erase] at hlookup
    cases hlookup
  · rw [AList.lookup_erase_ne hid] at hlookup
    exact ⟨st', hlookup, st'.since_refl⟩

theorem SessionManager.keeps_prune (now : Now) :
    mgr.Keeps sid none (mgr.pruneExpired now).2 := by
  intro st' hst'
  have hlookup : (retain (mgr.isActive now) mgr.sessions).lookup sid = some st' := hst'
  rw [lookup_retain, Option.filter_eq_some_iff] at hlookup
  exact ⟨st', hlookup.1, st'.since_refl⟩

theorem SessionManager.keeps_create {jwt : Jwt} {now : Now} {sub : String} {info : Option Value}
    (hne : (mgr.createSession jwt now sub info).1 ≠ sid) :
    mgr.Keeps sid none (mgr.createSession jwt now sub info).2 := by
  intro st' hst'
  have hlookup : mgr.sessions.lookup sid = some st' :=
    (AList.lookup_insert_ne (Ne.symm hne)).symm.trans hst'
  exact ⟨st', hlookup, st'.since_refl⟩

theorem SessionManager.keeps_afterDispatch (request : JsonRpcRequest) (hdr : Option String) :
    mgr.Keeps sid (if hdr = some sid then levelSet request else none)
      (mgr.afterDispatch request hdr) := by
  cases hdr with
  | none => exact SessionManager.keeps_of_same rfl
  | some id =>
      unfold SessionManager.afterDispatch
      cases levelSet request with
      | none =>
          rw [ite_self]
          exact SessionManager.keeps_of_same rfl
      | some level =>
          refine SessionManager.keeps_update id (fun hid st => ?_) fun hid => ?_
          · rw [if_pos (congrArg some hid)]
            exact ⟨rfl, rfl, rfl⟩
          · exact if_neg fun hc => hid (Option.some.inj hc)

end

/-! ### One request -/

section

variable {env : HttpEnv} {state : FederationState} {headers : HeaderMap} {sid : String}
  {request : JsonRpcRequest}

/-- A level is set exactly with an answer that says so. -/
theorem error_of_levelSet {level : String} (h : levelSet request = some level)
    (env : ServerEnv) (state : FederationState) (hdr : Option String) (ctx : RequestContext) :
    (dispatch env state request hdr ctx).response.error = none := by
  unfold levelSet at h
  split at h
  · rename_i hmethod
    obtain ⟨hlevel, hvalid⟩ := Option.filter_eq_some_iff.mp h
    have hdispatch : dispatch env state request hdr ctx
        = handleLoggingSetLevel state request hdr := by
      simp only [dispatch, hmethod]
    have hmem : level ∈ validLogLevels := of_decide_eq_true hvalid
    rw [hdispatch]
    unfold handleLoggingSetLevel
    simp only [hlevel, hmem, not_true_eq_false, if_false]
    rfl
  · cases h

theorem levelSet_of_opening (h : request.method = "initialize") : levelSet request = none := by
  unfold levelSet
  rw [h, if_neg (by decide)]

theorem postedLevel_of_opening (h : request.method = "initialize") (response : HttpResponse) :
    postedLevel sid headers request response = none := by
  unfold postedLevel
  rw [levelSet_of_opening h, ite_self]

theorem postedLevel_of_failed {response : HttpResponse} (h : response.succeeded = false) :
    postedLevel sid headers request response = none := by
  unfold postedLevel
  rw [if_neg fun hc => Bool.false_ne_true (h.symm.trans hc.2)]

/-- The level of an answer that is what the request was dispatched to. -/
theorem postedLevel_of_dispatched {response : HttpResponse} {env : ServerEnv}
    {state : FederationState} {hdr : Option String} {ctx : RequestContext} {sse : Bool}
    (h : response.body = .rpc (dispatch env state request hdr ctx).response sse) :
    postedLevel sid headers request response
      = if extractSessionId headers = some sid then levelSet request else none := by
  unfold postedLevel
  cases hlevel : levelSet request with
  | none => rw [ite_self, ite_self]
  | some level =>
      have hsucceeded : response.succeeded = true := by
        unfold HttpResponse.succeeded
        rw [h]
        simp only [error_of_levelSet hlevel, Option.isNone_none]
      simp only [hsucceeded, and_true]

theorem checkSession_keeps {hdr : Option String} {state' : FederationState}
    (h : checkSession env state hdr = some state') :
    state.sessions.Keeps sid none state'.sessions := by
  cases hdr with
  | none =>
      cases h
      exact SessionManager.keeps_of_same rfl
  | some id =>
      unfold checkSession SessionManager.checkAndTouch at h
      by_cases hvalid : state.sessions.validateSession env.jwt env.now id = true
      · simp only [hvalid, if_true, Option.some.injEq] at h
        rw [← h]
        exact SessionManager.keeps_touch env.now id
      · simp [hvalid] at h

theorem handleAdmitted_keeps
    (hminted : ∀ info, (state.sessions.createSession env.jwt env.now env.uuid info).1 ≠ sid)
    (ctx : RequestContext) {handled : Handled}
    (h : handleAdmitted env state headers ctx request = handled) :
    state.sessions.Keeps sid (postedLevel sid headers request handled.response)
      handled.state.sessions := by
  unfold handleAdmitted at h
  dsimp only at h
  split at h
  · split at h
    · rename_i hnew
      subst h
      rw [postedLevel_of_opening hnew.1]
      dsimp only
      rw [dispatch_initialize_eq _ _ _ _ hnew.1]
      exact SessionManager.keeps_create (hminted _)
    · subst h
      rw [postedLevel_of_dispatched rfl]
      dsimp only
      rw [dispatch_state]
      exact SessionManager.keeps_afterDispatch request (extractSessionId headers)
  · subst h
    rw [postedLevel_of_failed rfl]
    exact SessionManager.keeps_of_same rfl

theorem handleMcp_keeps
    (hminted : ∀ info, (state.sessions.createSession env.jwt env.now env.uuid info).1 ≠ sid)
    (ctx : Option RequestContext) {handled : Handled}
    (h : handleMcp env state headers ctx request = handled) :
    state.sessions.Keeps sid (postedLevel sid headers request handled.response)
      handled.state.sessions := by
  unfold handleMcp at h
  split at h
  · dsimp only at h
    split at h
    · subst h
      rw [postedLevel_of_failed rfl]
      exact SessionManager.keeps_of_same rfl
    · rename_i state' hadmitted
      by_cases hmethod : request.method = "initialize"
      · rw [if_pos hmethod, Option.some.injEq] at hadmitted
        subst hadmitted
        exact handleAdmitted_keeps hminted _ h
      · rw [if_neg hmethod] at hadmitted
        have hkey : ∀ info,
            (state'.sessions.createSession env.jwt env.now env.uuid info).1 ≠ sid := by
          intro info
          obtain ⟨hkey, httl⟩ := checkSession_key hadmitted
          unfold SessionManager.createSession SessionManager.newClaims
          rw [hkey, httl]
          exact hminted info
        have hkeeps := (checkSession_keeps hadmitted).trans (handleAdmitted_keeps hkey _ h)
        rwa [Option.or_none] at hkeeps
  · subst h
    rw [postedLevel_of_failed rfl]
    exact SessionManager.keeps_of_same rfl

/-- Every other handler leaves the session as it is, or ends it. -/
theorem Endpoint.handle_keeps {e : Endpoint} (he : ∀ request, e ≠ .postMcp (some request))
    (ctx : Option RequestContext) :
    state.sessions.Keeps sid none (e.handle env state headers ctx).state.sessions := by
  cases e with
  | postMcp body =>
      cases body with
      | none => exact SessionManager.keeps_of_same rfl
      | some request => exact absurd rfl (he request)
  | getMcp =>
      show state.sessions.Keeps sid none (McpFederation.getMcp env state headers).state.sessions
      unfold McpFederation.getMcp
      split
      · split
        · exact SessionManager.keeps_of_same rfl
        · split
          · exact SessionManager.keeps_of_same rfl
          · rename_i state' hsession
            exact checkSession_keeps hsession
      · exact SessionManager.keeps_of_same rfl
  | deleteMcp =>
      show state.sessions.Keeps sid none (McpFederation.deleteMcp state headers).state.sessions
      unfold McpFederation.deleteMcp
      split
      · split
        · exact SessionManager.keeps_of_same rfl
        · rename_i id _
          dsimp only
          split
          · exact SessionManager.keeps_terminate id
          · exact SessionManager.keeps_terminate id
      · exact SessionManager.keeps_of_same rfl
  | registerServer body =>
      cases body with
      | none => exact SessionManager.keeps_of_same rfl
      | some req => exact SessionManager.keeps_of_same rfl
  | listServers => exact SessionManager.keeps_of_same rfl
  | getServer a =>
      unfold Endpoint.handle
      dsimp only
      split
      · exact SessionManager.keeps_of_same rfl
      · exact SessionManager.keeps_of_same rfl
  | deregisterServer a =>
      unfold Endpoint.handle
      dsimp only
      split
      · exact SessionManager.keeps_of_same rfl
      · exact SessionManager.keeps_of_same rfl

theorem serve_keeps {read : Except String String} {auth : AuthState} {e : Endpoint}
    (he : ∀ request, e ≠ .postMcp (some request)) :
    state.sessions.Keeps sid none (serve env auth read state ⟨e, headers⟩).state.sessions := by
  unfold serve
  split
  · exact SessionManager.keeps_of_same rfl
  · exact Endpoint.handle_keeps he _

theorem serve_post_keeps {read : Except String String} {auth : AuthState}
    (hminted : ∀ info, (state.sessions.createSession env.jwt env.now env.uuid info).1 ≠ sid) :
    state.sessions.Keeps sid
      (postedLevel sid headers request
        (serve env auth read state ⟨.postMcp (some request), headers⟩).response)
      (serve env auth read state ⟨.postMcp (some request), headers⟩).state.sessions := by
  unfold serve
  split
  · rw [postedLevel_of_failed rfl]
    exact SessionManager.keeps_of_same rfl
  · exact handleMcp_keeps hminted _ rfl

/-- **One step of the traffic.** -/
theorem Traffic.handle_keeps (auth : AuthState) {e : Traffic} (h : e.Unminted sid state) :
    state.sessions.Keeps sid (e.level sid (e.handle auth state).1)
      (e.handle auth state).2.sessions := by
  cases e with
  | prune now => exact SessionManager.keeps_prune now
  | request x =>
      obtain ⟨env, read, endpoint, headers⟩ := x
      by_cases hpost : ∃ body, endpoint = .postMcp (some body)
      · obtain ⟨body, rfl⟩ := hpost
        exact serve_post_keeps h
      · have hother : ∀ body, endpoint ≠ .postMcp (some body) := fun body heq => hpost ⟨body, heq⟩
        have hlevel : ∀ response : HttpResponse,
            Traffic.level sid (.request ⟨env, read, endpoint, headers⟩) (some response) = none := by
          intro response
          unfold Traffic.level
          dsimp only
          split
          · rename_i body
            exact absurd rfl (hother body)
          · rfl
        show state.sessions.Keeps sid (Traffic.level sid _ (some _)) _
        rw [hlevel]
        exact serve_keeps hother

end

/-! ### Whole runs -/

section

variable (auth : AuthState) (sid : String)

/-- The levels that were set for the session, in order. -/
def levels (state : FederationState) (events : List Traffic) : List String :=
  (Runs.outputs (Traffic.handle auth) state events).filterMap fun o => o.1.level sid o.2

theorem levels_cons (state : FederationState) (e : Traffic) (rest : List Traffic) :
    levels auth sid state (e :: rest)
      = (e.level sid (e.handle auth state).1).toList
        ++ levels auth sid (e.handle auth state).2 rest := by
  unfold levels
  rw [Runs.outputs_cons, List.filterMap_cons]
  cases e.level sid (e.handle auth state).1 <;> rfl

theorem getLast?_toList_append (level : Option String) (rest : List String) :
    (level.toList ++ rest).getLast? = rest.getLast?.or level := by
  rw [List.getLast?_append]
  cases level with
  | none => rfl
  | some level => rfl

/--
**A session is kept as it is, but for its log level.**  In a run of any traffic in which no
session is minted under its id, a session that is there at the end was there at the start,
with the same creation time and client, and its level is that of the last `logging/setLevel`
in it that was answered without an error, if there was one.
-/
theorem session_kept (events : List Traffic) {state : FederationState}
    (hminted : Runs.Along (fun s e => (Traffic.handle auth s e).2) (fun s e => e.Unminted sid s)
      state events) {st' : SessionState}
    (h : (Runs.run (fun s e => (Traffic.handle auth s e).2) state events).sessions.sessions.lookup
      sid = some st') :
    ∃ st, state.sessions.sessions.lookup sid = some st ∧ st'.createdAt = st.createdAt ∧
      st'.clientInfo = st.clientInfo ∧
      st'.logLevel = (levels auth sid state events).getLast?.or st.logLevel := by
  have key : state.sessions.Keeps sid (levels auth sid state events).getLast?
      (Runs.run (fun s e => (Traffic.handle auth s e).2) state events).sessions := by
    clear h
    induction events generalizing state with
    | nil => exact SessionManager.keeps_of_same rfl
    | cons e rest ih =>
        rw [levels_cons, getLast?_toList_append]
        exact (Traffic.handle_keeps auth hminted.1).trans (ih hminted.2)
  obtain ⟨st, hst, hsince⟩ := key st' h
  exact ⟨st, hst, hsince.createdAt, hsince.clientInfo, hsince.logLevel⟩

end

/-! ### A level that stays -/

/-- Tokens that tell the sessions apart. -/
def subjectTokens : Jwt where
  encode := fun _ claims => claims.sub
  decode := fun _ id => some { SessionManager.tenSecondClaims with sub := id }

/-- A request in the session `token`, at the given second. -/
def tokenRequest (seconds : Nat) (method : String) (params : Value) : Traffic :=
  .request
    { env := { sessionEnv seconds with jwt := subjectTokens, uuid := "other" }
      read := .error "no token file"
      request := ⟨.postMcp (some ⟨some (.ofNat 1), method, params⟩), tokenHeaders⟩ }

/-- One level that is set and one that is refused, a session of somebody else, and a prune. -/
def debugTraffic : List Traffic :=
  [tokenRequest 1 "logging/setLevel" (.obj [("level", .string "debug")]),
    .request
      { env := { sessionEnv 2 with jwt := subjectTokens, uuid := "other" }
        read := .error "no token file"
        request := ⟨.postMcp (some ⟨some (.ofNat 1), "initialize", .obj []⟩), []⟩ },
    tokenRequest 3 "logging/setLevel" (.obj [("level", .string "loud")]),
    .prune (Now.ofInstant 0 9000000000)]

theorem debug_kept :
    levels ⟨none, none, []⟩ "token" sessionServer debugTraffic = ["debug"] ∧
      ∃ st, sessionServer.sessions.sessions.lookup "token" = some st ∧ 0 = st.createdAt ∧
        none = st.clientInfo ∧
        some "debug"
          = (levels ⟨none, none, []⟩ "token" sessionServer debugTraffic).getLast?.or
            st.logLevel := by
  have hminted : ∀ (state : FederationState) (seconds : Nat) (info : Option Value),
      (state.sessions.createSession subjectTokens (sessionEnv seconds).now "other" info).1
        ≠ "token" :=
    fun _ _ _ h => absurd (show "other" = "token" from h) (by decide)
  exact ⟨by decide, session_kept ⟨none, none, []⟩ "token" debugTraffic
    ⟨hminted _ 1, hminted _ 2, hminted _ 3, trivial, trivial⟩
    (show _ = some (⟨0, 3000000000, none, some "debug"⟩ : SessionState) from rfl)⟩

end McpFederation
