/-
A federation whose leaf is a federation.

The upper one reaches the lower one as it reaches any leaf: through `send_request`, with
whatever session id its client happens to hold.  The lower one may have dropped that
session, be it by its TTL, a `DELETE` or a restart; it then answers 404, and the client
shakes hands and asks again.  `run_sendRequest` says that none of this shows: the request
is dispatched exactly once, the client is given the value of that response, and what the
handshake does to the lower federation beside it is to add a session.
-/
import McpFederation.Proofs.Dispatch
import McpFederation.Proofs.Retry
import McpFederation.Proofs.Wire

namespace McpFederation

variable {cenv : ClientEnv}

/-! ### A client alone with the host -/

theorem ClientM.run_bind_ok {S α β : Type} {exec : (c : ClientCall) → S → c.Reply × S}
    {p : ClientM α} {f : α → ClientM β} {s s' : S} {a : α}
    (h : p.run.run exec s = (.ok a, s')) : (p >>= f).run.run exec s = (f a).run.run exec s' := by
  show (p.run >>= ExceptT.bindCont f).run exec s = _
  rw [Prog.run_bind, h]
  rfl

namespace LeafClient

variable {cl : LeafClient}

/-- The session id that goes out with a POST. -/
def sent (cl : LeafClient) (session : Option String) : Option String :=
  if cl.transport = .streamableHttp then session else none

/-- One exchange that comes to a reply. -/
theorem run_sendOnce {σ : Type} {answer : HttpPost → σ → PostReply × σ} {s : SoleClient σ}
    {body : Value} {r : HttpReply} {leaf : σ} {bytes : ByteArray}
    (hanswer : answer (cl.postOf cenv body (cl.sent s.session)) s.leaf = (.ok r, leaf))
    (hbody : r.body = .ok bytes) :
    (cl.sendOnce cenv body).run.run (SoleClient.exec answer) s
      = (.ok (r.status, decodeBody cenv r.contentType bytes),
          { s with session := cl.storedAfter s.session (.ok r), leaf := leaf }) := by
  have hsession : cl.sessionForPost.run.run (SoleClient.exec answer) s
      = (.ok (cl.sent s.session), s) := by
    unfold sessionForPost sent
    split <;> rfl
  have hpost : (ClientM.perform (.post (cl.postOf cenv body (cl.sent s.session)))).run.run
      (SoleClient.exec answer) s = (.ok (.ok r), { s with leaf := leaf }) := by
    show (Except.ok (answer _ _).1, SoleClient.mk s.session s.nextId (answer _ _).2) = _
    rw [hanswer]
  have hcapture : (cl.captureSession r).run.run (SoleClient.exec answer) { s with leaf := leaf }
      = (.ok (), { s with session := cl.storedAfter s.session (.ok r), leaf := leaf }) := by
    unfold captureSession storedAfter
    cases htransport : cl.transport with
    | streamableHttp => cases hid : r.sessionId <;> simp only [hid] <;> rfl
    | httpPost => rfl
  unfold sendOnce
  rw [ClientM.run_bind_ok hsession, ClientM.run_bind_ok hpost, ClientM.run_bind_ok hcapture,
    finishReply, hbody]
  rfl

end LeafClient

/-! ### Sessions that are minted -/

/-- What the sessions rely on from exchange `n` to exchange `m`: the claims that are signed are
read back from an id that can be sent, and less than a TTL passes by either clock. -/
structure Host.Issues (host : Host) (mgr : SessionManager) (n m : Nat) : Prop where
  jwt : ∀ i j, (host.env i).jwt = (host.env j).jwt
  faithful : ∀ i, (host.env i).jwt.Faithful mgr.key
    (mgr.newClaims (host.env i).now (host.env i).uuid none)
  visible : ∀ i, (HeaderValue.fromStr ((host.env i).jwt.encode mgr.key
    (mgr.newClaims (host.env i).now (host.env i).uuid none))).isSome = true
  brisk : ∀ i j, n ≤ i → i ≤ j → j ≤ m →
    (host.env j).now.instant - (host.env i).now.instant < mgr.ttlNanos ∧
      (host.env j).now.unix.toNat ≤ ((host.env i).now.unix + mgr.ttl).toNat + jwtLeeway

/-- The session `id` was minted at exchange `i`, and was last used at `k`. -/
structure Host.Minted (host : Host) (mgr : SessionManager) (id : String) (i k : Nat) : Prop where
  order : i ≤ k
  token : id = (host.env i).jwt.encode mgr.key
    (mgr.newClaims (host.env i).now (host.env i).uuid none)
  stored : ∃ st, mgr.sessions.lookup id = some st ∧ st.lastActive = (host.env k).now.instant

section

variable {host : Host} {mgr : SessionManager} {n m i j k : Nat} {id : String}

/-- A session that was minted is accepted as long as no TTL has passed. -/
theorem Host.Minted.validateSession_eq (h : host.Minted mgr id i k)
    (hissues : host.Issues mgr n m) (hi : n ≤ i) (hkj : k ≤ j) (hj : j ≤ m) :
    mgr.validateSession (host.env j).jwt (host.env j).now id = true := by
  have hid := h.token
  obtain ⟨st, hst, hactive⟩ := h.stored
  rw [mgr.validateSession_eq_true]
  refine ⟨⟨mgr.newClaims (host.env i).now (host.env i).uuid none, ?_⟩, st, hst, ?_⟩
  · have hfaithful := hissues.faithful i
    rw [hissues.jwt i j] at hfaithful hid
    unfold SessionManager.decodeClaims
    rw [hid, hfaithful]
    exact if_pos ⟨rfl, (hissues.brisk i j hi (h.order.trans hkj) hj).2⟩
  · rw [mgr.isActive_eq_true, hactive]
    exact (hissues.brisk k j (hi.trans h.order) hkj hj).1

/-- A request in the session is a use of it. -/
theorem Host.Minted.touch (h : host.Minted mgr id i k) (hkj : k ≤ j) :
    host.Minted (mgr.touchSession (host.env j).now id) id i j := by
  obtain ⟨st, hst, -⟩ := h.stored
  refine ⟨h.order.trans hkj, ?_, { st with lastActive := (host.env j).now.instant }, ?_, rfl⟩
  · unfold SessionManager.touchSession SessionManager.newClaims
    rw [SessionManager.key_update, SessionManager.ttl_update]
    exact h.token
  · unfold SessionManager.touchSession
    rw [SessionManager.lookup_update, if_pos rfl, hst]
    rfl

theorem Host.minted_createSession (host : Host) (mgr : SessionManager) (i : Nat) :
    host.Minted
      (mgr.createSession (host.env i).jwt (host.env i).now (host.env i).uuid none).2
      (mgr.createSession (host.env i).jwt (host.env i).now (host.env i).uuid none).1 i i :=
  ⟨le_refl i, rfl, _, AList.lookup_insert _, rfl⟩

theorem Host.Issues.congr {mgr' : SessionManager} (h : host.Issues mgr n m)
    (hkey : mgr'.key = mgr.key) (httl : mgr'.ttl = mgr.ttl) : host.Issues mgr' n m := by
  have hclaims : mgr'.newClaims = mgr.newClaims := by
    funext now sub info
    unfold SessionManager.newClaims
    rw [httl]
  have hnanos : mgr'.ttlNanos = mgr.ttlNanos := by
    unfold SessionManager.ttlNanos
    rw [httl]
  refine ⟨h.jwt, ?_, ?_, ?_⟩
  · rw [hkey, hclaims]
    exact h.faithful
  · rw [hkey, hclaims]
    exact h.visible
  · rw [hnanos, httl]
    exact h.brisk

end

/-! ### One exchange with the host -/

section

variable {host : Host} {cl : LeafClient} {ctx : RequestContext} {s : SoleClient Hosted}
  {body : Value} {request : JsonRpcRequest}

theorem LeafClient.sendable_sent (cl : LeafClient) {session : Option String}
    (h : Sendable session) : Sendable (cl.sent session) := by
  unfold LeafClient.sent
  split
  · exact h
  · intro id hid
    cases hid

/-- What is dispatched for a request in the session `sid`. -/
abbrev Host.dispatched (host : Host) (n : Nat) (state : FederationState)
    (request : JsonRpcRequest) (sid : Option String) (ctx : RequestContext) : Dispatched :=
  dispatch (host.env n).server state request sid ctx

/-- The federation after it has dispatched a request. -/
def Hosted.next (s : Hosted) (d : Dispatched) : Hosted where
  state := d.state
  exchanges := s.exchanges + 1
  forwarded := s.forwarded ++ d.forwarded

/-- A POST in no session or a valid one: it is dispatched, and its response is given. -/
theorem Host.Welcomes.run_admitted (h : host.Welcomes cenv cl ctx) (hopen : s.leaf.state.Open)
    (hsend : Sendable s.session) (hexact : body.Exact) (hrequest : requestOf body = some request)
    (hmethod : request.method ≠ "initialize") {state : FederationState}
    (hsession : checkSession (host.env s.leaf.exchanges) s.leaf.state (cl.sent s.session)
      = some state) (hstate : state.Open)
    (hresponse : (responseValue (host.dispatched s.leaf.exchanges state request
      (cl.sent s.session) ctx).response).Exact) :
    (cl.sendOnce cenv body).run.run (SoleClient.exec host.answer) s
      = (.ok (200, responseValue (host.dispatched s.leaf.exchanges state request
            (cl.sent s.session) ctx).response),
          { s with
            leaf := s.leaf.next (host.dispatched s.leaf.exchanges state request
              (cl.sent s.session) ctx) }) := by
  obtain ⟨headers, hid, hsse, hanswer⟩ := h.answer_eq hexact hrequest
    (cl.sendable_sent hsend) s.leaf
  rw [← hid] at hsession
  rw [handleMcp_admitted hopen hmethod hsession, handleAdmitted_of_ne hstate hmethod, hid]
    at hanswer
  rw [LeafClient.run_sendOnce hanswer rfl]
  refine Prod.ext ?_ ?_
  · show Except.ok (200, _) = Except.ok (200, _)
    exact congrArg (fun v => Except.ok (200, v)) (h.json.decodeBody_eq hresponse _)
  · show SoleClient.mk (cl.storedAfter s.session _) _ _ = SoleClient.mk s.session _ _
    congr 1
    show (if cl.transport = .streamableHttp then none.or s.session else s.session) = s.session
    rw [Option.none_or, ite_self]

/-- A POST in a session that is gone is answered 404. -/
theorem Host.Welcomes.run_gone (h : host.Welcomes cenv cl ctx) (hopen : s.leaf.state.Open)
    (hsend : Sendable s.session) (hexact : body.Exact) (hrequest : requestOf body = some request)
    (hmethod : request.method ≠ "initialize")
    (hsession : checkSession (host.env s.leaf.exchanges) s.leaf.state (cl.sent s.session) = none) :
    ∃ value, (cl.sendOnce cenv body).run.run (SoleClient.exec host.answer) s
      = (.ok (404, value),
          { s with leaf := { s.leaf with exchanges := s.leaf.exchanges + 1 } }) := by
  obtain ⟨headers, hid, -, hanswer⟩ := h.answer_eq hexact hrequest
    (cl.sendable_sent hsend) s.leaf
  rw [← hid] at hsession
  rw [handleMcp_gone hopen hmethod hsession] at hanswer
  refine ⟨_, (LeafClient.run_sendOnce hanswer rfl).trans (Prod.ext rfl ?_)⟩
  show SoleClient.mk (cl.storedAfter s.session _) s.nextId
    (Hosted.mk s.leaf.state _ (s.leaf.forwarded ++ [])) = SoleClient.mk s.session s.nextId _
  rw [List.append_nil]
  congr 1
  show (if cl.transport = .streamableHttp then none.or s.session else s.session) = s.session
  rw [Option.none_or, ite_self]

/-- The client has come from `s` to `s'`, where it holds a session that was minted at exchange
`i` and last used at `k`; beside the sessions nothing has changed at the host. -/
structure InSession (host : Host) (s s' : SoleClient Hosted) (id : String) (i k : Nat) :
    Prop where
  session : s'.session = some id
  sendable : Sendable (some id)
  minted : host.Minted s'.leaf.state.sessions id i k
  exchanges : s'.leaf.exchanges = k + 1
  leaves : s'.leaf.state.leaves = s.leaf.state.leaves
  forwarded : s'.leaf.forwarded = s.leaf.forwarded
  unrestricted : s'.leaf.state.Open
  key : s'.leaf.state.sessions.key = s.leaf.state.sessions.key
  ttl : s'.leaf.state.sessions.ttl = s.leaf.state.sessions.ttl

/-- A session that is held is accepted, within a TTL. -/
theorem InSession.checkSession_eq {s' : SoleClient Hosted} {id : String} {i k n m : Nat}
    (h : InSession host s s' id i k) (hcl : cl.transport = .streamableHttp)
    (hissues : host.Issues s.leaf.state.sessions n m) (hi : n ≤ i) (hk : k + 1 ≤ m) :
    checkSession (host.env s'.leaf.exchanges) s'.leaf.state (cl.sent s'.session)
      = some { s'.leaf.state with
          sessions := s'.leaf.state.sessions.touchSession (host.env (k + 1)).now id } := by
  rw [LeafClient.sent, if_pos hcl, h.session, h.exchanges]
  exact checkSession_of_valid
    (h.minted.validateSession_eq (hissues.congr h.key h.ttl) hi (Nat.le_succ k) hk)

/-- The answer to an `initialize` request. -/
def initializeAnswer (reqId : UInt64) : JsonRpcResponse :=
  handleInitialize ⟨some (.number (.posInt reqId)), "initialize", LeafClient.initializeParams⟩

/-- The session that is created for an `initialize` request now. -/
abbrev Host.created (host : Host) (s : Hosted) : String × SessionManager :=
  s.state.sessions.createSession (host.env s.exchanges).jwt (host.env s.exchanges).now
    (host.env s.exchanges).uuid none

/-- The `initialize` request is answered, and a session is created for it. -/
theorem Host.Welcomes.run_initialize (h : host.Welcomes cenv cl ctx) (hopen : s.leaf.state.Open)
    (hsend : Sendable s.session) (reqId : UInt64) :
    (cl.sendOnce cenv (LeafClient.initializeRequest reqId)).run.run (SoleClient.exec host.answer) s
      = (.ok (200, responseValue (initializeAnswer reqId)),
          { s with
            session :=
              if cl.transport = .streamableHttp then
                ((HeaderValue.fromStr (host.created s.leaf).1).bind HeaderValue.toStr).or s.session
              else s.session
            leaf :=
              { state := { s.leaf.state with sessions := (host.created s.leaf).2 }
                exchanges := s.leaf.exchanges + 1
                forwarded := s.leaf.forwarded } }) := by
  obtain ⟨headers, -, -, hanswer⟩ := h.answer_eq
    (exact_rpcRequest reqId "initialize" exact_initializeParams)
    (requestOf_rpcRequest reqId "initialize" LeafClient.initializeParams)
    (cl.sendable_sent hsend) s.leaf
  rw [handleMcp_handshake hopen rfl] at hanswer
  have hexact : (responseValue (initializeAnswer reqId)).Exact := by
    refine exact_handleInitialize fun v hv => ?_
    cases hv
    exact .posInt _
  refine (LeafClient.run_sendOnce hanswer rfl).trans (Prod.ext ?_ ?_)
  · exact congrArg (fun v => Except.ok (200, v)) (h.json.decodeBody_eq hexact _)
  · show SoleClient.mk _ s.nextId (Hosted.mk _ _ (s.leaf.forwarded ++ [])) = _
    rw [List.append_nil]
    rfl

/-- A client that keeps sessions stores the id that it is given. -/
theorem Host.Welcomes.run_initialize_session (h : host.Welcomes cenv cl ctx)
    (hcl : cl.transport = .streamableHttp) (hopen : s.leaf.state.Open)
    (hnone : s.session = none) {n m : Nat} (hissues : host.Issues s.leaf.state.sessions n m)
    (reqId : UInt64) :
    ∃ s' id, (cl.sendOnce cenv (LeafClient.initializeRequest reqId)).run.run
          (SoleClient.exec host.answer) s
        = (.ok (200, responseValue (initializeAnswer reqId)), s') ∧
      InSession host s s' id s.leaf.exchanges s.leaf.exchanges := by
  have hsend : Sendable s.session := by
    rw [hnone]
    intro id hid
    cases hid
  have hrun := h.run_initialize hopen hsend reqId
  have hminted := host.minted_createSession s.leaf.state.sessions s.leaf.exchanges
  have hvisible : Sendable (some (host.created s.leaf).1) := by
    intro id hid
    cases hid
    exact hissues.visible _
  have hkey : (host.created s.leaf).2.key = s.leaf.state.sessions.key := rfl
  have httl : (host.created s.leaf).2.ttl = s.leaf.state.sessions.ttl := rfl
  obtain ⟨v, hv⟩ := Option.isSome_iff_exists.mp (hvisible (host.created s.leaf).1 rfl)
  rw [if_pos hcl, hv, Option.bind_some, HeaderValue.toStr_fromStr hv, Option.some_or] at hrun
  exact ⟨_, _, hrun, rfl, hvisible, hminted, rfl, rfl, rfl, hopen.withSessions _, hkey, httl⟩

/-- Whatever comes of the notification that ends the handshake, the client goes on. -/
theorem LeafClient.run_notifyInitialized {S : Type} {exec : (c : ClientCall) → S → c.Reply × S}
    {s s' : S} {r : Except FederationError (Nat × Value)}
    (h : (cl.sendOnce cenv LeafClient.initializedNotification).run.run exec s = (r, s')) :
    (cl.notifyInitialized cenv).run.run exec s = (.ok (), s') := by
  have hlift : (ExceptT.lift (cl.sendOnce cenv
      LeafClient.initializedNotification).run : ClientM _).run.run exec s = (.ok r, s') := by
    show ((cl.sendOnce cenv _).run >>= fun r => Prog.ret (Except.ok r)).run _ s = _
    rw [Prog.run_bind, h]
    rfl
  unfold LeafClient.notifyInitialized
  rw [ClientM.run_bind_ok hlift]
  rfl

theorem exact_initializedResponse (env : ServerEnv) (state : FederationState)
    (sid : Option String) (ctx : RequestContext) :
    (responseValue (dispatch env state ⟨none, "notifications/initialized", .obj []⟩ sid
      ctx).response).Exact := by
  refine exact_responseValue (fun v hv => by cases hv) (fun v hv => ?_) fun e he => by cases he
  cases hv
  exact exact_emptyObj

/-- The notification that ends the handshake is a use of the session. -/
theorem Host.Welcomes.run_notifyInitialized (h : host.Welcomes cenv cl ctx)
    (hcl : cl.transport = .streamableHttp) {s' : SoleClient Hosted} {id : String} {i k n m : Nat}
    (hin : InSession host s s' id i k) (hissues : host.Issues s.leaf.state.sessions n m)
    (hi : n ≤ i) (hk : k + 1 ≤ m) :
    ∃ s'', (cl.notifyInitialized cenv).run.run (SoleClient.exec host.answer) s' = (.ok (), s'') ∧
      InSession host s s'' id i (k + 1) := by
  have hsend : Sendable s'.session := by
    rw [hin.session]
    exact hin.sendable
  have hnotify := h.run_admitted hin.unrestricted hsend exact_initializedNotification
    requestOf_initializedNotification (by decide) (hin.checkSession_eq hcl hissues hi hk)
    (hin.unrestricted.withSessions _) (exact_initializedResponse _ _ _ _)
  refine ⟨_, LeafClient.run_notifyInitialized hnotify, ?_⟩
  exact
    { session := hin.session
      sendable := hin.sendable
      minted := hin.minted.touch (Nat.le_succ k)
      exchanges := congrArg (· + 1) hin.exchanges
      leaves := hin.leaves
      forwarded := (List.append_nil _).trans hin.forwarded
      unrestricted := hin.unrestricted.withSessions _
      key := (SessionManager.key_update _ _ _).trans hin.key
      ttl := (SessionManager.ttl_update _ _ _).trans hin.ttl }

/-- **A handshake with the host succeeds**, and leaves the client in a session. -/
theorem Host.Welcomes.run_initializeLeaf (h : host.Welcomes cenv cl ctx)
    (hcl : cl.transport = .streamableHttp) (hopen : s.leaf.state.Open) {n m : Nat}
    (hissues : host.Issues s.leaf.state.sessions n m) (hn : n ≤ s.leaf.exchanges)
    (hm : s.leaf.exchanges + 1 ≤ m) :
    ∃ result s' id, (cl.initializeLeaf cenv).run.run (SoleClient.exec host.answer) s
        = (.ok result, s') ∧ (initializeAnswer s.nextId).result = some result ∧
      InSession host s s' id s.leaf.exchanges (s.leaf.exchanges + 1) := by
  have hclear : cl.clearSession.run.run (SoleClient.exec host.answer) s
      = (.ok (), { s with session := none }) := by
    rw [LeafClient.clearSession, if_pos hcl]
    rfl
  have hid : (ClientM.perform .nextRequestId).run.run (SoleClient.exec host.answer)
      { s with session := none }
      = (.ok s.nextId, { s with session := none, nextId := s.nextId + 1 }) := rfl
  obtain ⟨s', id, hinit, hin⟩ := h.run_initialize_session
    (s := { s with session := none, nextId := s.nextId + 1 }) hcl hopen rfl hissues s.nextId
  obtain ⟨s'', hnotify, hin⟩ := h.run_notifyInitialized hcl hin hissues hn hm
  have hresult : (responseValue (initializeAnswer s.nextId)).get? "result"
      = (initializeAnswer s.nextId).result := (get?_responseValue _).2
  obtain ⟨result, hvalue⟩ : ∃ v, (initializeAnswer s.nextId).result = some v := ⟨_, rfl⟩
  refine ⟨result, s'', id, ?_, hvalue, ⟨hin.session, hin.sendable, hin.minted, hin.exchanges,
    hin.leaves, hin.forwarded, hin.unrestricted, hin.key, hin.ttl⟩⟩
  unfold LeafClient.initializeLeaf
  rw [ClientM.run_bind_ok hclear, ClientM.run_bind_ok hid]
  refine (ClientM.run_bind_ok hinit).trans ?_
  show (cl.finishInitialize cenv 200 _).run.run _ s' = _
  rw [LeafClient.finishInitialize, if_pos (by decide), ClientM.run_bind_ok hnotify, hresult,
    hvalue]
  rfl

/-- The client has come from `s` to `s'`, and for it the host has dispatched the request once,
to this response: at its first exchange with the client or after a handshake of two, with the
leaves that it had, and it has forwarded what that dispatch forwards. -/
structure DispatchedOnce (host : Host) (ctx : RequestContext) (request : JsonRpcRequest)
    (s s' : SoleClient Hosted) (response : JsonRpcResponse) (n : Nat) (state : FederationState)
    (sid : Option String) : Prop where
  exchange : n = s.leaf.exchanges ∨ n = s.leaf.exchanges + 3
  before : state.leaves = s.leaf.state.leaves
  response : response = (host.dispatched n state request sid ctx).response
  after : s'.leaf.state = (host.dispatched n state request sid ctx).state
  exchanges : s'.leaf.exchanges = n + 1
  forwarded : s'.leaf.forwarded
    = s.leaf.forwarded ++ (host.dispatched n state request sid ctx).forwarded
  unrestricted : s'.leaf.state.Open
  sendable : Sendable s'.session
  key : s'.leaf.state.sessions.key = s.leaf.state.sessions.key
  ttl : s'.leaf.state.sessions.ttl = s.leaf.state.sessions.ttl

/-- The session check leaves a server open. -/
theorem checkSession_open {env : HttpEnv} {state state' : FederationState} {sid : Option String}
    (hopen : state.Open) (h : checkSession env state sid = some state') : state'.Open := by
  unfold checkSession at h
  split at h
  · cases h
    exact hopen
  · dsimp only at h
    split at h
    · cases h
      exact hopen.withSessions _
    · cases h

/-- The session check leaves the key and the TTL alone. -/
theorem checkSession_key {env : HttpEnv} {state state' : FederationState} {sid : Option String}
    (h : checkSession env state sid = some state') :
    state'.sessions.key = state.sessions.key ∧ state'.sessions.ttl = state.sessions.ttl := by
  unfold checkSession at h
  split at h
  · cases h
    exact ⟨rfl, rfl⟩
  · dsimp only at h
    split at h
    · cases h
      unfold SessionManager.checkAndTouch
      split
      · exact ⟨SessionManager.key_update _ _ _, SessionManager.ttl_update _ _ _⟩
      · exact ⟨rfl, rfl⟩
    · cases h

/--
**A session that is gone does not show.**  Whatever session id the client holds, `send_request`
to a federation gives the value of the response to its request, and the request is dispatched
exactly once.
-/
theorem run_sendRequest (h : host.Welcomes cenv cl ctx) (hopen : s.leaf.state.Open)
    (hsend : Sendable s.session) (hexact : body.Exact) (hrequest : requestOf body = some request)
    (hmethod : request.method ≠ "initialize")
    (hissues : host.Issues s.leaf.state.sessions s.leaf.exchanges (s.leaf.exchanges + 3))
    (hresponse : ∀ n state sid, state.leaves = s.leaf.state.leaves →
      (responseValue (host.dispatched n state request sid ctx).response).Exact) :
    ∃ response s' n state sid,
      (cl.sendRequest cenv body).run.run (SoleClient.exec host.answer) s
        = (.ok (responseValue response), s') ∧
      DispatchedOnce host ctx request s s' response n state sid := by
  cases hcheck : checkSession (host.env s.leaf.exchanges) s.leaf.state (cl.sent s.session) with
  | some state =>
      have hleaves := checkSession_leaves _ _ hcheck
      have hsent := h.run_admitted hopen hsend hexact hrequest hmethod hcheck
        (checkSession_open hopen hcheck) (hresponse _ state _ hleaves)
      have hneeds : (cl.needsRetry 200) = pure false := cl.needsRetry_of_isSuccess (by decide)
      refine ⟨_, { s with leaf := s.leaf.next (host.dispatched s.leaf.exchanges state request
          (cl.sent s.session) ctx) }, s.leaf.exchanges, state, cl.sent s.session, ?_,
        ⟨Or.inl rfl, hleaves, rfl, rfl, rfl, rfl,
          (checkSession_open hopen hcheck).dispatch _ _ _ _, hsend,
          (dispatch_key _ _ _ _ _).1.trans (checkSession_key hcheck).1,
          (dispatch_key _ _ _ _ _).2.trans (checkSession_key hcheck).2⟩⟩
      unfold LeafClient.sendRequest
      refine (ClientM.run_bind_ok hsent).trans ?_
      show ((cl.needsRetry 200 >>= fun b => _ : ClientM Value)).run.run _ _ = _
      rw [hneeds, pure_bind]
      rfl
  | none =>
      have hcl : cl.transport = .streamableHttp := by
        by_contra hcl
        rw [LeafClient.sent, if_neg hcl] at hcheck
        cases hcheck
      obtain ⟨value, hgone⟩ := h.run_gone hopen hsend hexact hrequest hmethod hcheck
      obtain ⟨result, s₂, id, hinit, -, hin⟩ := h.run_initializeLeaf
        (s := { s with leaf := { s.leaf with exchanges := s.leaf.exchanges + 1 } }) hcl hopen
        hissues (Nat.le_succ _) (Nat.le_succ (s.leaf.exchanges + 2))
      obtain ⟨state, hcheck₂⟩ : ∃ state, checkSession (host.env s₂.leaf.exchanges) s₂.leaf.state
          (cl.sent s₂.session) = some state :=
        ⟨_, hin.checkSession_eq hcl hissues (Nat.le_succ _) (le_refl _)⟩
      have hleaves : state.leaves = s.leaf.state.leaves :=
        (checkSession_leaves _ _ hcheck₂).trans hin.leaves
      have hsend₂ : Sendable s₂.session := by
        rw [hin.session]
        exact hin.sendable
      have hsent := h.run_admitted hin.unrestricted hsend₂ hexact hrequest hmethod hcheck₂
        (checkSession_open hin.unrestricted hcheck₂) (hresponse _ _ _ hleaves)
      refine ⟨_, { s₂ with leaf := s₂.leaf.next (host.dispatched s₂.leaf.exchanges state request
          (cl.sent s₂.session) ctx) }, s₂.leaf.exchanges, state, cl.sent s₂.session, ?_,
        ⟨Or.inr hin.exchanges, hleaves, rfl, rfl, rfl, ?_,
          (checkSession_open hin.unrestricted hcheck₂).dispatch _ _ _ _, hsend₂,
          ((dispatch_key _ _ _ _ _).1.trans (checkSession_key hcheck₂).1).trans hin.key,
          ((dispatch_key _ _ _ _ _).2.trans (checkSession_key hcheck₂).2).trans hin.ttl⟩⟩
      rotate_left
      · show s₂.leaf.forwarded ++ _ = _
        rw [hin.forwarded]
      unfold LeafClient.sendRequest
      refine (ClientM.run_bind_ok hgone).trans ?_
      have hneeds : cl.needsRetry 404 = pure true := by
        rw [LeafClient.needsRetry, if_pos hcl]
        rfl
      show ((cl.needsRetry 404 >>= fun b => _ : ClientM Value)).run.run _ _ = _
      rw [hneeds, pure_bind]
      show (cl.retry cenv body).run.run _ _ = _
      unfold LeafClient.retry
      refine (ClientM.run_bind_ok hinit).trans ((ClientM.run_bind_ok hsent).trans ?_)
      rfl

end

end McpFederation
