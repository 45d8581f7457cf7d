/-
A link over time.

Between two requests anything may happen at the lower federation: its sessions run out, are
swept or deleted, it restarts with another key, other clients use it, leaves come and go.
`sends_dispatched_once` says that the client never notices: in every run of requests and such
changes each request is dispatched exactly once, in the state that the host is found in, and
the client is given the value of that dispatch's response.
-/
import McpFederation.Proofs.Endpoints
import McpFederation.Proofs.JsonFormat
import McpFederation.Proofs.Linked
import McpFederation.Proofs.Reinit

namespace McpFederation

/-- What happens on a link: the client sends a request, or the host goes on without it and is
`hosted` when it is next heard of. -/
inductive LinkEvent where
  | send (body : Value)
  | meanwhile (hosted : Hosted)

section

variable (host : Host) (cenv : ClientEnv) (cl : LeafClient) (ctx : RequestContext)

/-- One event, with what `send_request` gives. -/
def LinkEvent.happen (s : SoleClient Hosted) :
    LinkEvent → Option (Except FederationError Value) × SoleClient Hosted
  | .send body =>
      (some ((cl.sendRequest cenv body).run.run (SoleClient.exec host.answer) s).1,
        ((cl.sendRequest cenv body).run.run (SoleClient.exec host.answer) s).2)
  | .meanwhile hosted => (none, { s with leaf := hosted })

/-- The link after an event. -/
def LinkEvent.step (s : SoleClient Hosted) (e : LinkEvent) : SoleClient Hosted :=
  (e.happen host cenv cl s).2

/-- What the run promises: a request is one, its answer survives being written as JSON, and
during the request the host's clock moves by less than a TTL.  What is changed meanwhile
neither closes the host to the client's origin nor puts a rate limit on it. -/
def LinkEvent.Proper (s : SoleClient Hosted) : LinkEvent → Prop
  | .send body =>
      body.Exact ∧ host.Issues s.leaf.state.sessions s.leaf.exchanges (s.leaf.exchanges + 3) ∧
        ∃ request, requestOf body = some request ∧ request.method ≠ "initialize" ∧
          ∀ n state sid, state.leaves = s.leaf.state.leaves →
            (responseValue (host.dispatched n state request sid ctx).response).Exact
  | .meanwhile hosted => hosted.state.Open

/-- A request is answered, and was dispatched once. -/
def LinkEvent.Answered (s : SoleClient Hosted) (e : LinkEvent) : Prop :=
  ∀ body request, e = .send body → requestOf body = some request →
    ∃ response n state sid,
      (e.happen host cenv cl s).1 = some (.ok (responseValue response)) ∧
        DispatchedOnce host ctx request s (e.step host cenv cl s) response n state sid

variable {host cenv cl ctx}

/-- One event. -/
theorem LinkEvent.answered_step (h : host.Welcomes cenv cl ctx) (s : SoleClient Hosted)
    (e : LinkEvent) (hs : s.leaf.state.Open ∧ Sendable s.session) (hproper : e.Proper host ctx s) :
    e.Answered host cenv cl ctx s ∧
      (e.step host cenv cl s).leaf.state.Open ∧ Sendable (e.step host cenv cl s).session := by
  obtain ⟨hopen, hsend⟩ := hs
  cases e with
  | meanwhile hosted =>
      refine ⟨?_, hproper, hsend⟩
      intro body request he
      cases he
  | send body =>
      obtain ⟨hexact, hissues, request, hrequest, hmethod, hresponse⟩ := hproper
      obtain ⟨response, s', n, state, sid, hrun, honce⟩ :=
        run_sendRequest h hopen hsend hexact hrequest hmethod hissues hresponse
      have hhappen : LinkEvent.happen host cenv cl s (.send body)
          = (some (.ok (responseValue response)), s') := by
        show (some (Prog.run _ _ s).1, (Prog.run _ _ s).2) = _
        rw [hrun]
      have hstep : LinkEvent.step host cenv cl s (.send body) = s' := by
        rw [LinkEvent.step, hhappen]
      rw [hstep]
      refine ⟨?_, honce.unrestricted, honce.sendable⟩
      intro body' request' he hrequest'
      cases he
      obtain rfl : request = request' := Option.some_inj.mp (hrequest.symm.trans hrequest')
      refine ⟨response, n, state, sid, ?_, ?_⟩
      · rw [hhappen]
      · rw [hstep]
        exact honce

/--
**However the host loses its sessions, every request is dispatched exactly once**, and its
client is given the answer.
-/
theorem sends_dispatched_once (h : host.Welcomes cenv cl ctx) (s : SoleClient Hosted)
    (hopen : s.leaf.state.Open) (hsend : Sendable s.session) (events : List LinkEvent)
    (hproper : Runs.Along (LinkEvent.step host cenv cl) (fun s e => e.Proper host ctx s) s events) :
    Runs.Along (LinkEvent.step host cenv cl) (fun s e => e.Answered host cenv cl ctx s) s
      events :=
  Runs.along_of_inv (I := fun s => s.leaf.state.Open ∧ Sendable s.session)
    (LinkEvent.answered_step h) events s ⟨hopen, hsend⟩ hproper

end

/-! ### A host that restarts between two requests -/

/-- A federation that anyone may use, at the start of its clock. -/
def freeHost (server : ServerEnv) : Host where
  json := compactJson
  auth := ⟨none, none, []⟩
  env := fun _ => { sessionEnv 0 with server := server }
  tokenFile := fun _ => .error ""

theorem freeHost_welcomes (server : ServerEnv) {cl : LeafClient}
    (h : cl.resolveAuthToken compactEnv = none) :
    (freeHost server).Welcomes compactEnv cl .anonymous where
  json := compactJson_lawful
  token := fun t ht => by
    rw [h] at ht
    cases ht
  context := fun _ => by
    rw [h]
    rfl

theorem freeHost_issues (server : ServerEnv) {sessions : SessionManager}
    (httl : sessions.ttl = 10) (n m : Nat) : (freeHost server).Issues sessions n m := by
  have hclaims : sessions.newClaims (sessionEnv 0).now (sessionEnv 0).uuid none
      = SessionManager.tenSecondClaims := by
    unfold SessionManager.newClaims
    rw [httl]
    rfl
  refine ⟨fun _ _ => rfl, fun _ => ?_, fun _ => ?_, fun _ _ _ _ _ => ?_⟩
  · show (sessionEnv 0).jwt.Faithful sessions.key
      (sessions.newClaims (sessionEnv 0).now (sessionEnv 0).uuid none)
    rw [hclaims]
    rfl
  · show (HeaderValue.fromStr "token").isSome = true
    decide
  · show (sessionEnv 0).now.instant - (sessionEnv 0).now.instant < sessions.ttlNanos ∧
      (sessionEnv 0).now.unix.toNat ≤ ((sessionEnv 0).now.unix + sessions.ttl).toNat + jwtLeeway
    rw [SessionManager.ttlNanos, httl]
    decide

/-- A federation that has just been started with this key, and has answered `n` requests. -/
def restarted (leaves : Leaves) (key : List UInt8) (n : Nat) : Hosted where
  state := { FederationState.ofLeaves leaves with sessions := ⟨10, key, ∅⟩ }
  exchanges := n

def noLeaves : Leaves := ⟨Registry.empty, fun _ => {}⟩

def listResources : Value := LeafClient.rpcRequest 1 "resources/list" (.obj [])

theorem listResources_proper {s : SoleClient Hosted} (httl : s.leaf.state.sessions.ttl = 10)
    (hleaves : s.leaf.state.leaves = noLeaves) :
    (LinkEvent.send listResources).Proper (freeHost offline) .anonymous s := by
  refine ⟨exact_rpcRequest 1 "resources/list" exact_emptyObj, freeHost_issues offline httl _ _, _,
    requestOf_rpcRequest 1 "resources/list" (.obj []), by decide, ?_⟩
  intro n state sid h
  refine exact_responseValue (fun v hv => ?_) (fun v hv => ?_) fun e he => by cases he
  · cases hv
    exact .posInt _
  · cases hv
    rw [h, hleaves]
    refine Value.exact_obj fun member hmember => ?_
    obtain rfl := List.mem_singleton.mp hmember
    exact .array fun v hv => by cases hv

/-- The client comes with an old id, and the host restarts with another key. -/
theorem listed_across_restart :
    Runs.Along (LinkEvent.step (freeHost offline) compactEnv streamableClient)
      (fun s e => e.Answered (freeHost offline) compactEnv streamableClient .anonymous s)
      ⟨some "old", 1, restarted noLeaves [0] 0⟩
      [.send listResources, .meanwhile (restarted noLeaves [1] 9), .send listResources] := by
  refine sends_dispatched_once (freeHost_welcomes offline rfl) _ ⟨rfl, rfl⟩ ?_ _ ?_
  · intro id hid
    cases hid
    decide
  · exact ⟨listResources_proper rfl rfl, ⟨rfl, rfl⟩, listResources_proper rfl rfl, trivial⟩

end McpFederation
