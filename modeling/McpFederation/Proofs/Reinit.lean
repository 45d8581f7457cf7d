/-
Concurrent requests to a leaf that has lost the session.

A request that is answered 404, or 400 with no session id stored, runs the handshake and
tries once more.  The handshake clears the stored id before it asks for a new one, and the
cell is shared: between the moment one request has stored its new id and the moment its
second attempt reads the cell, another request may have cleared it again.  That attempt
then goes out without an id and fails.  The other way to fail is to be answered 400
because the cell was empty, and to find an id in it when looking again.

`allOk_iff` says that these two moments are the only ones that matter: every request of a
complete run succeeds exactly when no second attempt reads an empty cell and no refused
first attempt finds a full one.
-/
import McpFederation.Lib.Runs
import McpFederation.Model.LeafClient

namespace McpFederation

/-! ### The leaf -/

/-- A streamable-http leaf that keeps sessions.  It issues `idOf 0`, `idOf 1` and so on;
the other fields are the contents of its replies. -/
structure SessionLeaf where
  idOf : Nat → String
  handshake : HttpPost → HttpReply
  accepted : HttpPost → HttpReply
  refusal : HttpPost → ByteArray

/-- What the requests share: the client's session id and request counter, and which ids
the leaf takes. -/
structure ClientState where
  session : Option String
  nextId : UInt64
  valid : List String
  issued : Nat

/-- The request is an `initialize`. -/
def isInitialize (body : Value) : Bool := body.strAt "method" = some "initialize"

namespace SessionLeaf

variable (leaf : SessionLeaf)

/-- A refusal with the given status. -/
def refuse (p : HttpPost) (status : Nat) : HttpReply :=
  { status := status, body := .ok (leaf.refusal p) }

/-- One exchange: an `initialize` is given a fresh id, an id the leaf has issued is
accepted, another one is answered 404, and none at all 400. -/
def serve (p : HttpPost) (s : ClientState) : HttpReply × ClientState :=
  if isInitialize p.body then
    ({ leaf.handshake p with sessionId := some (leaf.idOf s.issued) },
      { s with valid := leaf.idOf s.issued :: s.valid, issued := s.issued + 1 })
  else
    match p.sessionId with
    | none => (leaf.refuse p 400, s)
    | some id => if id ∈ s.valid then (leaf.accepted p, s) else (leaf.refuse p 404, s)

/-- What one call of the client answers and does. -/
def exec : (c : ClientCall) → ClientState → c.Reply × ClientState
  | .nextRequestId, s => (s.nextId, { s with nextId := s.nextId + 1 })
  | .readSession, s => (s.session, s)
  | .writeSession id, s => ((), { s with session := id })
  | .post p, s => (.ok (leaf.serve p s).1, (leaf.serve p s).2)

/-- The leaf answers as the protocol has it: the handshake succeeds with a result, and an
accepted request succeeds, with its own session id in the reply or none. -/
structure Lawful (env : ClientEnv) : Prop where
  handshake_success : ∀ p, isSuccess (leaf.handshake p).status = true
  handshake_result : ∀ p, ∃ bytes result, (leaf.handshake p).body = .ok bytes ∧
    (LeafClient.decodeBody env (leaf.handshake p).contentType bytes).get? "result" = some result
  accepted_success : ∀ p, isSuccess (leaf.accepted p).status = true
  accepted_body : ∀ p, ∃ bytes, (leaf.accepted p).body = .ok bytes
  accepted_session : ∀ p id, (leaf.accepted p).sessionId = some id → p.sessionId = some id

end SessionLeaf

/-! ### The calls of a request -/

/-- What is left of a request: its calls, and its result. -/
abbrev ClientProg := Prog ClientCall ClientCall.Reply (Except FederationError Value)

namespace LeafClient

variable (env : ClientEnv) (cl : LeafClient)

/-- What `send_once` gives for a reply. -/
def received (reply : HttpReply) : Except FederationError (Nat × Value) :=
  match reply.body with
  | .error e => .error (.leafUnreachable cl.aliasName e)
  | .ok bytes => .ok (reply.status, decodeBody env reply.contentType bytes)

/-- From the reply on: store the session id it carries, then go on with `k`. -/
def afterPost (k : Except FederationError (Nat × Value) → ClientProg) :
    Except String HttpReply → ClientProg
  | .error e => k (.error (.leafUnreachable cl.aliasName e))
  | .ok reply =>
      match reply.sessionId with
      | some id => .call (.writeSession (some id)) fun _ => k (cl.received env reply)
      | none => k (cl.received env reply)

/-- From the POST on. -/
def posting (body : Value) (k : Except FederationError (Nat × Value) → ClientProg)
    (id : Option String) : ClientProg :=
  .call (.post (cl.postOf env body id)) (cl.afterPost env k)

/-- `send_once`, and then `k`. -/
def sending (body : Value) (k : Except FederationError (Nat × Value) → ClientProg) :
    ClientProg :=
  .call .readSession (cl.posting env body k)

/-- The second attempt, once the handshake is done. -/
def lastAttempt (body : Value) : ClientM Value := do
  let (retryStatus, retryValue) ← cl.sendOnce env body
  if isSuccess retryStatus then pure retryValue
  else
    throw (.leafError cl.aliasName
      ("leaf returned HTTP " ++ env.statusText retryStatus ++ " after session re-init"))

/-- What a request does with the answer to its first attempt. -/
def afterFirst (body : Value) (status : Nat) (value : Value) : ClientM Value := do
  if ← cl.needsRetry status then cl.retry env body
  else if isSuccess status then pure value
  else throw (.leafError cl.aliasName ("leaf returned HTTP " ++ env.statusText status))

/-- The continuations of the four uses of `send_once`. -/
def firstAnswer (body : Value) : Except FederationError (Nat × Value) → ClientProg
  | .error e => .ret (.error e)
  | .ok (status, value) => (cl.afterFirst env body status value).run

def initAnswer (body : Value) : Except FederationError (Nat × Value) → ClientProg
  | .error e => .ret (.error e)
  | .ok (status, response) =>
      ((cl.finishInitialize env status response) >>= fun _ => cl.lastAttempt env body).run

def lastAnswer : Except FederationError (Nat × Value) → ClientProg
  | .error e => .ret (.error e)
  | .ok (status, value) =>
      if isSuccess status then .ret (.ok value)
      else .ret (.error (.leafError cl.aliasName
        ("leaf returned HTTP " ++ env.statusText status ++ " after session re-init")))

variable {env cl}

theorem sendOnce_bind (hcl : cl.transport = .streamableHttp) (body : Value)
    (k : Except FederationError (Nat × Value) → ClientProg) :
    ((cl.sendOnce env body).run >>= k) = cl.sending env body k := by
  simp only [sendOnce, sessionForPost, hcl, if_true]
  show Prog.call _ _ = Prog.call _ _
  congr 1
  funext id
  show Prog.call _ _ = Prog.call _ _
  congr 1
  funext reply
  cases reply with
  | error e => rfl
  | ok reply =>
      obtain ⟨status, sessionId, contentType, replyBody⟩ := reply
      simp only [captureSession, hcl]
      cases sessionId <;> cases replyBody <;> rfl

theorem sendRequest_run (hcl : cl.transport = .streamableHttp) (body : Value) :
    (cl.sendRequest env body).run = cl.sending env body (cl.firstAnswer env body) := by
  rw [← sendOnce_bind hcl]
  show ((cl.sendOnce env body).run >>= _) = _
  congr 1
  funext answer
  cases answer <;> rfl

theorem lastAttempt_run (hcl : cl.transport = .streamableHttp) (body : Value) :
    (cl.lastAttempt env body).run = cl.sending env body (cl.lastAnswer env) := by
  rw [← sendOnce_bind hcl]
  show ((cl.sendOnce env body).run >>= _) = _
  congr 1
  funext answer
  rcases answer with e | ⟨status, value⟩
  · rfl
  · show ExceptT.run (if isSuccess status = true then _ else _) = _
    simp only [lastAnswer]
    split <;> rfl

/-- A request that needs the handshake: clear the cell, number the request, send it. -/
theorem retry_run (hcl : cl.transport = .streamableHttp) (body : Value) :
    (cl.retry env body).run
      = .call (.writeSession none) fun _ => .call .nextRequestId fun id =>
          cl.sending env (rpcRequest id "initialize" initializeParams)
            (cl.initAnswer env body) := by
  simp only [retry, initializeLeaf, clearSession, hcl, if_true]
  show Prog.call _ _ = Prog.call _ _
  congr 1
  funext u
  show Prog.call _ _ = Prog.call _ _
  congr 1
  funext id
  show ((cl.sendOnce env _ >>= fun answer => cl.finishInitialize env answer.1 answer.2) >>=
    fun _ => cl.lastAttempt env body).run = _
  rw [← sendOnce_bind hcl, ExceptT.run_bind, ExceptT.run_bind, bind_assoc]
  congr 1
  funext answer
  rcases answer with e | ⟨status, response⟩
  · rfl
  · rw [initAnswer, ExceptT.run_bind]

theorem initAnswer_success (hcl : cl.transport = .streamableHttp) (body : Value) {status : Nat}
    {response result : Value} (hstatus : isSuccess status = true)
    (hresult : response.get? "result" = some result) :
    cl.initAnswer env body (.ok (status, response))
      = cl.sending env initializedNotification fun _ =>
          cl.sending env body (cl.lastAnswer env) := by
  rw [← lastAttempt_run hcl, ← sendOnce_bind hcl]
  simp only [initAnswer, finishInitialize, hstatus, if_true, hresult, notifyInitialized,
    bind_assoc, pure_bind, ExceptT.run_bind_lift]

theorem afterFirst_notFound (hcl : cl.transport = .streamableHttp) (body value : Value) :
    (cl.afterFirst env body 404 value).run = (cl.retry env body).run := by
  simp only [afterFirst, needsRetry, hcl, if_true]
  rfl

/-- After a 400 the cell is read again. -/
theorem afterFirst_badRequest (hcl : cl.transport = .streamableHttp) (body value : Value) :
    (cl.afterFirst env body 400 value).run
      = .call .readSession fun id =>
          if id.isNone then (cl.retry env body).run
          else .ret (.error (.leafError cl.aliasName
            ("leaf returned HTTP " ++ env.statusText 400))) := by
  simp only [afterFirst, needsRetry, hcl, if_true]
  exact congrArg (Prog.call ClientCall.readSession) (funext fun id => by cases id <;> rfl)

theorem afterFirst_success (body value : Value) {status : Nat}
    (hstatus : isSuccess status = true) :
    (cl.afterFirst env body status value).run = .ret (.ok value) := by
  unfold afterFirst
  rw [cl.needsRetry_of_isSuccess hstatus, hstatus]
  rfl

end LeafClient

/-! ### Where a request can be -/

section

variable (env : ClientEnv) (cl : LeafClient)

/-- The cell is empty or has an id the leaf takes. -/
def ClientState.CellOk (s : ClientState) : Prop := ∀ id, s.session = some id → id ∈ s.valid

/--
Where a request with this body can be in the state `s`, as long as nothing has gone wrong.
From the moment it has cleared the cell, no id but an accepted one is ever stored again.
-/
inductive OnTrack (body : Value) (s : ClientState) : ClientProg → Prop
  | first : OnTrack body s (cl.sending env body (cl.firstAnswer env body))
  | firstPost (id : Option String) :
      OnTrack body s (cl.posting env body (cl.firstAnswer env body) id)
  | recheck (value : Value) : OnTrack body s (cl.afterFirst env body 400 value).run
  | clear : OnTrack body s (cl.retry env body).run
  | number (h : s.CellOk) : OnTrack body s (.call .nextRequestId fun id =>
      cl.sending env (LeafClient.rpcRequest id "initialize" LeafClient.initializeParams)
        (cl.initAnswer env body))
  | init (h : s.CellOk) (n : UInt64) : OnTrack body s
      (cl.sending env (LeafClient.rpcRequest n "initialize" LeafClient.initializeParams)
        (cl.initAnswer env body))
  | initPost (h : s.CellOk) (n : UInt64) (id : Option String) : OnTrack body s
      (cl.posting env (LeafClient.rpcRequest n "initialize" LeafClient.initializeParams)
        (cl.initAnswer env body) id)
  | store (h : s.CellOk) {id : String} (hid : id ∈ s.valid) : OnTrack body s
      (.call (.writeSession (some id)) fun _ =>
        cl.sending env LeafClient.initializedNotification fun _ =>
          cl.sending env body (cl.lastAnswer env))
  | notify (h : s.CellOk) : OnTrack body s
      (cl.sending env LeafClient.initializedNotification fun _ =>
        cl.sending env body (cl.lastAnswer env))
  | notifyPost (h : s.CellOk) (id : Option String) : OnTrack body s
      (cl.posting env LeafClient.initializedNotification
        (fun _ => cl.sending env body (cl.lastAnswer env)) id)
  | notifyStore (h : s.CellOk) {id : String} (hid : id ∈ s.valid) : OnTrack body s
      (.call (.writeSession (some id)) fun _ => cl.sending env body (cl.lastAnswer env))
  | last (h : s.CellOk) : OnTrack body s (cl.sending env body (cl.lastAnswer env))
  | lastPost {id : String} (hid : id ∈ s.valid) :
      OnTrack body s (cl.posting env body (cl.lastAnswer env) (some id))
  | okStore {id : String} (hid : id ∈ s.valid) (value : Value) :
      OnTrack body s (.call (.writeSession (some id)) fun _ => .ret (.ok value))
  | done (value : Value) : OnTrack body s (.ret (.ok value))

/-- The two moments at which a request can go wrong: its second attempt is about to read
the cell, or it was refused for want of an id and is about to look again. -/
def InTime (body : Value) (s : ClientState) (t : ClientProg) : Prop :=
  (t = (cl.lastAttempt env body).run → s.session ≠ none) ∧
    ∀ value, t = (cl.afterFirst env body 400 value).run → s.session = none

end

/-- A call that stores no id but an accepted one. -/
def ClientCall.Safe (s : ClientState) (c : ClientCall) : Prop :=
  ∀ id, c = .writeSession (some id) → id ∈ s.valid

section

variable {env : ClientEnv} {cl : LeafClient} {leaf : SessionLeaf} {body : Value}

theorem SessionLeaf.valid_subset_exec (c : ClientCall) (s : ClientState) :
    s.valid ⊆ (leaf.exec c s).2.valid := by
  cases c with
  | nextRequestId => exact fun _ h => h
  | readSession => exact fun _ h => h
  | writeSession id => exact fun _ h => h
  | post p =>
      simp only [SessionLeaf.exec, SessionLeaf.serve]
      split
      · exact List.subset_cons_self _ _
      · split
        · exact fun _ h => h
        · split <;> exact fun _ h => h

theorem SessionLeaf.session_serve (p : HttpPost) (s : ClientState) :
    (leaf.serve p s).2.session = s.session := by
  unfold SessionLeaf.serve
  split
  · rfl
  · split
    · rfl
    · split <;> rfl

theorem ClientState.CellOk.exec {s : ClientState} (h : s.CellOk) {c : ClientCall}
    (hc : c.Safe s) : (leaf.exec c s).2.CellOk := by
  cases c with
  | nextRequestId => exact h
  | readSession => exact h
  | writeSession stored =>
      intro id hid
      exact hc id (congrArg _ hid)
  | post p =>
      intro id hid
      have hold : s.session = some id := by
        rw [← hid]
        exact (SessionLeaf.session_serve p s).symm
      exact SessionLeaf.valid_subset_exec (.post p) s (h id hold)

/-- A safe call leaves every other request on track. -/
theorem OnTrack.other {s s' : ClientState} {t : ClientProg} (h : OnTrack env cl body s t)
    (hvalid : s.valid ⊆ s'.valid) (hcell : s.CellOk → s'.CellOk) :
    OnTrack env cl body s' t := by
  cases h with
  | first => exact .first
  | firstPost id => exact .firstPost id
  | recheck value => exact .recheck value
  | clear => exact .clear
  | number h => exact .number (hcell h)
  | init h n => exact .init (hcell h) n
  | initPost h n id => exact .initPost (hcell h) n id
  | store h hid => exact .store (hcell h) (hvalid hid)
  | notify h => exact .notify (hcell h)
  | notifyPost h id => exact .notifyPost (hcell h) id
  | notifyStore h hid => exact .notifyStore (hcell h) (hvalid hid)
  | last h => exact .last (hcell h)
  | lastPost hid => exact .lastPost (hvalid hid)
  | okStore hid value => exact .okStore (hvalid hid) value
  | done value => exact .done value

/-! ### What each exchange leads to -/

/-- An accepted request goes on with its answer, perhaps after storing its own id again. -/
theorem afterPost_accepted (cl : LeafClient) (hleaf : leaf.Lawful env) {p : HttpPost} {id : String}
    (hp : p.sessionId = some id) (k : Except FederationError (Nat × Value) → ClientProg) :
    ∃ status value, isSuccess status = true ∧
      (cl.afterPost env k (.ok (leaf.accepted p)) = k (.ok (status, value)) ∨
        cl.afterPost env k (.ok (leaf.accepted p))
          = .call (.writeSession (some id)) fun _ => k (.ok (status, value))) := by
  obtain ⟨bytes, hbytes⟩ := hleaf.accepted_body p
  refine ⟨_, LeafClient.decodeBody env (leaf.accepted p).contentType bytes,
    hleaf.accepted_success p, ?_⟩
  have hreceived : cl.received env (leaf.accepted p)
      = .ok ((leaf.accepted p).status,
          LeafClient.decodeBody env (leaf.accepted p).contentType bytes) := by
    simp only [LeafClient.received, hbytes]
  cases hsid : (leaf.accepted p).sessionId with
  | none => exact Or.inl (by simp only [LeafClient.afterPost, hsid, hreceived])
  | some id' =>
      have hid := hleaf.accepted_session p id' hsid
      rw [hp, Option.some.injEq] at hid
      subst hid
      exact Or.inr (by simp only [LeafClient.afterPost, hsid, hreceived])

theorem serve_accepted {p : HttpPost} {s : ClientState} {id : String}
    (hbody : isInitialize p.body = false) (hp : p.sessionId = some id) (hid : id ∈ s.valid) :
    leaf.serve p s = (leaf.accepted p, s) := by
  simp [SessionLeaf.serve, hbody, hp, hid]

theorem serve_expired {p : HttpPost} {s : ClientState} {id : String}
    (hbody : isInitialize p.body = false) (hp : p.sessionId = some id) (hid : id ∉ s.valid) :
    leaf.serve p s = (leaf.refuse p 404, s) := by
  simp [SessionLeaf.serve, hbody, hp, hid]

theorem serve_anonymous {p : HttpPost} {s : ClientState} (hbody : isInitialize p.body = false)
    (hp : p.sessionId = none) : leaf.serve p s = (leaf.refuse p 400, s) := by
  simp [SessionLeaf.serve, hbody, hp]

/-- A refusal goes straight on with its status. -/
theorem afterPost_refuse (p : HttpPost) (status : Nat)
    (k : Except FederationError (Nat × Value) → ClientProg) :
    cl.afterPost env k (.ok (leaf.refuse p status))
      = k (.ok (status, LeafClient.decodeBody env "" (leaf.refusal p))) := rfl

/-- The first attempt: answered, refused for want of an id, or sent to the handshake. -/
theorem OnTrack.firstReply (hcl : cl.transport = .streamableHttp) (hleaf : leaf.Lawful env)
    (hbody : isInitialize body = false) (s : ClientState) (id : Option String) :
    OnTrack env cl body (leaf.serve (cl.postOf env body id) s).2
      (cl.afterPost env (cl.firstAnswer env body)
        (.ok (leaf.serve (cl.postOf env body id) s).1)) := by
  cases id with
  | none =>
      rw [serve_anonymous hbody rfl, afterPost_refuse]
      exact .recheck _
  | some id =>
      by_cases hid : id ∈ s.valid
      · rw [serve_accepted hbody rfl hid]
        obtain ⟨status, value, hstatus, hnext⟩ := afterPost_accepted cl hleaf
          (p := cl.postOf env body (some id)) rfl (cl.firstAnswer env body)
        have hanswer : cl.firstAnswer env body (.ok (status, value)) = .ret (.ok value) :=
          LeafClient.afterFirst_success body value hstatus
        rcases hnext with hnext | hnext
        · rw [hnext, hanswer]
          exact .done value
        · rw [hnext, hanswer]
          exact .okStore hid value
      · rw [serve_expired hbody rfl hid, afterPost_refuse]
        show OnTrack env cl body s (cl.afterFirst env body 404 _).run
        rw [LeafClient.afterFirst_notFound hcl]
        exact .clear

/-- The notification: whatever becomes of it, the second attempt follows. -/
theorem OnTrack.notifyReply (hleaf : leaf.Lawful env) {s : ClientState} (h : s.CellOk)
    (id : Option String) :
    OnTrack env cl body (leaf.serve (cl.postOf env LeafClient.initializedNotification id) s).2
      (cl.afterPost env (fun _ => cl.sending env body (cl.lastAnswer env))
        (.ok (leaf.serve (cl.postOf env LeafClient.initializedNotification id) s).1)) := by
  have hbody : isInitialize LeafClient.initializedNotification = false := by decide
  cases id with
  | none =>
      rw [serve_anonymous hbody rfl, afterPost_refuse]
      exact .last h
  | some id =>
      by_cases hid : id ∈ s.valid
      · rw [serve_accepted hbody rfl hid]
        obtain ⟨status, value, -, hnext⟩ := afterPost_accepted cl hleaf
          (p := cl.postOf env LeafClient.initializedNotification (some id)) rfl
          (fun _ => cl.sending env body (cl.lastAnswer env))
        rcases hnext with hnext | hnext
        · rw [hnext]
          exact .last h
        · rw [hnext]
          exact .notifyStore h hid
      · rw [serve_expired hbody rfl hid, afterPost_refuse]
        exact .last h

/-- The second attempt with an accepted id. -/
theorem OnTrack.lastReply (hleaf : leaf.Lawful env) (hbody : isInitialize body = false)
    {s : ClientState} {id : String} (hid : id ∈ s.valid) :
    OnTrack env cl body (leaf.serve (cl.postOf env body (some id)) s).2
      (cl.afterPost env (cl.lastAnswer env)
        (.ok (leaf.serve (cl.postOf env body (some id)) s).1)) := by
  rw [serve_accepted hbody rfl hid]
  obtain ⟨status, value, hstatus, hnext⟩ := afterPost_accepted cl hleaf
    (p := cl.postOf env body (some id)) rfl (cl.lastAnswer env)
  have hanswer : cl.lastAnswer env (.ok (status, value)) = .ret (.ok value) := by
    simp only [LeafClient.lastAnswer, hstatus, if_true]
  rcases hnext with hnext | hnext
  · rw [hnext, hanswer]
    exact .done value
  · rw [hnext, hanswer]
    exact .okStore hid value

/-- The handshake: the leaf issues an id, and the notification follows once it is stored. -/
theorem OnTrack.initReply (hcl : cl.transport = .streamableHttp) (hleaf : leaf.Lawful env)
    {s : ClientState} (h : s.CellOk) (n : UInt64) (id : Option String) :
    OnTrack env cl body
      (leaf.serve (cl.postOf env
        (LeafClient.rpcRequest n "initialize" LeafClient.initializeParams) id) s).2
      (cl.afterPost env (cl.initAnswer env body)
        (.ok (leaf.serve (cl.postOf env
          (LeafClient.rpcRequest n "initialize" LeafClient.initializeParams) id) s).1)) := by
  have hinit : isInitialize (LeafClient.rpcRequest n "initialize" LeafClient.initializeParams)
      = true := by
    simp [isInitialize, LeafClient.rpcRequest, Value.obj, Value.strAt, Value.get?, Value.asStr]
  generalize hp : cl.postOf env
    (LeafClient.rpcRequest n "initialize" LeafClient.initializeParams) id = p
  have hpbody : isInitialize p.body = true := by
    rw [← hp]
    exact hinit
  obtain ⟨bytes, result, hbytes, hresult⟩ := hleaf.handshake_result p
  have hserve : leaf.serve p s
      = ({ leaf.handshake p with sessionId := some (leaf.idOf s.issued) },
          { s with valid := leaf.idOf s.issued :: s.valid, issued := s.issued + 1 }) := by
    simp only [SessionLeaf.serve, hpbody, if_true]
  have hreceived : cl.received env { leaf.handshake p with sessionId := some (leaf.idOf s.issued) }
      = .ok ((leaf.handshake p).status,
          LeafClient.decodeBody env (leaf.handshake p).contentType bytes) := by
    simp only [LeafClient.received, hbytes]
  rw [hserve]
  simp only [LeafClient.afterPost, hreceived,
    LeafClient.initAnswer_success hcl body (hleaf.handshake_success p) hresult]
  refine .store ?_ List.mem_cons_self
  intro id hid
  exact List.mem_cons_of_mem _ (h id hid)

/-- **One call keeps a request on track**, if it comes in time, and stores no id that the
leaf would refuse. -/
theorem OnTrack.step (hcl : cl.transport = .streamableHttp) (hleaf : leaf.Lawful env)
    (hbody : isInitialize body = false) {s : ClientState} {t : ClientProg}
    (h : OnTrack env cl body s t) (htime : InTime env cl body s t) {c : ClientCall}
    {k : c.Reply → ClientProg} (ht : t = .call c k) :
    c.Safe s ∧ OnTrack env cl body (leaf.exec c s).2 (k (leaf.exec c s).1) := by
  cases h with
  | first =>
      cases ht
      exact ⟨by simp [ClientCall.Safe], .firstPost _⟩
  | firstPost id =>
      cases ht
      exact ⟨by simp [ClientCall.Safe], OnTrack.firstReply hcl hleaf hbody s id⟩
  | recheck value =>
      have hnone := htime.2 value rfl
      rw [LeafClient.afterFirst_badRequest hcl] at ht
      cases ht
      refine ⟨by simp [ClientCall.Safe], ?_⟩
      simp only [SessionLeaf.exec, hnone, Option.isNone_none, if_true]
      exact .clear
  | clear =>
      rw [LeafClient.retry_run hcl] at ht
      cases ht
      exact ⟨by simp [ClientCall.Safe], .number (by simp [ClientState.CellOk, SessionLeaf.exec])⟩
  | number h =>
      cases ht
      exact ⟨by simp [ClientCall.Safe], .init (h.exec (by simp [ClientCall.Safe])) _⟩
  | init h n =>
      cases ht
      exact ⟨by simp [ClientCall.Safe], .initPost h n _⟩
  | initPost h n id =>
      cases ht
      exact ⟨by simp [ClientCall.Safe], OnTrack.initReply hcl hleaf h n id⟩
  | @store h id hid =>
      cases ht
      have hsafe : (ClientCall.writeSession (some id)).Safe s := by
        simpa [ClientCall.Safe] using hid
      exact ⟨hsafe, .notify (h.exec hsafe)⟩
  | notify h =>
      cases ht
      exact ⟨by simp [ClientCall.Safe], .notifyPost h _⟩
  | notifyPost h id =>
      cases ht
      exact ⟨by simp [ClientCall.Safe], OnTrack.notifyReply hleaf h id⟩
  | @notifyStore h id hid =>
      cases ht
      have hsafe : (ClientCall.writeSession (some id)).Safe s := by
        simpa [ClientCall.Safe] using hid
      exact ⟨hsafe, .last (h.exec hsafe)⟩
  | last h =>
      have hsome := htime.1 (LeafClient.lastAttempt_run hcl body).symm
      obtain ⟨id, hid⟩ := Option.ne_none_iff_exists'.mp hsome
      cases ht
      refine ⟨by simp [ClientCall.Safe], ?_⟩
      simp only [SessionLeaf.exec, hid]
      exact .lastPost (h id hid)
  | lastPost hid =>
      cases ht
      exact ⟨by simp [ClientCall.Safe], OnTrack.lastReply hleaf hbody hid⟩
  | @okStore id hid value =>
      cases ht
      exact ⟨by simpa [ClientCall.Safe] using hid, .done value⟩
  | done value => cases ht

/-- A request that is on track and has come to an answer has succeeded. -/
theorem OnTrack.ok_of_result (hcl : cl.transport = .streamableHttp) {s : ClientState}
    {t : ClientProg} (h : OnTrack env cl body s t) (hdone : t.result?.isSome = true) :
    ∃ value, t = .ret (.ok value) := by
  cases h with
  | done value => exact ⟨value, rfl⟩
  | recheck value => simp [LeafClient.afterFirst_badRequest hcl, Prog.result?] at hdone
  | clear => simp [LeafClient.retry_run hcl, Prog.result?] at hdone
  | _ => simp [LeafClient.sending, LeafClient.posting, Prog.result?] at hdone

/-! ### A request that comes too late -/

/-- A request that can only fail: it goes out without an id for the second time, or has
failed. -/
inductive Failing (env : ClientEnv) (cl : LeafClient) (body : Value) : ClientProg → Prop
  | lastPost : Failing env cl body (cl.posting env body (cl.lastAnswer env) none)
  | failed (e : FederationError) : Failing env cl body (.ret (.error e))

theorem Failing.next (hbody : isInitialize body = false) (c : ClientCall)
    (k : c.Reply → ClientProg) (s : ClientState) (h : Failing env cl body (.call c k)) :
    Failing env cl body (k (leaf.exec c s).1) := by
  generalize ht : Prog.call c k = t at h
  cases h with
  | lastPost =>
      cases ht
      simp only [SessionLeaf.exec]
      rw [serve_anonymous hbody rfl, afterPost_refuse]
      exact .failed _
  | failed e => cases ht

/-- A step out of time leads to failure. -/
theorem failing_of_not_inTime (leaf : SessionLeaf) (hcl : cl.transport = .streamableHttp)
    {s : ClientState} {t : ClientProg} (h : ¬ InTime env cl body s t) :
    ∃ c k, t = .call c k ∧ Failing env cl body (k (leaf.exec c s).1) := by
  unfold InTime at h
  rw [not_and_or] at h
  rcases h with h | h
  · rw [Classical.not_imp, not_not] at h
    obtain ⟨rfl, hnone⟩ := h
    refine ⟨_, _, LeafClient.lastAttempt_run hcl body, ?_⟩
    simp only [SessionLeaf.exec, hnone]
    exact .lastPost
  · simp only [not_forall] at h
    obtain ⟨value, rfl, hsome⟩ := h
    obtain ⟨id, hid⟩ := Option.ne_none_iff_exists'.mp hsome
    refine ⟨_, _, LeafClient.afterFirst_badRequest hcl body value, ?_⟩
    simp only [SessionLeaf.exec, hid]
    exact .failed _

end

/-! ### Any number of requests at once -/

abbrev RequestPool (ι : Type) :=
  Pool ι ClientCall ClientCall.Reply (Except FederationError Value) ClientState

/-- Requests that share one client, none of which has begun. -/
def requests {ι : Type} (env : ClientEnv) (cl : LeafClient) (s : ClientState)
    (bodies : ι → Value) : RequestPool ι where
  shared := s
  threads := fun i => (cl.sendRequest env (bodies i)).run

/-- Every request has returned `Ok`. -/
def AllOk {ι : Type} (p : RequestPool ι) : Prop := ∀ i, ∃ value, p.threads i = .ret (.ok value)

/-- The request whose turn it is takes it in time. -/
def TurnInTime {ι : Type} (env : ClientEnv) (cl : LeafClient) (bodies : ι → Value)
    (p : RequestPool ι) (i : ι) : Prop :=
  InTime env cl (bodies i) p.shared (p.threads i)

section

variable {ι : Type} [DecidableEq ι] {env : ClientEnv} {cl : LeafClient} {leaf : SessionLeaf}
  {bodies : ι → Value}

variable (leaf) in
/-- One lock access or exchange of request `i`. -/
def turn (p : RequestPool ι) (i : ι) : RequestPool ι := p.step leaf.exec (.inl i)

/-- A turn in time keeps everybody on track. -/
theorem onTrack_turn (hcl : cl.transport = .streamableHttp) (hleaf : leaf.Lawful env)
    (hbodies : ∀ i, isInitialize (bodies i) = false) (p : RequestPool ι) (i : ι)
    (h : ∀ j, OnTrack env cl (bodies j) p.shared (p.threads j))
    (htime : TurnInTime env cl bodies p i) (j : ι) :
    OnTrack env cl (bodies j) (turn leaf p i).shared ((turn leaf p i).threads j) := by
  unfold turn
  cases hi : p.threads i with
  | ret answer =>
      rw [Pool.step_ret leaf.exec hi]
      exact h j
  | call c k =>
      obtain ⟨hsafe, hnext⟩ := (h i).step hcl hleaf (hbodies i) htime hi
      by_cases hji : j = i
      · subst hji
        rw [Pool.threads_step_self leaf.exec hi, Pool.step_call leaf.exec hi]
        exact hnext
      · rw [Pool.threads_step_of_ne leaf.exec hji, Pool.step_call leaf.exec hi]
        exact (h j).other (SessionLeaf.valid_subset_exec c p.shared) fun hc => hc.exec hsafe

/-- If everybody succeeds in the end, nobody's turn ever came too late. -/
theorem inTime_of_allOk (hcl : cl.transport = .streamableHttp)
    (hbodies : ∀ i, isInitialize (bodies i) = false) (schedule : List ι) :
    ∀ p : RequestPool ι, AllOk (Runs.run (turn leaf) p schedule) →
      Runs.Along (turn leaf) (TurnInTime env cl bodies) p schedule := by
  induction schedule with
  | nil => intro p _; trivial
  | cons i rest ih =>
      intro p hok
      refine ⟨?_, ih _ hok⟩
      by_contra hlate
      -- From here on the request can only fail, whatever the others do.
      obtain ⟨c, k, hi, hfailing⟩ := failing_of_not_inTime leaf hcl hlate
      rw [← Pool.threads_step_self leaf.exec hi] at hfailing
      have hend : Failing env cl (bodies i)
          ((Runs.run (turn leaf) (turn leaf p i) rest).threads i) :=
        Runs.inv_run (I := fun q => Failing env cl (bodies i) (q.threads i))
          (G := fun _ _ => True)
          (fun q j hq _ => Pool.threads_step_inv leaf.exec (Failing.next (hbodies i)) hq (.inl j))
          rest (turn leaf p i) hfailing (Runs.along_of_forall fun _ _ _ => trivial)
      obtain ⟨value, hvalue⟩ := hok i
      rw [Runs.run_cons] at hvalue
      rw [hvalue] at hend
      cases hend

/--
**When every request of a complete run succeeds.**  Any number of `send_request` calls
share one client of a leaf that keeps sessions, in any state and in any order of their
lock accesses and exchanges.  All return `Ok` exactly when no second attempt reads the
cell while it is empty, and no first attempt that was refused for want of an id finds one
when it looks again.
-/
theorem allOk_iff (hcl : cl.transport = .streamableHttp) (hleaf : leaf.Lawful env)
    (s : ClientState) (bodies : ι → Value) (hbodies : ∀ i, isInitialize (bodies i) = false)
    (schedule : List ι)
    (hfin : (Runs.run (turn leaf) (requests env cl s bodies) schedule).Finished) :
    AllOk (Runs.run (turn leaf) (requests env cl s bodies) schedule) ↔
      Runs.Along (turn leaf) (TurnInTime env cl bodies) (requests env cl s bodies) schedule := by
  refine ⟨inTime_of_allOk hcl hbodies schedule _, fun htime i => ?_⟩
  have hstart : ∀ j, OnTrack env cl (bodies j) (requests env cl s bodies).shared
      ((requests env cl s bodies).threads j) := by
    intro j
    show OnTrack env cl (bodies j) s (cl.sendRequest env (bodies j)).run
    rw [LeafClient.sendRequest_run hcl]
    exact .first
  have hend := Runs.inv_run (G := TurnInTime env cl bodies)
    (I := fun p => ∀ j, OnTrack env cl (bodies j) p.shared (p.threads j))
    (onTrack_turn hcl hleaf hbodies) schedule _ hstart htime i
  have hdone := hfin i
  generalize (Runs.run (turn leaf) (requests env cl s bodies) schedule).threads i = t at *
  exact hend.ok_of_result hcl hdone

end

/-! ### Two requests with an expired id -/

/-- The body of every success, a JSON object with an empty `result`. -/
def emptyResult : ByteArray :=
  ⟨#[0x7b, 0x22, 0x72, 0x65, 0x73, 0x75, 0x6c, 0x74, 0x22, 0x3a, 0x7b, 0x7d, 0x7d]⟩

/-- A client's environment that knows how to decode it. -/
def plainEnv : ClientEnv where
  readFile := fun _ => .error "not found"
  jsonFromSlice := fun bytes => if bytes.size = 0 then none else some (.obj [("result", .obj [])])
  statusText := fun status => if status = 400 then "400 Bad Request" else "404 Not Found"

/-- A leaf that issues `x`, `xx` and so on, and refuses with an empty body. -/
def plainLeaf : SessionLeaf where
  idOf := fun n => String.ofList (List.replicate (n + 1) 'x')
  handshake := fun _ =>
    { status := 200, contentType := "application/json", body := .ok emptyResult }
  accepted := fun _ =>
    { status := 200, contentType := "application/json", body := .ok emptyResult }
  refusal := fun _ => ByteArray.empty

theorem decodeBody_emptyResult :
    (LeafClient.decodeBody plainEnv "application/json" emptyResult).get? "result"
      = some (.obj []) := by
  have htype : Text.startsWith "text/event-stream" "application/json" = false := by decide
  have hsize : emptyResult.size ≠ 0 := by decide
  have hjson : plainEnv.jsonFromSlice emptyResult = some (.obj [("result", .obj [])]) := by
    simp only [plainEnv, hsize, if_false]
  rw [LeafClient.decodeBody, htype, hjson]
  rfl

theorem plainLeaf_lawful : plainLeaf.Lawful plainEnv where
  handshake_success := fun _ => rfl
  handshake_result := fun _ => ⟨emptyResult, .obj [], rfl, decodeBody_emptyResult⟩
  accepted_success := fun _ => rfl
  accepted_body := fun _ => ⟨emptyResult, rfl⟩
  accepted_session := fun _ _ h => by simp [plainLeaf] at h

def streamableClient : LeafClient :=
  LeafClient.new { aliasName := "wiki", url := "http://wiki/mcp", transport := .streamableHttp }

/-- The client's id has expired: the leaf takes none. -/
def expired : ClientState := ⟨some "old", 1, [], 0⟩

def listBodies (_ : Bool) : Value := LeafClient.rpcRequest 1 "tools/list" (.obj [])

theorem listBodies_ne_initialize : ∀ i, isInitialize (listBodies i) = false := by decide

/-- One request after the other: the first runs the handshake, the second uses its id. -/
theorem expired_in_turn :
    AllOk (Runs.run (turn plainLeaf) (requests plainEnv streamableClient expired listBodies)
        (List.replicate 11 false ++ List.replicate 2 true)) ∧
      Runs.Along (turn plainLeaf) (TurnInTime plainEnv streamableClient listBodies)
        (requests plainEnv streamableClient expired listBodies)
        (List.replicate 11 false ++ List.replicate 2 true) := by
  have hok : AllOk (Runs.run (turn plainLeaf)
      (requests plainEnv streamableClient expired listBodies)
      (List.replicate 11 false ++ List.replicate 2 true)) := by
    intro i
    cases i <;> exact ⟨_, rfl⟩
  refine ⟨hok, (allOk_iff rfl plainLeaf_lawful expired listBodies listBodies_ne_initialize _
    ?_).mp hok⟩
  intro i
  obtain ⟨value, hvalue⟩ := hok i
  rw [hvalue]
  rfl

/-- Both are answered 404.  The first has stored its new id and sent the notification when
the second clears the cell, so the first goes out again without an id and fails. -/
theorem expired_interleaved :
    "old" ∉ expired.valid ∧
      (Runs.run (turn plainLeaf) (requests plainEnv streamableClient expired listBodies)
        ([false, true, false, true] ++ List.replicate 7 false ++ [true] ++ [false, false]
          ++ List.replicate 8 true)).Finished ∧
      ¬ AllOk (Runs.run (turn plainLeaf) (requests plainEnv streamableClient expired listBodies)
        ([false, true, false, true] ++ List.replicate 7 false ++ [true] ++ [false, false]
          ++ List.replicate 8 true)) := by
  have hfails : ∃ e, (Runs.run (turn plainLeaf)
      (requests plainEnv streamableClient expired listBodies)
      ([false, true, false, true] ++ List.replicate 7 false ++ [true] ++ [false, false]
        ++ List.replicate 8 true)).threads false = .ret (.error e) := ⟨_, rfl⟩
  refine ⟨by decide, fun i => by cases i <;> rfl, fun hok => ?_⟩
  obtain ⟨e, he⟩ := hfails
  obtain ⟨value, hvalue⟩ := hok false
  rw [he] at hvalue
  simp at hvalue

end McpFederation
