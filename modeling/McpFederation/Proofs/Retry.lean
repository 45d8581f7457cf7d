/-
One request to a leaf, alone on its client.

`send_request` POSTs its body; on the streamable-http transport it takes a 404, or a 400
while it has no session id, for a session that is gone, shakes hands again and POSTs the
body once more.  The handshake sends two messages through the same `send_once`, and that
changes the session id on which the retry depends.  A call with side effects must not be
made twice without cause: `sendRequest_law` says what is POSTed, in which order and after
which replies, for a leaf that answers anything at all.
-/
import McpFederation.Proofs.Replies

namespace McpFederation

/-! ### A client alone with its leaf -/

/-- The client's session id and request counter, and whatever the leaf remembers. -/
structure SoleClient (σ : Type) where
  session : Option String
  nextId : UInt64
  leaf : σ

/-- A POST's body and what it was answered. -/
abbrev Posted := Value × PostReply

section

variable {σ : Type} (reply : HttpPost → σ → PostReply × σ)

/-- What one call answers and does, if `reply` is how the leaf behaves. -/
def SoleClient.exec : (c : ClientCall) → SoleClient σ → c.Reply × SoleClient σ
  | .nextRequestId, s => (s.nextId, { s with nextId := s.nextId + 1 })
  | .readSession, s => (s.session, s)
  | .writeSession id, s => ((), { s with session := id })
  | .post p, s => ((reply p s.leaf).1, { s with leaf := (reply p s.leaf).2 })

/-- A call, if it is a POST. -/
def ClientCall.posted : (c : ClientCall) → c.Reply → Option Posted
  | .post p, r => some (p.body, r)
  | _, _ => none

/-- The POSTs of a run, in order. -/
def ClientM.posts {α : Type} (p : ClientM α) (s : SoleClient σ) : List Posted :=
  (p.run.trace (SoleClient.exec reply) s).filterMap fun e => e.1.posted e.2

/-- Client code begun at `s` makes the POSTs `posts`, gives `r` and leaves `s'`. -/
structure Exchanges {α : Type} (p : ClientM α) (s : SoleClient σ) (posts : List Posted)
    (r : Except FederationError α) (s' : SoleClient σ) : Prop where
  posts : p.posts reply s = posts
  run : p.run.run (SoleClient.exec reply) s = (r, s')

variable {reply} {α β : Type} {s s' s'' : SoleClient σ} {posts posts' : List Posted}

theorem Exchanges.bind {p : ClientM α} {f : α → ClientM β} {a : α}
    {r : Except FederationError β} (hp : Exchanges reply p s posts (.ok a) s')
    (hf : Exchanges reply (f a) s' posts' r s'') :
    Exchanges reply (p >>= f) s (posts ++ posts') r s'' := by
  refine ⟨?_, ?_⟩
  · show List.filterMap _ ((p.run >>= ExceptT.bindCont f).trace _ s) = _
    rw [Prog.trace_bind, List.filterMap_append, hp.run]
    exact congrArg₂ _ hp.posts hf.posts
  · show (p.run >>= ExceptT.bindCont f).run _ s = _
    rw [Prog.run_bind, hp.run]
    exact hf.run

theorem Exchanges.bind_error {p : ClientM α} {f : α → ClientM β} {e : FederationError}
    (hp : Exchanges reply p s posts (.error e) s') :
    Exchanges reply (p >>= f) s posts (.error e) s' := by
  refine ⟨?_, ?_⟩
  · show List.filterMap _ ((p.run >>= ExceptT.bindCont f).trace _ s) = _
    rw [Prog.trace_bind, List.filterMap_append, hp.run]
    exact (List.append_nil _).trans hp.posts
  · show (p.run >>= ExceptT.bindCont f).run _ s = _
    rw [Prog.run_bind, hp.run]
    rfl

/-- A failure that is only looked at. -/
theorem Exchanges.lift {p : ClientM α} {r : Except FederationError α}
    (hp : Exchanges reply p s posts r s') :
    Exchanges reply (ExceptT.lift p.run) s posts (.ok r) s' := by
  refine ⟨?_, ?_⟩
  · show List.filterMap _ ((p.run >>= fun r => Prog.ret (Except.ok r)).trace _ s) = _
    rw [Prog.trace_bind, List.filterMap_append]
    exact (List.append_nil _).trans hp.posts
  · show (p.run >>= fun r => Prog.ret (Except.ok r)).run _ s = _
    rw [Prog.run_bind, hp.run]
    rfl

theorem exchanges_pure (a : α) : Exchanges reply (pure a) s [] (.ok a) s := ⟨rfl, rfl⟩

theorem exchanges_throw (e : FederationError) :
    Exchanges reply (throw e : ClientM α) s [] (.error e) s := ⟨rfl, rfl⟩

end

/-- What has a status is a reply. -/
theorem PostReply.eq_ok_of_parsed {env : ClientEnv} {r : PostReply} {status : Nat} {value : Value}
    (h : parsed env r = some (status, value)) : ∃ reply, r = .ok reply ∧ reply.status = status := by
  cases r with
  | error e => cases h
  | ok reply =>
      refine ⟨reply, rfl, ?_⟩
      unfold parsed at h
      dsimp only at h
      cases hbody : reply.body with
      | error e => rw [hbody] at h; cases h
      | ok bytes =>
          rw [hbody] at h
          exact (Prod.mk.inj (Option.some.inj h)).1

namespace LeafClient

variable {σ : Type} (reply : HttpPost → σ → PostReply × σ) (env : ClientEnv) (cl : LeafClient)

/-- The session id that is stored after a reply. -/
def storedAfter (session : Option String) : PostReply → Option String
  | .error _ => session
  | .ok reply => if cl.transport = .streamableHttp then reply.sessionId.or session else session

theorem exchanges_sessionForPost (s : SoleClient σ) :
    ∃ id, Exchanges reply cl.sessionForPost s [] (.ok id) s := by
  unfold sessionForPost
  split
  · exact ⟨s.session, rfl, rfl⟩
  · exact ⟨none, rfl, rfl⟩

theorem exchanges_captureSession (r : HttpReply) (s : SoleClient σ) :
    ∃ s', Exchanges reply (cl.captureSession r) s [] (.ok ()) s' ∧
      s'.session = cl.storedAfter s.session (.ok r) := by
  unfold captureSession storedAfter
  cases htransport : cl.transport with
  | streamableHttp =>
      cases hid : r.sessionId with
      | some id => exact ⟨{ s with session := some id }, ⟨rfl, rfl⟩, by simp [hid]⟩
      | none => exact ⟨s, ⟨rfl, rfl⟩, by simp [hid]⟩
  | httpPost => exact ⟨s, ⟨rfl, rfl⟩, by simp⟩

theorem exchanges_finishReply (r : HttpReply) (s : SoleClient σ) :
    ∃ result, Exchanges reply (cl.finishReply env r) s [] result s ∧
      result.toOption = PostReply.parsed env (.ok r) := by
  unfold finishReply PostReply.parsed
  cases hbody : r.body with
  | error e =>
      exact ⟨_, exchanges_throw (.leafUnreachable cl.aliasName e), by simp only [hbody]; rfl⟩
  | ok bytes =>
      exact ⟨_, exchanges_pure (r.status, decodeBody env r.contentType bytes),
        by simp only [hbody]; rfl⟩

/-- `send_once` POSTs its body once, and gives what the reply says. -/
theorem exchanges_sendOnce (body : Value) (s : SoleClient σ) :
    ∃ r result s', Exchanges reply (cl.sendOnce env body) s [(body, r)] result s' ∧
      result.toOption = PostReply.parsed env r ∧ s'.session = cl.storedAfter s.session r := by
  obtain ⟨id, hid⟩ := exchanges_sessionForPost reply cl s
  have hpost : Exchanges reply (ClientM.perform (.post (cl.postOf env body id))) s
      [(body, (reply (cl.postOf env body id) s.leaf).1)]
      (.ok (reply (cl.postOf env body id) s.leaf).1)
      { s with leaf := (reply (cl.postOf env body id) s.leaf).2 } := ⟨rfl, rfl⟩
  unfold sendOnce
  cases hreply : (reply (cl.postOf env body id) s.leaf).1 with
  | error e =>
      rw [hreply] at hpost
      exact ⟨.error e, _, _, hid.bind (hpost.bind (exchanges_throw _)), rfl, rfl⟩
  | ok r =>
      rw [hreply] at hpost
      obtain ⟨s', hcapture, hsession⟩ := exchanges_captureSession reply cl r
        { s with leaf := (reply (cl.postOf env body id) s.leaf).2 }
      obtain ⟨result, hfinish, hresult⟩ := exchanges_finishReply reply env cl r s'
      exact ⟨.ok r, result, s', hid.bind (hpost.bind (hcapture.bind hfinish)), hresult, hsession⟩

theorem exchanges_clearSession (s : SoleClient σ) :
    ∃ s', Exchanges reply cl.clearSession s [] (.ok ()) s' := by
  unfold clearSession
  split
  · exact ⟨{ s with session := none }, rfl, rfl⟩
  · exact ⟨s, rfl, rfl⟩

theorem exchanges_notifyInitialized (s : SoleClient σ) :
    ∃ r s', Exchanges reply (cl.notifyInitialized env) s [(initializedNotification, r)]
      (.ok ()) s' := by
  obtain ⟨r, result, s', hsend, -⟩ := exchanges_sendOnce reply env cl initializedNotification s
  exact ⟨r, s', hsend.lift.bind (exchanges_pure ())⟩

/-- The body of an `initialize` request. -/
def initializeRequest (id : UInt64) : Value := rpcRequest id "initialize" initializeParams

theorem exchanges_finishInitialize (status : Nat) (response : Value) (s : SoleClient σ) :
    (∃ e, Exchanges reply (cl.finishInitialize env status response) s [] (.error e) s) ∨
      isSuccess status = true ∧ ∃ r result s', Exchanges reply
          (cl.finishInitialize env status response) s [(initializedNotification, r)] result s' ∧
        ∀ v, result = .ok v → response.get? "result" = some v := by
  unfold finishInitialize
  by_cases hok : isSuccess status = true
  · right
    rw [if_pos hok]
    obtain ⟨r, s', hnotify⟩ := exchanges_notifyInitialized reply env cl s
    refine ⟨hok, r, ?_⟩
    cases hresult : response.get? "result" with
    | some result =>
        exact ⟨_, s', hnotify.bind (exchanges_pure result), fun v hv => by cases hv; rfl⟩
    | none => exact ⟨_, s', hnotify.bind (exchanges_throw _), fun v hv => by cases hv⟩
  · left
    rw [if_neg hok]
    exact ⟨_, exchanges_throw _⟩

/-- A handshake ends at a reply that is no success, or else goes on to its notification; it
succeeds only with the `result` of the reply. -/
theorem exchanges_initializeLeaf (s : SoleClient σ) :
    ∃ id r, (∃ e s', Exchanges reply (cl.initializeLeaf env) s [(initializeRequest id, r)]
        (.error e) s') ∨
      ∃ r' result s', Exchanges reply (cl.initializeLeaf env) s
          [(initializeRequest id, r), (initializedNotification, r')] result s' ∧
        ∀ v, result = .ok v →
          ∃ w, PostReply.response env r = some w ∧ w.get? "result" = some v := by
  obtain ⟨s₁, hclear⟩ := exchanges_clearSession reply cl s
  have hid : Exchanges reply (ClientM.perform .nextRequestId) s₁ [] (.ok s₁.nextId)
      { s₁ with nextId := s₁.nextId + 1 } := ⟨rfl, rfl⟩
  obtain ⟨r, result, s₂, hsend, hresult, -⟩ :=
    exchanges_sendOnce reply env cl (initializeRequest s₁.nextId)
      { s₁ with nextId := s₁.nextId + 1 }
  refine ⟨s₁.nextId, r, ?_⟩
  unfold initializeLeaf
  cases result with
  | error e => exact Or.inl ⟨e, s₂, hclear.bind (hid.bind hsend.bind_error)⟩
  | ok sr =>
      obtain ⟨status, response⟩ := sr
      rcases exchanges_finishInitialize reply env cl status response s₂ with ⟨e, hfinish⟩ | hfinish
      · exact Or.inl ⟨e, s₂, hclear.bind (hid.bind (hsend.bind hfinish))⟩
      · obtain ⟨hok, r', result, s₃, hfinish, hvalue⟩ := hfinish
        have hresponse : PostReply.response env r = some response := by
          rw [PostReply.response_of_parsed hresult.symm, if_pos hok]
        exact Or.inr ⟨r', result, s₃, hclear.bind (hid.bind (hsend.bind hfinish)),
          fun v hv => ⟨response, hresponse, hvalue v hv⟩⟩

/-- The reply after which a request is made again: a 404, or a 400 that leaves the client
without a session id. -/
def SessionLost (session : Option String) (r : PostReply) : Prop :=
  cl.transport = .streamableHttp ∧ ∃ reply, r = .ok reply ∧
    (reply.status = 404 ∨ reply.status = 400 ∧ cl.storedAfter session r = none)

theorem exchanges_needsRetry (status : Nat) (s : SoleClient σ) :
    ∃ b, Exchanges reply (cl.needsRetry status) s [] (.ok b) s ∧
      (b = true → cl.transport = .streamableHttp ∧
        (status = 404 ∨ status = 400 ∧ s.session = none)) := by
  unfold needsRetry
  split
  · next hcl =>
      split
      · next h => exact ⟨true, exchanges_pure true, fun _ => ⟨hcl, Or.inl h⟩⟩
      · split
        · next h =>
            exact ⟨s.session.isNone, ⟨rfl, rfl⟩, fun hnone =>
              ⟨hcl, Or.inr ⟨h, Option.isNone_iff_eq_none.mp hnone⟩⟩⟩
        · exact ⟨false, exchanges_pure false, fun h => by cases h⟩
  · exact ⟨false, exchanges_pure false, fun h => by cases h⟩

/-- What a request ends in, by the reply to its last POST. -/
theorem exchanges_byStatus {r : PostReply} {status : Nat} {value : Value} (e : FederationError)
    (h : PostReply.parsed env r = some (status, value)) (s : SoleClient σ) :
    ∃ result, Exchanges reply (if isSuccess status then pure value else throw e) s [] result s ∧
      ∀ v, result = .ok v → PostReply.response env r = some v := by
  have hresponse := PostReply.response_of_parsed h
  split
  · next hok =>
      refine ⟨_, exchanges_pure value, fun v hv => ?_⟩
      rw [hresponse, if_pos hok]
      cases hv
      rfl
  · next hok => exact ⟨_, exchanges_throw e, fun v hv => by cases hv⟩

/-- The reply to an `initialize` is a success with a `result`. -/
def HandshakeOk (r : PostReply) : Prop :=
  ∃ v result, PostReply.response env r = some v ∧ v.get? "result" = some result

/-- The second attempt goes as far as the handshake, or POSTs the body after a handshake that
succeeded. -/
theorem exchanges_retry (body : Value) (s : SoleClient σ) :
    ∃ id r posts result s', Exchanges reply (cl.retry env body) s
        ((initializeRequest id, r) :: posts) result s' ∧
      ((∃ e, result = .error e) ∧ (posts = [] ∨ ∃ r', posts = [(initializedNotification, r')]) ∨
        ∃ r' r'', posts = [(initializedNotification, r'), (body, r'')] ∧ HandshakeOk env r ∧
          ∀ v, result = .ok v → PostReply.response env r'' = some v) := by
  obtain ⟨id, r, hinit⟩ := exchanges_initializeLeaf reply env cl s
  refine ⟨id, r, ?_⟩
  unfold retry
  rcases hinit with ⟨e, s', hinit⟩ | ⟨r', result, s', hinit, hvalue⟩
  · exact ⟨[], .error e, s', hinit.bind_error, Or.inl ⟨⟨e, rfl⟩, Or.inl rfl⟩⟩
  · cases result with
    | error e =>
        exact ⟨_, .error e, s', hinit.bind_error, Or.inl ⟨⟨e, rfl⟩, Or.inr ⟨r', rfl⟩⟩⟩
    | ok v =>
        obtain ⟨w, hw, hresult⟩ := hvalue v rfl
        have hok : HandshakeOk env r := ⟨w, v, hw, hresult⟩
        obtain ⟨r'', again, s'', hsend, hagain, -⟩ := exchanges_sendOnce reply env cl body s'
        cases again with
        | error e =>
            exact ⟨_, .error e, s'', hinit.bind hsend.bind_error,
              Or.inr ⟨r', r'', rfl, hok, fun v hv => by cases hv⟩⟩
        | ok sv =>
            obtain ⟨status, value⟩ := sv
            obtain ⟨result, hend, hresponse⟩ := exchanges_byStatus reply env
              (.leafError cl.aliasName
                ("leaf returned HTTP " ++ env.statusText status ++ " after session re-init"))
              hagain.symm s''
            exact ⟨_, result, s'', hinit.bind (hsend.bind hend),
              Or.inr ⟨r', r'', rfl, hok, hresponse⟩⟩

end LeafClient

/-! ### The law -/

/-- What one request POSTs, and what it gives. -/
structure RetryLaw (env : ClientEnv) (cl : LeafClient) (body : Value) (session : Option String)
    (posts : List Posted) (result : Except FederationError Value) : Prop where
  /-- The body first; then at most one handshake, and the body once more. -/
  order : posts ≠ [] ∧ ∃ id, posts.map Prod.fst <+:
    [body, LeafClient.initializeRequest id, LeafClient.initializedNotification, body]
  /-- Nothing follows the first reply unless the session is gone. -/
  again : ∀ first more, posts = first :: more → more ≠ [] → cl.SessionLost session first.2
  /-- The body goes out again only if the handshake succeeded with a result. -/
  handshake : ∀ first init notified last, posts = [first, init, notified, last] →
    LeafClient.HandshakeOk env init.2
  /-- A value is the decoded body of a success, and that was the reply to the last POST, of the
  body. -/
  value : ∀ v, result = .ok v → (posts.length = 1 ∨ posts.length = 4) ∧
    ∃ r, posts.getLast? = some (body, r) ∧ PostReply.response env r = some v

section

variable {env : ClientEnv} {cl : LeafClient} {body : Value} {session : Option String}

/-- One POST. -/
theorem RetryLaw.once {r : PostReply} {result : Except FederationError Value}
    (hvalue : ∀ v, result = .ok v → PostReply.response env r = some v) :
    RetryLaw env cl body session [(body, r)] result where
  order := ⟨by simp, 0, by simp⟩
  again := by
    intro first more h hmore
    exact absurd (List.cons.inj h).2.symm hmore
  handshake := by
    intro first init notified last h
    simp at h
  value := fun v hv => ⟨Or.inl rfl, r, rfl, hvalue v hv⟩

/-- A POST whose reply says that the session is gone, and then the second attempt. -/
theorem RetryLaw.twice {r r' : PostReply} {id : UInt64} {posts : List Posted}
    {result : Except FederationError Value} (hlost : cl.SessionLost session r)
    (hretry : (∃ e, result = .error e) ∧
        (posts = [] ∨ ∃ r'', posts = [(LeafClient.initializedNotification, r'')]) ∨
      ∃ r'' r''', posts = [(LeafClient.initializedNotification, r''), (body, r''')] ∧
        LeafClient.HandshakeOk env r' ∧
          ∀ v, result = .ok v → PostReply.response env r''' = some v) :
    RetryLaw env cl body session ((body, r) :: (LeafClient.initializeRequest id, r') :: posts)
      result where
  order := by
    refine ⟨by simp, id, ?_⟩
    rcases hretry with ⟨-, rfl | ⟨r'', rfl⟩⟩ | ⟨r'', r''', rfl, -⟩ <;> simp
  again := by
    intro first more h _
    rw [← (List.cons.inj h).1]
    exact hlost
  handshake := by
    intro first init notified last h
    rcases hretry with ⟨-, rfl | ⟨r'', rfl⟩⟩ | ⟨r'', r''', rfl, hok, -⟩
    · simp at h
    · simp at h
    · obtain ⟨-, h⟩ := List.cons.inj h
      rw [← (List.cons.inj h).1]
      exact hok
  value := by
    intro v hv
    rcases hretry with ⟨⟨e, rfl⟩, -⟩ | ⟨r'', r''', rfl, -, hvalue⟩
    · cases hv
    · exact ⟨Or.inr rfl, r''', rfl, hvalue v hv⟩

end

/--
**The retry protocol.**  However the leaf answers, one `send_request` alone on its client
keeps to the law.
-/
theorem sendRequest_law {σ : Type} (reply : HttpPost → σ → PostReply × σ) (env : ClientEnv)
    (cl : LeafClient) (body : Value) (s : SoleClient σ) :
    RetryLaw env cl body s.session ((cl.sendRequest env body).posts reply s)
      ((cl.sendRequest env body).run.run (SoleClient.exec reply) s).1 := by
  -- What has been found out about the exchange is what the law is about.
  have hlaw : ∀ {posts result s'}, Exchanges reply (cl.sendRequest env body) s posts result s' →
      RetryLaw env cl body s.session posts result →
      RetryLaw env cl body s.session ((cl.sendRequest env body).posts reply s)
        ((cl.sendRequest env body).run.run (SoleClient.exec reply) s).1 := by
    intro posts result s' hex h
    rw [hex.posts, hex.run]
    exact h
  obtain ⟨r, result, s₁, hsend, hparsed, hstored⟩ :=
    LeafClient.exchanges_sendOnce reply env cl body s
  cases result with
  | error e => exact hlaw hsend.bind_error (RetryLaw.once fun v hv => by cases hv)
  | ok sv =>
      obtain ⟨status, value⟩ := sv
      obtain ⟨b, hneeds, hlost⟩ := LeafClient.exchanges_needsRetry reply cl status s₁
      cases b with
      | false =>
          obtain ⟨result, hend, hvalue⟩ := LeafClient.exchanges_byStatus reply env
            (.leafError cl.aliasName ("leaf returned HTTP " ++ env.statusText status))
            hparsed.symm s₁
          exact hlaw (hsend.bind (hneeds.bind hend)) (RetryLaw.once hvalue)
      | true =>
          obtain ⟨id, r', posts, result, s', hretry, hcases⟩ :=
            LeafClient.exchanges_retry reply env cl body s₁
          refine hlaw (hsend.bind (hneeds.bind hretry)) (RetryLaw.twice ?_ hcases)
          obtain ⟨hcl, hstatus⟩ := hlost rfl
          rw [hstored] at hstatus
          obtain ⟨answer, rfl, rfl⟩ := PostReply.eq_ok_of_parsed hparsed.symm
          exact ⟨hcl, answer, rfl, hstatus⟩

end McpFederation
