/-
What a leaf contributes, and how it was brought in.

A leaf that answers every request, and always alike, can come into the registry by six
ways: at startup, by a reload, over REST, by DNS, by a Kubernetes object, or by being down
at startup and found up again by its monitor.  What is cached for it afterwards should not
depend on the way.

It does.  Only the task of `initialize_all` fetches resources and prompts, and of the
others only three keep the leaf's `serverInfo`.  `catalogue_final` says what each way
leaves in the cells, and `paths_agree_iff` reads off when they agree.

The client's code is run here against the leaf, request by request.  Since the replies are
fixed, what a client program ends in does not depend on the session or the counter, and
`Answers` has one rule for each way the code is put together; `Does` is the same for the
tasks, with what they do to the cells.
-/
import McpFederation.Model.Health

namespace McpFederation

/-! ### A leaf with fixed replies -/

/-- The method of a JSON-RPC message. -/
def methodOf (body : Value) : String := (body.strAt "method").getD ""

/-- How a leaf answers: each method, and the health check. -/
structure LeafBehaviour where
  reply : String → Except String HttpReply
  healthz : Except String Unit := .ok ()

/-- The cells of a client, as `LeafClient::new` makes them. -/
structure ClientCells where
  session : Option String := none
  nextId : UInt64 := 1

/-- An entry and its client, with the clock. -/
structure LeafWorld where
  client : ClientCells := {}
  cells : LeafCells := {}
  clock : Nat := 0

namespace LeafBehaviour

variable (leaf : LeafBehaviour)

/-- What one call of the client answers and does. -/
def execClient : (c : ClientCall) → ClientCells → c.Reply × ClientCells
  | .nextRequestId, s => (s.nextId, { s with nextId := s.nextId + 1 })
  | .readSession, s => (s.session, s)
  | .writeSession id, s => ((), { s with session := id })
  | .post p, s => (leaf.reply (methodOf p.body), s)

/-- What one call of a task answers and does. -/
def exec : (c : LeafCall) → LeafWorld → c.Reply × LeafWorld
  | .client c, w =>
      ((leaf.execClient c w.client).1, { w with client := (leaf.execClient c w.client).2 })
  | .getOk _, w => (leaf.healthz, w)
  | .now, w => (w.clock, { w with clock := w.clock + 1 })
  | .readCells, w => (w.cells, w)
  | .updateCells f, w => (f w.cells, { w with cells := f w.cells })

theorem exec_getOk (url : String) (w : LeafWorld) :
    leaf.exec (.getOk url) w = (leaf.healthz, w) := rfl

variable (env : ClientEnv) (cl : LeafClient)

/-- What `send_once` gives for a request with this method. -/
def answer (method : String) : Except FederationError (Nat × Value) :=
  match leaf.reply method with
  | .error e => .error (.leafUnreachable cl.aliasName e)
  | .ok reply =>
      match reply.body with
      | .error e => .error (.leafUnreachable cl.aliasName e)
      | .ok bytes => .ok (reply.status, LeafClient.decodeBody env reply.contentType bytes)

/-- What `initialize` gives. -/
def initialized : Except FederationError Value :=
  match leaf.answer env cl "initialize" with
  | .error e => .error e
  | .ok (status, response) =>
      if isSuccess status then
        match response.get? "result" with
        | some result => .ok result
        | none => .error (.leafError cl.aliasName "initialize response missing 'result'")
      else
        .error (.leafError cl.aliasName ("initialize returned HTTP " ++ env.statusText status))

/-- The list in a reply, as the list methods read it. -/
def items (method key : String) : List Value :=
  match leaf.answer env cl method with
  | .error _ => []
  | .ok (_, response) =>
      (((response.get? "result").bind (·.get? key)).bind Value.asArray).getD []

/-- The `serverInfo` of the `initialize` result. -/
def serverInfo : Option Value :=
  match leaf.initialized env cl with
  | .error _ => none
  | .ok result => result.get? "serverInfo"

/-- The leaf answers a list method with success. -/
def Lists (method : String) : Prop :=
  ∃ status response, leaf.answer env cl method = .ok (status, response) ∧ isSuccess status = true

/-- Every request succeeds. -/
structure Up : Prop where
  init : ∃ result, leaf.initialized env cl = .ok result
  tools : leaf.Lists env cl "tools/list"
  resources : leaf.Lists env cl "resources/list"
  prompts : leaf.Lists env cl "prompts/list"
  healthz : leaf.healthz = .ok ()

/-- The handshake fails, and so does the health check. -/
structure Down : Prop where
  init : ∃ e, leaf.initialized env cl = .error e
  healthz : ∃ e, leaf.healthz = .error e

end LeafBehaviour

/-! ### Client programs -/

/-- From every state of the client, the program ends in `r`. -/
def Answers {α : Type} (leaf : LeafBehaviour) (p : ClientM α) (r : Except FederationError α) :
    Prop :=
  ∀ s, (p.run.run leaf.execClient s).1 = r

/-- From every state of the client, the program ends in a value. -/
def Returns {α : Type} (leaf : LeafBehaviour) (p : ClientM α) : Prop :=
  ∀ s, ∃ a, (p.run.run leaf.execClient s).1 = .ok a

section

variable {leaf : LeafBehaviour} {α β : Type}

theorem run_bind_ok {p : ClientM α} {f : α → ClientM β} {s : ClientCells} {a : α}
    (h : (p.run.run leaf.execClient s).1 = .ok a) :
    (p >>= f).run.run leaf.execClient s
      = (f a).run.run leaf.execClient (p.run.run leaf.execClient s).2 := by
  show (p.run >>= ExceptT.bindCont f).run leaf.execClient s = _
  rw [Prog.run_bind, h]
  rfl

theorem answers_pure (a : α) : Answers leaf (pure a) (.ok a) := fun _ => rfl

theorem answers_throw (e : FederationError) : Answers leaf (throw e : ClientM α) (.error e) :=
  fun _ => rfl

theorem answers_post (p : HttpPost) :
    Answers leaf (ClientM.perform (.post p)) (.ok (leaf.reply (methodOf p.body))) :=
  fun _ => rfl

theorem returns_perform (c : ClientCall) : Returns leaf (ClientM.perform c) :=
  fun _ => ⟨_, rfl⟩

theorem returns_pure (a : α) : Returns leaf (pure a : ClientM α) := fun _ => ⟨a, rfl⟩

theorem Answers.bind_ok {p : ClientM α} {f : α → ClientM β} {a : α}
    {r : Except FederationError β} (hp : Answers leaf p (.ok a)) (hf : Answers leaf (f a) r) :
    Answers leaf (p >>= f) r := by
  intro s
  rw [run_bind_ok (hp s)]
  exact hf _

theorem Answers.bind_error {p : ClientM α} {f : α → ClientM β} {e : FederationError}
    (hp : Answers leaf p (.error e)) : Answers leaf (p >>= f) (.error e) := by
  intro s
  show ((p.run >>= ExceptT.bindCont f).run leaf.execClient s).1 = _
  rw [Prog.run_bind, hp s]
  rfl

/-- The value of a step that returns may depend on the client's state; what follows may not. -/
theorem Returns.bind {p : ClientM α} {f : α → ClientM β} {r : Except FederationError β}
    (hp : Returns leaf p) (hf : ∀ a, Answers leaf (f a) r) : Answers leaf (p >>= f) r := by
  intro s
  obtain ⟨a, ha⟩ := hp s
  rw [run_bind_ok ha]
  exact hf a _

end

namespace LeafClient

variable {env : ClientEnv} {cl : LeafClient} {leaf : LeafBehaviour}

theorem returns_sessionForPost : Returns leaf cl.sessionForPost := by
  unfold sessionForPost
  split
  · exact returns_perform _
  · exact returns_pure _

theorem returns_captureSession (reply : HttpReply) : Returns leaf (cl.captureSession reply) := by
  unfold captureSession
  split
  · exact returns_perform _
  · exact returns_pure _

theorem returns_clearSession : Returns leaf cl.clearSession := by
  unfold clearSession
  split
  · exact returns_perform _
  · exact returns_pure _

theorem answers_sendOnce (env : ClientEnv) (cl : LeafClient) (leaf : LeafBehaviour)
    (body : Value) :
    Answers leaf (cl.sendOnce env body) (leaf.answer env cl (methodOf body)) := by
  unfold sendOnce LeafBehaviour.answer
  refine returns_sessionForPost.bind fun sessionId => ?_
  refine (answers_post (cl.postOf env body sessionId)).bind_ok ?_
  simp only [postOf]
  cases leaf.reply (methodOf body) with
  | error e => exact answers_throw _
  | ok reply =>
      refine (returns_captureSession reply).bind fun _ => ?_
      unfold finishReply
      dsimp only
      cases reply.body with
      | error e => exact answers_throw _
      | ok bytes => exact answers_pure _

/-- The notification is sent for its own sake. -/
theorem returns_notifyInitialized : Returns leaf (cl.notifyInitialized env) := by
  intro s
  refine ⟨(), ?_⟩
  simp [notifyInitialized, Except.map]

theorem methodOf_rpcRequest (id : UInt64) (method : String) (params : Value) :
    methodOf (rpcRequest id method params) = method := by
  simp [methodOf, rpcRequest, Value.obj, Value.strAt, Value.get?, Value.asStr]

theorem answers_initializeLeaf (env : ClientEnv) (cl : LeafClient) (leaf : LeafBehaviour) :
    Answers leaf (cl.initializeLeaf env) (leaf.initialized env cl) := by
  unfold initializeLeaf LeafBehaviour.initialized
  refine returns_clearSession.bind fun _ => ?_
  refine (returns_perform _).bind fun id => ?_
  have hsend := answers_sendOnce env cl leaf (rpcRequest id "initialize" initializeParams)
  rw [methodOf_rpcRequest] at hsend
  cases hanswer : leaf.answer env cl "initialize" with
  | error e =>
      rw [hanswer] at hsend
      exact hsend.bind_error
  | ok sr =>
      obtain ⟨status, response⟩ := sr
      rw [hanswer] at hsend
      refine hsend.bind_ok ?_
      unfold finishInitialize
      simp only
      split
      · refine returns_notifyInitialized.bind fun _ => ?_
        cases response.get? "result" with
        | some result => exact answers_pure _
        | none => exact answers_throw _
      · exact answers_throw _

theorem answers_sendRequest {body : Value} {status : Nat} {response : Value}
    (h : leaf.answer env cl (methodOf body) = .ok (status, response))
    (hok : isSuccess status = true) : Answers leaf (cl.sendRequest env body) (.ok response) := by
  unfold sendRequest
  have hsend := answers_sendOnce env cl leaf body
  rw [h] at hsend
  refine hsend.bind_ok ?_
  simp only [cl.needsRetry_of_isSuccess hok, hok, if_true]
  exact (answers_pure false).bind_ok (answers_pure response)

theorem answers_listItems {method key : String} (h : leaf.Lists env cl method) :
    Answers leaf (cl.listItems env method key) (.ok (leaf.items env cl method key)) := by
  obtain ⟨status, response, hanswer, hok⟩ := h
  unfold listItems
  refine (returns_perform _).bind fun id => ?_
  have hanswer' : leaf.answer env cl (methodOf (rpcRequest id method (.obj [])))
      = .ok (status, response) := by
    rw [methodOf_rpcRequest]
    exact hanswer
  refine (answers_sendRequest hanswer' hok).bind_ok ?_
  rw [LeafBehaviour.items, hanswer]
  exact answers_pure _

end LeafClient

/-! ### Tasks -/

/-- What of the cells is published, printed or routed by. -/
structure Catalogue where
  health : LeafHealth := .unknown
  tools : List Value := []
  resources : List Value := []
  prompts : List Value := []
  serverInfo : Option Value := none

def LeafCells.catalogue (c : LeafCells) : Catalogue where
  health := c.health
  tools := c.cachedTools
  resources := c.cachedResources
  prompts := c.cachedPrompts
  serverInfo := c.serverInfo

/-- From every state, the task ends in `a` and does `f` to the catalogue. -/
def Does {α : Type} (leaf : LeafBehaviour) (p : LeafM α) (a : α) (f : Catalogue → Catalogue) :
    Prop :=
  ∀ w, (p.run leaf.exec w).1 = a ∧ (p.run leaf.exec w).2.cells.catalogue = f w.cells.catalogue

section

variable {leaf : LeafBehaviour} {α β : Type}

theorem does_pure (a : α) : Does leaf (pure a) a id := fun _ => ⟨rfl, rfl⟩

theorem Does.bind {p : LeafM α} {k : α → LeafM β} {a : α} {b : β}
    {f g r : Catalogue → Catalogue} (hp : Does leaf p a f) (hk : Does leaf (k a) b g)
    (h : ∀ c, g (f c) = r c) : Does leaf (p >>= k) b r := by
  intro w
  rw [Prog.run_bind, (hp w).1]
  refine ⟨(hk _).1, ?_⟩
  rw [(hk _).2, (hp w).2, h]

/-- A client program, and then what follows on its answer. -/
theorem does_ask_bind {p : ClientM α} {r : Except FederationError α}
    {k : Except FederationError α → LeafM β} {b : β} {f : Catalogue → Catalogue}
    (h : Answers leaf p r) (hk : Does leaf (k r) b f) : Does leaf (LeafM.ask p >>= k) b f := by
  intro w
  have hrun := Prog.run_interp leaf.execClient leaf.exec (fun c => Prog.perform (LeafCall.client c))
    LeafWorld.client (fun w s => { w with client := s }) (fun _ _ => rfl) (fun _ => rfl)
    (fun _ _ _ => rfl) (fun _ _ => rfl) p.run w
  rw [Prog.run_bind, LeafM.ask, hrun, h]
  exact hk _

/-- The answer may be dropped. -/
theorem Does.drop {p : LeafM α} {a : α} {f : Catalogue → Catalogue} (h : Does leaf p a f) :
    Does leaf (do let _ ← p) () f :=
  h.bind (does_pure ()) fun _ => rfl

theorem does_now {k : Nat → LeafM α} {a : α} {f : Catalogue → Catalogue}
    (h : ∀ t, Does leaf (k t) a f) : Does leaf (LeafM.now >>= k) a f :=
  fun w => h w.clock { w with clock := w.clock + 1 }

theorem does_updateCells {f : LeafCells → LeafCells} {g : Catalogue → Catalogue}
    (h : ∀ c, (f c).catalogue = g c.catalogue) : Does leaf (LeafM.updateCells f) () g :=
  fun w => ⟨rfl, h w.cells⟩

theorem does_markHealthy :
    Does leaf LeafM.markHealthy () fun c => { c with health := .healthy } :=
  does_now fun _ => does_updateCells fun _ => rfl

theorem does_markUnhealthy :
    Does leaf LeafM.markUnhealthy () fun c => { c with health := .unhealthy } :=
  does_now fun _ => does_updateCells fun _ => rfl

variable {env : ClientEnv} {cl : LeafClient}

/-- A list the leaf answers is stored. -/
theorem does_fetchInto {method key : String} {store : List Value → LeafM Unit}
    {f : Catalogue → Catalogue} (h : leaf.Lists env cl method)
    (hstore : Does leaf (store (leaf.items env cl method key)) () f) :
    Does leaf (fetchInto (cl.listItems env method key) store) () f := by
  unfold fetchInto
  exact does_ask_bind (LeafClient.answers_listItems h) hstore

theorem does_fetchTools (h : leaf.Lists env cl "tools/list") :
    Does leaf (fetchTools env cl) () fun c =>
      { c with tools := leaf.items env cl "tools/list" "tools" } :=
  does_fetchInto h (does_now fun _ => does_updateCells fun _ => rfl)

theorem does_fetchResources (h : leaf.Lists env cl "resources/list") :
    Does leaf (fetchResources env cl) () fun c =>
      { c with resources := leaf.items env cl "resources/list" "resources" } :=
  does_fetchInto h (does_updateCells fun _ => rfl)

theorem does_fetchPrompts (h : leaf.Lists env cl "prompts/list") :
    Does leaf (fetchPrompts env cl) () fun c =>
      { c with prompts := leaf.items env cl "prompts/list" "prompts" } :=
  does_fetchInto h (does_updateCells fun _ => rfl)

theorem does_keepServerInfo (result : Value) :
    Does leaf (keepServerInfo result) () fun c =>
      { c with serverInfo := (result.get? "serverInfo").or c.serverInfo } := by
  unfold keepServerInfo
  cases result.get? "serverInfo" with
  | some info => exact does_updateCells fun _ => rfl
  | none => exact does_pure ()

/-- A warm-up whose handshake succeeds. -/
theorem does_warmUp (afterInit : Value → LeafM Unit) {result : Value}
    {f : Catalogue → Catalogue} (hinit : leaf.initialized env cl = .ok result)
    (h : Does leaf (afterInit result) () f) :
    Does leaf (warmUp env cl afterInit) true fun c => f { c with health := .healthy } := by
  have hanswers := LeafClient.answers_initializeLeaf env cl leaf
  rw [hinit] at hanswers
  refine does_ask_bind hanswers ?_
  refine Does.bind (g := f) does_markHealthy ?_ fun _ => rfl
  exact h.bind (does_pure true) fun _ => rfl

/-- A warm-up whose handshake fails. -/
theorem does_warmUp_error (afterInit : Value → LeafM Unit) {e : FederationError}
    (hinit : leaf.initialized env cl = .error e) :
    Does leaf (warmUp env cl afterInit) false fun c => { c with health := .unhealthy } := by
  have hanswers := LeafClient.answers_initializeLeaf env cl leaf
  rw [hinit] at hanswers
  refine does_ask_bind hanswers ?_
  exact does_markUnhealthy.bind (does_pure false) fun _ => rfl

theorem run_healthCheck (w : LeafWorld) :
    cl.healthCheck.run leaf.exec w
      = (leaf.healthz.mapError fun e => .leafUnreachable cl.aliasName e, w) := by
  rw [LeafClient.healthCheck, Prog.perform_bind, Prog.run_call, LeafBehaviour.exec_getOk]
  cases leaf.healthz <;> rfl

/-- A round that finds an unhealthy leaf up again. -/
theorem monitorRound_recovers (hup : leaf.Up env cl) (config : HealthCheckConfig) {w : LeafWorld}
    (hw : w.cells.health = .unhealthy) :
    ((monitorRound env cl config).run leaf.exec w).2.cells.catalogue
      = { w.cells.catalogue with
          health := .healthy
          tools := leaf.items env cl "tools/list" "tools" } := by
  have hunhealthy : (!w.cells.isHealthy) = true := by simp [LeafCells.isHealthy, hw]
  have hrest : Does leaf (LeafM.markHealthy >>= fun _ => fetchTools env cl) () fun c =>
      { c with health := .healthy, tools := leaf.items env cl "tools/list" "tools" } :=
    does_markHealthy.bind (does_fetchTools hup.tools) fun _ => rfl
  rw [monitorRound, Prog.run_bind, run_healthCheck, hup.healthz]
  show ((LeafM.markHealthy >>= fun _ =>
    if !w.cells.isHealthy then fetchTools env cl else pure ()).run leaf.exec w).2.cells.catalogue
      = _
  rw [if_pos hunhealthy]
  exact (hrest w).2

/-- A round that fails changes nothing that is published of an unhealthy leaf. -/
theorem monitorRound_fails {e : String} (hdown : leaf.healthz = .error e)
    (config : HealthCheckConfig) {w : LeafWorld} (hw : w.cells.health = .unhealthy) :
    ((monitorRound env cl config).run leaf.exec w).2.cells.catalogue = w.cells.catalogue := by
  rw [monitorRound, Prog.run_bind, run_healthCheck, hdown]
  show ((if max config.failureThreshold 1 ≤ (w.cells.recordFailure w.clock).consecutiveFailures
    then LeafM.updateCells fun c => { c with health := .unhealthy } else pure ()).run leaf.exec
      { w with clock := w.clock + 1, cells := w.cells.recordFailure w.clock }).2.cells.catalogue
      = _
  split
  · show { w.cells.catalogue with health := .unhealthy } = w.cells.catalogue
    rw [← hw]
    rfl
  · rfl

end

/-! ### The six ways -/

/-- A leaf that is down at startup and for some rounds of its monitor. -/
structure Outage (env : ClientEnv) (cl : LeafClient) where
  leaf : LeafBehaviour
  down : leaf.Down env cl
  rounds : Nat

/-- How a leaf is brought in. -/
inductive Path (env : ClientEnv) (cl : LeafClient) where
  | startup
  | reload
  | rest
  | dns
  | crd
  | recovery (outage : Outage env cl) (config : HealthCheckConfig)

section

variable {env : ClientEnv} {cl : LeafClient} {leaf : LeafBehaviour}

/-- The entry when the outage is over. -/
def Outage.after (outage : Outage env cl) (config : HealthCheckConfig) : LeafWorld :=
  (fun w => ((monitorRound env cl config).run outage.leaf.exec w).2)^[outage.rounds]
    ((initializeAllTask env cl).run outage.leaf.exec {}).2

/-- The entry once the leaf has been brought in. -/
def Path.final (leaf : LeafBehaviour) : Path env cl → LeafWorld
  | .startup => ((initializeAllTask env cl).run leaf.exec {}).2
  | .reload => ((reloadTask env cl).run leaf.exec {}).2
  | .rest => ((registerTask env cl).run leaf.exec {}).2
  | .dns => ((dnsTask env cl).run leaf.exec {}).2
  | .crd => ((crdTask env cl).run leaf.exec {}).2
  | .recovery outage config => ((monitorRound env cl config).run leaf.exec (outage.after config)).2

/-- What each way leaves of the leaf's answers. -/
def Path.catalogue (leaf : LeafBehaviour) : Path env cl → Catalogue
  | .startup =>
      { health := .healthy
        tools := leaf.items env cl "tools/list" "tools"
        resources := leaf.items env cl "resources/list" "resources"
        prompts := leaf.items env cl "prompts/list" "prompts"
        serverInfo := leaf.serverInfo env cl }
  | .reload | .recovery _ _ =>
      { health := .healthy, tools := leaf.items env cl "tools/list" "tools" }
  | .rest | .dns | .crd =>
      { health := .healthy
        tools := leaf.items env cl "tools/list" "tools"
        serverInfo := leaf.serverInfo env cl }

theorem does_keepInfoAndTools (hup : leaf.Up env cl) (result : Value) :
    Does leaf (keepInfoAndTools env cl result) () fun c =>
      { c with
        tools := leaf.items env cl "tools/list" "tools"
        serverInfo := (result.get? "serverInfo").or c.serverInfo } :=
  (does_keepServerInfo result).bind (does_fetchTools hup.tools) fun _ => rfl

theorem does_keepEverything (hup : leaf.Up env cl) (result : Value) :
    Does leaf (keepEverything env cl result) () fun c =>
      { c with
        tools := leaf.items env cl "tools/list" "tools"
        resources := leaf.items env cl "resources/list" "resources"
        prompts := leaf.items env cl "prompts/list" "prompts"
        serverInfo := (result.get? "serverInfo").or c.serverInfo } := by
  have hlast : Does leaf (do fetchResources env cl; fetchPrompts env cl) () fun c =>
      { c with
        resources := leaf.items env cl "resources/list" "resources"
        prompts := leaf.items env cl "prompts/list" "prompts" } :=
    (does_fetchResources hup.resources).bind (does_fetchPrompts hup.prompts) fun _ => rfl
  have hlists : Does leaf (do fetchTools env cl; fetchResources env cl; fetchPrompts env cl) ()
      fun c =>
        { c with
          tools := leaf.items env cl "tools/list" "tools"
          resources := leaf.items env cl "resources/list" "resources"
          prompts := leaf.items env cl "prompts/list" "prompts" } :=
    (does_fetchTools hup.tools).bind hlast fun _ => rfl
  exact (does_keepServerInfo result).bind hlists fun _ => rfl

/-- The entry of a leaf that was down is unhealthy and otherwise empty. -/
theorem Outage.catalogue_after (outage : Outage env cl) (config : HealthCheckConfig) :
    (outage.after config).cells.catalogue = { health := .unhealthy } := by
  obtain ⟨e, hinit⟩ := outage.down.init
  obtain ⟨e', hhealthz⟩ := outage.down.healthz
  unfold Outage.after
  induction outage.rounds with
  | zero =>
      have hdoes := (does_warmUp_error (keepEverything env cl) hinit).drop
      exact (hdoes {}).2
  | succ n ih =>
      rw [Function.iterate_succ_apply', monitorRound_fails hhealthz config ?_, ih]
      exact congrArg Catalogue.health ih

/-- The task of the controller: its status is read off the cells and changes nothing. -/
theorem crdTask_cells {w : LeafWorld} {f : Catalogue → Catalogue}
    (h : Does leaf (warmUp env cl (keepInfoAndTools env cl)) true f) :
    ((crdTask env cl).run leaf.exec w).2.cells.catalogue = f w.cells.catalogue := by
  rw [crdTask, Prog.run_bind, (h w).1, ← (h w).2]
  rfl

/-- **What each way leaves in the cells** of a leaf that is up. -/
theorem Path.catalogue_final (hup : leaf.Up env cl) (p : Path env cl) :
    (p.final leaf).cells.catalogue = p.catalogue leaf := by
  obtain ⟨result, hresult⟩ := hup.init
  have hinfo : leaf.serverInfo env cl = (result.get? "serverInfo").or none := by
    rw [LeafBehaviour.serverInfo, hresult, Option.or_none]
  have hkeep := does_warmUp _ hresult (does_keepInfoAndTools hup result)
  cases p with
  | startup =>
      have hdoes := (does_warmUp _ hresult (does_keepEverything hup result)).drop
      rw [catalogue, hinfo]
      exact (hdoes {}).2
  | reload =>
      have hdoes := (does_warmUp (fun _ => fetchTools env cl) hresult
        (does_fetchTools hup.tools)).drop
      exact (hdoes {}).2
  | rest =>
      rw [catalogue, hinfo]
      exact (hkeep.drop {}).2
  | dns =>
      rw [catalogue, hinfo]
      exact (hkeep.drop {}).2
  | crd =>
      rw [catalogue, hinfo]
      exact crdTask_cells hkeep
  | recovery outage config =>
      have hafter := outage.catalogue_after config
      rw [final, monitorRound_recovers hup config (congrArg Catalogue.health hafter), hafter]
      rfl

end

/--
**When it does not matter how a leaf was brought in.**

For every leaf that answers: exactly when it has no resources, no prompts and no
`serverInfo` for the ways to differ on.
-/
theorem paths_agree_iff (env : ClientEnv) (cl : LeafClient) (leaf : LeafBehaviour)
    (hup : leaf.Up env cl) :
    (∀ p q : Path env cl, (p.final leaf).cells.catalogue = (q.final leaf).cells.catalogue) ↔
      leaf.items env cl "resources/list" "resources" = [] ∧
        leaf.items env cl "prompts/list" "prompts" = [] ∧ leaf.serverInfo env cl = none := by
  refine ⟨?_, ?_⟩
  · intro h
    have hreload := h .startup .reload
    rw [Path.catalogue_final hup, Path.catalogue_final hup] at hreload
    exact ⟨congrArg Catalogue.resources hreload, congrArg Catalogue.prompts hreload,
      congrArg Catalogue.serverInfo hreload⟩
  · intro h p q
    obtain ⟨hresources, hprompts, hinfo⟩ := h
    have hplain : ∀ p : Path env cl, p.catalogue leaf
        = { health := .healthy, tools := leaf.items env cl "tools/list" "tools" } := by
      intro p
      cases p <;> simp only [Path.catalogue, hresources, hprompts, hinfo]
    rw [Path.catalogue_final hup, Path.catalogue_final hup, hplain p, hplain q]

/-! ### Two leaves -/

/-- A leaf whose every reply carries `result`. -/
def answering : LeafBehaviour where
  reply := fun _ => .ok { status := 200 }

def resultEnv (result : Value) : ClientEnv where
  readFile := fun _ => .error "not found"
  jsonFromSlice := fun _ => some (.obj [("result", result)])
  statusText := fun _ => "200 OK"

def docsClient : LeafClient := LeafClient.new { aliasName := "docs", url := "http://docs/mcp" }

theorem answering_up (result : Value) : answering.Up (resultEnv result) docsClient where
  init := ⟨result, by rfl⟩
  tools := ⟨200, _, rfl, rfl⟩
  resources := ⟨200, _, rfl, rfl⟩
  prompts := ⟨200, _, rfl, rfl⟩
  healthz := rfl

/-- The result of a leaf that offers one tool and nothing else. -/
def oneToolResult : Value := .obj [("tools", .array [.obj [("name", .string "x")]])]

theorem tool_leaf_paths_agree :
    answering.Up (resultEnv oneToolResult) docsClient ∧
      ∀ p q : Path (resultEnv oneToolResult) docsClient,
        (p.final answering).cells.catalogue = (q.final answering).cells.catalogue :=
  ⟨answering_up _, (paths_agree_iff _ docsClient answering (answering_up _)).mpr ⟨rfl, rfl, rfl⟩⟩

/-- One that offers a resource: started with, it is published; registered later, it is not. -/
theorem resource_leaf_paths_differ :
    let env := resultEnv (.obj [("resources", .array [.obj [("uri", .string "x")]])])
    answering.Up env docsClient ∧
      ((.startup : Path env docsClient).final answering).cells.cachedResources.length
        = 1 ∧
      ((.rest : Path env docsClient).final answering).cells.cachedResources.length
        = 0 ∧
      ¬ ∀ p q : Path env docsClient,
        (p.final answering).cells.catalogue = (q.final answering).cells.catalogue := by
  refine ⟨answering_up _, rfl, rfl, fun h => ?_⟩
  have hlength := congrArg (fun c => c.resources.length) (h .startup .rest)
  exact absurd hlength (by decide)

end McpFederation
