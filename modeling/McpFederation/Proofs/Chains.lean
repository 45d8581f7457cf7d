/-
Federations of federations.

A federation that is a leaf of another publishes its catalogue there under one more alias,
and a call comes back down the same way, an alias shorter at each level.  `routes_down`
follows such a call through any number of levels: what it gives at the top is what the call
gives at the bottom, and an error comes up with the alias of every level in its text.
`Link` is one level, with what has to hold there for the upper federation to reach the
lower one; `Descends` is the whole way.
-/
import McpFederation.Proofs.Nesting
import McpFederation.Proofs.Outages

namespace McpFederation

/-! ### A call to a federation -/

namespace ItemKind

/-- The method that a request for an item of this kind goes by. -/
def method : ItemKind → String
  | tool => "tools/call"
  | resource => "resources/read"
  | prompt => "prompts/get"

def params : ItemKind → String → Value → Value
  | tool, name, arguments => .obj [("name", .string name), ("arguments", arguments)]
  | resource, uri, _ => .obj [("uri", .string uri)]
  | prompt, name, arguments => .obj [("name", .string name), ("arguments", arguments)]

/-- The error's text when a response has neither a result nor an error. -/
def missing : ItemKind → String
  | tool => "tool call response missing 'result'"
  | resource => "resources/read response missing 'result'"
  | prompt => "prompts/get response missing 'result'"

theorem program_forward (kind : ItemKind) (cenv : ClientEnv) (cl : LeafClient) (name : String)
    (arguments : Value) :
    (kind.forward name arguments).program cenv cl
      = cl.callMethod cenv kind.method (kind.params name arguments) kind.missing := by
  cases kind <;> rfl

theorem method_ne_initialize (kind : ItemKind) : kind.method ≠ "initialize" := by
  cases kind <;> decide

theorem exact_params (kind : ItemKind) (name : String) {arguments : Value}
    (h : arguments.Exact) : (kind.params name arguments).Exact := by
  have htwo : (Value.obj [("name", .string name), ("arguments", arguments)]).Exact := by
    refine Value.exact_obj fun member hmem => ?_
    simp only [List.mem_cons, List.not_mem_nil, or_false] at hmem
    rcases hmem with rfl | rfl
    · exact .string _
    · exact h
  cases kind with
  | tool => exact htwo
  | resource =>
      refine Value.exact_obj fun member hmem => ?_
      obtain rfl := List.mem_singleton.mp hmem
      exact .string _
  | prompt => exact htwo

/-- Only the `tools/*` handlers look at what the client may use. -/
def permitted : ItemKind → RequestContext → String → Bool
  | tool, ctx, name => toolAllowed ctx name
  | _, _, _ => true

/-- The request that asks for an item. -/
def request (kind : ItemKind) (id : Value) (name : String) (arguments : Value) :
    JsonRpcRequest :=
  ⟨some id, kind.method, kind.params name arguments⟩

/-- A permitted request for an item is routed. -/
theorem dispatch_request (kind : ItemKind) (env : ServerEnv) (state : FederationState) (id : Value)
    (name : String) (arguments : Value) (sid : Option String) {ctx : RequestContext}
    (h : kind.permitted ctx name = true) :
    dispatch env state (kind.request id name arguments) sid ctx
      = routedAnswer state (kind.request id name arguments)
          (kind.route env state.leaves name arguments) := by
  have hname : ∀ key, paramStr ⟨some id, key, .obj [("name", .string name),
      ("arguments", arguments)]⟩ "name" = name := by
    intro key
    simp [paramStr, Value.index, Value.obj, Value.get?, Value.asStr]
  have harguments : (Value.obj [("name", .string name), ("arguments", arguments)]).index "arguments"
      = arguments := by
    simp [Value.index, Value.obj, Value.get?]
  cases kind with
  | tool =>
      show handleToolsCall env state ⟨some id, "tools/call", _⟩ ctx = _
      unfold handleToolsCall
      simp only [request, method, params, hname, harguments]
      change toolAllowed ctx name = true at h
      unfold toolAllowed at h
      cases hparse : parseNamespacedName name with
      | none => rfl
      | some p =>
          rw [hparse] at h
          dsimp only at h ⊢
          rw [if_pos h]
          rfl
  | resource =>
      show routedAnswer state _ (state.leaves.routeResourceRead env (paramStr _ "uri")) = _
      have huri : paramStr (request .resource id name arguments) "uri" = name := by
        simp [request, params, paramStr, Value.index, Value.obj, Value.get?, Value.asStr]
      rw [huri]
      rfl
  | prompt =>
      show routedAnswer state _ (state.leaves.routePromptGet env (paramStr _ "name")
        (Value.index _ "arguments")) = _
      have harg : (request .prompt id name arguments).params.index "arguments" = arguments :=
        harguments
      have hn : paramStr (request .prompt id name arguments) "name" = name := hname "prompts/get"
      rw [hn, harg]
      rfl

end ItemKind

/-- What a caller is given for what a leaf came to: its value, or its error's text under the
leaf's alias. -/
def relayed (a : String) : Except FederationError Value → Except FederationError Value
  | .ok v => .ok v
  | .error e => .error (.leafError a e.toText)

/-- What the client makes of the response to a routed request. -/
theorem run_answered {cenv : ClientEnv} {cl : LeafClient} {S : Type}
    {exec : (c : ClientCall) → S → c.Reply × S} {s s' s'' : S} {id : UInt64} {method missing : String}
    {params : Value} {state : FederationState} {request : JsonRpcRequest} {routed : Routed}
    (hid : exec .nextRequestId s = (id, s'))
    (hsend : (cl.sendRequest cenv (LeafClient.rpcRequest id method params)).run.run exec s'
      = (.ok (responseValue (routedAnswer state request routed).response), s'')) :
    (cl.callMethod cenv method params missing).run.run exec s
      = (relayed cl.aliasName routed.result, s'') := by
  have hnext : (ClientM.perform .nextRequestId).run.run exec s = (.ok id, s') := by
    show (Except.ok (exec .nextRequestId s).1, (exec .nextRequestId s).2) = _
    rw [hid]
  obtain ⟨herror, hresult⟩ := get?_responseValue (routedAnswer state request routed).response
  unfold LeafClient.callMethod
  rw [ClientM.run_bind_ok hnext, ClientM.run_bind_ok hsend, herror, hresult]
  unfold routedAnswer relayed
  cases routed.result with
  | ok v => rfl
  | error e =>
      have hmessage : (errorValue ⟨-32000, e.toText⟩).strAt "message" = some e.toText := by
        simp [errorValue, Value.obj, Value.strAt, Value.get?, Value.asStr]
      show (throw (FederationError.leafError cl.aliasName
        (((errorValue ⟨-32000, e.toText⟩).strAt "message").getD "unknown error")) :
          ClientM Value).run.run exec s'' = _
      rw [hmessage]
      rfl

/-! ### One level -/

/-- The leaf `a` of a federation is a federation that it can reach: the leaf's client talks to
the host, is let in, and holds some session id or none; and during a call nothing outside
changes there but the clock. -/
structure Link (env : ServerEnv) (w : Leaves) (a : String) where
  leaf : LeafEntry
  host : Host
  client : SoleClient Hosted
  ctx : RequestContext
  registered : w.registry.getLeaf a = some leaf
  named : leaf.config.aliasName = a
  healthy : w.isHealthy leaf = true
  /-- Asking the leaf is running the client's code against the host. -/
  reached : ∀ (α : Type) (p : ClientM α),
    env.net.ask α leaf p = (p.run.run (SoleClient.exec host.answer) client).1
  steady : ∀ n, (host.env n).server = (host.env 0).server
  welcomes : host.Welcomes env.client leaf.client ctx
  unrestricted : client.leaf.state.Open
  sendable : Sendable client.session
  issues : host.Issues client.leaf.state.sessions client.leaf.exchanges
    (client.leaf.exchanges + 3)

namespace Link

variable {env : ServerEnv} {w : Leaves} {a : String} (l : Link env w a)

/-- The lower federation, as its own handlers see it. -/
def lowerEnv : ServerEnv := (l.host.env 0).server

def lower : Leaves := l.client.leaf.state.leaves

/-- A call of the lower federation. -/
theorem run_forward (kind : ItemKind) (name : String) {arguments : Value}
    (harguments : arguments.Exact) (hpermitted : kind.permitted l.ctx name = true)
    (hexact : ∀ v, (kind.route l.lowerEnv l.lower name arguments).result = .ok v → v.Exact) :
    ∃ s', ((kind.forward name arguments).program env.client l.leaf.client).run.run
          (SoleClient.exec l.host.answer) l.client
        = (relayed a (kind.route l.lowerEnv l.lower name arguments).result, s') ∧
      s'.leaf.forwarded = l.client.leaf.forwarded
        ++ (kind.route l.lowerEnv l.lower name arguments).forwarded := by
  let s₁ : SoleClient Hosted := { l.client with nextId := l.client.nextId + 1 }
  let request := kind.request (.number (.posInt l.client.nextId)) name arguments
  -- Whichever exchange it is dispatched at, it is routed in the same way.
  have hrouted : ∀ n state sid, state.leaves = l.lower →
      l.host.dispatched n state request sid l.ctx
        = routedAnswer state request (kind.route l.lowerEnv l.lower name arguments) := by
    intro n state sid hleaves
    rw [Host.dispatched, l.steady n, kind.dispatch_request _ _ _ _ _ _ hpermitted, hleaves]
    rfl
  have hresponse : ∀ n state sid, state.leaves = s₁.leaf.state.leaves →
      (responseValue (l.host.dispatched n state request sid l.ctx).response).Exact := by
    intro n state sid hleaves
    rw [hrouted n state sid hleaves]
    unfold routedAnswer
    cases hresult : (kind.route l.lowerEnv l.lower name arguments).result with
    | ok v =>
        refine exact_responseValue (fun w hw => ?_) (fun w hw => ?_) fun e he => by cases he
        · cases hw
          exact .posInt _
        · cases hw
          exact hexact v hresult
    | error e =>
        refine exact_responseValue (fun w hw => ?_) (fun w hw => by cases hw) fun e he => ?_
        · cases hw
          exact .posInt _
        · cases he
          exact ⟨show (-2 ^ 31 : Int) ≤ -32000 by decide, show (-32000 : Int) < 2 ^ 31 by decide⟩
  have hbody : requestOf (LeafClient.rpcRequest l.client.nextId kind.method
      (kind.params name arguments)) = some request := requestOf_rpcRequest _ _ _
  obtain ⟨response, s', n, state, sid, hrun, honce⟩ := run_sendRequest (s := s₁) l.welcomes
    l.unrestricted l.sendable
    (exact_rpcRequest l.client.nextId kind.method (kind.exact_params name harguments)) hbody
    kind.method_ne_initialize l.issues hresponse
  have hdispatched := hrouted n state sid honce.before
  have halias : l.leaf.client.aliasName = a := l.named
  refine ⟨s', ?_, ?_⟩
  · rw [honce.response, hdispatched] at hrun
    rw [kind.program_forward, run_answered rfl hrun, halias]
  · rw [honce.forwarded, hdispatched]
    rfl

/-- **One level down**: the upper federation's call is the lower one's. -/
theorem route_eq (kind : ItemKind) (ha : Routable a) (name : String) {arguments : Value}
    (harguments : arguments.Exact) (hpermitted : kind.permitted l.ctx name = true)
    (hexact : ∀ v, (kind.route l.lowerEnv l.lower name arguments).result = .ok v → v.Exact) :
    (kind.route env w (namespaced a name) arguments).result
      = relayed a (kind.route l.lowerEnv l.lower name arguments).result := by
  obtain ⟨s', hrun, -⟩ := l.run_forward kind name harguments hpermitted hexact
  rw [kind.route_namespaced env w ha]
  unfold Leaves.forwardTo
  rw [l.registered]
  dsimp only
  rw [if_pos l.healthy]
  show env.net.ask Value l.leaf _ = _
  rw [l.reached, hrun]

end Link

/-! ### All the way down -/

/-- The name `top` leads from the federation `w` through the aliases `path` to the name `name`
of another federation, the bottom. -/
inductive Descends (kind : ItemKind) (bottomEnv : ServerEnv) (bottom : Leaves) (name : String) :
    ServerEnv → Leaves → List String → String → Prop
  | here : Descends kind bottomEnv bottom name bottomEnv bottom [] name
  | down {env : ServerEnv} {w : Leaves} {a inner : String} {path : List String}
      (l : Link env w a) (ha : Routable a) (hpermitted : kind.permitted l.ctx inner = true)
      (h : Descends kind bottomEnv bottom name l.lowerEnv l.lower path inner) :
      Descends kind bottomEnv bottom name env w (a :: path) (namespaced a inner)

/-- What comes up through the levels: a value as it is, an error under the alias of each. -/
def relayedUp : List String → Except FederationError Value → Except FederationError Value
  | [], result => result
  | a :: path, result => relayed a (relayedUp path result)

theorem relayedUp_ok {path : List String} {result : Except FederationError Value} {v : Value}
    (h : relayedUp path result = .ok v) : result = .ok v := by
  induction path with
  | nil => exact h
  | cons a path ih =>
      unfold relayedUp relayed at h
      cases hup : relayedUp path result with
      | ok w =>
          rw [hup] at h
          cases h
          exact ih hup
      | error e =>
          rw [hup] at h
          cases h

/--
**A call through any number of federations is the call at the bottom.**  What it gives is what
the bottom federation gives for the name that is left when every alias has been taken off.
-/
theorem routes_down {kind : ItemKind} {bottomEnv env : ServerEnv} {bottom w : Leaves}
    {name top : String} {path : List String}
    (h : Descends kind bottomEnv bottom name env w path top) (arguments : Value)
    (harguments : arguments.Exact)
    (hexact : ∀ v, (kind.route bottomEnv bottom name arguments).result = .ok v → v.Exact) :
    (kind.route env w top arguments).result
      = relayedUp path (kind.route bottomEnv bottom name arguments).result := by
  induction h with
  | here => rfl
  | @down env w a inner path l ha hpermitted _ ih =>
      rw [l.route_eq kind ha inner harguments hpermitted, ih]
      · rfl
      · intro v hv
        rw [ih] at hv
        exact hexact v (relayedUp_ok hv)

end McpFederation
