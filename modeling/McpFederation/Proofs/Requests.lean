/-
What requests can do to the registry.

Everything that reaches the server by HTTP goes through one middleware, and behind it
only two handlers write to the map: registration, under the alias of its body, and
deregistration, of the alias in its path.  The rest changes sessions, rate limits and
caches.  So what a sequence of requests did to an alias can be told from the requests
that name it, `getLeaf_run`: an entry stays unless it is deregistered, is never replaced
in place, and a free alias stays free unless somebody registers it.

The context of the client plays no part in this.  The API asks for a token and not for
what the token may use, so a client restricted to other leaves removes one like anybody
else, `restricted_client_deregisters`.
-/
import McpFederation.Model.Http
import McpFederation.Proofs.Effects

namespace McpFederation

/-! ### One request -/

section

variable (env : ServerEnv) (state : FederationState) (request : JsonRpcRequest)

theorem handleToolsCall_registry (ctx : RequestContext) :
    (handleToolsCall env state request ctx).state.leaves.registry = state.leaves.registry := by
  unfold handleToolsCall
  simp only
  split
  · split
    · exact Leaves.routeToolCall_registry env state.leaves _ _
    · rfl
  · exact Leaves.routeToolCall_registry env state.leaves _ _

theorem handleLoggingSetLevel_leaves (sessionId : Option String) :
    (handleLoggingSetLevel state request sessionId).state.leaves = state.leaves := by
  unfold handleLoggingSetLevel
  split
  · rfl
  · split
    · rfl
    · cases sessionId <;> rfl

/-- **No JSON-RPC request changes the registry.** -/
theorem dispatch_registry (sessionId : Option String) (ctx : RequestContext) :
    (dispatch env state request sessionId ctx).state.leaves.registry
      = state.leaves.registry := by
  unfold dispatch
  split <;> try rfl
  · exact handleToolsCall_registry env state request ctx
  · exact congrArg Leaves.registry (Leaves.routeResourceRead_leaves env state.leaves _)
  · exact congrArg Leaves.registry (Leaves.routePromptGet_leaves env state.leaves _ _)
  · rw [handleLoggingSetLevel_leaves]

end

section

variable (env : HttpEnv) (state : FederationState) (headers : HeaderMap)

theorem handleAdmitted_registry (ctx : RequestContext) (request : JsonRpcRequest) :
    (handleAdmitted env state headers ctx request).state.leaves.registry
      = state.leaves.registry := by
  unfold handleAdmitted
  simp only
  split
  · split <;> exact dispatch_registry env.server _ request _ ctx
  · rfl

theorem checkSession_leaves {sid : Option String} {state' : FederationState}
    (h : checkSession env state sid = some state') : state'.leaves = state.leaves := by
  unfold checkSession at h
  split at h
  · rw [Option.some.injEq] at h
    rw [h]
  · simp only at h
    split at h
    · rw [Option.some.injEq] at h
      rw [← h]
    · simp at h

theorem handleMcp_registry (ctx : Option RequestContext) (request : JsonRpcRequest) :
    (handleMcp env state headers ctx request).state.leaves.registry = state.leaves.registry := by
  unfold handleMcp
  split
  · simp only
    split
    · rfl
    · rename_i state' hadmitted
      rw [handleAdmitted_registry]
      split at hadmitted
      · rw [Option.some.injEq] at hadmitted
        rw [hadmitted]
      · rw [checkSession_leaves env state hadmitted]
  · rfl

theorem getMcp_registry :
    (getMcp env state headers).state.leaves.registry = state.leaves.registry := by
  unfold getMcp
  split
  · split
    · rfl
    · split
      · rfl
      · rename_i state' hsession
        rw [reply, checkSession_leaves env state hsession]
  · rfl

theorem deleteMcp_registry :
    (deleteMcp state headers).state.leaves.registry = state.leaves.registry := by
  unfold deleteMcp
  split
  · split
    · rfl
    · simp only
      split <;> rfl
  · rfl

/-- The registry operation that a request asks for, if its handler has one. -/
def Endpoint.op? : Endpoint → Option Op
  | .registerServer (some req) => some (.register req)
  | .deregisterServer a => some (.deregister a)
  | _ => none

/-- **What a handler does to the registry** is its operation, and nothing if it has none. -/
theorem Endpoint.handle_registry (le : LoadEnv) (ctx : Option RequestContext) (e : Endpoint) :
    (e.handle env state headers ctx).state.leaves.registry
      = (e.op?.map (state.leaves.registry.apply le)).getD state.leaves.registry := by
  cases e with
  | postMcp body =>
      cases body with
      | none => rfl
      | some request => exact handleMcp_registry env state headers ctx request
  | getMcp => exact getMcp_registry env state headers
  | deleteMcp => exact deleteMcp_registry state headers
  | registerServer body =>
      cases body with
      | none => rfl
      | some req => simp [handle, op?, FederationState.withRegistry, Registry.apply, Op.program]
  | listServers => rfl
  | getServer a =>
      simp only [handle]
      split <;> rfl
  | deregisterServer a =>
      simp only [handle, op?]
      split <;> simp [reply, FederationState.withRegistry, Registry.apply, Op.program]

end

/-! ### Sequences of requests -/

/-- A request at the moment it arrives. -/
structure Arrival where
  env : HttpEnv
  /-- What reading the token file gives. -/
  read : Except String String
  request : HttpRequest

/-- The state after one request. -/
def FederationState.receive (auth : AuthState) (state : FederationState) (x : Arrival) :
    FederationState :=
  (serve x.env auth x.read state x.request).state

/-- The request is a deregistration of `b`. -/
def Arrival.Deregisters (x : Arrival) (b : String) : Prop :=
  x.request.endpoint = .deregisterServer b

/-- The request is a registration under `b`. -/
def Arrival.Registers (x : Arrival) (b : String) : Prop :=
  ∃ req, x.request.endpoint = .registerServer (some req) ∧ req.aliasName = b

/-- One request leaves `b` alone, deregisters it, or registers it where nothing was. -/
theorem getLeaf_receive (auth : AuthState) (state : FederationState) (x : Arrival) (b : String) :
    (state.receive auth x).leaves.registry.getLeaf b = state.leaves.registry.getLeaf b ∨
      (x.Deregisters b ∧ (state.receive auth x).leaves.registry.getLeaf b = none) ∨
      (x.Registers b ∧ state.leaves.registry.getLeaf b = none) := by
  unfold FederationState.receive serve
  split
  · exact Or.inl rfl
  · rw [Endpoint.handle_registry _ _ _ (LoadEnv.knowing [])]
    cases hop : x.request.endpoint.op? with
    | none => exact Or.inl rfl
    | some op =>
        have heffect := Registry.holds_effect (LoadEnv.knowing []) state.leaves.registry op b
        unfold Endpoint.op? at hop
        split at hop
        · rename_i req hendpoint
          rw [Option.some.injEq] at hop
          subst hop
          simp only [Op.effect] at heffect
          split at heffect
          · rename_i hputs
            exact Or.inr (Or.inr ⟨⟨req, hendpoint, hputs.2.1.symm⟩, hputs.2.2⟩)
          · exact Or.inl heffect
        · rename_i a hendpoint
          rw [Option.some.injEq] at hop
          subst hop
          simp only [Op.effect] at heffect
          split at heffect
          · rename_i hba
            rw [← hba] at hendpoint
            exact Or.inr (Or.inl ⟨hendpoint, heffect⟩)
          · exact Or.inl heffect
        · simp at hop

/--
**What a sequence of requests did to an alias**, whoever sent them: an entry is still
there, and still the same one, unless a request deregisters it, and a free alias is still
free unless a request registers it.
-/
theorem getLeaf_run (auth : AuthState) (state : FederationState) (arrivals : List Arrival)
    (b : String) :
    ((∀ x ∈ arrivals, ¬ x.Deregisters b) → ∀ leaf, state.leaves.registry.getLeaf b = some leaf →
        (Runs.run (FederationState.receive auth) state arrivals).leaves.registry.getLeaf b
          = some leaf) ∧
      ((∀ x ∈ arrivals, ¬ x.Registers b) → state.leaves.registry.getLeaf b = none →
        (Runs.run (FederationState.receive auth) state arrivals).leaves.registry.getLeaf b
          = none) := by
  refine ⟨?_, ?_⟩
  · intro hkept leaf hleaf
    refine Runs.inv_run (I := fun s => s.leaves.registry.getLeaf b = some leaf)
      (G := fun _ x => ¬ x.Deregisters b) ?_ arrivals state hleaf
      (Runs.along_of_forall fun x hx _ => hkept x hx)
    intro s x hs hx
    rcases getLeaf_receive auth s x b with hsame | ⟨hgone, -⟩ | ⟨-, hfree⟩
    · rw [hsame]
      exact hs
    · exact absurd hgone hx
    · rw [hfree] at hs
      simp at hs
  · intro hfree hnone
    refine Runs.inv_run (I := fun s => s.leaves.registry.getLeaf b = none)
      (G := fun _ x => ¬ x.Registers b) ?_ arrivals state hnone
      (Runs.along_of_forall fun x hx _ => hfree x hx)
    intro s x hs hx
    rcases getLeaf_receive auth s x b with hsame | ⟨-, hgone⟩ | ⟨hnew, -⟩
    · rw [hsame]
      exact hs
    · exact hgone
    · exact absurd hnew hx

/-! ### A restricted client -/

/-- A token for everything, and one for `wiki` only. -/
def teamAuth : AuthState where
  token := some "admin-super-secret"
  tokenFile := none
  clients := [{ token := "team-a", allowedServers := ["wiki"] }]

/-- A request with the restricted token, to a server whose clocks stand still. -/
def teamRequest (endpoint : Endpoint) : Arrival where
  env :=
    { server := offline, jwt := ⟨fun _ _ => "", fun _ _ => none⟩, now := ⟨0, 0⟩, uuid := "" }
  read := .error "no token file"
  request :=
    { endpoint := endpoint
      headers :=
        [("authorization", ⟨"Bearer team-a".toList.map fun c => UInt8.ofNat c.toNat⟩)] }

/-- The leaves `wiki` and `docs`. -/
def wikiAndDocs : FederationState :=
  .ofLeaves ⟨wikiRegistry.addLeaf "docs" docsRequest.config, fun _ => {}⟩

/-- The restricted client lists servers and calls a tool; `docs` is as it was. -/
theorem team_keeps_docs :
    (Runs.run (FederationState.receive teamAuth) wikiAndDocs
        [teamRequest .listServers,
          teamRequest (.postMcp (some ⟨none, "tools/call", .obj []⟩))]).leaves.registry.getLeaf
        "docs"
      = wikiAndDocs.leaves.registry.getLeaf "docs" := by
  refine (getLeaf_run teamAuth wikiAndDocs _ "docs").1 ?_ _ rfl
  intro x hx
  simp only [List.mem_cons, List.not_mem_nil, or_false] at hx
  rcases hx with rfl | rfl <;> exact fun h => by cases h

/-- The same client deregisters `docs`, which it may not use. -/
theorem restricted_client_deregisters :
    authMiddleware teamAuth (.error "no token file") "/api/v1/servers/docs"
        (teamRequest (.deregisterServer "docs")).request.headers
        = .next (some ⟨some "client-0", some ["wiki"]⟩) ∧
      wikiAndDocs.leaves.registry.getLeaf "docs" ≠ none ∧
      (Runs.run (FederationState.receive teamAuth) wikiAndDocs
        [teamRequest (.deregisterServer "docs")]).leaves.registry.getLeaf "docs" = none := by
  decide

end McpFederation
