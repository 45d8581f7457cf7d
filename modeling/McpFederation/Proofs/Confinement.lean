/-
What a restricted client can learn about leaves it may not use.

A client with an allow-list is meant to see and invoke the leaves on it and no others.
The statement is about two runs: in two federations that agree on the leaves of the list,
every request is answered alike, and nothing is forwarded past the list.

Only `tools/list` and `tools/call` are given the client's context.  The other handlers
show and forward everything, and `tools/list` decides by the alias it reads off a
published name, which need not be the alias of the leaf: that of a leaf `b_` reads as
`b`, and that of a leaf `federation` is always let through.  `confines_iff` states which
aliases may be registered for a request to be answered within the list.
-/
import McpFederation.Model.Server

namespace McpFederation

/-! ### Two federations -/

/-- The two agree on every leaf of the list: its entry, and what is cached for it. -/
structure AgreeOn (list : List String) (w w' : Leaves) : Prop where
  entry : ∀ a ∈ list, w.registry.getLeaf a = w'.registry.getLeaf a
  cells : ∀ a ∈ list, ∀ leaf, w.registry.getLeaf a = some leaf → w.cellsOf leaf = w'.cellsOf leaf

/-- Equal responses, or lists of the same entries in another order. -/
inductive SameUpToOrder : JsonRpcResponse → JsonRpcResponse → Prop
  | refl (r : JsonRpcResponse) : SameUpToOrder r r
  | list (request : JsonRpcRequest) (key : String) {items items' : List Value}
      (h : items.Perm items') : SameUpToOrder
        (successResponse request (.obj [(key, .array items)]))
        (successResponse request (.obj [(key, .array items')]))

/-- Two runs that a client with this list cannot tell apart, nothing forwarded past it. -/
def Within (list : List String) (d d' : Dispatched) : Prop :=
  SameUpToOrder d.response d'.response ∧
    ∀ sent ∈ d.forwarded, sent.1.config.aliasName ∈ list

/-- Two federations over the aliases `A` that agree on the list. -/
structure Paired (list : List String) (A : String → Prop) (s s' : FederationState) : Prop where
  wf : s.leaves.registry.WF
  wf' : s'.leaves.registry.WF
  aliases : ∀ a ∈ s.leaves.registry.aliases, A a
  aliases' : ∀ a ∈ s'.leaves.registry.aliases, A a
  agree : AgreeOn list s.leaves s'.leaves

/-- The request is answered within the list, whatever is registered under the aliases `A`. -/
def Confines (env : ServerEnv) (ctx : RequestContext) (list : List String)
    (A : String → Prop) (request : JsonRpcRequest) : Prop :=
  ∀ (sessionId : Option String) (s s' : FederationState), Paired list A s s' →
    Within list (dispatch env s request sessionId ctx) (dispatch env s' request sessionId ctx)

/-- The alias that every published name of the leaf `a` is read under. -/
def publishedAlias (a : String) : String :=
  ((parseNamespacedName (namespaced a "")).map Prod.fst).getD ""

/--
The aliases `A` under which the request stays within the list:

  * `tools/list`, if no leaf outside the list is published under an alias that is let through;
  * `resources/list` and `prompts/list`, if there is no leaf outside the list;
  * `resources/read` and `prompts/get`, if the leaf they name is on the list or not there.
-/
def StaysWithin (list : List String) (A : String → Prop) (request : JsonRpcRequest) : Prop :=
  match request.method with
  | "tools/list" =>
      ∀ a, A a → a ∉ list → publishedAlias a ≠ "federation" ∧ publishedAlias a ∉ list
  | "resources/list" => ∀ a, A a → a ∈ list
  | "prompts/list" => ∀ a, A a → a ∈ list
  | "resources/read" =>
      ∀ a rest, parseNamespacedName (paramStr request "uri") = some (a, rest) → A a → a ∈ list
  | "prompts/get" =>
      ∀ a rest, parseNamespacedName (paramStr request "name") = some (a, rest) → A a → a ∈ list
  | _ => True

/-- The published names of a leaf all split at the same alias. -/
theorem parseNamespacedName_namespaced (a name : String) :
    ∃ rest, parseNamespacedName (namespaced a name) = some (publishedAlias a, rest) := by
  obtain ⟨x, y, hxy⟩ := Text.splitOnce_join_some namespaceSeparator a ""
  rw [String.append_empty] at hxy
  have halias : publishedAlias a = x := by
    simp [publishedAlias, parseNamespacedName, namespaced, hxy]
  refine ⟨y ++ name, ?_⟩
  rw [halias]
  exact Text.splitOnce_append (by decide) name hxy

/-! ### Forwarding -/

section

variable {env : ServerEnv} {list : List String} {w w' : Leaves}

theorem AgreeOn.forwardTo (h : AgreeOn list w w') {a : String} (ha : a ∈ list) (f : Forward) :
    (w.forwardTo env a f).result = (w'.forwardTo env a f).result := by
  unfold Leaves.forwardTo
  rw [← h.entry a ha]
  cases hleaf : w.registry.getLeaf a with
  | none => rfl
  | some leaf =>
      have hhealth : w.isHealthy leaf = w'.isHealthy leaf := by
        rw [Leaves.isHealthy, Leaves.isHealthy, h.cells a ha leaf hleaf]
      simp only [hhealth]
      split <;> rfl

/-- What is forwarded under an alias of the list stays within it. -/
theorem forwarded_within (hwf : w.registry.WF) {a : String} (ha : a ∈ list) {f : Forward}
    {sent : LeafEntry × Forward} (h : sent ∈ (w.forwardTo env a f).forwarded) :
    sent.1.config.aliasName ∈ list := by
  obtain ⟨hleaf, -, -⟩ := Leaves.forwarded_forwardTo env w h
  rw [hwf.key a sent.1 hleaf]
  exact ha

end

/-! ### Listing -/

section

variable {list : List String} {w w' : Leaves} {A : String → Prop} {s s' : FederationState}

/-- The healthy leaves of the list. -/
def Leaves.healthyIn (w : Leaves) (list : List String) : List LeafEntry :=
  w.healthyLeaves.filter fun leaf => leaf.config.aliasName ∈ list

theorem mem_healthyIn (hwf : w.registry.WF) {leaf : LeafEntry} :
    leaf ∈ w.healthyIn list ↔
      leaf.config.aliasName ∈ list ∧ w.registry.getLeaf leaf.config.aliasName = some leaf ∧
        w.isHealthy leaf = true := by
  rw [Leaves.healthyIn, List.mem_filter, Leaves.healthyLeaves, List.mem_filter,
    Registry.mem_allLeaves, decide_eq_true_eq]
  refine ⟨?_, ?_⟩
  · intro h
    obtain ⟨⟨⟨a, ha⟩, hhealthy⟩, hin⟩ := h
    exact ⟨hin, by rw [hwf.key a leaf ha]; exact ha, hhealthy⟩
  · intro h
    obtain ⟨hin, ha, hhealthy⟩ := h
    exact ⟨⟨⟨_, ha⟩, hhealthy⟩, hin⟩

theorem AgreeOn.mem_healthyIn (h : AgreeOn list w w') (hwf : w.registry.WF)
    (hwf' : w'.registry.WF) (leaf : LeafEntry) :
    leaf ∈ w.healthyIn list ↔ leaf ∈ w'.healthyIn list := by
  rw [McpFederation.mem_healthyIn hwf, McpFederation.mem_healthyIn hwf']
  refine and_congr_right fun hin => ?_
  rw [← h.entry _ hin]
  refine and_congr_right fun hleaf => ?_
  rw [Leaves.isHealthy, Leaves.isHealthy, h.cells _ hin leaf hleaf]

/-- Two federations that agree list the same entries for the leaves of the list. -/
theorem AgreeOn.flatMap_perm (h : AgreeOn list w w') (hwf : w.registry.WF)
    (hwf' : w'.registry.WF) (g : LeafEntry → LeafCells → List Value) :
    ((w.healthyIn list).flatMap fun leaf => g leaf (w.cellsOf leaf)).Perm
      ((w'.healthyIn list).flatMap fun leaf => g leaf (w'.cellsOf leaf)) := by
  have hcells : ((w.healthyIn list).flatMap fun leaf => g leaf (w.cellsOf leaf))
      = (w.healthyIn list).flatMap fun leaf => g leaf (w'.cellsOf leaf) := by
    refine List.flatMap_congr fun leaf hleaf => ?_
    obtain ⟨hin, hget, -⟩ := (McpFederation.mem_healthyIn hwf).mp hleaf
    rw [h.cells _ hin leaf hget]
  rw [hcells]
  refine List.Perm.flatMap_right _ ?_
  refine (List.perm_ext_iff_of_nodup ?_ ?_).mpr (h.mem_healthyIn hwf hwf')
  · exact (hwf.nodup_allLeaves.filter _).filter _
  · exact (hwf'.nodup_allLeaves.filter _).filter _

/-- What contributes nothing can be left out. -/
theorem flatMap_filter_of_nil {α β : Type} {p : α → Bool} {g : α → List β} {l : List α}
    (h : ∀ x ∈ l, p x = false → g x = []) : l.flatMap g = (l.filter p).flatMap g := by
  induction l with
  | nil => rfl
  | cons x rest ih =>
      have hrest := ih fun y hy => h y (List.mem_cons_of_mem _ hy)
      cases hp : p x with
      | true => rw [List.filter_cons_of_pos hp, List.flatMap_cons, List.flatMap_cons, hrest]
      | false =>
          rw [List.filter_cons_of_neg (by simp [hp]), List.flatMap_cons,
            h x List.mem_cons_self hp, hrest, List.nil_append]

/-- Leaves outside the list that contribute nothing can be left out. -/
theorem flatMap_healthyIn {g : LeafEntry → List Value}
    (h : ∀ leaf ∈ w.healthyLeaves, leaf.config.aliasName ∉ list → g leaf = []) :
    w.healthyLeaves.flatMap g = (w.healthyIn list).flatMap g :=
  flatMap_filter_of_nil fun leaf hleaf hout => h leaf hleaf (of_decide_eq_false hout)

/-- Every healthy leaf is under one of the aliases. -/
theorem alias_of_healthy (hwf : w.registry.WF) {leaf : LeafEntry} (h : leaf ∈ w.healthyLeaves) :
    leaf.config.aliasName ∈ w.registry.aliases := by
  obtain ⟨⟨a, ha⟩, -⟩ := mem_healthyLeaves.mp h
  rw [hwf.key a leaf ha]
  exact Registry.mem_aliases.mpr ⟨leaf, ha⟩

/-- The part of the catalogue that passes a filter, if the filter drops what leaves outside
the list publish. -/
theorem Paired.filter_aggregated_perm (h : Paired list A s s') (cached : LeafCells → List Value)
    (publish : String → Value → Option Value) (keep : Value → Bool)
    (hdrop : ∀ a, A a → a ∉ list → ∀ item published, publish a item = some published →
      keep published = false) :
    ((s.leaves.aggregated cached publish).filter keep).Perm
      ((s'.leaves.aggregated cached publish).filter keep) := by
  let g : LeafEntry → LeafCells → List Value := fun leaf cells =>
    ((cached cells).filterMap (publish leaf.config.aliasName)).filter keep
  have hwithin : ∀ v : Leaves, v.registry.WF → (∀ a ∈ v.registry.aliases, A a) →
      (v.aggregated cached publish).filter keep
        = (v.healthyIn list).flatMap fun leaf => g leaf (v.cellsOf leaf) := by
    intro v hv hAv
    rw [Leaves.aggregated, List.filter_flatMap]
    refine flatMap_healthyIn fun leaf hleaf hout => ?_
    refine List.filter_eq_nil_iff.mpr fun published hpub => ?_
    obtain ⟨item, -, hitem⟩ := List.mem_filterMap.mp hpub
    rw [hdrop _ (hAv _ (alias_of_healthy hv hleaf)) hout item published hitem]
    decide
  rw [hwithin s.leaves h.wf h.aliases, hwithin s'.leaves h.wf' h.aliases']
  exact h.agree.flatMap_perm h.wf h.wf' g

/-- The whole catalogue, if there is no leaf outside the list. -/
theorem Paired.aggregated_perm (h : Paired list A s s') (hin : ∀ a, A a → a ∈ list)
    (cached : LeafCells → List Value) (publish : String → Value → Option Value) :
    (s.leaves.aggregated cached publish).Perm (s'.leaves.aggregated cached publish) := by
  have hall := h.filter_aggregated_perm cached publish (fun _ => true)
    fun a ha hout => absurd (hin a ha) hout
  simpa using hall

end

/-! ### One request -/

section

variable {env : ServerEnv} {ctx : RequestContext} {list : List String} {A : String → Prop}
  {s s' : FederationState} {request : JsonRpcRequest}

theorem allowsAlias_iff (hctx : ctx.allowedServers = some list) (hstar : "*" ∉ list)
    (a : String) : ctx.allowsAlias a = true ↔ a = "federation" ∨ a ∈ list := by
  rw [allowsAlias_of_list hctx, or_iff_right hstar]

/-- Whether `tools/list` shows a tool is decided by the published alias of its leaf. -/
theorem shown_iff {a : String} {item published : Value}
    (h : namespaceTool a item = some published) :
    ((published.strAt "name").map (toolAllowed ctx)).getD true
      = ctx.allowsAlias (publishedAlias a) := by
  obtain ⟨name, -, hname, -, -⟩ := namespaceItem_spec (by decide) h
  obtain ⟨rest, hparse⟩ := parseNamespacedName_namespaced a name
  simp [hname, toolAllowed, hparse]

theorem within_answer (response : JsonRpcResponse) :
    Within list (answer s response) (answer s' response) :=
  ⟨.refl _, by simp [answer]⟩

theorem within_items (key : String) {items items' : List Value} (h : items.Perm items') :
    Within list (answer s (successResponse request (.obj [(key, .array items)])))
      (answer s' (successResponse request (.obj [(key, .array items')]))) :=
  ⟨.list request key h, by simp [answer]⟩

theorem within_routed {routed routed' : Routed} (hresult : routed.result = routed'.result)
    (hsent : ∀ sent ∈ routed.forwarded, sent.1.config.aliasName ∈ list) :
    Within list (routedAnswer s request routed) (routedAnswer s' request routed') := by
  refine ⟨?_, hsent⟩
  simp only [routedAnswer, hresult]
  exact .refl _

/-- A route to a leaf on the list, or to one that is in neither federation. -/
theorem Paired.forwardTo (h : Paired list A s s') {a : String} (ha : A a → a ∈ list)
    (f : Forward) :
    Within list (routedAnswer s request (s.leaves.forwardTo env a f))
      (routedAnswer s' request (s'.leaves.forwardTo env a f)) := by
  by_cases hin : a ∈ list
  · exact within_routed (h.agree.forwardTo hin f) fun sent hsent =>
      forwarded_within h.wf hin hsent
  · have hnone : ∀ w : Leaves, (∀ b ∈ w.registry.aliases, A b) → w.registry.getLeaf a = none := by
      intro w hw
      rw [Option.eq_none_iff_forall_ne_some]
      intro leaf hleaf
      exact hin (ha (hw a (Registry.mem_aliases.mpr ⟨leaf, hleaf⟩)))
    refine within_routed ?_ ?_
    · simp [Leaves.forwardTo, hnone _ h.aliases, hnone _ h.aliases']
    · simp [Leaves.forwardTo, hnone _ h.aliases]

/-- A call that names no native tool is checked against the list before it is routed. -/
theorem Paired.toolsCall (h : Paired list A s s') (hctx : ctx.allowedServers = some list)
    (hstar : "*" ∉ list)
    (hnative : ∀ tool, parseNamespacedName (paramStr request "name") ≠ some ("federation", tool)) :
    Within list (handleToolsCall env s request ctx) (handleToolsCall env s' request ctx) := by
  unfold handleToolsCall
  cases hparse : parseNamespacedName (paramStr request "name") with
  | none =>
      simp only [Leaves.routeToolCall, hparse]
      exact within_routed rfl (by simp)
  | some split =>
      obtain ⟨a, tool⟩ := split
      have hfed : a ≠ "federation" := by
        intro heq
        subst heq
        exact hnative tool hparse
      simp only [hparse]
      by_cases hallowed : ctx.allowsAlias a = true
      · have hin : a ∈ list := ((allowsAlias_iff hctx hstar a).mp hallowed).resolve_left hfed
        simp only [hallowed, if_true, Leaves.routeToolCall, hparse, if_neg hfed]
        exact h.forwardTo (fun _ => hin) _
      · rw [if_neg hallowed, if_neg hallowed]
        exact within_answer _

theorem Paired.resourcesRead (h : Paired list A s s')
    (hstays : ∀ a rest, parseNamespacedName (paramStr request "uri") = some (a, rest) →
      A a → a ∈ list) :
    Within list (handleResourcesRead env s request) (handleResourcesRead env s' request) := by
  unfold handleResourcesRead Leaves.routeResourceRead
  cases hparse : parseNamespacedName (paramStr request "uri") with
  | none => exact within_routed rfl (by simp)
  | some split => exact h.forwardTo (hstays split.1 split.2 hparse) _

theorem Paired.promptsGet (h : Paired list A s s')
    (hstays : ∀ a rest, parseNamespacedName (paramStr request "name") = some (a, rest) →
      A a → a ∈ list) :
    Within list (handlePromptsGet env s request) (handlePromptsGet env s' request) := by
  unfold handlePromptsGet Leaves.routePromptGet
  cases hparse : parseNamespacedName (paramStr request "name") with
  | none => exact within_routed rfl (by simp)
  | some split => exact h.forwardTo (hstays split.1 split.2 hparse) _

/-- Setting a log level changes the session's state, not the answer. -/
theorem within_loggingSetLevel (sessionId : Option String) :
    Within list (handleLoggingSetLevel s request sessionId)
      (handleLoggingSetLevel s' request sessionId) := by
  unfold handleLoggingSetLevel
  split
  · exact within_answer _
  · split
    · exact within_answer _
    · exact ⟨.refl _, by simp⟩

theorem Paired.toolsList (h : Paired list A s s') (hctx : ctx.allowedServers = some list)
    (hstar : "*" ∉ list)
    (hstays : ∀ a, A a → a ∉ list → publishedAlias a ≠ "federation" ∧ publishedAlias a ∉ list) :
    Within list (handleToolsList s request ctx) (handleToolsList s' request ctx) := by
  refine within_items "tools" ?_
  simp only [visibleTools, hctx, Option.isSome_some, if_true, Leaves.aggregatedTools,
    List.filter_append]
  refine List.Perm.append_left _ (h.filter_aggregated_perm _ _ _ ?_)
  intro a ha hout item published hpub
  rw [shown_iff hpub, Bool.eq_false_iff]
  intro hshown
  obtain ⟨hfed, hlist⟩ := hstays a ha hout
  exact ((allowsAlias_iff hctx hstar _).mp hshown).elim hfed hlist

end

/-! ### Two federations that differ by one leaf -/

/-- One tool, one resource and one prompt. -/
def oneOfEach : LeafCells where
  cachedTools := [.obj [("name", .string "x")]]
  cachedResources := [.obj [("uri", .string "x")]]
  cachedPrompts := [.obj [("name", .string "x")]]

/-- A federation with these leaves, each of which offers one of each. -/
def offering (aliases : List String) : FederationState :=
  .ofLeaves
    { registry := Registry.fromConfigs
        (aliases.map fun a => { aliasName := a, url := "http://leaf/mcp" })
      cells := fun _ => oneOfEach }

/-- The entry of the one leaf. -/
def onlyLeaf (a : String) : LeafEntry := ⟨0, { aliasName := a, url := "http://leaf/mcp" }⟩

theorem healthyLeaves_offering (a : String) :
    (offering [a]).leaves.healthyLeaves = [onlyLeaf a] := rfl

theorem getLeaf_offering (a b : String) :
    (offering [a]).leaves.registry.getLeaf b = if b = a then some (onlyLeaf a) else none := by
  by_cases hb : b = a
  · subst hb
    rw [if_pos rfl]
    exact Registry.getLeaf_addLeaf_self _ _ _
  · rw [if_neg hb]
    exact Registry.getLeaf_addLeaf_ne _ _ hb

section

variable {env : ServerEnv} {ctx : RequestContext} {list : List String} {A : String → Prop}
  {request : JsonRpcRequest} {a : String}

theorem agreeOn_offering (ha : a ∉ list) :
    AgreeOn list (offering [a]).leaves (offering []).leaves := by
  have hnone : ∀ b ∈ list, (offering [a]).leaves.registry.getLeaf b = none := by
    intro b hb
    rw [getLeaf_offering, if_neg]
    intro heq
    subst heq
    exact ha hb
  refine ⟨fun b hb => ?_, fun b hb leaf hleaf => ?_⟩
  · rw [hnone b hb]
    rfl
  · rw [hnone b hb] at hleaf
    simp at hleaf

/-- With and without a leaf outside the list. -/
theorem paired_offering (ha : A a) (hout : a ∉ list) :
    Paired list A (offering [a]) (offering []) where
  wf := Registry.wf_fromConfigs _
  wf' := Registry.wf_fromConfigs _
  aliases := by
    intro b hb
    obtain ⟨leaf, hleaf⟩ := Registry.mem_aliases.mp hb
    rw [getLeaf_offering] at hleaf
    split at hleaf
    · rename_i hba
      rw [hba]
      exact ha
    · simp at hleaf
  aliases' := by
    intro b hb
    obtain ⟨leaf, hleaf⟩ := Registry.mem_aliases.mp hb
    exact absurd hleaf (by simp [offering, FederationState.ofLeaves, Registry.fromConfigs])
  agree := agreeOn_offering hout

/-- Lists that pass for the same have the same length. -/
theorem Within.length_eq {s s' : FederationState} {key : String} {items items' : List Value}
    (h : Within list (answer s (successResponse request (.obj [(key, .array items)])))
      (answer s' (successResponse request (.obj [(key, .array items')])))) :
    items.length = items'.length := by
  obtain ⟨hsame, -⟩ := h
  simp only [answer] at hsame
  generalize hr : successResponse request (.obj [(key, .array items)]) = r at hsame
  generalize hr' : successResponse request (.obj [(key, .array items')]) = r' at hsame
  cases hsame with
  | refl r => 
      rw [← hr'] at hr
      simp [successResponse, Value.obj, Members.insert] at hr
      rw [hr]
  | list request' key' hperm =>
      simp [successResponse, Value.obj, Members.insert] at hr hr'
      rw [hr.2.2, hr'.2.2]
      exact hperm.length_eq

theorem length_aggregated_offering (cached : LeafCells → List Value)
    (publish : String → Value → Option Value) :
    ((offering [a]).leaves.aggregated cached publish).length
      = ((cached oneOfEach).filterMap (publish a)).length := by
  rw [Leaves.aggregated, healthyLeaves_offering]
  simp [onlyLeaf, Leaves.cellsOf, offering, FederationState.ofLeaves]

/-- A list of everything shows the leaf. -/
theorem not_within_aggregated {key : String} (cached : LeafCells → List Value)
    (publish : String → Value → Option Value)
    (hone : ((cached oneOfEach).filterMap (publish a)).length = 1) :
    ¬ Within list
      (answer (offering [a]) (successResponse request
        (.obj [(key, .array ((offering [a]).leaves.aggregated cached publish))])))
      (answer (offering []) (successResponse request
        (.obj [(key, .array ((offering []).leaves.aggregated cached publish))]))) := by
  intro hwithin
  have hlen := hwithin.length_eq
  rw [length_aggregated_offering, hone] at hlen
  exact absurd hlen Nat.one_ne_zero

/-- A leaf that is outside the list and published under an alias that is let through. -/
theorem not_within_toolsList (hctx : ctx.allowedServers = some list) (hstar : "*" ∉ list)
    (h : publishedAlias a = "federation" ∨ publishedAlias a ∈ list) :
    ¬ Within list (handleToolsList (offering [a]) request ctx)
      (handleToolsList (offering []) request ctx) := by
  intro hwithin
  have hlen := hwithin.length_eq
  have hshown : ∀ t ∈ (offering [a]).leaves.aggregated LeafCells.cachedTools namespaceTool,
      ((t.strAt "name").map (toolAllowed ctx)).getD true = true := by
    intro t ht
    obtain ⟨leaf, hleaf, item, -, hitem⟩ := mem_aggregated.mp ht
    rw [healthyLeaves_offering, List.mem_singleton] at hleaf
    subst hleaf
    rw [shown_iff hitem]
    exact (allowsAlias_iff hctx hstar _).mpr h
  simp only [visibleTools, hctx, Option.isSome_some, if_true, Leaves.aggregatedTools,
    List.filter_append, List.length_append, List.filter_eq_self.mpr hshown,
    length_aggregated_offering] at hlen
  exact absurd (Nat.add_left_cancel hlen) Nat.one_ne_zero

/-- A route to the leaf outside the list. -/
theorem not_within_forwardTo (hout : a ∉ list) (f : Forward) {d : Dispatched} :
    ¬ Within list (routedAnswer (offering [a]) request ((offering [a]).leaves.forwardTo env a f))
      d := by
  intro h
  obtain ⟨-, hsent⟩ := h
  have hleaf : (offering [a]).leaves.registry.getLeaf a = some (onlyLeaf a) := by
    rw [getLeaf_offering, if_pos rfl]
  have hforward := Leaves.forwardTo_of_healthy env (offering [a]).leaves f hleaf rfl
  refine hout (hsent (onlyLeaf a, f) ?_)
  show (onlyLeaf a, f) ∈ ((offering [a]).leaves.forwardTo env a f).forwarded
  rw [hforward]
  exact List.mem_singleton.mpr rfl

end

/-! ### The exact condition -/

/-- The request calls one of the federation's own tools. -/
def CallsNative (request : JsonRpcRequest) : Prop :=
  request.method = "tools/call" ∧
    ∃ tool, parseNamespacedName (paramStr request "name") = some ("federation", tool)

theorem confines_of_staysWithin {env : ServerEnv} {ctx : RequestContext} {list : List String}
    {A : String → Prop} {request : JsonRpcRequest} (hctx : ctx.allowedServers = some list)
    (hstar : "*" ∉ list) (hnative : ¬ CallsNative request)
    (h : StaysWithin list A request) : Confines env ctx list A request := by
  intro sessionId s s' hpair
  unfold dispatch
  split
  · exact within_answer _
  · exact within_answer _
  · -- tools/list
    rename_i hmethod
    simp only [StaysWithin, hmethod] at h
    exact hpair.toolsList hctx hstar h
  · -- tools/call
    rename_i hmethod
    refine hpair.toolsCall hctx hstar fun tool htool => ?_
    exact hnative ⟨hmethod, tool, htool⟩
  · -- resources/list
    rename_i hmethod
    simp only [StaysWithin, hmethod] at h
    exact within_items "resources" (hpair.aggregated_perm h _ _)
  · -- resources/read
    rename_i hmethod
    simp only [StaysWithin, hmethod] at h
    exact hpair.resourcesRead h
  · -- prompts/list
    rename_i hmethod
    simp only [StaysWithin, hmethod] at h
    exact within_items "prompts" (hpair.aggregated_perm h _ _)
  · -- prompts/get
    rename_i hmethod
    simp only [StaysWithin, hmethod] at h
    exact hpair.promptsGet h
  · exact within_loggingSetLevel sessionId
  · exact within_answer _
  · exact within_answer _

/-- The other way, by the leaf that would break it: with that one leaf registered and with
none, the lists differ in length, and a request that names the leaf reaches it. -/
theorem staysWithin_of_confines {env : ServerEnv} {ctx : RequestContext} {list : List String}
    {A : String → Prop} {request : JsonRpcRequest} (hctx : ctx.allowedServers = some list)
    (hstar : "*" ∉ list) (h : Confines env ctx list A request) : StaysWithin list A request := by
  unfold StaysWithin
  split
  · -- tools/list
    rename_i hmethod
    intro a ha hout
    have hwithin := h none _ _ (paired_offering ha hout)
    simp only [dispatch, hmethod] at hwithin
    refine ⟨?_, ?_⟩
    · intro hfed
      exact not_within_toolsList hctx hstar (Or.inl hfed) hwithin
    · intro hlist
      exact not_within_toolsList hctx hstar (Or.inr hlist) hwithin
  · -- resources/list
    rename_i hmethod
    intro a ha
    by_contra hout
    have hwithin := h none _ _ (paired_offering ha hout)
    simp only [dispatch, hmethod] at hwithin
    exact not_within_aggregated LeafCells.cachedResources namespaceResource rfl hwithin
  · -- prompts/list
    rename_i hmethod
    intro a ha
    by_contra hout
    have hwithin := h none _ _ (paired_offering ha hout)
    simp only [dispatch, hmethod] at hwithin
    exact not_within_aggregated LeafCells.cachedPrompts namespacePrompt rfl hwithin
  · -- resources/read
    rename_i hmethod
    intro a rest hparse ha
    by_contra hout
    have hwithin := h none _ _ (paired_offering ha hout)
    simp only [dispatch, hmethod, handleResourcesRead, Leaves.routeResourceRead, hparse]
      at hwithin
    exact not_within_forwardTo hout _ hwithin
  · -- prompts/get
    rename_i hmethod
    intro a rest hparse ha
    by_contra hout
    have hwithin := h none _ _ (paired_offering ha hout)
    simp only [dispatch, hmethod, handlePromptsGet, Leaves.routePromptGet, hparse] at hwithin
    exact not_within_forwardTo hout _ hwithin
  · trivial

/--
**Which requests are answered within the list.**

For every context with an allow-list, every set `A` of aliases that may be registered and
every request but a call of a native tool.
-/
theorem confines_iff (env : ServerEnv) (ctx : RequestContext) (list : List String)
    (hctx : ctx.allowedServers = some list) (hstar : "*" ∉ list) (A : String → Prop)
    (request : JsonRpcRequest) (hnative : ¬ CallsNative request) :
    Confines env ctx list A request ↔ StaysWithin list A request :=
  ⟨staysWithin_of_confines hctx hstar, confines_of_staysWithin hctx hstar hnative⟩

/-- A client that may use `wiki`. -/
def wikiClient : RequestContext := ⟨some "client-0", some ["wiki"]⟩

/-- Such a client lists tools while `wiki` and `docs` are registered. -/
theorem wikiClient_toolsList_confined :
    Confines offline wikiClient ["wiki"] (· ∈ ["wiki", "docs"]) ⟨none, "tools/list", .null⟩ := by
  refine (confines_iff offline wikiClient ["wiki"] rfl (by decide) _ _ ?_).mpr ?_
  · intro h
    exact absurd h.1 (by decide)
  · show ∀ a, a ∈ ["wiki", "docs"] → a ∉ ["wiki"] →
      publishedAlias a ≠ "federation" ∧ publishedAlias a ∉ ["wiki"]
    decide

/-- The same client reads a resource of `docs`, and the request is forwarded there. -/
theorem wikiClient_resourcesRead_forwarded :
    ((dispatch offline (offering ["docs"])
        ⟨none, "resources/read", .obj [("uri", .string "docs__x")]⟩ none
        wikiClient).forwarded.map fun sent => sent.1.config.aliasName) = ["docs"] ∧
      ¬ Confines offline wikiClient ["wiki"] (fun _ => True)
        ⟨none, "resources/read", .obj [("uri", .string "docs__x")]⟩ := by
  refine ⟨by decide, fun h => ?_⟩
  have hstays := staysWithin_of_confines (by rfl) (by decide) h
  have hdocs : "docs" ∈ ["wiki"] := hstays "docs" "x" (by decide) trivial
  exact absurd hdocs (by decide)

end McpFederation
