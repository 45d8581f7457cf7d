/-
The catalogue of a federation, as the federation above it knows it.

A warm-up of a leaf that is a federation is a handshake and three lists.  The handshake opens a
session, which is good for the lists because less than a TTL passes; a session that the client
had before does not matter.  `Host.Welcomes.run_initializeAllTask` says what is in the leaf's
cells when it is over: the catalogue of the lower federation, so far as the client may see it,
and the mark that it is one.
-/
import McpFederation.Proofs.Chains
import McpFederation.Proofs.Refresh
import McpFederation.Proofs.Visibility

namespace McpFederation

variable {cenv : ClientEnv} {host : Host} {cl : LeafClient} {ctx : RequestContext}
  {s : SoleClient Hosted}

/-! ### What a client leaves alone -/

/-- From `s` to `s'` the host has answered at most `k` requests of the client, and nothing
has changed there but its sessions. -/
structure Visited (s s' : SoleClient Hosted) (k : Nat) : Prop where
  later : s.leaf.exchanges ≤ s'.leaf.exchanges
  exchanges : s'.leaf.exchanges ≤ s.leaf.exchanges + k
  leaves : s'.leaf.state.leaves = s.leaf.state.leaves
  forwarded : s'.leaf.forwarded = s.leaf.forwarded
  unrestricted : s'.leaf.state.Open
  sendable : Sendable s'.session
  key : s'.leaf.state.sessions.key = s.leaf.state.sessions.key
  ttl : s'.leaf.state.sessions.ttl = s.leaf.state.sessions.ttl

theorem Visited.trans {s₁ s₂ s₃ : SoleClient Hosted} {k l : Nat} (h : Visited s₁ s₂ k)
    (h' : Visited s₂ s₃ l) : Visited s₁ s₃ (k + l) where
  later := h.later.trans h'.later
  exchanges := by
    have hfirst := h.exchanges
    have hsecond := h'.exchanges
    omega
  leaves := h'.leaves.trans h.leaves
  forwarded := h'.forwarded.trans h.forwarded
  unrestricted := h'.unrestricted
  sendable := h'.sendable
  key := h'.key.trans h.key
  ttl := h'.ttl.trans h.ttl

/-- What was promised for a stretch of time is promised for what is left of it. -/
theorem Visited.issues {s s' : SoleClient Hosted} {k n : Nat} (h : Visited s s' k)
    (hissues : host.Issues s.leaf.state.sessions s.leaf.exchanges (s.leaf.exchanges + n))
    {m : Nat} (hm : k + m ≤ n) :
    host.Issues s'.leaf.state.sessions s'.leaf.exchanges (s'.leaf.exchanges + m) := by
  have hcongr := hissues.congr h.key h.ttl
  have hlater := h.later
  have hexchanges := h.exchanges
  exact ⟨hcongr.jwt, hcongr.faithful, hcongr.visible,
    fun i j hi hij hj => hcongr.brisk i j (by omega) hij (by omega)⟩

/-! ### The handshake -/

/-- What a result of the handshake is made of. -/
theorem LeafClient.run_finishInitialize {S : Type} {exec : (c : ClientCall) → S → c.Reply × S}
    {s s' : S} {reqId : UInt64} {result : Value}
    (hnotify : (cl.notifyInitialized cenv).run.run exec s = (.ok (), s'))
    (hvalue : (initializeAnswer reqId).result = some result) :
    (cl.finishInitialize cenv 200 (responseValue (initializeAnswer reqId))).run.run exec s
      = (.ok result, s') := by
  have hresult : (responseValue (initializeAnswer reqId)).get? "result" = some result :=
    (get?_responseValue _).2.trans hvalue
  rw [LeafClient.finishInitialize, if_pos (by decide), ClientM.run_bind_ok hnotify, hresult]
  rfl

/-- A client without sessions shakes hands too, and stores nothing. -/
theorem Host.Welcomes.run_initialize_plain (h : host.Welcomes cenv cl ctx)
    (hcl : cl.transport ≠ .streamableHttp) (hopen : s.leaf.state.Open) (hsend : Sendable s.session)
    (reqId : UInt64) :
    ∃ s', (cl.sendOnce cenv (LeafClient.initializeRequest reqId)).run.run
          (SoleClient.exec host.answer) s
        = (.ok (200, responseValue (initializeAnswer reqId)), s') ∧ Visited s s' 1 := by
  have hrun := h.run_initialize hopen hsend reqId
  rw [if_neg hcl] at hrun
  exact ⟨_, hrun, Nat.le_succ _, le_refl _, rfl, rfl, hopen.withSessions _, hsend, rfl, rfl⟩

theorem Host.Welcomes.run_notifyInitialized_plain (h : host.Welcomes cenv cl ctx)
    (hcl : cl.transport ≠ .streamableHttp) (hopen : s.leaf.state.Open)
    (hsend : Sendable s.session) :
    ∃ s', (cl.notifyInitialized cenv).run.run (SoleClient.exec host.answer) s = (.ok (), s') ∧
      Visited s s' 1 := by
  have hcheck : checkSession (host.env s.leaf.exchanges) s.leaf.state (cl.sent s.session)
      = some s.leaf.state := by
    rw [LeafClient.sent, if_neg hcl]
    rfl
  have hnotify := h.run_admitted hopen hsend exact_initializedNotification
    requestOf_initializedNotification (by decide) hcheck hopen (exact_initializedResponse _ _ _ _)
  exact ⟨_, LeafClient.run_notifyInitialized hnotify, Nat.le_succ _, le_refl _, rfl,
    List.append_nil _, hopen, hsend, rfl, rfl⟩

/-- **A handshake with a federation succeeds**, and changes nothing but its sessions. -/
theorem Host.Welcomes.run_handshake (h : host.Welcomes cenv cl ctx) (hopen : s.leaf.state.Open)
    (hsend : Sendable s.session)
    (hissues : host.Issues s.leaf.state.sessions s.leaf.exchanges (s.leaf.exchanges + 1)) :
    ∃ result s', (cl.initializeLeaf cenv).run.run (SoleClient.exec host.answer) s
        = (.ok result, s') ∧ (initializeAnswer s.nextId).result = some result ∧
      Visited s s' 2 := by
  by_cases hcl : cl.transport = .streamableHttp
  · obtain ⟨result, s', id, hrun, hvalue, hin⟩ :=
      h.run_initializeLeaf hcl hopen hissues (le_refl _) (le_refl _)
    refine ⟨result, s', hrun, hvalue, ?_⟩
    have hsent : Sendable s'.session := by
      rw [hin.session]
      exact hin.sendable
    exact ⟨hin.exchanges ▸ by omega, hin.exchanges ▸ by omega, hin.leaves, hin.forwarded,
      hin.unrestricted, hsent, hin.key, hin.ttl⟩
  · have hclear : cl.clearSession.run.run (SoleClient.exec host.answer) s = (.ok (), s) := by
      rw [LeafClient.clearSession, if_neg hcl]
      rfl
    have hid : (ClientM.perform .nextRequestId).run.run (SoleClient.exec host.answer) s
        = (.ok s.nextId, { s with nextId := s.nextId + 1 }) := rfl
    obtain ⟨s₁, hinit, hfirst⟩ := h.run_initialize_plain (s := { s with nextId := s.nextId + 1 })
      hcl hopen hsend s.nextId
    obtain ⟨s₂, hnotify, hsecond⟩ := h.run_notifyInitialized_plain hcl hfirst.unrestricted
      hfirst.sendable
    obtain ⟨result, hvalue⟩ : ∃ v, (initializeAnswer s.nextId).result = some v := ⟨_, rfl⟩
    have hboth := hfirst.trans hsecond
    refine ⟨result, s₂, ?_, hvalue, hboth.later, hboth.exchanges, hboth.leaves, hboth.forwarded,
      hboth.unrestricted, hboth.sendable, hboth.key, hboth.ttl⟩
    unfold LeafClient.initializeLeaf
    rw [ClientM.run_bind_ok hclear, ClientM.run_bind_ok hid]
    exact (ClientM.run_bind_ok hinit).trans (LeafClient.run_finishInitialize hnotify hvalue)

/-! ### The lists -/

namespace ItemKind

/-- The method that lists the items of a kind. -/
def listMethod : ItemKind → String
  | tool => "tools/list"
  | resource => "resources/list"
  | prompt => "prompts/list"

/-- The member of its result that has the items. -/
def listKey : ItemKind → String
  | tool => "tools"
  | resource => "resources"
  | prompt => "prompts"

/-- What of its catalogue a federation shows in this context. -/
def shown (ctx : RequestContext) (w : Leaves) : ItemKind → List Value
  | tool => visibleTools ctx w.aggregatedTools
  | resource => w.aggregatedResources
  | prompt => w.aggregatedPrompts

theorem mem_catalogue_of_shown {kind : ItemKind} {w : Leaves} {item : Value}
    (h : item ∈ kind.shown ctx w) : item ∈ kind.catalogue w := by
  cases kind with
  | tool =>
      change item ∈ visibleTools ctx w.aggregatedTools at h
      unfold visibleTools at h
      split at h
      · exact (List.mem_filter.mp h).1
      · exact h
  | resource => exact h
  | prompt => exact h

theorem dispatch_list (kind : ItemKind) (env : ServerEnv) (state : FederationState)
    (id : Option Value) (params : Value) (sid : Option String) (ctx : RequestContext) :
    dispatch env state ⟨id, kind.listMethod, params⟩ sid ctx
      = answer state (successResponse ⟨id, kind.listMethod, params⟩
          (.obj [(kind.listKey, .array (kind.shown ctx state.leaves))])) := by
  cases kind <;> rfl

theorem listMethod_ne_initialize (kind : ItemKind) : kind.listMethod ≠ "initialize" := by
  cases kind <;> decide

end ItemKind

/-- Everything the leaves have in their caches survives being written as JSON. -/
def Leaves.Exact (w : Leaves) : Prop :=
  ∀ leaf (kind : ItemKind), ∀ item ∈ kind.cached (w.cellsOf leaf), item.Exact

theorem exact_namespaceItem {idKey textKey a : String} {item published : Value} (h : item.Exact)
    (hpublished : namespaceItem idKey textKey a item = some published) : published.Exact := by
  unfold namespaceItem at hpublished
  cases hname : item.strAt idKey with
  | none =>
      rw [hname] at hpublished
      cases hpublished
  | some name =>
      rw [hname] at hpublished
      cases hpublished
      exact Value.exact_setKey (Value.exact_setKey h (.string _) _) (.string _) _

theorem exact_nativeTools : ∀ item ∈ nativeTools, item.Exact := by
  have hschema : ∀ properties required, (inputSchema properties required).Exact := by
    intro properties required
    refine Value.exact_obj fun member hmem => ?_
    simp only [List.mem_cons, List.not_mem_nil, or_false] at hmem
    rcases hmem with rfl | rfl | rfl
    · exact .string _
    · refine Value.exact_obj fun member hmem => ?_
      obtain ⟨p, -, rfl⟩ := List.mem_map.mp hmem
      refine Value.exact_obj fun member hmem => ?_
      simp only [List.mem_cons, List.not_mem_nil, or_false] at hmem
      rcases hmem with rfl | rfl <;> exact .string _
    · refine .array fun v hv => ?_
      obtain ⟨name, -, rfl⟩ := List.mem_map.mp hv
      exact .string _
  have htool : ∀ name description properties required,
      (nativeTool name description (inputSchema properties required)).Exact := by
    intro name description properties required
    refine Value.exact_obj fun member hmem => ?_
    simp only [List.mem_cons, List.not_mem_nil, or_false] at hmem
    rcases hmem with rfl | rfl | rfl
    · exact .string _
    · exact .string _
    · exact hschema _ _
  intro item hitem
  simp only [nativeTools, List.mem_cons, List.not_mem_nil, or_false] at hitem
  rcases hitem with rfl | rfl | rfl | rfl | rfl <;> exact htool _ _ _ _

/-- The catalogue of exact items is exact. -/
theorem Leaves.Exact.catalogue {w : Leaves} (h : w.Exact) (kind : ItemKind) :
    ∀ item ∈ kind.catalogue w, item.Exact := by
  have haggregated : ∀ (kind : ItemKind) (idKey textKey : String),
      ∀ item ∈ w.aggregated kind.cached (namespaceItem idKey textKey), item.Exact := by
    intro kind idKey textKey item hitem
    obtain ⟨leaf, -, cached, hcached, hpublished⟩ := mem_aggregated.mp hitem
    exact exact_namespaceItem (h leaf kind cached hcached) hpublished
  intro item hitem
  cases kind with
  | tool =>
      rcases List.mem_append.mp hitem with hnative | hitem
      · exact exact_nativeTools item hnative
      · exact haggregated .tool "name" "description" item hitem
  | resource => exact haggregated .resource "uri" "name" item hitem
  | prompt => exact haggregated .prompt "name" "description" item hitem

/-- **A list of a federation's items is what it shows of its catalogue.** -/
theorem Host.Welcomes.run_listItems (h : host.Welcomes cenv cl ctx) (hopen : s.leaf.state.Open)
    (hsend : Sendable s.session)
    (hissues : host.Issues s.leaf.state.sessions s.leaf.exchanges (s.leaf.exchanges + 3))
    (hexact : s.leaf.state.leaves.Exact) (kind : ItemKind) :
    ∃ s', (cl.listItems cenv kind.listMethod kind.listKey).run.run (SoleClient.exec host.answer) s
        = (.ok (kind.shown ctx s.leaf.state.leaves), s') ∧ Visited s s' 4 := by
  have hid : (ClientM.perform .nextRequestId).run.run (SoleClient.exec host.answer) s
      = (.ok s.nextId, { s with nextId := s.nextId + 1 }) := rfl
  let result := Value.obj [(kind.listKey, .array (kind.shown ctx s.leaf.state.leaves))]
  let request : JsonRpcRequest :=
    ⟨some (.number (.posInt s.nextId)), kind.listMethod, .obj []⟩
  have hdispatched : ∀ n state sid, state.leaves = s.leaf.state.leaves →
      host.dispatched n state request sid ctx
        = McpFederation.answer state (successResponse request result) := by
    intro n state sid hleaves
    rw [Host.dispatched, kind.dispatch_list, hleaves]
  have hresponse : ∀ n state sid, state.leaves = s.leaf.state.leaves →
      (responseValue (host.dispatched n state request sid ctx).response).Exact := by
    intro n state sid hleaves
    rw [hdispatched n state sid hleaves]
    refine exact_responseValue (fun v hv => ?_) (fun v hv => ?_) fun e he => by cases he
    · cases hv
      exact .posInt _
    · cases hv
      refine Value.exact_obj fun member hmem => ?_
      obtain rfl := List.mem_singleton.mp hmem
      exact .array fun v hv => hexact.catalogue kind v (ItemKind.mem_catalogue_of_shown hv)
  obtain ⟨response, s', n, state, sid, hrun, honce⟩ := run_sendRequest
    (s := { s with nextId := s.nextId + 1 }) h hopen hsend
    (exact_rpcRequest s.nextId kind.listMethod exact_emptyObj)
    (requestOf_rpcRequest s.nextId kind.listMethod (.obj [])) kind.listMethod_ne_initialize
    hissues hresponse
  have hanswer := hdispatched n state sid honce.before
  have hvalue : response = successResponse request result := by
    rw [honce.response]
    exact congrArg Dispatched.response hanswer
  have hstate : s'.leaf.state = state := by
    rw [honce.after]
    exact congrArg Dispatched.state hanswer
  have hforwarded : s'.leaf.forwarded = s.leaf.forwarded := by
    rw [honce.forwarded]
    exact (congrArg (s.leaf.forwarded ++ ·) (congrArg Dispatched.forwarded hanswer)).trans
      (List.append_nil _)
  have hlater : s.leaf.exchanges ≤ s'.leaf.exchanges ∧
      s'.leaf.exchanges ≤ s.leaf.exchanges + 4 := by
    have hn := honce.exchanges
    have hwhich : n = s.leaf.exchanges ∨ n = s.leaf.exchanges + 3 := honce.exchange
    omega
  refine ⟨s', ?_, hlater.1, hlater.2, hstate ▸ honce.before, hforwarded, honce.unrestricted,
    honce.sendable, honce.key, honce.ttl⟩
  unfold LeafClient.listItems
  rw [ClientM.run_bind_ok hid, ClientM.run_bind_ok hrun, hvalue, (get?_responseValue _).2]
  have hlist : ((((successResponse request result).result.bind (·.get? kind.listKey)).bind
      Value.asArray).getD []) = kind.shown ctx s.leaf.state.leaves := by
    show (((Value.obj [(kind.listKey, _)]).get? kind.listKey).bind Value.asArray).getD [] = _
    simp [Value.obj, Value.get?, Value.asArray, Members.insert, Members.get?]
  rw [hlist]
  rfl

/-! ### The warm-up -/

/-- A task of the upper federation, alone with the host; the clock may show anything. -/
def Host.around (host : Host) (clock : SoleClient Hosted → Nat) :
    Surroundings (SoleClient Hosted) where
  client := SoleClient.exec host.answer
  getOk := fun _ s => (.ok (), s)
  now := fun s => (clock s, s)

theorem run_fetchInto {S : Type} {out : Surroundings S} {list : ClientM (List Value)}
    {items : List Value} {s s' : S} (h : list.run.run out.client s = (.ok items, s'))
    (store : List Value → LeafM Unit) (cells : LeafCells) :
    (fetchInto list store).run out.exec (s, cells) = (store items).run out.exec (s', cells) := by
  unfold fetchInto
  rw [Prog.run_bind, out.run_ask, h]

/-- A warm-up whose handshake succeeds. -/
theorem Host.run_warmUp {clock : SoleClient Hosted → Nat} {s' : SoleClient Hosted} {result : Value}
    (h : (cl.initializeLeaf cenv).run.run (SoleClient.exec host.answer) s = (.ok result, s'))
    (afterInit : Value → LeafM Unit) (cells : LeafCells) :
    ((warmUp cenv cl afterInit).run (host.around clock).exec (s, cells)).2
      = ((afterInit result).run (host.around clock).exec
          (s', LeafCells.markHealthy (clock s') cells)).2 := by
  have hask : (LeafM.ask (cl.initializeLeaf cenv)).run (host.around clock).exec (s, cells)
      = (.ok result, s', cells) := by
    rw [(host.around clock).run_ask]
    show ((Prog.run (SoleClient.exec host.answer) _ s).1,
      (Prog.run (SoleClient.exec host.answer) _ s).2, cells) = _
    rw [h]
  unfold warmUp
  rw [Prog.run_bind, hask]
  show ((LeafM.markHealthy >>= fun _ => afterInit result >>= fun _ => pure true).run
    (host.around clock).exec (s', cells)).2 = _
  rw [Prog.run_bind, Prog.run_bind]
  rfl

theorem Host.run_keepServerInfo {clock : SoleClient Hosted → Nat} {result info : Value}
    (h : result.get? "serverInfo" = some info) (cells : LeafCells) :
    (keepServerInfo result).run (host.around clock).exec (s, cells)
      = ((), s, { cells with serverInfo := some info }) := by
  unfold keepServerInfo
  rw [h]
  rfl

/-- The cells of a leaf hold what the lower federation shows, and say that it is one. -/
structure Mirrors (ctx : RequestContext) (lower : Leaves) (cells : LeafCells) : Prop where
  healthy : cells.isHealthy = true
  federation : cells.isFederation = true
  items : ∀ kind : ItemKind, kind.cached cells = kind.shown ctx lower

theorem serverInfo_initializeAnswer {reqId : UInt64} {result : Value}
    (h : (initializeAnswer reqId).result = some result) :
    ∃ info, result.get? "serverInfo" = some info ∧ info.strAt "name" = some "mcp-federation" := by
  cases h
  exact ⟨_, rfl, rfl⟩

/-- **A warm-up mirrors the lower federation.** -/
theorem Host.Welcomes.run_initializeAllTask (h : host.Welcomes cenv cl ctx)
    (hopen : s.leaf.state.Open) (hsend : Sendable s.session)
    (hissues : host.Issues s.leaf.state.sessions s.leaf.exchanges (s.leaf.exchanges + 13))
    (hexact : s.leaf.state.leaves.Exact) (clock : SoleClient Hosted → Nat) (cells : LeafCells) :
    ∃ s' cells', (initializeAllTask cenv cl).run (host.around clock).exec (s, cells)
        = ((), s', cells') ∧
      Mirrors ctx s.leaf.state.leaves cells' ∧ Visited s s' 14 := by
  have hself : Visited s s 0 :=
    ⟨le_refl _, le_refl _, rfl, rfl, hopen, hsend, rfl, rfl⟩
  obtain ⟨result, s₁, hinit, hvalue, h₁⟩ := h.run_handshake hopen hsend
    (hself.issues hissues (by decide))
  obtain ⟨info, hinfo, hname⟩ := serverInfo_initializeAnswer hvalue
  have hexact₁ : s₁.leaf.state.leaves.Exact := h₁.leaves ▸ hexact
  obtain ⟨s₂, htools, h₂⟩ := h.run_listItems h₁.unrestricted h₁.sendable
    (h₁.issues hissues (by decide)) hexact₁ .tool
  have h₂' := h₁.trans h₂
  have hexact₂ : s₂.leaf.state.leaves.Exact := h₂'.leaves ▸ hexact
  obtain ⟨s₃, hresources, h₃⟩ := h.run_listItems h₂'.unrestricted h₂'.sendable
    (h₂'.issues hissues (by decide)) hexact₂ .resource
  have h₃' := h₂'.trans h₃
  have hexact₃ : s₃.leaf.state.leaves.Exact := h₃'.leaves ▸ hexact
  obtain ⟨s₄, hprompts, h₄⟩ := h.run_listItems h₃'.unrestricted h₃'.sendable
    (h₃'.issues hissues (by decide)) hexact₃ .prompt
  rw [h₁.leaves] at htools
  rw [h₂'.leaves] at hresources
  rw [h₃'.leaves] at hprompts
  have hrun : (initializeAllTask cenv cl).run (host.around clock).exec (s, cells)
      = ((), s₄,
          { LeafCells.setTools (clock s₂) (ItemKind.shown ctx s.leaf.state.leaves .tool)
              { LeafCells.markHealthy (clock s₁) cells with serverInfo := some info } with
            cachedResources := ItemKind.shown ctx s.leaf.state.leaves .resource
            cachedPrompts := ItemKind.shown ctx s.leaf.state.leaves .prompt }) := by
    refine Prod.ext rfl ?_
    unfold initializeAllTask
    rw [Prog.run_bind]
    refine (Host.run_warmUp hinit _ cells).trans ?_
    unfold keepEverything
    rw [Prog.run_bind, Host.run_keepServerInfo hinfo, Prog.run_bind]
    have hfetched : ∀ cells, (fetchTools cenv cl).run (host.around clock).exec (s₁, cells)
        = ((), s₂, LeafCells.setTools (clock s₂)
            (ItemKind.shown ctx s.leaf.state.leaves .tool) cells) :=
      fun cells => run_fetchInto htools _ cells
    rw [hfetched, Prog.run_bind]
    have hread : ∀ cells, (fetchResources cenv cl).run (host.around clock).exec (s₂, cells)
        = ((), s₃, { cells with
            cachedResources := ItemKind.shown ctx s.leaf.state.leaves .resource }) :=
      fun cells => run_fetchInto hresources _ cells
    rw [hread]
    exact congrArg Prod.snd (run_fetchInto hprompts _ _)
  refine ⟨s₄, _, hrun, ⟨rfl, ?_, ?_⟩, h₃'.trans h₄⟩
  · exact decide_eq_true hname
  · intro kind
    cases kind <;> rfl

/-! ### Published again -/

theorem forall₂_filterMap {α β : Type} {f : α → Option β} {l : List α}
    (h : ∀ a ∈ l, (f a).isSome = true) :
    List.Forall₂ (fun a b => f a = some b) l (l.filterMap f) := by
  induction l with
  | nil => exact .nil
  | cons a rest ih =>
      obtain ⟨b, hb⟩ := Option.isSome_iff_exists.mp (h a List.mem_cons_self)
      rw [List.filterMap_cons_some hb]
      exact .cons hb (ih fun a' ha' => h a' (List.mem_cons_of_mem _ ha'))

namespace ItemKind

/-- The member that describes an item. -/
def textKey : ItemKind → String
  | tool => "description"
  | resource => "name"
  | prompt => "description"

theorem publish_eq (kind : ItemKind) : kind.publish = namespaceItem kind.idKey kind.textKey := by
  cases kind <;> rfl

/-- What a federation publishes has a name. -/
theorem strAt_of_mem_catalogue {kind : ItemKind} {w : Leaves} {item : Value}
    (h : item ∈ kind.catalogue w) : ∃ name, item.strAt kind.idKey = some name := by
  have haggregated : ∀ {cached : LeafCells → List Value} {idKey textKey : String},
      textKey ≠ idKey → item ∈ w.aggregated cached (namespaceItem idKey textKey) →
      ∃ name, item.strAt idKey = some name := by
    intro cached idKey textKey hne hitem
    obtain ⟨leaf, -, original, -, hpublished⟩ := mem_aggregated.mp hitem
    obtain ⟨name, -, hname, -, -⟩ := namespaceItem_spec hne hpublished
    exact ⟨_, hname⟩
  cases kind with
  | tool =>
      rcases List.mem_append.mp h with hnative | h
      · simp only [nativeTools, List.mem_cons, List.not_mem_nil, or_false] at hnative
        rcases hnative with rfl | rfl | rfl | rfl | rfl <;> exact ⟨_, rfl⟩
      · exact haggregated (by decide) h
  | resource => exact haggregated (by decide) h
  | prompt => exact haggregated (by decide) h

theorem mem_shown {kind : ItemKind} {w : Leaves} {item : Value} {name : String}
    (h : item ∈ kind.catalogue w) (hname : item.strAt kind.idKey = some name)
    (hpermitted : kind.permitted ctx name = true) : item ∈ kind.shown ctx w := by
  cases kind with
  | tool =>
      show item ∈ visibleTools ctx w.aggregatedTools
      unfold visibleTools
      split
      · refine List.mem_filter.mpr ⟨h, ?_⟩
        change item.strAt "name" = some name at hname
        rw [hname]
        exact hpermitted
      · exact h
  | resource => exact h
  | prompt => exact h

end ItemKind

/-- The item of a lower federation and what the upper one makes of it under the alias `a`. -/
def Republished (kind : ItemKind) (a : String) (item published : Value) : Prop :=
  ∃ name, item.strAt kind.idKey = some name ∧
    published.strAt kind.idKey = some (namespaced a name) ∧
    ∀ key, key ≠ kind.idKey → key ≠ kind.textKey → published.get? key = item.get? key

theorem republished_of_publish {kind : ItemKind} {a : String} {item published : Value}
    (h : kind.publish a item = some published) : Republished kind a item published := by
  have hne : kind.textKey ≠ kind.idKey := by cases kind <;> decide
  rw [kind.publish_eq] at h
  obtain ⟨name, hname, hid, -, hother⟩ := namespaceItem_spec hne h
  exact ⟨name, hname, hid, hother⟩

theorem isSome_publish {kind : ItemKind} {a : String} {w : Leaves} {item : Value}
    (h : item ∈ kind.catalogue w) : (kind.publish a item).isSome = true := by
  obtain ⟨name, hname⟩ := ItemKind.strAt_of_mem_catalogue h
  rw [kind.publish_eq, Option.isSome_iff_ne_none, ne_eq, namespaceItem_eq_none, hname]
  exact Option.some_ne_none _

/--
**The catalogue of a federation is republished whole.**  After the warm-up of a leaf that is a
federation, what the leaf contributes to the upper catalogue is what the lower federation shows
to the client, item by item and in order, and the leaf is known for a federation.  The lower
federation is left as it was, but for its sessions.
-/
theorem warmUp_republishes (h : host.Welcomes cenv cl ctx)
    (hopen : s.leaf.state.Open) (hsend : Sendable s.session)
    (hissues : host.Issues s.leaf.state.sessions s.leaf.exchanges (s.leaf.exchanges + 13))
    (hexact : s.leaf.state.leaves.Exact) (clock : SoleClient Hosted → Nat) (cells : LeafCells)
    (a : String) :
    ∃ s' cells', (initializeAllTask cenv cl).run (host.around clock).exec (s, cells)
        = ((), s', cells') ∧
      cells'.isHealthy = true ∧ cells'.isFederation = true ∧
      (∀ kind : ItemKind, List.Forall₂ (Republished kind a) (kind.shown ctx s.leaf.state.leaves)
        ((kind.cached cells').filterMap (kind.publish a))) ∧
      Visited s s' 14 := by
  obtain ⟨s', cells', hrun, hmirrors, hvisited⟩ :=
    h.run_initializeAllTask hopen hsend hissues hexact clock cells
  refine ⟨s', cells', hrun, hmirrors.healthy, hmirrors.federation, ?_, hvisited⟩
  intro kind
  rw [hmirrors.items kind]
  have hall := forall₂_filterMap (f := kind.publish a) (l := kind.shown ctx s.leaf.state.leaves)
    fun item hitem => isSome_publish (ItemKind.mem_catalogue_of_shown hitem)
  exact hall.imp fun _ _ hpublished => republished_of_publish hpublished

/-! ### Through any number of levels -/

/-- `Descends`, where every level has mirrored the one below. -/
inductive Exposed (kind : ItemKind) (bottomEnv : ServerEnv) (bottom : Leaves) (name : String) :
    ServerEnv → Leaves → List String → String → Prop
  | here : Exposed kind bottomEnv bottom name bottomEnv bottom [] name
  | down {env : ServerEnv} {w : Leaves} {a inner : String} {path : List String}
      (l : Link env w a) (ha : Routable a) (hpermitted : kind.permitted l.ctx inner = true)
      (hmirrors : Mirrors l.ctx l.lower (w.cellsOf l.leaf))
      (h : Exposed kind bottomEnv bottom name l.lowerEnv l.lower path inner) :
      Exposed kind bottomEnv bottom name env w (a :: path) (namespaced a inner)

section

variable {kind : ItemKind} {bottomEnv env : ServerEnv} {bottom w : Leaves} {name top : String}
  {path : List String}

theorem Exposed.descends (h : Exposed kind bottomEnv bottom name env w path top) :
    Descends kind bottomEnv bottom name env w path top := by
  induction h with
  | here => exact .here
  | down l ha hpermitted _ _ ih => exact .down l ha hpermitted ih

/-- What a mirrored federation publishes, the upper one publishes too. -/
theorem Link.mem_catalogue {a : String} (l : Link env w a)
    (hmirrors : Mirrors l.ctx l.lower (w.cellsOf l.leaf)) {item : Value} {inner : String}
    (hitem : item ∈ kind.catalogue l.lower) (hname : item.strAt kind.idKey = some inner)
    (hpermitted : kind.permitted l.ctx inner = true) :
    ∃ published ∈ kind.catalogue w, Republished kind a item published := by
  obtain ⟨published, hpublished⟩ := Option.isSome_iff_exists.mp
    (isSome_publish (a := a) hitem)
  refine ⟨published, ?_, republished_of_publish hpublished⟩
  have hoffers : Offers w kind l.leaf inner item := by
    refine ⟨mem_healthyLeaves.mpr ⟨⟨a, l.registered⟩, l.healthy⟩, ?_, hname⟩
    rw [hmirrors.items kind]
    exact ItemKind.mem_shown hitem hname hpermitted
  refine hoffers.mem_catalogue ?_
  rw [l.named]
  exact hpublished

/-- An item comes up under the alias of every level, and otherwise as it is. -/
theorem Exposed.mem_catalogue (h : Exposed kind bottomEnv bottom name env w path top)
    {item : Value} (hitem : item ∈ kind.catalogue bottom)
    (hname : item.strAt kind.idKey = some name) :
    ∃ published ∈ kind.catalogue w, published.strAt kind.idKey = some top ∧
      ∀ key, key ≠ kind.idKey → key ≠ kind.textKey → published.get? key = item.get? key := by
  induction h with
  | here => exact ⟨item, hitem, hname, fun _ _ _ => rfl⟩
  | @down env w a inner path l ha hpermitted hmirrors _ ih =>
      obtain ⟨below, hbelow, hinner, hkept⟩ := ih
      obtain ⟨published, hpublished, inner', hinner', htop, hother⟩ :=
        l.mem_catalogue hmirrors hbelow hinner hpermitted
      obtain rfl : inner = inner' := Option.some_inj.mp (hinner.symm.trans hinner')
      refine ⟨published, hpublished, htop, ?_⟩
      intro key hid htext
      rw [hother key hid htext, hkept key hid htext]

/--
**What the bottom federation publishes can be called from the top.**  It is in the top's
catalogue under a name that has the alias of every level on the way, with everything but its
name and its description as it is at the bottom; and to call it there is to call it at the
bottom.
-/
theorem exposed_published_and_called (h : Exposed kind bottomEnv bottom name env w path top)
    {item : Value} (hitem : item ∈ kind.catalogue bottom)
    (hname : item.strAt kind.idKey = some name) (arguments : Value) (harguments : arguments.Exact)
    (hexact : ∀ v, (kind.route bottomEnv bottom name arguments).result = .ok v → v.Exact) :
    (∃ published ∈ kind.catalogue w, published.strAt kind.idKey = some top ∧
      ∀ key, key ≠ kind.idKey → key ≠ kind.textKey → published.get? key = item.get? key) ∧
    (kind.route env w top arguments).result
      = relayedUp path (kind.route bottomEnv bottom name arguments).result :=
  ⟨h.mem_catalogue hitem hname, routes_down h.descends arguments harguments hexact⟩

end

/-! ### Three levels -/

/-- The registry with one leaf, spoken to in sessions. -/
def leafOnly (a : String) (cells : LeafCells) : Leaves :=
  ⟨Registry.fromConfigs [{ aliasName := a, url := "http://leaf/mcp", transport := .streamableHttp }],
    fun _ => cells⟩

/-- The cells of a leaf that has been warmed up. -/
def mirrorOf (lower : Leaves) : LeafCells where
  cachedTools := lower.aggregatedTools
  cachedResources := lower.aggregatedResources
  cachedPrompts := lower.aggregatedPrompts
  health := .healthy
  serverInfo := some (.obj [("name", .string "mcp-federation")])

theorem mirrors_mirrorOf (lower : Leaves) : Mirrors .anonymous lower (mirrorOf lower) where
  healthy := rfl
  federation := rfl
  items := fun kind => by cases kind <;> rfl

/-- What a federation holds of the one below: a session id from before that one's restart. -/
def clientAbove (lower : Leaves) : SoleClient Hosted := ⟨some "old", 1, restarted lower [0] 0⟩

/-- A federation whose every leaf is a federation with these leaves. -/
def serverAbove (server : ServerEnv) (lower : Leaves) : ServerEnv :=
  { offline with
    client := compactEnv
    net := ⟨fun _ _ p =>
      (p.run.run (SoleClient.exec (freeHost server).answer) (clientAbove lower)).1⟩ }

def linkAbove (server : ServerEnv) (lower : Leaves) (a : String) :
    Link (serverAbove server lower) (leafOnly a (mirrorOf lower)) a where
  leaf := ⟨0, { aliasName := a, url := "http://leaf/mcp", transport := .streamableHttp }⟩
  host := freeHost server
  client := clientAbove lower
  ctx := .anonymous
  registered := AList.lookup_insert _
  named := rfl
  healthy := rfl
  reached := fun _ _ => rfl
  steady := fun _ => rfl
  welcomes := freeHost_welcomes server rfl
  unrestricted := ⟨rfl, rfl⟩
  sendable := fun id hid => by
    cases hid
    decide
  issues := freeHost_issues server rfl _ _

/-- A server whose leaves answer everything with an empty result. -/
def plainServer : ServerEnv :=
  { offline with
    client := plainEnv
    net := ⟨fun _ _ p =>
      (p.run.run (SoleClient.exec fun post s => (.ok (plainLeaf.accepted post), s))
        (⟨none, 1, ()⟩ : SoleClient Unit)).1⟩ }

theorem ItemKind.permitted_anonymous (kind : ItemKind) (name : String) :
    kind.permitted .anonymous name = true := by
  cases kind with
  | tool =>
      show toolAllowed .anonymous name = true
      unfold toolAllowed
      cases parseNamespacedName name with
      | none => rfl
      | some p =>
          have hlist : ¬ RequestContext.anonymous.allowedServers.isSome = true :=
            Bool.false_ne_true
          exact allowsAlias_of_no_list hlist p.1
  | resource => rfl
  | prompt => rfl

def wikiAlone : Leaves :=
  leafOnly "wiki" { cachedTools := [.obj [("name", .string "get"), ("strict", .bool true)]] }

theorem wikiAlone_exact : wikiAlone.Exact := by
  intro leaf kind item hitem
  cases kind with
  | tool =>
      obtain rfl := List.mem_singleton.mp hitem
      refine Value.exact_obj fun member hmem => ?_
      simp only [List.mem_cons, List.not_mem_nil, or_false] at hmem
      rcases hmem with rfl | rfl
      · exact .string _
      · exact .bool _
  | resource => cases hitem
  | prompt => cases hitem

/-- A federation with the leaf `wiki` is warmed up by one that holds an old session id. -/
theorem wiki_republished :
    ∃ s' cells', (initializeAllTask compactEnv streamableClient).run
          ((freeHost plainServer).around fun _ => 0).exec (clientAbove wikiAlone, {})
        = ((), s', cells') ∧
      cells'.isHealthy = true ∧ cells'.isFederation = true ∧
      (∀ kind : ItemKind, List.Forall₂ (Republished kind "eu")
        (kind.shown .anonymous wikiAlone) ((kind.cached cells').filterMap (kind.publish "eu"))) ∧
      Visited (clientAbove wikiAlone) s' 14 := by
  refine warmUp_republishes (freeHost_welcomes plainServer rfl) ⟨rfl, rfl⟩ ?_
    (freeHost_issues plainServer rfl _ _) wikiAlone_exact _ _ "eu"
  intro id hid
  cases hid
  decide

def euAbove : Leaves := leafOnly "eu" (mirrorOf wikiAlone)

/-- A tool of the leaf `wiki`, published and called through two federations above its own. -/
theorem wiki_called_through_two :
    (∃ published ∈ ItemKind.tool.catalogue (leafOnly "top" (mirrorOf euAbove)),
      published.strAt "name" = some (namespaced "top" (namespaced "eu" "wiki__get")) ∧
        ∀ key, key ≠ "name" → key ≠ "description" →
          published.get? key
            = (Value.obj [("name", .string "wiki__get"), ("strict", .bool true),
                ("description", .string "[wiki] ")]).get? key) ∧
    (ItemKind.tool.route (serverAbove (serverAbove plainServer wikiAlone) euAbove)
        (leafOnly "top" (mirrorOf euAbove)) (namespaced "top" (namespaced "eu" "wiki__get"))
        .null).result
      = relayedUp ["top", "eu"]
          (ItemKind.tool.route plainServer wikiAlone "wiki__get" .null).result := by
  have heu : Exposed .tool plainServer wikiAlone "wiki__get"
      (serverAbove plainServer wikiAlone) euAbove ["eu"] (namespaced "eu" "wiki__get") :=
    .down (linkAbove plainServer wikiAlone "eu") ⟨by decide, by decide, by decide⟩
      (ItemKind.permitted_anonymous _ _) (mirrors_mirrorOf wikiAlone) .here
  have htop := Exposed.down (linkAbove (serverAbove plainServer wikiAlone) euAbove "top")
    ⟨by decide, by decide, by decide⟩ (ItemKind.permitted_anonymous _ _)
    (mirrors_mirrorOf euAbove) heu
  have hitem : Value.obj [("name", .string "wiki__get"), ("strict", .bool true),
      ("description", .string "[wiki] ")] ∈ ItemKind.tool.catalogue wikiAlone :=
    List.mem_append_right nativeTools List.mem_cons_self
  refine exposed_published_and_called htop hitem rfl .null .null ?_
  intro v hv
  have hroute : (ItemKind.tool.route plainServer wikiAlone "wiki__get" .null).result
      = .ok (.obj []) := rfl
  rw [hroute] at hv
  cases hv
  exact exact_emptyObj

end McpFederation
