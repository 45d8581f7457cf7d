/-
Published names come back to where they came from.

A leaf's item is published as `alias__name` and routed by splitting at the *first* `__`.
The two agree exactly when the alias, with one underscore appended, has no `__` in it: a
name cannot move the split, but an alias that ends in an underscore can.  `validate` and
`register_server` reject `__` inside an alias and nothing else, so `a_` is admitted, and
its tool `x` is published as `a___x`, which is routed to the leaf `a`.  The alias
`federation` is admitted too, and its tools are answered by the native handler.

`publishesFaithfully_iff` makes that exact for one registry, over everything its leaves may have
cached, and `interleave_publishesFaithfully_iff` for every registry that any interleaving
of the sources can reach.
-/
import McpFederation.Model.Router
import McpFederation.Proofs.Effects

namespace McpFederation

/-! ### Splitting a joined name -/

/-- Splitting at the first `__` finds the alias exactly when no `__` begins in it. -/
theorem parseNamespacedName_namespaced_iff (a name : String) :
    parseNamespacedName (namespaced a name) = some (a, name) ↔
      Text.contains "__" a = false ∧ Text.endsWith '_' a = false := by
  rw [parseNamespacedName, namespaced, Text.splitOnce_double_iff "_" '_' rfl rfl,
    namespaceSeparator, Text.contains_double_append '_' rfl rfl, Bool.or_eq_false_iff]

/-- Wherever the split falls, a wrong alias comes with a wrong name. -/
theorem parseNamespacedName_name_ne {a name x y : String}
    (h : parseNamespacedName (namespaced a name) = some (x, y)) (hne : x ≠ a) : y ≠ name := by
  intro heq
  subst heq
  have hjoin := Text.splitOnce_sound h
  rw [namespaced, String.append_left_inj, String.append_left_inj] at hjoin
  exact hne hjoin.symm

/-! ### The three kinds of item -/

inductive ItemKind where
  | tool
  | resource
  | prompt
deriving DecidableEq

namespace ItemKind

/-- The member that names an item. -/
def idKey : ItemKind → String
  | tool => "name"
  | resource => "uri"
  | prompt => "name"

def cached : ItemKind → LeafCells → List Value
  | tool => LeafCells.cachedTools
  | resource => LeafCells.cachedResources
  | prompt => LeafCells.cachedPrompts

def publish : ItemKind → String → Value → Option Value
  | tool => namespaceTool
  | resource => namespaceResource
  | prompt => namespacePrompt

/-- The aggregated list of a kind. -/
def catalogue (w : Leaves) : ItemKind → List Value
  | tool => w.aggregatedTools
  | resource => w.aggregatedResources
  | prompt => w.aggregatedPrompts

/-- The route of a kind; resources take no arguments. -/
def route (env : ServerEnv) (w : Leaves) : ItemKind → String → Value → Routed
  | tool, name, arguments => w.routeToolCall env name arguments
  | resource, uri, _ => w.routeResourceRead env uri
  | prompt, name, arguments => w.routePromptGet env name arguments

def forward : ItemKind → String → Value → Forward
  | tool, name, arguments => .toolCall name arguments
  | resource, uri, _ => .resourceRead uri
  | prompt, name, arguments => .promptGet name arguments

end ItemKind

/-- A leaf that is not unhealthy has an item of this kind and name in its cache. -/
structure Offers (w : Leaves) (kind : ItemKind) (leaf : LeafEntry) (name : String)
    (item : Value) : Prop where
  healthy : leaf ∈ w.healthyLeaves
  cached : item ∈ kind.cached (w.cellsOf leaf)
  named : item.strAt kind.idKey = some name

/-- Everything on offer is published, under a name that is forwarded to the very leaf it
came from and under the name it has there. -/
def RoutesBack (env : ServerEnv) (w : Leaves) : Prop :=
  ∀ kind leaf name item, Offers w kind leaf name item →
    (∃ published ∈ kind.catalogue w, kind.publish leaf.config.aliasName item = some published ∧
      published.strAt kind.idKey = some (namespaced leaf.config.aliasName name)) ∧
    ∀ arguments, (kind.route env w (namespaced leaf.config.aliasName name) arguments).forwarded
      = [(leaf, kind.forward name arguments)]

/-- Two items with one published name have one alias and one name. -/
def NoCollision (w : Leaves) : Prop :=
  ∀ kind leaf leaf' name name' item item', Offers w kind leaf name item →
    Offers w kind leaf' name' item' →
    namespaced leaf.config.aliasName name = namespaced leaf'.config.aliasName name' →
    leaf.config.aliasName = leaf'.config.aliasName ∧ name = name'

/-- No leaf's tool is published under the name of a native tool. -/
def NoNativeName (w : Leaves) : Prop :=
  ∀ leaf name item, Offers w .tool leaf name item →
    ∀ native ∈ nativeTools, native.strAt "name" ≠ some (namespaced leaf.config.aliasName name)

/-- The catalogue is faithful: names route back, and are nobody else's. -/
structure PublishesFaithfully (env : ServerEnv) (w : Leaves) : Prop where
  routesBack : RoutesBack env w
  noCollision : NoCollision w
  noNativeName : NoNativeName w

/-- An alias whose items keep their names: no `__` begins in it, and it is not taken. -/
structure Routable (a : String) : Prop where
  noSeparator : Text.contains "__" a = false
  noTrailing : Text.endsWith '_' a = false
  notNative : a ≠ "federation"

/-! ### One registry -/

theorem ItemKind.publish_spec (kind : ItemKind) (a : String) {item : Value} {name : String}
    (h : item.strAt kind.idKey = some name) :
    ∃ published, kind.publish a item = some published ∧
      published.strAt kind.idKey = some (namespaced a name) := by
  have key : ∀ idKey textKey, textKey ≠ idKey → item.strAt idKey = some name →
      ∃ published, namespaceItem idKey textKey a item = some published ∧
        published.strAt idKey = some (namespaced a name) := by
    intro idKey textKey hne hname
    have hsome : namespaceItem idKey textKey a item ≠ none := by
      rw [ne_eq, namespaceItem_eq_none, hname]
      simp
    obtain ⟨published, hpub⟩ := Option.ne_none_iff_exists'.mp hsome
    obtain ⟨name', hname', hpubname, -⟩ := namespaceItem_spec hne hpub
    rw [hname, Option.some.injEq] at hname'
    subst hname'
    exact ⟨published, hpub, hpubname⟩
  cases kind with
  | tool => exact key "name" "description" (by decide) h
  | resource => exact key "uri" "name" (by decide) h
  | prompt => exact key "name" "description" (by decide) h

theorem Offers.mem_catalogue {w : Leaves} {kind : ItemKind} {leaf : LeafEntry} {name : String}
    {item published : Value} (h : Offers w kind leaf name item)
    (hpub : kind.publish leaf.config.aliasName item = some published) :
    published ∈ kind.catalogue w := by
  have hmem : published ∈ w.aggregated kind.cached kind.publish :=
    mem_aggregated.mpr ⟨leaf, h.healthy, item, h.cached, hpub⟩
  cases kind with
  | tool => exact List.mem_append_right _ hmem
  | resource => exact hmem
  | prompt => exact hmem

/-- A routable alias gets its names back. -/
theorem ItemKind.route_namespaced (kind : ItemKind) (env : ServerEnv) (w : Leaves) {a : String}
    (ha : Routable a) (name : String) (arguments : Value) :
    kind.route env w (namespaced a name) arguments
      = w.forwardTo env a (kind.forward name arguments) := by
  have hparse : parseNamespacedName (namespaced a name) = some (a, name) :=
    (parseNamespacedName_namespaced_iff a name).mpr ⟨ha.noSeparator, ha.noTrailing⟩
  cases kind with
  | tool => simp [route, forward, Leaves.routeToolCall, hparse, ha.notNative]
  | resource => simp [route, forward, Leaves.routeResourceRead, hparse]
  | prompt => simp [route, forward, Leaves.routePromptGet, hparse]

section

variable {env : ServerEnv} {r : Registry} {cells : Nat → LeafCells}

/-- What is on offer comes from an entry under its own alias. -/
theorem Offers.getLeaf (hwf : r.WF) {kind : ItemKind} {leaf : LeafEntry} {name : String}
    {item : Value} (h : Offers ⟨r, cells⟩ kind leaf name item) :
    r.getLeaf leaf.config.aliasName = some leaf := by
  obtain ⟨⟨a, ha⟩, -⟩ := mem_healthyLeaves.mp h.healthy
  rw [hwf.key a leaf ha]
  exact ha

theorem Offers.routable (hwf : r.WF) (hall : ∀ a ∈ r.aliases, Routable a) {kind : ItemKind}
    {leaf : LeafEntry} {name : String} {item : Value}
    (h : Offers ⟨r, cells⟩ kind leaf name item) : Routable leaf.config.aliasName :=
  hall _ (Registry.mem_aliases.mpr ⟨leaf, h.getLeaf hwf⟩)

theorem routesBack_of_routable (hwf : r.WF) (hall : ∀ a ∈ r.aliases, Routable a) :
    RoutesBack env ⟨r, cells⟩ := by
  intro kind leaf name item h
  obtain ⟨published, hpub, hname⟩ := kind.publish_spec leaf.config.aliasName h.named
  refine ⟨⟨published, h.mem_catalogue hpub, hpub, hname⟩, fun arguments => ?_⟩
  rw [kind.route_namespaced env _ (h.routable hwf hall)]
  exact Leaves.forwardTo_of_healthy env _ _ (h.getLeaf hwf) (mem_healthyLeaves.mp h.healthy).2

/-- Equal published names split the same way. -/
theorem noCollision_of_routable (hwf : r.WF) (hall : ∀ a ∈ r.aliases, Routable a) :
    NoCollision ⟨r, cells⟩ := by
  intro kind leaf leaf' name name' item item' h h' heq
  have hparse : ∀ a n, Routable a → parseNamespacedName (namespaced a n) = some (a, n) :=
    fun a n ha => (parseNamespacedName_namespaced_iff a n).mpr ⟨ha.noSeparator, ha.noTrailing⟩
  have hsplit := hparse _ name (h.routable hwf hall)
  rw [heq, hparse _ name' (h'.routable hwf hall)] at hsplit
  simp only [Option.some.injEq, Prod.mk.injEq] at hsplit
  exact ⟨hsplit.1.symm, hsplit.2.symm⟩

/-- Every native tool's name splits at the alias `federation`. -/
theorem parse_nativeTool {native : Value} (h : native ∈ nativeTools) :
    ∃ name, native.strAt "name" = some (namespaced "federation" name) := by
  simp only [nativeTools, List.mem_cons, List.not_mem_nil, or_false] at h
  rcases h with rfl | rfl | rfl | rfl | rfl <;> exact ⟨_, rfl⟩

theorem noNativeName_of_routable (hwf : r.WF) (hall : ∀ a ∈ r.aliases, Routable a) :
    NoNativeName ⟨r, cells⟩ := by
  intro leaf name item h native hnative heq
  obtain ⟨tool, htool⟩ := parse_nativeTool hnative
  rw [htool, Option.some.injEq] at heq
  have ha := h.routable hwf hall
  have hown := (parseNamespacedName_namespaced_iff _ name).mpr ⟨ha.noSeparator, ha.noTrailing⟩
  have hfed : parseNamespacedName (namespaced "federation" tool) = some ("federation", tool) :=
    (parseNamespacedName_namespaced_iff _ _).mpr ⟨by decide, by decide⟩
  rw [← heq, hfed, Option.some.injEq, Prod.mk.injEq] at hown
  exact ha.notNative hown.1.symm

end

/-- A cache with one tool, `x`. -/
def oneTool : LeafCells := { cachedTools := [.obj [("name", .string "x")]] }

/-- An alias whose tool `x` routes back is routable: a split that finds another alias also
hands over another name, and the native handler forwards nothing. -/
theorem routable_of_routesBack {env : ServerEnv} {r : Registry} (hwf : r.WF) {a : String}
    (ha : a ∈ r.aliases) (h : RoutesBack env ⟨r, fun _ => oneTool⟩) : Routable a := by
  obtain ⟨leaf, hleaf⟩ := Registry.mem_aliases.mp ha
  have hoffers : Offers ⟨r, fun _ => oneTool⟩ .tool leaf "x" (.obj [("name", .string "x")]) :=
    ⟨mem_healthyLeaves.mpr ⟨⟨a, hleaf⟩, rfl⟩, List.mem_singleton.mpr rfl, rfl⟩
  have hroute := (h .tool leaf "x" _ hoffers).2 .null
  rw [hwf.key a leaf hleaf] at hroute
  obtain ⟨x, y, hsplit⟩ := Text.splitOnce_join_some "__" a "x"
  have hparse : parseNamespacedName (namespaced a "x") = some (x, y) := hsplit
  simp only [ItemKind.route, ItemKind.forward, Leaves.routeToolCall, hparse] at hroute
  split at hroute
  · rw [Leaves.handleNativeTool_forwarded] at hroute
    simp at hroute
  · rename_i hnative
    obtain ⟨-, -, hsame⟩ := Leaves.forwarded_forwardTo env _
      (hroute ▸ List.mem_singleton.mpr rfl)
    simp only [Forward.toolCall.injEq, and_true] at hsame
    have hxa : x = a := by
      by_contra hne
      exact parseNamespacedName_name_ne hparse hne hsame.symm
    subst hxa
    rw [← hsame] at hparse
    obtain ⟨hsep, htrail⟩ := (parseNamespacedName_namespaced_iff x "x").mp hparse
    exact ⟨hsep, htrail, hnative⟩

/--
**When a registry publishes faithfully.**  Over everything its leaves may have cached,
exactly when every alias is routable.
-/
theorem publishesFaithfully_iff (env : ServerEnv) {r : Registry} (hwf : r.WF) :
    (∀ cells, PublishesFaithfully env ⟨r, cells⟩) ↔ ∀ a ∈ r.aliases, Routable a := by
  refine ⟨?_, ?_⟩
  · intro h a ha
    exact routable_of_routesBack hwf ha (h _).routesBack
  · intro hall cells
    exact ⟨routesBack_of_routable hwf hall, noCollision_of_routable hwf hall,
      noNativeName_of_routable hwf hall⟩

/-! ### Every registry the sources can reach -/

namespace Registry

theorem aliases_fromConfigs (configs : List ServerConfig) (a : String) :
    a ∈ (fromConfigs configs).aliases ↔ a ∈ configs.map ServerConfig.aliasName := by
  have key : ∀ (l : List ServerConfig) (r : Registry),
      a ∈ (l.foldl (fun r config => r.addLeaf config.aliasName config) r).aliases ↔
        a ∈ r.aliases ∨ a ∈ l.map ServerConfig.aliasName := by
    intro l
    induction l with
    | nil => intro r; simp
    | cons config rest ih =>
        intro r
        rw [List.foldl_cons, ih, List.map_cons, List.mem_cons]
        simp only [aliases, addLeaf, ← AList.mem_keys, AList.mem_insert]
        rw [or_comm (b := a ∈ r.leaves), or_assoc]
  rw [fromConfigs, key]
  simp [aliases, empty]

/-- The aliases of the startup file have passed its checks. -/
theorem Startup.aliasOK {le : LoadEnv} {r : Registry} (h : r.Startup le) :
    ∀ a ∈ r.aliases, AliasOK a := by
  obtain ⟨read, cfg, hcfg, rfl⟩ := h
  intro a ha
  obtain ⟨server, hs, rfl⟩ := List.mem_map.mp ((aliases_fromConfigs _ a).mp ha)
  obtain ⟨-, hall, -⟩ := FederationConfig.validate_ok (FederationConfig.fromFile_ok hcfg)
  exact (hall server hs).1

end Registry

theorem aliasOK_sanitizeAlias (target : String) : AliasOK (sanitizeAlias target) where
  nonempty := by
    intro h
    have hprefix := sanitizeAlias_prefix target
    rw [h] at hprefix
    revert hprefix
    decide
  noSeparator :=
    Text.contains_eq_false (c := '_') (by decide) (underscore_notMem_sanitizeAlias target)

/-- Whatever a source other than the controller brings in is an alias that may be used. -/
theorem Op.Brings.aliasOK {le : LoadEnv} {op : Op} (hop : op.source ≠ .crd) {a : String}
    (h : op.Brings le a) : AliasOK a := by
  cases op with
  | reload read =>
      obtain ⟨cfg, hcfg, ha⟩ := h
      obtain ⟨server, hs, rfl⟩ := List.mem_map.mp ha
      obtain ⟨-, hall, -⟩ := FederationConfig.validate_ok (FederationConfig.fromFile_ok hcfg)
      exact (hall server hs).1
  | register req =>
      obtain ⟨hvalid, rfl⟩ := h
      exact hvalid.aliasOK
  | deregister b => exact h.elim
  | dns config records =>
      obtain ⟨record, -, rfl⟩ := desiredRecords_keys.mp h
      exact aliasOK_sanitizeAlias record.target
  | crd obj patch => exact absurd rfl hop

/-- An operation that runs by itself leaves every alias it brings in the registry. -/
theorem Op.Brings.mem_aliases {le : LoadEnv} {op : Op} (hop : op.source ≠ .crd) {a : String}
    (h : op.Brings le a) (r : Registry) : a ∈ (r.apply le op).aliases := by
  have heff := Registry.holds_effect le r op a
  have hput : ∀ config, op.effect le r a = .put config → a ∈ (r.apply le op).aliases := by
    intro config hconfig
    rw [hconfig] at heff
    obtain ⟨leaf, hleaf, -⟩ := heff
    exact Registry.mem_aliases.mpr ⟨leaf, hleaf⟩
  have hkeep : op.effect le r a = .keep → (r.getLeaf a).isSome = true →
      a ∈ (r.apply le op).aliases := by
    intro hk hsome
    rw [hk, Effect.Holds] at heff
    rw [Registry.mem_aliases, heff]
    exact Option.isSome_iff_exists.mp hsome
  cases op with
  | reload read =>
      obtain ⟨cfg, hcfg, ha⟩ := h
      obtain ⟨found, hs, hsa⟩ := List.mem_map.mp ha
      have hfound := (FederationConfig.server?_eq_some hcfg).mpr ⟨hs, hsa⟩
      simp only [Op.effect, hcfg, hfound] at hput hkeep
      cases hcur : r.getLeaf a with
      | none => exact hput found (by rw [hcur]; rfl)
      | some current =>
          by_cases hsame : sameLeafConfig current.config found = true
          · exact hkeep (by simp [hcur, reloadEffect, hsame]) (by rw [hcur]; rfl)
          · exact hput found (by simp [hcur, reloadEffect, hsame])
  | register req =>
      obtain ⟨hvalid, rfl⟩ := h
      simp only [Op.effect] at hput hkeep
      cases hcur : r.getLeaf req.aliasName with
      | none => exact hput req.config (by simp [hvalid, hcur])
      | some current => exact hkeep (by simp [hcur]) (by rw [hcur]; rfl)
  | deregister b => exact h.elim
  | dns config records =>
      have hpre : Text.startsWith dnsAliasPrefix a = true := by
        obtain ⟨record, -, rfl⟩ := desiredRecords_keys.mp h
        exact sanitizeAlias_prefix record.target
      obtain ⟨record, hrecord⟩ := Option.isSome_iff_exists.mp (AList.lookup_isSome.mpr h)
      simp only [Op.effect, hpre, if_true, hrecord] at hput hkeep
      cases hcur : r.getLeaf a with
      | none => exact hput _ (by simp [hcur]; rfl)
      | some current => exact hkeep (by simp [hcur]) (by rw [hcur]; rfl)
  | crd obj patch => exact absurd rfl hop

section

variable {ι : Type} [DecidableEq ι] (le : LoadEnv) (ops : ι → Op) {r : Registry}

/-- Interleaved operations keep the invariant, and every alias is one that was there at
the start or that some operation brings. -/
theorem Registry.interleave_inv (hwf : r.WF) (schedule : List ι) :
    (r.interleave le ops schedule).WF ∧
      ∀ a ∈ (r.interleave le ops schedule).aliases,
        a ∈ r.aliases ∨ ∃ i, (ops i).Brings le a := by
  refine Pool.steps_shared_inv
    (P := RegistryCall.InsertsOnly fun a => a ∈ r.aliases ∨ ∃ i, (ops i).Brings le a)
    (I := fun s => s.WF ∧ ∀ a ∈ s.aliases, a ∈ r.aliases ∨ ∃ i, (ops i).Brings le a)
    Registry.exec ?_ _ ?_ (r.pool le ops) ?_ ⟨hwf, fun a ha => Or.inl ha⟩
  · intro c s hc hs
    exact ⟨hs.1.exec c hc, Registry.aliases_exec hs.2 c hc⟩
  · intro c hc
    simp at hc
  · intro i
    refine Prog.Makes.imp (fun c hc => ?_) ((ops i).makes_program le)
    cases c with
    | addLeaf a config => exact ⟨hc.1, Or.inr ⟨i, hc.2⟩⟩
    | getLeaf a => trivial
    | aliases => trivial
    | removeLeaf a => trivial

/--
**When every reachable registry publishes faithfully.**  Over every interleaving of file
loads, registrations and DNS polls, and everything the leaves may have cached: exactly
when no alias that the startup file, a reloaded file or a registration brings ends in an
underscore or is `federation`.
-/
theorem interleave_publishesFaithfully_iff (env : ServerEnv) (le : LoadEnv) (ops : ι → Op)
    (r : Registry) (hstart : r.Startup le) (hops : ∀ i, (ops i).source ≠ .crd) :
    (∀ schedule cells, PublishesFaithfully env ⟨r.interleave le ops schedule, cells⟩) ↔
      ∀ a, (a ∈ r.aliases ∨ ∃ i, (ops i).Brings le a) →
        Text.endsWith '_' a = false ∧ a ≠ "federation" := by
  refine ⟨?_, ?_⟩
  · intro h a ha
    have hroutable : Routable a := by
      rcases ha with ha | ⟨i, ha⟩
      · exact (publishesFaithfully_iff env hstart.wf).mp (h []) a ha
      · -- Let the operation that brings the alias run by itself.
        obtain ⟨n, hn⟩ := Pool.exists_steps_eq_run Registry.exec i _ (r.pool le ops) rfl
        have halone : r.interleave le ops (List.replicate n i) = r.apply le (ops i) := by
          rw [Registry.interleave, List.map_replicate, hn]
          rfl
        have hfaithful := h (List.replicate n i)
        rw [halone] at hfaithful
        exact (publishesFaithfully_iff env (hstart.wf.apply le (ops i))).mp hfaithful a
          (ha.mem_aliases (hops i) r)
    exact ⟨hroutable.noTrailing, hroutable.notNative⟩
  · intro h schedule
    obtain ⟨hwf, hall⟩ := Registry.interleave_inv le ops hstart.wf schedule
    refine (publishesFaithfully_iff env hwf).mpr fun a ha => ?_
    refine ⟨?_, (h a (hall a ha)).1, (h a (hall a ha)).2⟩
    rcases hall a ha with hold | ⟨i, hbrings⟩
    · exact (hstart.aliasOK a hold).noSeparator
    · exact (hbrings.aliasOK (hops i)).noSeparator

end

/-- One server `wiki`, and `docs` registered at any moment. -/
theorem wiki_docs_publishesFaithfully :
    wikiRegistry.Startup wikiLoad ∧
      ∀ (schedule : List Unit) cells,
        PublishesFaithfully offline
          ⟨wikiRegistry.interleave wikiLoad (fun _ => .register docsRequest) schedule, cells⟩ := by
  refine ⟨wiki_startup,
    (interleave_publishesFaithfully_iff offline _ _ _ wiki_startup ?_).mpr ?_⟩
  · intro i
    simp [Op.source]
  · intro a ha
    rcases ha with ha | ⟨-, -, ha⟩
    · obtain ⟨server, hs, rfl⟩ := List.mem_map.mp ((Registry.aliases_fromConfigs _ a).mp ha)
      rw [List.mem_singleton.mp hs]
      decide
    · rw [ha]
      decide

/-- A configuration with one server, `a_`, which `validate` accepts. -/
def underscoreConfig : FederationConfig where
  servers := [{ aliasName := "a_", url := "http://a/mcp" }]

def underscoreFile : String :=
  "federation:\n  endpoint: /mcp\nservers:\n- alias: a_\n  url: http://a/mcp\n"

/-- The tool `x` of the leaf `a_` is published as `a___x`, and that name is forwarded to
nobody: it is read as the tool `_x` of a leaf `a`. -/
theorem not_routesBack_trailing_underscore :
    Registry.Startup (LoadEnv.knowing [(underscoreFile, underscoreConfig)])
        (Registry.fromConfigs underscoreConfig.servers) ∧
      namespaced "a_" "x" = "a___x" ∧
      (ItemKind.tool.route offline
        ⟨Registry.fromConfigs underscoreConfig.servers, fun _ => oneTool⟩ "a___x"
          .null).forwarded = [] ∧
      ¬ RoutesBack offline
        ⟨Registry.fromConfigs underscoreConfig.servers, fun _ => oneTool⟩ := by
  refine ⟨⟨.ok underscoreFile, underscoreConfig, ?_, rfl⟩, by decide, rfl, fun h => ?_⟩
  · exact FederationConfig.fromFile_of_plain (by decide) rfl (by decide)
  · have hroutable := routable_of_routesBack (Registry.wf_fromConfigs _) (a := "a_")
      ((Registry.aliases_fromConfigs _ _).mpr (by decide)) h
    exact absurd hroutable.noTrailing (by decide)

end McpFederation
