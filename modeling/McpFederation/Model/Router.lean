/-
Routing: from a namespaced name to one leaf.

`router.rs`, with the two refresh functions of `registry.rs` that its native tools
call.  A route splits the name at the first `__`, looks the alias up and hands the
rest of the name to that leaf.  Names under the alias `federation` are the
federation's own tools and never reach the registry; only `route_tool_call` makes that
distinction.

How a leaf answers is not part of the program.  `Net.ask` stands for it: for an entry
and a client program, what the program ends in against that leaf at this moment.
-/
import McpFederation.Model.Aggregator

namespace McpFederation

/-- The leaves themselves, as seen through their clients. -/
structure Net where
  ask : (α : Type) → LeafEntry → ClientM α → Except FederationError α

/-- What the request handlers use from outside the program. -/
structure ServerEnv where
  client : ClientEnv
  net : Net
  /-- `serde_json::to_string_pretty`. -/
  pretty : Value → String
  /-- The tables that `str::to_lowercase` looks characters up in. -/
  unicode : Text.CaseTables
  /-- `Instant::now`. -/
  now : Nat

/-- `str::to_lowercase`. -/
def ServerEnv.lower (env : ServerEnv) : String → String := env.unicode.toLowercase

/-- A client's request, handed on to a leaf. -/
inductive Forward where
  | toolCall (name : String) (arguments : Value)
  | resourceRead (uri : String)
  | promptGet (name : String) (arguments : Value)

def Forward.program (env : ClientEnv) (cl : LeafClient) : Forward → ClientM Value
  | .toolCall name arguments => cl.callTool env name arguments
  | .resourceRead uri => cl.readResource env uri
  | .promptGet name arguments => cl.getPrompt env name arguments

/-- What routing one request came to: its result, what was forwarded, and the leaves after. -/
structure Routed where
  result : Except FederationError Value
  forwarded : List (LeafEntry × Forward) := []
  leaves : Leaves

namespace Leaves

variable (env : ServerEnv) (w : Leaves)

/-- The common end of the three routes: find the leaf, check its health, forward. -/
def forwardTo (a : String) (f : Forward) : Routed :=
  match w.registry.getLeaf a with
  | none => { result := .error (.unknownLeaf a), leaves := w }
  | some leaf =>
      if w.isHealthy leaf then
        { result := env.net.ask Value leaf (f.program env.client leaf.client)
          forwarded := [(leaf, f)]
          leaves := w }
      else { result := .error (.leafUnhealthy a), leaves := w }

/-! ### Native tools -/

/-- An MCP tool result with one text block. -/
def textContent (text : String) : Value :=
  .obj [("content", .array [.obj [("type", .string "text"), ("text", .string text)]])]

/-- The members that `list_servers` and `topology` both print for a leaf. -/
def leafSummary (leaf : LeafEntry) : List (String × Value) :=
  let cells := w.cellsOf leaf
  [("alias", .string leaf.config.aliasName), ("url", .string leaf.config.url),
    ("transport", .string leaf.config.transport.debug),
    ("tags", .array (leaf.config.tags.map .string)), ("health", .string cells.health.label),
    ("tool_count", .ofNat cells.cachedTools.length), ("is_federation", .bool cells.isFederation)]

def nativeListServers : Value :=
  textContent (env.pretty (.array (w.registry.allLeaves.map fun leaf => .obj (w.leafSummary leaf))))

def nativeTopology : Value :=
  let entry := fun leaf =>
    Value.obj (w.leafSummary leaf ++ [("server_info", ((w.cellsOf leaf).serverInfo).getD .null)])
  textContent (env.pretty (.obj
    [("node", .obj [("name", .string "mcp-federation"), ("version", .string cargoPkgVersion),
        ("leaf_count", .ofNat w.registry.allLeaves.length)]),
      ("leaves", .array (w.registry.allLeaves.map entry))]))

def nativeServerInfo (arguments : Value) : Except FederationError Value :=
  match arguments.strAt "alias" with
  | none => .error (.leafError "federation" "missing required argument: alias")
  | some a =>
      match w.registry.getLeaf a with
      | none => .error (.unknownLeaf a)
      | some leaf =>
          let cells := w.cellsOf leaf
          let toolNames := cells.cachedTools.filterMap (·.strAt "name")
          .ok (textContent (env.pretty (.obj
            [("alias", .string leaf.config.aliasName), ("url", .string leaf.config.url),
              ("transport", .string leaf.config.transport.debug),
              ("tags", .array (leaf.config.tags.map .string)),
              ("health", .string cells.health.debug),
              ("consecutive_failures", .ofNat cells.consecutiveFailures.toNat),
              ("tool_count", .ofNat toolNames.length),
              ("tools", .array (toolNames.map .string))])))

/-- Fetch one leaf's tools and store them, as `refresh_tools` and the tasks of
`refresh_all_tools` do. -/
def refreshLeaf (leaf : LeafEntry) : Except String Nat × Leaves :=
  match env.net.ask (List Value) leaf (leaf.client.listTools env.client) with
  | .error e => (.error e.toText, w)
  | .ok tools => (.ok tools.length, w.updateCells leaf (LeafCells.setTools env.now tools))

def refreshTools (a : String) : Except String Nat × Leaves :=
  match w.registry.getLeaf a with
  | none => (.error ("unknown leaf: " ++ a), w)
  | some leaf => w.refreshLeaf env leaf

/-- The refreshes of all leaves, each with its alias. -/
def refreshAllTools : List LeafEntry → Leaves → List (String × Except String Nat) × Leaves
  | [], w => ([], w)
  | leaf :: rest, w =>
      let (result, w) := w.refreshLeaf env leaf
      let (results, w) := refreshAllTools rest w
      ((leaf.config.aliasName, result) :: results, w)

def refreshLine : String × Except String Nat → String
  | (a, .ok count) => a ++ ": refreshed (" ++ toString count ++ " tools)"
  | (a, .error e) => a ++ ": error (" ++ e ++ ")"

def nativeRefresh (arguments : Value) : Value × Leaves :=
  let (results, w) :=
    match arguments.strAt "alias" with
    | some a => ([(a, (w.refreshTools env a).1)], (w.refreshTools env a).2)
    | none => refreshAllTools env w.registry.allLeaves w
  (textContent (String.intercalate "\n" (results.map refreshLine)), w)

/-- One match of `search_tools`, if the tool matches the lowercased query. -/
def searchMatch (queryLower : String) (leaf : LeafEntry) (tool : Value) : Option Value :=
  let name := (tool.strAt "name").getD ""
  let description := (tool.strAt "description").getD ""
  if Text.contains queryLower (env.lower name) || Text.contains queryLower (env.lower description)
  then
    some (.obj [("alias", .string leaf.config.aliasName),
      ("name", .string (namespaced leaf.config.aliasName name)), ("tool_name", .string name),
      ("description", .string description)])
  else none

def searchTools (query : String) (leaves : List LeafEntry) : List Value :=
  leaves.flatMap fun leaf =>
    (w.cellsOf leaf).cachedTools.filterMap (searchMatch env (env.lower query) leaf)

def nativeSearchTools (arguments : Value) : Except FederationError Value :=
  match arguments.strAt "query" with
  | none => .error (.leafError "federation" "missing required argument: query")
  | some query =>
      match arguments.strAt "alias" with
      | none =>
          .ok (textContent (env.pretty (.array (w.searchTools env query w.registry.allLeaves))))
      | some a =>
          match w.registry.getLeaf a with
          | none => .error (.unknownLeaf a)
          | some leaf => .ok (textContent (env.pretty (.array (w.searchTools env query [leaf]))))

def handleNativeTool (toolName : String) (arguments : Value) : Routed :=
  match toolName with
  | "list_servers" => { result := .ok (w.nativeListServers env), leaves := w }
  | "topology" => { result := .ok (w.nativeTopology env), leaves := w }
  | "server_info" => { result := w.nativeServerInfo env arguments, leaves := w }
  | "refresh" =>
      { result := .ok (w.nativeRefresh env arguments).1
        leaves := (w.nativeRefresh env arguments).2 }
  | "search_tools" => { result := w.nativeSearchTools env arguments, leaves := w }
  | other => { result := .error (.toolNotFound ("federation__" ++ other)), leaves := w }

/-! ### Routes -/

def routeToolCall (namespacedTool : String) (arguments : Value) : Routed :=
  match parseNamespacedName namespacedTool with
  | none =>
      { result := .error (.invalidToolName
          ("tool name must be in format 'alias__tool_name', got: " ++ namespacedTool))
        leaves := w }
  | some (a, toolName) =>
      if a = "federation" then w.handleNativeTool env toolName arguments
      else w.forwardTo env a (.toolCall toolName arguments)

def routeResourceRead (namespacedUri : String) : Routed :=
  match parseNamespacedName namespacedUri with
  | none =>
      { result := .error (.invalidToolName
          ("resource URI must be prefixed with alias, got: " ++ namespacedUri))
        leaves := w }
  | some (a, uri) => w.forwardTo env a (.resourceRead uri)

def routePromptGet (namespacedName : String) (arguments : Value) : Routed :=
  match parseNamespacedName namespacedName with
  | none =>
      { result := .error (.invalidToolName
          ("prompt name must be prefixed with alias, got: " ++ namespacedName))
        leaves := w }
  | some (a, promptName) => w.forwardTo env a (.promptGet promptName arguments)

/-! ### What a route leaves unchanged -/

theorem forwardTo_leaves (a : String) (f : Forward) : (w.forwardTo env a f).leaves = w := by
  unfold forwardTo
  split
  · rfl
  · split <;> rfl

theorem refreshLeaf_registry (leaf : LeafEntry) :
    (w.refreshLeaf env leaf).2.registry = w.registry := by
  unfold refreshLeaf
  split <;> rfl

theorem refreshTools_registry (a : String) : (w.refreshTools env a).2.registry = w.registry := by
  unfold refreshTools
  split
  · rfl
  · exact refreshLeaf_registry env w _

theorem refreshAllTools_registry (leaves : List LeafEntry) :
    ∀ w : Leaves, (refreshAllTools env leaves w).2.registry = w.registry := by
  induction leaves with
  | nil => intro w; rfl
  | cons leaf rest ih =>
      intro w
      show (refreshAllTools env rest (w.refreshLeaf env leaf).2).2.registry = w.registry
      rw [ih, refreshLeaf_registry]

theorem handleNativeTool_registry (toolName : String) (arguments : Value) :
    (w.handleNativeTool env toolName arguments).leaves.registry = w.registry := by
  unfold handleNativeTool
  split <;> try rfl
  -- Only `refresh` writes, and it writes cells.
  show (w.nativeRefresh env arguments).2.registry = w.registry
  unfold nativeRefresh
  cases arguments.strAt "alias" with
  | some a => exact refreshTools_registry env w a
  | none => exact refreshAllTools_registry env w.registry.allLeaves w

/-- **No route changes the registry**; native `refresh` changes only cells. -/
theorem routeToolCall_registry (name : String) (arguments : Value) :
    (w.routeToolCall env name arguments).leaves.registry = w.registry := by
  unfold routeToolCall
  split
  · rfl
  · split
    · exact handleNativeTool_registry env w _ _
    · rw [forwardTo_leaves]

theorem routeResourceRead_leaves (uri : String) : (w.routeResourceRead env uri).leaves = w := by
  unfold routeResourceRead
  split
  · rfl
  · exact forwardTo_leaves env w _ _

theorem routePromptGet_leaves (name : String) (arguments : Value) :
    (w.routePromptGet env name arguments).leaves = w := by
  unfold routePromptGet
  split
  · rfl
  · exact forwardTo_leaves env w _ _

/-- Native tools are answered here. -/
theorem handleNativeTool_forwarded (toolName : String) (arguments : Value) :
    (w.handleNativeTool env toolName arguments).forwarded = [] := by
  unfold handleNativeTool
  split <;> rfl

/-- What `forwardTo` sends goes to the leaf registered under the alias it was given. -/
theorem forwarded_forwardTo {a : String} {f : Forward} {leaf : LeafEntry} {g : Forward}
    (h : (leaf, g) ∈ (w.forwardTo env a f).forwarded) :
    w.registry.getLeaf a = some leaf ∧ w.isHealthy leaf = true ∧ g = f := by
  unfold forwardTo at h
  split at h
  · simp at h
  · rename_i leaf' hleaf
    split at h
    · rename_i hhealthy
      simp only [List.mem_singleton, Prod.mk.injEq] at h
      rw [h.1]
      exact ⟨hleaf, hhealthy, h.2⟩
    · simp at h

theorem forwardTo_of_healthy {a : String} {leaf : LeafEntry} (f : Forward)
    (hleaf : w.registry.getLeaf a = some leaf) (hhealthy : w.isHealthy leaf = true) :
    (w.forwardTo env a f).forwarded = [(leaf, f)] := by
  simp [forwardTo, hleaf, hhealthy]

end Leaves

/-- Tables without a character beyond ASCII. -/
def asciiTables : Text.CaseTables where
  toLower := fun c => [c]
  cased := Char.isAlpha
  caseIgnorable := fun c => c.toNat ∈ [39, 46, 58, 94, 96]

/-- A federation no leaf of which answers. -/
def offline : ServerEnv where
  client := ⟨fun _ => .error "not found", fun _ => none, fun _ => ""⟩
  net := ⟨fun _ leaf _ => .error (.leafError leaf.config.aliasName "connection refused")⟩
  pretty := fun _ => ""
  unicode := asciiTables
  now := 0

end McpFederation
