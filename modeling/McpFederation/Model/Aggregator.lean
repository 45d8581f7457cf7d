/-
The catalogue: every leaf's tools, resources and prompts under namespaced names.

`aggregator.rs`.  A leaf's item is published under its alias, the separator `__` and
the name the leaf gave it; everything else in the item but its description passes
through.  The background refresh that `aggregated_tools` may start is a task of its
own and does not change what this call returns.
-/
import McpFederation.Model.Registry

namespace McpFederation

/-- `NAMESPACE_SEPARATOR`. -/
def namespaceSeparator : String := "__"

/-- The name an item is published under. -/
def namespaced (a name : String) : String := a ++ namespaceSeparator ++ name

def parseNamespacedName (name : String) : Option (String × String) :=
  Text.splitOnce namespaceSeparator name

/-- `namespace_tool`, `namespace_resource` and `namespace_prompt` differ only in the two
members they rewrite: the one that names the item, and the one that describes it. -/
def namespaceItem (idKey textKey a : String) (item : Value) : Option Value := do
  let name ← item.strAt idKey
  let text := (item.strAt textKey).getD ""
  let renamed := item.setKey idKey (.string (namespaced a name))
  pure (renamed.setKey textKey (.string ("[" ++ a ++ "] " ++ text)))

def namespaceTool (a : String) (tool : Value) : Option Value :=
  namespaceItem "name" "description" a tool

def namespaceResource (a : String) (resource : Value) : Option Value :=
  namespaceItem "uri" "name" a resource

def namespacePrompt (a : String) (prompt : Value) : Option Value :=
  namespaceItem "name" "description" a prompt

/-! ### The federation's own tools -/

/-- A JSON schema for an object with the given string properties. -/
def inputSchema (properties : List (String × String)) (required : List String) : Value :=
  .obj [("type", .string "object"),
    ("properties", .obj (properties.map fun p =>
      (p.1, .obj [("type", .string "string"), ("description", .string p.2)]))),
    ("required", .array (required.map .string))]

def nativeTool (name description : String) (schema : Value) : Value :=
  .obj [("name", .string (namespaced "federation" name)),
    ("description", .string ("[federation] " ++ description)), ("inputSchema", schema)]

def nativeTools : List Value :=
  [ nativeTool "list_servers" "List all configured leaf MCP servers and their health status"
      (inputSchema [] []),
    nativeTool "server_info" "Get detailed info about a specific leaf MCP server"
      (inputSchema [("alias", "The server alias to get info for")] ["alias"]),
    nativeTool "refresh" "Force-refresh tool lists from all or a specific leaf server"
      (inputSchema [("alias", "Optional: refresh only this server (omit for all)")] []),
    nativeTool "search_tools"
      "Search for tools across all leaf servers by name or description keyword"
      (inputSchema [("query", "Search term to match against tool names and descriptions"),
        ("alias", "Optional: restrict search to a specific leaf server")] ["query"]),
    nativeTool "topology"
      ("Return the federation topology — this node plus each leaf, with is_federation flags "
        ++ "for nested mcp-federation instances")
      (inputSchema [] []) ]

/-! ### Aggregation -/

namespace Leaves

/-- What every healthy leaf contributes, leaf by leaf. -/
def aggregated (w : Leaves) (cached : LeafCells → List Value)
    (publish : String → Value → Option Value) : List Value :=
  w.healthyLeaves.flatMap fun leaf =>
    (cached (w.cellsOf leaf)).filterMap (publish leaf.config.aliasName)

def aggregatedTools (w : Leaves) : List Value :=
  nativeTools ++ w.aggregated LeafCells.cachedTools namespaceTool

def aggregatedResources (w : Leaves) : List Value :=
  w.aggregated LeafCells.cachedResources namespaceResource

def aggregatedPrompts (w : Leaves) : List Value :=
  w.aggregated LeafCells.cachedPrompts namespacePrompt

end Leaves

/-! ### What publishing does to an item -/

/-- An item is published exactly when it has a name that is a string. -/
theorem namespaceItem_eq_none {idKey textKey a : String} {item : Value} :
    namespaceItem idKey textKey a item = none ↔ item.strAt idKey = none := by
  cases h : item.strAt idKey <;> simp [namespaceItem, h]

/-- **The published item**: its name is namespaced, its description is marked, and every
other member is the leaf's own. -/
theorem namespaceItem_spec {idKey textKey a : String} {item published : Value}
    (hne : textKey ≠ idKey) (h : namespaceItem idKey textKey a item = some published) :
    ∃ name, item.strAt idKey = some name ∧
      published.strAt idKey = some (namespaced a name) ∧
      published.strAt textKey = some ("[" ++ a ++ "] " ++ (item.strAt textKey).getD "") ∧
      ∀ key, key ≠ idKey → key ≠ textKey → published.get? key = item.get? key := by
  cases hname : item.strAt idKey with
  | none => simp [namespaceItem, hname] at h
  | some name =>
      simp only [namespaceItem, hname, Option.bind_eq_bind, Option.bind_some, Option.pure_def,
        Option.some.injEq] at h
      have hitem := Value.get?_eq_some_of_strAt hname
      have hrenamed : (item.setKey idKey (.string (namespaced a name))).get? idKey
          = some (.string (namespaced a name)) := by
        rw [Value.get?_setKey hitem, if_pos rfl]
      refine ⟨name, rfl, ?_, ?_, ?_⟩
      · rw [← h, Value.strAt_setKey hrenamed, if_neg hne, Value.strAt_setKey hitem, if_pos rfl]
        rfl
      · rw [← h, Value.strAt_setKey hrenamed, if_pos rfl]
        rfl
      · intro key hid htext
        rw [← h, Value.get?_setKey hrenamed, if_neg (Ne.symm htext), Value.get?_setKey hitem,
          if_neg (Ne.symm hid)]

theorem mem_healthyLeaves {w : Leaves} {leaf : LeafEntry} :
    leaf ∈ w.healthyLeaves ↔
      (∃ a, w.registry.getLeaf a = some leaf) ∧ w.isHealthy leaf = true := by
  rw [Leaves.healthyLeaves, List.mem_filter, Registry.mem_allLeaves]

theorem mem_aggregated {w : Leaves} {cached : LeafCells → List Value}
    {publish : String → Value → Option Value} {published : Value} :
    published ∈ w.aggregated cached publish ↔
      ∃ leaf ∈ w.healthyLeaves, ∃ item ∈ cached (w.cellsOf leaf),
        publish leaf.config.aliasName item = some published := by
  simp only [Leaves.aggregated, List.mem_flatMap, List.mem_filterMap]

end McpFederation
