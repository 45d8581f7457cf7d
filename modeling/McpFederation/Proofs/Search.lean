/-
What a search finds, and what is published.

`search_tools` and `aggregated_tools` both go through the cached tools of the leaves.  The
search goes through all leaves, as its description says, and `aggregated_tools` through
those that are not unhealthy; so a search also finds what is out of reach at the moment.
Besides, it takes a tool without a name for one whose name is empty, which is not published
at all.  `search_agrees` says that apart from these the two agree: in what they find, under
which names, and how often.
-/
import Mathlib.Data.List.Flatten
import McpFederation.Proofs.Visibility

namespace McpFederation

/-- The query is in the tool's name or description, in whatever case. -/
def matchesQuery (env : ServerEnv) (query : String) (tool : Value) : Bool :=
  Text.contains (env.lower query) (env.lower ((tool.strAt "name").getD ""))
    || Text.contains (env.lower query) (env.lower ((tool.strAt "description").getD ""))

/-- The matches among the named tools of a leaf. -/
def namedMatches (env : ServerEnv) (w : Leaves) (query : String) (leaf : LeafEntry) : List Value :=
  (namedTools (w.cellsOf leaf)).filterMap (Leaves.searchMatch env (env.lower query) leaf)

/-- What a leaf publishes of the tools that match. -/
def publishedMatches (env : ServerEnv) (w : Leaves) (query : String) (leaf : LeafEntry) :
    List Value :=
  ((w.cellsOf leaf).cachedTools.filter (matchesQuery env query)).filterMap
    (namespaceTool leaf.config.aliasName)

section

variable {env : ServerEnv} {query : String} {leaf : LeafEntry} {tool : Value}

theorem searchMatch_of_matches (leaf : LeafEntry) (h : matchesQuery env query tool = true) :
    ∃ m, Leaves.searchMatch env (env.lower query) leaf tool = some m ∧
      m.strAt "name"
        = some (namespaced leaf.config.aliasName ((tool.strAt "name").getD "")) := by
  refine ⟨_, if_pos h, ?_⟩
  simp [Value.obj, Value.strAt, Value.get?, Value.asStr]

theorem searchMatch_of_not_matches (h : ¬ matchesQuery env query tool = true) :
    Leaves.searchMatch env (env.lower query) leaf tool = none := if_neg h

/-- A named tool that matches is found and published under one name. -/
theorem strAt_searchMatch {m : Value} (hfound : Leaves.searchMatch env (env.lower query) leaf tool
    = some m) {name : String} (hname : tool.strAt "name" = some name) :
    ∃ published, namespaceTool leaf.config.aliasName tool = some published ∧
      published.strAt "name" = m.strAt "name" := by
  obtain ⟨published, hpublished, hpubname⟩ :=
    ItemKind.publish_spec .tool leaf.config.aliasName hname
  refine ⟨published, hpublished, ?_⟩
  by_cases hmatch : matchesQuery env query tool = true
  · obtain ⟨m', hm', hm'name⟩ := searchMatch_of_matches leaf hmatch
    rw [hfound, Option.some.injEq] at hm'
    rw [hm', hm'name, hname]
    exact hpubname
  · rw [searchMatch_of_not_matches hmatch] at hfound
    cases hfound

/-- Leaf by leaf: the names of what is found and of what is published. -/
theorem map_name_filterMap (tools : List Value) :
    ((tools.filter fun tool => (tool.strAt "name").isSome).filterMap
        (Leaves.searchMatch env (env.lower query) leaf)).map (·.strAt "name")
      = ((tools.filter (matchesQuery env query)).filterMap
          (namespaceTool leaf.config.aliasName)).map (·.strAt "name") := by
  induction tools with
  | nil => rfl
  | cons tool rest ih =>
      by_cases hmatch : matchesQuery env query tool = true
      · obtain ⟨m, hm, -⟩ := searchMatch_of_matches leaf hmatch
        rw [List.filter_cons_of_pos (p := matchesQuery env query) hmatch]
        cases hname : tool.strAt "name" with
        | none =>
            have hnone : namespaceTool leaf.config.aliasName tool = none :=
              namespaceItem_eq_none.mpr hname
            rw [List.filter_cons_of_neg (by simp [hname]), List.filterMap_cons_none hnone, ih]
        | some name =>
            obtain ⟨published, hpublished, hsame⟩ := strAt_searchMatch hm hname
            rw [List.filter_cons_of_pos (by simp [hname]), List.filterMap_cons_some hm,
              List.filterMap_cons_some hpublished, List.map_cons, List.map_cons, ih, hsame]
      · rw [List.filter_cons_of_neg (p := matchesQuery env query) hmatch, ← ih]
        cases hname : tool.strAt "name" with
        | none => rw [List.filter_cons_of_neg (by simp [hname])]
        | some name =>
            rw [List.filter_cons_of_pos (by simp [hname]),
              List.filterMap_cons_none (searchMatch_of_not_matches hmatch)]

end

/--
**What a search finds is what is published.**  Every match is of a cached tool of a leaf; if
the leaf is not unhealthy and the tool has a name, the tool is published under the name of
the match.  For every leaf that is not unhealthy, the matches among its named tools have the
names of what it publishes of the tools that match, one by one; and all these are among what
the search finds, and among what is published.
-/
theorem search_agrees (env : ServerEnv) (w : Leaves) (query : String) :
    (∀ m ∈ w.searchTools env query w.registry.allLeaves, ∃ leaf ∈ w.registry.allLeaves,
      ∃ tool ∈ (w.cellsOf leaf).cachedTools,
        Leaves.searchMatch env (env.lower query) leaf tool = some m ∧
        (w.isHealthy leaf = true → ∀ name, tool.strAt "name" = some name →
          ∃ published ∈ w.aggregatedTools,
            namespaceTool leaf.config.aliasName tool = some published ∧
              published.strAt "name" = m.strAt "name")) ∧
    (∀ leaf ∈ w.healthyLeaves,
      (namedMatches env w query leaf).map (·.strAt "name")
        = (publishedMatches env w query leaf).map (·.strAt "name")) ∧
    (w.healthyLeaves.flatMap (namedMatches env w query)).Sublist
      (w.searchTools env query w.registry.allLeaves) ∧
    (w.healthyLeaves.flatMap (publishedMatches env w query)).Sublist w.aggregatedTools := by
  refine ⟨?_, fun leaf _ => map_name_filterMap _, ?_, ?_⟩
  · intro m hm
    obtain ⟨leaf, hleaf, hm⟩ := List.mem_flatMap.mp hm
    obtain ⟨tool, htool, hmatch⟩ := List.mem_filterMap.mp hm
    refine ⟨leaf, hleaf, tool, htool, hmatch, ?_⟩
    intro hhealthy name hname
    obtain ⟨published, hpublished, hsame⟩ := strAt_searchMatch hmatch hname
    refine ⟨published, List.mem_append_right _ ?_, hpublished, hsame⟩
    exact mem_aggregated.mpr ⟨leaf, List.mem_filter.mpr ⟨hleaf, hhealthy⟩, tool, htool, hpublished⟩
  · refine ((List.filter_sublist (l := w.registry.allLeaves)).flatMap _).trans ?_
    exact List.Sublist.flatMap_right _ fun leaf _ => List.filter_sublist.filterMap _
  · refine List.Sublist.trans ?_ (List.sublist_append_right nativeTools _)
    exact List.Sublist.flatMap_right _ fun leaf _ => List.filter_sublist.filterMap _

/-- The case of a query in ASCII does not matter. -/
theorem searchTools_same_case (env : ServerEnv) (w : Leaves) {query query' : String}
    (h : ∀ c ∈ query.toList, c.toNat < 128) (h' : ∀ c ∈ query'.toList, c.toNat < 128)
    (hsame : query.toList.map Char.toLower = query'.toList.map Char.toLower) :
    w.searchTools env query = w.searchTools env query' := by
  have hlower : env.lower query = env.lower query' := by
    unfold ServerEnv.lower
    rw [Text.CaseTables.toLowercase_of_ascii _ h, Text.CaseTables.toLowercase_of_ascii _ h', hsame]
  unfold Leaves.searchTools
  rw [hlower]

/-! ### An unhealthy leaf, and a tool without a name -/

/-- The leaf `docs` with its cells. -/
def docsLeaves (cells : LeafCells) : Leaves :=
  ⟨Registry.fromConfigs [{ aliasName := "docs", url := "http://docs/mcp" }], fun _ => cells⟩

/-- A leaf that is down, with a tool `grep`. -/
def downDocs : Leaves :=
  docsLeaves { health := .unhealthy, cachedTools := [.obj [("name", .string "grep")]] }

/-- A leaf with a tool that has only a description. -/
def namelessDocs : Leaves :=
  docsLeaves { cachedTools := [.obj [("description", .string "grep")]] }

/-- A match that is published under no name. -/
def Unpublished (w : Leaves) (m : Value) : Prop :=
  ∀ published ∈ w.aggregatedTools, published.strAt "name" ≠ m.strAt "name"

/-- A search for `grep` finds both, and neither is published. -/
theorem grep_found_unpublished :
    (∃ m ∈ downDocs.searchTools offline "grep" downDocs.registry.allLeaves,
      Unpublished downDocs m) ∧
    ∃ m ∈ namelessDocs.searchTools offline "grep" namelessDocs.registry.allLeaves,
      Unpublished namelessDocs m := by
  refine ⟨⟨_, List.mem_cons_self, ?_⟩, ⟨_, List.mem_cons_self, ?_⟩⟩
  · unfold Unpublished
    decide
  · unfold Unpublished
    decide

end McpFederation
