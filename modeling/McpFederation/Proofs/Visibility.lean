/-
What `tools/list` shows, exactly.

A context is meant to see the tools of the leaves it is permitted, all of them and nothing
else.  `handle_tools_list` does not look at the leaf a tool comes from: it splits the
published name at the first `__` and asks whether the part in front of it is permitted.
For the leaf `b_` that part is `b`, and for the leaf `federation` it is a name that is
always let through.  `showsExactly_iff` says that there are no other cases: a catalogue is
shown exactly unless one of these leaves has a tool to show.
-/
import Mathlib.Algebra.Order.BigOperators.Group.List
import McpFederation.Proofs.Confinement
import McpFederation.Proofs.Namespacing

namespace McpFederation

/-! ### What should be shown -/

/-- The context may use the leaf: it has no list, or the list has `*` or the alias. -/
def permits (ctx : RequestContext) (a : String) : Bool :=
  match ctx.allowedServers with
  | none => true
  | some list => decide ("*" ∈ list) || decide (a ∈ list)

/-- The cached tools with a name to publish. -/
def namedTools (cells : LeafCells) : List Value :=
  cells.cachedTools.filter fun tool => (tool.strAt "name").isSome

/-- A published entry: the name is namespaced, and all but name and description is the
tool's own. -/
def IsEntryFor (a : String) (tool entry : Value) : Prop :=
  ∃ name, tool.strAt "name" = some name ∧ entry.strAt "name" = some (namespaced a name) ∧
    ∀ key, key ≠ "name" → key ≠ "description" → entry.get? key = tool.get? key

/-- The native tools, one entry for each named tool of each permitted leaf that is not
unhealthy, and nothing else. -/
def ShowsExactly (w : Leaves) (ctx : RequestContext) (tools : List Value) : Prop :=
  ∃ entries : LeafEntry → List Value,
    tools.Perm (nativeTools
      ++ (w.healthyLeaves.filter fun leaf => permits ctx leaf.config.aliasName).flatMap entries) ∧
    ∀ leaf ∈ w.healthyLeaves, permits ctx leaf.config.aliasName = true →
      List.Forall₂ (IsEntryFor leaf.config.aliasName) (namedTools (w.cellsOf leaf)) (entries leaf)

/-- What decides about a leaf is what its published names say: it is not `federation`, or
is permitted; and if it is `b_`, it is permitted exactly if `b` is let through. -/
def ReadsRight (ctx : RequestContext) (a : String) : Prop :=
  (a = "federation" → permits ctx a = true) ∧
    ∀ b, a = b ++ "_" → (permits ctx a = true ↔ permits ctx b = true ∨ b = "federation")

/-! ### The alias a name is read under -/

theorem allowsAlias_iff_permits (ctx : RequestContext) (a : String) :
    ctx.allowsAlias a = true ↔ a = "federation" ∨ permits ctx a = true := by
  cases hctx : ctx.allowedServers with
  | none => simp [RequestContext.allowsAlias, permits, hctx]
  | some list => simp [allowsAlias_of_list hctx, permits, hctx]

/-- A client without a list is allowed everything. -/
theorem allowsAlias_of_no_list {ctx : RequestContext} (h : ¬ ctx.allowedServers.isSome = true)
    (a : String) : ctx.allowsAlias a = true := by
  have hnone : ctx.allowedServers = none := Option.not_isSome_iff_eq_none.mp h
  simp [RequestContext.allowsAlias, hnone]

theorem publishedAlias_of_parse {a b rest : String}
    (h : parseNamespacedName (namespaced a "") = some (b, rest)) : publishedAlias a = b := by
  simp [publishedAlias, h]

/-- An alias that does not end in an underscore is read as itself. -/
theorem publishedAlias_self {a : String} (ha : AliasOK a) (hend : Text.endsWith '_' a = false) :
    publishedAlias a = a :=
  publishedAlias_of_parse
    ((parseNamespacedName_namespaced_iff a "").mpr ⟨ha.noSeparator, hend⟩)

/-- An alias that ends in one is read without it. -/
theorem publishedAlias_underscore {b : String} (hb : AliasOK (b ++ "_")) :
    publishedAlias (b ++ "_") = b := by
  have hsep := hb.noSeparator
  rw [Text.contains_double_append '_' rfl rfl, Bool.or_eq_false_iff] at hsep
  have hsame : namespaced (b ++ "_") "" = namespaced b "_" := by
    simp only [namespaced, namespaceSeparator, String.append_assoc]
    rfl
  have hparse : parseNamespacedName (namespaced (b ++ "_") "") = some (b, "_") := by
    rw [hsame]
    exact (parseNamespacedName_namespaced_iff b "_").mpr hsep
  exact publishedAlias_of_parse hparse

theorem endsWith_underscore_iff {a : String} :
    Text.endsWith '_' a = true ↔ ∃ b, a = b ++ "_" := by
  rw [Text.endsWith, decide_eq_true_eq]
  refine ⟨?_, ?_⟩
  · intro h
    obtain ⟨pre, hpre⟩ := List.getLast?_eq_some_iff.mp h
    refine ⟨String.ofList pre, ?_⟩
    rw [← String.toList_inj, hpre]
    simp
  · intro h
    obtain ⟨b, rfl⟩ := h
    simp

/-- **When the alias in the published names decides as the leaf's own would.** -/
theorem allowsAlias_publishedAlias_iff (ctx : RequestContext) {a : String} (ha : AliasOK a) :
    (ctx.allowsAlias (publishedAlias a) = true ↔ permits ctx a = true) ↔ ReadsRight ctx a := by
  rw [allowsAlias_iff_permits]
  cases hend : Text.endsWith '_' a with
  | false =>
      rw [publishedAlias_self ha hend]
      have hnone : ∀ b, a ≠ b ++ "_" := by
        intro b hb
        rw [endsWith_underscore_iff.mpr ⟨b, hb⟩] at hend
        simp at hend
      refine ⟨fun h => ⟨fun hfed => h.mp (Or.inl hfed), fun b hb => absurd hb (hnone b)⟩,
        fun h => ⟨?_, Or.inr⟩⟩
      intro hor
      rcases hor with hfed | hpermits
      · exact h.1 hfed
      · exact hpermits
  | true =>
      obtain ⟨b, rfl⟩ := endsWith_underscore_iff.mp hend
      rw [publishedAlias_underscore ha]
      have hnotfed : b ++ "_" ≠ "federation" := by
        intro hfed
        rw [hfed] at hend
        revert hend
        decide
      refine ⟨fun h => ⟨fun hfed => absurd hfed hnotfed, fun c hc => ?_⟩, fun h => ?_⟩
      · rw [String.append_left_inj] at hc
        rw [← hc, ← h, or_comm]
      · rw [h.2 b rfl, or_comm]

/-! ### What is shown -/

/-- What a leaf publishes. -/
def publishedTools (w : Leaves) (leaf : LeafEntry) : List Value :=
  (w.cellsOf leaf).cachedTools.filterMap (namespaceTool leaf.config.aliasName)

/-- One entry is published for each named tool. -/
theorem forall₂_publishedTools (a : String) (tools : List Value) :
    List.Forall₂ (IsEntryFor a) (tools.filter fun tool => (tool.strAt "name").isSome)
      (tools.filterMap (namespaceTool a)) := by
  induction tools with
  | nil => exact .nil
  | cons tool rest ih =>
      cases hentry : namespaceTool a tool with
      | none =>
          have hname : tool.strAt "name" = none := namespaceItem_eq_none.mp hentry
          rw [List.filterMap_cons_none hentry, List.filter_cons_of_neg (by simp [hname])]
          exact ih
      | some entry =>
          obtain ⟨name, hname, hentryname, -, hothers⟩ := namespaceItem_spec (by decide) hentry
          rw [List.filterMap_cons_some hentry, List.filter_cons_of_pos (by simp [hname])]
          exact .cons ⟨name, hname, hentryname, hothers⟩ ih

/-- The native tools are let through. -/
theorem nativeTools_shown (ctx : RequestContext) :
    nativeTools.filter (fun t => ((t.strAt "name").map (toolAllowed ctx)).getD true)
      = nativeTools := by
  refine List.filter_eq_self.mpr fun native hnative => ?_
  obtain ⟨name, hname⟩ := parse_nativeTool hnative
  have hparse : parseNamespacedName (namespaced "federation" name) = some ("federation", name) :=
    (parseNamespacedName_namespaced_iff _ _).mpr ⟨by decide, by decide⟩
  simp [hname, toolAllowed, hparse, RequestContext.allowsAlias]

/-- **What is shown, leaf by leaf**: all that the leaf publishes, or nothing, as the alias
in its published names decides. -/
theorem visibleTools_eq (w : Leaves) (ctx : RequestContext) :
    visibleTools ctx w.aggregatedTools = nativeTools ++ w.healthyLeaves.flatMap fun leaf =>
      if ctx.allowsAlias (publishedAlias leaf.config.aliasName) = true then publishedTools w leaf
      else [] := by
  have hleaf : ∀ leaf : LeafEntry,
      (publishedTools w leaf).filter
          (fun t => ((t.strAt "name").map (toolAllowed ctx)).getD true)
        = if ctx.allowsAlias (publishedAlias leaf.config.aliasName) = true then
            publishedTools w leaf
          else [] := by
    intro leaf
    have hshown : ∀ entry ∈ publishedTools w leaf,
        ((entry.strAt "name").map (toolAllowed ctx)).getD true
          = ctx.allowsAlias (publishedAlias leaf.config.aliasName) := by
      intro entry hentry
      obtain ⟨tool, -, htool⟩ := List.mem_filterMap.mp hentry
      exact shown_iff htool
    split
    · rename_i hallowed
      exact List.filter_eq_self.mpr fun entry hentry => (hshown entry hentry).trans hallowed
    · rename_i hdenied
      refine List.filter_eq_nil_iff.mpr fun entry hentry => ?_
      rw [hshown entry hentry]
      exact hdenied
  unfold visibleTools
  split
  · rw [Leaves.aggregatedTools, List.filter_append, nativeTools_shown, Leaves.aggregated,
      List.filter_flatMap]
    exact congrArg (nativeTools ++ ·) (List.flatMap_congr fun leaf _ => hleaf leaf)
  · rename_i hnone
    simp only [allowsAlias_of_no_list hnone, if_true]
    rfl

/-- Two ways to pick from a list, the one within the other, that pick as much are the same. -/
theorem sum_map_le_antisymm {α : Type} {f g : α → Nat} {l : List α}
    (hle : ∀ x ∈ l, f x ≤ g x) (hsum : (l.map g).sum ≤ (l.map f).sum) :
    ∀ x ∈ l, f x = g x := by
  induction l with
  | nil => simp
  | cons y rest ih =>
      have hrest : (rest.map f).sum ≤ (rest.map g).sum :=
        List.sum_le_sum fun x hx => hle x (List.mem_cons_of_mem _ hx)
      have hy := hle y List.mem_cons_self
      rw [List.map_cons, List.map_cons, List.sum_cons, List.sum_cons] at hsum
      intro x hx
      rcases List.mem_cons.mp hx with rfl | hx
      · omega
      · exact ih (fun z hz => hle z (List.mem_cons_of_mem _ hz)) (by omega) x hx

/-- Picking first, or leaving out later. -/
theorem flatMap_filter_eq {α β : Type} (p : α → Bool) (f : α → List β) (l : List α) :
    (l.filter p).flatMap f = l.flatMap fun x => if p x = true then f x else [] := by
  have hnil : ∀ x ∈ l, p x = false → (if p x = true then f x else []) = [] := by
    intro x _ hx
    rw [hx]
    rfl
  rw [flatMap_filter_of_nil hnil]
  refine List.flatMap_congr fun x hx => ?_
  rw [if_pos (List.mem_filter.mp hx).2]

section

variable {w : Leaves} {ctx : RequestContext}

/-- What is read right is shown exactly. -/
theorem showsExactly_of_readsRight (hok : ∀ leaf ∈ w.healthyLeaves, AliasOK leaf.config.aliasName)
    (h : ∀ leaf ∈ w.healthyLeaves, namedTools (w.cellsOf leaf) ≠ [] →
      ReadsRight ctx leaf.config.aliasName) :
    ShowsExactly w ctx (visibleTools ctx w.aggregatedTools) := by
  refine ⟨publishedTools w, ?_, fun leaf _ _ => forall₂_publishedTools _ _⟩
  rw [visibleTools_eq]
  have hsame : ∀ leaf ∈ w.healthyLeaves,
      (if ctx.allowsAlias (publishedAlias leaf.config.aliasName) = true then publishedTools w leaf
        else [])
        = if permits ctx leaf.config.aliasName = true then publishedTools w leaf else [] := by
    intro leaf hleaf
    by_cases hnamed : namedTools (w.cellsOf leaf) = []
    · have hnothing : publishedTools w leaf = [] := by
        have hlength := (forall₂_publishedTools leaf.config.aliasName
          (w.cellsOf leaf).cachedTools).length_eq
        rw [show List.filter _ _ = [] from hnamed] at hlength
        exact List.eq_nil_of_length_eq_zero hlength.symm
      rw [hnothing, ite_self, ite_self]
    · simp only [(allowsAlias_publishedAlias_iff ctx (hok leaf hleaf)).mpr (h leaf hleaf hnamed)]
  rw [List.flatMap_congr hsame, flatMap_filter_eq]

/-- A permitted leaf with something to show is let through, if its tools are shown. -/
theorem ShowsExactly.allowed (h : ShowsExactly w ctx (visibleTools ctx w.aggregatedTools))
    {leaf : LeafEntry} (hleaf : leaf ∈ w.healthyLeaves)
    (hnamed : namedTools (w.cellsOf leaf) ≠ [])
    (hpermits : permits ctx leaf.config.aliasName = true) :
    ctx.allowsAlias (publishedAlias leaf.config.aliasName) = true := by
  obtain ⟨entries, hperm, hentries⟩ := h
  obtain ⟨tool, htool⟩ := List.exists_mem_of_ne_nil _ hnamed
  have hrelated := hentries leaf hleaf hpermits
  obtain ⟨entry, hentry, name, -, hname, -⟩ : ∃ entry ∈ entries leaf,
      IsEntryFor leaf.config.aliasName tool entry := by
    obtain ⟨i, hi, rfl⟩ := List.getElem_of_mem htool
    have hlength := hrelated.length_eq
    exact ⟨(entries leaf)[i], List.getElem_mem _, hrelated.get hi (hlength ▸ hi)⟩
  have hshown : entry ∈ visibleTools ctx w.aggregatedTools := by
    refine hperm.mem_iff.mpr (List.mem_append_right _ (List.mem_flatMap.mpr ⟨leaf, ?_, hentry⟩))
    exact List.mem_filter.mpr ⟨hleaf, hpermits⟩
  obtain ⟨rest, hparse⟩ := parseNamespacedName_namespaced leaf.config.aliasName name
  unfold visibleTools at hshown
  split at hshown
  · have hpass := (List.mem_filter.mp hshown).2
    simpa [hname, toolAllowed, hparse] using hpass
  · rename_i hnone
    exact allowsAlias_of_no_list hnone _

/-- As many entries are shown for a leaf as it is permitted to show. -/
theorem ShowsExactly.permitted (h : ShowsExactly w ctx (visibleTools ctx w.aggregatedTools))
    {leaf : LeafEntry} (hleaf : leaf ∈ w.healthyLeaves)
    (hnamed : namedTools (w.cellsOf leaf) ≠ [])
    (hallowed : ctx.allowsAlias (publishedAlias leaf.config.aliasName) = true) :
    permits ctx leaf.config.aliasName = true := by
  have hlength : ∀ leaf, (publishedTools w leaf).length = (namedTools (w.cellsOf leaf)).length :=
    fun leaf => (forall₂_publishedTools _ _).length_eq.symm
  let permitted : LeafEntry → Nat := fun leaf =>
    if permits ctx leaf.config.aliasName = true then (namedTools (w.cellsOf leaf)).length else 0
  let shown : LeafEntry → Nat := fun leaf =>
    if ctx.allowsAlias (publishedAlias leaf.config.aliasName) = true then
      (namedTools (w.cellsOf leaf)).length
    else 0
  have hle : ∀ l ∈ w.healthyLeaves, permitted l ≤ shown l := by
    intro l hl
    simp only [permitted, shown]
    by_cases hp : permits ctx l.config.aliasName = true
    · by_cases hn : namedTools (w.cellsOf l) = []
      · simp [hn]
      · rw [if_pos hp, if_pos (h.allowed hl hn hp)]
    · rw [if_neg hp]
      exact Nat.zero_le _
  have hsum : (w.healthyLeaves.map shown).sum = (w.healthyLeaves.map permitted).sum := by
    obtain ⟨entries, hperm, hentries⟩ := h
    have hcount := hperm.length_eq
    rw [visibleTools_eq, List.length_append, List.length_append, Nat.add_left_cancel_iff,
      flatMap_filter_eq, List.length_flatMap, List.length_flatMap] at hcount
    have hshown : w.healthyLeaves.map shown = w.healthyLeaves.map fun leaf =>
        (if ctx.allowsAlias (publishedAlias leaf.config.aliasName) = true then
          publishedTools w leaf
        else []).length := by
      refine List.map_congr_left fun l _ => ?_
      simp only [shown]
      split
      · exact (hlength l).symm
      · rfl
    have hpermitted : w.healthyLeaves.map permitted = w.healthyLeaves.map fun leaf =>
        (if permits ctx leaf.config.aliasName = true then entries leaf else []).length := by
      refine List.map_congr_left fun l hl => ?_
      simp only [permitted]
      split
      · rename_i hp
        exact (hentries l hl hp).length_eq
      · rfl
    rw [hshown, hpermitted]
    exact hcount
  have heq := sum_map_le_antisymm hle hsum.le leaf hleaf
  by_contra hc
  simp only [permitted, shown, if_neg hc, if_pos hallowed] at heq
  exact hnamed (List.eq_nil_of_length_eq_zero heq.symm)

/-- **When the catalogue is shown exactly**: when every leaf with something to show is read
right. -/
theorem showsExactly_iff (hok : ∀ leaf ∈ w.healthyLeaves, AliasOK leaf.config.aliasName) :
    ShowsExactly w ctx (visibleTools ctx w.aggregatedTools) ↔
      ∀ leaf ∈ w.healthyLeaves, namedTools (w.cellsOf leaf) ≠ [] →
        ReadsRight ctx leaf.config.aliasName := by
  refine ⟨fun h leaf hleaf hnamed => ?_, showsExactly_of_readsRight hok⟩
  exact (allowsAlias_publishedAlias_iff ctx (hok leaf hleaf)).mp
    ⟨h.permitted hleaf hnamed, h.allowed hleaf hnamed⟩

end

/-! ### Every registry the sources can reach -/

/-- The answer to a `tools/list` request lists exactly what it should. -/
def ListsExactly (env : ServerEnv) (state : FederationState) (request : JsonRpcRequest)
    (sessionId : Option String) (ctx : RequestContext) : Prop :=
  ∃ tools, (dispatch env state request sessionId ctx).response
      = successResponse request (.obj [("tools", .array tools)]) ∧
    ShowsExactly state.leaves ctx tools

theorem listsExactly_iff_showsExactly (env : ServerEnv) (state : FederationState)
    {request : JsonRpcRequest} (hmethod : request.method = "tools/list")
    (sessionId : Option String) (ctx : RequestContext) :
    ListsExactly env state request sessionId ctx ↔
      ShowsExactly state.leaves ctx (visibleTools ctx state.leaves.aggregatedTools) := by
  have hresponse : (dispatch env state request sessionId ctx).response
      = successResponse request
          (.obj [("tools", .array (visibleTools ctx state.leaves.aggregatedTools))]) := by
    simp only [dispatch, hmethod]
    rfl
  refine ⟨fun h => ?_, fun h => ⟨_, hresponse, h⟩⟩
  obtain ⟨tools, htools, hexact⟩ := h
  rw [hresponse] at htools
  have hlist := congrArg (fun r => (r.result.bind (·.get? "tools")).bind Value.asArray) htools
  have hsame : visibleTools ctx state.leaves.aggregatedTools = tools := Option.some.inj hlist
  rw [hsame]
  exact hexact

section

variable {ι : Type} [DecidableEq ι]

/--
**Who sees what.**  In every registry that any interleaving of file loads, registrations,
deregistrations and DNS polls can reach, with anything cached and any health, and for every
context: the answer to `tools/list` is exact if and only if every leaf that is not unhealthy
and has a named tool is permitted if it is called `federation`, and, if it is called `b_`,
is permitted exactly if `b` is permitted or is `federation`.
-/
theorem listsExactly_iff (env : ServerEnv) (le : LoadEnv) (ops : ι → Op) (schedule : List ι)
    (r : Registry) (state : FederationState) (request : JsonRpcRequest)
    (sessionId : Option String) (ctx : RequestContext) (hstart : r.Startup le)
    (hops : ∀ i, (ops i).source ≠ .crd)
    (hstate : state.leaves.registry = r.interleave le ops schedule)
    (hmethod : request.method = "tools/list") :
    ListsExactly env state request sessionId ctx ↔
      ∀ leaf ∈ state.leaves.healthyLeaves, namedTools (state.leaves.cellsOf leaf) ≠ [] →
        ReadsRight ctx leaf.config.aliasName := by
  rw [listsExactly_iff_showsExactly env state hmethod]
  refine showsExactly_iff fun leaf hleaf => ?_
  obtain ⟨hwf, hall⟩ := Registry.interleave_inv le ops hstart.wf schedule
  rw [← hstate] at hwf hall
  rcases hall _ (alias_of_healthy hwf hleaf) with hold | ⟨i, hbrings⟩
  · exact hstart.aliasOK _ hold
  · exact hbrings.aliasOK (hops i)

end

/-- A request for the tools. -/
def toolsListRequest : JsonRpcRequest where
  id := none
  method := "tools/list"
  params := .null

/-- A client that may use `wiki` and nothing else sees the tool of `wiki`, and not that of
`docs`, whenever `docs` is registered. -/
theorem wiki_docs_listsExactly :
    wikiRegistry.Startup wikiLoad ∧
      ∀ schedule : List Unit,
        ListsExactly offline
          (.ofLeaves ⟨wikiRegistry.interleave wikiLoad (fun _ => .register docsRequest) schedule,
            fun _ => oneTool⟩)
          toolsListRequest none ⟨some "client-0", some ["wiki"]⟩ := by
  refine ⟨wiki_startup, fun schedule => ?_⟩
  refine (listsExactly_iff offline wikiLoad (fun _ => .register docsRequest) schedule wikiRegistry
    _ _ _ _ wiki_startup (by simp [Op.source]) rfl rfl).mpr fun leaf hleaf _ => ?_
  obtain ⟨hwf, hall⟩ :=
    Registry.interleave_inv wikiLoad (fun _ => .register docsRequest) wiki_startup.wf schedule
  have halias : leaf.config.aliasName = "wiki" ∨ leaf.config.aliasName = "docs" := by
    rcases hall _ (alias_of_healthy hwf hleaf) with hold | ⟨-, -, hdocs⟩
    · have hconfig := (Registry.aliases_fromConfigs wikiConfig.servers _).mp hold
      exact Or.inl (List.mem_singleton.mp hconfig)
    · exact Or.inr hdocs
  have hplain : ∀ a, Text.endsWith '_' a = false → a ≠ "federation" →
      ReadsRight ⟨some "client-0", some ["wiki"]⟩ a := by
    intro a hend hfed
    refine ⟨fun hc => absurd hc hfed, fun b hb => ?_⟩
    rw [endsWith_underscore_iff.mpr ⟨b, hb⟩] at hend
    simp at hend
  rcases halias with ha | ha
  · rw [ha]
    exact hplain _ (by decide) (by decide)
  · rw [ha]
    exact hplain _ (by decide) (by decide)

/-- A server started from a file with the one server `a_`, and a client that may use `a` and
nothing else: the tool of `a_` is on its list. -/
theorem trailing_underscore_listed :
    Registry.Startup (LoadEnv.knowing [(underscoreFile, underscoreConfig)])
        (Registry.fromConfigs underscoreConfig.servers) ∧
      permits ⟨some "client-0", some ["a"]⟩ "a_" = false ∧
      ¬ ListsExactly offline
        (.ofLeaves ⟨Registry.fromConfigs underscoreConfig.servers, fun _ => oneTool⟩)
        toolsListRequest none ⟨some "client-0", some ["a"]⟩ := by
  have hstart : Registry.Startup (LoadEnv.knowing [(underscoreFile, underscoreConfig)])
      (Registry.fromConfigs underscoreConfig.servers) :=
    ⟨.ok underscoreFile, underscoreConfig,
      FederationConfig.fromFile_of_plain (by decide) rfl (by decide), rfl⟩
  refine ⟨hstart, by decide, fun h => ?_⟩
  rw [listsExactly_iff_showsExactly _ _ rfl, showsExactly_iff
    fun leaf hleaf => hstart.aliasOK _ (alias_of_healthy hstart.wf hleaf)] at h
  have hread := h ⟨0, { aliasName := "a_", url := "http://a/mcp" }⟩
    (mem_healthyLeaves.mpr ⟨⟨"a_", rfl⟩, rfl⟩) (List.cons_ne_nil _ _)
  have hlisted := (hread.2 "a" rfl).mpr (Or.inl (by decide))
  revert hlisted
  decide

end McpFederation
