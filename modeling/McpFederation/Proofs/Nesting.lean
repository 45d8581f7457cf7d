/-
Federations of federations.

A federation can be a leaf of another one, and a tool is then renamed at every level: the
name grows by an alias and a `__` in front for each.  A call goes the other way and takes one
of them off at every level, at the first `__` of a name that has many.  `unnest_published`
says that this finds the way through aliases that were discovered, by DNS or from
Kubernetes, whatever the tool is called.  It rests on there being no underscore in them: a
host name is cleaned of them, and Kubernetes does not allow them.
-/
import McpFederation.Proofs.Representation

namespace McpFederation

/-- An alias that one of the discovery workers has made. -/
inductive Discovered : String → Prop
  | dns (target : String) : Discovered (sanitizeAlias target)
  | crd {n : ObjectName} (h : n.Legal) : Discovered (crdAlias n.ns n.name)

/-- A tool as it is published at the end of a chain of federations, of which the last one has
the leaf.  Each of them calls the next one by the alias given. -/
def publishThrough : List String → Value → Option Value
  | [], tool => some tool
  | a :: rest, tool => (publishThrough rest tool).bind (namespaceTool a)

/-- Take `n` aliases off a name, one at each level. -/
def unnest : Nat → String → Option (List String × String)
  | 0, name => some ([], name)
  | n + 1, name => do
      let (a, rest) ← parseNamespacedName name
      let (aliases, last) ← unnest n rest
      pure (a :: aliases, last)

/-! ### Discovered aliases -/

/-- Neither worker makes an alias with an underscore. -/
theorem Discovered.underscore_notMem {a : String} (h : Discovered a) : '_' ∉ a.toList := by
  cases h with
  | dns target => exact underscore_notMem_sanitizeAlias target
  | crd h => exact underscore_notMem_crdAlias h

theorem Discovered.aliasOK {a : String} (h : Discovered a) : AliasOK a := by
  cases h with
  | dns target => exact aliasOK_sanitizeAlias target
  | crd h => exact aliasOK_crdAlias h

/-- What starts with another letter is not `federation`. -/
theorem ne_federation {a : String} {c : Char} (h : a.toList.head? = some c) (hc : c ≠ 'f') :
    a ≠ "federation" := by
  intro heq
  rw [heq] at h
  exact hc (Option.some.inj h).symm

theorem Discovered.ne_federation {a : String} (h : Discovered a) : a ≠ "federation" := by
  cases h with
  | dns target =>
      refine McpFederation.ne_federation (c := 'd') ?_ (by decide)
      rw [sanitizeAlias, String.toList_append]
      rfl
  | crd h =>
      refine McpFederation.ne_federation (c := 'c') ?_ (by decide)
      rw [crdAlias, String.toList_append, String.toList_append, String.toList_append]
      rfl

theorem Discovered.routable {a : String} (h : Discovered a) : Routable a where
  noSeparator := h.aliasOK.noSeparator
  noTrailing := decide_eq_false fun hlast => h.underscore_notMem (List.mem_of_getLast? hlast)
  notNative := h.ne_federation

/-! ### Through all levels -/

/-- At every level the name is renamed, and the alias can be taken off again. -/
theorem unnest_publishThrough {tool : Value} {t : String} (htool : tool.strAt "name" = some t)
    {aliases : List String} (h : ∀ a ∈ aliases, Routable a) :
    ∃ published name, publishThrough aliases tool = some published ∧
      published.strAt "name" = some name ∧ unnest aliases.length name = some (aliases, t) := by
  induction aliases with
  | nil => exact ⟨tool, t, rfl, htool, rfl⟩
  | cons a rest ih =>
      obtain ⟨inner, name, hinner, hname, hunnest⟩ :=
        ih fun b hb => h b (List.mem_cons_of_mem _ hb)
      obtain ⟨published, hpublished, hnamespaced⟩ := ItemKind.publish_spec .tool a hname
      have ha := h a List.mem_cons_self
      have hparse : parseNamespacedName (namespaced a name) = some (a, name) :=
        (parseNamespacedName_namespaced_iff a name).mpr ⟨ha.noSeparator, ha.noTrailing⟩
      refine ⟨published, namespaced a name, ?_, hnamespaced, ?_⟩
      · rw [publishThrough, hinner]
        exact hpublished
      · simp [unnest, hparse, hunnest]

/--
**Namespacing at every level can be undone.**  A tool with any name is published through any
number of federations that know one another by discovered aliases.  Taking off as many
aliases as there are levels gives these aliases in order, and the tool's own name.  None of
them is empty, has a `__` in it or is `federation`.
-/
theorem unnest_published (aliases : List String)
    (hdiscovered : ∀ a ∈ aliases, Discovered a) (tool : Value) (t : String)
    (htool : tool.strAt "name" = some t) :
    (∃ published name, publishThrough aliases tool = some published ∧
      published.strAt "name" = some name ∧ unnest aliases.length name = some (aliases, t)) ∧
    ∀ a ∈ aliases, a ≠ "federation" ∧ a ≠ "" ∧ Text.contains "__" a = false := by
  refine ⟨unnest_publishThrough htool fun a ha => (hdiscovered a ha).routable, ?_⟩
  intro a ha
  have h := hdiscovered a ha
  exact ⟨h.ne_federation, h.aliasOK.nonempty, h.aliasOK.noSeparator⟩

/-- Two levels, and a tool whose name starts with underscores. -/
theorem two_levels_unnested :
    ∃ published name,
      publishThrough [sanitizeAlias "east.example.com.", crdAlias "mcp-system" "prod-k8s"]
        (.obj [("name", .string "__list_pods")]) = some published ∧
      published.strAt "name" = some name ∧
      unnest 2 name
        = some ([sanitizeAlias "east.example.com.", crdAlias "mcp-system" "prod-k8s"],
            "__list_pods") := by
  have hlegal : ObjectName.Legal ⟨"mcp-system", "prod-k8s"⟩ := ⟨by decide, by decide⟩
  refine (unnest_published
    [sanitizeAlias "east.example.com.", crdAlias "mcp-system" "prod-k8s"] ?_
    (.obj [("name", .string "__list_pods")]) "__list_pods" rfl).1
  intro a ha
  rcases List.mem_cons.mp ha with rfl | ha
  · exact .dns _
  · obtain rfl := List.mem_singleton.mp ha
    exact .crd (n := ⟨"mcp-system", "prod-k8s"⟩) hlegal

end McpFederation
