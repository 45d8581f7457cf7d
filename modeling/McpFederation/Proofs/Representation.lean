/-
What every entry of the registry satisfies, whoever wrote it.

The catalogue is built from the alias in an entry's configuration, routing and access
control from the key of the map.  They agree because each of the writers inserts under the
alias of the configuration it inserts, and each makes sure in a way of its own that the
alias is not empty and has no `__` in it: a file is validated, a registration is checked,
and an alias made from a DNS target or from a Kubernetes name has no underscore at all.
-/
import McpFederation.Proofs.Kubernetes
import McpFederation.Proofs.Namespacing

namespace McpFederation

/-- Every entry is under the alias of its configuration, which is an alias that may be used. -/
def Registry.Sound (r : Registry) : Prop :=
  ∀ a leaf, r.getLeaf a = some leaf →
    leaf.config.aliasName = a ∧ a ≠ "" ∧ Text.contains "__" a = false

/-- An object that the API server would have admitted. -/
def Op.Legal : Op → Prop
  | .crd obj _ => obj.objectName.Legal
  | _ => True

/-! ### The aliases that are brought in -/

theorem underscore_notMem_label {cs : List Char} (h : isLabel cs = true) : '_' ∉ cs := by
  simp only [isLabel, Bool.and_eq_true] at h
  intro hc
  have hchar := List.all_eq_true.mp h.1.1.2 '_' hc
  revert hchar
  decide

/-- The alias of a legal object has no underscore. -/
theorem underscore_notMem_crdAlias {n : ObjectName} (h : n.Legal) :
    '_' ∉ (crdAlias n.ns n.name).toList := by
  have hns := underscore_notMem_label h.1.1
  have hname : '_' ∉ n.name.toList := by
    intro hc
    obtain ⟨piece, hpiece, hmem⟩ := Text.mem_splitOn (c := '.') hc (by decide)
    exact underscore_notMem_label (List.all_eq_true.mp h.2.1 piece hpiece) hmem
  simp only [crdAlias, String.toList_append, List.mem_append, not_or]
  exact ⟨⟨⟨by decide, hns⟩, by decide⟩, hname⟩

theorem aliasOK_crdAlias {n : ObjectName} (h : n.Legal) : AliasOK (crdAlias n.ns n.name) where
  nonempty := by
    intro hempty
    have hlist := congrArg String.toList hempty
    simp [crdAlias] at hlist
  noSeparator := Text.contains_eq_false (c := '_') (by decide) (underscore_notMem_crdAlias h)

/-- **Whatever a source brings in is an alias that may be used.** -/
theorem Op.Brings.aliasOK_of_legal {le : LoadEnv} {op : Op} (hlegal : op.Legal) {a : String}
    (h : op.Brings le a) : AliasOK a := by
  by_cases hop : op.source = .crd
  · cases op with
    | crd obj patch =>
        have halias : a = crdAlias obj.objectName.ns obj.objectName.name := h
        rw [halias]
        exact aliasOK_crdAlias hlegal
    | _ => simp [Op.source] at hop
  · exact h.aliasOK hop

namespace Registry

variable {le : LoadEnv} {r : Registry}

theorem sound_of_wf (hwf : r.WF) (hall : ∀ a ∈ r.aliases, AliasOK a) : r.Sound := by
  intro a leaf hleaf
  have hok := hall a (mem_aliases.mpr ⟨leaf, hleaf⟩)
  exact ⟨hwf.key a leaf hleaf, hok.nonempty, hok.noSeparator⟩

/-! ### A registry from a configuration -/

/-- What is there under an alias that no configuration has is there still. -/
theorem getLeaf_foldl_addLeaf {configs : List ServerConfig} {a : String}
    (ha : a ∉ configs.map ServerConfig.aliasName) :
    ∀ r : Registry,
      (configs.foldl (fun r config => r.addLeaf config.aliasName config) r).getLeaf a
        = r.getLeaf a := by
  induction configs with
  | nil => intro r; rfl
  | cons config rest ih =>
      intro r
      rw [List.map_cons, List.mem_cons, not_or] at ha
      rw [List.foldl_cons, ih ha.2, getLeaf_addLeaf_ne _ _ ha.1]

/-- Configurations with different aliases all get their entries. -/
theorem getLeaf_fromConfigs {configs : List ServerConfig}
    (hnodup : (configs.map ServerConfig.aliasName).Nodup) {server : ServerConfig}
    (hs : server ∈ configs) :
    ∃ leaf, (fromConfigs configs).getLeaf server.aliasName = some leaf ∧ leaf.config = server := by
  have key : ∀ (configs : List ServerConfig) (r : Registry),
      (configs.map ServerConfig.aliasName).Nodup → server ∈ configs →
      ∃ leaf, (configs.foldl (fun r config => r.addLeaf config.aliasName config) r).getLeaf
          server.aliasName = some leaf ∧ leaf.config = server := by
    intro configs
    induction configs with
    | nil => intro r _ h; simp at h
    | cons config rest ih =>
        intro r hnodup hmem
        rw [List.map_cons, List.nodup_cons] at hnodup
        rcases List.mem_cons.mp hmem with rfl | hrest
        · refine ⟨r.alloc server, ?_, rfl⟩
          rw [List.foldl_cons, getLeaf_foldl_addLeaf hnodup.1, getLeaf_addLeaf_self]
        · exact ih _ hnodup.2 hrest
  exact key configs empty hnodup hs

/-- **One entry for each server of a validated configuration**, with the server's own
configuration, and no others. -/
theorem perm_fromConfigs {configs : List ServerConfig}
    (hnodup : (configs.map ServerConfig.aliasName).Nodup) :
    ((fromConfigs configs).allLeaves.map LeafEntry.config).Perm configs := by
  have hwf := wf_fromConfigs configs
  have hkeys : ((fromConfigs configs).allLeaves.map LeafEntry.config).map ServerConfig.aliasName
      = (fromConfigs configs).aliases := by
    rw [allLeaves, List.map_map, List.map_map]
    refine List.map_congr_left fun e he => ?_
    exact hwf.key e.1 e.2 (AList.mem_lookup_iff.mpr he)
  have hleaves : ((fromConfigs configs).allLeaves.map LeafEntry.config).Nodup := by
    refine List.Nodup.of_map ServerConfig.aliasName ?_
    rw [hkeys]
    exact nodup_aliases _
  refine (List.perm_ext_iff_of_nodup hleaves hnodup.of_map).mpr fun server => ⟨?_, ?_⟩
  · intro hmem
    obtain ⟨leaf, hleaf, rfl⟩ := List.mem_map.mp hmem
    obtain ⟨a, ha⟩ := mem_allLeaves.mp hleaf
    have hlisted := (aliases_fromConfigs _ a).mp (mem_aliases.mpr ⟨leaf, ha⟩)
    obtain ⟨server, hs, rfl⟩ := List.mem_map.mp hlisted
    obtain ⟨leaf', hleaf', hconfig⟩ := getLeaf_fromConfigs hnodup hs
    rw [ha, Option.some.injEq] at hleaf'
    rw [hleaf', hconfig]
    exact hs
  · intro hs
    obtain ⟨leaf, hleaf, hconfig⟩ := getLeaf_fromConfigs hnodup hs
    exact List.mem_map.mpr ⟨leaf, mem_allLeaves.mpr ⟨_, hleaf⟩, hconfig⟩

/-! ### Every reachable registry -/

/-- An operation that runs by itself brings in no other alias. -/
theorem aliasOK_apply (le : LoadEnv) (hwf : r.WF) (hall : ∀ a ∈ r.aliases, AliasOK a) {op : Op}
    (hlegal : op.Legal) :
    (r.apply le op).WF ∧ ∀ a ∈ (r.apply le op).aliases, AliasOK a := by
  refine Prog.run_inv (P := RegistryCall.InsertsOnly AliasOK)
    (I := fun s => s.WF ∧ ∀ a ∈ s.aliases, AliasOK a) Registry.exec ?_ _ ?_ r ⟨hwf, hall⟩
  · intro c s hc hs
    exact ⟨hs.1.exec c hc, aliases_exec hs.2 c hc⟩
  · refine Prog.Makes.imp (fun c hc => ?_) (op.makes_program le)
    cases c with
    | addLeaf a config => exact ⟨hc.1, hc.2.aliasOK_of_legal hlegal⟩
    | getLeaf a => trivial
    | aliases => trivial
    | removeLeaf a => trivial

/--
**Every reachable registry is sound.**  From a registry built from a validated
configuration, after any sequence of reloads, registrations, deregistrations, DNS polls and
reconciles of legal objects, and after any number of them side by side, registry call by
registry call: every key is the alias of the entry under it, is not empty and has no `__`.
And a registry built from a validated configuration has one entry for each of its servers.
-/
theorem reachable_sound (le : LoadEnv) (r : Registry) (hstart : r.Startup le) :
    (∀ ops : List Op, (∀ op ∈ ops, op.Legal) → (Runs.run (apply le) r ops).Sound) ∧
      (∀ (ι : Type) [DecidableEq ι] (ops : ι → Op) (schedule : List ι),
        (∀ i, (ops i).Legal) → (r.interleave le ops schedule).Sound) ∧
      ∀ read cfg, FederationConfig.fromFile le read = .ok cfg →
        ((fromConfigs cfg.servers).allLeaves.map LeafEntry.config).Perm cfg.servers := by
  refine ⟨?_, ?_, ?_⟩
  · intro ops hlegal
    have hend := Runs.inv_run (I := fun s => s.WF ∧ ∀ a ∈ s.aliases, AliasOK a)
      (G := fun _ op => op.Legal) (fun s op hs hop => aliasOK_apply le hs.1 hs.2 hop) ops r
      ⟨hstart.wf, hstart.aliasOK⟩ (Runs.along_of_forall fun op hop _ => hlegal op hop)
    exact sound_of_wf hend.1 hend.2
  · intro ι _ ops schedule hlegal
    obtain ⟨hwf, hall⟩ := interleave_inv le ops hstart.wf schedule
    refine sound_of_wf hwf fun a ha => ?_
    rcases hall a ha with hold | ⟨i, hbrings⟩
    · exact hstart.aliasOK a hold
    · exact hbrings.aliasOK_of_legal (hlegal i)
  · intro read cfg hcfg
    obtain ⟨-, -, hnodup⟩ := FederationConfig.validate_ok (FederationConfig.fromFile_ok hcfg)
    exact perm_fromConfigs hnodup

/-- The server `wiki`, with an object in the cluster and a record in DNS. -/
theorem wiki_crd_dns_sound :
    (Runs.run (apply wikiLoad) wikiRegistry
        [.crd (Controlled.registering ⟨"prod", "docs"⟩).obj (.ok ()),
          .dns {} [⟨80, "search.example."⟩]]).Sound ∧
      ((fromConfigs wikiConfig.servers).allLeaves.map LeafEntry.config).Perm
        wikiConfig.servers := by
  obtain ⟨hruns, -, hservers⟩ := reachable_sound wikiLoad wikiRegistry wiki_startup
  refine ⟨hruns _ fun op hop => ?_, hservers _ _ wikiFile_loads⟩
  rcases List.mem_pair.mp hop with rfl | rfl
  · exact ⟨by decide, by decide⟩
  · trivial

end Registry

end McpFederation
