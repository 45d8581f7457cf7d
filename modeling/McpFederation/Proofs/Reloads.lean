/-
What a reload does with its file.

SIGHUP reads the configuration file again.  A file that does not load changes nothing, and
one that does is applied alias by alias.  `reload_idempotent` says that this settles at
once: after one reload every server of the file has an entry that agrees with it as far as
a reload looks, so the next one finds nothing to do.

How far it looks is another matter.  An entry is replaced if one of five fields differs,
and otherwise kept, with the `tls`, `health_check` and `tags` it was made with, whatever
the file says now.  `reload_applies` says what the entry of each server is.
-/
import McpFederation.Proofs.Effects

namespace McpFederation

/-- Two configurations agree in the fields that a reload compares. -/
structure ServerConfig.Agrees (current server : ServerConfig) : Prop where
  url : current.url = server.url
  authToken : current.authToken = server.authToken
  authTokenFile : current.authTokenFile = server.authTokenFile
  transport : current.transport = server.transport
  timeoutSeconds : current.timeoutSeconds = server.timeoutSeconds

theorem sameLeafConfig_iff {current server : ServerConfig} :
    sameLeafConfig current server = true ↔ current.Agrees server := by
  simp only [sameLeafConfig, Bool.and_eq_true, decide_eq_true_eq]
  refine ⟨?_, ?_⟩
  · intro h
    obtain ⟨⟨⟨⟨hurl, htoken⟩, hfile⟩, htransport⟩, htimeout⟩ := h
    exact ⟨hurl, htoken, hfile, htransport, htimeout⟩
  · intro h
    exact ⟨⟨⟨⟨h.url, h.authToken⟩, h.authTokenFile⟩, h.transport⟩, h.timeoutSeconds⟩

theorem ServerConfig.agrees_refl (config : ServerConfig) : config.Agrees config :=
  ⟨rfl, rfl, rfl, rfl, rfl⟩

/-- A server whose entry agrees with it is left alone. -/
theorem run_reloadServer_idle {r : Registry} {server : ServerConfig} {leaf : LeafEntry}
    (hleaf : r.getLeaf server.aliasName = some leaf)
    (hsame : leaf.config.Agrees server) :
    (reloadServer server).run Registry.exec r = ([], r) := by
  simp [reloadServer, RegistryM.getLeaf, Registry.exec, hleaf, sameLeafConfig_iff.mpr hsame]

/-- What a reload spawns a warm-up for is an entry it has made. -/
theorem run_reloadServer_new (n : Nat) (server : ServerConfig) (r : Registry) (hr : n ≤ r.next) :
    n ≤ ((reloadServer server).run Registry.exec r).2.next ∧
      ∀ leaf ∈ ((reloadServer server).run Registry.exec r).1, n ≤ leaf.addr := by
  have hput : n ≤ (r.addLeaf server.aliasName server).next ∧
      ∀ leaf ∈ [r.alloc server], n ≤ leaf.addr := by
    refine ⟨Nat.le_succ_of_le hr, fun leaf hleaf => ?_⟩
    rw [List.mem_singleton.mp hleaf]
    exact hr
  cases hcur : r.getLeaf server.aliasName with
  | none =>
      simp only [reloadServer, RegistryM.getLeaf, RegistryM.addLeaf, Prog.perform_bind,
        Prog.run_call, Registry.exec, hcur]
      exact hput
  | some current =>
      by_cases hsame : sameLeafConfig current.config server = true
      · rw [run_reloadServer_idle hcur (sameLeafConfig_iff.mp hsame)]
        exact ⟨hr, fun leaf hleaf => by cases hleaf⟩
      · simp only [reloadServer, RegistryM.getLeaf, RegistryM.addLeaf, Prog.perform_bind,
          Prog.run_call, Registry.exec, hcur, if_neg hsame]
        exact hput

namespace Registry

variable {le : LoadEnv} {r : Registry} {read : Except String String} {cfg : FederationConfig}

/-- The entry of each server of the file: the one it had, if that agrees in the five
fields, and else a new one with the configuration of the file. -/
theorem getLeaf_reload (hcfg : FederationConfig.fromFile le read = .ok cfg)
    {server : ServerConfig} (hserver : server ∈ cfg.servers) :
    ∃ leaf, (r.apply le (.reload read)).getLeaf server.aliasName = some leaf ∧
      (r.getLeaf server.aliasName = some leaf ∧ leaf.config.Agrees server ∨
        leaf.config = server ∧ ∀ current, r.getLeaf server.aliasName = some current →
          ¬ current.config.Agrees server) := by
  have heff := holds_effect le r (.reload read) server.aliasName
  have hfind := (FederationConfig.server?_eq_some hcfg).mpr ⟨hserver, rfl⟩
  simp only [Op.effect, hcfg, hfind] at heff
  cases hcur : r.getLeaf server.aliasName with
  | none =>
      simp only [hcur, reloadEffect, Effect.Holds] at heff
      obtain ⟨leaf, hleaf, hconfig, -⟩ := heff
      exact ⟨leaf, hleaf, Or.inr ⟨hconfig, fun current hc => by cases hc⟩⟩
  | some current =>
      simp only [hcur, reloadEffect] at heff
      by_cases hsame : sameLeafConfig current.config server = true
      · rw [if_pos hsame] at heff
        exact ⟨current, heff.trans hcur, Or.inl ⟨rfl, sameLeafConfig_iff.mp hsame⟩⟩
      · rw [if_neg hsame] at heff
        obtain ⟨leaf, hleaf, hconfig, -⟩ := heff
        refine ⟨leaf, hleaf, Or.inr ⟨hconfig, fun other hother hagrees => ?_⟩⟩
        rw [← Option.some.inj hother] at hagrees
        exact hsame (sameLeafConfig_iff.mpr hagrees)

/-- Either way it agrees with the server. -/
theorem getLeaf_reload_agrees (hcfg : FederationConfig.fromFile le read = .ok cfg)
    {server : ServerConfig} (hserver : server ∈ cfg.servers) :
    ∃ leaf, (r.apply le (.reload read)).getLeaf server.aliasName = some leaf ∧
      leaf.config.Agrees server := by
  obtain ⟨leaf, hleaf, ⟨-, hagrees⟩ | ⟨hconfig, -⟩⟩ := getLeaf_reload (r := r) hcfg hserver
  · exact ⟨leaf, hleaf, hagrees⟩
  · refine ⟨leaf, hleaf, ?_⟩
    rw [hconfig]
    exact server.agrees_refl

/-- After a reload the registry has the aliases of the file and no others. -/
theorem mem_aliases_reload (hcfg : FederationConfig.fromFile le read = .ok cfg) {a : String}
    (ha : a ∈ (r.apply le (.reload read)).aliases) :
    a ∈ cfg.servers.map ServerConfig.aliasName := by
  by_contra hnot
  have heff := holds_effect le r (.reload read) a
  simp only [Op.effect, hcfg, FederationConfig.server?_eq_none.mpr hnot, Effect.Holds] at heff
  obtain ⟨leaf, hleaf⟩ := mem_aliases.mp ha
  rw [heff] at hleaf
  cases hleaf

/-- A reload finds nothing to do where every server has an entry that agrees with it, and
nothing else is registered. -/
theorem run_reload_idle (hcfg : FederationConfig.fromFile le read = .ok cfg)
    (hsame : ∀ server ∈ cfg.servers, ∃ leaf, r.getLeaf server.aliasName = some leaf ∧
      leaf.config.Agrees server)
    (hnone : ∀ a ∈ r.aliases, a ∈ cfg.servers.map ServerConfig.aliasName) :
    ((Op.reload read).program le).run exec r = ([], r) := by
  have hloop : (Prog.forEach reloadServer cfg.servers).run exec r = ([], r) := by
    refine Prog.run_forEach_idle exec fun server hserver => ?_
    obtain ⟨leaf, hleaf, hagrees⟩ := hsame server hserver
    exact run_reloadServer_idle hleaf hagrees
  have hgone : r.aliases.filter (· ∉ cfg.servers.map ServerConfig.aliasName) = [] := by
    refine List.filter_eq_nil_iff.mpr fun a ha => ?_
    simpa using hnone a ha
  simp only [Op.program, hcfg]
  show (Prog.forEach reloadServer cfg.servers >>= _).run exec r = _
  rw [Prog.run_bind, hloop]
  show (Prog.forEach removeAlias
    (r.aliases.filter (· ∉ cfg.servers.map ServerConfig.aliasName)) >>= _).run exec r = _
  rw [hgone]
  rfl

/-- What a reload spawns a warm-up for are entries it has made. -/
theorem spawned_reload_new {leaf : LeafEntry}
    (hleaf : leaf ∈ (((Op.reload read).program le).run exec r).1) : r.next ≤ leaf.addr := by
  simp only [Op.program, reloadConfig] at hleaf
  cases hcfg : FederationConfig.fromFile le read with
  | error e =>
      rw [hcfg] at hleaf
      cases hleaf
  | ok cfg =>
      rw [hcfg] at hleaf
      refine (Prog.run_forEach_inv exec (run_reloadServer_new r.next) cfg.servers r
        (le_refl _)).2 leaf ?_
      simpa only [RegistryM.aliases, Prog.perform_bind, Prog.run_call, Prog.run_bind, exec,
        Prog.pure_eq, Prog.run_ret] using hleaf

/--
**A reload is all or nothing, and settles at once.**  A file that does not load changes
nothing.  One that does keeps every entry that agrees with it, warms up none but new ones,
and leaves nothing to do for another reload of the same file.
-/
theorem reload_idempotent (le : LoadEnv) (r : Registry) (read : Except String String) :
    (∀ e, FederationConfig.fromFile le read = .error e →
      ((Op.reload read).program le).run exec r = ([], r)) ∧
    ∀ cfg, FederationConfig.fromFile le read = .ok cfg →
      (∀ server ∈ cfg.servers, ∀ leaf, r.getLeaf server.aliasName = some leaf →
        leaf.config.Agrees server →
          (r.apply le (.reload read)).getLeaf server.aliasName = some leaf) ∧
      (∀ leaf ∈ (((Op.reload read).program le).run exec r).1, r.next ≤ leaf.addr) ∧
      ((Op.reload read).program le).run exec (r.apply le (.reload read))
        = ([], r.apply le (.reload read)) := by
  refine ⟨fun e herror => ?_, fun cfg hcfg => ⟨fun server hserver leaf hleaf hagrees => ?_,
    fun leaf hleaf => spawned_reload_new hleaf, ?_⟩⟩
  · simp only [Op.program, herror]
    rfl
  · obtain ⟨kept, hkept, ⟨hold, -⟩ | ⟨-, hchanged⟩⟩ := getLeaf_reload (r := r) hcfg hserver
    · rw [hkept, ← hold, hleaf]
    · exact absurd hagrees (hchanged leaf hleaf)
  · exact run_reload_idle hcfg (fun server hserver => getLeaf_reload_agrees hcfg hserver)
      fun a ha => mem_aliases_reload hcfg ha

/--
**What a reload applies.**  Every server of the file is registered with an entry that agrees
with it in the five fields a reload compares.  An entry that already did is kept as it is, and
if there was none the new one has the configuration of the file in every field.
-/
theorem reload_applies (le : LoadEnv) (r : Registry) (read : Except String String)
    (cfg : FederationConfig) (hcfg : FederationConfig.fromFile le read = .ok cfg)
    (server : ServerConfig) (hserver : server ∈ cfg.servers) :
    ∃ leaf, (r.apply le (.reload read)).getLeaf server.aliasName = some leaf ∧
      leaf.config.Agrees server ∧
      (∀ current, r.getLeaf server.aliasName = some current → current.config.Agrees server →
        leaf = current) ∧
      ((∀ current, r.getLeaf server.aliasName = some current →
        ¬ current.config.Agrees server) → leaf.config = server) := by
  obtain ⟨leaf, hleaf, hor⟩ := getLeaf_reload (r := r) hcfg hserver
  refine ⟨leaf, hleaf, ?_⟩
  rcases hor with ⟨hold, hagrees⟩ | ⟨hconfig, hnone⟩
  · refine ⟨hagrees, fun current hcurrent _ => ?_, fun hnone => ?_⟩
    · exact Option.some.inj (hold.symm.trans hcurrent)
    · exact absurd hagrees (hnone leaf hold)
  · refine ⟨?_, fun current hcurrent hagrees => ?_, fun _ => hconfig⟩
    · rw [hconfig]
      exact server.agrees_refl
    · exact absurd hagrees (hnone current hcurrent)

end Registry

/-! ### TLS checks turned on again -/

/-- The server `wiki`, and as it was configured before: without a check of its certificate. -/
def checkedServer : ServerConfig := { aliasName := "wiki", url := "https://wiki/mcp" }

def uncheckedServer : ServerConfig := { checkedServer with tls := { verify := false } }

/-- The file once the operator asks for the check, and nothing else has changed. -/
def checkedConfig : FederationConfig where
  servers := [checkedServer]

def checkedFile : String :=
  "federation:\n  endpoint: /mcp\nservers:\n- alias: wiki\n  url: https://wiki/mcp\n"

def checkedLoad : LoadEnv := LoadEnv.knowing [(checkedFile, checkedConfig)]

theorem checkedFile_loads :
    FederationConfig.fromFile checkedLoad (.ok checkedFile) = .ok checkedConfig :=
  FederationConfig.fromFile_of_plain (by decide) rfl (by decide)

/-- A leaf that is new is made with the check. -/
theorem new_server_checked :
    ∃ leaf, (Registry.empty.apply checkedLoad (.reload (.ok checkedFile))).getLeaf "wiki"
        = some leaf ∧ leaf.config = checkedServer := by
  obtain ⟨leaf, hleaf, -, -, hnew⟩ := Registry.reload_applies checkedLoad Registry.empty
    (.ok checkedFile) checkedConfig checkedFile_loads checkedServer List.mem_cons_self
  exact ⟨leaf, hleaf, hnew fun current hcurrent => by cases hcurrent⟩

/-- A leaf that was there stays without it. -/
theorem reload_keeps_unchecked :
    FederationConfig.fromFile checkedLoad (.ok checkedFile) = .ok checkedConfig ∧
      checkedServer ∈ checkedConfig.servers ∧
      ((Registry.fromConfigs [uncheckedServer]).apply checkedLoad
        (.reload (.ok checkedFile))).getLeaf checkedServer.aliasName = some ⟨0, uncheckedServer⟩ ∧
      uncheckedServer.tls.verify = false ∧ checkedServer.tls.verify = true := by
  have hkeep : (Op.reload (.ok checkedFile)).effect checkedLoad
      (Registry.fromConfigs [uncheckedServer]) "wiki" = .keep := by
    simp only [Op.effect, checkedFile_loads]
    rfl
  have heff := Registry.holds_effect checkedLoad (Registry.fromConfigs [uncheckedServer])
    (.reload (.ok checkedFile)) "wiki"
  rw [hkeep] at heff
  exact ⟨checkedFile_loads, List.mem_cons_self, heff, rfl, rfl⟩

end McpFederation
