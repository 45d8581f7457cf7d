/-
Which leaves have a health monitor.

`start_health_monitor` spawns one `monitor_leaf` task for every enabled leaf that is
registered when the server starts.  Nothing spawns another one later, and the task is a
loop without an exit on the entry it was given.  So the monitors of a server are fixed at
startup while the registry goes on changing: a leaf that is added or replaced has none,
and one that is removed or replaced keeps being polled.

`covered_step_iff` says which operations keep the two in step: exactly those that add no
enabled entry and take none away.
-/
import McpFederation.Proofs.Effects

namespace McpFederation

/-- Whether a leaf asks for a monitor. -/
def LeafEntry.monitored (leaf : LeafEntry) : Bool := leaf.config.healthCheck.enabled

/-- `start_health_monitor`: the entries it spawns a `monitor_leaf` task for. -/
def startHealthMonitor (r : Registry) : List LeafEntry := r.allLeaves.filter LeafEntry.monitored

/-- The registry, and the entries of the running monitors. -/
structure Monitored where
  registry : Registry
  monitors : List LeafEntry

namespace Monitored

variable (le : LoadEnv)

/-- An operation starts no monitor and stops none. -/
def step (s : Monitored) (op : Op) : Monitored := { s with registry := s.registry.apply le op }

def Startup (s : Monitored) : Prop :=
  s.registry.Startup le ∧ s.monitors = startHealthMonitor s.registry

/-- Every enabled entry has a monitor, and every monitor's entry is registered. -/
structure Covered (s : Monitored) : Prop where
  complete : ∀ b leaf, s.registry.getLeaf b = some leaf → leaf.monitored = true →
    leaf ∈ s.monitors
  sound : ∀ leaf ∈ s.monitors, ∃ b, s.registry.getLeaf b = some leaf

/-- The entry under `b`, if there is one, has no monitor to lose. -/
def Unmonitored (r : Registry) (b : String) : Prop :=
  ∀ leaf, r.getLeaf b = some leaf → leaf.monitored = false

/-- An effect that neither adds an enabled entry nor takes one away. -/
def Harmless (r : Registry) (b : String) : Effect → Prop
  | .keep => True
  | .remove => Unmonitored r b
  | .put config => config.healthCheck.enabled = false ∧ Unmonitored r b

/--
The operations that leave the monitors right, read off their input:

  * a reload, if every server of the file that is new or changed is disabled, before and
    after, and so is every registered leaf that is not in the file;
  * a registration, if it is refused, since a registered leaf is always enabled;
  * `DELETE`, if the leaf is disabled or not there;
  * a DNS poll, if every advertised leaf is there and every lost one is disabled;
  * the controller, if it inserts nothing and removes no enabled leaf.
-/
def Quiet (s : Monitored) : Op → Prop
  | .reload read =>
      ∀ cfg, FederationConfig.fromFile le read = .ok cfg →
        (∀ server ∈ cfg.servers,
          (∃ leaf, s.registry.getLeaf server.aliasName = some leaf ∧
            sameLeafConfig leaf.config server = true) ∨
          server.healthCheck.enabled = false ∧ Unmonitored s.registry server.aliasName) ∧
        ∀ b, b ∉ cfg.servers.map ServerConfig.aliasName → Unmonitored s.registry b
  | .register req => req.Valid → ∃ leaf, s.registry.getLeaf req.aliasName = some leaf
  | .deregister a => Unmonitored s.registry a
  | .dns _ records =>
      (∀ b ∈ desiredRecords records, ∃ leaf, s.registry.getLeaf b = some leaf) ∧
        ∀ b, Text.startsWith dnsAliasPrefix b = true → b ∉ desiredRecords records →
          Unmonitored s.registry b
  | .crd obj _ => Harmless s.registry obj.aliasName obj.effect

variable {le} {s : Monitored}

/-- What holds of the registry and the monitors whatever happens: only enabled entries
were given a monitor. -/
structure Inv (s : Monitored) : Prop where
  wf : s.registry.WF
  enabled : ∀ leaf ∈ s.monitors, leaf.monitored = true

theorem Inv.step (h : s.Inv) (op : Op) : (s.step le op).Inv := ⟨h.wf.apply le op, h.enabled⟩

theorem Startup.inv (h : s.Startup le) : s.Inv := by
  refine ⟨Registry.Startup.wf h.1, fun leaf hleaf => ?_⟩
  rw [h.2] at hleaf
  exact (List.mem_filter.mp hleaf).2

theorem Startup.covered (h : s.Startup le) : s.Covered := by
  refine ⟨?_, ?_⟩
  · intro b leaf hleaf henabled
    rw [h.2]
    exact List.mem_filter.mpr ⟨Registry.mem_allLeaves.mpr ⟨b, hleaf⟩, henabled⟩
  · intro leaf hleaf
    rw [h.2] at hleaf
    exact Registry.mem_allLeaves.mp (List.mem_filter.mp hleaf).1

/-! ### One effect -/

/-- If the monitors are still right, an entry that is gone had none. -/
theorem unmonitored_of_gone (hinv : s.Inv) (h : s.Covered) {op : Op}
    (hafter : (s.step le op).Covered) {b : String}
    (hgone : op.effect le s.registry b ≠ .keep) : Unmonitored s.registry b := by
  intro leaf hleaf
  by_contra henabled
  obtain ⟨b', hb'⟩ := hafter.sound leaf (h.complete b leaf hleaf (by simpa using henabled))
  -- An entry can only be under its own alias, and there it is gone.
  have hb : b' = b :=
    ((hinv.wf.apply le op).key b' leaf hb').symm.trans (hinv.wf.key b leaf hleaf)
  rw [hb] at hb'
  exact ((Registry.holds_effect le s.registry op b).gone_iff hinv.wf leaf hleaf).mpr hgone hb'

/-- Coverage is kept exactly by the operations that do no harm to any alias. -/
theorem covered_step_iff_effect (hinv : s.Inv) (h : s.Covered) (op : Op) :
    (s.step le op).Covered ↔ ∀ b, Harmless s.registry b (op.effect le s.registry b) := by
  refine ⟨?_, ?_⟩
  · intro hafter b
    have hholds := Registry.holds_effect le s.registry op b
    have hgone := unmonitored_of_gone hinv h hafter (b := b)
    cases heff : op.effect le s.registry b with
    | keep => trivial
    | remove => exact hgone (by simp [heff])
    | put config =>
        refine ⟨?_, hgone (by simp [heff])⟩
        rw [heff] at hholds
        obtain ⟨new, hnew, rfl, haddr⟩ := hholds
        by_contra henabled
        -- No monitor was ever given an entry that had not been allocated.
        obtain ⟨b', hb'⟩ := h.sound new
          (hafter.complete b new hnew (by simpa [LeafEntry.monitored] using henabled))
        exact absurd (hinv.wf.fresh b' new hb') (Nat.not_lt.mpr haddr)
  · intro hall
    refine ⟨?_, ?_⟩
    · intro b leaf hleaf henabled
      have hholds := Registry.holds_effect le s.registry op b
      have hharm := hall b
      cases heff : op.effect le s.registry b with
      | keep =>
          rw [heff, Effect.Holds] at hholds
          exact h.complete b leaf (hholds.symm.trans hleaf) henabled
      | remove =>
          rw [heff, Effect.Holds] at hholds
          exact absurd (hholds.symm.trans hleaf) (by simp)
      | put config =>
          rw [heff] at hholds hharm
          obtain ⟨new, hnew, rfl, -⟩ := hholds
          have heq : leaf = new := Option.some.inj (hleaf.symm.trans hnew)
          rw [heq, LeafEntry.monitored, hharm.1] at henabled
          simp at henabled
    · intro leaf hleaf
      obtain ⟨b, hb⟩ := h.sound leaf hleaf
      have henabled := hinv.enabled leaf hleaf
      have hharm := hall b
      have hholds := Registry.holds_effect le s.registry op b
      refine ⟨b, ?_⟩
      cases heff : op.effect le s.registry b with
      | keep =>
          rw [heff, Effect.Holds] at hholds
          exact hholds.trans hb
      | remove =>
          rw [heff] at hharm
          simp [hharm leaf hb] at henabled
      | put config =>
          rw [heff] at hharm
          simp [hharm.2 leaf hb] at henabled

/-! ### Each operation -/

theorem quiet_reload_iff (read : Except String String) :
    s.Quiet le (.reload read) ↔
      ∀ b, Harmless s.registry b ((Op.reload read).effect le s.registry b) := by
  cases hcfg : FederationConfig.fromFile le read with
  | error e => simp [Quiet, Op.effect, hcfg, Harmless]
  | ok cfg =>
      -- One server of the file, against the registry.
      have hserver : ∀ server, Harmless s.registry server.aliasName
            (reloadEffect server (s.registry.getLeaf server.aliasName)) ↔
          (∃ leaf, s.registry.getLeaf server.aliasName = some leaf ∧
            sameLeafConfig leaf.config server = true) ∨
          server.healthCheck.enabled = false ∧ Unmonitored s.registry server.aliasName := by
        intro server
        cases hcur : s.registry.getLeaf server.aliasName with
        | none => simp [reloadEffect, Harmless]
        | some current =>
            by_cases hsame : sameLeafConfig current.config server = true
            · simp [reloadEffect, hsame, Harmless]
            · simp [reloadEffect, hsame, Harmless]
      simp only [Quiet, Op.effect, hcfg, Except.ok.injEq, forall_eq']
      refine ⟨?_, ?_⟩
      · intro h b
        obtain ⟨hin, hout⟩ := h
        cases hfind : cfg.server? b with
        | none => exact hout b (FederationConfig.server?_eq_none.mp hfind)
        | some server =>
            obtain ⟨hmem, hb⟩ := (FederationConfig.server?_eq_some hcfg).mp hfind
            subst hb
            exact (hserver server).mpr (hin server hmem)
      · intro h
        refine ⟨fun server hs => (hserver server).mp ?_, fun b hb => ?_⟩
        · have hb := h server.aliasName
          rwa [(FederationConfig.server?_eq_some hcfg).mpr ⟨hs, rfl⟩] at hb
        · have hout := h b
          rwa [FederationConfig.server?_eq_none.mpr hb] at hout

theorem quiet_dns_iff (config : DnsDiscoveryConfig) (records : List SrvRecord) :
    s.Quiet le (.dns config records) ↔
      ∀ b, Harmless s.registry b ((Op.dns config records).effect le s.registry b) := by
  simp only [Quiet, Op.effect]
  rw [← forall_and]
  refine forall_congr' fun b => ?_
  by_cases hmem : b ∈ desiredRecords records
  · have hpre : Text.startsWith dnsAliasPrefix b = true := by
      obtain ⟨record, -, rfl⟩ := desiredRecords_keys.mp hmem
      exact sanitizeAlias_prefix record.target
    obtain ⟨record, hrecord⟩ := Option.isSome_iff_exists.mp (AList.lookup_isSome.mpr hmem)
    cases hcur : s.registry.getLeaf b with
    | none => simp [hmem, hpre, hrecord, Harmless, dnsServerConfig]
    | some leaf => simp [hmem, hpre, hrecord, Harmless]
  · have hlook : (desiredRecords records).lookup b = none := AList.lookup_eq_none.mpr hmem
    by_cases hpre : Text.startsWith dnsAliasPrefix b = true
    · simp [hmem, hpre, hlook, Harmless]
    · simp [hmem, hpre, Harmless]

/-- **Which operations keep the monitors right**: exactly the quiet ones. -/
theorem covered_step_iff (hinv : s.Inv) (h : s.Covered) (op : Op) :
    (s.step le op).Covered ↔ s.Quiet le op := by
  rw [covered_step_iff_effect hinv h]
  cases op with
  | reload read => exact (quiet_reload_iff read).symm
  | register req =>
      simp only [Op.effect, Quiet]
      refine ⟨?_, ?_⟩
      · intro hall hvalid
        by_contra hnone
        have hcur : s.registry.getLeaf req.aliasName = none := by
          rwa [← Option.isSome_iff_exists, Option.not_isSome_iff_eq_none] at hnone
        have hharm := hall req.aliasName
        rw [if_pos ⟨hvalid, rfl, hcur⟩] at hharm
        -- A registered leaf gets the default health check, which is on.
        exact absurd hharm.1 (by simp [RegisterRequest.config])
      · intro hrefused b
        split
        · rename_i hput
          obtain ⟨hvalid, rfl, hnone⟩ := hput
          obtain ⟨leaf, hleaf⟩ := hrefused hvalid
          simp [hnone] at hleaf
        · trivial
  | deregister a =>
      simp only [Op.effect, Quiet]
      refine ⟨?_, ?_⟩
      · intro hall
        have hharm := hall a
        rwa [if_pos rfl] at hharm
      · intro ha b
        split
        · rename_i hb
          rwa [hb]
        · trivial
  | dns config records => exact (quiet_dns_iff config records).symm
  | crd obj patch =>
      simp only [Op.effect, Quiet]
      refine ⟨?_, ?_⟩
      · intro hall
        simpa using hall obj.aliasName
      · intro hobj b
        split
        · rename_i hb
          rwa [hb]
        · trivial

variable (le) in
/--
**When the monitors stay right.**  From startup on, every enabled leaf has a monitor and
every monitor a registered leaf in every state of the run, exactly when every operation
of the run is quiet in the state it meets.
-/
theorem always_covered_iff (s : Monitored) (hs : s.Startup le) (ops : List Op) :
    Runs.Always (step le) Covered s ops ↔ Runs.Along (step le) (Quiet le) s ops :=
  Runs.always_iff_along (I := Inv) (fun _ op h => h.step op)
    (fun _ op hinv h => covered_step_iff hinv h op) ops s hs.inv hs.covered

/-- The small deployment, just started. -/
def wiki : Monitored := ⟨wikiRegistry, startHealthMonitor wikiRegistry⟩

theorem wiki_startup : wiki.Startup wikiLoad := ⟨McpFederation.wiki_startup, rfl⟩

/-- SIGHUP with the file unchanged, and a `DELETE` of a leaf that is not there. -/
theorem wiki_reload_covered :
    wiki.Startup wikiLoad ∧
      Runs.Always (step wikiLoad) Covered wiki [.reload (.ok wikiFile), .deregister "docs"] := by
  refine ⟨wiki_startup, (always_covered_iff wikiLoad wiki wiki_startup _).mpr ⟨?_, ?_, trivial⟩⟩
  · intro cfg hcfg
    rw [wikiFile_loads, Except.ok.injEq] at hcfg
    subst hcfg
    refine ⟨fun server hs => Or.inl ?_, fun b hb leaf hleaf => ?_⟩
    · rw [List.mem_singleton.mp hs]
      exact ⟨⟨0, _⟩, rfl, by decide⟩
    · have hmem : b ∈ wikiRegistry.aliases := Registry.mem_aliases.mpr ⟨leaf, hleaf⟩
      exact absurd hmem hb
  · intro leaf hleaf
    have heff := Registry.holds_effect wikiLoad wikiRegistry (.reload (.ok wikiFile)) "docs"
    have hremove : (Op.reload (.ok wikiFile)).effect wikiLoad wikiRegistry "docs" = .remove := by
      simp only [Op.effect, wikiFile_loads]
      rfl
    rw [hremove, Effect.Holds] at heff
    exact absurd (heff.symm.trans hleaf) (by simp)

/-- A leaf registered over REST asks for a monitor and has none. -/
theorem wiki_register_not_covered :
    wiki.Startup wikiLoad ∧
      (wiki.step wikiLoad (.register docsRequest)).registry.getLeaf "docs"
        = some ⟨1, docsRequest.config⟩ ∧
      docsRequest.config.healthCheck.enabled = true ∧
      ⟨1, docsRequest.config⟩ ∉ (wiki.step wikiLoad (.register docsRequest)).monitors ∧
      ¬ Runs.Always (step wikiLoad) Covered wiki [.register docsRequest] := by
  have hdocs : (wiki.step wikiLoad (.register docsRequest)).registry.getLeaf "docs"
      = some ⟨1, docsRequest.config⟩ := by decide
  have hnone : ⟨1, docsRequest.config⟩ ∉ (wiki.step wikiLoad (.register docsRequest)).monitors :=
    by decide
  exact ⟨wiki_startup, hdocs, rfl, hnone, fun h => hnone (h.2.complete "docs" _ hdocs rfl)⟩

end Monitored

end McpFederation
