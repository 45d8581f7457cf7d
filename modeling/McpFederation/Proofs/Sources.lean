/-
Who may remove or replace whose leaves.

Four sources share one map, and an entry does not say which of them put it there.  The
documentation has each source manage its own aliases; the code infers ownership from what
it sees.  A reload removes every alias that is not in the file and replaces every one
whose configuration differs, `DELETE` removes what it is told to, the DNS task takes every
alias with its prefix for its own, and the controller inserts over whatever has the alias
of its object.

To state isolation the model carries a ghost: the source of every address handed out.
`isolated_iff` then says, for one operation that runs alone, exactly which states it respects.
Operations that run side by side are in `SideBySide`.
-/
import McpFederation.Proofs.Effects

namespace McpFederation

/-- The call writes this alias. -/
def RegistryCall.Writes (a : String) : RegistryCall → Prop
  | .addLeaf b _ => b = a
  | .removeLeaf b => b = a
  | .getLeaf _ => False
  | .aliases => False

/-- Every entry lives at an address that has been handed out. -/
def Registry.Fresh (r : Registry) : Prop := ∀ a leaf, r.getLeaf a = some leaf → leaf.addr < r.next

theorem Registry.Fresh.exec {r : Registry} (h : r.Fresh) (c : RegistryCall) :
    (r.exec c).2.Fresh := by
  cases c with
  | getLeaf a => exact h
  | aliases => exact h
  | addLeaf a config =>
      intro b leaf hleaf
      rcases Registry.getLeaf_of_addLeaf hleaf with ⟨-, rfl⟩ | ⟨-, hold⟩
      · exact Nat.lt_succ_self r.next
      · exact Nat.lt_succ_of_lt (h b leaf hold)
  | removeLeaf a => exact fun b leaf hleaf => h b leaf (Registry.getLeaf_of_removeLeaf hleaf).1

/-- **An entry leaves the map** exactly when the call writes its alias. -/
theorem Registry.Fresh.gone_iff {r : Registry} (h : r.Fresh) (c : RegistryCall) {b : String}
    {leaf : LeafEntry} (hleaf : r.getLeaf b = some leaf) :
    (r.exec c).2.getLeaf b ≠ some leaf ↔ c.Writes b := by
  cases c with
  | getLeaf a => exact iff_of_false (not_not.mpr hleaf) id
  | aliases => exact iff_of_false (not_not.mpr hleaf) id
  | addLeaf a config =>
      show (r.addLeaf a config).getLeaf b ≠ some leaf ↔ a = b
      by_cases hab : b = a
      · subst hab
        rw [getLeaf_addLeaf_self]
        refine iff_of_true (fun hc => ?_) rfl
        -- The new entry lives where nothing lived before.
        rw [Option.some.injEq] at hc
        have hlt := h b leaf hleaf
        rw [← hc] at hlt
        exact Nat.lt_irrefl _ hlt
      · rw [getLeaf_addLeaf_ne r config hab]
        exact iff_of_false (not_not.mpr hleaf) (Ne.symm hab)
  | removeLeaf a =>
      show (r.removeLeaf a).getLeaf b ≠ some leaf ↔ a = b
      by_cases hab : b = a
      · subst hab
        simp
      · rw [getLeaf_removeLeaf_ne r hab]
        exact iff_of_false (not_not.mpr hleaf) (Ne.symm hab)

/-- The registry, and who put the entry at each address there. -/
structure Owned where
  registry : Registry
  owner : Nat → Source

namespace Owned

variable (le : LoadEnv)

/-- One operation; what it allocates is its source's. -/
def step (s : Owned) (op : Op) : Owned where
  registry := s.registry.apply le op
  owner := fun addr => if addr < s.registry.next then s.owner addr else op.source

/-- A server that has just started: everything is from the configuration file. -/
def Startup (s : Owned) : Prop := s.registry.Startup le ∧ s.owner = fun _ => .config

/-- Every entry the operation removes or replaces was put there by its own source. -/
def Isolated (s : Owned) (op : Op) : Prop :=
  ∀ b leaf, s.registry.getLeaf b = some leaf →
    (s.step le op).registry.getLeaf b ≠ some leaf → s.owner leaf.addr = op.source

/-- The entry under `b`, if there is one, belongs to `source`. -/
def OwnedBy (s : Owned) (source : Source) (b : String) : Prop :=
  ∀ leaf, s.registry.getLeaf b = some leaf → s.owner leaf.addr = source

/--
The states an operation respects the others' entries in, read off its input:

  * a reload, if every entry of another source is in the file, with the same five fields;
  * `DELETE`, if the entry it names came by the REST API;
  * a DNS poll, if every entry of another source under the prefix is advertised;
  * the controller, if it keeps the alias as it is or the entry under it is its own.
-/
def Respects (s : Owned) : Op → Prop
  | .reload read =>
      ∀ cfg, FederationConfig.fromFile le read = .ok cfg →
        ∀ b leaf, s.registry.getLeaf b = some leaf → s.owner leaf.addr ≠ .config →
          ∃ server ∈ cfg.servers, server.aliasName = b ∧ sameLeafConfig leaf.config server = true
  | .register _ => True
  | .deregister a => s.OwnedBy .rest a
  | .dns _ records =>
      ∀ b, Text.startsWith dnsAliasPrefix b = true → b ∉ desiredRecords records → s.OwnedBy .dns b
  | .crd obj _ => obj.effect ≠ .keep → s.OwnedBy .crd obj.aliasName

variable {le} {s : Owned}

/-- Isolation in terms of effects: an alias not kept belongs to the operation's source. -/
theorem isolated_iff_effect (hwf : s.registry.WF) (op : Op) :
    s.Isolated le op ↔
      ∀ b leaf, s.registry.getLeaf b = some leaf → op.effect le s.registry b ≠ .keep →
        s.owner leaf.addr = op.source := by
  refine forall_congr' fun b => forall_congr' fun leaf => forall_congr' fun hleaf => ?_
  rw [← (Registry.holds_effect le s.registry op b).gone_iff hwf leaf hleaf]
  rfl

theorem isolated_reload_iff (hwf : s.registry.WF) (read : Except String String) :
    s.Isolated le (.reload read) ↔ s.Respects le (.reload read) := by
  rw [isolated_iff_effect hwf]
  cases hcfg : FederationConfig.fromFile le read with
  | error e => simp [Op.effect, Respects, hcfg]
  | ok cfg =>
      simp only [Respects, hcfg, Except.ok.injEq, forall_eq']
      refine forall_congr' fun b => forall_congr' fun leaf => forall_congr' fun hleaf => ?_
      rw [← Op.effect_reload_eq_keep hcfg hleaf]
      exact not_imp_comm

theorem isolated_dns_iff (hwf : s.registry.WF) (config : DnsDiscoveryConfig)
    (records : List SrvRecord) :
    s.Isolated le (.dns config records) ↔ s.Respects le (.dns config records) := by
  rw [isolated_iff_effect hwf]
  simp only [Op.effect, Respects, Op.source, OwnedBy]
  refine forall_congr' fun b => ?_
  by_cases hpre : Text.startsWith dnsAliasPrefix b = true
  · cases hlook : (desiredRecords records).lookup b with
    | none =>
        have hmem : b ∉ desiredRecords records := AList.lookup_eq_none.mp hlook
        simp [hpre, hmem]
    | some record =>
        have hmem : b ∈ desiredRecords records := AList.lookup_isSome.mp (by rw [hlook]; rfl)
        simp +contextual [hpre, hmem]
  · simp [hpre]

/-- **What each operation respects**: exactly the states it is said to. -/
theorem isolated_iff (hwf : s.registry.WF) (op : Op) : s.Isolated le op ↔ s.Respects le op := by
  cases op with
  | reload read => exact isolated_reload_iff hwf read
  | register req =>
      rw [isolated_iff_effect hwf]
      simp only [Op.effect, Respects, iff_true]
      intro b leaf hleaf hkept
      simp [hleaf] at hkept
  | deregister a =>
      rw [isolated_iff_effect hwf]
      simp only [Op.effect, Respects, OwnedBy, Op.source]
      refine ⟨?_, ?_⟩
      · intro h leaf hleaf
        exact h a leaf hleaf (by simp)
      · intro h b leaf hleaf hkept
        have hb : b = a := by simpa using hkept
        subst hb
        exact h leaf hleaf
  | dns config records => exact isolated_dns_iff hwf config records
  | crd obj patch =>
      rw [isolated_iff_effect hwf]
      simp only [Op.effect, Respects, OwnedBy, Op.source]
      refine ⟨?_, ?_⟩
      · intro h hkept leaf hleaf
        exact h obj.aliasName leaf hleaf (by simpa using hkept)
      · intro h b leaf hleaf hkept
        split at hkept
        · rename_i hb
          subst hb
          exact h hkept leaf hleaf
        · exact absurd rfl hkept

/-- The small deployment, just started. -/
def wiki : Owned := ⟨wikiRegistry, fun _ => .config⟩

theorem wiki_startup : wiki.Startup wikiLoad := ⟨McpFederation.wiki_startup, rfl⟩

end Owned

end McpFederation
