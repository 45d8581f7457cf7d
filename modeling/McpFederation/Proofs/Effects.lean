/-
What each operation does to each alias.

Every source of leaves is a program of several registry calls, and every statement about
sources, monitors or namespaces asks the same thing of it: what became of this alias?
`Op.effect` answers that from the state before the operation, without running it, and
`Registry.holds_effect` proves the answer right for all of them.  The three loops (the file's
servers, the records, the aliases to remove) go by one lemma: an iteration that touches
one alias, run over a list without repeated aliases.
-/
import McpFederation.Model.System

namespace McpFederation

/-- What becomes of the entry under one alias. -/
inductive Effect where
  | keep
  | remove
  /-- A new entry with this configuration, whatever was there before. -/
  | put (config : ServerConfig)

/-- The registry `r'` came from `r`, and `b` met this effect on the way. -/
def Effect.Holds (e : Effect) (r r' : Registry) (b : String) : Prop :=
  match e with
  | .keep => r'.getLeaf b = r.getLeaf b
  | .remove => r'.getLeaf b = none
  | .put config => ∃ leaf, r'.getLeaf b = some leaf ∧ leaf.config = config ∧ r.next ≤ leaf.addr

namespace Effect

variable {e : Effect} {r r' r'' : Registry} {b : String}

/-- An effect survives what does not touch its alias afterwards. -/
theorem Holds.after (h : e.Holds r r' b) (hsame : r''.getLeaf b = r'.getLeaf b) :
    e.Holds r r'' b := by
  cases e <;> simpa only [Holds, hsame] using h

theorem Holds.before (h : e.Holds r' r'' b) (hsame : r'.getLeaf b = r.getLeaf b)
    (hnext : r.next ≤ r'.next) : e.Holds r r'' b := by
  cases e with
  | keep => exact h.trans hsame
  | remove => exact h
  | put config =>
      obtain ⟨leaf, hleaf, hconfig, haddr⟩ := h
      exact ⟨leaf, hleaf, hconfig, hnext.trans haddr⟩

theorem put_addLeaf (r : Registry) (b : String) (config : ServerConfig) :
    (put config).Holds r (r.addLeaf b config) b :=
  ⟨r.alloc config, r.getLeaf_addLeaf_self b config, rfl, le_refl _⟩

/-- **An entry leaves the map** exactly when it was there and its alias was not kept. -/
theorem Holds.gone_iff (hwf : r.WF) (h : e.Holds r r' b) (leaf : LeafEntry)
    (hleaf : r.getLeaf b = some leaf) : r'.getLeaf b ≠ some leaf ↔ e ≠ .keep := by
  cases e with
  | keep =>
      rw [Holds] at h
      simp [h, hleaf]
  | remove =>
      rw [Holds] at h
      simp [h]
  | put config =>
      obtain ⟨new, hnew, -, haddr⟩ := h
      simp only [hnew, ne_eq, Option.some.injEq, reduceCtorEq, not_false_eq_true, iff_true]
      -- The new entry lives where nothing lived before.
      intro heq
      subst heq
      exact absurd (hwf.fresh b new hleaf) (Nat.not_lt.mpr haddr)

end Effect

/-! ### Loops over aliases -/

/-- An iteration that touches only the alias `key x`, and does `eff x` to what it finds. -/
structure Touches {γ : Type} (g : Registry → γ → Registry) (key : γ → String)
    (eff : γ → Option LeafEntry → Effect) : Prop where
  next_le : ∀ r x, r.next ≤ (g r x).next
  other : ∀ r x b, b ≠ key x → (g r x).getLeaf b = r.getLeaf b
  own : ∀ r x, (eff x (r.getLeaf (key x))).Holds r (g r x) (key x)

namespace Touches

variable {γ : Type} {g : Registry → γ → Registry} {key : γ → String}
  {eff : γ → Option LeafEntry → Effect}

theorem getLeaf_foldl_of_notMem (h : Touches g key eff) {b : String} {xs : List γ} :
    b ∉ xs.map key → ∀ r : Registry, (xs.foldl g r).getLeaf b = r.getLeaf b := by
  induction xs with
  | nil => intro _ r; rfl
  | cons x xs ih =>
      intro hb r
      rw [List.map_cons, List.mem_cons, not_or] at hb
      rw [List.foldl_cons, ih hb.2, h.other r x b hb.1]

/-- In a loop without repeated aliases, each meets the effect it would meet alone. -/
theorem holds_foldl (h : Touches g key eff) {x : γ} {xs : List γ} :
    (xs.map key).Nodup → x ∈ xs → ∀ r : Registry,
      (eff x (r.getLeaf (key x))).Holds r (xs.foldl g r) (key x) := by
  induction xs with
  | nil => intro _ hx; simp at hx
  | cons y xs ih =>
      intro hnodup hx r
      rw [List.map_cons, List.nodup_cons] at hnodup
      rcases List.mem_cons.mp hx with rfl | hx
      · exact (h.own r x).after (h.getLeaf_foldl_of_notMem hnodup.1 _)
      · have hne : key x ≠ key y := fun hc =>
          hnodup.1 (hc ▸ List.mem_map_of_mem hx)
        have hsame := h.other r y (key x) hne
        have hrest := ih hnodup.2 hx (g r y)
        rw [hsame] at hrest
        exact hrest.before hsame (h.next_le r y)

end Touches

/-- One server of a configuration file against what is registered under its alias. -/
def reloadEffect (server : ServerConfig) : Option LeafEntry → Effect
  | some current => if sameLeafConfig current.config server then .keep else .put server
  | none => .put server

theorem touches_reloadServer :
    Touches (fun r server => ((reloadServer server).run Registry.exec r).2)
      ServerConfig.aliasName reloadEffect := by
  have hrun : ∀ (r : Registry) (server : ServerConfig),
      ((reloadServer server).run Registry.exec r).2 = r ∧
          reloadEffect server (r.getLeaf server.aliasName) = .keep ∨
        ((reloadServer server).run Registry.exec r).2 = r.addLeaf server.aliasName server ∧
          reloadEffect server (r.getLeaf server.aliasName) = .put server := by
    intro r server
    simp only [reloadServer, RegistryM.getLeaf, RegistryM.addLeaf, Prog.perform_bind,
      Prog.run_call, Registry.exec]
    cases hcur : r.getLeaf server.aliasName with
    | none => exact Or.inr ⟨rfl, rfl⟩
    | some current =>
        by_cases hsame : sameLeafConfig current.config server = true
        · exact Or.inl (by simp [hsame, reloadEffect])
        · exact Or.inr (by simp [hsame, reloadEffect, Registry.exec])
  refine ⟨fun r server => ?_, fun r server b hb => ?_, fun r server => ?_⟩
  · rcases hrun r server with ⟨h, -⟩ | ⟨h, -⟩ <;> simp [h]
  · rcases hrun r server with ⟨h, -⟩ | ⟨h, -⟩
    · rw [h]
    · rw [h, Registry.getLeaf_addLeaf_ne r server hb]
  · rcases hrun r server with ⟨h, heff⟩ | ⟨h, heff⟩ <;> rw [h, heff]
    · exact rfl
    · exact Effect.put_addLeaf r _ server

theorem touches_removeAlias :
    Touches (fun r a => ((removeAlias a).run Registry.exec r).2) id (fun _ _ => .remove) :=
  ⟨fun _ _ => le_refl _, fun r _ _ hb => r.getLeaf_removeLeaf_ne hb,
    fun r a => r.getLeaf_removeLeaf_self a⟩

theorem touches_dnsAdd (config : DnsDiscoveryConfig) (existing : List String) :
    Touches (fun r entry => ((dnsAdd config existing entry).run Registry.exec r).2) Sigma.fst
      (fun entry _ => if entry.1 ∈ existing then .keep
        else .put (dnsServerConfig config entry.1 entry.2)) := by
  refine ⟨fun r entry => ?_, fun r entry b hb => ?_, fun r entry => ?_⟩ <;>
    by_cases hmem : entry.1 ∈ existing <;>
    simp only [dnsAdd, hmem, if_true, if_false, RegistryM.addLeaf, Prog.perform_bind,
      Prog.run_call, Registry.exec, Prog.pure_eq, Prog.run_ret, le_refl, Registry.next_addLeaf,
      Nat.le_succ]
  · exact Registry.getLeaf_addLeaf_ne r _ hb
  · exact rfl
  · exact Effect.put_addLeaf r _ _

/-! ### The effect of an operation -/

/-- The server of a configuration with the given alias. -/
def FederationConfig.server? (cfg : FederationConfig) (b : String) : Option ServerConfig :=
  cfg.servers.find? (·.aliasName = b)

theorem FederationConfig.server?_eq_none {cfg : FederationConfig} {b : String} :
    cfg.server? b = none ↔ b ∉ cfg.servers.map ServerConfig.aliasName := by
  simp [server?]

/-- In a configuration that loaded, an alias has one server. -/
theorem FederationConfig.server?_eq_some {le : LoadEnv} {read : Except String String}
    {cfg : FederationConfig} (hcfg : FederationConfig.fromFile le read = .ok cfg) {b : String}
    {server : ServerConfig} :
    cfg.server? b = some server ↔ server ∈ cfg.servers ∧ server.aliasName = b := by
  obtain ⟨-, -, hnodup⟩ := validate_ok (fromFile_ok hcfg)
  refine ⟨?_, ?_⟩
  · intro h
    exact ⟨List.mem_of_find?_eq_some h, by simpa using List.find?_some h⟩
  · intro h
    obtain ⟨hmem, hb⟩ := h
    cases hfind : cfg.server? b with
    | none => exact absurd (hb ▸ List.mem_map_of_mem hmem) (server?_eq_none.mp hfind)
    | some found =>
        have hfound : found.aliasName = b := by simpa using List.find?_some hfind
        rw [List.inj_on_of_nodup_map hnodup (List.mem_of_find?_eq_some hfind) hmem
          (hfound.trans hb.symm)]

/-- What the controller does to the alias of one object. -/
def McpServer.effect (obj : McpServer) : Effect :=
  if obj.deletionTimestamp then
    if finalizer ∈ obj.finalizers then .remove else .keep
  else if finalizer ∉ obj.finalizers then .keep
  else
    match parseTransport obj.spec.transport with
    | .error _ => .keep
    | .ok transport => .put (crdServerConfig obj transport)

/-- The effect of an operation on the alias `b`, read off the state it starts in. -/
def Op.effect (le : LoadEnv) (r : Registry) (op : Op) (b : String) : Effect :=
  match op with
  | .reload read =>
      match FederationConfig.fromFile le read with
      | .error _ => .keep
      | .ok cfg =>
          match cfg.server? b with
          | some server => reloadEffect server (r.getLeaf b)
          | none => .remove
  | .register req =>
      if req.Valid ∧ b = req.aliasName ∧ r.getLeaf b = none then .put req.config else .keep
  | .deregister a => if b = a then .remove else .keep
  | .dns config records =>
      if Text.startsWith dnsAliasPrefix b then
        match (desiredRecords records).lookup b with
        | none => .remove
        | some record =>
            if (r.getLeaf b).isSome then .keep else .put (dnsServerConfig config b record)
      else .keep
  | .crd obj _ => if b = obj.aliasName then obj.effect else .keep

/-- A reload keeps a registered entry exactly when the file has its alias with the same
five fields. -/
theorem Op.effect_reload_eq_keep {le : LoadEnv} {r : Registry} {read : Except String String}
    {cfg : FederationConfig} (hcfg : FederationConfig.fromFile le read = .ok cfg) {b : String}
    {leaf : LeafEntry} (hleaf : r.getLeaf b = some leaf) :
    (Op.reload read).effect le r b = .keep ↔
      ∃ server ∈ cfg.servers, server.aliasName = b ∧
        sameLeafConfig leaf.config server = true := by
  simp only [Op.effect, hcfg]
  cases hfind : cfg.server? b with
  | none =>
      simp only [reduceCtorEq, false_iff, not_exists, not_and]
      intro server hs hb
      exact absurd (hb ▸ List.mem_map_of_mem hs) (FederationConfig.server?_eq_none.mp hfind)
  | some found =>
      obtain ⟨hmem, hb⟩ := (FederationConfig.server?_eq_some hcfg).mp hfind
      simp only [hleaf, reloadEffect, ite_eq_left_iff, reduceCtorEq, imp_false, not_not]
      refine ⟨?_, ?_⟩
      · exact fun hsame => ⟨found, hmem, hb, hsame⟩
      · intro h
        obtain ⟨server, hs, hsb, hsame⟩ := h
        have hserver := (FederationConfig.server?_eq_some hcfg).mpr ⟨hs, hsb⟩
        rw [hfind, Option.some.injEq] at hserver
        rw [hserver]
        exact hsame

/-- A loop over `xs`, and then the removal of the aliases `gone`. -/
def updateThenRemove {γ : Type} (g : Registry → γ → Registry) (xs : List γ) (gone : List String)
    (r : Registry) : Registry :=
  gone.foldl (fun r a => ((removeAlias a).run Registry.exec r).2) (xs.foldl g r)

namespace Touches

variable {γ : Type} {g : Registry → γ → Registry} {key : γ → String}
  {eff : γ → Option LeafEntry → Effect} {xs : List γ} {gone : List String}

theorem holds_updated (h : Touches g key eff) (gone : List String)
    (hnodup : (xs.map key).Nodup) (hgone : ∀ a ∈ gone, a ∉ xs.map key) {x : γ} (hx : x ∈ xs)
    (r : Registry) :
    (eff x (r.getLeaf (key x))).Holds r (updateThenRemove g xs gone r) (key x) := by
  refine (h.holds_foldl hnodup hx r).after (touches_removeAlias.getLeaf_foldl_of_notMem ?_ _)
  rw [List.map_id]
  exact fun hc => hgone _ hc (List.mem_map_of_mem hx)

/-- An alias the loop does not name is removed if it is listed, and kept if it is not. -/
theorem getLeaf_updateThenRemove (h : Touches g key eff) (hnodup : gone.Nodup) {b : String}
    (hb : b ∉ xs.map key) (r : Registry) :
    (updateThenRemove g xs gone r).getLeaf b = if b ∈ gone then none else r.getLeaf b := by
  split
  · rename_i hmem
    exact touches_removeAlias.holds_foldl (by rwa [List.map_id]) hmem _
  · rename_i hmem
    rw [updateThenRemove, touches_removeAlias.getLeaf_foldl_of_notMem (by rwa [List.map_id]),
      h.getLeaf_foldl_of_notMem hb]

end Touches

namespace Registry

variable (le : LoadEnv) (r : Registry)

theorem nodup_aliases : r.aliases.Nodup := AList.keys_nodup _

/-- A reload of a file that loads. -/
theorem apply_reload {read : Except String String} {cfg : FederationConfig}
    (hcfg : FederationConfig.fromFile le read = .ok cfg) :
    r.apply le (.reload read)
      = updateThenRemove (fun s server => ((reloadServer server).run exec s).2) cfg.servers
          (r.aliases.filter (· ∉ cfg.servers.map ServerConfig.aliasName)) r := by
  simp only [apply, Op.program, hcfg, reloadConfig, RegistryM.aliases, Prog.perform_bind,
    Prog.run_call, Prog.run_bind, Prog.run_forEach_snd, Prog.pure_eq, Prog.run_ret, exec,
    updateThenRemove]

/-- The aliases the DNS task takes for its own. -/
def dnsAliases (r : Registry) : List String := r.aliases.filter (Text.startsWith dnsAliasPrefix)

theorem mem_dnsAliases {r : Registry} {a : String} :
    a ∈ r.dnsAliases ↔
      (r.getLeaf a).isSome = true ∧ Text.startsWith dnsAliasPrefix a = true := by
  rw [dnsAliases, List.mem_filter, mem_aliases, Option.isSome_iff_exists]

theorem apply_dns (config : DnsDiscoveryConfig) (records : List SrvRecord) :
    r.apply le (.dns config records)
      = updateThenRemove (fun s entry => ((dnsAdd config r.dnsAliases entry).run exec s).2)
          (desiredRecords records).entries
          (r.dnsAliases.filter (· ∉ (desiredRecords records).keys)) r := by
  simp only [apply, Op.program, dnsReconcile, RegistryM.aliases, Prog.perform_bind,
    Prog.run_call, Prog.run_bind, Prog.run_forEach_snd, Prog.pure_eq, Prog.run_ret, exec,
    updateThenRemove, dnsAliases]

theorem holds_reload {read : Except String String} (b : String) :
    ((Op.reload read).effect le r b).Holds r (r.apply le (.reload read)) b := by
  simp only [Op.effect]
  cases hcfg : FederationConfig.fromFile le read with
  | error e =>
      show (r.apply le (.reload read)).getLeaf b = r.getLeaf b
      simp [apply, Op.program, hcfg, reloadConfig]
  | ok cfg =>
      obtain ⟨-, -, hnodup⟩ := FederationConfig.validate_ok (FederationConfig.fromFile_ok hcfg)
      rw [apply_reload le r hcfg]
      cases hfind : cfg.server? b with
      | some server =>
          obtain ⟨hmem, hb⟩ := (FederationConfig.server?_eq_some hcfg).mp hfind
          simp only [hfind]
          subst hb
          refine touches_reloadServer.holds_updated _ hnodup ?_ hmem r
          intro a ha
          simpa using (List.mem_filter.mp ha).2
      | none =>
          have hb := FederationConfig.server?_eq_none.mp hfind
          simp only [hfind, Effect.Holds]
          rw [touches_reloadServer.getLeaf_updateThenRemove (r.nodup_aliases.filter _) hb]
          split
          · rfl
          · -- It is not on the list of removals because it was not registered at all.
            rename_i hkept
            by_contra hc
            obtain ⟨leaf, hleaf⟩ := Option.ne_none_iff_exists'.mp hc
            exact hkept (List.mem_filter.mpr ⟨mem_aliases.mpr ⟨leaf, hleaf⟩, by simpa using hb⟩)

theorem holds_dns (config : DnsDiscoveryConfig) (records : List SrvRecord) (b : String) :
    ((Op.dns config records).effect le r b).Holds r (r.apply le (.dns config records)) b := by
  have hnodup : ((desiredRecords records).entries.map Sigma.fst).Nodup := AList.keys_nodup _
  have hgone : (r.dnsAliases.filter (· ∉ (desiredRecords records).keys)).Nodup :=
    (r.nodup_aliases.filter _).filter _
  have htouch := touches_dnsAdd config r.dnsAliases
  simp only [Op.effect]
  rw [apply_dns]
  cases hlook : (desiredRecords records).lookup b with
  | some record =>
      have hmem : ⟨b, record⟩ ∈ (desiredRecords records).entries :=
        AList.mem_lookup_iff.mp hlook
      have hpre : Text.startsWith dnsAliasPrefix b = true := by
        obtain ⟨rec, -, hrec⟩ := desiredRecords_keys.mp
          (AList.lookup_isSome.mp (by rw [hlook]; rfl))
        rw [← hrec]
        exact sanitizeAlias_prefix rec.target
      have h := htouch.holds_updated
        (r.dnsAliases.filter (· ∉ (desiredRecords records).keys)) hnodup
        (fun a ha => of_decide_eq_true (List.mem_filter.mp ha).2) hmem r
      simp only [mem_dnsAliases, hpre, and_true] at h
      simpa only [hpre, if_true] using h
  | none =>
      have hb : b ∉ (desiredRecords records).entries.map Sigma.fst :=
        AList.lookup_eq_none.mp hlook
      have hget := htouch.getLeaf_updateThenRemove hgone hb r
      by_cases hpre : Text.startsWith dnsAliasPrefix b = true
      · simp only [hpre, if_true, Effect.Holds]
        rw [hget]
        split
        · rfl
        · rename_i hkept
          by_contra hc
          refine hkept (List.mem_filter.mpr ⟨mem_dnsAliases.mpr ⟨?_, hpre⟩, decide_eq_true hb⟩)
          exact Option.isSome_iff_ne_none.mpr hc
      · rw [if_neg hpre, Effect.Holds, hget, if_neg]
        exact fun hc => hpre (mem_dnsAliases.mp (List.mem_filter.mp hc).1).2

theorem apply_register (req : RegisterRequest) :
    r.apply le (.register req)
      = if req.Valid ∧ r.getLeaf req.aliasName = none then r.addLeaf req.aliasName req.config
        else r := by
  cases hcheck : req.check with
  | error e => simp [apply, Op.program, registerServer, RegisterRequest.Valid, hcheck]
  | ok _ =>
      have hinsert : ((insertRegistered req).run exec r).2
          = r.addLeaf req.aliasName req.config := by
        simp [insertRegistered, RegistryM.addLeaf, RegistryM.getLeaf, exec]
      cases hold : r.getLeaf req.aliasName with
      | some leaf =>
          simp [apply, Op.program, registerServer, hcheck, RegistryM.getLeaf, exec, hold]
      | none =>
          simp [apply, Op.program, registerServer, RegisterRequest.Valid, hcheck,
            RegistryM.getLeaf, exec, hold, hinsert]

theorem holds_register (req : RegisterRequest) (b : String) :
    ((Op.register req).effect le r b).Holds r (r.apply le (.register req)) b := by
  rw [apply_register]
  simp only [Op.effect]
  by_cases hb : b = req.aliasName
  · subst hb
    simp only [true_and]
    split
    · exact Effect.put_addLeaf r _ _
    · exact rfl
  · simp only [hb, false_and, and_false, if_false, Effect.Holds]
    split
    · exact r.getLeaf_addLeaf_ne _ hb
    · rfl

theorem holds_crd (obj : McpServer) (patch : Except String Unit) (b : String) :
    ((Op.crd obj patch).effect le r b).Holds r (r.apply le (.crd obj patch)) b := by
  simp only [Op.effect, apply, Op.program, crdReconcile, McpServer.effect]
  split <;> rename_i hb
  · subst hb
    split
    · split
      · exact r.getLeaf_removeLeaf_self _
      · exact rfl
    · split
      · exact rfl
      · cases parseTransport obj.spec.transport with
        | error e => exact rfl
        | ok transport => exact Effect.put_addLeaf r _ _
  · show Registry.getLeaf _ b = r.getLeaf b
    split
    · split
      · exact r.getLeaf_removeLeaf_ne hb
      · rfl
    · split
      · rfl
      · cases parseTransport obj.spec.transport with
        | error e => rfl
        | ok transport => exact r.getLeaf_addLeaf_ne _ hb

/-- **Every operation has the effect it is said to have**, on every alias. -/
theorem holds_effect (op : Op) (b : String) : (op.effect le r b).Holds r (r.apply le op) b := by
  cases op with
  | reload read => exact holds_reload le r b
  | register req => exact holds_register le r req b
  | deregister a =>
      simp only [Op.effect]
      split
      · rename_i hb
        subst hb
        exact r.getLeaf_removeLeaf_self _
      · rename_i hb
        exact r.getLeaf_removeLeaf_ne hb
  | dns config records => exact holds_dns le r config records b
  | crd obj patch => exact holds_crd le r obj patch b

end Registry

/-! ### The aliases an operation inserts -/

/-- The aliases under which an operation may insert an entry. -/
def Op.Brings (le : LoadEnv) : Op → String → Prop
  | .reload read, a =>
      ∃ cfg, FederationConfig.fromFile le read = .ok cfg ∧
        a ∈ cfg.servers.map ServerConfig.aliasName
  | .register req, a => req.Valid ∧ a = req.aliasName
  | .deregister _, _ => False
  | .dns _ records, a => a ∈ desiredRecords records
  | .crd obj _, a => a = obj.aliasName

/-- An insertion stores an entry under the alias of its configuration, and that alias is
one of `P`. -/
def RegistryCall.InsertsOnly (P : String → Prop) : RegistryCall → Prop
  | .addLeaf a config => config.aliasName = a ∧ P a
  | _ => True

theorem makes_removeAlias (P : String → Prop) (a : String) :
    (removeAlias a).Makes (RegistryCall.InsertsOnly P) := ⟨trivial, fun _ => trivial⟩

theorem makes_reloadServer {P : String → Prop} {server : ServerConfig} (h : P server.aliasName) :
    (reloadServer server).Makes (RegistryCall.InsertsOnly P) := by
  refine ⟨trivial, fun current => ?_⟩
  cases current with
  | none => exact ⟨⟨rfl, h⟩, fun _ => trivial⟩
  | some current =>
      show Prog.Makes _ (if sameLeafConfig current.config server then _ else _)
      split
      · trivial
      · exact ⟨⟨rfl, h⟩, fun _ => trivial⟩

theorem makes_registerServer {P : String → Prop} {req : RegisterRequest}
    (h : req.Valid → P req.aliasName) :
    (registerServer req).Makes (RegistryCall.InsertsOnly P) := by
  unfold registerServer
  cases hcheck : req.check with
  | error e => trivial
  | ok _ =>
      refine ⟨trivial, fun current => ?_⟩
      cases current with
      | some leaf => trivial
      | none =>
          refine ⟨⟨rfl, h hcheck⟩, fun _ => ⟨trivial, fun read => ?_⟩⟩
          cases read <;> trivial

theorem makes_crdReconcile (obj : McpServer) (patch : Except String Unit) :
    (crdReconcile obj patch).Makes (RegistryCall.InsertsOnly (· = obj.aliasName)) := by
  unfold crdReconcile
  split
  · split
    · exact ⟨trivial, fun _ => trivial⟩
    · trivial
  · split
    · trivial
    · cases parseTransport obj.spec.transport with
      | error e => trivial
      | ok transport => exact ⟨⟨rfl, rfl⟩, fun _ => trivial⟩

/-- **An operation inserts only under the aliases it brings**, whatever the registry
answers it on the way. -/
theorem Op.makes_program (le : LoadEnv) (op : Op) :
    (op.program le).Makes (RegistryCall.InsertsOnly (op.Brings le)) := by
  cases op with
  | reload read =>
      simp only [Op.program]
      cases hcfg : FederationConfig.fromFile le read with
      | error e => trivial
      | ok cfg =>
          refine ⟨trivial, fun existing => ?_⟩
          show Prog.Makes _ (Prog.forEach reloadServer cfg.servers >>= _)
          refine Prog.makes_bind (Prog.makes_forEach fun server hs => ?_) fun _ => ?_
          · exact makes_reloadServer ⟨cfg, hcfg, List.mem_map_of_mem hs⟩
          · exact Prog.makes_bind (Prog.makes_forEach fun a _ => makes_removeAlias _ a)
              fun _ => trivial
  | register req =>
      exact Prog.makes_bind (makes_registerServer fun h => ⟨h, rfl⟩) fun _ => trivial
  | deregister a => exact ⟨trivial, fun _ => trivial⟩
  | dns config records =>
      refine ⟨trivial, fun aliases => ?_⟩
      show Prog.Makes _ (Prog.forEach (dnsAdd config _) (desiredRecords records).entries >>= _)
      refine Prog.makes_bind (Prog.makes_forEach fun entry he => ?_) fun _ => ?_
      · unfold dnsAdd
        split
        · trivial
        · exact ⟨⟨rfl, List.mem_map_of_mem he⟩, fun _ => trivial⟩
      · exact Prog.makes_bind (Prog.makes_forEach fun a _ => makes_removeAlias _ a)
          fun _ => trivial
  | crd obj patch => exact Prog.makes_bind (makes_crdReconcile obj patch) fun _ => trivial

namespace Registry

/-- The invariant is kept by every call that inserts under the alias of its configuration. -/
theorem WF.exec {P : String → Prop} {r : Registry} (h : r.WF) (c : RegistryCall)
    (hc : c.InsertsOnly P) : (Registry.exec c r).2.WF := by
  cases c with
  | getLeaf a => exact h
  | aliases => exact h
  | addLeaf a config => exact h.addLeaf hc.1
  | removeLeaf a => exact h.removeLeaf a

/-- Every alias stays one of `P`. -/
theorem aliases_exec {P : String → Prop} {r : Registry} (h : ∀ a ∈ r.aliases, P a)
    (c : RegistryCall) (hc : c.InsertsOnly P) : ∀ a ∈ (Registry.exec c r).2.aliases, P a := by
  cases c with
  | getLeaf a => exact h
  | aliases => exact h
  | addLeaf a config =>
      intro b hb
      obtain ⟨leaf, hleaf⟩ := mem_aliases.mp hb
      rcases getLeaf_of_addLeaf hleaf with ⟨rfl, -⟩ | ⟨-, hold⟩
      · exact hc.2
      · exact h b (mem_aliases.mpr ⟨leaf, hold⟩)
  | removeLeaf a =>
      intro b hb
      obtain ⟨leaf, hleaf⟩ := mem_aliases.mp hb
      exact h b (mem_aliases.mpr ⟨leaf, (getLeaf_of_removeLeaf hleaf).1⟩)

theorem WF.apply {r : Registry} (h : r.WF) (le : LoadEnv) (op : Op) : (r.apply le op).WF := by
  exact Prog.run_inv Registry.exec (fun c s hc hs => hs.exec c hc) _ (op.makes_program le) r h

end Registry

end McpFederation
