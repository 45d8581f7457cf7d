/-
Which aliases an operation writes.

`Op.effect` says what becomes of an alias when an operation runs alone.  Among others, it is
the calls that count: what an operation is given decides under which aliases it may insert
and which it may remove, `Op.within_program`, and what it is answered decides whether it does.
A registration that sees its alias taken, and a poll that sees an advertised one registered,
leave it alone; a reload that drops an alias removes it once and no more.
-/
import McpFederation.Lib.Rely
import McpFederation.Proofs.Register
import McpFederation.Proofs.Sources

namespace McpFederation

/-! ### What an operation does to an alias -/

/-- The operation inserts under the alias, if nothing is there. -/
def Op.Puts (le : LoadEnv) : Op → String → Prop
  | .reload read, b =>
      ∃ cfg, FederationConfig.fromFile le read = .ok cfg ∧
        b ∈ cfg.servers.map ServerConfig.aliasName
  | .register req, b => req.Valid ∧ req.aliasName = b
  | .deregister _, _ => False
  | .dns _ records, b => b ∈ desiredRecords records
  | .crd obj _, b => obj.aliasName = b ∧ ∃ config, obj.effect = .put config

/-- The operation removes whatever is there. -/
def Op.Removes (le : LoadEnv) : Op → String → Prop
  | .reload read, b =>
      ∃ cfg, FederationConfig.fromFile le read = .ok cfg ∧
        b ∉ cfg.servers.map ServerConfig.aliasName
  | .register _, _ => False
  | .deregister a, b => a = b
  | .dns _ records, b =>
      Text.startsWith dnsAliasPrefix b = true ∧ b ∉ desiredRecords records
  | .crd obj _, b => obj.aliasName = b ∧ obj.effect = .remove

/-- An insertion is under an alias in `P`, and a removal of one in `Q`. -/
def RegistryCall.Within (P Q : String → Prop) : RegistryCall → Prop
  | .addLeaf a _ => P a
  | .removeLeaf a => Q a
  | .getLeaf _ => True
  | .aliases => True

theorem RegistryCall.Within.writes {P Q : String → Prop} {c : RegistryCall} {b : String}
    (h : c.Within P Q) (hc : c.Writes b) : P b ∨ Q b := by
  cases c with
  | addLeaf a config => exact Or.inl ((show a = b from hc) ▸ h)
  | removeLeaf a => exact Or.inr ((show a = b from hc) ▸ h)
  | getLeaf a => exact hc.elim
  | aliases => exact hc.elim

section

variable {P Q : String → Prop}

theorem within_reloadServer {server : ServerConfig} (h : P server.aliasName) :
    (reloadServer server).Makes (RegistryCall.Within P Q) := by
  refine ⟨trivial, fun current => ?_⟩
  cases current with
  | none => exact ⟨h, fun _ => trivial⟩
  | some current =>
      show Prog.Makes _ (if sameLeafConfig current.config server then _ else _)
      split
      · trivial
      · exact ⟨h, fun _ => trivial⟩

theorem within_removeAliases {gone : List String} (h : ∀ a ∈ gone, Q a) :
    (Prog.forEach removeAlias gone).Makes (RegistryCall.Within P Q) :=
  Prog.makes_forEach fun a ha => ⟨h a ha, fun _ => trivial⟩

theorem within_registerServer {req : RegisterRequest} (h : req.Valid → P req.aliasName) :
    (registerServer req).Makes (RegistryCall.Within P Q) := by
  unfold registerServer
  cases hcheck : req.check with
  | error e => trivial
  | ok _ =>
      refine ⟨trivial, fun current => ?_⟩
      cases current with
      | some leaf => trivial
      | none =>
          refine ⟨h hcheck, fun _ => ⟨trivial, fun read => ?_⟩⟩
          cases read <;> trivial

theorem within_dnsAdd {config : DnsDiscoveryConfig} {existing : List String}
    {entry : (_ : String) × SrvRecord} (h : entry.1 ∉ existing → P entry.1) :
    (dnsAdd config existing entry).Makes (RegistryCall.Within P Q) := by
  unfold dnsAdd
  split
  · trivial
  · rename_i hnew
    exact ⟨h hnew, fun _ => trivial⟩

end

theorem within_crdReconcile (le : LoadEnv) (obj : McpServer) (patch : Except String Unit) :
    (crdReconcile obj patch).Makes
      (RegistryCall.Within ((Op.crd obj patch).Puts le) ((Op.crd obj patch).Removes le)) := by
  unfold crdReconcile
  split
  · rename_i hdeleting
    split
    · rename_i hmine
      have heffect : obj.effect = .remove := by simp [McpServer.effect, hdeleting, hmine]
      exact ⟨⟨rfl, heffect⟩, fun _ => trivial⟩
    · trivial
  · rename_i hlive
    split
    · trivial
    · rename_i hmine
      cases htransport : parseTransport obj.spec.transport with
      | error e => trivial
      | ok transport =>
          have heffect : obj.effect = .put (crdServerConfig obj transport) := by
            simp [McpServer.effect, hlive, hmine, htransport]
          exact ⟨⟨rfl, _, heffect⟩, fun _ => trivial⟩

/-- **An operation writes what it is said to write**, whatever it is answered on the way. -/
theorem Op.within_program (le : LoadEnv) (op : Op) :
    (op.program le).Makes (RegistryCall.Within (op.Puts le) (op.Removes le)) := by
  cases op with
  | reload read =>
      simp only [Op.program]
      cases hcfg : FederationConfig.fromFile le read with
      | error e => trivial
      | ok cfg =>
          refine ⟨trivial, fun existing => ?_⟩
          show Prog.Makes _ (Prog.forEach reloadServer cfg.servers >>= _)
          refine Prog.makes_bind (Prog.makes_forEach fun server hs => ?_) fun _ => ?_
          · exact within_reloadServer ⟨cfg, hcfg, List.mem_map_of_mem hs⟩
          · refine Prog.makes_bind (within_removeAliases fun a ha => ?_) fun _ => trivial
            exact ⟨cfg, hcfg, of_decide_eq_true (List.mem_filter.mp ha).2⟩
  | register req =>
      exact Prog.makes_bind (within_registerServer fun h => ⟨h, rfl⟩) fun _ => trivial
  | deregister a => exact ⟨rfl, fun _ => trivial⟩
  | dns config records =>
      refine ⟨trivial, fun aliases => ?_⟩
      show Prog.Makes _ (Prog.forEach (dnsAdd config _) (desiredRecords records).entries >>= _)
      refine Prog.makes_bind (Prog.makes_forEach fun entry he => ?_) fun _ => ?_
      · exact within_dnsAdd fun _ => List.mem_map_of_mem he
      · refine Prog.makes_bind (within_removeAliases fun a ha => ?_) fun _ => trivial
        obtain ⟨hold, hgone⟩ := List.mem_filter.mp ha
        have hkeys : a ∉ (desiredRecords records).keys := of_decide_eq_true hgone
        exact ⟨(List.mem_filter.mp hold).2, hkeys⟩
  | crd obj patch => exact Prog.makes_bind (within_crdReconcile le obj patch) fun _ => trivial

/-! ### Calls that are answered in a certain way -/

/-- The aliases are listed without repetition. -/
def RegistryCall.Lists : (c : RegistryCall) → c.Reply → Prop
  | .aliases, reply => reply.Nodup
  | .getLeaf _, _ => True
  | .addLeaf _ _, _ => True
  | .removeLeaf _, _ => True

/-- The alias is seen to be registered. -/
def RegistryCall.Shows (b : String) : (c : RegistryCall) → c.Reply → Prop
  | .aliases, reply => b ∈ reply
  | .getLeaf a, reply => a = b → reply.isSome = true
  | .addLeaf _ _, _ => True
  | .removeLeaf _, _ => True

theorem RegistryCall.lists_exec (c : RegistryCall) (r : Registry) :
    c.Lists (Registry.exec c r).1 := by
  cases c with
  | aliases => exact r.nodup_aliases
  | getLeaf a => trivial
  | addLeaf a config => trivial
  | removeLeaf a => trivial

theorem RegistryCall.shows_exec {b : String} (c : RegistryCall) (r : Registry)
    (h : (r.getLeaf b).isSome = true) : c.Shows b (Registry.exec c r).1 := by
  cases c with
  | aliases => exact Registry.mem_aliases.mpr (Option.isSome_iff_exists.mp h)
  | getLeaf a =>
      intro hab
      subst hab
      exact h
  | addLeaf a config => trivial
  | removeLeaf a => trivial

theorem RegistryCall.spares_of_not_writes {b : String} {c : RegistryCall} (h : ¬ c.Writes b) :
    c.Spares b := by
  cases c with
  | aliases => trivial
  | getLeaf a => trivial
  | addLeaf a config => exact h
  | removeLeaf a => exact h

/-- A call within aliases other than `b` does not write `b`. -/
theorem RegistryCall.Within.spares {P Q : String → Prop} {b : String} (hp : ¬ P b) (hq : ¬ Q b)
    (c : RegistryCall) (h : c.Within P Q) : ¬ c.Writes b :=
  fun hc => (h.writes hc).elim hp hq

/-- The removals of a reload, or of a poll, come to each alias once. -/
theorem uses_removeAliases (b : String) {gone : List String} (h : gone.Nodup) :
    (Prog.forEach removeAlias gone).Uses RegistryCall.Lists (RegistryCall.Writes b) 1 := by
  induction gone with
  | nil => exact .ret []
  | cons a rest ih =>
      obtain ⟨hnot, hrest⟩ := List.nodup_cons.mp h
      by_cases hab : a = b
      · subst hab
        have hothers : (Prog.forEach removeAlias rest).Makes fun c => ¬ c.Writes a :=
          Prog.Makes.imp (RegistryCall.Within.spares (P := fun _ => False) (Q := (· ∈ rest)) id
            hnot) (within_removeAliases fun _ => id)
        refine .spend fun _ _ => Prog.uses_of_makes ?_
        show Prog.Makes _ (Prog.forEach removeAlias rest >>= _)
        exact Prog.makes_bind hothers fun _ => trivial
      · refine .free hab fun _ _ => ?_
        show Prog.Uses _ _ 1 (Prog.forEach removeAlias rest >>= _)
        exact Prog.Uses.bind (n := 1) (m := 0) (ih hrest) fun _ => .ret _

/-- A reload that drops an alias writes it once. -/
theorem uses_of_dropped {le : LoadEnv} {op : Op} {b : String} (hsource : op.source = .config)
    (h : op.Removes le b) :
    (op.program le).Uses RegistryCall.Lists (RegistryCall.Writes b) 1 := by
  cases op with
  | reload read =>
      obtain ⟨cfg, hcfg, hb⟩ := h
      simp only [Op.program, hcfg]
      refine .free id fun existing hexisting => ?_
      show Prog.Uses _ _ _ (Prog.forEach reloadServer cfg.servers >>= _)
      refine Prog.Uses.bind (n := 0) (m := 1) (Prog.uses_of_makes ?_) fun _ => ?_
      · refine Prog.Makes.imp (RegistryCall.Within.spares
          (P := (· ∈ cfg.servers.map ServerConfig.aliasName)) (Q := fun _ => False) hb id) ?_
        exact Prog.makes_forEach fun server hs => within_reloadServer (List.mem_map_of_mem hs)
      · have hgone : (existing.filter (· ∉ cfg.servers.map ServerConfig.aliasName)).Nodup :=
          List.Nodup.filter _ hexisting
        exact Prog.Uses.bind (m := 0) (uses_removeAliases b hgone) fun _ => .ret _
  | register req => cases hsource
  | deregister a => cases hsource
  | dns config records => cases hsource
  | crd obj patch => cases hsource

/-- An operation that does not write an alias at all. -/
theorem uses_of_unwritten {le : LoadEnv} {op : Op} {b : String}
    {A : (c : RegistryCall) → c.Reply → Prop} (hputs : ¬ op.Puts le b)
    (hremoves : ¬ op.Removes le b) : (op.program le).Uses A (RegistryCall.Writes b) 0 :=
  Prog.uses_of_makes
    (Prog.Makes.imp (RegistryCall.Within.spares hputs hremoves) (op.within_program le))

/-- A registration that sees its alias taken inserts nothing. -/
theorem uses_register {b : String} {req : RegisterRequest} (hvalid : req.Valid)
    (hb : req.aliasName = b) :
    (registerServer req).Uses (RegistryCall.Shows b) (RegistryCall.Writes b) 0 := by
  rw [registerServer_eq hvalid]
  refine .free id fun current hcurrent => ?_
  cases current with
  | some leaf => exact .ret _
  | none => cases hcurrent hb

/-- A poll that sees an alias registered which is still advertised leaves it alone. -/
theorem uses_dns (config : DnsDiscoveryConfig) {records : List SrvRecord} {b : String}
    (hb : b ∈ desiredRecords records) :
    (dnsReconcile config records).Uses (RegistryCall.Shows b) (RegistryCall.Writes b) 0 := by
  refine .free id fun aliases haliases => Prog.uses_of_makes ?_
  obtain ⟨record, -, hrecord⟩ := desiredRecords_keys.mp hb
  have hexisting : b ∈ aliases.filter (Text.startsWith dnsAliasPrefix) :=
    List.mem_filter.mpr ⟨haliases, hrecord ▸ sanitizeAlias_prefix record.target⟩
  show Prog.Makes _ (Prog.forEach (dnsAdd config _) (desiredRecords records).entries >>= _)
  refine Prog.makes_bind (Prog.makes_forEach fun entry _ => ?_) fun _ => ?_
  · refine Prog.Makes.imp (RegistryCall.Within.spares (P := (· ≠ b)) (Q := fun _ => False)
      (not_not.mpr rfl) id) (within_dnsAdd fun hnew heq => ?_)
    exact hnew (heq ▸ hexisting)
  · refine Prog.makes_bind ?_ fun _ => trivial
    refine Prog.Makes.imp (RegistryCall.Within.spares (P := fun _ => False) (Q := (· ≠ b)) id
      (not_not.mpr rfl)) (within_removeAliases fun a ha heq => ?_)
    have hgone : a ∉ (desiredRecords records).keys :=
      of_decide_eq_true (List.mem_filter.mp ha).2
    exact hgone (heq ▸ hb)

/-- An operation that respects a state does not write an alias that it sees to belong to
another source. -/
theorem uses_of_respects {le : LoadEnv} {s : Owned} {op : Op} {b : String} {leaf : LeafEntry}
    (hleaf : s.registry.getLeaf b = some leaf) (howner : s.owner leaf.addr = .config)
    (hsource : op.source ≠ .config) (h : s.Respects le op) :
    (op.program le).Uses (RegistryCall.Shows b) (RegistryCall.Writes b) 0 := by
  have hforeign : ∀ source, source ≠ .config → ¬ s.OwnedBy source b := by
    intro source hne howned
    exact hne ((howned leaf hleaf).symm.trans howner)
  cases op with
  | reload read => exact absurd rfl hsource
  | register req =>
      by_cases hb : req.Valid ∧ req.aliasName = b
      · exact Prog.Uses.bind (n := 0) (m := 0) (uses_register hb.1 hb.2) fun _ => .ret _
      · exact uses_of_unwritten hb id
  | deregister a =>
      refine uses_of_unwritten id fun heq => ?_
      obtain rfl : a = b := heq
      exact hforeign .rest (by decide) h
  | dns config records =>
      by_cases hb : b ∈ desiredRecords records
      · exact uses_dns config hb
      · exact uses_of_unwritten hb fun hgone => hforeign .dns (by decide) (h b hgone.1 hb)
  | crd obj patch =>
      have hkept : obj.aliasName = b → obj.effect = .keep := by
        intro heq
        subst heq
        by_contra hnot
        exact hforeign .crd (by decide) (h hnot)
      refine uses_of_unwritten (fun hputs => ?_) fun hremoves => ?_
      · obtain ⟨hb, config, hput⟩ := hputs
        cases hput.symm.trans (hkept hb)
      · cases hremoves.2.symm.trans (hkept hremoves.1)

end McpFederation
