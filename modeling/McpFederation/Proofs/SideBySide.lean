/-
Sources that work side by side.

Operations are taken here as the code runs them: any number at once, interleaved at their
registry calls.  What a source does to another's leaf then depends on the order of the calls,
and an operation that respects every state when it runs alone may not do so among others: a
registration replaces what came under its alias between its check and its insertion.

`along_isolated_iff` says, from what the operations are given and from what is registered at
startup, when no order of their calls makes one source touch the leaves of another.  Every
operation has to respect the state at startup.  An alias that is free then, or that a reload
drops, has to be left to operations of one source: if one of them inserts there, nobody of
another source may insert there or remove it.

That this is enough is an invariant for each alias.  The entry of startup is there and no other
source is about to write its alias, or somebody has removed it, and from then on the alias is
as good as free.  That it is needed takes no more than runs in which one operation
makes its first call, others run from start to end, and it goes on.
-/
import McpFederation.Proofs.Writers

namespace McpFederation

/-! ### Call by call -/

namespace Owned

/-- Operations that run side by side, and who put the entry at each address there. -/
structure Running (ι : Type) where
  pool : Pool ι RegistryCall RegistryCall.Reply (List LeafEntry) Registry
  owner : Nat → Source

section

variable {ι : Type} [DecidableEq ι] {ops : ι → Op}

/-- One registry call of the operation `i`; what it allocates is its source's. -/
def turn (ops : ι → Op) (s : Running ι) (i : ι) : Running ι where
  pool := s.pool.step Registry.exec (.inl i)
  owner := fun addr => if addr < s.pool.shared.next then s.owner addr else (ops i).source

/-- The operations, none of which has begun. -/
def running (le : LoadEnv) (s : Owned) (ops : ι → Op) : Running ι :=
  ⟨s.registry.pool le ops, s.owner⟩

/-- Every entry the call removes or replaces was put there by its operation's source. -/
def IsolatedTurn (ops : ι → Op) (s : Running ι) (i : ι) : Prop :=
  ∀ b leaf, s.pool.shared.getLeaf b = some leaf →
    (turn ops s i).pool.shared.getLeaf b ≠ some leaf → s.owner leaf.addr = (ops i).source

theorem turn_ret {s : Running ι} {i : ι} {spawned : List LeafEntry}
    (hi : s.pool.threads i = .ret spawned) : (turn ops s i).pool = s.pool :=
  Pool.step_ret Registry.exec hi

theorem turn_shared {s : Running ι} {i : ι} {c : RegistryCall}
    {k : c.Reply → RegistryM (List LeafEntry)} (hi : s.pool.threads i = .call c k) :
    (turn ops s i).pool.shared = (Registry.exec c s.pool.shared).2 :=
  congrArg Pool.shared (Pool.step_call Registry.exec hi)

theorem turn_owner {s : Running ι} {i : ι} {addr : Nat} (h : addr < s.pool.shared.next) :
    (turn ops s i).owner addr = s.owner addr := if_pos h

theorem turn_owner_new {s : Running ι} {i : ι} {addr : Nat} (h : s.pool.shared.next ≤ addr) :
    (turn ops s i).owner addr = (ops i).source := if_neg (Nat.not_lt.mpr h)

theorem fresh_turn {s : Running ι} (h : s.pool.shared.Fresh) (i : ι) :
    (turn ops s i).pool.shared.Fresh := by
  cases hi : s.pool.threads i with
  | ret spawned =>
      rw [turn_ret hi]
      exact h
  | call c k =>
      rw [turn_shared hi]
      exact h.exec c

/-- A turn is isolated if what it writes is free or its own. -/
theorem isolatedTurn_of {s : Running ι} (h : s.pool.shared.Fresh) {i : ι}
    (hown : ∀ c k b leaf, s.pool.threads i = .call c k → c.Writes b →
      s.pool.shared.getLeaf b = some leaf → s.owner leaf.addr = (ops i).source) :
    IsolatedTurn ops s i := by
  intro b leaf hleaf hgone
  cases hi : s.pool.threads i with
  | ret spawned =>
      rw [turn_ret hi] at hgone
      exact absurd hleaf hgone
  | call c k =>
      rw [turn_shared hi] at hgone
      exact hown c k b leaf hi ((h.gone_iff c hleaf).mp hgone) hleaf

/-! ### Operations that keep apart -/

variable (le : LoadEnv)

/-- If one of these operations inserts under `b`, then all of them that write `b` are of its
source. -/
def Alone (ops : ι → Op) (among : ι → Prop) (b : String) : Prop :=
  ∀ i j, among i → among j → (ops i).Puts le b → (ops j).Puts le b ∨ (ops j).Removes le b →
    (ops i).source = (ops j).source

/--
When operations that start in `s` keep apart, by what they are given:

  * each of them respects the state `s` when it runs alone;
  * an alias that is free in `s` is written by one source, if anybody inserts there;
  * and so is an alias that a reload drops, apart from that reload.
-/
structure Apart (s : Owned) (ops : ι → Op) : Prop where
  respects : ∀ i, s.Respects le (ops i)
  free : ∀ b, b ∉ s.registry.aliases → Alone le ops (fun _ => True) b
  dropped : ∀ r b, (ops r).source = .config → (ops r).Removes le b → Alone le ops (· ≠ r) b

/-- Programs that write what their operations are said to write, on a sound registry. -/
structure Sound (ops : ι → Op) (s : Running ι) : Prop where
  fresh : s.pool.shared.Fresh
  within : ∀ i, (s.pool.threads i).Makes
    (RegistryCall.Within ((ops i).Puts le) ((ops i).Removes le))

/-- `b` has an entry of the configuration, which is the only source that goes on writing `b` as
long as it is there; a reload that drops it will do so once. -/
structure Held (ops : ι → Op) (b : String) (s : Running ι) : Prop where
  entry : ∃ leaf, s.pool.shared.getLeaf b = some leaf ∧ s.owner leaf.addr = .config
  droppers : ∀ r, (ops r).source = .config → (ops r).Removes le b →
    (s.pool.threads r).Uses RegistryCall.Lists (RegistryCall.Writes b) 1
  others : ∀ i, (ops i).source ≠ .config →
    (s.pool.threads i).Uses (RegistryCall.Shows b) (RegistryCall.Writes b) 0

/-- `b` is left to some of the operations, and has at most what one of them has inserted. -/
structure LeftTo (ops : ι → Op) (among : ι → Prop) (b : String) (s : Running ι) : Prop where
  alone : Alone le ops among b
  entry : ∀ leaf, s.pool.shared.getLeaf b = some leaf →
    ∃ j, among j ∧ (ops j).Puts le b ∧ s.owner leaf.addr = (ops j).source
  others : ∀ i, ¬ among i →
    (s.pool.threads i).Uses RegistryCall.Lists (RegistryCall.Writes b) 0

variable {le} {s : Running ι} {b : String} {among : ι → Prop}

theorem Sound.step (h : Sound le ops s) (i : ι) : Sound le ops (turn ops s i) where
  fresh := fresh_turn h.fresh i
  within := fun j => Pool.threads_step_inv Registry.exec (fun _ _ _ hk => hk.2 _) (h.within j)
    (.inl i)

omit [DecidableEq ι] in
theorem Sound.writes (h : Sound le ops s) {i : ι} {c : RegistryCall}
    {k : c.Reply → RegistryM (List LeafEntry)} (hi : s.pool.threads i = .call c k)
    (hc : c.Writes b) : (ops i).Puts le b ∨ (ops i).Removes le b := by
  have hwithin := h.within i
  rw [hi] at hwithin
  exact hwithin.1.writes hc

/-- What is not written stays, and so does its owner. -/
theorem Sound.kept (h : Sound le ops s) {i : ι}
    (hnot : ∀ c k, s.pool.threads i = .call c k → ¬ c.Writes b) :
    (turn ops s i).pool.shared.getLeaf b = s.pool.shared.getLeaf b ∧
      ∀ leaf, s.pool.shared.getLeaf b = some leaf →
        (turn ops s i).owner leaf.addr = s.owner leaf.addr := by
  refine ⟨?_, fun leaf hleaf => turn_owner (h.fresh b leaf hleaf)⟩
  cases hi : s.pool.threads i with
  | ret spawned => rw [turn_ret hi]
  | call c k =>
      rw [turn_shared hi]
      exact Registry.getLeaf_exec_of_spares
        (RegistryCall.spares_of_not_writes (hnot c k hi)) s.pool.shared

/-- What is inserted belongs to the operation. -/
theorem owner_of_inserted {i : ι} {config : ServerConfig}
    {k : LeafEntry × Option LeafEntry → RegistryM (List LeafEntry)}
    (hi : s.pool.threads i = .call (.addLeaf b config) k) {leaf : LeafEntry}
    (hleaf : (turn ops s i).pool.shared.getLeaf b = some leaf) :
    (turn ops s i).owner leaf.addr = (ops i).source := by
  rw [turn_shared hi] at hleaf
  have hnew : leaf = s.pool.shared.alloc config := by
    refine (Option.some.inj ?_).symm
    rw [← hleaf]
    exact (Registry.getLeaf_addLeaf_self _ _ _).symm
  rw [hnew]
  exact turn_owner_new (Nat.le_refl _)

omit [DecidableEq ι] in
/-- What may not be written any more is not written by the next call. -/
theorem not_writes_of_uses {A : (c : RegistryCall) → c.Reply → Prop} {i : ι}
    (h : (s.pool.threads i).Uses A (RegistryCall.Writes b) 0) {c : RegistryCall}
    {k : c.Reply → RegistryM (List LeafEntry)} (hi : s.pool.threads i = .call c k) :
    ¬ c.Writes b := by
  rw [hi] at h
  exact h.not_of_zero

/-- A turn leaves nobody more calls than before. -/
theorem uses_turn {W : RegistryCall → Prop} {n : Nat} {j : ι}
    (h : (s.pool.threads j).Uses RegistryCall.Lists W n) (i : ι) :
    ((turn ops s i).pool.threads j).Uses RegistryCall.Lists W n :=
  Pool.threads_step_uses (I := fun _ => True) (fun c r _ => RegistryCall.lists_exec c r) trivial
    h i

/-- An alias that is left to some operations is written by one source, and stays so. -/
theorem LeftTo.step (hsound : Sound le ops s) (h : LeftTo le ops among b s) (i : ι) :
    (∀ c k leaf, s.pool.threads i = .call c k → c.Writes b →
      s.pool.shared.getLeaf b = some leaf → s.owner leaf.addr = (ops i).source) ∧
      LeftTo le ops among b (turn ops s i) := by
  have hamong : ∀ c k, s.pool.threads i = .call c k → c.Writes b → among i := by
    intro c k hi hc
    by_contra hnot
    exact not_writes_of_uses (h.others i hnot) hi hc
  refine ⟨?_, h.alone, ?_, fun j hj => uses_turn (h.others j hj) i⟩
  · intro c k leaf hi hc hleaf
    obtain ⟨j, hj, hputs, howner⟩ := h.entry leaf hleaf
    rw [howner]
    exact h.alone j i hj (hamong c k hi hc) hputs (hsound.writes hi hc)
  · intro leaf hleaf
    by_cases hnot : ∀ c k, s.pool.threads i = .call c k → ¬ c.Writes b
    · obtain ⟨hsame, howner⟩ := hsound.kept hnot
      rw [hsame] at hleaf
      rw [howner leaf hleaf]
      exact h.entry leaf hleaf
    · push Not at hnot
      obtain ⟨c, k, hi, hc⟩ := hnot
      cases c with
      | addLeaf a config =>
          obtain rfl : a = b := hc
          have hwithin := hsound.within i
          rw [hi] at hwithin
          exact ⟨i, hamong _ k hi rfl, hwithin.1, owner_of_inserted hi hleaf⟩
      | removeLeaf a =>
          obtain rfl : a = b := hc
          rw [turn_shared hi] at hleaf
          cases hleaf.symm.trans (Registry.getLeaf_removeLeaf_self _ _)
      | getLeaf a => exact hc.elim
      | aliases => exact hc.elim

/-- An alias that has an entry of the configuration has one after the turn, or is left to the
other operations from then on. -/
theorem Held.step (hsound : Sound le ops s) (h : Held le ops b s) (i : ι)
    (hdropped : ∀ r, (ops r).source = .config → (ops r).Removes le b →
      Alone le ops (· ≠ r) b) :
    (∀ c k leaf, s.pool.threads i = .call c k → c.Writes b →
      s.pool.shared.getLeaf b = some leaf → s.owner leaf.addr = (ops i).source) ∧
      (Held le ops b (turn ops s i) ∨ ∃ among, LeftTo le ops among b (turn ops s i)) := by
  obtain ⟨leaf, hleaf, howner⟩ := h.entry
  have hconfig : ∀ c k, s.pool.threads i = .call c k → c.Writes b → (ops i).source = .config := by
    intro c k hi hc
    by_contra hsource
    exact not_writes_of_uses (h.others i hsource) hi hc
  have hdroppers : ∀ r, (ops r).source = .config → (ops r).Removes le b →
      ((turn ops s i).pool.threads r).Uses RegistryCall.Lists (RegistryCall.Writes b) 1 :=
    fun r hsource hremoves => uses_turn (h.droppers r hsource hremoves) i
  have hothers : ∀ j, (ops j).source ≠ .config →
      ((turn ops s i).pool.threads j).Uses (RegistryCall.Shows b) (RegistryCall.Writes b) 0 :=
    fun j hj => Pool.threads_step_uses (I := fun r => (r.getLeaf b).isSome = true)
      (fun c r hr => RegistryCall.shows_exec c r hr) (by rw [hleaf]; rfl) (h.others j hj) i
  refine ⟨?_, ?_⟩
  · intro c k leaf' hi hc hleaf'
    rw [hleaf, Option.some.injEq] at hleaf'
    rw [← hleaf', howner, hconfig c k hi hc]
  · by_cases hnot : ∀ c k, s.pool.threads i = .call c k → ¬ c.Writes b
    · obtain ⟨hsame, hstays⟩ := hsound.kept hnot
      refine Or.inl ⟨⟨leaf, hsame.trans hleaf, ?_⟩, hdroppers, hothers⟩
      rw [hstays leaf hleaf, howner]
    · push Not at hnot
      obtain ⟨c, k, hi, hc⟩ := hnot
      have hsource := hconfig c k hi hc
      cases c with
      | addLeaf a config =>
          obtain rfl : a = b := hc
          have hnew : (turn ops s i).pool.shared.getLeaf a
              = some (s.pool.shared.alloc config) := by
            rw [turn_shared hi]
            exact Registry.getLeaf_addLeaf_self _ _ _
          refine Or.inl ⟨⟨_, hnew, ?_⟩, hdroppers, hothers⟩
          rw [owner_of_inserted hi hnew, hsource]
      | removeLeaf a =>
          obtain rfl : a = b := hc
          have hwithin := hsound.within i
          rw [hi] at hwithin
          have hremoves : (ops i).Removes le a := hwithin.1
          -- This reload is through with the alias.
          refine Or.inr ⟨(· ≠ i), hdropped i hsource hremoves, fun leaf' hleaf' => ?_, ?_⟩
          · rw [turn_shared hi] at hleaf'
            cases hleaf'.symm.trans (Registry.getLeaf_removeLeaf_self _ _)
          · intro j hj
            obtain rfl := not_not.mp hj
            have huses := h.droppers j hsource hremoves
            rw [hi] at huses
            rw [show (turn ops s j).pool.threads j = _ from
              Pool.threads_step_self Registry.exec hi]
            exact huses.spent rfl (RegistryCall.lists_exec _ _)
      | getLeaf a => exact hc.elim
      | aliases => exact hc.elim

/-- What is the case for every alias, as long as nobody has touched another source's leaf. -/
def Orderly (le : LoadEnv) (ops : ι → Op) (s : Running ι) : Prop :=
  Sound le ops s ∧ ∀ b, Held le ops b s ∨ ∃ among, LeftTo le ops among b s

theorem Orderly.step (h : Orderly le ops s) {start : Owned} (hapart : Apart le start ops)
    (i : ι) : IsolatedTurn ops s i ∧ Orderly le ops (turn ops s i) := by
  obtain ⟨hsound, haliases⟩ := h
  refine ⟨isolatedTurn_of hsound.fresh fun c k b leaf hi hc hleaf => ?_, hsound.step i,
    fun b => ?_⟩
  · rcases haliases b with hheld | ⟨among, hleft⟩
    · exact (hheld.step hsound i fun r => hapart.dropped r b).1 c k leaf hi hc hleaf
    · exact (hleft.step hsound i).1 c k leaf hi hc hleaf
  · rcases haliases b with hheld | ⟨among, hleft⟩
    · exact (hheld.step hsound i fun r => hapart.dropped r b).2
    · exact Or.inr ⟨among, (hleft.step hsound i).2⟩

omit [DecidableEq ι] in
theorem orderly_running {start : Owned} (hs : start.Startup le) (hapart : Apart le start ops) :
    Orderly le ops (running le start ops) := by
  refine ⟨⟨hs.1.wf.fresh, fun i => (ops i).within_program le⟩, fun b => ?_⟩
  cases hentry : start.registry.getLeaf b with
  | some leaf =>
      have howner : start.owner leaf.addr = .config := by rw [hs.2]
      refine Or.inl ⟨⟨leaf, hentry, howner⟩, fun r => uses_of_dropped, fun i hi => ?_⟩
      exact uses_of_respects hentry howner hi (hapart.respects i)
  | none =>
      have hfree : b ∉ start.registry.aliases := by
        intro hmem
        obtain ⟨leaf, hleaf⟩ := Registry.mem_aliases.mp hmem
        cases hentry.symm.trans hleaf
      refine Or.inr ⟨fun _ => True, hapart.free b hfree, fun leaf hleaf => ?_, fun i hi => ?_⟩
      · cases hentry.symm.trans hleaf
      · exact absurd trivial hi

/-- **Operations that keep apart stay out of each other's way**, in any order of their calls. -/
theorem Apart.isolated {start : Owned} (hs : start.Startup le) (hapart : Apart le start ops)
    (schedule : List ι) :
    Runs.Along (turn ops) (IsolatedTurn ops) (running le start ops) schedule :=
  Runs.along_of_inv (G := fun _ _ => True) (fun _ i h _ => h.step hapart i) schedule _
    (orderly_running hs hapart) (Runs.along_of_forall fun _ _ _ => trivial)

/-! ### One after the other -/

/-- The operation `i` has taken all the turns from `s` to `s'`, and what was left of it was
`t`. -/
structure AfterAlone (ops : ι → Op) (s : Running ι) (i : ι) (t : RegistryM (List LeafEntry))
    (s' : Running ι) : Prop where
  shared : s'.pool.shared = (t.run Registry.exec s.pool.shared).2
  others : ∀ j, j ≠ i → s'.pool.threads j = s.pool.threads j
  next : s.pool.shared.next ≤ s'.pool.shared.next
  old : ∀ addr, addr < s.pool.shared.next → s'.owner addr = s.owner addr
  new : ∀ addr, s.pool.shared.next ≤ addr → addr < s'.pool.shared.next →
    s'.owner addr = (ops i).source

theorem exists_afterAlone (i : ι) (t : RegistryM (List LeafEntry)) :
    ∀ s : Running ι, s.pool.threads i = t →
      ∃ n, AfterAlone ops s i t (Runs.run (turn ops) s (List.replicate n i)) := by
  induction t with
  | ret spawned =>
      intro s _
      refine ⟨0, rfl, fun _ _ => rfl, Nat.le_refl _, fun _ _ => rfl, fun addr hold hnew => ?_⟩
      exact absurd hold (Nat.not_le.mpr hnew)
  | call c k ih =>
      intro s hi
      have hthread : (turn ops s i).pool.threads i = k (Registry.exec c s.pool.shared).1 :=
        Pool.threads_step_self Registry.exec hi
      obtain ⟨n, hafter⟩ := ih _ (turn ops s i) hthread
      have hshared : (turn ops s i).pool.shared = (Registry.exec c s.pool.shared).2 :=
        turn_shared hi
      have hnext : s.pool.shared.next ≤ (turn ops s i).pool.shared.next := by
        rw [hshared]
        exact Registry.next_le_exec c _
      refine ⟨n + 1, ?_, fun j hj => ?_, hnext.trans hafter.next, fun addr hold => ?_,
        fun addr hnew hlt => ?_⟩
      · rw [List.replicate_succ, Runs.run_cons, hafter.shared, hshared]
        rfl
      · exact (hafter.others j hj).trans (Pool.threads_step_of_ne Registry.exec hj)
      · exact (hafter.old addr (Nat.lt_of_lt_of_le hold hnext)).trans (turn_owner hold)
      · by_cases hfirst : addr < (turn ops s i).pool.shared.next
        · exact (hafter.old addr hfirst).trans (turn_owner_new hnew)
        · exact hafter.new addr (Nat.not_lt.mp hfirst) hlt

/-- What an operation removes or replaces while it takes all the turns, if each of them is
isolated, belongs to it. -/
theorem owner_of_gone {i : ι} {leaf : LeafEntry} (n : Nat) :
    ∀ {s : Running ι}, s.pool.shared.Fresh → s.pool.shared.getLeaf b = some leaf →
      Runs.Along (turn ops) (IsolatedTurn ops) s (List.replicate n i) →
        (Runs.run (turn ops) s (List.replicate n i)).pool.shared.getLeaf b ≠ some leaf →
          s.owner leaf.addr = (ops i).source := by
  induction n with
  | zero => exact fun _ hleaf _ hgone => absurd hleaf hgone
  | succ n ih =>
      intro s hfresh hleaf halong hgone
      by_cases hkept : (turn ops s i).pool.shared.getLeaf b = some leaf
      · have howner := ih (fresh_turn hfresh i) hkept halong.2 hgone
        rwa [turn_owner (hfresh b leaf hleaf)] at howner
      · exact halong.1 b leaf hleaf hkept

/-- Run from here, this makes the entry under `b` disappear. -/
def Ousts (b : String) (p : RegistryM (List LeafEntry)) : Prop :=
  ∀ r leaf, r.WF → r.getLeaf b = some leaf → (p.run Registry.exec r).2.getLeaf b ≠ some leaf

theorem ousts_of_effect {op : Op} (h : ∀ r : Registry, op.effect le r b ≠ .keep) :
    Ousts b (op.program le) := by
  intro r leaf hwf hleaf
  exact ((Registry.holds_effect le r op b).gone_iff hwf leaf hleaf).mpr (h r)

theorem effect_of_removes {op : Op} (h : op.Removes le b) (r : Registry) :
    op.effect le r b = .remove := by
  cases op with
  | reload read =>
      obtain ⟨cfg, hcfg, hb⟩ := h
      simp only [Op.effect, hcfg, FederationConfig.server?_eq_none.mpr hb]
  | register req => exact h.elim
  | deregister a =>
      obtain rfl : a = b := h
      exact if_pos rfl
  | dns config records =>
      simp only [Op.effect, h.1, if_true, AList.lookup_eq_none.mpr h.2]
  | crd obj patch =>
      obtain ⟨rfl, heffect⟩ := h
      simp only [Op.effect, if_true, heffect]

theorem effect_of_puts {op : Op} (h : op.Puts le b) {r : Registry} (hfree : r.getLeaf b = none) :
    ∃ config, op.effect le r b = .put config := by
  cases op with
  | reload read =>
      obtain ⟨cfg, hcfg, hb⟩ := h
      cases hserver : cfg.server? b with
      | none => exact absurd hb (FederationConfig.server?_eq_none.mp hserver)
      | some server =>
          exact ⟨server, by simp only [Op.effect, hcfg, hserver, hfree, reloadEffect]⟩
  | register req =>
      obtain ⟨hvalid, rfl⟩ := h
      exact ⟨req.config, if_pos ⟨hvalid, rfl, hfree⟩⟩
  | deregister a => exact h.elim
  | dns config records =>
      obtain ⟨record, -, hrecord⟩ := desiredRecords_keys.mp h
      have hpre : Text.startsWith dnsAliasPrefix b = true :=
        hrecord ▸ sanitizeAlias_prefix record.target
      obtain ⟨desired, hdesired⟩ := Option.isSome_iff_exists.mp (AList.lookup_isSome.mpr h)
      refine ⟨dnsServerConfig config b desired, ?_⟩
      simp only [Op.effect, hpre, hdesired, hfree, if_true, Option.isSome_none,
        Bool.false_eq_true, if_false]
  | crd obj patch =>
      obtain ⟨rfl, config, heffect⟩ := h
      exact ⟨config, by simp only [Op.effect, if_true, heffect]⟩

theorem run_insertRegistered (req : RegisterRequest) (r : Registry) :
    ((insertRegistered req).run Registry.exec r).2 = r.addLeaf req.aliasName req.config := by
  simp [insertRegistered, RegistryM.addLeaf, RegistryM.getLeaf, Registry.exec]

/-- A poll that has seen these aliases. -/
def dnsRest (config : DnsDiscoveryConfig) (records : List SrvRecord) (aliases : List String) :
    RegistryM (List LeafEntry) := do
  let existing := aliases.filter (Text.startsWith dnsAliasPrefix)
  let spawned ← Prog.forEach (dnsAdd config existing) (desiredRecords records).entries
  let _ ← Prog.forEach removeAlias (existing.filter (· ∉ (desiredRecords records).keys))
  pure spawned

/-- It inserts what it has not seen, whatever is there by now. -/
theorem ousts_dnsRest (config : DnsDiscoveryConfig) {records : List SrvRecord}
    (hb : b ∈ desiredRecords records) {aliases : List String} (hfree : b ∉ aliases) :
    Ousts b (dnsRest config records aliases) := by
  intro r leaf hwf hleaf
  let existing := aliases.filter (Text.startsWith dnsAliasPrefix)
  have hrun : ((dnsRest config records aliases).run Registry.exec r).2
      = updateThenRemove (fun s entry => ((dnsAdd config existing entry).run Registry.exec s).2)
          (desiredRecords records).entries
          (existing.filter (· ∉ (desiredRecords records).keys)) r := by
    simp only [dnsRest, Prog.run_bind, Prog.run_forEach_snd, Prog.pure_eq, Prog.run_ret,
      updateThenRemove, existing]
  have hnew : b ∉ existing := fun hmem => hfree (List.mem_filter.mp hmem).1
  obtain ⟨record, hrecord⟩ := Option.isSome_iff_exists.mp (AList.lookup_isSome.mpr hb)
  have hentry : ⟨b, record⟩ ∈ (desiredRecords records).entries := AList.mem_lookup_iff.mp hrecord
  have hholds := (touches_dnsAdd config existing).holds_updated
    (existing.filter (· ∉ (desiredRecords records).keys)) (AList.keys_nodup _)
    (fun a ha => of_decide_eq_true (List.mem_filter.mp ha).2) hentry r
  rw [hrun]
  refine (hholds.gone_iff hwf leaf hleaf).mpr ?_
  rw [if_neg hnew]
  exact fun hc => by cases hc

/-- **What an operation of another source than the file inserts, it inserts over whatever is
there**: at once, or once it has seen the alias free. -/
theorem ousts_of_puts {op : Op} (h : op.Puts le b) (hsource : op.source ≠ .config) :
    Ousts b (op.program le) ∨
      ∃ c k, op.program le = .call c k ∧ ∀ r : Registry, r.getLeaf b = none →
        (Registry.exec c r).2 = r ∧ Ousts b (k (Registry.exec c r).1) := by
  cases op with
  | reload read => exact absurd rfl hsource
  | register req =>
      obtain ⟨hvalid, rfl⟩ := h
      simp only [Op.program, registerServer_eq hvalid]
      refine Or.inr ⟨.getLeaf req.aliasName, _, rfl, fun r hfree => ⟨rfl, ?_⟩⟩
      simp only [Registry.exec, hfree]
      intro r' leaf hwf hleaf
      show ((insertRegistered req >>= fun registered => pure registered.spawned).run
        Registry.exec r').2.getLeaf req.aliasName ≠ some leaf
      rw [Prog.run_bind, run_insertRegistered]
      exact (Registry.Fresh.gone_iff hwf.fresh (.addLeaf req.aliasName req.config) hleaf).mpr rfl
  | deregister a => exact h.elim
  | dns config records =>
      refine Or.inr ⟨.aliases, dnsRest config records, rfl, fun r hfree => ⟨rfl, ?_⟩⟩
      refine ousts_dnsRest config h fun hmem => ?_
      obtain ⟨leaf, hleaf⟩ := Registry.mem_aliases.mp hmem
      cases hfree.symm.trans hleaf
  | crd obj patch =>
      obtain ⟨rfl, config, heffect⟩ := h
      refine Or.inl (ousts_of_effect fun r => ?_)
      simp only [Op.effect, if_true, heffect]
      exact fun hc => by cases hc

/-- One operation inserts, and what is left of another one takes that away. -/
theorem source_eq_of_ousts {i j : ι} (hwf : s.pool.shared.WF)
    (hfree : s.pool.shared.getLeaf b = none) (hi : s.pool.threads i = (ops i).program le)
    (hall : ∀ schedule, Runs.Along (turn ops) (IsolatedTurn ops) s schedule)
    (hputs : (ops i).Puts le b) (hj : Ousts b (s.pool.threads j)) :
    (ops i).source = (ops j).source := by
  by_cases hij : i = j
  · rw [hij]
  obtain ⟨n, hafter⟩ := exists_afterAlone i _ s hi
  have hshared : (Runs.run (turn ops) s (List.replicate n i)).pool.shared
      = s.pool.shared.apply le (ops i) := hafter.shared
  have hwf' := hwf.apply le (ops i)
  rw [← hshared] at hwf'
  obtain ⟨config, heffect⟩ := effect_of_puts hputs hfree
  have hholds := Registry.holds_effect le s.pool.shared (ops i) b
  rw [heffect, ← hshared] at hholds
  obtain ⟨leaf, hleaf, -, haddr⟩ := hholds
  have howner := hafter.new leaf.addr haddr (hwf'.fresh b leaf hleaf)
  obtain ⟨m, hgone⟩ := exists_afterAlone j _ _ (hafter.others j (Ne.symm hij))
  have halong := (Runs.along_append.mp (hall (List.replicate n i ++ List.replicate m j))).2
  rw [← howner]
  refine owner_of_gone m hwf'.fresh hleaf halong ?_
  rw [hgone.shared]
  exact hj _ leaf hwf' hleaf

/-- **Two sources at a free alias**, of which one inserts: some order of their calls makes one
of them touch the other's leaf. -/
theorem source_eq_of_isolated {i j : ι} (hwf : s.pool.shared.WF)
    (hfree : s.pool.shared.getLeaf b = none) (hi : s.pool.threads i = (ops i).program le)
    (hj : s.pool.threads j = (ops j).program le)
    (hall : ∀ schedule, Runs.Along (turn ops) (IsolatedTurn ops) s schedule)
    (hputs : (ops i).Puts le b) (hwrites : (ops j).Puts le b ∨ (ops j).Removes le b) :
    (ops i).source = (ops j).source := by
  -- The first of the two inserts, and the second takes that away.
  have hremoved : ∀ {i j}, s.pool.threads i = (ops i).program le →
      s.pool.threads j = (ops j).program le → (ops i).Puts le b → (ops j).Removes le b →
        (ops i).source = (ops j).source := by
    intro i j hi hj hputs hremoves
    refine source_eq_of_ousts hwf hfree hi hall hputs ?_
    rw [hj]
    refine ousts_of_effect fun r => ?_
    rw [effect_of_removes hremoves r]
    exact fun hc => by cases hc
  have hreplaced : ∀ {i j}, s.pool.threads i = (ops i).program le →
      s.pool.threads j = (ops j).program le → (ops i).Puts le b → (ops j).Puts le b →
        (ops j).source ≠ .config → (ops i).source = (ops j).source := by
    intro i j hi hj hputs hputs' hsource
    by_cases hij : i = j
    · rw [hij]
    rcases ousts_of_puts hputs' hsource with hnow | ⟨c, k, hcall, hfirst⟩
    · refine source_eq_of_ousts hwf hfree hi hall hputs ?_
      rw [hj]
      exact hnow
    · -- It looks first, and goes on when the other one is done.
      rw [hcall] at hj
      obtain ⟨hsame, hlater⟩ := hfirst s.pool.shared hfree
      have hshared : (turn ops s j).pool.shared = s.pool.shared :=
        (turn_shared hj).trans hsame
      refine source_eq_of_ousts (s := turn ops s j) ?_ ?_ ?_
        (fun schedule => (hall (j :: schedule)).2) hputs ?_
      · rw [hshared]
        exact hwf
      · rw [hshared]
        exact hfree
      · exact (Pool.threads_step_of_ne Registry.exec hij).trans hi
      · rw [show (turn ops s j).pool.threads j = _ from Pool.threads_step_self Registry.exec hj]
        exact hlater
  rcases hwrites with hputs' | hremoves
  · by_cases hsource : (ops j).source = .config
    · by_cases hsource' : (ops i).source = .config
      · rw [hsource, hsource']
      · exact (hreplaced hj hi hputs' hputs hsource').symm
    · exact hreplaced hi hj hputs hputs' hsource
  · exact hremoved hi hj hputs hremoves

/-- **Operations that never touch another source's leaf keep apart.** -/
theorem apart_of_isolated {start : Owned} (hwf : start.registry.WF)
    (hall : ∀ schedule,
      Runs.Along (turn ops) (IsolatedTurn ops) (running le start ops) schedule) :
    Apart le start ops where
  respects := by
    intro i
    refine (isolated_iff hwf (ops i)).mp fun b leaf hleaf hgone => ?_
    have hfresh : (running le start ops).pool.shared.Fresh := hwf.fresh
    obtain ⟨n, hafter⟩ : ∃ n, AfterAlone ops (running le start ops) i ((ops i).program le)
        (Runs.run (turn ops) (running le start ops) (List.replicate n i)) :=
      exists_afterAlone i _ _ rfl
    refine owner_of_gone n hfresh hleaf (hall (List.replicate n i)) ?_
    rw [hafter.shared]
    exact hgone
  free := by
    intro b hb i j _ _ hputs hwrites
    refine source_eq_of_isolated (s := running le start ops) hwf ?_ rfl rfl hall hputs hwrites
    exact Option.eq_none_iff_forall_ne_some.mpr fun leaf hleaf =>
      hb (Registry.mem_aliases.mpr ⟨leaf, hleaf⟩)
  dropped := by
    intro r b _ hremoves i j hi hj hputs hwrites
    obtain ⟨n, hafter⟩ : ∃ n, AfterAlone ops (running le start ops) r ((ops r).program le)
        (Runs.run (turn ops) (running le start ops) (List.replicate n r)) :=
      exists_afterAlone r _ _ rfl
    have hshared : (Runs.run (turn ops) (running le start ops) (List.replicate n r)).pool.shared
        = start.registry.apply le (ops r) := hafter.shared
    refine source_eq_of_isolated ?_ ?_ (hafter.others i hi) (hafter.others j hj)
      (fun schedule => ?_) hputs hwrites
    · rw [hshared]
      exact hwf.apply le (ops r)
    · have hholds := Registry.holds_effect le start.registry (ops r) b
      rw [effect_of_removes hremoves] at hholds
      rw [hshared]
      exact hholds
    · exact (Runs.along_append.mp (hall (List.replicate n r ++ schedule))).2

end

/--
**When a run keeps the sources apart**, from startup on.

  * Operations that run side by side: no order of their registry calls makes one of them remove
    or replace what another source has put there, exactly when they keep apart.
  * Operations that run one after the other: each removes and replaces only what its own source
    has put there, exactly when each meets a state that it respects.
-/
theorem along_isolated_iff (le : LoadEnv) (s : Owned) (hs : s.Startup le) :
    (∀ (ι : Type) [DecidableEq ι] (ops : ι → Op),
        (∀ schedule, Runs.Along (turn ops) (IsolatedTurn ops) (running le s ops) schedule) ↔
          Apart le s ops) ∧
      ∀ ops : List Op,
        Runs.Along (step le) (Isolated le) s ops ↔ Runs.Along (step le) (Respects le) s ops := by
  refine ⟨?_, ?_⟩
  · intro ι _ ops
    exact ⟨apart_of_isolated hs.1.wf, fun hapart => hapart.isolated hs⟩
  · intro ops
    refine Runs.along_iff_of_inv (I := fun s => s.registry.WF) ?_ ?_ ops s ?_
    · exact fun s op hwf => hwf.apply le op
    · exact fun s op hwf => isolated_iff hwf op
    · exact hs.1.wf

/-- A leaf that is registered over REST, and deregistered again. -/
def docsAndGone : Bool → Op
  | true => .register docsRequest
  | false => .deregister "docs"

theorem docsAndGone_apart : Apart wikiLoad wiki docsAndGone where
  respects := by
    intro i
    cases i with
    | true => trivial
    | false =>
        intro leaf hleaf
        cases hleaf
  free := fun _ _ i j _ _ _ _ => by cases i <;> cases j <;> rfl
  dropped := fun r _ hsource _ => by cases r <;> cases hsource

/-- In any order of their calls, and one after the other. -/
theorem wiki_register_deregister_isolated :
    wiki.Startup wikiLoad ∧
      Runs.Along (turn docsAndGone) (IsolatedTurn docsAndGone)
        (running wikiLoad wiki docsAndGone) [true, false, true, true] ∧
      Runs.Along (step wikiLoad) (Isolated wikiLoad) wiki
        [.register docsRequest, .deregister "docs"] := by
  have hiff := along_isolated_iff wikiLoad wiki wiki_startup
  refine ⟨wiki_startup, (hiff.1 Bool docsAndGone).mpr docsAndGone_apart _, (hiff.2 _).mpr ?_⟩
  refine ⟨trivial, ?_, trivial⟩
  intro leaf hleaf
  have hdocs : (wiki.step wikiLoad (.register docsRequest)).registry.getLeaf "docs"
      = some ⟨1, docsRequest.config⟩ := by decide
  rw [hdocs, Option.some.injEq] at hleaf
  rw [← hleaf]
  rfl

/-- The same leaf, and then SIGHUP with the file unchanged: the reload removes it. -/
theorem wiki_register_reload_not_isolated :
    wiki.Startup wikiLoad ∧
      (wiki.step wikiLoad (.register docsRequest)).registry.getLeaf "docs"
        = some ⟨1, docsRequest.config⟩ ∧
      ((wiki.step wikiLoad (.register docsRequest)).step wikiLoad
        (.reload (.ok wikiFile))).registry.getLeaf "docs" = none ∧
      ¬ Runs.Along (step wikiLoad) (Isolated wikiLoad) wiki
        [.register docsRequest, .reload (.ok wikiFile)] := by
  have hdocs : (wiki.step wikiLoad (.register docsRequest)).registry.getLeaf "docs"
      = some ⟨1, docsRequest.config⟩ := by decide
  have hgone : ((wiki.step wikiLoad (.register docsRequest)).step wikiLoad
      (.reload (.ok wikiFile))).registry.getLeaf "docs" = none := by
    have heff := Registry.holds_effect wikiLoad
      (wiki.step wikiLoad (.register docsRequest)).registry (.reload (.ok wikiFile)) "docs"
    have hremove : (Op.reload (.ok wikiFile)).effect wikiLoad
        (wiki.step wikiLoad (.register docsRequest)).registry "docs" = .remove := by
      simp only [Op.effect, wikiFile_loads]
      rfl
    rw [hremove] at heff
    exact heff
  refine ⟨wiki_startup, hdocs, hgone, fun h => ?_⟩
  have howner := h.2.1 "docs" _ hdocs (by rw [hgone]; simp)
  exact absurd howner (by decide)

end Owned

end McpFederation
