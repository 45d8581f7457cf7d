/-
Reconciling an object again.

The controller reconciles every object on each event, and again every 300 s.  It does not
look whether anything has changed: `add_leaf` puts a new entry in the place of the old one,
so that an updated URL or token takes effect at once.  The new entry knows nothing.  Until its
warm-up has fetched the leaf's tools, the leaf has no tools in the catalogue and its health is
unknown, although nothing was wrong with it.

What does hold at every step is that nobody else notices: all other leaves stay as they are.
And the whole is idempotent: `reconcile_again` says that a leaf that answers the new warm-up
with the tools that were cached for it has the same catalogue at its end.
-/
import McpFederation.Model.Aggregator
import McpFederation.Model.Discovery
import McpFederation.Proofs.Refresh

namespace McpFederation

/-! ### A task in the registry -/

/-- A task of one entry, running among all the leaves. -/
def Surroundings.execOn {S : Type} (out : Surroundings S) (leaf : LeafEntry) :
    (c : LeafCall) → S × Leaves → c.Reply × (S × Leaves)
  | .client c, v => ((out.client c v.1).1, ((out.client c v.1).2, v.2))
  | .getOk url, v => ((out.getOk url v.1).1, ((out.getOk url v.1).2, v.2))
  | .now, v => ((out.now v.1).1, ((out.now v.1).2, v.2))
  | .readCells, v => (v.2.cellsOf leaf, v)
  | .updateCells f, v => (f (v.2.cellsOf leaf), (v.1, v.2.updateCells leaf f))

namespace Leaves

/-- `controller::reconcile`.  An entry that it makes is as `new_with_pool` leaves it. -/
def reconcile (w : Leaves) (obj : McpServer) (patch : Except String Unit) :
    Leaves × List LeafEntry :=
  let ran := (crdReconcile obj patch).run Registry.exec w.registry
  ({ registry := ran.2
     cells := ran.1.spawned.foldl (fun cells leaf => Function.update cells leaf.addr {}) w.cells },
    ran.1.spawned)

section

variable {S : Type} (env : ClientEnv) (out : Surroundings S) (s : S) (leaf : LeafEntry)

/-- The leaves when the task of a new entry is spawned, and after each of its steps. -/
def warming (w : Leaves) : List Leaves :=
  w :: ((crdTask env leaf.client).states (out.execOn leaf) (s, w)).map Prod.snd

/-- The leaves when the task is done. -/
def warmed (w : Leaves) : Leaves := ((crdTask env leaf.client).run (out.execOn leaf) (s, w)).2.2

end

/-! ### The catalogue, leaf by leaf -/

/-- What a leaf contributes to `aggregated_tools`. -/
def contribution (w : Leaves) (leaf : LeafEntry) : List Value :=
  if w.isHealthy leaf then
    (w.cellsOf leaf).cachedTools.filterMap (namespaceTool leaf.config.aliasName)
  else []

/-- What the leaves under other aliases contribute. -/
def othersContribution (w : Leaves) (a : String) : List Value :=
  (w.registry.allLeaves.filter (·.config.aliasName ≠ a)).flatMap w.contribution

theorem aggregatedTools_eq (w : Leaves) :
    w.aggregatedTools = nativeTools ++ w.registry.allLeaves.flatMap w.contribution := by
  unfold aggregatedTools aggregated healthyLeaves contribution
  congr 1
  induction w.registry.allLeaves with
  | nil => rfl
  | cons leaf rest ih =>
      rw [List.filter_cons, List.flatMap_cons, ← ih]
      split <;> rfl

/-- The one leaf under an alias, and the others. -/
theorem allLeaves_perm {r : Registry} (hwf : r.WF) {a : String} {leaf : LeafEntry}
    (h : r.getLeaf a = some leaf) :
    r.allLeaves.Perm (leaf :: r.allLeaves.filter (·.config.aliasName ≠ a)) := by
  have hmem : leaf ∈ r.allLeaves := Registry.mem_allLeaves.mpr ⟨a, h⟩
  have hothers : r.allLeaves.erase leaf = r.allLeaves.filter (·.config.aliasName ≠ a) := by
    rw [hwf.nodup_allLeaves.erase_eq_filter]
    refine List.filter_congr fun e he => ?_
    obtain ⟨b, hb⟩ := Registry.mem_allLeaves.mp he
    have hkey := hwf.key b e hb
    by_cases heq : e = leaf
    · subst heq
      simp [hwf.key a e h]
    · have hne : e.config.aliasName ≠ a := by
        intro hea
        rw [hkey] at hea
        subst hea
        rw [h, Option.some.injEq] at hb
        exact heq hb.symm
      simp [heq, hne]
  rw [← hothers]
  exact List.perm_cons_erase hmem

theorem aggregatedTools_perm {w : Leaves} (hwf : w.registry.WF) {a : String} {leaf : LeafEntry}
    (h : w.registry.getLeaf a = some leaf) :
    w.aggregatedTools.Perm (nativeTools ++ (w.contribution leaf ++ w.othersContribution a)) := by
  rw [aggregatedTools_eq]
  refine List.Perm.append_left _ ?_
  exact (allLeaves_perm hwf h).flatMap_right w.contribution

/-! ### One leaf changes -/

/-- The leaves with these cells for one entry. -/
def withCells (w : Leaves) (leaf : LeafEntry) (cells : LeafCells) : Leaves :=
  w.updateCells leaf fun _ => cells

@[simp] theorem cellsOf_withCells (w : Leaves) (leaf : LeafEntry) (cells : LeafCells) :
    (w.withCells leaf cells).cellsOf leaf = cells := Function.update_self ..

theorem cellsOf_withCells_of_ne (w : Leaves) {leaf e : LeafEntry} (cells : LeafCells)
    (h : e.addr ≠ leaf.addr) : (w.withCells leaf cells).cellsOf e = w.cellsOf e :=
  Function.update_of_ne h ..

theorem withCells_cellsOf (w : Leaves) (leaf : LeafEntry) :
    w.withCells leaf (w.cellsOf leaf) = w := by
  simp [withCells, updateCells, cellsOf]

theorem withCells_withCells (w : Leaves) (leaf : LeafEntry) (cells cells' : LeafCells) :
    (w.withCells leaf cells).withCells leaf cells' = w.withCells leaf cells' := by
  simp [withCells, updateCells]

section

variable {S : Type} (env : ClientEnv) (out : Surroundings S) (s : S) (leaf : LeafEntry)

/-- The task of an entry does to its cells what it does alone, and nothing else. -/
theorem execOn_part {α : Type} (p : LeafM α) (w : Leaves) :
    p.run (out.execOn leaf) (s, w)
        = ((p.run out.exec (s, w.cellsOf leaf)).1, (p.run out.exec (s, w.cellsOf leaf)).2.1,
            w.withCells leaf (p.run out.exec (s, w.cellsOf leaf)).2.2) ∧
      p.states (out.execOn leaf) (s, w)
        = (p.states out.exec (s, w.cellsOf leaf)).map fun v => (v.1, w.withCells leaf v.2) := by
  refine Prog.run_states_part out.exec (fun v => (v.1, v.2.cellsOf leaf))
    (fun v t => (t.1, v.2.withCells leaf t.2)) ?_ ?_ ?_ ?_ p (s, w)
  · intro v t
    rw [cellsOf_withCells]
  · intro v
    rw [withCells_cellsOf]
  · intro v t t'
    rw [withCells_withCells]
  · intro c v
    cases c with
    | updateCells f => rfl
    | client c => simp [Surroundings.execOn, Surroundings.exec, withCells_cellsOf]
    | getOk url => simp [Surroundings.execOn, Surroundings.exec, withCells_cellsOf]
    | now => simp [Surroundings.execOn, Surroundings.exec, withCells_cellsOf]
    | readCells => simp [Surroundings.execOn, Surroundings.exec, withCells_cellsOf]

/-- At every step the leaves are those from before, with other cells for the entry. -/
theorem mem_warming {w v : Leaves} (h : v ∈ warming env out s leaf w) :
    ∃ cells, v = w.withCells leaf cells ∧
      (cells = w.cellsOf leaf ∨
        ∃ t, (t, cells) ∈ (crdTask env leaf.client).states out.exec (s, w.cellsOf leaf)) := by
  rcases List.mem_cons.mp h with rfl | h
  · exact ⟨_, (withCells_cellsOf _ leaf).symm, .inl rfl⟩
  · rw [(execOn_part out s leaf _ w).2, List.map_map] at h
    obtain ⟨⟨t, cells⟩, ht, rfl⟩ := List.mem_map.mp h
    exact ⟨cells, rfl, .inr ⟨t, ht⟩⟩

theorem warmed_eq (w : Leaves) :
    warmed env out s leaf w
      = w.withCells leaf
          ((crdTask env leaf.client).run out.exec (s, w.cellsOf leaf)).2.2 := by
  rw [warmed, (execOn_part out s leaf _ w).1]

end

/-! ### The entry is replaced -/

/-- The entries under other aliases are not touched by an insertion. -/
theorem allLeaves_addLeaf {r : Registry} (hwf : r.WF) {a : String} {config : ServerConfig}
    (h : config.aliasName = a) :
    (r.addLeaf a config).allLeaves.filter (·.config.aliasName ≠ a)
      = r.allLeaves.filter (·.config.aliasName ≠ a) := by
  have hkey : ∀ e ∈ r.leaves.entries, e.2.config.aliasName = e.1 := fun e he =>
    hwf.key e.1 e.2 (AList.mem_lookup_iff.mpr he)
  simp only [Registry.allLeaves, Registry.addLeaf, AList.entries_insert, List.map_cons]
  rw [List.filter_cons_of_neg (by simp [h])]
  generalize r.leaves.entries = entries at hkey
  induction entries with
  | nil => rfl
  | cons e rest ih =>
      have hrest := ih fun e' he' => hkey e' (List.mem_cons_of_mem _ he')
      have he := hkey e List.mem_cons_self
      by_cases hea : a = e.1
      · rw [List.kerase_cons_eq hea, List.map_cons, List.filter_cons_of_neg (by simp [he, hea])]
      · rw [List.kerase_cons_ne hea, List.map_cons, List.map_cons, List.filter_cons,
          List.filter_cons, hrest]

end Leaves

/-! ### The warm-up of the new entry -/

section

variable {S α β : Type} {out : Surroundings S} {K : LeafCells → Prop}

/-- The cells satisfy `K` after every step of a run, and at its end. -/
def Keeps (out : Surroundings S) (K : LeafCells → Prop) (p : LeafM α) (v : S × LeafCells) : Prop :=
  (∀ t ∈ p.states out.exec v, K t.2) ∧ K (p.run out.exec v).2.2

theorem Keeps.bind {p : LeafM α} {f : α → LeafM β} {v : S × LeafCells} (hp : Keeps out K p v)
    (hf : Keeps out K (f (p.run out.exec v).1) (p.run out.exec v).2) :
    Keeps out K (p >>= f) v := by
  refine ⟨fun t ht => ?_, ?_⟩
  · rw [Prog.states_bind] at ht
    rcases List.mem_append.mp ht with ht | ht
    · exact hp.1 t ht
    · exact hf.1 t ht
  · rw [Prog.run_bind]
    exact hf.2

/-- A call that leaves the cached tools alone. -/
def LeafCall.SparesTools : LeafCall → Prop
  | .updateCells f => ∀ c, (f c).cachedTools = c.cachedTools
  | _ => True

/-- The cached tools are none, or these. -/
def NoneOr (tools : List Value) (c : LeafCells) : Prop :=
  c.cachedTools = [] ∨ c.cachedTools = tools

theorem keeps_of_makes {tools : List Value} {p : LeafM α} (hp : p.Makes LeafCall.SparesTools)
    {v : S × LeafCells} (hv : NoneOr tools v.2) : Keeps out (NoneOr tools) p v := by
  have hstep : ∀ (c : LeafCall) (t : S × LeafCells), c.SparesTools → NoneOr tools t.2 →
      NoneOr tools (out.exec c t).2.2 := by
    intro c t hc ht
    cases c with
    | updateCells f => exact ht.imp (hc t.2).trans (hc t.2).trans
    | client c => exact ht
    | getOk url => exact ht
    | now => exact ht
    | readCells => exact ht
  exact ⟨Prog.states_inv out.exec hstep p hp v hv, Prog.run_inv out.exec hstep p hp v hv⟩

theorem keeps_ask {tools : List Value} (p : ClientM α) {v : S × LeafCells}
    (hv : NoneOr tools v.2) : Keeps out (NoneOr tools) (LeafM.ask p) v :=
  keeps_of_makes (LeafM.makes_ask (fun _ => trivial) p) hv

variable (env : ClientEnv) (cl : LeafClient)

/-- What `list_tools` gives is stored. -/
theorem keeps_fetchTools {tools : List Value} {v : S × LeafCells} (hv : NoneOr tools v.2)
    (hlist : ∀ items, ((cl.listTools env).run.run out.client v.1).1 = .ok items → items = tools) :
    Keeps out (NoneOr tools) (fetchTools env cl) v := by
  refine (keeps_ask (cl.listTools env) hv).bind ?_
  rw [out.run_ask]
  cases hitems : ((cl.listTools env).run.run out.client v.1).1 with
  | error e => exact ⟨fun t ht => (by cases ht), hv⟩
  | ok items =>
      obtain rfl := hlist items hitems
      have hstored : ∀ t, NoneOr items (v.2.setTools t items) := fun t => .inr rfl
      refine ⟨fun t ht => ?_, hstored _⟩
      rcases List.mem_cons.mp ht with rfl | ht
      · exact hv
      · obtain rfl := List.mem_singleton.mp ht
        exact hstored _

variable (out) (s : S)

/-- What the handshake of the task gives, and what is around the task then. -/
def Surroundings.handshake : Except FederationError Value × S :=
  (cl.initializeLeaf env).run.run out.client s

theorem Surroundings.run_initializeLeaf :
    (cl.initializeLeaf env).run.run out.client s = out.handshake env cl s := rfl

/-- What `list_tools` gives it, after a look at the clock. -/
def Surroundings.listing : Except FederationError (List Value) :=
  ((cl.listTools env).run.run out.client (out.now (out.handshake env cl s).2).2).1

/-- The tools that the leaf lists for the task, if it does. -/
def Surroundings.listed : List Value := (out.listing env cl s).toOption.getD []

/-- Keeping the `serverInfo` is a matter of the cells only. -/
theorem run_keepServerInfo (result : Value) (v : S × LeafCells) :
    ((keepServerInfo result).run out.exec v).2.1 = v.1 ∧
      ((keepServerInfo result).run out.exec v).2.2.health = v.2.health := by
  unfold keepServerInfo
  split <;> exact ⟨rfl, rfl⟩

theorem spares_keepServerInfo (result : Value) :
    (keepServerInfo result).Makes LeafCall.SparesTools := by
  unfold keepServerInfo
  split
  · exact ⟨fun _ => rfl, fun _ => trivial⟩
  · trivial

theorem spares_markHealthy : LeafM.markHealthy.Makes LeafCall.SparesTools :=
  ⟨trivial, fun _ => ⟨fun _ => rfl, fun _ => trivial⟩⟩

theorem spares_markUnhealthy : LeafM.markUnhealthy.Makes LeafCall.SparesTools :=
  ⟨trivial, fun _ => ⟨fun _ => rfl, fun _ => trivial⟩⟩

/-- What the task does when the handshake has succeeded. -/
theorem keeps_keepInfoAndTools (result : Value) {v : S × LeafCells}
    (hs : v.1 = (out.now (out.handshake env cl s).2).2)
    (hv : NoneOr (out.listed env cl s) v.2) :
    Keeps out (NoneOr (out.listed env cl s)) (keepInfoAndTools env cl result) v := by
  have hinfo : Keeps out (NoneOr (out.listed env cl s)) (keepServerInfo result) v :=
    keeps_of_makes (spares_keepServerInfo result) hv
  refine hinfo.bind (keeps_fetchTools env cl hinfo.2 fun items hitems => ?_)
  rw [(run_keepServerInfo out result v).1, hs] at hitems
  rw [Surroundings.listed, Surroundings.listing, hitems]
  rfl

/-- At every step of the warm-up the entry has no tools, or those that were listed. -/
theorem keeps_crdTask :
    Keeps out (NoneOr (out.listed env cl s)) (crdTask env cl) (s, {}) := by
  have hwarm : Keeps out (NoneOr (out.listed env cl s))
      (warmUp env cl (keepInfoAndTools env cl)) (s, {}) := by
    refine (keeps_ask (cl.initializeLeaf env) (.inl rfl)).bind ?_
    rw [out.run_ask]
    dsimp only
    rw [out.run_initializeLeaf env cl s]
    cases (out.handshake env cl s).1 with
    | error e =>
        refine keeps_of_makes (Prog.makes_bind spares_markUnhealthy fun _ => ?_) (.inl rfl)
        trivial
    | ok result =>
        have hmark : Keeps out (NoneOr (out.listed env cl s)) LeafM.markHealthy
            ((out.handshake env cl s).2, {}) := keeps_of_makes spares_markHealthy (.inl rfl)
        have hkeep := keeps_keepInfoAndTools out env cl s result
          (v := (LeafM.markHealthy.run out.exec ((out.handshake env cl s).2, {})).2) rfl hmark.2
        exact hmark.bind (hkeep.bind ⟨fun t ht => (by cases ht), hkeep.2⟩)
  refine hwarm.bind (keeps_of_makes ?_ hwarm.2)
  split
  · exact ⟨trivial, fun _ => ⟨trivial, fun _ => trivial⟩⟩
  · exact ⟨trivial, fun _ => trivial⟩

theorem run_fetchTools {tools : List Value} {v : S × LeafCells}
    (h : ((cl.listTools env).run.run out.client v.1).1 = .ok tools) :
    ∃ t, ((fetchTools env cl).run out.exec v).2.2 = v.2.setTools t tools := by
  rw [fetchTools, fetchInto, Prog.run_bind, out.run_ask, h]
  exact ⟨_, rfl⟩

/-- At the end of a warm-up that succeeded, the entry is healthy and has the tools. -/
theorem run_crdTask {result : Value} {tools : List Value}
    (hinit : (out.handshake env cl s).1 = .ok result)
    (hlisting : out.listing env cl s = .ok tools) :
    ((crdTask env cl).run out.exec (s, {})).2.2.health = .healthy ∧
      ((crdTask env cl).run out.exec (s, {})).2.2.cachedTools = tools := by
  obtain ⟨hs, hhealth⟩ := run_keepServerInfo out result
    (LeafM.markHealthy.run out.exec ((out.handshake env cl s).2, {})).2
  obtain ⟨t, hstored⟩ := run_fetchTools out env cl
    (v := ((keepServerInfo result).run out.exec
      (LeafM.markHealthy.run out.exec ((out.handshake env cl s).2, {})).2).2)
    (by rw [hs]; exact hlisting)
  have hwarm : (warmUp env cl (keepInfoAndTools env cl)).run out.exec (s, {})
      = (true, ((fetchTools env cl).run out.exec ((keepServerInfo result).run out.exec
          (LeafM.markHealthy.run out.exec ((out.handshake env cl s).2, {})).2).2).2) := by
    rw [warmUp, Prog.run_bind, out.run_ask]
    dsimp only
    rw [out.run_initializeLeaf env cl s, hinit]
    simp only [keepInfoAndTools, Prog.run_bind]
    rfl
  have hcells : ((crdTask env cl).run out.exec (s, {})).2.2
      = ((warmUp env cl (keepInfoAndTools env cl)).run out.exec (s, {})).2.2 := by
    rw [crdTask, Prog.run_bind, hwarm]
    rfl
  rw [hcells, hwarm, hstored]
  exact ⟨hhealth, rfl⟩

end

/-! ### Again -/

namespace Leaves

/-- The health of the leaf under an alias. -/
def healthAt (w : Leaves) (a : String) : Option LeafHealth :=
  (w.registry.getLeaf a).map fun leaf => (w.cellsOf leaf).health

/-- An earlier `reconcile` of the object is complete: its entry is there, and healthy. -/
structure Served (w : Leaves) (obj : McpServer) (old : LeafEntry) : Prop where
  entry : w.registry.getLeaf obj.aliasName = some old
  config : ∃ transport, parseTransport obj.spec.transport = .ok transport ∧
    old.config = crdServerConfig obj transport
  health : (w.cellsOf old).health = .healthy

/-- What holds on the way from `w`, once `leaf` has taken the place of the old entry: all
other leaves are as they were, and `leaf` contributes nothing, or these tools. -/
structure Midway (w : Leaves) (a : String) (leaf : LeafEntry) (tools : List Value) (v : Leaves) :
    Prop where
  entry : v.registry.getLeaf a = some leaf
  others : ∀ b, b ≠ a → v.registry.getLeaf b = w.registry.getLeaf b
  cells : ∀ b e, b ≠ a → w.registry.getLeaf b = some e → v.cellsOf e = w.cellsOf e
  catalogue : v.aggregatedTools.Perm
    (nativeTools ++ (v.contribution leaf ++ w.othersContribution a))
  own : v.contribution leaf = [] ∨ v.contribution leaf = tools.filterMap (namespaceTool a)

/-- The leaves right after `add_leaf`. -/
def replaced (w : Leaves) (a : String) (config : ServerConfig) : Leaves where
  registry := w.registry.addLeaf a config
  cells := Function.update w.cells w.registry.next {}

theorem cellsOf_replaced (w : Leaves) (a : String) (config : ServerConfig) :
    (w.replaced a config).cellsOf (w.registry.alloc config) = {} := Function.update_self ..

section

variable {w : Leaves} {obj : McpServer} {old : LeafEntry}

theorem Served.reconcile_eq (h : w.Served obj old) (hfinalizer : finalizer ∈ obj.finalizers)
    (hdeletion : obj.deletionTimestamp = false) (patch : Except String Unit) :
    w.reconcile obj patch
      = (w.replaced obj.aliasName old.config, [w.registry.alloc old.config]) := by
  obtain ⟨transport, htransport, hconfig⟩ := h.config
  have hrun : (crdReconcile obj patch).run Registry.exec w.registry
      = ({ result := .ok (.requeue 300), spawned := [w.registry.alloc old.config] },
          w.registry.addLeaf obj.aliasName old.config) := by
    rw [crdReconcile, hdeletion, if_neg Bool.false_ne_true, if_neg (not_not.mpr hfinalizer),
      htransport, hconfig]
    rfl
  rw [reconcile, hrun]
  rfl

/-- The leaves when the new entry has come to these cells. -/
def renewed (w : Leaves) (a : String) (config : ServerConfig) (cells : LeafCells) : Leaves :=
  (w.replaced a config).withCells (w.registry.alloc config) cells

variable {a : String} {config : ServerConfig} {cells : LeafCells}

theorem getLeaf_renewed (w : Leaves) (a : String) (config : ServerConfig) (cells : LeafCells) :
    (w.renewed a config cells).registry.getLeaf a = some (w.registry.alloc config) :=
  Registry.getLeaf_addLeaf_self ..

theorem cellsOf_renewed (w : Leaves) (a : String) (config : ServerConfig) (cells : LeafCells) :
    (w.renewed a config cells).cellsOf (w.registry.alloc config) = cells :=
  cellsOf_withCells ..

/-- The entries that were there keep their cells. -/
theorem cellsOf_renewed_old (hwf : w.registry.WF) {b : String} {e : LeafEntry}
    (he : w.registry.getLeaf b = some e) : (w.renewed a config cells).cellsOf e = w.cellsOf e := by
  have hne : e.addr ≠ w.registry.next := Nat.ne_of_lt (hwf.fresh b e he)
  rw [renewed, cellsOf_withCells_of_ne _ _ hne]
  exact Function.update_of_ne hne ..

theorem othersContribution_renewed (hwf : w.registry.WF) (halias : config.aliasName = a) :
    (w.renewed a config cells).othersContribution a = w.othersContribution a := by
  have hregistry : (w.renewed a config cells).registry = w.registry.addLeaf a config := rfl
  unfold othersContribution
  rw [hregistry, allLeaves_addLeaf hwf halias]
  refine List.flatMap_congr fun e he => ?_
  obtain ⟨b, hb⟩ := Registry.mem_allLeaves.mp (List.mem_of_mem_filter he)
  unfold contribution isHealthy
  rw [cellsOf_renewed_old hwf hb]

/-- With the health and the tools of the old entry, the new one contributes the same. -/
theorem contribution_renewed (a : String) (hhealth : cells.health = (w.cellsOf old).health)
    (htools : cells.cachedTools = (w.cellsOf old).cachedTools) :
    (w.renewed a old.config cells).contribution (w.registry.alloc old.config)
      = w.contribution old := by
  unfold contribution isHealthy LeafCells.isHealthy
  rw [cellsOf_renewed, hhealth, htools, Registry.alloc_config]

/-- Whatever becomes of the cells of the new entry, the others are as they were. -/
theorem midway_renewed (hwf : w.registry.WF) (halias : config.aliasName = a) {tools : List Value}
    (hcells : NoneOr tools cells) :
    Midway w a (w.registry.alloc config) tools (w.renewed a config cells) where
  entry := getLeaf_renewed w a config cells
  others := fun b hb => Registry.getLeaf_addLeaf_ne _ _ hb
  cells := fun b e _ he => cellsOf_renewed_old hwf he
  catalogue := by
    rw [← othersContribution_renewed hwf halias]
    exact aggregatedTools_perm (hwf.addLeaf halias) (getLeaf_renewed w a config cells)
  own := by
    unfold contribution
    rw [cellsOf_renewed]
    split
    · rcases hcells with hnone | htools
      · exact .inl (by rw [hnone]; rfl)
      · exact .inr (by rw [htools, Registry.alloc_config, halias])
    · exact .inl rfl

end

/--
**Reconciling again.**  The object has the finalizer and is not being deleted, and an earlier
`reconcile` of it is complete.  The next one puts a new entry in the place of the old one,
with the same configuration: right after `add_leaf` its health is unknown and it contributes
no tools.  From then on, after each step of the warm-up, all other leaves are as they were,
and so is what they contribute; the leaf contributes nothing, or the tools it has listed.  If
the leaf answers the handshake, and lists the tools that were cached for it before, its health
and the catalogue are at the end what they were.
-/
theorem reconcile_again (env : ClientEnv) {S : Type} (out : Surroundings S) (s : S)
    (obj : McpServer) (patch : Except String Unit) (w : Leaves) (old : LeafEntry)
    (hwf : w.registry.WF) (hfinalizer : finalizer ∈ obj.finalizers)
    (hdeletion : obj.deletionTimestamp = false) (hserved : w.Served obj old) :
    ∃ leaf, (w.reconcile obj patch).2 = [leaf] ∧ leaf.addr ≠ old.addr ∧
      leaf.config = old.config ∧
      (w.reconcile obj patch).1.healthAt obj.aliasName = some .unknown ∧
      (w.reconcile obj patch).1.contribution leaf = [] ∧
      (∀ v ∈ warming env out s leaf (w.reconcile obj patch).1,
        Midway w obj.aliasName leaf (out.listed env leaf.client s) v) ∧
      ∀ result, (out.handshake env leaf.client s).1 = .ok result →
        out.listing env leaf.client s = .ok (w.cellsOf old).cachedTools →
          (warmed env out s leaf (w.reconcile obj patch).1).healthAt obj.aliasName
              = w.healthAt obj.aliasName ∧
            (warmed env out s leaf (w.reconcile obj patch).1).aggregatedTools.Perm
              w.aggregatedTools := by
  have halias : old.config.aliasName = obj.aliasName := hwf.key _ _ hserved.entry
  have hnew := cellsOf_replaced w obj.aliasName old.config
  have hentry : (w.replaced obj.aliasName old.config).registry.getLeaf obj.aliasName
      = some (w.registry.alloc old.config) := Registry.getLeaf_addLeaf_self ..
  have hkeeps := keeps_crdTask out env (w.registry.alloc old.config).client s
  have hwarmed : warmed env out s (w.registry.alloc old.config)
      (w.replaced obj.aliasName old.config) = w.renewed obj.aliasName old.config
        ((crdTask env (w.registry.alloc old.config).client).run out.exec (s, {})).2.2 := by
    rw [warmed_eq, hnew]
    rfl
  rw [hserved.reconcile_eq hfinalizer hdeletion]
  refine ⟨w.registry.alloc old.config, rfl, ?_, rfl, ?_, ?_, ?_, ?_⟩
  · exact Ne.symm (Nat.ne_of_lt (hwf.fresh _ _ hserved.entry))
  · rw [healthAt, hentry, Option.map_some, hnew]
  · rw [contribution, hnew]
    exact ite_self _
  · intro v hv
    obtain ⟨cells, rfl, hcells⟩ := mem_warming env out s _ hv
    rw [hnew] at hcells
    refine midway_renewed hwf halias ?_
    rcases hcells with rfl | ⟨t, ht⟩
    · exact .inl rfl
    · exact hkeeps.1 (t, cells) ht
  · intro result hinit hlisting
    obtain ⟨hhealth, htools⟩ := run_crdTask out env _ s hinit hlisting
    have hlast := midway_renewed hwf halias hkeeps.2
    rw [hwarmed]
    refine ⟨?_, ?_⟩
    · rw [healthAt, healthAt, hlast.entry, hserved.entry, Option.map_some, Option.map_some,
        cellsOf_renewed, hhealth, hserved.health]
    · refine hlast.catalogue.trans ?_
      rw [contribution_renewed _ (hhealth.trans hserved.health.symm) htools]
      exact (aggregatedTools_perm hwf hserved.entry).symm

end Leaves

/-! ### A leaf that is reconciled twice -/

/-- What a leaf with fixed replies and a clock are to a task. -/
def LeafBehaviour.surroundings (leaf : LeafBehaviour) : Surroundings (ClientCells × Nat) where
  client := fun c s => ((leaf.execClient c s.1).1, (leaf.execClient c s.1).2, s.2)
  getOk := fun _ s => (leaf.healthz, s)
  now := fun s => (s.2, s.1, s.2 + 1)

def docsObject : McpServer where
  «namespace» := "mcp"
  name := "docs"
  finalizers := [finalizer]
  spec := { url := "http://docs/mcp" }

/-- The entry that the controller makes for it in an empty registry. -/
def docsEntry : LeafEntry := ⟨0, crdServerConfig docsObject .httpPost⟩

/-- The leaves after the first `reconcile` of the object and its warm-up.  The leaf has one
tool. -/
def docsServed : Leaves :=
  Leaves.warmed (resultEnv oneToolResult) answering.surroundings ({}, 0) docsEntry
    (Leaves.reconcile ⟨Registry.empty, fun _ => {}⟩ docsObject (.ok ())).1

theorem docsServed_wf : docsServed.registry.WF := Registry.wf_empty.addLeaf rfl

theorem docsServed_served : docsServed.Served docsObject docsEntry where
  entry := rfl
  config := ⟨.httpPost, rfl, rfl⟩
  health := rfl

/-- It is reconciled again, and answers as before. -/
theorem docs_reconciled_again :
    ∃ leaf, (docsServed.reconcile docsObject (.ok ())).2 = [leaf] ∧
      (Leaves.warmed (resultEnv oneToolResult) answering.surroundings ({}, 0) leaf
        (docsServed.reconcile docsObject (.ok ())).1).aggregatedTools.Perm
          docsServed.aggregatedTools := by
  obtain ⟨leaf, hleaf, -, hconfig, -, -, -, hlast⟩ :=
    Leaves.reconcile_again (resultEnv oneToolResult) answering.surroundings ({}, 0) docsObject
      (.ok ()) docsServed docsEntry docsServed_wf (by decide) rfl docsServed_served
  obtain rfl : leaf = ⟨1, docsEntry.config⟩ := (List.singleton_inj.mp hleaf).symm
  exact ⟨_, hleaf, (hlast _ rfl rfl).2⟩

/-- In between, its tool is gone and its health is unknown. -/
theorem docs_tool_vanishes :
    docsServed.aggregatedTools.length = 6 ∧
      docsServed.healthAt docsObject.aliasName = some .healthy ∧
      (docsServed.reconcile docsObject (.ok ())).1.aggregatedTools.length = 5 ∧
      (docsServed.reconcile docsObject (.ok ())).1.healthAt docsObject.aliasName
        = some .unknown ∧
      ¬ ∀ (obj : McpServer) (patch : Except String Unit) (w : Leaves) (old : LeafEntry),
        w.registry.WF → finalizer ∈ obj.finalizers → obj.deletionTimestamp = false →
        w.Served obj old → ∀ (env : ClientEnv) (S : Type) (out : Surroundings S) (s : S),
        ∀ leaf ∈ (w.reconcile obj patch).2,
        ∀ v ∈ Leaves.warming env out s leaf (w.reconcile obj patch).1,
          v.aggregatedTools.Perm w.aggregatedTools ∧
            v.healthAt obj.aliasName = w.healthAt obj.aliasName := by
  refine ⟨rfl, rfl, rfl, rfl, fun hall => ?_⟩
  obtain ⟨-, hhealth⟩ := hall docsObject (.ok ()) docsServed docsEntry docsServed_wf (by decide) rfl
    docsServed_served (resultEnv oneToolResult) _ answering.surroundings ({}, 0)
    ⟨1, docsEntry.config⟩ List.mem_cons_self _ List.mem_cons_self
  cases hhealth

end McpFederation
