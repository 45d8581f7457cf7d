/-
Two federations that are leaves of each other.

Nothing in `refresh_tools` or `aggregated_tools` looks at where a tool comes from.  So when
two federations list each other, each refresh of one puts the other's whole catalogue into
its own, the other's copy of its own catalogue included.  `catalogues_grow` says what comes
of it: whatever the order in which the two refresh, every round in which both do leaves both
catalogues longer than the round before, by the native tools of one more federation at least.
-/
import McpFederation.Proofs.Mirror

namespace McpFederation

/-! ### The pair -/

/-- What stays the same while the two run: each side's own surroundings, the entry it has for
the other, and the context in which the other lets it in. -/
structure Mutual where
  cenv : ClientEnv
  host : Bool → Host
  leaf : Bool → LeafEntry
  ctx : Bool → RequestContext
  clock : Bool → SoleClient Hosted → Nat

/-- The two federations, and what each one's client holds of a session with the other. -/
structure Pair where
  hosted : Bool → Hosted
  session : Bool → Option String
  nextId : Bool → UInt64

namespace Pair

/-- The catalogue of one side. -/
def leaves (p : Pair) (i : Bool) : Leaves := (p.hosted i).state.leaves

/-- What the side `i` has to do with the other. -/
def client (p : Pair) (i : Bool) : SoleClient Hosted := ⟨p.session i, p.nextId i, p.hosted !i⟩

/-- The number of tools that the side `i` publishes. -/
def tools (p : Pair) (i : Bool) : Nat := (p.leaves i).aggregatedTools.length

end Pair

namespace Mutual

variable (m : Mutual)

/-- The side `i` refreshes its tools from the other. -/
def refresh (p : Pair) (i : Bool) : Pair :=
  let ran := (refreshTask m.cenv (m.leaf i).client).run ((m.host !i).around (m.clock i)).exec
    (p.client i, (p.leaves i).cellsOf (m.leaf i))
  { hosted := fun j =>
      if j = i then
        { p.hosted i with
          state :=
            { (p.hosted i).state with
              leaves := (p.leaves i).updateCells (m.leaf i) fun _ => ran.2.2 } }
      else ran.2.1.leaf
    session := Function.update p.session i ran.2.1.session
    nextId := Function.update p.nextId i ran.2.1.nextId }

/-- Each side is open to the other and holds it for a healthy leaf. -/
structure Joined (p : Pair) (i : Bool) : Prop where
  unrestricted : (p.hosted i).state.Open
  sendable : Sendable (p.session i)
  exact : (p.leaves i).Exact
  registered : ∃ a, (p.leaves i).registry.getLeaf a = some (m.leaf i)
  healthy : (p.leaves i).isHealthy (m.leaf i) = true

/-- During a refresh the other side's clock moves by less than a TTL. -/
def InTime (p : Pair) (i : Bool) : Prop :=
  (m.host !i).Issues (p.hosted !i).state.sessions (p.hosted !i).exchanges
    ((p.hosted !i).exchanges + 3)

/-- Each side lets the other see everything. -/
structure Mutually : Prop where
  welcomes : ∀ i, (m.host !i).Welcomes m.cenv (m.leaf i).client (m.ctx i)
  unlisted : ∀ i, (m.ctx i).allowedServers = none

end Mutual

/-! ### One refresh -/

theorem Host.Welcomes.run_refreshTask {host : Host} {cenv : ClientEnv} {cl : LeafClient}
    {ctx : RequestContext} {s : SoleClient Hosted} (h : host.Welcomes cenv cl ctx)
    (hopen : s.leaf.state.Open) (hsend : Sendable s.session)
    (hissues : host.Issues s.leaf.state.sessions s.leaf.exchanges (s.leaf.exchanges + 3))
    (hexact : s.leaf.state.leaves.Exact) (clock : SoleClient Hosted → Nat) (cells : LeafCells) :
    ∃ s', (refreshTask cenv cl).run (host.around clock).exec (s, cells)
        = (.ok (visibleTools ctx s.leaf.state.leaves.aggregatedTools).length, s',
            cells.setTools (clock s') (visibleTools ctx s.leaf.state.leaves.aggregatedTools)) ∧
      Visited s s' 4 := by
  obtain ⟨s', hlist, hvisited⟩ := h.run_listItems hopen hsend hissues hexact .tool
  refine ⟨s', ?_, hvisited⟩
  have hask : (LeafM.ask (cl.listTools cenv)).run (host.around clock).exec (s, cells)
      = (.ok (visibleTools ctx s.leaf.state.leaves.aggregatedTools), s', cells) := by
    rw [(host.around clock).run_ask]
    show ((Prog.run (SoleClient.exec host.answer) _ s).1,
      (Prog.run (SoleClient.exec host.answer) _ s).2, cells) = _
    rw [show (cl.listTools cenv).run.run (SoleClient.exec host.answer) s = _ from hlist]
    rfl
  unfold refreshTask
  rw [Prog.run_bind, hask]
  rfl

/-- A healthy leaf whose items all have names brings all of them into the catalogue. -/
theorem Leaves.length_aggregatedTools {w : Leaves} {leaf : LeafEntry}
    (h : leaf ∈ w.healthyLeaves)
    (hnamed : ∀ item ∈ (w.cellsOf leaf).cachedTools,
      (namespaceTool leaf.config.aliasName item).isSome = true) :
    5 + (w.cellsOf leaf).cachedTools.length ≤ w.aggregatedTools.length := by
  obtain ⟨before, after, hsplit⟩ := List.append_of_mem h
  have hall := forall₂_filterMap hnamed
  have hnative : nativeTools.length = 5 := rfl
  unfold Leaves.aggregatedTools Leaves.aggregated
  rw [hsplit, List.length_append, List.flatMap_append, List.flatMap_cons, List.length_append,
    List.length_append, ← hall.length_eq, hnative]
  omega

section

variable {m : Mutual} {p : Pair}

/-- The pair after a refresh of the side `i`. -/
structure Refreshed (m : Mutual) (p p' : Pair) (i : Bool) : Prop where
  own : ∃ t, p'.hosted i =
    { p.hosted i with
      state :=
        { (p.hosted i).state with
          leaves := (p.leaves i).updateCells (m.leaf i)
            (LeafCells.setTools t (p.leaves !i).aggregatedTools) } }
  other : p'.leaves (!i) = p.leaves !i
  unrestricted : (p'.hosted !i).state.Open
  sendable : Sendable (p'.session i)
  session : p'.session (!i) = p.session !i

theorem Mutual.refreshed (h : m.Mutually) (hjoined : ∀ i, m.Joined p i) (i : Bool)
    (htime : m.InTime p i) : Refreshed m p (m.refresh p i) i := by
  have hother := hjoined !i
  obtain ⟨s', hrun, hkept⟩ := (h.welcomes i).run_refreshTask (s := p.client i)
    hother.unrestricted (hjoined i).sendable htime hother.exact (m.clock i)
    ((p.leaves i).cellsOf (m.leaf i))
  have hvisible : visibleTools (m.ctx i) (p.client i).leaf.state.leaves.aggregatedTools
      = (p.leaves !i).aggregatedTools := by
    rw [visibleTools, h.unlisted i]
    rfl
  rw [hvisible] at hrun
  have hne : (!i) ≠ i := by cases i <;> decide
  have hrefresh : m.refresh p i
      = { hosted := fun j =>
            if j = i then
              { p.hosted i with
                state :=
                  { (p.hosted i).state with
                    leaves := (p.leaves i).updateCells (m.leaf i)
                      (LeafCells.setTools (m.clock i s') (p.leaves !i).aggregatedTools) } }
            else s'.leaf
          session := Function.update p.session i s'.session
          nextId := Function.update p.nextId i s'.nextId } := by
    unfold Mutual.refresh
    rw [hrun]
    rfl
  rw [hrefresh]
  refine ⟨⟨m.clock i s', if_pos rfl⟩, ?_, ?_, ?_, ?_⟩
  · show (if (!i) = i then _ else s'.leaf : Hosted).state.leaves = _
    rw [if_neg hne]
    exact hkept.leaves
  · show (if (!i) = i then _ else s'.leaf : Hosted).state.Open
    rw [if_neg hne]
    exact hkept.unrestricted
  · show Sendable (Function.update p.session i s'.session i)
    rw [Function.update_self]
    exact hkept.sendable
  · exact Function.update_of_ne hne _ _

section

variable {p' : Pair} {i : Bool} (hr : Refreshed m p p' i)
include hr

theorem Refreshed.leaves_eq :
    ∃ t, p'.leaves i = (p.leaves i).updateCells (m.leaf i)
      (LeafCells.setTools t (p.leaves !i).aggregatedTools) := by
  obtain ⟨t, ht⟩ := hr.own
  refine ⟨t, ?_⟩
  unfold Pair.leaves
  rw [ht]
  rfl

/-- The catalogue that was fetched is now the leaf's cache, and the leaf is no less healthy. -/
theorem Refreshed.cells :
    ((p'.leaves i).cellsOf (m.leaf i)).cachedTools = (p.leaves !i).aggregatedTools ∧
      (p'.leaves i).isHealthy (m.leaf i) = (p.leaves i).isHealthy (m.leaf i) := by
  obtain ⟨t, ht⟩ := hr.leaves_eq
  rw [ht]
  unfold Leaves.isHealthy
  simp only [Leaves.cellsOf, Leaves.updateCells, Function.update_self]
  exact ⟨rfl, rfl⟩

/-- Exact catalogues stay exact. -/
theorem Refreshed.exact (hown : (p.leaves i).Exact) (hother : (p.leaves !i).Exact) :
    (p'.leaves i).Exact := by
  obtain ⟨t, ht⟩ := hr.leaves_eq
  intro leaf kind item hitem
  rw [ht] at hitem
  by_cases haddr : leaf.addr = (m.leaf i).addr
  · have hcells : ((p.leaves i).updateCells (m.leaf i)
        (LeafCells.setTools t (p.leaves !i).aggregatedTools)).cellsOf leaf
        = LeafCells.setTools t (p.leaves !i).aggregatedTools
            ((p.leaves i).cellsOf (m.leaf i)) := by
      simp only [Leaves.cellsOf, Leaves.updateCells, haddr, Function.update_self]
    rw [hcells] at hitem
    cases kind with
    | tool => exact hother.catalogue .tool item hitem
    | resource => exact hown (m.leaf i) .resource item hitem
    | prompt => exact hown (m.leaf i) .prompt item hitem
  · have hcells : ((p.leaves i).updateCells (m.leaf i)
        (LeafCells.setTools t (p.leaves !i).aggregatedTools)).cellsOf leaf
        = (p.leaves i).cellsOf leaf := by
      simp only [Leaves.cellsOf, Leaves.updateCells, Function.update_of_ne haddr]
    rw [hcells] at hitem
    exact hown leaf kind item hitem

/-- A refresh keeps the two joined. -/
theorem Refreshed.joined (hjoined : ∀ j, m.Joined p j) : ∀ j, m.Joined p' j := by
  intro j
  obtain ⟨t, ht⟩ := hr.leaves_eq
  by_cases hj : j = i
  · subst hj
    refine ⟨?_, hr.sendable, hr.exact (hjoined j).exact (hjoined !j).exact, ?_, ?_⟩
    · obtain ⟨t, ht⟩ := hr.own
      rw [ht]
      exact ⟨(hjoined j).unrestricted.origins, (hjoined j).unrestricted.unlimited⟩
    · rw [ht]
      exact (hjoined j).registered
    · rw [hr.cells.2]
      exact (hjoined j).healthy
  · obtain rfl : j = !i := Bool.eq_not.mpr hj
    refine ⟨hr.unrestricted, ?_, ?_, ?_, ?_⟩
    · rw [hr.session]
      exact (hjoined !i).sendable
    · rw [hr.other]
      exact (hjoined !i).exact
    · rw [hr.other]
      exact (hjoined !i).registered
    · rw [hr.other]
      exact (hjoined !i).healthy

/-- The side that refreshes gets the other's catalogue on top of its native tools. -/
theorem Refreshed.tools (hjoined : ∀ j, m.Joined p j) :
    5 + p.tools (!i) ≤ p'.tools i ∧ p'.tools (!i) = p.tools !i := by
  refine ⟨?_, ?_⟩
  · have hnext := hr.joined hjoined i
    have hlength := Leaves.length_aggregatedTools
      (mem_healthyLeaves.mpr ⟨hnext.registered, hnext.healthy⟩) fun item hitem => by
        rw [hr.cells.1] at hitem
        have hpublished : item ∈ ItemKind.tool.catalogue (p.leaves !i) := hitem
        exact isSome_publish hpublished
    rw [hr.cells.1] at hlength
    exact hlength
  · unfold Pair.tools
    rw [hr.other]

end

end

/-! ### Rounds -/

section

variable {m : Mutual}

/-- Once both catalogues have `k` tools they never have fewer, and a side that has refreshed
since then has five more. -/
theorem Mutual.tools_run (h : m.Mutually) {k : Nat} (schedule : List Bool) :
    ∀ {p : Pair} (fresh : Bool → Prop), (∀ i, m.Joined p i) → (∀ i, k ≤ p.tools i) →
      (∀ i, fresh i → 5 + k ≤ p.tools i) → Runs.Along m.refresh m.InTime p schedule →
      (∀ i, m.Joined (Runs.run m.refresh p schedule) i) ∧
        (∀ i, k ≤ (Runs.run m.refresh p schedule).tools i) ∧
        ∀ i, fresh i ∨ i ∈ schedule → 5 + k ≤ (Runs.run m.refresh p schedule).tools i := by
  induction schedule with
  | nil =>
      intro p fresh hjoined hk hfresh _
      refine ⟨hjoined, hk, fun i hi => hfresh i (hi.resolve_right List.not_mem_nil)⟩
  | cons j rest ih =>
      intro p fresh hjoined hk hfresh htime
      have hr := m.refreshed h hjoined j htime.1
      obtain ⟨hown, hother⟩ := hr.tools hjoined
      have hfive : 5 + k ≤ (m.refresh p j).tools j := by
        have := hk !j
        omega
      have hall : ∀ i, k ≤ (m.refresh p j).tools i ∧
          (fresh i ∨ i = j → 5 + k ≤ (m.refresh p j).tools i) := by
        intro i
        by_cases hi : i = j
        · subst hi
          exact ⟨by omega, fun _ => hfive⟩
        · obtain rfl : i = !j := Bool.eq_not.mpr hi
          rw [hother]
          exact ⟨hk _, fun hfr => hfresh _ (hfr.resolve_right hi)⟩
      obtain ⟨hj, hk', hfr⟩ := ih (fun i => fresh i ∨ i = j) (hr.joined hjoined)
        (fun i => (hall i).1) (fun i => (hall i).2) htime.2
      refine ⟨hj, hk', fun i hi => hfr i ?_⟩
      rcases hi with hi | hi
      · exact Or.inl (Or.inl hi)
      · rcases List.mem_cons.mp hi with hi | hi
        · exact Or.inl (Or.inr hi)
        · exact Or.inr hi

/--
**Two federations that list each other never come to rest.**  In whatever order they refresh,
after `n` rounds in each of which both have, each publishes at least `5 * n` tools more than the
shorter catalogue had at the start.
-/
theorem catalogues_grow (h : m.Mutually) (p : Pair) (hjoined : ∀ i, m.Joined p i)
    (rounds : List (List Bool)) (hboth : ∀ round ∈ rounds, ∀ i, i ∈ round)
    (htime : Runs.Along m.refresh m.InTime p rounds.flatten) (i : Bool) :
    5 * rounds.length + min (p.tools false) (p.tools true)
      ≤ (Runs.run m.refresh p rounds.flatten).tools i := by
  have key : ∀ (rounds : List (List Bool)) (p : Pair) (k : Nat), (∀ i, m.Joined p i) →
      (∀ i, k ≤ p.tools i) → (∀ round ∈ rounds, ∀ i, i ∈ round) →
      Runs.Along m.refresh m.InTime p rounds.flatten →
      5 * rounds.length + k ≤ (Runs.run m.refresh p rounds.flatten).tools i := by
    intro rounds
    induction rounds with
    | nil =>
        intro p k _ hk _ _
        rw [List.length_nil, Nat.mul_zero, Nat.zero_add]
        exact hk i
    | cons round rest ih =>
        intro p k hjoined hk hboth htime
        rw [List.flatten_cons] at htime ⊢
        obtain ⟨hround, hrest⟩ := Runs.along_append.mp htime
        obtain ⟨hjoined', -, hfive⟩ := m.tools_run h round (fun _ => False) hjoined hk
          (fun _ hfalse => hfalse.elim) hround
        have hmore := ih _ (5 + k) hjoined'
          (fun j => hfive j (Or.inr (hboth round List.mem_cons_self j)))
          (fun round' hround' => hboth round' (List.mem_cons_of_mem _ hround')) hrest
        rw [Runs.run_append, List.length_cons]
        omega
  refine key rounds p _ hjoined (fun j => ?_) hboth htime
  cases j with
  | false => exact min_le_left _ _
  | true => exact min_le_right _ _

end

/-! ### Two federations without other leaves -/

def sideName (i : Bool) : String := if i then "west" else "east"

/-- The sides `east` and `west`, each with an entry for the other. -/
def eastWest : Mutual where
  cenv := compactEnv
  host := fun _ => freeHost offline
  leaf := fun i => ⟨0,
    { aliasName := sideName i, url := "http://leaf/mcp", transport := .streamableHttp }⟩
  ctx := fun _ => .anonymous
  clock := fun _ _ => 0

/-- Both have just started. -/
def eastWestStarted : Pair where
  hosted := fun i => restarted (leafOnly (sideName i) {}) [0] 0
  session := fun _ => none
  nextId := fun _ => 1

theorem eastWest_mutually : eastWest.Mutually where
  welcomes := fun _ => freeHost_welcomes offline rfl
  unlisted := fun _ => rfl

theorem eastWest_joined (i : Bool) : eastWest.Joined eastWestStarted i where
  unrestricted := ⟨rfl, rfl⟩
  sendable := fun id hid => by cases hid
  exact := fun leaf kind item hitem => by cases kind <;> cases hitem
  registered := ⟨sideName i, AList.lookup_insert _⟩
  healthy := rfl

/-- One round, and each has five more. -/
theorem eastWest_grow :
    5 * 1 + min (eastWestStarted.tools false) (eastWestStarted.tools true)
      ≤ (Runs.run eastWest.refresh eastWestStarted [false, true]).tools true := by
  refine catalogues_grow eastWest_mutually eastWestStarted eastWest_joined [[false, true]] ?_ ?_ _
  · intro round hround j
    obtain rfl := List.mem_singleton.mp hround
    cases j <;> decide
  · exact ⟨freeHost_issues offline rfl _ _, freeHost_issues offline rfl _ _, trivial⟩

end McpFederation
