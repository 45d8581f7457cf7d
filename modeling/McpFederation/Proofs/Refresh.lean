/-
A refresh that fails, and what it leaves behind.

Four things refresh the tools of a leaf: `refresh_tools`, `refresh_all_tools`, the task
`aggregated_tools` spawns for a stale leaf, and the monitor when it finds the leaf up
again.  All four ask `list_tools` and store what it gives.  A reply that is not a success
with a `tools` array should leave the cache as it was.

It does when the failure is in the transport, the status or the reading of the body: then
`list_tools` is an error and nothing is stored.  It does not when the failure is inside a
body that arrived.  `list_tools` looks for `result.tools` only, and takes whatever is not
there for an empty list; it has no eye for the `error` member that `call_tool` checks.
`intact_iff` says that this is all there is to it.
-/
import McpFederation.Model.Router
import McpFederation.Proofs.Replies

namespace McpFederation

/-! ### Running alone -/

/-- What a task has around it: how the client's calls, the health endpoint and the clock
answer. -/
structure Surroundings (S : Type) where
  client : (c : ClientCall) → S → c.Reply × S
  getOk : String → S → Except String Unit × S
  now : S → Nat × S

/-- A task running alone on the cells of its entry. -/
def Surroundings.exec {S : Type} (out : Surroundings S) :
    (c : LeafCall) → S × LeafCells → c.Reply × (S × LeafCells)
  | .client c, w => ((out.client c w.1).1, ((out.client c w.1).2, w.2))
  | .getOk url, w => ((out.getOk url w.1).1, ((out.getOk url w.1).2, w.2))
  | .now, w => ((out.now w.1).1, ((out.now w.1).2, w.2))
  | .readCells, w => (w.2, w)
  | .updateCells f, w => (f w.2, (w.1, f w.2))

section

variable {S α : Type}

/-- Client code in a task does what it does alone. -/
theorem Surroundings.run_ask (out : Surroundings S) (p : ClientM α) (w : S × LeafCells) :
    (LeafM.ask p).run out.exec w
      = ((p.run.run out.client w.1).1, (p.run.run out.client w.1).2, w.2) :=
  Prog.run_interp out.client out.exec (fun c => Prog.perform (LeafCall.client c)) Prod.fst
    (fun w s => (s, w.2)) (fun _ _ => rfl) (fun _ => rfl) (fun _ _ _ => rfl) (fun _ _ => rfl)
    p.run w

/-- The reply to `tools/list` in a run of client code. -/
def ClientM.toolsReply (answer : (c : ClientCall) → S → c.Reply × S) (p : ClientM α) (s : S) :
    Option PostReply :=
  (p.run.trace answer s).foldl (fun last e => e.1.listing e.2 last) none

/-- The reply to `tools/list` in a run of a task. -/
def LeafM.toolsReply (out : Surroundings S) (p : LeafM α) (s : S) (cells : LeafCells) :
    Option PostReply :=
  (p.trace out.exec (s, cells)).foldl (fun last e => e.1.listing e.2 last) none

/-- The progress of a task that runs alone is the reply it got and the cells it left. -/
theorem progress_trace (out : Surroundings S) (p : LeafM α) :
    ∀ (s : S) (cells : LeafCells) (last : Option PostReply),
      (p.trace out.exec (s, cells)).foldl (fun g e => e.1.progress e.2 g) ⟨last, cells⟩
        = ⟨(p.trace out.exec (s, cells)).foldl (fun last e => e.1.listing e.2 last) last,
            (p.run out.exec (s, cells)).2.2⟩ := by
  induction p with
  | ret a => intro s cells last; rfl
  | call c k ih =>
      intro s cells last
      cases c with
      | client c => exact ih _ _ _ _
      | getOk url => exact ih _ _ _ _
      | now => exact ih _ _ _ _
      | readCells => exact ih _ _ _ _
      | updateCells f => exact ih _ _ _ _

theorem LeafM.Ends.run {env : ClientEnv} {p : LeafM α} {T : Progress → α → Prop}
    {cells : LeafCells} (hp : p.Ends env T ⟨none, cells⟩) (out : Surroundings S) (s : S) :
    T ⟨p.toolsReply out s cells, (p.run out.exec (s, cells)).2.2⟩
      (p.run out.exec (s, cells)).1 := by
  have hrun := Prog.Outline.run out.exec hp (s, cells)
  rw [progress_trace] at hrun
  exact hrun

theorem toOption_listTools (env : ClientEnv) (cl : LeafClient)
    (answer : (c : ClientCall) → S → c.Reply × S) (s : S) :
    ((cl.listTools env).run.run answer s).1.toOption
      = ((cl.listTools env).toolsReply answer s).bind (PostReply.toolsRead env) :=
  Prog.Outline.run answer (LeafClient.ends_listTools env cl none) s

end

/-! ### On demand -/

/-- The handlers' view of leaves that answer their clients by `answer`. -/
def ServerEnv.over {S : Type} (env : ServerEnv)
    (answer : LeafEntry → (c : ClientCall) → S → c.Reply × S) (s : LeafEntry → S) : ServerEnv :=
  { env with net := ⟨fun _ leaf p => (p.run.run (answer leaf) (s leaf)).1⟩ }

namespace Leaves

variable (env : ServerEnv)

/-- The cells of a leaf after its refresh. -/
def refreshedCells (leaf : LeafEntry) (cells : LeafCells) : LeafCells :=
  match env.net.ask (List Value) leaf (leaf.client.listTools env.client) with
  | .error _ => cells
  | .ok tools => cells.setTools env.now tools

theorem cellsOf_refreshLeaf (w : Leaves) (leaf : LeafEntry) :
    (w.refreshLeaf env leaf).2.cellsOf leaf = refreshedCells env leaf (w.cellsOf leaf) := by
  unfold refreshLeaf refreshedCells
  cases env.net.ask (List Value) leaf (leaf.client.listTools env.client) with
  | error e => rfl
  | ok tools => exact Function.update_self ..

theorem cellsOf_refreshLeaf_of_ne (w : Leaves) {leaf other : LeafEntry}
    (h : leaf.addr ≠ other.addr) : (w.refreshLeaf env other).2.cellsOf leaf = w.cellsOf leaf := by
  unfold refreshLeaf
  split
  · rfl
  · exact Function.update_of_ne h ..

theorem cellsOf_refreshAllTools_of_ne {leaf : LeafEntry} (entries : List LeafEntry)
    (h : ∀ e ∈ entries, leaf.addr ≠ e.addr) :
    ∀ w : Leaves, (refreshAllTools env entries w).2.cellsOf leaf = w.cellsOf leaf := by
  induction entries with
  | nil => intro w; rfl
  | cons e rest ih =>
      intro w
      show (refreshAllTools env rest (w.refreshLeaf env e).2).2.cellsOf leaf = _
      rw [ih fun e' he' => h e' (List.mem_cons_of_mem _ he')]
      exact cellsOf_refreshLeaf_of_ne env w (h e List.mem_cons_self)

/-- Each leaf is refreshed once, and by its own refresh. -/
theorem cellsOf_refreshAllTools {leaf : LeafEntry} (entries : List LeafEntry)
    (hmem : leaf ∈ entries) (hnodup : entries.Nodup)
    (hne : ∀ e ∈ entries, leaf ≠ e → leaf.addr ≠ e.addr) :
    ∀ w : Leaves, (refreshAllTools env entries w).2.cellsOf leaf
      = refreshedCells env leaf (w.cellsOf leaf) := by
  induction entries with
  | nil => cases hmem
  | cons e rest ih =>
      intro w
      obtain ⟨hnotmem, hnodup⟩ := List.nodup_cons.mp hnodup
      have hrest : ∀ e' ∈ rest, leaf ≠ e' → leaf.addr ≠ e'.addr := fun e' he' =>
        hne e' (List.mem_cons_of_mem _ he')
      show (refreshAllTools env rest (w.refreshLeaf env e).2).2.cellsOf leaf = _
      by_cases he : leaf = e
      · subst he
        rw [cellsOf_refreshAllTools_of_ne env rest, cellsOf_refreshLeaf]
        intro e' he'
        refine hrest e' he' ?_
        intro heq
        exact hnotmem (heq ▸ he')
      · have hmem' : leaf ∈ rest := (List.mem_cons.mp hmem).resolve_left he
        rw [ih hmem' hnodup hrest, cellsOf_refreshLeaf_of_ne env w (hne e List.mem_cons_self he)]

end Leaves

/-! ### The cache after a failure -/

/-- The tools of a success are cached, and any other reply leaves the cache as it was. -/
def Settled (env : ClientEnv) (reply : PostReply) (before after : LeafCells) : Prop :=
  match reply.toolsListed env with
  | none => before.SameTools after
  | some tools => after.cachedTools = tools

/-- Whoever asks: a reply of this leaf to `tools/list` is settled, and `refresh_tools`
reports an error unless it is a success with a `tools` array. -/
structure Intact (env : ServerEnv) (leaf : LeafEntry) (reply : PostReply) : Prop where
  refreshTools : ∀ (S : Type) (answer : LeafEntry → (c : ClientCall) → S → c.Reply × S)
    (s : LeafEntry → S) (w : Leaves) (a : String), w.registry.getLeaf a = some leaf →
    (leaf.client.listTools env.client).toolsReply (answer leaf) (s leaf) = some reply →
      Settled env.client reply (w.cellsOf leaf)
          ((w.refreshTools (env.over answer s) a).2.cellsOf leaf) ∧
        (reply.toolsListed env.client = none →
          ∃ e, (w.refreshTools (env.over answer s) a).1 = .error e)
  refreshAllTools : ∀ (S : Type) (answer : LeafEntry → (c : ClientCall) → S → c.Reply × S)
    (s : LeafEntry → S) (w : Leaves), w.registry.WF → leaf ∈ w.registry.allLeaves →
    (leaf.client.listTools env.client).toolsReply (answer leaf) (s leaf) = some reply →
      Settled env.client reply (w.cellsOf leaf)
        ((Leaves.refreshAllTools (env.over answer s) w.registry.allLeaves w).2.cellsOf leaf)
  background : ∀ (S : Type) (out : Surroundings S) (s : S) (cells : LeafCells),
    (backgroundRefresh env.client leaf.client).toolsReply out s cells = some reply →
      Settled env.client reply cells
        ((backgroundRefresh env.client leaf.client).run out.exec (s, cells)).2.2
  recovery : ∀ (S : Type) (out : Surroundings S) (s : S) (cells : LeafCells)
    (config : HealthCheckConfig),
    (monitorRound env.client leaf.client config).toolsReply out s cells = some reply →
      Settled env.client reply cells
        ((monitorRound env.client leaf.client config).run out.exec (s, cells)).2.2

section

variable {env : ServerEnv} {leaf : LeafEntry} {reply : PostReply}

/-- What a task leaves is settled, if its reply was read for what it says. -/
theorem Progress.Follows.settled {env : ClientEnv} {before after : LeafCells}
    (h : Progress.Follows env before ⟨some reply, after⟩) (hreply : ¬ reply.Blank env) :
    Settled env reply before after := by
  unfold Follows at h
  unfold Settled
  rw [← PostReply.toolsRead_eq_toolsListed hreply]
  exact h

theorem settled_refreshedCells (hreply : ¬ reply.Blank env.client) {S : Type}
    {answer : LeafEntry → (c : ClientCall) → S → c.Reply × S} {s : LeafEntry → S}
    (h : (leaf.client.listTools env.client).toolsReply (answer leaf) (s leaf) = some reply)
    (cells : LeafCells) :
    Settled env.client reply cells (Leaves.refreshedCells (env.over answer s) leaf cells) := by
  have hread := toOption_listTools env.client leaf.client (answer leaf) (s leaf)
  rw [h] at hread
  refine Progress.Follows.settled ?_ hreply
  unfold Progress.Follows
  rw [← hread]
  unfold Leaves.refreshedCells ServerEnv.over
  dsimp only
  cases ((leaf.client.listTools env.client).run.run (answer leaf) (s leaf)).1 with
  | error e => exact ⟨rfl, rfl⟩
  | ok tools => rfl

/-- What `refresh_tools` reports, by the reply it got. -/
theorem toOption_refreshTools {S : Type}
    (answer : LeafEntry → (c : ClientCall) → S → c.Reply × S) (s : LeafEntry → S) {w : Leaves}
    {a : String} (ha : w.registry.getLeaf a = some leaf)
    (h : (leaf.client.listTools env.client).toolsReply (answer leaf) (s leaf) = some reply) :
    (w.refreshTools (env.over answer s) a).1.toOption
      = (reply.toolsRead env.client).map List.length := by
  have hread := toOption_listTools env.client leaf.client (answer leaf) (s leaf)
  rw [h] at hread
  have hbind : (some reply).bind (PostReply.toolsRead env.client)
      = reply.toolsRead env.client := rfl
  rw [← hbind, ← hread]
  unfold Leaves.refreshTools
  rw [ha]
  unfold Leaves.refreshLeaf ServerEnv.over
  dsimp only
  cases ((leaf.client.listTools env.client).run.run (answer leaf) (s leaf)).1 with
  | error e => rfl
  | ok tools => rfl

theorem intact_of_not_blank (hreply : ¬ reply.Blank env.client) : Intact env leaf reply where
  refreshTools := by
    intro S answer s w a ha h
    refine ⟨?_, ?_⟩
    · have hcells := settled_refreshedCells hreply h (w.cellsOf leaf)
      rw [← Leaves.cellsOf_refreshLeaf] at hcells
      unfold Leaves.refreshTools
      rw [ha]
      exact hcells
    · intro hnone
      have hreport := toOption_refreshTools answer s ha h
      rw [PostReply.toolsRead_eq_toolsListed hreply, hnone] at hreport
      cases hresult : (w.refreshTools (env.over answer s) a).1 with
      | error e => exact ⟨e, rfl⟩
      | ok n =>
          rw [hresult] at hreport
          cases hreport
  refreshAllTools := by
    intro S answer s w hwf hmem h
    rw [Leaves.cellsOf_refreshAllTools (env.over answer s) w.registry.allLeaves hmem
      hwf.nodup_allLeaves fun e he hne => hwf.addr_ne hmem he hne]
    exact settled_refreshedCells hreply h (w.cellsOf leaf)
  background := by
    intro S out s cells h
    have hfollows := (ends_fetchTools env.client leaf.client ⟨none, cells⟩).run out s
    unfold backgroundRefresh at h ⊢
    rw [h] at hfollows
    exact hfollows.settled hreply
  recovery := by
    intro S out s cells config h
    have hfollows := (ends_monitorRound env.client leaf.client config cells).run out s
    rw [h] at hfollows
    exact hfollows.settled hreply

/-! #### A reply that is blank -/

/-- A leaf with one reply for everything. -/
def LeafBehaviour.constant (reply : PostReply) : LeafBehaviour where
  reply := fun _ => reply

theorem toolsReply_constant {α : Type} (p : ClientM α) (reply : PostReply) (s : ClientCells) :
    p.toolsReply (LeafBehaviour.constant reply).execClient s = none ∨
      p.toolsReply (LeafBehaviour.constant reply).execClient s = some reply := by
  refine Prog.trace_inv _ (I := fun last => last = none ∨ last = some reply) ?_ p.run s none
    (Or.inl rfl)
  intro c s last h
  cases c with
  | post p =>
      unfold ClientCall.listing
      dsimp only
      split
      · exact Or.inr rfl
      · exact h
  | nextRequestId => exact h
  | readSession => exact h
  | writeSession id => exact h

theorem toOption_answer_constant (env : ClientEnv) (cl : LeafClient) (reply : PostReply)
    (method : String) :
    ((LeafBehaviour.constant reply).answer env cl method).toOption = reply.parsed env := by
  unfold LeafBehaviour.answer LeafBehaviour.constant PostReply.parsed
  cases reply with
  | error e => rfl
  | ok reply =>
      dsimp only
      cases reply.body <;> rfl

/-- It lists tools if its reply is a success. -/
theorem lists_constant {env : ClientEnv} {v : Value} (cl : LeafClient) (method : String)
    (h : reply.response env = some v) : (LeafBehaviour.constant reply).Lists env cl method := by
  have hanswer := toOption_answer_constant env cl reply method
  unfold PostReply.response at h
  rw [← hanswer] at h
  unfold LeafBehaviour.Lists
  cases hr : (LeafBehaviour.constant reply).answer env cl method with
  | error e =>
      rw [hr] at h
      cases h
  | ok sr =>
      rw [hr] at h
      refine ⟨sr.1, sr.2, rfl, ?_⟩
      by_contra hok
      simp [Except.toOption, hok] at h

theorem toolsReply_of_response {env : ClientEnv} {v : Value} (cl : LeafClient)
    (h : reply.response env = some v) (s : ClientCells) :
    (cl.listTools env).toolsReply (LeafBehaviour.constant reply).execClient s = some reply := by
  have hanswers : Answers (LeafBehaviour.constant reply) (cl.listTools env) (.ok _) :=
    LeafClient.answers_listItems (lists_constant cl "tools/list" h)
  have hread := toOption_listTools env cl (LeafBehaviour.constant reply).execClient s
  refine (toolsReply_constant _ reply s).resolve_left fun hnone => ?_
  rw [hnone, hanswers] at hread
  cases hread

/-- A registry with one leaf in it, under some alias. -/
def soleLeaf (a : String) (leaf : LeafEntry) (cells : LeafCells) : Leaves where
  registry := ⟨(∅ : AList fun _ => LeafEntry).insert a leaf, leaf.addr + 1⟩
  cells := fun _ => cells

theorem not_intact_of_blank (hreply : reply.Blank env.client) : ¬ Intact env leaf reply := by
  intro h
  obtain ⟨v, hv, hblank⟩ := hreply
  have hleaf : (soleLeaf "" leaf {}).registry.getLeaf "" = some leaf := AList.lookup_insert _
  have htools := toolsReply_of_response leaf.client hv {}
  have hnone : reply.toolsListed env.client = none := by
    unfold PostReply.toolsListed
    rw [hv]
    rcases hblank with hmember | hmissing
    · simp [hmember]
    · simp [hmissing]
  obtain ⟨-, herror⟩ := h.refreshTools ClientCells
    (fun _ => (LeafBehaviour.constant reply).execClient) (fun _ => {}) _ "" hleaf htools
  obtain ⟨e, he⟩ := herror hnone
  have hreport := toOption_refreshTools
    (fun _ => (LeafBehaviour.constant reply).execClient) (fun _ => {}) hleaf htools
  rw [he] at hreport
  simp [PostReply.toolsRead, hv, Except.toOption] at hreport

end

/--
**When a failed refresh leaves the cache intact.**

For every leaf and every reply to `tools/list`: exactly when the reply is not a body under
a success status with an `error` in it, or without a `tools` array.
-/
theorem intact_iff (env : ServerEnv) (leaf : LeafEntry) (reply : PostReply) :
    Intact env leaf reply ↔ ¬ reply.Blank env.client :=
  ⟨fun h hblank => not_intact_of_blank hblank h, intact_of_not_blank⟩

/-! ### A leaf that is busy -/

/-- A JSON-RPC error, as the body of a reply. -/
def busyBody : String := "\x7b\"error\":\x7b\"code\":1,\"message\":\"busy\"\x7d\x7d"

def busyReply : PostReply :=
  .ok { status := 200, contentType := "application/json", body := .ok busyBody.toUTF8 }

/-- The decoder, on that body. -/
def busyEnv : ServerEnv where
  client :=
    { readFile := fun _ => .error "not found"
      jsonFromSlice := fun _ => some (.obj
        [("error", .obj [("code", .number (.posInt 1)), ("message", .string "busy")])])
      statusText := fun _ => "200 OK" }
  net := ⟨fun _ _ _ => .error (.unknownLeaf "")⟩
  pretty := fun _ => ""
  unicode := asciiTables
  now := 20

def docsLeaf : LeafEntry := ⟨0, { aliasName := "docs", url := "http://docs/mcp" }⟩

/-- One tool is cached for a leaf that then answers that it is busy: the refresh reports
success and leaves no tool. -/
theorem busy_leaf_loses_tools :
    let env := busyEnv.over (fun _ => (LeafBehaviour.constant busyReply).execClient) fun _ => {}
    let before : LeafCells := { cachedTools := [.string "x"], lastToolRefresh := some 10 }
    let after := (soleLeaf "docs" docsLeaf before).refreshTools env "docs"
    busyReply.toolsListed busyEnv.client = none ∧
      (docsLeaf.client.listTools busyEnv.client).toolsReply
        (LeafBehaviour.constant busyReply).execClient {} = some busyReply ∧
      after.1 = .ok 0 ∧ (after.2.cellsOf docsLeaf).cachedTools = [] ∧
      (after.2.cellsOf docsLeaf).lastToolRefresh = some 20 ∧
      ¬ Intact busyEnv docsLeaf busyReply := by
  refine ⟨rfl, rfl, rfl, rfl, rfl, ?_⟩
  exact not_intact_of_blank ⟨_, rfl, Or.inl rfl⟩

end McpFederation
