/-
The leaves the federation knows, and what is known of each.

`registry.rs`.  The registry maps an alias to an `Arc<LeafEntry>`, and whether two
entries are the same one is a question about the `Arc`, not about the alias: a leaf
that is removed and registered again under its old alias is a new entry, whose caches
start empty and which no running task refers to.  So an entry here is an address
together with the part that never changes, its configuration; the fields behind locks
are `LeafCells`, kept apart from the map and found by address.

`RegistryCall` lists the registry operations that other modules await.  Allocating an
entry is part of `addLeaf`: nothing can observe the new address before it is in the map.
-/
import Mathlib.Data.List.AList
import McpFederation.Model.LeafClient

namespace McpFederation

/-! ### Entries -/

inductive LeafHealth where
  | unknown
  | healthy
  | unhealthy
deriving Repr, DecidableEq

/-- The label `list_servers` and the REST API print. -/
def LeafHealth.label : LeafHealth → String
  | .unknown => "unknown"
  | .healthy => "healthy"
  | .unhealthy => "unhealthy"

/-- The `Debug` form. -/
def LeafHealth.debug : LeafHealth → String
  | .unknown => "Unknown"
  | .healthy => "Healthy"
  | .unhealthy => "Unhealthy"

/-- An `Arc<LeafEntry>`: where it lives, and the configuration it was made from. -/
structure LeafEntry where
  addr : Nat
  config : ServerConfig
deriving DecidableEq

def LeafEntry.client (leaf : LeafEntry) : LeafClient := LeafClient.new leaf.config

/-- The fields of a `LeafEntry` behind locks, as `new_with_pool` makes them.  Instants
are counted from an arbitrary start. -/
structure LeafCells where
  cachedTools : List Value := []
  cachedResources : List Value := []
  cachedPrompts : List Value := []
  health : LeafHealth := .unknown
  lastHealthCheck : Option Nat := none
  lastToolRefresh : Option Nat := none
  consecutiveFailures : UInt32 := 0
  serverInfo : Option Value := none

namespace LeafCells

def markHealthy (now : Nat) (c : LeafCells) : LeafCells :=
  { c with health := .healthy, lastHealthCheck := some now, consecutiveFailures := 0 }

def markUnhealthy (now : Nat) (c : LeafCells) : LeafCells :=
  { c with
    health := .unhealthy
    lastHealthCheck := some now
    consecutiveFailures := c.consecutiveFailures + 1 }

/-- Count a failure without changing the health. -/
def recordFailure (now : Nat) (c : LeafCells) : LeafCells :=
  { c with lastHealthCheck := some now, consecutiveFailures := c.consecutiveFailures + 1 }

/-- A leaf that has never been checked counts as healthy. -/
def isHealthy (c : LeafCells) : Bool := c.health ≠ .unhealthy

/-- Store a fetched tool list and restart its TTL. -/
def setTools (now : Nat) (tools : List Value) (c : LeafCells) : LeafCells :=
  { c with cachedTools := tools, lastToolRefresh := some now }

def isFederation (c : LeafCells) : Bool :=
  (c.serverInfo.bind (·.strAt "name")) = some "mcp-federation"

end LeafCells

/-! ### The registry -/

/-- The map of leaves; `next` is the first address not handed out yet. -/
structure Registry where
  leaves : AList (fun _ : String => LeafEntry)
  next : Nat

/-- The registry operations a task awaits. -/
inductive RegistryCall where
  | getLeaf (a : String)
  | aliases
  | addLeaf (a : String) (config : ServerConfig)
  | removeLeaf (a : String)

/-- `addLeaf` gives the new entry and the one it replaced. -/
@[reducible] def RegistryCall.Reply : RegistryCall → Type
  | .getLeaf _ => Option LeafEntry
  | .aliases => List String
  | .addLeaf _ _ => LeafEntry × Option LeafEntry
  | .removeLeaf _ => Option LeafEntry

/-- Code that awaits registry operations. -/
abbrev RegistryM (α : Type) := Prog RegistryCall RegistryCall.Reply α

namespace RegistryM

def getLeaf (a : String) : RegistryM (Option LeafEntry) := Prog.perform (RegistryCall.getLeaf a)

def aliases : RegistryM (List String) := Prog.perform RegistryCall.aliases

def addLeaf (a : String) (config : ServerConfig) : RegistryM (LeafEntry × Option LeafEntry) :=
  Prog.perform (RegistryCall.addLeaf a config)

def removeLeaf (a : String) : RegistryM (Option LeafEntry) :=
  Prog.perform (RegistryCall.removeLeaf a)

end RegistryM

namespace Registry

def empty : Registry := ⟨∅, 0⟩

def getLeaf (r : Registry) (a : String) : Option LeafEntry := r.leaves.lookup a

def allLeaves (r : Registry) : List LeafEntry := r.leaves.entries.map Sigma.snd

def aliases (r : Registry) : List String := r.leaves.keys

/-- The entry that the next insertion allocates. -/
def alloc (r : Registry) (config : ServerConfig) : LeafEntry := ⟨r.next, config⟩

def addLeaf (r : Registry) (a : String) (config : ServerConfig) : Registry :=
  ⟨r.leaves.insert a (r.alloc config), r.next + 1⟩

def removeLeaf (r : Registry) (a : String) : Registry := { r with leaves := r.leaves.erase a }

/-- What one registry operation answers and does. -/
def exec : (c : RegistryCall) → Registry → c.Reply × Registry
  | .getLeaf a, r => (r.getLeaf a, r)
  | .aliases, r => (r.aliases, r)
  | .addLeaf a config, r => ((r.alloc config, r.getLeaf a), r.addLeaf a config)
  | .removeLeaf a, r => (r.getLeaf a, r.removeLeaf a)

/-- `from_configs_with_pool`. -/
def fromConfigs (configs : List ServerConfig) : Registry :=
  configs.foldl (fun r config => r.addLeaf config.aliasName config) empty

/-! ### Reading the map after a write -/

@[simp] theorem getLeaf_empty (a : String) : empty.getLeaf a = none := rfl

@[simp] theorem getLeaf_addLeaf_self (r : Registry) (a : String) (config : ServerConfig) :
    (r.addLeaf a config).getLeaf a = some (r.alloc config) := AList.lookup_insert _

theorem getLeaf_addLeaf_ne (r : Registry) {a b : String} (config : ServerConfig) (h : b ≠ a) :
    (r.addLeaf a config).getLeaf b = r.getLeaf b := AList.lookup_insert_ne h

@[simp] theorem getLeaf_removeLeaf_self (r : Registry) (a : String) :
    (r.removeLeaf a).getLeaf a = none := AList.lookup_erase _ _

theorem getLeaf_removeLeaf_ne (r : Registry) {a b : String} (h : b ≠ a) :
    (r.removeLeaf a).getLeaf b = r.getLeaf b := AList.lookup_erase_ne h

@[simp] theorem next_addLeaf (r : Registry) (a : String) (config : ServerConfig) :
    (r.addLeaf a config).next = r.next + 1 := rfl

@[simp] theorem next_removeLeaf (r : Registry) (a : String) : (r.removeLeaf a).next = r.next := rfl

@[simp] theorem alloc_addr (r : Registry) (config : ServerConfig) :
    (r.alloc config).addr = r.next := rfl

@[simp] theorem alloc_config (r : Registry) (config : ServerConfig) :
    (r.alloc config).config = config := rfl

/-- Addresses are never handed out again. -/
theorem next_le_exec (c : RegistryCall) (r : Registry) : r.next ≤ (exec c r).2.next := by
  cases c with
  | getLeaf b => exact le_refl _
  | aliases => exact le_refl _
  | addLeaf b config => exact Nat.le_succ _
  | removeLeaf b => exact le_refl _

theorem mem_aliases {r : Registry} {a : String} : a ∈ r.aliases ↔ ∃ e, r.getLeaf a = some e := by
  rw [aliases, ← AList.mem_keys, ← AList.lookup_isSome, Option.isSome_iff_exists]
  rfl

theorem mem_allLeaves {r : Registry} {e : LeafEntry} :
    e ∈ r.allLeaves ↔ ∃ a, r.getLeaf a = some e := by
  simp only [allLeaves, List.mem_map, Sigma.exists]
  refine ⟨?_, ?_⟩
  · intro h
    obtain ⟨a, e', hmem, rfl⟩ := h
    exact ⟨a, AList.mem_lookup_iff.mpr hmem⟩
  · intro h
    obtain ⟨a, ha⟩ := h
    exact ⟨a, e, AList.mem_lookup_iff.mp ha, rfl⟩

/-! ### The representation invariant -/

/-- Every entry is stored under the alias of its own configuration, at an address that
has been handed out, and at an address of its own. -/
structure WF (r : Registry) : Prop where
  key : ∀ a e, r.getLeaf a = some e → e.config.aliasName = a
  fresh : ∀ a e, r.getLeaf a = some e → e.addr < r.next
  own : ∀ a b e e', r.getLeaf a = some e → r.getLeaf b = some e' → e.addr = e'.addr → a = b

theorem wf_empty : WF empty := ⟨by simp, by simp, by simp⟩

/-- What is in the map after an insertion: the new entry, or an old one under another alias. -/
theorem getLeaf_of_addLeaf {r : Registry} {a b : String} {config : ServerConfig} {e : LeafEntry}
    (he : (r.addLeaf a config).getLeaf b = some e) :
    (b = a ∧ e = r.alloc config) ∨ (b ≠ a ∧ r.getLeaf b = some e) := by
  by_cases hb : b = a
  · subst hb
    rw [getLeaf_addLeaf_self, Option.some.injEq] at he
    exact Or.inl ⟨rfl, he.symm⟩
  · rw [getLeaf_addLeaf_ne r config hb] at he
    exact Or.inr ⟨hb, he⟩

theorem WF.addLeaf {r : Registry} (h : r.WF) {a : String} {config : ServerConfig}
    (ha : config.aliasName = a) : (r.addLeaf a config).WF := by
  refine ⟨?_, ?_, ?_⟩
  · intro b e he
    rcases getLeaf_of_addLeaf he with ⟨rfl, rfl⟩ | ⟨-, hold⟩
    · exact ha
    · exact h.key b e hold
  · intro b e he
    rcases getLeaf_of_addLeaf he with ⟨rfl, rfl⟩ | ⟨-, hold⟩
    · simp
    · exact Nat.lt_succ_of_lt (h.fresh b e hold)
  · intro b c e e' he he' haddr
    rcases getLeaf_of_addLeaf he with ⟨rfl, rfl⟩ | ⟨-, hold⟩ <;>
      rcases getLeaf_of_addLeaf he' with ⟨rfl, rfl⟩ | ⟨-, hold'⟩
    · rfl
    · exact absurd haddr.symm (Nat.ne_of_lt (h.fresh c e' hold'))
    · exact absurd haddr (Nat.ne_of_lt (h.fresh b e hold))
    · exact h.own b c e e' hold hold' haddr

theorem getLeaf_of_removeLeaf {r : Registry} {a b : String} {e : LeafEntry}
    (he : (r.removeLeaf a).getLeaf b = some e) : r.getLeaf b = some e ∧ b ≠ a := by
  by_cases hb : b = a
  · subst hb
    simp at he
  · rw [getLeaf_removeLeaf_ne r hb] at he
    exact ⟨he, hb⟩

theorem WF.removeLeaf {r : Registry} (h : r.WF) (a : String) : (r.removeLeaf a).WF :=
  ⟨fun b e he => h.key b e (getLeaf_of_removeLeaf he).1,
    fun b e he => h.fresh b e (getLeaf_of_removeLeaf he).1,
    fun b c e e' he he' => h.own b c e e' (getLeaf_of_removeLeaf he).1
      (getLeaf_of_removeLeaf he').1⟩

theorem wf_fromConfigs (configs : List ServerConfig) : (fromConfigs configs).WF := by
  have key : ∀ (l : List ServerConfig) (r : Registry), r.WF →
      (l.foldl (fun r config => r.addLeaf config.aliasName config) r).WF := by
    intro l
    induction l with
    | nil => intro r h; exact h
    | cons config rest ih => intro r h; exact ih _ (h.addLeaf rfl)
  exact key configs empty wf_empty

theorem WF.nodup_allLeaves {r : Registry} (h : r.WF) : r.allLeaves.Nodup := by
  refine List.Nodup.of_map (fun leaf => leaf.config.aliasName) ?_
  have hkeys : r.allLeaves.map (fun leaf => leaf.config.aliasName) = r.aliases := by
    rw [allLeaves, List.map_map]
    refine List.map_congr_left fun e he => ?_
    exact h.key e.1 e.2 (AList.mem_lookup_iff.mpr he)
  rw [hkeys]
  exact AList.keys_nodup _

/-- An entry of the registry has its address to itself. -/
theorem WF.addr_ne {r : Registry} (h : r.WF) {e e' : LeafEntry} (he : e ∈ r.allLeaves)
    (he' : e' ∈ r.allLeaves) (hne : e ≠ e') : e.addr ≠ e'.addr := by
  obtain ⟨a, ha⟩ := mem_allLeaves.mp he
  obtain ⟨b, hb⟩ := mem_allLeaves.mp he'
  intro haddr
  obtain rfl := h.own a b e e' ha hb haddr
  rw [ha, Option.some.injEq] at hb
  exact hne hb

end Registry

/-! ### Registry and cells together -/

/-- What every handler reads: the registry, and the cells of each entry. -/
structure Leaves where
  registry : Registry
  cells : Nat → LeafCells

namespace Leaves

def cellsOf (w : Leaves) (leaf : LeafEntry) : LeafCells := w.cells leaf.addr

def isHealthy (w : Leaves) (leaf : LeafEntry) : Bool := (w.cellsOf leaf).isHealthy

def healthyLeaves (w : Leaves) : List LeafEntry := w.registry.allLeaves.filter w.isHealthy

/-- Change the cells of one entry. -/
def updateCells (w : Leaves) (leaf : LeafEntry) (f : LeafCells → LeafCells) : Leaves :=
  { w with cells := Function.update w.cells leaf.addr (f (w.cellsOf leaf)) }

@[simp] theorem registry_updateCells (w : Leaves) (leaf : LeafEntry) (f : LeafCells → LeafCells) :
    (w.updateCells leaf f).registry = w.registry := rfl

end Leaves

end McpFederation
