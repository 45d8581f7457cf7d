/-
The registry as a system: everything that changes it after startup.

Four sources write to the one map: the configuration file (at startup and on SIGHUP),
the REST API, the DNS task and the Kubernetes controller.  `Op` lists their operations
with what each is given from outside.  `Registry.apply` runs one of them alone, from its
first registry call to its last, and `Registry.interleave` runs any number of them in any
order of their calls.
-/
import McpFederation.Lib.Runs
import McpFederation.Model.Api
import McpFederation.Model.Reload

namespace McpFederation

/-- Who put an entry into the registry. -/
inductive Source where
  | config
  | rest
  | dns
  | crd
deriving Repr, DecidableEq

/-- One operation on the registry. -/
inductive Op where
  /-- SIGHUP; `read` is what reading the configuration file gives. -/
  | reload (read : Except String String)
  | register (req : RegisterRequest)
  | deregister (a : String)
  /-- One poll of the DNS task that got an answer. -/
  | dns (config : DnsDiscoveryConfig) (records : List SrvRecord)
  /-- One call of the controller's `reconcile`; `patch` is the API server's answer. -/
  | crd (obj : McpServer) (patch : Except String Unit)

def Op.source : Op → Source
  | .reload _ => .config
  | .register _ => .rest
  | .deregister _ => .rest
  | .dns _ _ => .dns
  | .crd _ _ => .crd

/-- The registry calls of an operation; it gives the entries it spawned a warm-up for. -/
def Op.program (le : LoadEnv) : Op → RegistryM (List LeafEntry)
  | .reload read => reloadConfig (FederationConfig.fromFile le read)
  | .register req => do
      let registered ← registerServer req
      pure registered.spawned
  | .deregister a => do
      let _ ← deregisterServer a
      pure []
  | .dns config records => dnsReconcile config records
  | .crd obj patch => do
      let reconciled ← crdReconcile obj patch
      pure reconciled.spawned

namespace Registry

/-- The registry after one operation. -/
def apply (le : LoadEnv) (r : Registry) (op : Op) : Registry :=
  ((op.program le).run exec r).2

/-- Operations that run side by side, none of which has begun. -/
def pool {ι : Type} (le : LoadEnv) (r : Registry) (ops : ι → Op) :
    Pool ι RegistryCall RegistryCall.Reply (List LeafEntry) Registry where
  shared := r
  threads := fun i => (ops i).program le

/-- The registry after the operations have taken turns, one registry call each turn. -/
def interleave {ι : Type} [DecidableEq ι] (le : LoadEnv) (r : Registry) (ops : ι → Op)
    (schedule : List ι) : Registry :=
  ((r.pool le ops).steps exec (schedule.map .inl)).shared

/-- The registry a server starts with. -/
def Startup (le : LoadEnv) (r : Registry) : Prop :=
  ∃ read cfg, FederationConfig.fromFile le read = .ok cfg ∧ r = fromConfigs cfg.servers

theorem Startup.wf {le : LoadEnv} {r : Registry} (h : r.Startup le) : r.WF := by
  obtain ⟨read, cfg, -, rfl⟩ := h
  exact wf_fromConfigs cfg.servers

end Registry

/-! ### A small deployment -/

/-- A configuration with one server, `wiki`. -/
def wikiConfig : FederationConfig where
  servers := [{ aliasName := "wiki", url := "http://wiki/mcp" }]

/-- Its file. -/
def wikiFile : String :=
  "federation:\n  endpoint: /mcp\nservers:\n- alias: wiki\n  url: http://wiki/mcp\n"

def wikiLoad : LoadEnv := LoadEnv.knowing [(wikiFile, wikiConfig)]

def wikiRegistry : Registry := Registry.fromConfigs wikiConfig.servers

/-- A leaf to register beside it. -/
def docsRequest : RegisterRequest where
  aliasName := "docs"
  url := "http://docs/mcp"

theorem wikiFile_loads : FederationConfig.fromFile wikiLoad (.ok wikiFile) = .ok wikiConfig :=
  FederationConfig.fromFile_of_plain (by decide) rfl (by decide)

theorem wiki_startup : wikiRegistry.Startup wikiLoad :=
  ⟨.ok wikiFile, wikiConfig, wikiFile_loads, rfl⟩

end McpFederation
