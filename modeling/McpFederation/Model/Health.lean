/-
Warming a leaf up, and watching it.

`health.rs`, and the tasks that are spawned for a new entry: by `initialize_all` at
startup, by the reloader, by the REST API and by the two discovery workers.  The source
writes that task out each time, and the copies are not the same.  All of them mark the
leaf by the outcome of the handshake and fetch its tools; what else they keep of its
answers differs, and each is modelled as it stands.

A task awaits the leaf's client, the health endpoint, the clock, or a lock on one of the
entry's cells.  The writes of `mark_healthy` and its like are taken as one.  Metrics and
the sleep between two rounds of the monitor are left out; how long it is, is in
`Model/Backoff`.
-/
import McpFederation.Model.Registry

namespace McpFederation

/-- What the background tasks of one leaf await. -/
inductive LeafCall where
  | client (c : ClientCall)
  /-- A GET that fails on an error status. -/
  | getOk (url : String)
  | now
  | readCells
  /-- A write, answered with the cells after it. -/
  | updateCells (f : LeafCells → LeafCells)

@[reducible] def LeafCall.Reply : LeafCall → Type
  | .client c => c.Reply
  | .getOk _ => Except String Unit
  | .now => Nat
  | .readCells => LeafCells
  | .updateCells _ => LeafCells

/-- The code of a background task. -/
abbrev LeafM (α : Type) := Prog LeafCall LeafCall.Reply α

namespace LeafM

/-- Run client code in a task. -/
def ask {α : Type} (p : ClientM α) : LeafM (Except FederationError α) :=
  p.run.interp fun c => Prog.perform (LeafCall.client c)

theorem makes_ask {α : Type} {P : LeafCall → Prop} (h : ∀ c, P (.client c)) (p : ClientM α) :
    (ask p).Makes P := by
  refine Prog.makes_interp ?_ p.run
  intro c
  exact ⟨h c, fun _ => trivial⟩

def now : LeafM Nat := Prog.perform LeafCall.now

def readCells : LeafM LeafCells := Prog.perform LeafCall.readCells

def updateCells (f : LeafCells → LeafCells) : LeafM Unit := do
  let _ ← Prog.perform (LeafCall.updateCells f)

def markHealthy : LeafM Unit := do
  let t ← now
  updateCells (LeafCells.markHealthy t)

def markUnhealthy : LeafM Unit := do
  let t ← now
  updateCells (LeafCells.markUnhealthy t)

/-- `record_failure`: the number of failures in a row, this one included. -/
def recordFailure : LeafM UInt32 := do
  let t ← now
  let cells ← Prog.perform (LeafCall.updateCells (LeafCells.recordFailure t))
  pure cells.consecutiveFailures

end LeafM

section

variable (env : ClientEnv) (cl : LeafClient)

/-! ### What a task keeps of the leaf's answers -/

/-- Fetch a list and store it; a failure leaves the cache alone. -/
def fetchInto (list : ClientM (List Value)) (store : List Value → LeafM Unit) : LeafM Unit := do
  match ← LeafM.ask list with
  | .ok items => store items
  | .error _ => pure ()

def fetchTools : LeafM Unit :=
  fetchInto (cl.listTools env) fun tools => do
    let t ← LeafM.now
    LeafM.updateCells (LeafCells.setTools t tools)

def fetchResources : LeafM Unit :=
  fetchInto (cl.listResources env) fun resources =>
    LeafM.updateCells fun c => { c with cachedResources := resources }

def fetchPrompts : LeafM Unit :=
  fetchInto (cl.listPrompts env) fun prompts =>
    LeafM.updateCells fun c => { c with cachedPrompts := prompts }

/-- The task `aggregated_tools` spawns for a leaf whose tools are stale. -/
def backgroundRefresh : LeafM Unit := fetchTools env cl

/-- `refresh_tools` once it has found the leaf, and each task of `refresh_all_tools`: the
number of tools, or the text of the error. -/
def refreshTask : LeafM (Except String Nat) := do
  match ← LeafM.ask (cl.listTools env) with
  | .error e => pure (.error e.toText)
  | .ok tools =>
      let t ← LeafM.now
      LeafM.updateCells (LeafCells.setTools t tools)
      pure (.ok tools.length)

/-- Keep the `serverInfo` of an `initialize` result, if it has one. -/
def keepServerInfo (initResult : Value) : LeafM Unit :=
  match initResult.get? "serverInfo" with
  | some info => LeafM.updateCells fun c => { c with serverInfo := some info }
  | none => pure ()

/-! ### The warm-up tasks -/

/-- A warm-up: the handshake, then `afterInit` on its result.  It gives whether the
handshake succeeded. -/
def warmUp (afterInit : Value → LeafM Unit) : LeafM Bool := do
  match ← LeafM.ask (cl.initializeLeaf env) with
  | .ok initResult =>
      LeafM.markHealthy
      afterInit initResult
      pure true
  | .error _ =>
      LeafM.markUnhealthy
      pure false

/-- What `initialize_all` does once a handshake has succeeded. -/
def keepEverything (initResult : Value) : LeafM Unit := do
  keepServerInfo initResult
  fetchTools env cl
  fetchResources env cl
  fetchPrompts env cl

/-- The task of `initialize_all` for one leaf. -/
def initializeAllTask : LeafM Unit := do
  let _ ← warmUp env cl (keepEverything env cl)

/-- The task of `spawn_config_reloader`, which does not look at the `initialize` result. -/
def reloadTask : LeafM Unit := do
  let _ ← warmUp env cl fun _ => fetchTools env cl

/-- What the REST API and the discovery workers do then. -/
def keepInfoAndTools (initResult : Value) : LeafM Unit := do
  keepServerInfo initResult
  fetchTools env cl

/-- The task of `register_server`. -/
def registerTask : LeafM Unit := do
  let _ ← warmUp env cl (keepInfoAndTools env cl)

/-- The task of `dns_discovery::reconcile`. -/
def dnsTask : LeafM Unit := do
  let _ ← warmUp env cl (keepInfoAndTools env cl)

/-- `MCPServerStatus`, but for the time of the sync. -/
structure McpServerStatus where
  health : String
  toolCount : Int32
deriving DecidableEq

/-- The task of `controller::reconcile`; it gives the status it writes back. -/
def crdTask : LeafM McpServerStatus := do
  let initOk ← warmUp env cl (keepInfoAndTools env cl)
  let healthy ← if initOk then do pure (← LeafM.readCells).isHealthy else pure false
  let cells ← LeafM.readCells
  pure
    { health := if healthy then "Healthy" else "Unhealthy"
      toolCount := Int32.ofNat cells.cachedTools.length }

/-! ### The monitor -/

/-- The URL that `health_check` polls. -/
def LeafClient.healthUrl : String :=
  let base := Text.trimEndMatches "/mcp" cl.url
  String.ofList (base.toList.rdropWhile (· = '/')) ++ "/healthz"

def LeafClient.healthCheck : LeafM (Except FederationError Unit) := do
  match ← Prog.perform (LeafCall.getOk cl.healthUrl) with
  | .ok _ => pure (.ok ())
  | .error e => pure (.error (.leafUnreachable cl.aliasName e))

/-- One round of the loop of `monitor_leaf`. -/
def monitorRound (config : HealthCheckConfig) : LeafM Unit := do
  let threshold := max config.failureThreshold 1
  match ← cl.healthCheck with
  | .ok _ =>
      let wasUnhealthy := !(← LeafM.readCells).isHealthy
      LeafM.markHealthy
      if wasUnhealthy then fetchTools env cl else pure ()
  | .error _ =>
      let failures ← LeafM.recordFailure
      if threshold ≤ failures then
        LeafM.updateCells fun c => { c with health := .unhealthy }
      else pure ()

end

end McpFederation
