/-
Reloading the configuration file on SIGHUP.

The loop body of `spawn_config_reloader` in `main.rs`.  A file that does not load
leaves the registry alone.  One that does is compared with the registry alias by alias,
on five fields of the configuration; and every alias that was registered when the
reload began and is not in the file is removed, whoever registered it.
-/
import McpFederation.Model.Discovery

namespace McpFederation

/-- The five fields a reload compares. -/
def sameLeafConfig (current server : ServerConfig) : Bool :=
  current.url = server.url && current.authToken = server.authToken
    && current.authTokenFile = server.authTokenFile && current.transport = server.transport
    && current.timeoutSeconds = server.timeoutSeconds

/-- One server of the file: added if it is new, replaced if it changed. -/
def reloadServer (server : ServerConfig) : RegistryM (List LeafEntry) := do
  match ← RegistryM.getLeaf server.aliasName with
  | some current =>
      if sameLeafConfig current.config server then pure []
      else do
        let (entry, _) ← RegistryM.addLeaf server.aliasName server
        pure [entry]
  | none => do
      let (entry, _) ← RegistryM.addLeaf server.aliasName server
      pure [entry]

/-- The reload step: the entries it spawned a warm-up for. -/
def reloadConfig (loaded : Except FederationError FederationConfig) :
    RegistryM (List LeafEntry) :=
  match loaded with
  | .error _ => pure []
  | .ok cfg => do
      let existing ← RegistryM.aliases
      let spawned ← Prog.forEach reloadServer cfg.servers
      let incoming := cfg.servers.map ServerConfig.aliasName
      let _ ← Prog.forEach removeAlias (existing.filter (· ∉ incoming))
      pure spawned

end McpFederation
