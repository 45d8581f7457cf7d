/-
Leaves found by DNS and by Kubernetes.

`dns_discovery.rs` and `crd_discovery.rs`.  Both derive an alias from a name they are
given and keep the registry in step with what they see: the DNS task by comparing the
records with the aliases that carry its prefix, the controller by one object at a time.
-/
import McpFederation.Model.Registry

namespace McpFederation

/-! ### DNS -/

structure SrvRecord where
  port : UInt16
  target : String
deriving Repr, DecidableEq

/-- `DNS_ALIAS_PREFIX`. -/
def dnsAliasPrefix : String := "dns-"

/-- What becomes of one character of a target, already in lower case. -/
def sanitizeChar (c : Char) : Char :=
  if ('a' ≤ c ∧ c ≤ 'z') ∨ ('0' ≤ c ∧ c ≤ '9') ∨ c = '-' then c else '-'

def sanitizeAlias (target : String) : String :=
  dnsAliasPrefix
    ++ String.ofList ((target.toList.rdropWhile (· = '.')).map fun c => sanitizeChar c.toLower)

/-- The records by alias; of several with one alias the last one stays. -/
def desiredRecords (records : List SrvRecord) : AList (fun _ : String => SrvRecord) :=
  records.foldl (fun m r => m.insert (sanitizeAlias r.target) r) ∅

/-- The configuration of a leaf found in a record. -/
def dnsServerConfig (config : DnsDiscoveryConfig) (a : String) (record : SrvRecord) :
    ServerConfig where
  aliasName := a
  url := config.scheme ++ "://" ++ record.target ++ ":" ++ toString record.port.toNat
    ++ config.urlPath
  authToken := none
  authTokenFile := none
  transport := config.defaultTransport
  tags := ["dns-discovered"]
  healthCheck := {}
  timeoutSeconds := none
  tls := {}

/-- One record of the loop of `reconcile`; the entry it adds gets a warm-up. -/
def dnsAdd (config : DnsDiscoveryConfig) (existing : List String)
    (entry : (_ : String) × SrvRecord) : RegistryM (List LeafEntry) :=
  if entry.1 ∈ existing then pure []
  else do
    let (leaf, _) ← RegistryM.addLeaf entry.1 (dnsServerConfig config entry.1 entry.2)
    pure [leaf]

/-- Remove one alias; nothing is spawned. -/
def removeAlias (a : String) : RegistryM (List LeafEntry) := do
  let _ ← RegistryM.removeLeaf a
  pure []

/-- `dns_discovery::reconcile`: the entries it spawned a warm-up for. -/
def dnsReconcile (config : DnsDiscoveryConfig) (records : List SrvRecord) :
    RegistryM (List LeafEntry) := do
  let desired := desiredRecords records
  let aliases ← RegistryM.aliases
  let existing := aliases.filter (Text.startsWith dnsAliasPrefix)
  let spawned ← Prog.forEach (dnsAdd config existing) desired.entries
  let _ ← Prog.forEach removeAlias (existing.filter (· ∉ desired.keys))
  pure spawned

/-! ### Kubernetes -/

structure McpServerSpec where
  url : String
  transport : String := "http-post"
  tags : List String := []
  authToken : Option String := none
  authTokenFile : Option String := none
  timeoutSeconds : Option UInt64 := none
deriving DecidableEq

/-- An `MCPServer` object.  Its `spec.alias` is left out: the controller never reads it. -/
structure McpServer where
  «namespace» : String
  name : String
  deletionTimestamp : Bool := false
  finalizers : List String := []
  spec : McpServerSpec
deriving DecidableEq

/-- `FINALIZER`. -/
def finalizer : String := "federation.mcp.io/cleanup"

def crdAlias (ns name : String) : String := "crd-" ++ ns ++ "-" ++ name

/-- The alias the controller registers an object under. -/
def McpServer.aliasName (obj : McpServer) : String := crdAlias obj.namespace obj.name

inductive ReconcileError where
  | invalidTransport (s : String)
  | kube (error : String)
deriving Repr, DecidableEq

inductive ReconcileAction where
  | awaitChange
  | requeue (seconds : Nat)
deriving Repr, DecidableEq

def parseTransport (s : String) : Except ReconcileError TransportType :=
  if s = "http-post" then .ok .httpPost
  else if s = "streamable-http" then .ok .streamableHttp
  else .error (.invalidTransport s)

def crdServerConfig (obj : McpServer) (transport : TransportType) : ServerConfig where
  aliasName := obj.aliasName
  url := obj.spec.url
  authToken := obj.spec.authToken
  authTokenFile := obj.spec.authTokenFile
  transport := transport
  tags := obj.spec.tags ++ ["crd-discovered"]
  healthCheck := {}
  timeoutSeconds := obj.spec.timeoutSeconds
  tls := {}

/-- The controller's answer, and the entries it spawned a warm-up for. -/
structure Reconciled where
  result : Except ReconcileError ReconcileAction
  spawned : List LeafEntry := []

/-- The answer once a patch of the finalizers has been sent; `patch` is what the API
server said. -/
def afterPatch (patch : Except String Unit) (action : ReconcileAction) : Reconciled :=
  match patch with
  | .ok _ => { result := .ok action }
  | .error e => { result := .error (.kube e) }

/-- `controller::reconcile`. -/
def crdReconcile (obj : McpServer) (patch : Except String Unit) : RegistryM Reconciled :=
  if obj.deletionTimestamp then
    if finalizer ∈ obj.finalizers then do
      let _ ← RegistryM.removeLeaf obj.aliasName
      pure (afterPatch patch .awaitChange)
    else pure { result := .ok .awaitChange }
  else if finalizer ∉ obj.finalizers then pure (afterPatch patch (.requeue 1))
  else
    match parseTransport obj.spec.transport with
    | .error e => pure { result := .error e }
    | .ok transport => do
        let (leaf, _) ← RegistryM.addLeaf obj.aliasName (crdServerConfig obj transport)
        pure { result := .ok (.requeue 300), spawned := [leaf] }

/-! ### The aliases they use -/

theorem sanitizeAlias_prefix (target : String) :
    Text.startsWith dnsAliasPrefix (sanitizeAlias target) = true :=
  Text.startsWith_iff.mpr ⟨_, rfl⟩

theorem sanitizeChar_ne_underscore (c : Char) : sanitizeChar c ≠ '_' := by
  unfold sanitizeChar
  split
  · rename_i hkept
    intro h
    rw [h] at hkept
    revert hkept
    decide
  · decide

/-- A sanitized alias has no underscore. -/
theorem underscore_notMem_sanitizeAlias (target : String) :
    '_' ∉ (sanitizeAlias target).toList := by
  intro h
  simp only [sanitizeAlias, String.toList_append, String.toList_ofList, List.mem_append,
    List.mem_map] at h
  rcases h with h | ⟨c, -, hc⟩
  · revert h
    decide
  · exact sanitizeChar_ne_underscore _ hc

theorem desiredRecords_keys {records : List SrvRecord} {a : String} :
    a ∈ desiredRecords records ↔ ∃ r ∈ records, sanitizeAlias r.target = a := by
  have key : ∀ (l : List SrvRecord) (m : AList (fun _ : String => SrvRecord)),
      a ∈ l.foldl (fun m r => m.insert (sanitizeAlias r.target) r) m ↔
        a ∈ m ∨ ∃ r ∈ l, sanitizeAlias r.target = a := by
    intro l
    induction l with
    | nil => intro m; simp
    | cons r rest ih =>
        intro m
        rw [List.foldl_cons, ih, AList.mem_insert]
        simp only [List.mem_cons, exists_eq_or_imp]
        refine ⟨?_, ?_⟩
        · intro h
          rcases h with (h | h) | h
          · exact Or.inr (Or.inl h.symm)
          · exact Or.inl h
          · exact Or.inr (Or.inr h)
        · intro h
          rcases h with h | h | h
          · exact Or.inl (Or.inr h)
          · exact Or.inl (Or.inl h.symm)
          · exact Or.inr h
  rw [desiredRecords, key]
  simp

end McpFederation
