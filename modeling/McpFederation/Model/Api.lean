/-
The REST API for registering leaves.

`api.rs`.  Registration checks the body, checks that the alias is free, inserts, and
reads the entry back for its answer; those are three separate registry operations.
The handshake with the new leaf runs in a task of its own, so a handler here also says
which entries it started one for.
-/
import McpFederation.Model.Registry

namespace McpFederation

/-- The body of `POST /api/v1/servers`. -/
structure RegisterRequest where
  aliasName : String
  url : String
  transport : TransportType := .httpPost
  tags : List String := []
  authToken : Option String := none
  timeoutSeconds : Option UInt64 := none
deriving DecidableEq

/-- The configuration a registered leaf gets. -/
def RegisterRequest.config (req : RegisterRequest) : ServerConfig where
  aliasName := req.aliasName
  url := req.url
  authToken := req.authToken
  authTokenFile := none
  transport := req.transport
  tags := req.tags
  healthCheck := {}
  timeoutSeconds := req.timeoutSeconds
  tls := {}

/-- The checks on the body alone; the error is the message of the 400. -/
def RegisterRequest.check (req : RegisterRequest) : Except String Unit :=
  if req.aliasName = "" then .error "alias must not be empty"
  else if Text.contains "__" req.aliasName then
    .error ("alias '" ++ req.aliasName
      ++ "' cannot contain '__' (reserved as namespace separator)")
  else if req.url = "" then .error "url must not be empty"
  else .ok ()

/-- A body that passes the checks. -/
def RegisterRequest.Valid (req : RegisterRequest) : Prop := req.check = .ok ()

instance (req : RegisterRequest) : Decidable req.Valid :=
  inferInstanceAs (Decidable (_ = _))

/-- How `register_server` ends.  `created` carries the entry the answer describes, and
`panicked` is the `expect` on an entry that is gone. -/
inductive RegisterResponse where
  | badRequest (error : String)
  | conflict (error : String)
  | created (leaf : LeafEntry)
  | panicked
deriving DecidableEq

/-- The answer of `register_server`, and the entries it spawned a warm-up for. -/
structure Registered where
  response : RegisterResponse
  spawned : List LeafEntry := []
deriving DecidableEq

/-- From the insertion on: add the leaf, spawn its warm-up, read it back. -/
def insertRegistered (req : RegisterRequest) : RegistryM Registered := do
  let (entry, _) ← RegistryM.addLeaf req.aliasName req.config
  match ← RegistryM.getLeaf req.aliasName with
  | some leaf => pure { response := .created leaf, spawned := [entry] }
  | none => pure { response := .panicked, spawned := [entry] }

def registerServer (req : RegisterRequest) : RegistryM Registered :=
  match req.check with
  | .error e => pure { response := .badRequest e }
  | .ok _ => do
      match ← RegistryM.getLeaf req.aliasName with
      | some _ =>
          pure { response := .conflict ("server '" ++ req.aliasName ++ "' already registered") }
      | none => insertRegistered req

/-- `deregister_server`: the entry it removed, or `none` for a 404. -/
def deregisterServer (a : String) : RegistryM (Option LeafEntry) :=
  RegistryM.removeLeaf a

structure ServerInfoResponse where
  aliasName : String
  url : String
  transport : String
  tags : List String
  health : String
  toolCount : Nat
deriving Repr, DecidableEq

def toServerInfo (w : Leaves) (leaf : LeafEntry) : ServerInfoResponse where
  aliasName := leaf.config.aliasName
  url := leaf.config.url
  transport := leaf.config.transport.debug
  tags := leaf.config.tags
  health := (w.cellsOf leaf).health.label
  toolCount := (w.cellsOf leaf).cachedTools.length

def listServers (w : Leaves) : List ServerInfoResponse :=
  w.registry.allLeaves.map (toServerInfo w)

def getServer (w : Leaves) (a : String) : Option ServerInfoResponse :=
  (w.registry.getLeaf a).map (toServerInfo w)

theorem RegisterRequest.Valid.aliasOK {req : RegisterRequest} (h : req.Valid) :
    AliasOK req.aliasName := by
  unfold Valid check at h
  split at h
  · simp at h
  · rename_i hne
    split at h
    · simp at h
    · rename_i hsep
      exact ⟨hne, by simpa using hsep⟩

end McpFederation
