/-
The configuration file.

`config.rs`, less the settings that only reach the HTTP listener or the connection
pool.  A file becomes a configuration in three steps: `${NAME}` is replaced from the
environment, the YAML is decoded, and `validate` checks the server list.  The decoder
is `serde_yaml`, a parameter here; the other two steps are the program's own.
-/
import McpFederation.Lib.Text
import McpFederation.Model.Protocol

namespace McpFederation

inductive TransportType where
  | httpPost
  | streamableHttp
deriving Repr, DecidableEq

/-- The `Debug` form of a transport. -/
def TransportType.debug : TransportType → String
  | .httpPost => "HttpPost"
  | .streamableHttp => "StreamableHttp"

structure TlsConfig where
  verify : Bool := true
  caCertPath : Option String := none
deriving Repr, DecidableEq

/-- `backoff_multiplier` is an `f64`, read as the rational it denotes. -/
structure HealthCheckConfig where
  enabled : Bool := true
  intervalSeconds : UInt64 := 30
  timeoutSeconds : UInt64 := 5
  failureThreshold : UInt32 := 3
  backoffMultiplier : Rat := 2
deriving DecidableEq

structure ServerConfig where
  aliasName : String
  url : String
  authToken : Option String := none
  authTokenFile : Option String := none
  transport : TransportType := .httpPost
  tags : List String := []
  healthCheck : HealthCheckConfig := {}
  timeoutSeconds : Option UInt64 := none
  tls : TlsConfig := {}
deriving DecidableEq

structure ClientConfig where
  token : String
  allowedServers : List String := []
deriving Repr, DecidableEq

structure RateLimitConfig where
  enabled : Bool := false
  requestsPerSecond : UInt32 := 10
  burstSize : UInt32 := 20
deriving Repr, DecidableEq

structure DnsDiscoveryConfig where
  enabled : Bool := false
  srvName : String := ""
  pollIntervalSeconds : UInt64 := 60
  defaultTransport : TransportType := .httpPost
  urlPath : String := "/mcp"
  scheme : String := "http"
deriving Repr, DecidableEq

structure FederationSettings where
  authToken : Option String := none
  authTokenFile : Option String := none
  toolCacheTtlSeconds : UInt64 := 300
  sessionTtlSeconds : UInt64 := 1800
  allowedOrigins : List String := []
  clients : List ClientConfig := []
  rateLimit : RateLimitConfig := {}
  dnsDiscovery : DnsDiscoveryConfig := {}
  sessionSecret : Option String := none
deriving Repr, DecidableEq

structure FederationConfig where
  federation : FederationSettings := {}
  servers : List ServerConfig
deriving DecidableEq

/-! ### Environment interpolation -/

/-- The `while` loop of `interpolate_env_vars`, on characters. -/
def interpolateChars (env : String → Option String) (remainder : List Char) : List Char :=
  match _hopen : Text.splitChars ['$', '{'] remainder with
  | none => remainder
  | some (literal, afterOpen) =>
      match _hclose : Text.splitChars ['}'] afterOpen with
      | none => literal ++ ['$', '{'] ++ afterOpen
      | some (name, rest) =>
          literal ++ ((env (String.ofList name)).getD "").toList ++ interpolateChars env rest
termination_by remainder.length
decreasing_by
  have h₁ := congrArg List.length (Text.splitChars_sound _hopen)
  have h₂ := congrArg List.length (Text.splitChars_sound _hclose)
  simp only [List.length_append, List.length_cons, List.length_nil] at h₁ h₂
  omega

section

variable (env : String → Option String) {s literal afterOpen name rest : List Char}

theorem interpolateChars_of_none (hopen : Text.splitChars ['$', '{'] s = none) :
    interpolateChars env s = s := by
  rw [interpolateChars]
  split
  · rfl
  · next h => rw [hopen] at h; cases h

theorem interpolateChars_of_unclosed
    (hopen : Text.splitChars ['$', '{'] s = some (literal, afterOpen))
    (hclose : Text.splitChars ['}'] afterOpen = none) :
    interpolateChars env s = literal ++ ['$', '{'] ++ afterOpen := by
  rw [interpolateChars]
  split
  · next h => rw [hopen] at h; cases h
  · next h =>
      obtain ⟨rfl, rfl⟩ := Prod.mk.inj (Option.some.inj (hopen.symm.trans h))
      split
      · rfl
      · next h => rw [hclose] at h; cases h

theorem interpolateChars_of_var
    (hopen : Text.splitChars ['$', '{'] s = some (literal, afterOpen))
    (hclose : Text.splitChars ['}'] afterOpen = some (name, rest)) :
    interpolateChars env s
      = literal ++ ((env (String.ofList name)).getD "").toList ++ interpolateChars env rest := by
  rw [interpolateChars]
  split
  · next h => rw [hopen] at h; cases h
  · next h =>
      obtain ⟨rfl, rfl⟩ := Prod.mk.inj (Option.some.inj (hopen.symm.trans h))
      split
      · next h => rw [hclose] at h; cases h
      · next h =>
          obtain ⟨rfl, rfl⟩ := Prod.mk.inj (Option.some.inj (hclose.symm.trans h))
          rfl

end

def interpolateEnvVars (env : String → Option String) (content : String) : String :=
  String.ofList (interpolateChars env content.toList)

/-! ### Validation -/

/-- The loop of `validate`; `aliases` are the ones already seen. -/
def validateServers (aliases : List String) : List ServerConfig → Except FederationError Unit
  | [] => .ok ()
  | server :: rest =>
      if server.aliasName = "" then
        .error (.config "server alias cannot be empty")
      else if Text.contains "__" server.aliasName then
        .error (.config ("server alias '" ++ server.aliasName
          ++ "' cannot contain '__' (reserved as namespace separator)"))
      else if server.aliasName ∈ aliases then
        .error (.config ("duplicate server alias: '" ++ server.aliasName ++ "'"))
      else if server.url = "" then
        .error (.config ("server '" ++ server.aliasName ++ "' has empty url"))
      else validateServers (server.aliasName :: aliases) rest

def FederationConfig.validate (cfg : FederationConfig) : Except FederationError Unit :=
  if cfg.servers = [] then .error (.config "at least one server must be configured")
  else validateServers [] cfg.servers

/-- What loading a file uses besides its contents: its path, the environment and the YAML
decoder. -/
structure LoadEnv where
  path : String
  env : String → Option String
  yaml : String → Except String FederationConfig

/-- A decoder that knows the given files and no others. -/
def LoadEnv.knowing (files : List (String × FederationConfig)) : LoadEnv where
  path := "federation.yaml"
  env := fun _ => none
  yaml := fun content =>
    match files.lookup content with
    | some cfg => .ok cfg
    | none => .error "invalid type"

def FederationConfig.parse (le : LoadEnv) (content : String) :
    Except FederationError FederationConfig := do
  let interpolated := interpolateEnvVars le.env content
  let config ← (le.yaml interpolated).mapError .config
  config.validate
  pure config

/-- `from_file`, given what reading the file gave: the contents, or an I/O error's text. -/
def FederationConfig.fromFile (le : LoadEnv) (read : Except String String) :
    Except FederationError FederationConfig := do
  let content ← read.mapError fun e =>
    .config ("failed to read config file " ++ le.path ++ ": " ++ e)
  FederationConfig.parse le content

/-! ### What a validated configuration guarantees -/

/-- An alias a configuration file or a registration request may use. -/
structure AliasOK (a : String) : Prop where
  nonempty : a ≠ ""
  noSeparator : Text.contains "__" a = false

theorem validateServers_ok {servers : List ServerConfig} :
    ∀ {aliases : List String}, validateServers aliases servers = .ok () →
      (∀ s ∈ servers, AliasOK s.aliasName ∧ s.url ≠ "") ∧
      (servers.map ServerConfig.aliasName).Nodup ∧
      ∀ s ∈ servers, s.aliasName ∉ aliases := by
  induction servers with
  | nil => intro aliases _; simp
  | cons server rest ih =>
      intro aliases h
      simp only [validateServers] at h
      split at h
      · simp at h
      · rename_i hne
        split at h
        · simp at h
        · rename_i hsep
          split at h
          · simp at h
          · rename_i hfresh
            split at h
            · simp at h
            · rename_i hurl
              obtain ⟨hall, hnodup, hnew⟩ := ih h
              refine ⟨?_, ?_, ?_⟩
              · intro s hs
                rcases List.mem_cons.mp hs with rfl | hs
                · exact ⟨⟨hne, by simpa using hsep⟩, hurl⟩
                · exact hall s hs
              · rw [List.map_cons, List.nodup_cons]
                refine ⟨?_, hnodup⟩
                intro hmem
                obtain ⟨s, hs, hsa⟩ := List.mem_map.mp hmem
                exact hnew s hs (by rw [hsa]; exact List.mem_cons_self)
              · intro s hs
                rcases List.mem_cons.mp hs with rfl | hs
                · exact hfresh
                · exact fun hc => hnew s hs (List.mem_cons_of_mem _ hc)

theorem FederationConfig.validate_ok {cfg : FederationConfig} (h : cfg.validate = .ok ()) :
    cfg.servers ≠ [] ∧ (∀ s ∈ cfg.servers, AliasOK s.aliasName ∧ s.url ≠ "") ∧
      (cfg.servers.map ServerConfig.aliasName).Nodup := by
  simp only [FederationConfig.validate] at h
  split at h
  · simp at h
  · rename_i hne
    obtain ⟨hall, hnodup, -⟩ := validateServers_ok h
    exact ⟨hne, hall, hnodup⟩

/-- A file that loads has passed `validate`. -/
theorem FederationConfig.fromFile_ok {le : LoadEnv} {read : Except String String}
    {cfg : FederationConfig} (h : FederationConfig.fromFile le read = .ok cfg) :
    cfg.validate = .ok () := by
  cases read with
  | error e => simp [fromFile, Except.mapError, bind, Except.bind] at h
  | ok content =>
      simp only [fromFile, Except.mapError, bind, Except.bind, parse] at h
      cases hy : le.yaml (interpolateEnvVars le.env content) with
      | error e => simp [hy] at h
      | ok config =>
          simp only [hy] at h
          cases hv : config.validate with
          | error e => simp [hv] at h
          | ok u =>
              simp only [hv, pure, Except.pure, Except.ok.injEq] at h
              rw [← h, hv]

/-- Text without `${` stays as it is. -/
theorem interpolateEnvVars_of_plain (env : String → Option String) {content : String}
    (h : Text.splitChars ['$', '{'] content.toList = none) :
    interpolateEnvVars env content = content := by
  rw [interpolateEnvVars, interpolateChars_of_none env h, String.ofList_toList]

/-- A plain text that decodes and passes the checks loads. -/
theorem FederationConfig.fromFile_of_plain {le : LoadEnv} {content : String}
    {cfg : FederationConfig} (hplain : Text.splitChars ['$', '{'] content.toList = none)
    (hyaml : le.yaml content = .ok cfg) (hvalid : cfg.validate = .ok ()) :
    FederationConfig.fromFile le (.ok content) = .ok cfg := by
  simp [fromFile, parse, Except.mapError, bind, Except.bind,
    interpolateEnvVars_of_plain le.env hplain, hyaml, hvalid, pure, Except.pure]

end McpFederation
