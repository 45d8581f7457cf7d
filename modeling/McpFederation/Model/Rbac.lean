/-
Who a request comes from, and what it may use.

`rbac.rs` and the bearer-token middleware of `main.rs`.  The middleware decides once
per request, from the configured tokens and the `Authorization` header, whether the
request reaches a handler and with which `RequestContext`.  The token file is read on
every request, so what reading it gave is an input here.
-/
import McpFederation.Model.Config

namespace McpFederation

structure RequestContext where
  clientId : Option String := none
  allowedServers : Option (List String) := none
deriving Repr, DecidableEq

namespace RequestContext

def anonymous : RequestContext := ⟨none, none⟩

def admin : RequestContext := ⟨some "admin", none⟩

def allowsAlias (ctx : RequestContext) (a : String) : Bool :=
  if a = "federation" then true
  else
    match ctx.allowedServers with
    | none => true
    | some list => list.any fun s => s = "*" || s = a

def clientLabel (ctx : RequestContext) : String := ctx.clientId.getD "anonymous"

end RequestContext

/-- The loop of `resolve` over the clients from index `idx` on. -/
def resolveClient (presented : String) (idx : Nat) : List ClientConfig → Option RequestContext
  | [] => none
  | client :: rest =>
      if client.token = presented then
        some
          { clientId := some ("client-" ++ toString idx)
            allowedServers :=
              if client.allowedServers.any (· = "*") then none else some client.allowedServers }
      else resolveClient presented (idx + 1) rest

def resolve (presented adminToken : String) (clients : List ClientConfig) :
    Option RequestContext :=
  if presented = adminToken then some .admin else resolveClient presented 0 clients

/-! ### The middleware -/

structure AuthState where
  token : Option String
  tokenFile : Option String
  clients : List ClientConfig

/-- The token in force.  `read` is what reading `token_file` gives: its contents, or an
I/O error's text. -/
def AuthState.resolveToken (auth : AuthState) (read : Except String String) : Option String :=
  match auth.token with
  | some t => some t
  | none =>
      match auth.tokenFile with
      | none => none
      | some _ =>
          match read with
          | .ok contents => some (Text.trim contents)
          | .error _ => none

/-- A header value: the bytes between 32 and 126, and the tab, are the visible ones. -/
structure HeaderValue where
  bytes : List UInt8
deriving DecidableEq

/-- `HeaderValue::to_str`, which fails on a byte that is not visible ASCII. -/
def HeaderValue.toStr (v : HeaderValue) : Option String :=
  if v.bytes.all fun b => (32 ≤ b.toNat && b.toNat < 127) || b.toNat = 9 then
    some (String.ofList (v.bytes.map fun b => Char.ofNat b.toNat))
  else none

/-- Headers by lowercase name, in the order they came. -/
abbrev HeaderMap := List (String × HeaderValue)

/-- `HeaderMap::get`: the first value of that name, if it is text. -/
def HeaderMap.getStr (headers : HeaderMap) (name : String) : Option String :=
  ((headers.find? fun h => h.1 = name).map Prod.snd).bind HeaderValue.toStr

/-- The paths that are served without a token. -/
def skipsAuth (path : String) : Bool :=
  path = "/healthz" || path = "/metrics" || path = "/status"
    || Text.startsWith "/swagger-ui" path || path = "/openapi.json"

/-- What the middleware does with a request: run the handler, with the context it put
into the request's extensions, or answer 401. -/
inductive AuthOutcome where
  | next (ctx : Option RequestContext)
  | unauthorized
deriving Repr, DecidableEq

/-- The bearer token a request presents. -/
def presentedToken (headers : HeaderMap) : Option String :=
  (HeaderMap.getStr headers "authorization").bind (Text.stripPrefix "Bearer ")

def authMiddleware (auth : AuthState) (read : Except String String) (path : String)
    (headers : HeaderMap) : AuthOutcome :=
  let skip := skipsAuth path
  match auth.resolveToken read with
  | none => if skip then .next none else .next (some .anonymous)
  | some admin =>
      if skip then .next none
      else
        match (presentedToken headers).bind fun tok => resolve tok admin auth.clients with
        | some ctx => .next (some ctx)
        | none => .unauthorized

/-! ### Who may use what -/

theorem allowsAlias_of_list {ctx : RequestContext} {list : List String}
    (hctx : ctx.allowedServers = some list) (a : String) :
    ctx.allowsAlias a = true ↔ a = "federation" ∨ "*" ∈ list ∨ a ∈ list := by
  by_cases hfed : a = "federation"
  · simp [RequestContext.allowsAlias, hfed]
  · simp only [RequestContext.allowsAlias, if_neg hfed, hctx, List.any_eq_true, Bool.or_eq_true,
      decide_eq_true_eq, or_iff_right hfed]
    refine ⟨?_, ?_⟩
    · intro h
      obtain ⟨x, hx, rfl | rfl⟩ := h
      · exact Or.inl hx
      · exact Or.inr hx
    · intro h
      rcases h with hstar | ha
      · exact ⟨"*", hstar, Or.inl rfl⟩
      · exact ⟨a, ha, Or.inr rfl⟩

/-! ### Who resolves -/

/-- No entry is found exactly when none has the token. -/
theorem resolveClient_eq_none {presented : String} :
    ∀ {clients : List ClientConfig} {idx : Nat},
      resolveClient presented idx clients = none ↔ ∀ c ∈ clients, c.token ≠ presented := by
  intro clients
  induction clients with
  | nil => intro idx; simp [resolveClient]
  | cons client rest ih =>
      intro idx
      by_cases htok : client.token = presented
      · simp [resolveClient, htok]
      · simp [resolveClient, htok, ih]

/-- **A token resolves exactly when it is the admin token or a client's.** -/
theorem resolve_isSome {presented adminToken : String} {clients : List ClientConfig} :
    (resolve presented adminToken clients).isSome = true ↔
      presented = adminToken ∨ ∃ c ∈ clients, c.token = presented := by
  unfold resolve
  by_cases hadmin : presented = adminToken
  · simp [hadmin]
  · rw [if_neg hadmin, Option.isSome_iff_ne_none, ne_eq, resolveClient_eq_none]
    simp [hadmin]

end McpFederation
