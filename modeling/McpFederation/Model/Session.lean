/-
Sessions.

`session.rs`.  A session id is a signed token whose claims are fixed when it is minted,
and the manager keeps a map from ids to what has happened to each since.  Two clocks are
read: `Instant`, here in nanoseconds from an arbitrary start, for inactivity, and the
system clock, in whole seconds, for the token's `exp`.  Signing and checking signatures
is `jsonwebtoken`'s; `Jwt` stands for it, and the checks on the decoded claims that the
program asks it for are written out in `decodeClaims`.
-/
import Mathlib.Data.List.AList
import McpFederation.Model.Json

namespace McpFederation

/-- A reading of both clocks. -/
structure Now where
  instant : Nat
  unix : UInt64

structure SessionState where
  createdAt : Nat
  lastActive : Nat
  clientInfo : Option Value
  logLevel : Option String

structure SessionClaims where
  sub : String
  iss : String
  iat : UInt64
  exp : UInt64
  clientInfo : Option Value

/-- Tokens: signing claims, and reading a token whose signature is good. -/
structure Jwt where
  encode : List UInt8 → SessionClaims → String
  decode : List UInt8 → String → Option SessionClaims

/-- A token gives back what was signed. -/
def Jwt.Faithful (jwt : Jwt) (key : List UInt8) (claims : SessionClaims) : Prop :=
  jwt.decode key (jwt.encode key claims) = some claims

/-- `JWT_ISSUER`. -/
def jwtIssuer : String := "mcp-federation"

/-- `validation.leeway`, in seconds. -/
def jwtLeeway : Nat := 5

structure SessionManager where
  ttl : UInt64
  key : List UInt8
  sessions : AList (fun _ : String => SessionState)

/-- The key of `SessionManager::new`: the secret if it decodes to something, else a random
one.  `base64` decodes, and `random` is what `random_key` gave. -/
def sessionKey (base64 : String → Option (List UInt8)) (random : List UInt8) :
    Option String → List UInt8
  | none => random
  | some secret =>
      match base64 secret with
      | none => random
      | some bytes => if bytes = [] then random else bytes

/-- `HashMap::retain`, by value. -/
def retain (keep : SessionState → Bool) (m : AList (fun _ : String => SessionState)) :
    AList (fun _ : String => SessionState) where
  entries := m.entries.filter fun e => keep e.2
  nodupKeys := m.nodupKeys.sublist List.filter_sublist

namespace SessionManager

variable (jwt : Jwt) (mgr : SessionManager)

def new (base64 : String → Option (List UInt8)) (random : List UInt8) (ttl : UInt64)
    (secret : Option String) : SessionManager where
  ttl := ttl
  key := sessionKey base64 random secret
  sessions := ∅

/-- The TTL as a `Duration`, in nanoseconds. -/
def ttlNanos : Nat := mgr.ttl.toNat * 1000000000

/-- The claims of a session minted now; the sum wraps as a release build's does. -/
def newClaims (now : Now) (sub : String) (clientInfo : Option Value) : SessionClaims where
  sub := sub
  iss := jwtIssuer
  iat := now.unix
  exp := now.unix + mgr.ttl
  clientInfo := clientInfo

def createSession (now : Now) (sub : String) (clientInfo : Option Value) :
    String × SessionManager :=
  let id := jwt.encode mgr.key (mgr.newClaims now sub clientInfo)
  let state : SessionState :=
    { createdAt := now.instant, lastActive := now.instant, clientInfo := clientInfo,
      logLevel := none }
  (id, { mgr with sessions := mgr.sessions.insert id state })

/-- `decode_claims`: the signature, the issuer, and the expiry with its leeway. -/
def decodeClaims (now : Now) (id : String) : Option SessionClaims :=
  match jwt.decode mgr.key id with
  | none => none
  | some claims =>
      if claims.iss = jwtIssuer ∧ now.unix.toNat ≤ claims.exp.toNat + jwtLeeway then some claims
      else none

/-- `last_active.elapsed() < ttl`. -/
def isActive (now : Now) (s : SessionState) : Bool :=
  now.instant - s.lastActive < mgr.ttlNanos

def validateSession (now : Now) (id : String) : Bool :=
  match mgr.decodeClaims jwt now id with
  | none => false
  | some _ =>
      match mgr.sessions.lookup id with
      | some s => mgr.isActive now s
      | none => false

/-- Change the session with this id, if there is one. -/
def update (id : String) (f : SessionState → SessionState) : SessionManager :=
  match mgr.sessions.lookup id with
  | some s => { mgr with sessions := mgr.sessions.insert id (f s) }
  | none => mgr

def touchSession (now : Now) (id : String) : SessionManager :=
  mgr.update id fun s => { s with lastActive := now.instant }

/-- The session check of `handle_mcp` and `get_mcp`: validate, and touch if valid. -/
def checkAndTouch (now : Now) (id : String) : Bool × SessionManager :=
  if mgr.validateSession jwt now id then (true, mgr.touchSession now id) else (false, mgr)

/-- Whether a session was removed, and the manager after. -/
def terminateSession (id : String) : Bool × SessionManager :=
  ((mgr.sessions.lookup id).isSome, { mgr with sessions := mgr.sessions.erase id })

def setLogLevel (id level : String) : Bool × SessionManager :=
  ((mgr.sessions.lookup id).isSome, mgr.update id fun s => { s with logLevel := some level })

def getLogLevel (id : String) : Option String :=
  (mgr.sessions.lookup id).bind SessionState.logLevel

/-- How many sessions were removed, and the manager after. -/
def pruneExpired (now : Now) : Nat × SessionManager :=
  let kept := retain (mgr.isActive now) mgr.sessions
  (mgr.sessions.entries.length - kept.entries.length, { mgr with sessions := kept })

end SessionManager

/-! ### What the map has after each operation -/

theorem lookup_retain (keep : SessionState → Bool) (m : AList (fun _ : String => SessionState))
    (id : String) : (retain keep m).lookup id = (m.lookup id).filter keep := by
  refine Option.ext fun s => ?_
  rw [Option.filter_eq_some_iff]
  have hmem : (retain keep m).lookup id = some s ↔ ⟨id, s⟩ ∈ (retain keep m).entries :=
    AList.mem_lookup_iff
  rw [hmem, retain, List.mem_filter]
  exact and_congr_left' AList.mem_lookup_iff.symm

namespace SessionManager

variable (mgr : SessionManager)

theorem lookup_update (id : String) (f : SessionState → SessionState) (other : String) :
    (mgr.update id f).sessions.lookup other
      = if other = id then (mgr.sessions.lookup id).map f else mgr.sessions.lookup other := by
  by_cases hother : other = id
  · subst hother
    rw [if_pos rfl, update]
    cases hid : mgr.sessions.lookup other with
    | none => exact hid
    | some s => exact AList.lookup_insert _
  · rw [if_neg hother, update]
    split
    · exact AList.lookup_insert_ne hother
    · rfl

@[simp] theorem ttl_update (id : String) (f : SessionState → SessionState) :
    (mgr.update id f).ttl = mgr.ttl := by
  unfold update
  split <;> rfl

@[simp] theorem key_update (id : String) (f : SessionState → SessionState) :
    (mgr.update id f).key = mgr.key := by
  unfold update
  split <;> rfl

theorem isActive_eq_true {now : Now} {s : SessionState} :
    mgr.isActive now s = true ↔ now.instant - s.lastActive < mgr.ttlNanos :=
  decide_eq_true_iff

/-- A session is accepted exactly when its token is and it has been active. -/
theorem validateSession_eq_true {jwt : Jwt} {now : Now} {id : String} :
    mgr.validateSession jwt now id = true ↔
      (∃ claims, mgr.decodeClaims jwt now id = some claims) ∧
        ∃ s, mgr.sessions.lookup id = some s ∧ mgr.isActive now s = true := by
  unfold validateSession
  cases mgr.decodeClaims jwt now id with
  | none => simp
  | some claims => cases mgr.sessions.lookup id <;> simp

end SessionManager

end McpFederation
