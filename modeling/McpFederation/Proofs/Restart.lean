/-
What a restart does to sessions.

The documentation of `session_secret` has a stable secret keep sessions valid across
restarts, and a session id is a signed token, which a second manager with the same secret
can indeed read.  But `validate_session` also looks the id up in the map of sessions, and
the map of a manager that has just been built is empty.  So the second manager accepts
none of the first one's ids: they survive a restart exactly when the first manager would
not have accepted them either, `survives_restart_iff`.
-/
import McpFederation.Proofs.Sessions

namespace McpFederation

namespace SessionManager

variable {jwt : Jwt} {epoch : Nat}

/-- Whenever the one manager would accept the id, from `t₀` on, the other one does. -/
def Survives (jwt : Jwt) (epoch : Nat) (first second : SessionManager) (id : String) (t₀ : Nat) :
    Prop :=
  ∀ t, t₀ ≤ t → unixSeconds epoch t < 2 ^ 64 →
    first.validateSession jwt (Now.ofInstant epoch t) id = true →
    second.validateSession jwt (Now.ofInstant epoch t) id = true

theorem sessionKey_of_secret {base64 : String → Option (List UInt8)} {secret : String}
    {bytes : List UInt8} (hsecret : base64 secret = some bytes) (hbytes : bytes ≠ [])
    (random : List UInt8) : sessionKey base64 random (some secret) = bytes := by
  simp only [sessionKey, hsecret, hbytes, if_false]

/-- A manager that has just been built accepts no id at all. -/
theorem validateSession_new (jwt : Jwt) (base64 : String → Option (List UInt8))
    (random : List UInt8) (ttl : UInt64) (secret : Option String) (now : Now) (id : String) :
    (new base64 random ttl secret).validateSession jwt now id = false := by
  rw [Bool.eq_false_iff, ne_eq, validateSession_eq_true]
  intro h
  obtain ⟨-, s, hs, -⟩ := h
  simp [new] at hs

/-- A session just created is accepted for its TTL, if its token is good at all. -/
theorem validateSession_createSession {mgr : SessionManager} {t₀ t : Nat} {sub : String}
    {clientInfo : Option Value}
    (hjwt : jwt.Faithful mgr.key (mgr.newClaims (Now.ofInstant epoch t₀) sub clientInfo)) :
    (mgr.createSession jwt (Now.ofInstant epoch t₀) sub clientInfo).2.validateSession jwt
        (Now.ofInstant epoch t)
        (mgr.createSession jwt (Now.ofInstant epoch t₀) sub clientInfo).1 = true ↔
      (Now.ofInstant epoch t).unix.toNat
          ≤ (mgr.newClaims (Now.ofInstant epoch t₀) sub clientInfo).exp.toNat + jwtLeeway ∧
        t - t₀ < mgr.ttlNanos := by
  rw [validateSession_eq_true]
  refine and_congr (decodeClaims_isSome_iff hjwt rfl _) ?_
  simp only [createSession, AList.lookup_insert, Option.some.injEq, exists_eq_left',
    isActive_eq_true, instant_ofInstant]
  rfl

/--
**What survives a restart.**  A manager is built with a secret that decodes to at least one
byte, has any history, and mints an id at `t₀`.  A second manager is built with the same
TTL and secret.  It accepts the id whenever the first one would have, exactly when the TTL
is zero, or is so large that the token's expiry wraps around to more than the leeway
before `t₀`: when there is no instant at which the first one would have accepted it.
-/
theorem survives_restart_iff (jwt : Jwt) (base64 : String → Option (List UInt8))
    (random random' : List UInt8) (ttl : UInt64) (secret : String) (bytes : List UInt8)
    (epoch t₀ : Nat) (before : List SessionEvent) (sub : String) (clientInfo : Option Value)
    (hsecret : base64 secret = some bytes) (hbytes : bytes ≠ [])
    (hclock : unixSeconds epoch t₀ < 2 ^ 64) (mgr : SessionManager)
    (hmgr : mgr = Runs.run (step jwt epoch) (new base64 random ttl (some secret)) before)
    (hjwt : jwt.Faithful bytes (mgr.newClaims (Now.ofInstant epoch t₀) sub clientInfo)) :
    Survives jwt epoch (mgr.createSession jwt (Now.ofInstant epoch t₀) sub clientInfo).2
        (new base64 random' ttl (some secret))
        (mgr.createSession jwt (Now.ofInstant epoch t₀) sub clientInfo).1 t₀ ↔
      ttl = 0 ∨ (unixSeconds epoch t₀ + ttl.toNat) % 2 ^ 64 + jwtLeeway < unixSeconds epoch t₀ := by
  have httl : mgr.ttl = ttl := by
    rw [hmgr, (run_key jwt epoch before _).2]
    rfl
  have hkey : mgr.key = bytes := by
    rw [hmgr, (run_key jwt epoch before _).1]
    exact sessionKey_of_secret hsecret hbytes random
  rw [← hkey] at hjwt
  have hexpires : (mgr.newClaims (Now.ofInstant epoch t₀) sub clientInfo).exp.toNat
      = (unixSeconds epoch t₀ + ttl.toNat) % 2 ^ 64 := by
    simp only [newClaims, UInt64.toNat_add, httl]
    rw [unix_ofInstant hclock]
  have hzero : ttl = 0 ↔ ttl.toNat = 0 := by
    rw [← UInt64.toNat_inj]
    rfl
  refine ⟨?_, ?_⟩
  · -- At `t₀` itself the first manager accepts, unless the token is dead on arrival.
    intro h
    by_contra hc
    rw [not_or, hzero, Nat.not_lt] at hc
    have hfirst := (validateSession_createSession (t := t₀) hjwt).mpr
      ⟨by rw [hexpires, unix_ofInstant hclock]; exact hc.2, by rw [ttlNanos, httl]; omega⟩
    have hsecond := h t₀ (le_refl _) hclock hfirst
    rw [validateSession_new] at hsecond
    exact absurd hsecond (by simp)
  · intro h t hle hfits haccepts
    exfalso
    obtain ⟨htoken, hactive⟩ := (validateSession_createSession hjwt).mp haccepts
    rw [hexpires, unix_ofInstant hfits] at htoken
    rw [ttlNanos, httl] at hactive
    have hmono : unixSeconds epoch t₀ ≤ unixSeconds epoch t :=
      Nat.div_le_div_right (Nat.add_le_add_left hle _)
    rcases h with h | h
    · rw [hzero] at h
      omega
    · omega

/-! ### A session of ten seconds -/

/-- Base64, of which one text is known. -/
def oneSecret (s : String) : Option (List UInt8) := if s = "AA==" then some [0] else none

/-- The one token, expired when it is minted. -/
def expiredToken : Jwt where
  encode := fun _ _ => "token"
  decode := fun _ id => if id = "token" then some ⟨"u", jwtIssuer, 0, 0, none⟩ else none

/-- With a TTL of zero nothing is lost: there was nothing to keep. -/
theorem zero_ttl_survives :
    Survives expiredToken 0
      ((new oneSecret [] 0 (some "AA==")).createSession expiredToken (Now.ofInstant 0 0)
        "u" none).2
      (new oneSecret [] 0 (some "AA==")) "token" 0 :=
  (survives_restart_iff expiredToken oneSecret [] [] 0 "AA==" [0] 0 0 [] "u" none rfl (by simp)
    (by decide) (new oneSecret [] 0 (some "AA==")) rfl rfl).mpr (Or.inl rfl)

/-- A session of ten seconds is good when the server restarts, and the new one rejects it. -/
theorem tenSeconds_lost_in_restart :
    oneToken.Faithful [0]
        ((new oneSecret [] 10 (some "AA==")).newClaims (Now.ofInstant 0 0) "u" none) ∧
      ¬ Survives oneToken 0
        ((new oneSecret [] 10 (some "AA==")).createSession oneToken (Now.ofInstant 0 0)
          "u" none).2
        (new oneSecret [] 10 (some "AA==")) "token" 0 := by
  refine ⟨rfl, fun h => ?_⟩
  have hsecond := h 3000000000 (by decide) (by decide) (by decide)
  revert hsecond
  decide

end SessionManager

end McpFederation
