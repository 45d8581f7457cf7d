/-
The expiry of a new session.

`create_session` adds the TTL to the system clock for the token's `exp`, and keeps it as a
`Duration` for the idle check.  The TTL is a number of the configuration file that nothing
checks.  The `Duration` takes any of them.  The sum does not: beyond the last `u64` it wraps
around to before the creation, and the token is taken for one that has expired long ago,
while the idle check would still let the session live for ages.  `expiry_sound_iff` says
that a new session is good for its TTL exactly when the sum fits.
-/
import McpFederation.Proofs.Sessions

namespace McpFederation

namespace SessionManager

/-- A session minted at `t₀`: its token expires one TTL after it was issued, and whatever
else happens, it is accepted for less than the TTL unless somebody terminates it. -/
structure ExpiresInTime (jwt : Jwt) (epoch : Nat) (mgr : SessionManager) (t₀ : Nat)
    (sub : String) (clientInfo : Option Value) : Prop where
  exp : (mgr.newClaims (Now.ofInstant epoch t₀) sub clientInfo).exp.toNat
    = (mgr.newClaims (Now.ofInstant epoch t₀) sub clientInfo).iat.toNat + mgr.ttl.toNat
  valid : ∀ (events : List SessionEvent) (t : Nat), t₀ ≤ t → t - t₀ < mgr.ttlNanos →
    (∀ e ∈ events, t₀ ≤ e.time ∧ e.time ≤ t ∧
      e.op ≠ .terminate (mgr.createSession jwt (Now.ofInstant epoch t₀) sub clientInfo).1) →
    (Runs.run (step jwt epoch) (mgr.createSession jwt (Now.ofInstant epoch t₀) sub clientInfo).2
      events).validateSession jwt (Now.ofInstant epoch t)
        (mgr.createSession jwt (Now.ofInstant epoch t₀) sub clientInfo).1 = true

section

variable {jwt : Jwt} {epoch t₀ t : Nat} {id : String}

/-- Within its TTL a session stays in the map, unless it is terminated. -/
theorem Alive.step_within {mgr : SessionManager} (h : mgr.Alive id t₀) {e : SessionEvent}
    (htime : t₀ ≤ e.time) (httl : e.time - t₀ < mgr.ttlNanos) (hop : e.op ≠ .terminate id) :
    (mgr.step jwt epoch e).Alive id t₀ := by
  by_cases hrequest : e.op = .request id
  · simp only [step, hrequest, checkAndTouch]
    split
    · exact h.update fun _ _ _ => htime
    · exact h
  · rcases h.step_other jwt epoch htime hrequest hop with halive | hidle
    · exact halive
    · exact absurd httl (Nat.not_lt.mpr hidle)

theorem Alive.run_within {mgr : SessionManager} (jwt : Jwt) (epoch : Nat) (h : mgr.Alive id t₀)
    {events : List SessionEvent}
    (hevents : ∀ e ∈ events, t₀ ≤ e.time ∧ e.time ≤ t ∧ e.op ≠ .terminate id)
    (httl : t - t₀ < mgr.ttlNanos) : (Runs.run (step jwt epoch) mgr events).Alive id t₀ := by
  refine (Runs.inv_run (I := fun m => m.ttl = mgr.ttl ∧ m.Alive id t₀)
    (G := fun _ e => t₀ ≤ e.time ∧ e.time ≤ t ∧ e.op ≠ .terminate id) ?_ events mgr ⟨rfl, h⟩
    (Runs.along_of_forall fun e he _ => hevents e he)).2
  intro m e hm hguard
  obtain ⟨httl', halive⟩ := hm
  obtain ⟨hlow, hhigh, hop⟩ := hguard
  refine ⟨(m.step_key jwt epoch e).2.trans httl', halive.step_within hlow ?_ hop⟩
  rw [ttlNanos, httl']
  exact Nat.lt_of_le_of_lt (Nat.sub_le_sub_right hhigh t₀) httl

/-- Less than a TTL takes the system clock no further than the TTL. -/
theorem unixSeconds_le (epoch : Nat) {ttl : Nat} (h : t - t₀ < ttl * 1000000000) :
    unixSeconds epoch t ≤ unixSeconds epoch t₀ + ttl := by
  unfold unixSeconds
  omega

end

/--
**When a new session is good for its TTL.**  Its expiry is the creation time plus the TTL,
and it is accepted for less than the TTL unless it is terminated, if and only if that sum is
a `u64`.
-/
theorem expiry_sound_iff (jwt : Jwt) (epoch : Nat) (mgr : SessionManager) (t₀ : Nat)
    (sub : String) (clientInfo : Option Value)
    (hjwt : jwt.Faithful mgr.key (mgr.newClaims (Now.ofInstant epoch t₀) sub clientInfo))
    (hclock : unixSeconds epoch t₀ < 2 ^ 64) :
    ExpiresInTime jwt epoch mgr t₀ sub clientInfo ↔
      unixSeconds epoch t₀ + mgr.ttl.toNat < 2 ^ 64 := by
  have hiat : (mgr.newClaims (Now.ofInstant epoch t₀) sub clientInfo).iat.toNat
      = unixSeconds epoch t₀ := unix_ofInstant hclock
  have hexp : (mgr.newClaims (Now.ofInstant epoch t₀) sub clientInfo).exp.toNat
      = (unixSeconds epoch t₀ + mgr.ttl.toNat) % 2 ^ 64 := by
    simp only [newClaims, UInt64.toNat_add]
    rw [unix_ofInstant hclock]
  refine ⟨?_, ?_⟩
  · intro h
    have hsum := h.exp
    rw [hexp, hiat] at hsum
    rw [← hsum]
    exact Nat.mod_lt _ (by decide)
  · intro hfits
    rw [Nat.mod_eq_of_lt hfits] at hexp
    refine ⟨by rw [hexp, hiat], ?_⟩
    intro events t hle httl hevents
    have hnew : (mgr.createSession jwt (Now.ofInstant epoch t₀) sub clientInfo).2.Alive
        (mgr.createSession jwt (Now.ofInstant epoch t₀) sub clientInfo).1 t₀ :=
      ⟨_, AList.lookup_insert _, le_refl _⟩
    obtain ⟨s, hs, hlast⟩ := (hnew.run_within jwt epoch hevents httl).active
    obtain ⟨hkey, hsame⟩ := run_key jwt epoch events
      (mgr.createSession jwt (Now.ofInstant epoch t₀) sub clientInfo).2
    refine (validateSession_eq_true _).mpr ⟨?_, s, hs, ?_⟩
    · -- The token is good until the clock has gone past the TTL and the leeway.
      have hunix := unixSeconds_le epoch httl
      refine (decodeClaims_isSome_iff (by rw [hkey]; exact hjwt) rfl _).mpr ?_
      rw [unix_ofInstant (Nat.lt_of_le_of_lt hunix hfits), hexp]
      exact Nat.le_trans hunix (Nat.le_add_right _ _)
    · rw [isActive_eq_true, instant_ofInstant, ttlNanos, hsame]
      exact Nat.lt_of_le_of_lt (Nat.sub_le_sub_left hlast t) httl

/-- A session of ten seconds is good after nine, pruned or not. -/
theorem tenSeconds_expires_in_time :
    (Runs.run (step oneToken 0) (tenSeconds.createSession oneToken (Now.ofInstant 0 0) "u" none).2
      [⟨5000000000, .prune⟩]).validateSession oneToken (Now.ofInstant 0 9000000000) "token"
        = true := by
  refine ((expiry_sound_iff oneToken 0 tenSeconds 0 "u" none rfl (by decide)).mpr
    (by decide)).valid [⟨5000000000, .prune⟩] 9000000000 (by decide) (by decide) ?_
  intro e he
  obtain rfl := List.mem_singleton.mp he
  exact ⟨by decide, by decide, by simp⟩

/-! ### A session for ever -/

/-- The largest TTL there is. -/
def longest : SessionManager := ⟨18446744073709551615, [0], ∅⟩

/-- The one token of a session that was minted a minute after the epoch. -/
def longestToken : Jwt where
  encode := fun _ _ => "token"
  decode := fun _ id =>
    if id = "token" then some (longest.newClaims (Now.ofInstant 0 60000000000) "u" none) else none

/-- It expires a second before it is issued, and ten seconds later it is refused. -/
theorem longest_expired :
    longestToken.Faithful longest.key (longest.newClaims (Now.ofInstant 0 60000000000) "u" none) ∧
      (longest.newClaims (Now.ofInstant 0 60000000000) "u" none).exp = 59 ∧
      (longest.createSession longestToken (Now.ofInstant 0 60000000000) "u" none).2.validateSession
        longestToken (Now.ofInstant 0 70000000000) "token" = false ∧
      ¬ ExpiresInTime longestToken 0 longest 60000000000 "u" none := by
  have hrefused : (longest.createSession longestToken (Now.ofInstant 0 60000000000) "u"
      none).2.validateSession longestToken (Now.ofInstant 0 70000000000) "token" = false := by
    decide
  refine ⟨rfl, by decide, hrefused, fun h => ?_⟩
  have hvalid := h.valid [] 70000000000 (by decide) (by decide) (by simp)
  exact absurd (hrefused.symm.trans hvalid) (by decide)

end SessionManager

end McpFederation
