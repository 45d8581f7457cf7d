/-
How long an active session lives.

The documentation has sessions expire after `session_ttl_seconds` of inactivity, and
`touch_session` moves `last_active` forward at every request.  But `validate_session`
first decodes the token, whose `exp` was fixed when the session was created and is never
renewed.  So a session that is used all the time still ends `ttl` seconds after its
creation, with five seconds of leeway: `requests_accepted_iff`.
-/
import Mathlib.Algebra.Ring.Nat
import McpFederation.Lib.Runs
import McpFederation.Model.Session

namespace McpFederation

/-- What can happen to the sessions of a server. -/
inductive SessionOp where
  | create (sub : String) (clientInfo : Option Value)
  /-- A request that carries this session id. -/
  | request (id : String)
  | terminate (id : String)
  | setLogLevel (id level : String)
  | prune

/-- An operation and the instant it happens at. -/
structure SessionEvent where
  time : Nat
  op : SessionOp

/-- Both clocks at one instant; the system clock stood at `epoch` nanoseconds when the
instants began. -/
def Now.ofInstant (epoch instant : Nat) : Now :=
  ⟨instant, UInt64.ofNat ((epoch + instant) / 1000000000)⟩

theorem instant_ofInstant (epoch t : Nat) : (Now.ofInstant epoch t).instant = t := rfl

/-- The whole seconds of the system clock. -/
def unixSeconds (epoch instant : Nat) : Nat := (epoch + instant) / 1000000000

namespace SessionManager

variable (jwt : Jwt) (epoch : Nat)

/-- The manager after one event. -/
def step (mgr : SessionManager) (e : SessionEvent) : SessionManager :=
  let now := Now.ofInstant epoch e.time
  match e.op with
  | .create sub clientInfo => (mgr.createSession jwt now sub clientInfo).2
  | .request id => (mgr.checkAndTouch jwt now id).2
  | .terminate id => (mgr.terminateSession id).2
  | .setLogLevel id level => (mgr.setLogLevel id level).2
  | .prune => (mgr.pruneExpired now).2

/-- A request with this id is accepted. -/
def Accepts (id : String) (mgr : SessionManager) (e : SessionEvent) : Prop :=
  e.op = .request id → mgr.validateSession jwt (Now.ofInstant epoch e.time) id = true

end SessionManager

/--
Events that keep the session `id` active: the clock does not go back, a request with the
id comes less than `ttl` nanoseconds after the one before, and nobody terminates it.
-/
def KeepsActive (ttl : Nat) (id : String) : Nat → Nat → List SessionEvent → Prop
  | _, _, [] => True
  | clock, last, e :: rest =>
      clock ≤ e.time ∧
        match e.op with
        | .request other =>
            if other = id then e.time - last < ttl ∧ KeepsActive ttl id e.time e.time rest
            else KeepsActive ttl id e.time last rest
        | .terminate other => other ≠ id ∧ KeepsActive ttl id e.time last rest
        | _ => KeepsActive ttl id e.time last rest

/-- Once the session has been idle for its TTL, no request can come any more. -/
theorem KeepsActive.no_request {ttl : Nat} {id : String} {last : Nat}
    {events : List SessionEvent} :
    ∀ {clock : Nat}, KeepsActive ttl id clock last events → ttl ≤ clock - last →
      ∀ e ∈ events, e.op ≠ .request id := by
  induction events with
  | nil => intro clock _ _ e he; simp at he
  | cons e rest ih =>
      intro clock h hidle
      have hclock := h.1
      have hrest : KeepsActive ttl id e.time last rest ∧ e.op ≠ .request id := by
        have h := h.2
        cases hop : e.op with
        | request other =>
            rw [hop] at h
            by_cases hid : other = id
            · simp only [hid, if_true] at h
              omega
            · simp only [hid, if_false] at h
              exact ⟨h, by simpa using hid⟩
        | terminate other => rw [hop] at h; exact ⟨h.2, by simp⟩
        | create sub info => rw [hop] at h; exact ⟨h, by simp⟩
        | setLogLevel other level => rw [hop] at h; exact ⟨h, by simp⟩
        | prune => rw [hop] at h; exact ⟨h, by simp⟩
      intro f hf
      rcases List.mem_cons.mp hf with rfl | hf
      · exact hrest.2
      · exact ih hrest.1 (by omega) f hf

namespace SessionManager

variable {jwt : Jwt} {epoch : Nat}

/-! ### What every event leaves alone -/

theorem step_key (jwt : Jwt) (epoch : Nat) (mgr : SessionManager) (e : SessionEvent) :
    (mgr.step jwt epoch e).key = mgr.key ∧ (mgr.step jwt epoch e).ttl = mgr.ttl := by
  unfold step
  cases e.op with
  | request id =>
      simp only [checkAndTouch]
      split
      · exact ⟨mgr.key_update _ _, mgr.ttl_update _ _⟩
      · exact ⟨rfl, rfl⟩
  | setLogLevel id level => exact ⟨mgr.key_update _ _, mgr.ttl_update _ _⟩
  | create sub info => exact ⟨rfl, rfl⟩
  | terminate id => exact ⟨rfl, rfl⟩
  | prune => exact ⟨rfl, rfl⟩

theorem run_key (jwt : Jwt) (epoch : Nat) (events : List SessionEvent) (mgr : SessionManager) :
    (Runs.run (step jwt epoch) mgr events).key = mgr.key ∧
      (Runs.run (step jwt epoch) mgr events).ttl = mgr.ttl := by
  refine Runs.inv_run (I := fun m => m.key = mgr.key ∧ m.ttl = mgr.ttl) (G := fun _ _ => True)
    ?_ events mgr ⟨rfl, rfl⟩ (Runs.along_of_forall fun _ _ _ => trivial)
  intro m e hm _
  obtain ⟨hkey, httl⟩ := m.step_key jwt epoch e
  exact ⟨hkey.trans hm.1, httl.trans hm.2⟩

/-! ### The session -/

/-- The session `id` is in the map and has been active since `last`. -/
structure Alive (id : String) (last : Nat) (mgr : SessionManager) : Prop where
  active : ∃ s, mgr.sessions.lookup id = some s ∧ last ≤ s.lastActive

/-- Changing another field of some session leaves this one alive. -/
theorem Alive.update {id : String} {last : Nat} {mgr : SessionManager} (h : mgr.Alive id last)
    {other : String} {f : SessionState → SessionState}
    (hf : other = id → ∀ s, last ≤ s.lastActive → last ≤ (f s).lastActive) :
    (mgr.update other f).Alive id last := by
  obtain ⟨s, hs, hlast⟩ := h.active
  by_cases hid : id = other
  · subst hid
    exact ⟨f s, by rw [lookup_update, if_pos rfl, hs]; rfl, hf rfl s hlast⟩
  · exact ⟨s, by rw [lookup_update, if_neg hid]; exact hs, hlast⟩

/-- An accepted request moves the session's activity to its own time. -/
theorem Alive.step_request {id : String} {last : Nat} {mgr : SessionManager}
    (h : mgr.Alive id last) {e : SessionEvent} (hop : e.op = .request id)
    (hvalid : mgr.validateSession jwt (Now.ofInstant epoch e.time) id = true) :
    (mgr.step jwt epoch e).Alive id e.time := by
  obtain ⟨s, hs, -⟩ := h.active
  refine ⟨{ s with lastActive := e.time }, ?_, le_refl _⟩
  simp only [step, hop, checkAndTouch, hvalid, if_true, touchSession]
  rw [lookup_update, if_pos rfl, hs]
  rfl

/-- Any other event leaves the session alive, unless it prunes it for being idle. -/
theorem Alive.step_other (jwt : Jwt) (epoch : Nat) {id : String} {last : Nat} {mgr : SessionManager}
    (h : mgr.Alive id last) {e : SessionEvent} (htime : last ≤ e.time)
    (hrequest : e.op ≠ .request id) (hterminate : e.op ≠ .terminate id) :
    (mgr.step jwt epoch e).Alive id last ∨ mgr.ttlNanos ≤ e.time - last := by
  obtain ⟨s, hs, hlast⟩ := h.active
  unfold step
  cases hop : e.op with
  | create sub info =>
      left
      simp only [createSession]
      by_cases hid : id = jwt.encode mgr.key (mgr.newClaims (Now.ofInstant epoch e.time) sub info)
      · rw [← hid]
        exact ⟨_, AList.lookup_insert _, htime⟩
      · exact ⟨s, by rw [AList.lookup_insert_ne hid]; exact hs, hlast⟩
  | request other =>
      have hne : other ≠ id := fun hc => hrequest (by rw [hop, hc])
      left
      simp only [checkAndTouch]
      split
      · exact h.update fun hc => absurd hc hne
      · exact h
  | terminate other =>
      have hne : id ≠ other := fun hc => hterminate (by rw [hop, hc])
      exact Or.inl ⟨s, by simpa only [terminateSession, AList.lookup_erase_ne hne] using hs, hlast⟩
  | setLogLevel other level => exact Or.inl (h.update fun _ _ hs => hs)
  | prune =>
      by_cases hactive : mgr.isActive (Now.ofInstant epoch e.time) s = true
      · refine Or.inl ⟨s, ?_, hlast⟩
        simp only [pruneExpired, lookup_retain, hs, Option.filter_some, hactive, if_true]
      · right
        rw [isActive_eq_true, instant_ofInstant] at hactive
        omega

/-! ### The token -/

/-- The clock fits its type at this time. -/
theorem unix_ofInstant {t : Nat} (h : unixSeconds epoch t < 2 ^ 64) :
    (Now.ofInstant epoch t).unix.toNat = unixSeconds epoch t :=
  UInt64.toNat_ofNat_of_lt' h

/-- A session's own token is accepted up to its TTL and leeway after its creation. -/
theorem decodeClaims_isSome_iff {mgr : SessionManager} {id : String} {claims : SessionClaims}
    (hdecode : jwt.decode mgr.key id = some claims) (hiss : claims.iss = jwtIssuer) (now : Now) :
    (∃ c, mgr.decodeClaims jwt now id = some c) ↔
      now.unix.toNat ≤ claims.exp.toNat + jwtLeeway := by
  simp only [decodeClaims, hdecode, hiss, true_and]
  split <;> simp_all

section

variable {key : List UInt8} {ttl : UInt64} {id : String} {claims : SessionClaims}

/-- Requests within the token's life are accepted as long as the session is kept active. -/
theorem accepts_of_token (hdecode : jwt.decode key id = some claims)
    (hiss : claims.iss = jwtIssuer) {events : List SessionEvent} :
    ∀ {clock last : Nat} {mgr : SessionManager}, mgr.key = key → mgr.ttl = ttl →
      mgr.Alive id last → last ≤ clock →
      KeepsActive (ttl.toNat * 1000000000) id clock last events →
      (∀ e ∈ events, e.op = .request id →
        (Now.ofInstant epoch e.time).unix.toNat ≤ claims.exp.toNat + jwtLeeway) →
      Runs.Along (step jwt epoch) (Accepts jwt epoch id) mgr events := by
  induction events with
  | nil => intros; trivial
  | cons e rest ih =>
      intro clock last mgr hkey httl halive hle hactive htoken
      obtain ⟨hstepkey, hstepttl⟩ := mgr.step_key jwt epoch e
      have hle' : last ≤ e.time := Nat.le_trans hle hactive.1
      have htoken' := fun f hf => htoken f (List.mem_cons_of_mem _ hf)
      by_cases hrequest : e.op = .request id
      · -- The request is in time for both clocks, and starts the inactivity clock again.
        have hnext := hactive.2
        simp only [hrequest, if_true] at hnext
        obtain ⟨s, hs, hlast⟩ := halive.active
        have hvalid : mgr.validateSession jwt (Now.ofInstant epoch e.time) id = true := by
          refine mgr.validateSession_eq_true.mpr ⟨?_, s, hs, ?_⟩
          · exact (decodeClaims_isSome_iff (by rw [hkey]; exact hdecode) hiss _).mpr
              (htoken e List.mem_cons_self hrequest)
          · rw [isActive_eq_true, ttlNanos, httl, instant_ofInstant]
            omega
        exact ⟨fun _ => hvalid, ih (hstepkey.trans hkey) (hstepttl.trans httl)
          (halive.step_request hrequest hvalid) (le_refl _) hnext.2 htoken'⟩
      · have hnext : KeepsActive (ttl.toNat * 1000000000) id e.time last rest ∧
            e.op ≠ .terminate id := by
          have h := hactive.2
          cases hop : e.op with
          | request other =>
              have hne : other ≠ id := fun hc => hrequest (by rw [hop, hc])
              simp only [hop, hne, if_false] at h
              exact ⟨h, by simp⟩
          | terminate other => rw [hop] at h; exact ⟨h.2, by simpa using h.1⟩
          | create sub info => rw [hop] at h; exact ⟨h, by simp⟩
          | setLogLevel other level => rw [hop] at h; exact ⟨h, by simp⟩
          | prune => rw [hop] at h; exact ⟨h, by simp⟩
        refine ⟨fun hc => absurd hc hrequest, ?_⟩
        rcases halive.step_other jwt epoch hle' hrequest hnext.2 with
          halive' | hidle
        · exact ih (hstepkey.trans hkey) (hstepttl.trans httl) halive' hle' hnext.1 htoken'
        · -- It was pruned, so it had been idle too long for another request to come.
          rw [ttlNanos, httl] at hidle
          have hnone := hnext.1.no_request hidle
          exact Runs.along_of_forall fun f hf _ hc => absurd hc (hnone f hf)

/-- An accepted request came within the token's life. -/
theorem token_of_accepts (hdecode : jwt.decode key id = some claims)
    (hiss : claims.iss = jwtIssuer) {events : List SessionEvent} :
    ∀ {mgr : SessionManager}, mgr.key = key →
      Runs.Along (step jwt epoch) (Accepts jwt epoch id) mgr events →
      ∀ e ∈ events, e.op = .request id →
        (Now.ofInstant epoch e.time).unix.toNat ≤ claims.exp.toNat + jwtLeeway := by
  induction events with
  | nil => intro mgr _ _ e he; simp at he
  | cons e rest ih =>
      intro mgr hkey h f hf hop
      rcases List.mem_cons.mp hf with rfl | hf
      · have hvalid := mgr.validateSession_eq_true.mp (h.1 hop)
        exact (decodeClaims_isSome_iff (by rw [hkey]; exact hdecode) hiss _).mp hvalid.1
      · exact ih ((mgr.step_key jwt epoch e).1.trans hkey) h.2 f hf hop

end

/--
**How long an active session lives.**  A session is created at `t₀` and kept active: every
request with its id comes less than the TTL after the one before, and nobody terminates
it, whatever else happens to the sessions and however often they are pruned.  Every one
of these requests is accepted exactly when each comes, in whole seconds, no later than
the TTL and five seconds after the creation.
-/
theorem requests_accepted_iff (jwt : Jwt) (epoch : Nat) (mgr : SessionManager) (t₀ : Nat)
    (sub : String) (clientInfo : Option Value) (events : List SessionEvent)
    (hjwt : jwt.Faithful mgr.key (mgr.newClaims (Now.ofInstant epoch t₀) sub clientInfo))
    (hexp : unixSeconds epoch t₀ + mgr.ttl.toNat < 2 ^ 64)
    (hclock : ∀ e ∈ events, unixSeconds epoch e.time < 2 ^ 64)
    (hactive : KeepsActive mgr.ttlNanos
      (mgr.createSession jwt (Now.ofInstant epoch t₀) sub clientInfo).1 t₀ t₀ events) :
    Runs.Along (step jwt epoch)
        (Accepts jwt epoch (mgr.createSession jwt (Now.ofInstant epoch t₀) sub clientInfo).1)
        (mgr.createSession jwt (Now.ofInstant epoch t₀) sub clientInfo).2 events ↔
      ∀ e ∈ events,
        e.op = .request (mgr.createSession jwt (Now.ofInstant epoch t₀) sub clientInfo).1 →
        unixSeconds epoch e.time ≤ unixSeconds epoch t₀ + mgr.ttl.toNat + jwtLeeway := by
  have hexpires : (mgr.newClaims (Now.ofInstant epoch t₀) sub clientInfo).exp.toNat
      = unixSeconds epoch t₀ + mgr.ttl.toNat := by
    simp only [newClaims, UInt64.toNat_add]
    rw [unix_ofInstant (by omega), Nat.mod_eq_of_lt hexp]
  have hseconds : (∀ e ∈ events,
        e.op = .request (mgr.createSession jwt (Now.ofInstant epoch t₀) sub clientInfo).1 →
        (Now.ofInstant epoch e.time).unix.toNat
          ≤ (mgr.newClaims (Now.ofInstant epoch t₀) sub clientInfo).exp.toNat + jwtLeeway) ↔
      ∀ e ∈ events,
        e.op = .request (mgr.createSession jwt (Now.ofInstant epoch t₀) sub clientInfo).1 →
        unixSeconds epoch e.time ≤ unixSeconds epoch t₀ + mgr.ttl.toNat + jwtLeeway := by
    refine forall_congr' fun e => forall_congr' fun he => ?_
    rw [unix_ofInstant (hclock e he), hexpires]
  rw [← hseconds]
  refine ⟨?_, ?_⟩
  · intro h
    refine token_of_accepts hjwt rfl ?_ h
    rfl
  · intro h
    have halive : (mgr.createSession jwt (Now.ofInstant epoch t₀) sub clientInfo).2.Alive
        (mgr.createSession jwt (Now.ofInstant epoch t₀) sub clientInfo).1 t₀ :=
      ⟨_, AList.lookup_insert _, le_refl _⟩
    exact accepts_of_token hjwt rfl rfl rfl halive (le_refl _) hactive h

/-! ### A session of ten seconds, used every eight -/

/-- The claims of a session created at the start of the clock. -/
def tenSecondClaims : SessionClaims := ⟨"u", jwtIssuer, 0, 10, none⟩

/-- Tokens, of which there is one. -/
def oneToken : Jwt where
  encode := fun _ _ => "token"
  decode := fun _ id => if id = "token" then some tenSecondClaims else none

def tenSeconds : SessionManager := ⟨10, [0], ∅⟩

/-- A request at the given second. -/
def requestAt (seconds : Nat) : SessionEvent := ⟨seconds * 1000000000, .request "token"⟩

/-- One request after eight seconds, with prunes around it. -/
theorem tenSeconds_once_accepted :
    Runs.Along (step oneToken 0) (Accepts oneToken 0 "token")
      (tenSeconds.createSession oneToken (Now.ofInstant 0 0) "u" none).2
      [⟨5000000000, .prune⟩, requestAt 8, ⟨9000000000, .prune⟩] := by
  refine (requests_accepted_iff oneToken 0 tenSeconds 0 "u" none _ rfl (by decide) ?_ ?_).mpr ?_
  · decide
  · simp [KeepsActive, requestAt, createSession, oneToken, ttlNanos, tenSeconds]
  · simp [requestAt, createSession, oneToken, unixSeconds, tenSeconds, jwtLeeway]

/-- A second request eight seconds later is refused: the session has been active all the
time, but its token was good for ten seconds and the leeway. -/
theorem tenSeconds_twice_refused :
    oneToken.Faithful tenSeconds.key (tenSeconds.newClaims (Now.ofInstant 0 0) "u" none) ∧
      KeepsActive tenSeconds.ttlNanos "token" 0 0 [requestAt 8, requestAt 16] ∧
      ¬ Runs.Along (step oneToken 0) (Accepts oneToken 0 "token")
        (tenSeconds.createSession oneToken (Now.ofInstant 0 0) "u" none).2
        [requestAt 8, requestAt 16] := by
  refine ⟨rfl, by simp [KeepsActive, requestAt, ttlNanos, tenSeconds], fun h => ?_⟩
  have hvalid := h.2.1 rfl
  revert hvalid
  decide

end SessionManager

end McpFederation
