/-
Pruning changes nothing a client can see, and a session that is gone stays gone.

`prune_expired` runs on a timer, so which idle sessions are still in the map is a matter
of chance.  It does not show: a session that a prune would remove fails validation anyway,
now and at every later instant.  `SameActive` relates two managers that may differ in such
sessions only.  Every operation keeps it, and validation cannot tell the two apart, so the
prunes of a run may be moved, added or left out.

For the second half, `Dead` says that an id fails validation from some instant on.  Only
minting the same id again could end that.
-/
import McpFederation.Proofs.Sessions

namespace McpFederation

def SessionOp.isPrune : SessionOp → Bool
  | .prune => true
  | _ => false

/-- The events of a run but its prunes. -/
def withoutPrunes (events : List SessionEvent) : List SessionEvent :=
  events.filter fun e => !e.op.isPrune

/-- The clock does not go back. -/
def InOrder (events : List SessionEvent) : Prop := events.Pairwise fun e f => e.time ≤ f.time

namespace SessionManager

variable (jwt : Jwt) (epoch : Nat)

/-- What a client learns from an event: whether its session was accepted. -/
def observe (mgr : SessionManager) (e : SessionEvent) : Option Bool × SessionManager :=
  (match e.op with
    | .request id => some (mgr.validateSession jwt (Now.ofInstant epoch e.time) id)
    | _ => none,
    mgr.step jwt epoch e)

/-- The events of a run but its prunes, each with what a client learnt from it. -/
def observed (mgr : SessionManager) (events : List SessionEvent) :
    List (SessionEvent × Option Bool) :=
  (Runs.outputs (observe jwt epoch) mgr events).filter fun o => !o.1.op.isPrune

/-- The ids that the sessions created in a run are given. -/
def issued (mgr : SessionManager) (events : List SessionEvent) : List String :=
  events.filterMap fun e =>
    match e.op with
    | .create sub clientInfo =>
        some (mgr.createSession jwt (Now.ofInstant epoch e.time) sub clientInfo).1
    | _ => none

/-- A request with this id is refused. -/
def Refuses (id : String) (mgr : SessionManager) (e : SessionEvent) : Prop :=
  e.op = .request id → mgr.validateSession jwt (Now.ofInstant epoch e.time) id = false

/-! ### What an event does to one session -/

/-- The session `id` after an event. -/
theorem lookup_step (mgr : SessionManager) (e : SessionEvent) (id : String) :
    (mgr.step jwt epoch e).sessions.lookup id =
      match e.op with
      | .create sub clientInfo =>
          if id = (mgr.createSession jwt (Now.ofInstant epoch e.time) sub clientInfo).1 then
            some ⟨e.time, e.time, clientInfo, none⟩
          else mgr.sessions.lookup id
      | .request other =>
          if id = other ∧
              mgr.validateSession jwt (Now.ofInstant epoch e.time) other = true then
            (mgr.sessions.lookup id).map fun s => { s with lastActive := e.time }
          else mgr.sessions.lookup id
      | .terminate other => if id = other then none else mgr.sessions.lookup id
      | .setLogLevel other level =>
          if id = other then
            (mgr.sessions.lookup id).map fun s => { s with logLevel := some level }
          else mgr.sessions.lookup id
      | .prune => (mgr.sessions.lookup id).filter (mgr.isActive (Now.ofInstant epoch e.time)) := by
  unfold step
  cases hop : e.op with
  | create sub clientInfo =>
      simp only
      split
      · rename_i hid
        rw [hid]
        exact AList.lookup_insert _
      · rename_i hid
        exact AList.lookup_insert_ne hid
  | request other =>
      simp only [checkAndTouch]
      by_cases hvalid : mgr.validateSession jwt (Now.ofInstant epoch e.time) other = true
      · simp only [hvalid, if_true, and_true, touchSession, lookup_update, instant_ofInstant]
        split
        · rename_i hid
          rw [hid]
        · rfl
      · simp only [hvalid, Bool.false_eq_true, if_false, and_false]
  | terminate other =>
      simp only [terminateSession]
      split
      · rename_i hid
        rw [hid]
        exact AList.lookup_erase _ _
      · rename_i hid
        exact AList.lookup_erase_ne hid
  | setLogLevel other level =>
      simp only [setLogLevel, lookup_update]
      split
      · rename_i hid
        rw [hid]
      · rfl
  | prune => exact lookup_retain _ _ _

/-! ### Two managers that differ in idle sessions -/

/-- The two have the same sessions, as far as these are active at the instant `t`. -/
structure SameActive (t : Nat) (m m' : SessionManager) : Prop where
  key : m.key = m'.key
  ttl : m.ttl = m'.ttl
  active : ∀ id s, t - s.lastActive < m.ttlNanos →
    (m.sessions.lookup id = some s ↔ m'.sessions.lookup id = some s)

section

variable {jwt : Jwt} {epoch t : Nat} {m m' : SessionManager}

theorem SameActive.ttlNanos (h : SameActive t m m') : m.ttlNanos = m'.ttlNanos := by
  unfold SessionManager.ttlNanos
  rw [h.ttl]

/-- What is active later is active now. -/
theorem SameActive.later (h : SameActive t m m') {t' : Nat} (hle : t ≤ t') :
    SameActive t' m m' :=
  ⟨h.key, h.ttl, fun id s hs => h.active id s (by omega)⟩

/-- Validation cannot tell them apart. -/
theorem SameActive.validateSession_eq (h : SameActive t m m') (jwt : Jwt) (epoch : Nat)
    (id : String) :
    m.validateSession jwt (Now.ofInstant epoch t) id
      = m'.validateSession jwt (Now.ofInstant epoch t) id := by
  have htoken : m.decodeClaims jwt (Now.ofInstant epoch t) id
      = m'.decodeClaims jwt (Now.ofInstant epoch t) id := by
    simp only [decodeClaims, h.key]
  rw [Bool.eq_iff_iff, validateSession_eq_true, validateSession_eq_true, htoken]
  refine and_congr_right fun _ => exists_congr fun s => ?_
  rw [isActive_eq_true, isActive_eq_true, instant_ofInstant, ← h.ttlNanos]
  exact and_congr_left fun hs => h.active id s hs

/-- An event that both see leads to managers that agree again. -/
theorem SameActive.step {e : SessionEvent} (h : SameActive e.time m m') :
    SameActive e.time (m.step jwt epoch e) (m'.step jwt epoch e) := by
  obtain ⟨hkey, httl⟩ := m.step_key jwt epoch e
  obtain ⟨hkey', httl'⟩ := m'.step_key jwt epoch e
  refine ⟨by rw [hkey, hkey', h.key], by rw [httl, httl', h.ttl], fun id s hs => ?_⟩
  have hactive : e.time - s.lastActive < m.ttlNanos := by
    rw [SessionManager.ttlNanos, httl] at hs
    exact hs
  rw [lookup_step, lookup_step]
  cases hop : e.op with
  | create sub clientInfo =>
      have hid : (m.createSession jwt (Now.ofInstant epoch e.time) sub clientInfo).1
          = (m'.createSession jwt (Now.ofInstant epoch e.time) sub clientInfo).1 := by
        simp only [createSession, newClaims, h.key, h.ttl]
      simp only [hid]
      split
      · exact Iff.rfl
      · exact h.active id s hactive
  | request other =>
      simp only [h.validateSession_eq jwt epoch other]
      split
      · -- The session is accepted in both, so it is active and the same in both.
        rename_i hvalid
        obtain ⟨rfl, hvalid⟩ := hvalid
        rw [← h.validateSession_eq jwt epoch, validateSession_eq_true] at hvalid
        obtain ⟨-, s₀, hs₀, hs₀active⟩ := hvalid
        rw [isActive_eq_true, instant_ofInstant] at hs₀active
        rw [hs₀, (h.active _ s₀ hs₀active).mp hs₀]
      · exact h.active id s hactive
  | terminate other =>
      simp only
      split
      · exact Iff.rfl
      · exact h.active id s hactive
  | setLogLevel other level =>
      simp only
      split
      · -- The log level is no part of being active.
        simp only [Option.map_eq_some_iff]
        refine exists_congr fun s₀ => and_congr_left fun hs₀ => h.active id s₀ ?_
        rw [← hs₀] at hactive
        exact hactive
      · exact h.active id s hactive
  | prune =>
      simp only [Option.filter_eq_some_iff, isActive_eq_true, instant_ofInstant, ← h.ttlNanos]
      exact and_congr_left fun _ => h.active id s hactive

/-- A prune that only one of them sees makes no difference. -/
theorem SameActive.prune {e : SessionEvent} (h : SameActive e.time m m') (hop : e.op = .prune) :
    SameActive e.time (m.step jwt epoch e) m' := by
  obtain ⟨hkey, httl⟩ := m.step_key jwt epoch e
  refine ⟨hkey.trans h.key, httl.trans h.ttl, fun id s hs => ?_⟩
  have hactive : e.time - s.lastActive < m.ttlNanos := by
    rw [SessionManager.ttlNanos, httl] at hs
    exact hs
  rw [lookup_step, hop]
  simp only [Option.filter_eq_some_iff, isActive_eq_true, instant_ofInstant, hactive, and_true]
  exact h.active id s hactive

theorem SameActive.refl (t : Nat) (m : SessionManager) : SameActive t m m :=
  ⟨rfl, rfl, fun _ _ _ => Iff.rfl⟩

end

/-- The managers agree, with these events still to come in order. -/
def Agreeing (m m' : SessionManager) (rest : List SessionEvent) : Prop :=
  InOrder rest ∧ ∃ t, (∀ e ∈ rest, t ≤ e.time) ∧ SameActive t m m'

theorem Agreeing.next {m m' : SessionManager} {e : SessionEvent} {rest : List SessionEvent}
    (h : Agreeing m m' (e :: rest)) : SameActive e.time m m' ∧
      ∀ n n', SameActive e.time n n' → Agreeing n n' rest := by
  obtain ⟨horder, t, hle, hsame⟩ := h
  obtain ⟨hfirst, hrest⟩ := List.pairwise_cons.mp horder
  exact ⟨hsame.later (hle e List.mem_cons_self), fun n n' hn => ⟨hrest, e.time, hfirst, hn⟩⟩

/-- What is observed of a run is what is observed of it without its prunes. -/
theorem observed_eq (mgr : SessionManager) {events : List SessionEvent} (h : InOrder events) :
    mgr.observed jwt epoch events
      = Runs.outputs (observe jwt epoch) mgr (withoutPrunes events) := by
  refine Runs.outputs_filter (R := Agreeing) (fun e => !e.op.isPrune) ?_ ?_ events mgr mgr
    ⟨h, 0, fun _ _ => Nat.zero_le _, SameActive.refl 0 mgr⟩
  · intro m m' e rest hR _
    obtain ⟨hsame, hnext⟩ := hR.next
    refine ⟨?_, hnext _ _ hsame.step⟩
    simp only [observe]
    cases e.op with
    | request id => simp only [hsame.validateSession_eq jwt epoch]
    | create sub clientInfo => rfl
    | terminate id => rfl
    | setLogLevel id level => rfl
    | prune => rfl
  · intro m m' e rest hR hprune
    obtain ⟨hsame, hnext⟩ := hR.next
    have hop : e.op = .prune := by
      cases hop : e.op with
      | prune => rfl
      | _ => simp [hop, SessionOp.isPrune] at hprune
    exact hnext _ _ (hsame.prune hop)

/-! ### A session that is gone -/

section

variable {jwt : Jwt} {epoch t : Nat} {id : String} {mgr : SessionManager}

/-- The id fails validation from `t` on, as long as the clock fits its type. -/
def Dead (jwt : Jwt) (epoch t : Nat) (id : String) (mgr : SessionManager) : Prop :=
  ∀ t', t ≤ t' → unixSeconds epoch t' < 2 ^ 64 →
    mgr.validateSession jwt (Now.ofInstant epoch t') id = false

/-- What is accepted now was acceptable before, with nothing done in between. -/
theorem validateSession_earlier {t' : Nat} (hle : t ≤ t') (hfits : unixSeconds epoch t' < 2 ^ 64)
    (h : mgr.validateSession jwt (Now.ofInstant epoch t') id = true) :
    mgr.validateSession jwt (Now.ofInstant epoch t) id = true := by
  rw [validateSession_eq_true] at h ⊢
  obtain ⟨⟨claims, hclaims⟩, s, hs, hactive⟩ := h
  have hmono : unixSeconds epoch t ≤ unixSeconds epoch t' :=
    Nat.div_le_div_right (Nat.add_le_add_left hle _)
  have hfits₀ : unixSeconds epoch t < 2 ^ 64 := Nat.lt_of_le_of_lt hmono hfits
  refine ⟨?_, s, hs, ?_⟩
  · simp only [decodeClaims, unix_ofInstant hfits, unix_ofInstant hfits₀] at hclaims ⊢
    cases hdecode : jwt.decode mgr.key id with
    | none => simp [hdecode] at hclaims
    | some signed =>
        simp only [hdecode] at hclaims
        split at hclaims
        · rename_i hok
          exact ⟨signed, if_pos ⟨hok.1, by omega⟩⟩
        · simp at hclaims
  · rw [isActive_eq_true, instant_ofInstant] at hactive ⊢
    omega

/-- A failed validation is final, as far as the clock goes. -/
theorem dead_of_refused
    (h : mgr.validateSession jwt (Now.ofInstant epoch t) id = false) : Dead jwt epoch t id mgr := by
  intro t' hle hfits
  by_contra hc
  rw [Bool.not_eq_false] at hc
  rw [validateSession_earlier hle hfits hc] at h
  simp at h

theorem dead_of_absent (h : mgr.sessions.lookup id = none) : Dead jwt epoch t id mgr := by
  intro t' _ _
  rw [Bool.eq_false_iff, ne_eq, validateSession_eq_true]
  intro hvalid
  obtain ⟨-, s, hs, -⟩ := hvalid
  rw [h] at hs
  simp at hs

/-- An event that does not mint the id leaves it dead. -/
theorem Dead.step (h : Dead jwt epoch t id mgr) {e : SessionEvent} (hle : t ≤ e.time)
    (hfits : unixSeconds epoch e.time < 2 ^ 64)
    (hfresh : id ∉ mgr.issued jwt epoch [e]) : Dead jwt epoch e.time id (mgr.step jwt epoch e) := by
  intro t' hle' hfits'
  have hnow := h e.time hle hfits
  have hlater := h t' (Nat.le_trans hle hle') hfits'
  obtain ⟨hkey, httl⟩ := mgr.step_key jwt epoch e
  rw [Bool.eq_false_iff, ne_eq, validateSession_eq_true] at hlater ⊢
  intro hvalid
  obtain ⟨htoken, s, hs, hactive⟩ := hvalid
  -- Whatever the event left there was there before, active since the same instant.
  have hbefore : ∃ s₀, mgr.sessions.lookup id = some s₀ ∧ s₀.lastActive = s.lastActive := by
    rw [lookup_step] at hs
    cases hop : e.op with
    | create sub clientInfo =>
        simp only [hop] at hs
        split at hs
        · rename_i hid
          exact absurd (by simp [issued, hop, hid]) hfresh
        · exact ⟨s, hs, rfl⟩
    | request other =>
        simp only [hop] at hs
        split at hs
        · rename_i hvalid
          rw [← hvalid.1, hnow] at hvalid
          simp at hvalid
        · exact ⟨s, hs, rfl⟩
    | terminate other =>
        simp only [hop] at hs
        split at hs
        · simp at hs
        · exact ⟨s, hs, rfl⟩
    | setLogLevel other level =>
        simp only [hop] at hs
        split at hs
        · obtain ⟨s₀, hs₀, rfl⟩ := Option.map_eq_some_iff.mp hs
          exact ⟨s₀, hs₀, rfl⟩
        · exact ⟨s, hs, rfl⟩
    | prune =>
        simp only [hop] at hs
        exact ⟨s, (Option.filter_eq_some_iff.mp hs).1, rfl⟩
  obtain ⟨s₀, hs₀, hlast⟩ := hbefore
  refine hlater ⟨?_, s₀, hs₀, ?_⟩
  · simpa only [decodeClaims, hkey] using htoken
  · rw [isActive_eq_true, SessionManager.ttlNanos, httl] at hactive
    rw [isActive_eq_true, SessionManager.ttlNanos, hlast]
    exact hactive

theorem issued_step (e : SessionEvent) (events : List SessionEvent) :
    (mgr.step jwt epoch e).issued jwt epoch events = mgr.issued jwt epoch events := by
  obtain ⟨hkey, httl⟩ := mgr.step_key jwt epoch e
  simp only [issued, createSession, newClaims, hkey, httl]

/-- A dead id stays refused as long as it is not minted again. -/
theorem Dead.along {events : List SessionEvent} :
    ∀ {t : Nat} {mgr : SessionManager}, Dead jwt epoch t id mgr → InOrder events →
      (∀ e ∈ events, t ≤ e.time ∧ unixSeconds epoch e.time < 2 ^ 64) →
      id ∉ mgr.issued jwt epoch events →
      Runs.Along (SessionManager.step jwt epoch) (Refuses jwt epoch id) mgr events := by
  induction events with
  | nil => intros; trivial
  | cons e rest ih =>
      intro t mgr hdead horder hclock hfresh
      obtain ⟨hfirst, hrest⟩ := List.pairwise_cons.mp horder
      obtain ⟨hle, hfits⟩ := hclock e List.mem_cons_self
      have hsplit : mgr.issued jwt epoch (e :: rest)
          = mgr.issued jwt epoch [e] ++ mgr.issued jwt epoch rest := by
        simp only [issued, ← List.filterMap_append]
        rfl
      rw [hsplit, List.mem_append, not_or] at hfresh
      refine ⟨fun _ => hdead e.time hle hfits, ?_⟩
      refine ih (hdead.step hle hfits hfresh.1) hrest (fun f hf => ?_) ?_
      · exact ⟨hfirst f hf, (hclock f (List.mem_cons_of_mem _ hf)).2⟩
      · rw [issued_step]
        exact hfresh.2

end

theorem issued_run (before events : List SessionEvent) (mgr : SessionManager) :
    (Runs.run (step jwt epoch) mgr before).issued jwt epoch events
      = mgr.issued jwt epoch events := by
  refine Runs.inv_run (I := fun m => m.issued jwt epoch events = mgr.issued jwt epoch events)
    (G := fun _ _ => True) (fun m e hm _ => (issued_step e events).trans hm) before mgr rfl
    (Runs.along_of_forall fun _ _ _ => trivial)

/-- The event ends the session: it is terminated, or it fails validation. -/
def Ends (id : String) (mgr : SessionManager) (e : SessionEvent) : Prop :=
  e.op = .terminate id ∨
    (e.op = .request id ∧ mgr.validateSession jwt (Now.ofInstant epoch e.time) id = false)

theorem Ends.dead {jwt : Jwt} {epoch : Nat} {id : String} {mgr : SessionManager}
    {e : SessionEvent} (h : mgr.Ends jwt epoch id e) :
    Dead jwt epoch e.time id (mgr.step jwt epoch e) := by
  rcases h with hop | ⟨hop, hrefused⟩
  · refine dead_of_absent ?_
    rw [lookup_step, hop]
    simp only [if_true]
  · have hsame : mgr.step jwt epoch e = mgr := by
      simp only [SessionManager.step, hop, checkAndTouch, hrefused, Bool.false_eq_true, if_false]
    rw [hsame]
    exact dead_of_refused hrefused

/--
**Pruning does not show, and what is gone stays gone.**  Take any run of session events
from any manager, over a clock that does not go back.  Two runs that differ in their prunes
only are observed alike: every request is accepted in the one if it is in the other.  And if
no id is minted twice, then a session that was created and has since been terminated or
refused is refused at every later request.
-/
theorem pruning_unobserved_and_ends_final (mgr : SessionManager) :
    (∀ events events', InOrder events → InOrder events' →
        withoutPrunes events = withoutPrunes events' →
        mgr.observed jwt epoch events = mgr.observed jwt epoch events') ∧
      ∀ before e after id, InOrder (before ++ e :: after) →
        (∀ f ∈ before ++ e :: after, unixSeconds epoch f.time < 2 ^ 64) →
        (mgr.issued jwt epoch (before ++ e :: after)).Nodup →
        id ∈ mgr.issued jwt epoch before →
        Ends jwt epoch id (Runs.run (step jwt epoch) mgr before) e →
        Runs.Along (step jwt epoch) (Refuses jwt epoch id)
          (step jwt epoch (Runs.run (step jwt epoch) mgr before) e) after := by
  refine ⟨?_, ?_⟩
  · intro events events' horder horder' hsame
    rw [observed_eq jwt epoch mgr horder, observed_eq jwt epoch mgr horder', hsame]
  · intro before e after id horder hclock hnodup hid hends
    obtain ⟨hfirst, hafter⟩ := List.pairwise_cons.mp (List.pairwise_append.mp horder).2.1
    refine hends.dead.along hafter (fun f hf => ?_) ?_
    · refine ⟨hfirst f hf, hclock f (List.mem_append_right _ (List.mem_cons_of_mem _ hf))⟩
    · -- The id was minted before, so it is not minted again.
      rw [issued_step, issued_run]
      have hsplit : mgr.issued jwt epoch (before ++ e :: after)
          = mgr.issued jwt epoch before ++ mgr.issued jwt epoch (e :: after) :=
        List.filterMap_append
      rw [hsplit] at hnodup
      intro hagain
      refine (List.nodup_append.mp hnodup).2.2 id hid id ?_ rfl
      obtain ⟨f, hf, hmint⟩ := List.mem_filterMap.mp hagain
      exact List.mem_filterMap.mpr ⟨f, List.mem_cons_of_mem _ hf, hmint⟩

/-- A session of ten seconds that is left alone for eleven: a prune in between is not
noticed, and once a request has been refused a second one is. -/
theorem tenSeconds_pruned_and_ended :
    tenSeconds.observed oneToken 0 [⟨0, .create "u" none⟩, ⟨1000000000, .prune⟩, requestAt 8]
        = tenSeconds.observed oneToken 0 [⟨0, .create "u" none⟩, requestAt 8] ∧
      Runs.Along (step oneToken 0) (Refuses oneToken 0 "token")
        (step oneToken 0 (step oneToken 0 tenSeconds ⟨0, .create "u" none⟩) (requestAt 11))
        [requestAt 12] := by
  refine ⟨?_, ?_⟩
  · exact (pruning_unobserved_and_ends_final oneToken 0 tenSeconds).1 _ _
      (by simp [InOrder, requestAt]) (by simp [InOrder, requestAt]) rfl
  · refine (pruning_unobserved_and_ends_final oneToken 0 tenSeconds).2
      [⟨0, .create "u" none⟩] (requestAt 11) [requestAt 12] "token" ?_ ?_ ?_ ?_ ?_
    · simp [InOrder, requestAt]
    · decide
    · simp [issued, requestAt]
    · simp [issued, createSession, oneToken]
    · exact Or.inr ⟨rfl, by decide⟩

end SessionManager

end McpFederation
