/-
The circuit breaker.

`monitor_leaf` counts the health checks that fail in a row, and marks the leaf unhealthy
once the count reaches the threshold; one success marks it healthy again and starts the
count over.  A leaf whose handshake failed at startup is unhealthy from the start, with
one failure on its count already.  Counting and marking are done by different functions on
different branches, and the count is a `u32` that wraps around.

`breaker_law` says what it all comes to, for every sequence of outcomes.  The counter
wraps, but the mark does not come off with it: it is set long before, when the count passes
the threshold, and only a success takes it away.  The round that takes it away fetches the
tools, and no other round touches them.
-/
import McpFederation.Proofs.Refresh

namespace McpFederation

/-! ### Code that leaves the health alone -/

/-- What the breaker works on. -/
def LeafCells.vitals (c : LeafCells) : LeafHealth × UInt32 := (c.health, c.consecutiveFailures)

/-- What a re-fetch works on. -/
def LeafCells.toolCache (c : LeafCells) : List Value × Option Nat :=
  (c.cachedTools, c.lastToolRefresh)

/-- A call that does not touch it. -/
def LeafCall.SparesVitals : LeafCall → Prop
  | .updateCells f => ∀ c, (f c).vitals = c.vitals
  | _ => True

section

variable {env : ClientEnv} {cl : LeafClient}

theorem makes_fetchInto {list : ClientM (List Value)} {store : List Value → LeafM Unit}
    (h : ∀ items, (store items).Makes LeafCall.SparesVitals) :
    (fetchInto list store).Makes LeafCall.SparesVitals := by
  refine Prog.makes_bind (LeafM.makes_ask (fun _ => trivial) list) fun items => ?_
  cases items with
  | ok items => exact h items
  | error e => trivial

theorem makes_fetchTools : (fetchTools env cl).Makes LeafCall.SparesVitals :=
  makes_fetchInto fun _ => ⟨trivial, fun _ => ⟨fun _ => rfl, fun _ => trivial⟩⟩

theorem makes_keepServerInfo (result : Value) :
    (keepServerInfo result).Makes LeafCall.SparesVitals := by
  unfold keepServerInfo
  split
  · exact ⟨fun _ => rfl, fun _ => trivial⟩
  · trivial

theorem makes_keepEverything (result : Value) :
    (keepEverything env cl result).Makes LeafCall.SparesVitals := by
  have hstore : ∀ f : LeafCells → LeafCells, (∀ c, (f c).vitals = c.vitals) →
      (LeafM.updateCells f).Makes LeafCall.SparesVitals := fun f hf =>
    ⟨hf, fun _ => trivial⟩
  refine Prog.makes_bind (makes_keepServerInfo result) fun _ => ?_
  refine Prog.makes_bind makes_fetchTools fun _ => ?_
  refine Prog.makes_bind (makes_fetchInto fun _ => hstore _ fun _ => rfl) fun _ => ?_
  exact makes_fetchInto fun _ => hstore _ fun _ => rfl

end

/-- A task that makes no other calls leaves the health as it found it. -/
theorem vitals_run {S α : Type} (out : Surroundings S) {p : LeafM α}
    (hp : p.Makes LeafCall.SparesVitals) (w : S × LeafCells) :
    (p.run out.exec w).2.2.vitals = w.2.vitals := by
  refine Prog.run_inv (I := fun v => v.2.vitals = w.2.vitals) out.exec ?_ p hp w rfl
  intro c v hc hv
  cases c with
  | updateCells f => exact (hc v.2).trans hv
  | client c => exact hv
  | getOk url => exact hv
  | now => exact hv
  | readCells => exact hv

/-! ### Code that asks for the tools -/

/-- A reply that has come in is not forgotten. -/
theorem ClientCall.isSome_listing (c : ClientCall) (r : c.Reply) (last : Option PostReply)
    (h : last.isSome = true) : (c.listing r last).isSome = true := by
  cases c with
  | post p =>
      unfold listing
      dsimp only
      split
      · rfl
      · exact h
  | nextRequestId => exact h
  | readSession => exact h
  | writeSession id => exact h

theorem LeafCall.isSome_listing (c : LeafCall) (r : c.Reply) (last : Option PostReply)
    (h : last.isSome = true) : (c.listing r last).isSome = true := by
  cases c with
  | client c => exact c.isSome_listing r last h
  | getOk url => exact h
  | now => exact h
  | readCells => exact h
  | updateCells f => exact h

section

variable (env : ClientEnv) (cl : LeafClient)

/-- However it ends, `list_tools` has asked. -/
theorem LeafClient.asks_listTools :
    (cl.listTools env).Ends (fun last _ => last.isSome = true) none := by
  unfold listTools listItems sendRequest
  refine (plain_perform fun _ _ => rfl).bind fun id => ?_
  refine Prog.Outline.bind (Q := fun last _ => last.isSome = true) ?_ fun last r h =>
    Prog.Outline.of_inv ClientCall.isSome_listing _ h
  refine Prog.Outline.bind (ends_sendOnce_listing env cl (methodOf_rpcRequest id _ _) none) ?_
  intro last r h
  obtain ⟨reply, rfl, -⟩ := h
  exact Prog.Outline.of_inv ClientCall.isSome_listing _ rfl

theorem asks_fetchTools :
    (fetchTools env cl).Outline LeafCall.listing (fun _ _ => True)
      (fun last _ => last.isSome = true) none := by
  have hask : (LeafM.ask (cl.listTools env)).Outline LeafCall.listing (fun _ _ => True)
      (fun last _ => last.isSome = true ∧ True) none := by
    refine Prog.Outline.interp id (fun _ => True) ?_ trivial (LeafClient.asks_listTools env cl)
    intro c last _ _
    exact ⟨trivial, fun r => ⟨rfl, trivial⟩⟩
  refine Prog.Outline.bind hask fun last r h => ?_
  exact Prog.Outline.of_inv LeafCall.isSome_listing _ h.1

end

/-! ### Startup, and the rounds of the monitor -/

namespace Surroundings

variable {S : Type} (out : Surroundings S) (env : ClientEnv) (cl : LeafClient)
  (config : HealthCheckConfig)

/-- Whether the handshake at startup fails. -/
def initFails (s : S) : Bool := !((cl.initializeLeaf env).run.run out.client s).1.isOk

/-- What `initialize_all` leaves of a new entry. -/
def started (s : S) : S × LeafCells := ((initializeAllTask env cl).run out.exec (s, {})).2

/-- Whether the next health check succeeds. -/
def checkOk (w : S × LeafCells) : Bool := (out.getOk cl.healthUrl w.1).1.isOk

/-- What fetching the tools leaves of the cached tools and the time they came at. -/
def refetched (s : S) (before : List Value × Option Nat) : List Value × Option Nat :=
  match (cl.listTools env).run.run out.client s with
  | (.ok tools, s) => (tools, some (out.now s).1)
  | (.error _, _) => before

/-- After `n` rounds of the monitor. -/
def afterRounds (n : Nat) (w : S × LeafCells) : S × LeafCells :=
  (fun w => ((monitorRound env cl config).run out.exec w).2)^[n] w

/-- The outcomes of the first `n` health checks, in order. -/
def outcomes (n : Nat) (w : S × LeafCells) : List Bool :=
  (List.range n).map fun i => out.checkOk cl (out.afterRounds env cl config i w)

theorem outcomes_succ (n : Nat) (w : S × LeafCells) :
    out.outcomes env cl config (n + 1) w
      = out.outcomes env cl config n w ++ [out.checkOk cl (out.afterRounds env cl config n w)] := by
  rw [outcomes, List.range_succ, List.map_append]
  rfl

theorem afterRounds_succ (n : Nat) (w : S × LeafCells) :
    out.afterRounds env cl config (n + 1) w
      = ((monitorRound env cl config).run out.exec (out.afterRounds env cl config n w)).2 :=
  Function.iterate_succ_apply' ..

/-- **What startup leaves**: a healthy leaf without failures, or an unhealthy one with one. -/
theorem vitals_started (s : S) :
    (out.started env cl s).2.vitals
      = if out.initFails env cl s then (.unhealthy, 1) else (.healthy, 0) := by
  unfold started initializeAllTask warmUp initFails
  rw [Prog.run_bind, Prog.run_bind, run_ask]
  cases ((cl.initializeLeaf env).run.run out.client s).1 with
  | error e => rfl
  | ok result =>
      show (((LeafM.markHealthy >>= fun _ => keepEverything env cl result >>= fun _ =>
        pure true).run out.exec _).2.2).vitals = _
      rw [Prog.run_bind, Prog.run_bind]
      show ((keepEverything env cl result).run out.exec _).2.2.vitals = _
      rw [vitals_run out (makes_keepEverything result)]
      rfl

variable {out env cl config}

/-- A success: the leaf is healthy, and nothing is on its count. -/
theorem vitals_round_of_ok {w : S × LeafCells} (h : out.checkOk cl w = true) :
    ((monitorRound env cl config).run out.exec w).2.2.vitals = (.healthy, 0) := by
  unfold checkOk at h
  unfold monitorRound LeafClient.healthCheck
  simp only [Prog.perform_bind, Prog.call_bind, Prog.run_call, exec]
  cases hcheck : (out.getOk cl.healthUrl w.1).1 with
  | error e => rw [hcheck] at h; cases h
  | ok u =>
      show ((if !w.2.isHealthy then fetchTools env cl else pure ()).run out.exec _).2.2.vitals = _
      split
      · rw [vitals_run out makes_fetchTools]
        rfl
      · rfl

/-- A failure is counted, and marks the leaf if the count has reached the threshold. -/
theorem vitals_round_of_failure {w : S × LeafCells} (h : out.checkOk cl w = false) :
    ((monitorRound env cl config).run out.exec w).2.2.vitals
      = (if max config.failureThreshold 1 ≤ w.2.consecutiveFailures + 1 then .unhealthy
          else w.2.health, w.2.consecutiveFailures + 1) := by
  unfold checkOk at h
  unfold monitorRound LeafClient.healthCheck
  simp only [Prog.perform_bind, Prog.call_bind, Prog.run_call, exec]
  cases hcheck : (out.getOk cl.healthUrl w.1).1 with
  | ok u => rw [hcheck] at h; cases h
  | error e =>
      show ((if max config.failureThreshold 1 ≤ w.2.consecutiveFailures + 1 then
        LeafM.updateCells _ else pure ()).run out.exec _).2.2.vitals = _
      split <;> rfl

theorem toolsReply_fetchTools (s : S) (cells : LeafCells) :
    (fetchTools env cl).toolsReply out s cells ≠ none :=
  Option.isSome_iff_ne_none.mp ((asks_fetchTools env cl).run out.exec (s, cells))

/-- **When a round fetches the tools**: at a success that finds the leaf unhealthy. -/
theorem toolsReply_round_ne_none_iff (w : S × LeafCells) :
    (monitorRound env cl config).toolsReply out w.1 w.2 ≠ none ↔
      out.checkOk cl w = true ∧ w.2.health = .unhealthy := by
  unfold checkOk LeafM.toolsReply monitorRound LeafClient.healthCheck
  simp only [Prog.perform_bind, Prog.call_bind, Prog.trace, exec, List.foldl_cons]
  cases hcheck : (out.getOk cl.healthUrl w.1).1 with
  | error e =>
      refine iff_of_false ?_ fun h => by cases h.1
      show ¬ (if max config.failureThreshold 1 ≤ w.2.consecutiveFailures + 1 then
        LeafM.updateCells _ else pure ()).toolsReply out _ _ ≠ none
      split <;> exact not_not.mpr rfl
  | ok u =>
      show (if !w.2.isHealthy then fetchTools env cl else pure ()).toolsReply out _ _ ≠ none ↔ _
      by_cases hhealth : w.2.health = .unhealthy
      · have hseen : (!w.2.isHealthy) = true := by simp [LeafCells.isHealthy, hhealth]
        rw [if_pos hseen]
        exact iff_of_true (toolsReply_fetchTools _ _) ⟨rfl, hhealth⟩
      · have hseen : ¬ (!w.2.isHealthy) = true := by simp [LeafCells.isHealthy, hhealth]
        rw [if_neg hseen]
        exact iff_of_false (not_not.mpr rfl) fun h => hhealth h.2

theorem toolCache_fetchTools (w : S × LeafCells) :
    ((fetchTools env cl).run out.exec w).2.2.toolCache
      = out.refetched env cl w.1 w.2.toolCache := by
  unfold fetchTools fetchInto refetched
  rw [Prog.run_bind, out.run_ask]
  dsimp only
  generalize (cl.listTools env).run.run out.client w.1 = asked
  obtain ⟨result, s⟩ := asked
  cases result with
  | error e => rfl
  | ok tools => rfl

/-- **What a round leaves of the tools**: what it fetched, or what was there. -/
theorem toolCache_round (w : S × LeafCells) :
    ((monitorRound env cl config).run out.exec w).2.2.toolCache
      = if out.checkOk cl w = true ∧ w.2.health = .unhealthy then
          out.refetched env cl (out.now (out.getOk cl.healthUrl w.1).2).2 w.2.toolCache
        else w.2.toolCache := by
  unfold checkOk monitorRound LeafClient.healthCheck
  simp only [Prog.perform_bind, Prog.call_bind, Prog.run_call, exec]
  cases hcheck : (out.getOk cl.healthUrl w.1).1 with
  | error e =>
      rw [if_neg fun h => by cases h.1]
      show ((if max config.failureThreshold 1 ≤ w.2.consecutiveFailures + 1 then
        LeafM.updateCells _ else pure ()).run out.exec _).2.2.toolCache = _
      split <;> rfl
  | ok u =>
      show ((if !w.2.isHealthy then fetchTools env cl else pure ()).run out.exec _).2.2.toolCache
        = _
      by_cases hhealth : w.2.health = .unhealthy
      · have hseen : (!w.2.isHealthy) = true := by simp [LeafCells.isHealthy, hhealth]
        rw [if_pos hseen, if_pos ⟨rfl, hhealth⟩, toolCache_fetchTools]
        rfl
      · have hseen : ¬ (!w.2.isHealthy) = true := by simp [LeafCells.isHealthy, hhealth]
        rw [if_neg hseen, if_neg fun h => hhealth h.2]
        rfl

end Surroundings

/-! ### The law -/

/-- How many failures in a row the outcomes end in. -/
def trailingFailures (outcomes : List Bool) : Nat := (outcomes.rtakeWhile (!·)).length

/-- The outcomes end in `n` failures if they end in as many in a row. -/
theorem replicate_suffix_iff (n : Nat) (outcomes : List Bool) :
    List.replicate n false <:+ outcomes ↔ n ≤ trailingFailures outcomes := by
  have key : ∀ (l : List Bool) (n : Nat),
      List.replicate n false <+: l ↔ n ≤ (l.takeWhile (!·)).length := by
    intro l
    induction l with
    | nil => intro n; cases n <;> simp
    | cons o rest ih =>
        intro n
        cases n with
        | zero => simp
        | succ n =>
            rw [List.replicate_succ, List.cons_prefix_cons, ih]
            cases o <;> simp
  rw [← List.reverse_prefix, List.reverse_replicate, key, trailingFailures, List.rtakeWhile,
    List.length_reverse]

theorem trailingFailures_failure (outcomes : List Bool) :
    trailingFailures (outcomes ++ [false]) = trailingFailures outcomes + 1 := by
  simp [trailingFailures]

theorem trailingFailures_success (outcomes : List Bool) :
    trailingFailures (outcomes ++ [true]) = 0 := by
  simp [trailingFailures]

/-- The handshake failed, and nothing has succeeded since. -/
def NeverUp (initFailed : Bool) (outcomes : List Bool) : Prop :=
  initFailed = true ∧ true ∉ outcomes

instance (initFailed : Bool) (outcomes : List Bool) : Decidable (NeverUp initFailed outcomes) :=
  inferInstanceAs (Decidable (_ ∧ _))

/-- Health and count of a leaf, by the outcomes so far. -/
structure BreakerLaw (config : HealthCheckConfig) (initFailed : Bool) (outcomes : List Bool)
    (cells : LeafCells) : Prop where
  known : cells.health ≠ .unknown
  unhealthy : cells.health = .unhealthy ↔
    List.replicate (max config.failureThreshold.toNat 1) false <:+ outcomes ∨
      NeverUp initFailed outcomes
  count : cells.consecutiveFailures.toNat
    = (trailingFailures outcomes + if NeverUp initFailed outcomes then 1 else 0) % UInt32.size

section

variable {config : HealthCheckConfig} {initFailed : Bool} {outcomes : List Bool}
  {cells cells' : LeafCells}

theorem BreakerLaw.success (hvitals : cells'.vitals = (.healthy, 0)) :
    BreakerLaw config initFailed (outcomes ++ [true]) cells' := by
  obtain ⟨hhealth, hcount⟩ := Prod.mk.inj hvitals
  have hup : ¬ NeverUp initFailed (outcomes ++ [true]) := fun h => h.2 (by simp)
  refine ⟨by simp [hhealth], iff_of_false (by simp [hhealth]) ?_, ?_⟩
  · intro h
    rcases h with h | h
    · rw [replicate_suffix_iff, trailingFailures_success] at h
      omega
    · exact hup h
  · rw [hcount, if_neg hup, trailingFailures_success]
    rfl

/-- The threshold, as a number. -/
theorem threshold_le_iff (config : HealthCheckConfig) (n : UInt32) :
    max config.failureThreshold 1 ≤ n ↔ max config.failureThreshold.toNat 1 ≤ n.toNat := by
  show (if config.failureThreshold ≤ 1 then 1 else config.failureThreshold) ≤ n ↔ _
  rw [UInt32.le_iff_toNat_le]
  split
  · next h =>
      have hle : config.failureThreshold.toNat ≤ 1 := UInt32.le_iff_toNat_le.mp h
      rw [Nat.max_eq_right hle]
      rfl
  · next h =>
      have hlt : 1 < config.failureThreshold.toNat :=
        Nat.lt_of_not_le fun hle => h (UInt32.le_iff_toNat_le.mpr hle)
      rw [Nat.max_eq_left (Nat.le_of_lt hlt)]

theorem BreakerLaw.failure (h : BreakerLaw config initFailed outcomes cells)
    (hvitals : cells'.vitals
      = (if max config.failureThreshold 1 ≤ cells.consecutiveFailures + 1 then .unhealthy
          else cells.health, cells.consecutiveFailures + 1)) :
    BreakerLaw config initFailed (outcomes ++ [false]) cells' := by
  obtain ⟨hhealth, hcount⟩ := Prod.mk.inj hvitals
  have hup : NeverUp initFailed (outcomes ++ [false]) ↔ NeverUp initFailed outcomes := by
    simp [NeverUp]
  have hnext : (cells.consecutiveFailures + 1).toNat
      = (trailingFailures outcomes + 1
          + if NeverUp initFailed outcomes then 1 else 0) % UInt32.size := by
    rw [UInt32.toNat_add, h.count, Nat.mod_add_mod, Nat.add_right_comm]
    rfl
  have hunhealthy : cells'.health = .unhealthy ↔
      max config.failureThreshold.toNat 1 ≤ (cells.consecutiveFailures + 1).toNat ∨
        cells.health = .unhealthy := by
    rw [hhealth, ← threshold_le_iff]
    split
    · next hle => simp only [hle, true_or]
    · next hlt => simp only [hlt, false_or]
  refine ⟨?_, ?_, ?_⟩
  · rw [hhealth]
    split
    · simp
    · exact h.known
  · rw [hunhealthy, h.unhealthy, hup, replicate_suffix_iff, replicate_suffix_iff,
      trailingFailures_failure, hnext, ← or_assoc]
    -- A leaf that was never up is unhealthy anyway; otherwise the count is exact until it
    -- passes the threshold, which is below the point where it wraps around.
    by_cases hnever : NeverUp initFailed outcomes
    · simp only [hnever, or_true]
    · have hbound := config.failureThreshold.toNat_lt
      simp only [hnever, if_false, or_false, UInt32.size]
      omega
  · rw [hcount, hnext, trailingFailures_failure]
    simp only [hup]

/-- At startup. -/
theorem BreakerLaw.start
    (hvitals : cells.vitals = if initFailed then (.unhealthy, 1) else (.healthy, 0)) :
    BreakerLaw config initFailed [] cells := by
  have hnone : ¬ List.replicate (max config.failureThreshold.toNat 1) false <:+ [] := by
    rw [replicate_suffix_iff]
    simp [trailingFailures]
  cases initFailed with
  | true =>
      obtain ⟨hhealth, hcount⟩ := Prod.mk.inj hvitals
      refine ⟨by simp [hhealth], ?_, ?_⟩
      · simp [hhealth, NeverUp]
      · simp [hcount, NeverUp, trailingFailures]
  | false =>
      obtain ⟨hhealth, hcount⟩ := Prod.mk.inj hvitals
      refine ⟨by simp [hhealth], ?_, ?_⟩
      · simp [hhealth, NeverUp, hnone]
      · simp [hcount, NeverUp, trailingFailures]

end

/-- What the law says is kept by every round. -/
theorem breakerLaw_rounds {S : Type} (out : Surroundings S) (env : ClientEnv) (cl : LeafClient)
    (config : HealthCheckConfig) (s : S) (n : Nat) :
    BreakerLaw config (out.initFails env cl s)
      (out.outcomes env cl config n (out.started env cl s))
      (out.afterRounds env cl config n (out.started env cl s)).2 := by
  induction n with
  | zero => exact BreakerLaw.start (out.vitals_started env cl s)
  | succ n ih =>
      rw [out.outcomes_succ, out.afterRounds_succ]
      cases hcheck : out.checkOk cl (out.afterRounds env cl config n (out.started env cl s)) with
      | true => exact BreakerLaw.success (Surroundings.vitals_round_of_ok hcheck)
      | false => exact ih.failure (Surroundings.vitals_round_of_failure hcheck)

/--
**The law of the breaker.**  However the leaf, its health endpoint and the clock answer,
after startup and any number of rounds the health and the count are what the outcomes so far
say.  The next round fetches the tools exactly if its check succeeds and finds the leaf
unhealthy; it then leaves what that gave, with the time, and otherwise the tools it found.
-/
theorem breaker_law {S : Type} (out : Surroundings S) (env : ClientEnv) (cl : LeafClient)
    (config : HealthCheckConfig) (s : S) (n : Nat) :
    let w := out.afterRounds env cl config n (out.started env cl s)
    BreakerLaw config (out.initFails env cl s)
        (out.outcomes env cl config n (out.started env cl s)) w.2 ∧
      ((monitorRound env cl config).toolsReply out w.1 w.2 ≠ none ↔
        out.checkOk cl w = true ∧ w.2.health = .unhealthy) ∧
      ((monitorRound env cl config).run out.exec w).2.2.toolCache
        = if out.checkOk cl w = true ∧ w.2.health = .unhealthy then
            out.refetched env cl (out.now (out.getOk cl.healthUrl w.1).2).2 w.2.toolCache
          else w.2.toolCache :=
  ⟨breakerLaw_rounds out env cl config s n, Surroundings.toolsReply_round_ne_none_iff _,
    Surroundings.toolCache_round _⟩

end McpFederation
