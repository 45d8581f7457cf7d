/-
What the rate limiter lets through.

Two facts.  A client's requests are decided by its own requests alone: the buckets are kept
under a label, the label is derived from the bearer token, and two tokens that `resolve`
accepts never share one.  And the bucket of one label does what a token bucket is for,
stated over every window of the past: it is a meter in the sense of `Lib/Meter.lean`, whose
supply at an instant is the rate times the seconds so far.
-/
import Std.Data.String.ToNat
import Mathlib.Tactic.Ring
import McpFederation.Lib.Meter
import McpFederation.Model.RateLimit
import McpFederation.Model.Rbac

namespace McpFederation

/-! ### A bucket is a meter -/

/-- The seconds from one instant to a later one. -/
def seconds (t u : Nat) : Rat := ((u - t : Nat) : Rat) / 1000000000

/-- What a rate has supplied by an instant. -/
def supplyAt (rate : Rat) (t : Nat) : Rat := rate * ((t : Rat) / 1000000000)

theorem supplyAt_sub (rate : Rat) {t u : Nat} (h : t ≤ u) :
    supplyAt rate u - supplyAt rate t = rate * seconds t u := by
  rw [supplyAt, supplyAt, seconds, Nat.cast_sub h]
  ring

theorem supplyAt_mono {rate : Rat} (hrate : 0 ≤ rate) {t u : Nat} (h : t ≤ u) :
    supplyAt rate t ≤ supplyAt rate u := by
  have hseconds : 0 ≤ rate * seconds t u := 
    mul_nonneg hrate (div_nonneg (Nat.cast_nonneg _) (by norm_num))
  rw [← supplyAt_sub rate h] at hseconds
  linarith

namespace TokenBucket

variable {b : TokenBucket} {now : Nat}

/-- The bucket as a meter. -/
def meter (b : TokenBucket) : Meter.State Rat := ⟨b.tokens, supplyAt b.refillRate b.lastRefill⟩

/-- A bucket that holds no more than it can, last filled at a time that has passed. -/
structure Current (b : TokenBucket) (now : Nat) : Prop where
  le_max : b.tokens ≤ b.maxTokens
  past : b.lastRefill ≤ now

/-- Refilling is filling the meter; with no time passed there is nothing to fill. -/
theorem meter_refill (h : b.Current now) :
    (b.refill now).meter = Meter.fill b.maxTokens b.meter (supplyAt b.refillRate now) ∧
      (b.refill now).lastRefill = now ∧ (b.refill now).maxTokens = b.maxTokens ∧
      (b.refill now).refillRate = b.refillRate := by
  have hgain := supplyAt_sub b.refillRate h.past
  rw [seconds] at hgain
  unfold refill
  dsimp only
  split
  · refine ⟨?_, rfl, rfl, rfl⟩
    rw [meter, meter, Meter.fill, hgain, mul_comm b.refillRate]
  · rename_i hzero
    have hnow : now = b.lastRefill := by
      by_contra hne
      have hpos : 0 < now - b.lastRefill := by
        have hpast := h.past
        omega
      have hcast : (0 : Rat) < ((now - b.lastRefill : Nat) : Rat) := Nat.cast_pos.mpr hpos
      exact hzero (div_pos hcast (by norm_num))
    refine ⟨?_, hnow.symm, rfl, rfl⟩
    rw [meter, Meter.fill, hnow, sub_self, add_zero, min_eq_left h.le_max]

/-- An attempt on the bucket is an arrival at the meter. -/
theorem meter_tryAcquire (h : b.Current now) :
    (b.tryAcquire now).1 = (Meter.serve b.maxTokens b.meter (supplyAt b.refillRate now)).1 ∧
      (b.tryAcquire now).2.meter
        = (Meter.serve b.maxTokens b.meter (supplyAt b.refillRate now)).2 ∧
      (b.tryAcquire now).2.Current now ∧ (b.tryAcquire now).2.maxTokens = b.maxTokens ∧
      (b.tryAcquire now).2.refillRate = b.refillRate := by
  obtain ⟨hmeter, hlast, hmax, hrate⟩ := meter_refill h
  have htokens : (b.refill now).tokens
      = (Meter.fill b.maxTokens b.meter (supplyAt b.refillRate now)).balance :=
    congrArg Meter.State.balance hmeter
  have hle : (b.refill now).tokens ≤ b.maxTokens := by
    rw [htokens]
    exact min_le_right _ _
  rw [Meter.serve, Meter.spend, ← htokens]
  unfold tryAcquire
  dsimp only
  split
  · refine ⟨rfl, ?_, ⟨?_, hlast.le⟩, hmax, hrate⟩
    · rw [meter, htokens, hlast, hrate]
      rfl
    · show (b.refill now).tokens - 1 ≤ (b.refill now).maxTokens
      rw [hmax]
      linarith
  · exact ⟨rfl, hmeter, ⟨by rw [hmax]; exact hle, hlast.le⟩, hmax, hrate⟩

end TokenBucket

namespace RateLimiter

variable {l : RateLimiter} {key : String}

/-- The tokens a full bucket has. -/
def burst (l : RateLimiter) : Rat := l.config.burstSize.toNat

/-- The tokens a bucket gains in a second. -/
def rate (l : RateLimiter) : Rat := l.config.requestsPerSecond.toNat

theorem rate_nonneg (l : RateLimiter) : 0 ≤ l.rate := Nat.cast_nonneg _

theorem burst_nonneg (l : RateLimiter) : 0 ≤ l.burst := Nat.cast_nonneg _

/-- The calls for one key, each with its answer. -/
def decisions (l : RateLimiter) (key : String) (times : List Nat) : List (Nat × Bool) :=
  Runs.outputs (fun l t => l.check key t) l times

theorem config_check (l : RateLimiter) (key : String) (now : Nat) :
    (l.check key now).2.config = l.config := by
  unfold check
  split <;> rfl

/-- What a call leaves under another key. -/
theorem lookup_check_ne {other : String} (now : Nat) (h : other ≠ key) :
    (l.check key now).2.buckets.lookup other = l.buckets.lookup other := by
  unfold check
  split
  · exact AList.lookup_insert_ne h
  · rfl

/-- A call of an enabled limiter is an attempt on the key's bucket. -/
theorem check_eq (key : String) (henabled : l.config.enabled = true) (now : Nat) :
    (l.check key now).1 = ((l.bucket key now).tryAcquire now).1 ∧
      (l.check key now).2.buckets.lookup key
        = some ((l.bucket key now).tryAcquire now).2 := by
  unfold check
  rw [if_pos henabled]
  exact ⟨rfl, AList.lookup_insert _⟩

/-- The key's part of the limiter as a meter, with these calls still to come in order.
Before the first call there is no bucket, and the meter is full. -/
structure Metered (cap r : Rat) (key : String) (l : RateLimiter) (m : Meter.State Rat)
    (rest : List Nat) : Prop where
  enabled : l.config.enabled = true
  burst : l.burst = cap
  rate : l.rate = r
  order : rest.Pairwise (· ≤ ·)
  empty : l.buckets.lookup key = none → m = ⟨cap, 0⟩
  full : ∀ b, l.buckets.lookup key = some b →
    b.meter = m ∧ b.maxTokens = cap ∧ b.refillRate = r ∧ ∀ t ∈ rest, b.Current t

/-- Whichever bucket a call finds or makes, it is current, and it answers like the meter. -/
theorem Metered.bucket {cap r : Rat} {m : Meter.State Rat} {t : Nat} {rest : List Nat}
    (h : Metered cap r key l m (t :: rest)) :
    (l.bucket key t).Current t ∧ (l.bucket key t).maxTokens = cap ∧
      (l.bucket key t).refillRate = r ∧
      Meter.serve cap (l.bucket key t).meter (supplyAt r t)
        = Meter.serve cap m (supplyAt r t) := by
  cases hlook : l.buckets.lookup key with
  | some b =>
      obtain ⟨hmeter, hmax, hrate, hcurrent⟩ := h.full b hlook
      have hbucket : l.bucket key t = b := by rw [RateLimiter.bucket, hlook]; rfl
      rw [hbucket, hmeter]
      exact ⟨hcurrent t List.mem_cons_self, hmax, hrate, rfl⟩
  | none =>
      have hbucket : l.bucket key t = TokenBucket.new l.burst l.rate t := by
        rw [RateLimiter.bucket, hlook]
        rfl
      rw [hbucket, h.burst, h.rate, h.empty hlook]
      refine ⟨⟨le_refl _, le_refl _⟩, rfl, rfl, ?_⟩
      -- A full meter stays full, however much has been supplied since.
      have hsupply : 0 ≤ supplyAt r t := by
        rw [← h.rate]
        exact mul_nonneg l.rate_nonneg (div_nonneg (Nat.cast_nonneg _) (by norm_num))
      have hfill : ∀ w, w ≤ supplyAt r t →
          Meter.fill cap ⟨cap, w⟩ (supplyAt r t) = ⟨cap, supplyAt r t⟩ := by
        intro w hw
        rw [Meter.fill, min_eq_right (by linarith)]
      show Meter.serve cap ⟨cap, supplyAt r t⟩ (supplyAt r t) = _
      rw [Meter.serve, Meter.serve, hfill _ (le_refl _), hfill _ hsupply]

/-- One call: the limiter answers as the meter does, and stays described by it. -/
theorem Metered.check {cap r : Rat} {m : Meter.State Rat} {t : Nat} {rest : List Nat}
    (h : Metered cap r key l m (t :: rest)) :
    (l.check key t).1 = (Meter.serve cap m (supplyAt r t)).1 ∧
      Metered cap r key (l.check key t).2 (Meter.serve cap m (supplyAt r t)).2 rest := by
  obtain ⟨hcurrent, hmax, hrate, hserve⟩ := h.bucket
  obtain ⟨hout, hmeter, hnext, hmax', hrate'⟩ := TokenBucket.meter_tryAcquire hcurrent
  rw [hmax, hrate, hserve] at hout hmeter
  obtain ⟨hcheck, hlook⟩ := check_eq key h.enabled t
  obtain ⟨hfirst, hrest⟩ := List.pairwise_cons.mp h.order
  have hconfig := l.config_check key t
  refine ⟨hcheck.trans hout, ?_, ?_, ?_, hrest, ?_, ?_⟩
  · rw [hconfig]
    exact h.enabled
  · rw [RateLimiter.burst, hconfig]
    exact h.burst
  · rw [RateLimiter.rate, hconfig]
    exact h.rate
  · intro hnone
    rw [hlook] at hnone
    simp at hnone
  · intro b hb
    rw [hlook, Option.some.injEq] at hb
    rw [← hb]
    refine ⟨hmeter, hmax'.trans hmax, hrate'.trans hrate, fun u hu => ?_⟩
    exact ⟨hnext.le_max, Nat.le_trans hnext.past (hfirst u hu)⟩

/-- The limiter's answers for one key are those of a full meter. -/
theorem map_decisions (henabled : l.config.enabled = true) (hnew : l.buckets.lookup key = none)
    {times : List Nat} (horder : times.Pairwise (· ≤ ·)) :
    (l.decisions key times).map (fun o => (supplyAt l.rate o.1, o.2))
      = Runs.outputs (Meter.serve l.burst) ⟨l.burst, 0⟩ (times.map (supplyAt l.rate)) := by
  refine Runs.outputs_refine (R := Metered l.burst l.rate key) (supplyAt l.rate)
    (fun s m t rest h => h.check) times l _ ⟨henabled, rfl, rfl, horder, fun _ => rfl, ?_⟩
  intro b hb
  rw [hnew] at hb
  simp at hb

/-- Calls come in the order of their times. -/
theorem decisions_le {times : List Nat} (horder : times.Pairwise (· ≤ ·)) {i j t u : Nat}
    {b d : Bool} (hij : i ≤ j) (hi : (l.decisions key times)[i]? = some (u, b))
    (hj : (l.decisions key times)[j]? = some (t, d)) : u ≤ t := by
  have htime : ∀ {k v : Nat} {c : Bool}, (l.decisions key times)[k]? = some (v, c) →
      times[k]? = some v := by
    intro k v c hk
    rw [← Runs.map_fst_outputs (fun l t => RateLimiter.check l key t) times l, List.getElem?_map]
    show Option.map Prod.fst (l.decisions key times)[k]? = some v
    rw [hk]
    rfl
  obtain ⟨hilt, hi⟩ := List.getElem?_eq_some_iff.mp (htime hi)
  obtain ⟨hjlt, hj⟩ := List.getElem?_eq_some_iff.mp (htime hj)
  rcases Nat.lt_or_ge i j with hlt | hge
  · rw [← hi, ← hj]
    exact List.pairwise_iff_getElem.mp horder i j hilt hjlt hlt
  · obtain rfl : i = j := Nat.le_antisymm hij hge
    omega

/--
**The token bucket.**  Calls for one key come in order of time, and the key has no bucket at
first.  A call is accepted exactly when, for it and for every call before it, the calls
accepted from that one on, this one included, are no more than the burst and the rate over
the time between.  And so no window, whichever calls it begins and ends with, holds more
accepted calls than that.
-/
theorem check_accepts_iff (l : RateLimiter) (key : String) (times : List Nat)
    (henabled : l.config.enabled = true) (hnew : l.buckets.lookup key = none)
    (horder : times.Pairwise (· ≤ ·)) :
    (∀ j t accepted, (l.decisions key times)[j]? = some (t, accepted) →
        (accepted = true ↔ ∀ i u b, i ≤ j → (l.decisions key times)[i]? = some (u, b) →
          (Meter.served (l.decisions key times) i j : Rat) + 1
            ≤ l.burst + l.rate * seconds u t)) ∧
      ∀ i j u t b accepted, i ≤ j → (l.decisions key times)[i]? = some (u, b) →
        (l.decisions key times)[j]? = some (t, accepted) →
        (Meter.served (l.decisions key times) i (j + 1) : Rat)
          ≤ l.burst + l.rate * seconds u t := by
  have hmap := map_decisions henabled hnew horder
  have hsupply : (times.map (supplyAt l.rate)).Pairwise (· ≤ ·) :=
    List.pairwise_map.mpr (horder.imp fun h => supplyAt_mono l.rate_nonneg h)
  have hpos : ∀ w ∈ times.map (supplyAt l.rate), 0 ≤ w := by
    intro w hw
    obtain ⟨t, -, rfl⟩ := List.mem_map.mp hw
    exact mul_nonneg l.rate_nonneg (div_nonneg (Nat.cast_nonneg _) (by norm_num))
  obtain ⟨hconforms, hwithin⟩ := Meter.conforms_outputs l.burst_nonneg hsupply hpos
  rw [← hmap] at hconforms hwithin
  have hat : ∀ {k t : Nat} {d : Bool}, (l.decisions key times)[k]? = some (t, d) →
      ((l.decisions key times).map fun o => (supplyAt l.rate o.1, o.2))[k]?
        = some (supplyAt l.rate t, d) := by
    intro k t d hk
    rw [List.getElem?_map, hk]
    rfl
  refine ⟨?_, ?_⟩
  · intro j t accepted hj
    rw [hconforms j _ accepted (hat hj)]
    refine ⟨fun hall i u b hij hi => ?_, fun hall i v b hij hi => ?_⟩
    · have hle := hall i _ b hij (hat hi)
      rw [Meter.served_map, supplyAt_sub l.rate (decisions_le horder hij hi hj)] at hle
      exact hle
    · rw [List.getElem?_map, Option.map_eq_some_iff] at hi
      obtain ⟨⟨u, c⟩, hi, hmk⟩ := hi
      obtain ⟨rfl, rfl⟩ := Prod.mk.inj hmk
      rw [Meter.served_map, supplyAt_sub l.rate (decisions_le horder hij hi hj)]
      exact hall i u c hij hi
  · intro i j u t b accepted hij hi hj
    have hle := hwithin i j _ _ b accepted hij (hat hi) (hat hj)
    rw [Meter.served_map, supplyAt_sub l.rate (decisions_le horder hij hi hj)] at hle
    exact hle

/-- A limiter of two requests at once and one a second. -/
def twoAtOnce : RateLimiter :=
  RateLimiter.new { enabled := true, requestsPerSecond := 1, burstSize := 2 }

/-- Four calls, the last a second after the others: the third is one too many for the
burst, the fourth has its token, and the four hold no more than the burst and that token. -/
theorem twoAtOnce_four_calls :
    (twoAtOnce.decisions "k" [0, 0, 0, 1000000000]).map Prod.snd = [true, true, false, true] ∧
      (Meter.served (twoAtOnce.decisions "k" [0, 0, 0, 1000000000]) 0 4 : Rat)
        ≤ twoAtOnce.burst + twoAtOnce.rate * seconds 0 1000000000 := by
  have hfour : twoAtOnce.decisions "k" [0, 0, 0, 1000000000]
      = [(0, true), (0, true), (0, false), (1000000000, true)] := by
    decide +kernel
  refine ⟨by rw [hfour]; rfl, ?_⟩
  refine (check_accepts_iff twoAtOnce "k" [0, 0, 0, 1000000000] rfl rfl (by decide)).2
    0 3 0 1000000000 true true (by decide) ?_ ?_
  · rw [hfour]; rfl
  · rw [hfour]; rfl

end RateLimiter

/-! ### One client at a time -/

/-- A request, as far as the limiter sees it. -/
structure TimedRequest where
  token : String
  time : Nat

/-- The entry that a client is resolved to has its token, and its index is in the label. -/
theorem resolveClient_eq_some {presented : String} {ctx : RequestContext} :
    ∀ {clients : List ClientConfig} {idx : Nat},
      resolveClient presented idx clients = some ctx →
      ∃ (k : Nat) (client : ClientConfig), clients[k]? = some client ∧
        client.token = presented ∧ ctx.clientLabel = "client-" ++ toString (idx + k) := by
  intro clients
  induction clients with
  | nil => intro idx h; simp [resolveClient] at h
  | cons client rest ih =>
      intro idx h
      unfold resolveClient at h
      by_cases htok : client.token = presented
      · rw [if_pos htok, Option.some.injEq] at h
        subst h
        exact ⟨0, client, rfl, htok, rfl⟩
      · rw [if_neg htok] at h
        obtain ⟨k, found, hk, hfound, hlabel⟩ := ih h
        refine ⟨k + 1, found, hk, hfound, ?_⟩
        rw [hlabel, Nat.add_right_comm, Nat.add_assoc]

/-- A label says who it is: the admin, or the entry with its index. -/
theorem resolve_label {presented adminToken : String} {clients : List ClientConfig}
    {ctx : RequestContext} (h : resolve presented adminToken clients = some ctx) :
    (presented = adminToken ∧ ctx.clientLabel = "admin") ∨
      ∃ (k : Nat) (client : ClientConfig), clients[k]? = some client ∧
        client.token = presented ∧ ctx.clientLabel = "client-" ++ toString k := by
  unfold resolve at h
  by_cases hadmin : presented = adminToken
  · rw [if_pos hadmin, Option.some.injEq] at h
    rw [← h]
    exact Or.inl ⟨hadmin, rfl⟩
  · rw [if_neg hadmin] at h
    obtain ⟨k, client, hk, htok, hlabel⟩ := resolveClient_eq_some h
    rw [Nat.zero_add] at hlabel
    exact Or.inr ⟨k, client, hk, htok, hlabel⟩

theorem client_label_ne_admin (k : Nat) : "client-" ++ toString k ≠ "admin" := by
  intro h
  have hlist := congrArg String.toList h
  rw [String.toList_append] at hlist
  have hhead := congrArg List.head? hlist
  simp at hhead

theorem client_label_inj {k k' : Nat} (h : "client-" ++ toString k = "client-" ++ toString k') :
    k = k' := by
  rw [String.append_right_inj] at h
  exact Nat.repr_injective h

/-- **Labels tell tokens apart.** -/
theorem resolve_label_inj {tok tok' adminToken : String} {clients : List ClientConfig}
    {ctx ctx' : RequestContext} (h : resolve tok adminToken clients = some ctx)
    (h' : resolve tok' adminToken clients = some ctx')
    (hlabel : ctx.clientLabel = ctx'.clientLabel) : tok = tok' := by
  rcases resolve_label h with ⟨htok, hadmin⟩ | ⟨k, client, hk, htok, hclient⟩ <;>
    rcases resolve_label h' with ⟨htok', hadmin'⟩ | ⟨k', client', hk', htok', hclient'⟩
  · rw [htok, htok']
  · rw [hadmin, hclient'] at hlabel
    exact absurd hlabel.symm (client_label_ne_admin k')
  · rw [hclient, hadmin'] at hlabel
    exact absurd hlabel (client_label_ne_admin k)
  · rw [hclient, hclient'] at hlabel
    rw [client_label_inj hlabel, hk', Option.some.injEq] at hk
    rw [← htok, ← htok', hk]

namespace RateLimiter

/-- The limiter's part of a request: none if the token is refused, else the decision for
the label that the token resolves to. -/
def admission (adminToken : String) (clients : List ClientConfig) (l : RateLimiter)
    (req : TimedRequest) : Option Bool × RateLimiter :=
  match resolve req.token adminToken clients with
  | none => (none, l)
  | some ctx => ((l.check ctx.clientLabel req.time).1, (l.check ctx.clientLabel req.time).2)

/-- Limiters that agree on the bucket of one key answer alike for it. -/
theorem check_congr {l l' : RateLimiter} {key : String} (hconfig : l.config = l'.config)
    (hbucket : l.buckets.lookup key = l'.buckets.lookup key) (now : Nat) :
    (l.check key now).1 = (l'.check key now).1 ∧
      (l.check key now).2.buckets.lookup key = (l'.check key now).2.buckets.lookup key := by
  have hsame : l.bucket key now = l'.bucket key now := by
    rw [bucket, bucket, hbucket, hconfig]
  by_cases henabled : l.config.enabled = true
  · obtain ⟨hout, hlook⟩ := check_eq key henabled now
    obtain ⟨hout', hlook'⟩ := check_eq (l := l') key (hconfig ▸ henabled) now
    rw [hout, hout', hlook, hlook', hsame]
    exact ⟨rfl, rfl⟩
  · have henabled' : l'.config.enabled ≠ true := hconfig ▸ henabled
    rw [check, check, if_neg henabled, if_neg henabled']
    exact ⟨rfl, hbucket⟩

/--
**A client's requests are decided by its own.**  In any sequence of requests, whatever
tokens they carry and at whatever times, the decisions on the requests of one token are
those of the sequence with every other request taken out.
-/
theorem admissions_isolated (adminToken : String) (clients : List ClientConfig)
    (config : RateLimitConfig) (requests : List TimedRequest) (tok : String) :
    (Runs.outputs (admission adminToken clients) (RateLimiter.new config) requests).filter
        (fun o => decide (o.1.token = tok))
      = Runs.outputs (admission adminToken clients) (RateLimiter.new config)
          (requests.filter fun req => decide (req.token = tok)) := by
  refine Runs.outputs_filter
    (R := fun l l' _ => l.config = l'.config ∧
      ∀ ctx, resolve tok adminToken clients = some ctx →
        l.buckets.lookup ctx.clientLabel = l'.buckets.lookup ctx.clientLabel)
    (fun req : TimedRequest => decide (req.token = tok)) ?_ ?_ requests _ _
    ⟨rfl, fun _ _ => rfl⟩
  · intro l l' req rest hR hmine
    obtain ⟨hconfig, hbucket⟩ := hR
    obtain rfl : req.token = tok := of_decide_eq_true hmine
    unfold admission
    cases hctx : resolve req.token adminToken clients with
    | none => exact ⟨rfl, hconfig, fun ctx hc => by simp at hc⟩
    | some ctx =>
        obtain ⟨hout, hlook⟩ := check_congr hconfig (hbucket ctx hctx) req.time
        refine ⟨congrArg some hout, ?_, fun ctx' hc => ?_⟩
        · show (l.check _ _).2.config = (l'.check _ _).2.config
          rw [config_check, config_check]
          exact hconfig
        · rw [Option.some.injEq] at hc
          rw [← hc]
          exact hlook
  · -- Another token has another label, and so another bucket.
    intro l l' req rest hR hother
    obtain ⟨hconfig, hbucket⟩ := hR
    have hne : req.token ≠ tok := of_decide_eq_false hother
    unfold admission
    cases hctx : resolve req.token adminToken clients with
    | none => exact ⟨hconfig, hbucket⟩
    | some ctx =>
        refine ⟨(config_check _ _ _).trans hconfig, fun ctx' hc => ?_⟩
        have hlabel : ctx'.clientLabel ≠ ctx.clientLabel :=
          fun heq => hne (resolve_label_inj hctx hc heq.symm)
        rw [lookup_check_ne req.time hlabel]
        exact hbucket ctx' hc

end RateLimiter

end McpFederation
