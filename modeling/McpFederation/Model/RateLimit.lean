/-
The rate limiter.

`rate_limit.rs`: one token bucket for each key, made full on the key's first request.
The `f64` quantities are read as the rationals they stand for, and instants are counted
in nanoseconds.
-/
import Mathlib.Algebra.Order.Field.Rat
import Mathlib.Data.List.AList
import McpFederation.Model.Config

namespace McpFederation

structure TokenBucket where
  tokens : Rat
  maxTokens : Rat
  refillRate : Rat
  lastRefill : Nat
deriving DecidableEq

namespace TokenBucket

/-- Full; `now` is the instant that the constructor reads itself. -/
def new (maxTokens refillRate : Rat) (now : Nat) : TokenBucket :=
  ⟨maxTokens, maxTokens, refillRate, now⟩

/-- Time that has not passed, or has gone back, refills nothing. -/
def refill (b : TokenBucket) (now : Nat) : TokenBucket :=
  let elapsed : Rat := ((now - b.lastRefill : Nat) : Rat) / 1000000000
  if 0 < elapsed then
    { b with tokens := min (b.tokens + elapsed * b.refillRate) b.maxTokens, lastRefill := now }
  else b

def tryAcquire (b : TokenBucket) (now : Nat) : Bool × TokenBucket :=
  let b := b.refill now
  if 1 ≤ b.tokens then (true, { b with tokens := b.tokens - 1 }) else (false, b)

end TokenBucket

structure RateLimiter where
  config : RateLimitConfig
  buckets : AList (fun _ : String => TokenBucket)

namespace RateLimiter

def new (config : RateLimitConfig) : RateLimiter := ⟨config, ∅⟩

/-- The key's bucket, or a new full one.  The call that makes the bucket reads the clock twice,
for `check` and then for `TokenBucket::new`; its `now` is the second reading, since a new bucket
has nothing to refill and the first decides nothing. -/
def bucket (l : RateLimiter) (key : String) (now : Nat) : TokenBucket :=
  (l.buckets.lookup key).getD
    (TokenBucket.new l.config.burstSize.toNat l.config.requestsPerSecond.toNat now)

/-- Whether the request may proceed, and the limiter after. -/
def check (l : RateLimiter) (key : String) (now : Nat) : Bool × RateLimiter :=
  if l.config.enabled then
    let (allowed, b) := (l.bucket key now).tryAcquire now
    (allowed, { l with buckets := l.buckets.insert key b })
  else (true, l)

end RateLimiter

end McpFederation
