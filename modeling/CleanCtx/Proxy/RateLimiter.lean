import CleanCtx.Library.PositionIndex
import CleanCtx.Library.Text
import CleanCtx.Library.TokenBucket
import Mathlib.Data.Rat.Cast.Order

/-!
The per-client rate limiter of the proxy (`rate_limiter.rs`). Instants and
durations are rational numbers of seconds, token counts are rational.
-/
namespace CleanCtx
namespace Proxy

structure Inner where
  buckets : HashMap String (Bucket ℚ)
  lastGc : ℚ

structure RateLimiter where
  rps : ℚ
  burst : ℚ

/-- `GC_INTERVAL`. -/
def gcInterval : ℚ := 60

/-- `BUCKET_TTL`. -/
def bucketTtl : ℚ := 120

def Inner.new (start : ℚ) : Inner := { buckets := ∅, lastGc := start }

def Inner.collect (inner : Inner) (now : ℚ) : Inner :=
  if gcInterval ≤ Bucket.elapsed now inner.lastGc then
    { buckets := inner.buckets.retain fun _ b => Bucket.elapsed now b.lastRefill < bucketTtl
      lastGc := now }
  else inner

def bucketKey (clientKey : String) : String :=
  if clientKey.isEmpty || clientKey.toList.any isWhiteSpace then "invalid" else clientKey

namespace RateLimiter

variable (limiter : RateLimiter)

/-- `check_at` after the collection: find or create the bucket, refill it, take a token. -/
def checkBucket (inner : Inner) (clientKey : String) (now : ℚ) : Bool × Inner :=
  let key := bucketKey clientKey
  let bucket := (inner.buckets.lookup key).getD { tokens := limiter.burst, lastRefill := now }
  let elapsed := Bucket.elapsed now bucket.lastRefill
  let tokens := min (bucket.tokens + elapsed * limiter.rps) limiter.burst
  if 1 ≤ tokens then
    (true, { inner with buckets := inner.buckets.insert key { tokens := tokens - 1, lastRefill := now } })
  else (false, { inner with buckets := inner.buckets.insert key { tokens, lastRefill := now } })

def checkAt (inner : Inner) (clientKey : String) (now : ℚ) : Bool × Inner :=
  limiter.checkBucket (inner.collect now) clientKey now

end RateLimiter

structure Request where
  client : String
  time : ℚ
  deriving DecidableEq, Repr

def RateLimiter.answers (limiter : RateLimiter) : Inner → List Request → List Bool
  | _, [] => []
  | inner, request :: requests =>
      let checked := limiter.checkAt inner request.client request.time
      checked.1 :: limiter.answers checked.2 requests

end Proxy
end CleanCtx
